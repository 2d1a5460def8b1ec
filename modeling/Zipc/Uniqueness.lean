import Zipc.Identity
import Mathlib.Data.Finset.Card

/-! # Buffer IDs are unique

A call that has counted itself into the gate and then sees its session again keeps that
session in place until it counts itself out: a rotation sets the rotating bit first and
resets the sequence only when it has seen the gate empty. So the sequence of a session
only grows while calls take numbers from it, and no two calls take the same one.
-/

namespace Zipc

open Atomic

section Words

theorem rotating_or (s : Nat) : (s ||| sessionRotating) &&& sessionRotating = sessionRotating := by
  apply Nat.eq_of_testBit_eq
  intro i
  simp only [Nat.testBit_and, Nat.testBit_or]
  cases s.testBit i <;> simp

theorem rotating_eq_add {s : Nat} (small : s < 2 ^ 24) :
    s ||| sessionRotating = sessionRotating + s := by
  have packed : 1 <<< 31 ||| s = 1 * 2 ^ 31 + s := Packed.pack_eq (by omega)
  rw [Nat.or_comm, sessionRotating]
  simpa using packed

theorem and_rotating {s : Nat} (small : s < 2 ^ 24) : s &&& sessionRotating = 0 := by
  have top : s < 2 ^ 31 := by omega
  rw [sessionRotating, show (0x80000000 : Nat) = 2 ^ 31 from rfl, Nat.and_two_pow,
    Nat.testBit_lt_two_pow top]
  rfl

theorem and_mask {s : Nat} (small : s < 2 ^ 24) : s &&& sessionMask = s := by
  rw [sessionMask, show (0x00ffffff : Nat) = 2 ^ 24 - 1 from rfl, Nat.and_two_pow_sub_one_eq_mod,
    Nat.mod_eq_of_lt small]

theorem and_mask_lt (word : Nat) : word &&& sessionMask < 2 ^ 24 := by
  rw [sessionMask, show (0x00ffffff : Nat) = 2 ^ 24 - 1 from rfl, Nat.and_two_pow_sub_one_eq_mod]
  exact Nat.mod_lt _ (by decide)

end Words

/-! ## The invariant of the gate -/

/-- Ghost state: the sessions that were ever in place, one that is drawn but not in place
    yet, and whether the sequence was already reset for it. -/
structure Sessions where
  installed : List Nat
  pending : Option Nat
  resetting : Bool

namespace GenMode

/-- The call is in the count of active calls. -/
def inside : GenMode → Bool
  | .counted _ | .leaving | .entered _ | .issuing _ _ | .issued _ _ | .exhausted _ => true
  | _ => false

/-- The call may take a number from the session that it saw again. -/
def enters : GenMode → Bool
  | .entered _ | .issuing _ _ => true
  | _ => false

/-- The call holds the rotating bit. -/
def rotates : GenMode → Bool
  | .draining _ | .drawing _ | .drawn _ _ | .reset _ _ => true
  | _ => false

/-- The call has seen the gate empty while it held the rotating bit. -/
def drained : GenMode → Bool
  | .drawing _ | .drawn _ _ | .reset _ _ => true
  | _ => false

/-- The session and the number that the call took. -/
def takes : GenMode → Option (Nat × Nat)
  | .issued state sequence | .emitted state sequence => some (state, sequence)
  | _ => none

end GenMode

/-- The session `s` is in place, rotating or not. -/
def InPlace (word s : Nat) : Prop := word = s ∨ word = s ||| sessionRotating

/-- What the words of the generator say about a call in each mode. -/
def GenFits (word sequence : Nat) (γ : Sessions) : GenMode → Prop
  | .idle | .leaving | .failed => True
  | .vacant state => state &&& sessionRotating = 0 ∧ state &&& sessionMask = 0
  | .seen state | .counted state => state ∈ γ.installed
  | .counting state active => state ∈ γ.installed ∧ active ≠ u32 - 1
  | .entered state => state ∈ γ.installed ∧ InPlace word state ∧ γ.resetting = false
  | .issuing state number => state ∈ γ.installed ∧ InPlace word state ∧ γ.resetting = false ∧
      number < u32 - 1
  | .issued state number | .emitted state number => state ∈ γ.installed ∧ number < u32 - 1 ∧
      (InPlace word state → γ.resetting = false → number < sequence)
  | .exhausted state | .expired state => state ∈ γ.installed ∧
      (InPlace word state → γ.resetting = false → sequence = u32 - 1)
  | .draining state | .drawing state => word = state ||| sessionRotating ∧
      (state = 0 ∨ state ∈ γ.installed ∧ sequence = u32 - 1) ∧ γ.resetting = false ∧
      γ.pending = none
  | .drawn state session => word = state ||| sessionRotating ∧
      (state = 0 ∨ state ∈ γ.installed) ∧ γ.resetting = false ∧ γ.pending = some session ∧
      0 < session ∧ session < 2 ^ 24
  | .reset state session => word = state ||| sessionRotating ∧
      (state = 0 ∨ state ∈ γ.installed) ∧ γ.resetting = true ∧ γ.pending = some session ∧
      0 < session ∧ session < 2 ^ 24 ∧ sequence = 0

/-- What holds between two calls. -/
structure Compatible (m n : GenMode) : Prop where
  rotator : m.rotates = true → n.rotates = false
  gate : m.drained = true → n.enters = false
  gate' : n.drained = true → m.enters = false
  numbers : ∀ number, m.takes = some number → n.takes ≠ some number

/-- The generator between two steps of any calls, given the sessions drawn so far. -/
structure Gate (g : Generator) (drawn : List Nat) (modes : Nat → Option GenMode)
    (γ : Sessions) : Prop where
  drawn_eq : drawn = γ.installed ++ γ.pending.toList
  valid : ∀ s, s ∈ γ.installed → 0 < s ∧ s < 2 ^ 24
  word : ((g.sessionState = 0 ∨ g.sessionState ∈ γ.installed) ∧ γ.pending = none ∧
      γ.resetting = false) ∨ ∃ s, (s = 0 ∨ s ∈ γ.installed) ∧
      g.sessionState = s ||| sessionRotating
  sequence_lt : g.sequence < u32
  active_lt : g.active < u32
  count : ∃ F : Finset Nat, F.card = g.active ∧
    ∀ t, t ∈ F ↔ ∃ m, modes t = some m ∧ m.inside = true
  fits : ∀ t m, modes t = some m → GenFits g.sessionState g.sequence γ m
  pairs : ∀ t u m n, modes t = some m → modes u = some n → t ≠ u → Compatible m n

section Gate

variable {g g' : Generator} {drawn drawn' : List Nat} {modes : Nat → Option GenMode}
  {γ γ' : Sessions} {t : Nat} {m m' : GenMode}

/-- The sessions are nonzero 24-bit words, so a rotating word is none of them. -/
theorem Gate.not_rotating (gate : Gate g drawn modes γ) {s : Nat}
    (known : s = 0 ∨ s ∈ γ.installed) : s < 2 ^ 24 := by
  rcases known with rfl | known
  · decide
  · exact (gate.valid s known).2

theorem rotated_ne {s s' : Nat} (small : s < 2 ^ 24) (small' : s' < 2 ^ 24) :
    s ≠ s' ||| sessionRotating := by
  rw [rotating_eq_add small', sessionRotating]
  omega

theorem rotated_inj {s s' : Nat} (small : s < 2 ^ 24) (small' : s' < 2 ^ 24)
    (same : s ||| sessionRotating = s' ||| sessionRotating) : s = s' := by
  rw [rotating_eq_add small, rotating_eq_add small'] at same
  omega

/-- While no call holds the rotating bit aside, two sessions in place are one. -/
theorem InPlace.unique {word s s' : Nat} (here : InPlace word s) (there : InPlace word s')
    (small : s < 2 ^ 24) (small' : s' < 2 ^ 24) : s = s' := by
  rcases here with rfl | rfl
  · rcases there with same | same
    · exact same
    · exact absurd same (rotated_ne small small')
  · rcases there with same | same
    · exact absurd same.symm (rotated_ne small' small)
    · exact rotated_inj small small' same

/-- How the count of active calls follows one call in or out of the gate. -/
theorem Gate.recount (gate : Gate g drawn modes γ) (found : modes t = some m)
    (change : (m'.inside = m.inside ∧ g'.active = g.active) ∨
      (m.inside = false ∧ m'.inside = true ∧ g'.active = g.active + 1) ∨
      (m.inside = true ∧ m'.inside = false ∧ g'.active + 1 = g.active)) :
    ∃ F : Finset Nat, F.card = g'.active ∧
      ∀ u, u ∈ F ↔ ∃ n, Function.update modes t (some m') u = some n ∧ n.inside = true := by
  obtain ⟨F, card, mem⟩ := gate.count
  have other (u : Nat) (ne : u ≠ t) :
      (∃ n, Function.update modes t (some m') u = some n ∧ n.inside = true) ↔ u ∈ F := by
    rw [mem u, Function.update_of_ne ne]
  have own : (∃ n, Function.update modes t (some m') t = some n ∧ n.inside = true) ↔
      m'.inside = true := by
    simp
  have old : t ∈ F ↔ m.inside = true := by
    rw [mem t, found]
    simp
  rcases change with ⟨same, active⟩ | ⟨outside, entered, active⟩ | ⟨within, left, active⟩
  · refine ⟨F, by rw [card, active], fun u => ?_⟩
    by_cases ut : u = t
    · subst u
      rw [own, same, old]
    · exact (other u ut).symm
  · have fresh : t ∉ F := by simp [old, outside]
    refine ⟨insert t F, by rw [Finset.card_insert_of_notMem fresh, card, active], fun u => ?_⟩
    by_cases ut : u = t
    · subst u
      simp [entered]
    · rw [Finset.mem_insert, other u ut]
      simp [ut]
  · have present : t ∈ F := old.mpr within
    refine ⟨F.erase t, by rw [Finset.card_erase_of_mem present, card]; omega, fun u => ?_⟩
    by_cases ut : u = t
    · subst u
      simp [left]
    · rw [Finset.mem_erase, other u ut]
      simp [ut]

/-- One step of one call keeps the gate. -/
theorem Gate.step (gate : Gate g drawn modes γ) (found : modes t = some m)
    (drawn_eq : drawn' = γ'.installed ++ γ'.pending.toList)
    (valid : ∀ s, s ∈ γ'.installed → 0 < s ∧ s < 2 ^ 24)
    (word : ((g'.sessionState = 0 ∨ g'.sessionState ∈ γ'.installed) ∧ γ'.pending = none ∧
      γ'.resetting = false) ∨ ∃ s, (s = 0 ∨ s ∈ γ'.installed) ∧
      g'.sessionState = s ||| sessionRotating)
    (sequence_lt : g'.sequence < u32) (active_lt : g'.active < u32)
    (change : (m'.inside = m.inside ∧ g'.active = g.active) ∨
      (m.inside = false ∧ m'.inside = true ∧ g'.active = g.active + 1) ∨
      (m.inside = true ∧ m'.inside = false ∧ g'.active + 1 = g.active))
    (own : GenFits g'.sessionState g'.sequence γ' m')
    (others : ∀ u n, u ≠ t → modes u = some n → GenFits g.sessionState g.sequence γ n →
      Compatible m n → GenFits g'.sessionState g'.sequence γ' n ∧ Compatible m' n) :
    Gate g' drawn' (Function.update modes t (some m')) γ' where
  drawn_eq := drawn_eq
  valid := valid
  word := word
  sequence_lt := sequence_lt
  active_lt := active_lt
  count := gate.recount found change
  fits := by
    intro u n at_u
    by_cases ut : u = t
    · subst u
      rw [Function.update_self, Option.some.injEq] at at_u
      subst n
      exact own
    · rw [Function.update_of_ne ut] at at_u
      exact (others u n ut at_u (gate.fits u n at_u)
        (gate.pairs t u m n found at_u (Ne.symm ut))).1
  pairs := by
    have against (u : Nat) (n : GenMode) (ut : u ≠ t) (at_u : modes u = some n) :
        Compatible m' n :=
      (others u n ut at_u (gate.fits u n at_u)
        (gate.pairs t u m n found at_u (Ne.symm ut))).2
    intro u v n k at_u at_v different
    by_cases ut : u = t
    · subst u
      rw [Function.update_self, Option.some.injEq] at at_u
      rw [Function.update_of_ne (Ne.symm different)] at at_v
      subst n
      exact against v k (Ne.symm different) at_v
    · rw [Function.update_of_ne ut] at at_u
      by_cases vt : v = t
      · subst v
        rw [Function.update_self, Option.some.injEq] at at_v
        subst k
        have known := against u n ut at_u
        refine ⟨?_, known.gate', known.gate, ?_⟩
        · intro rotates
          by_contra both
          rw [Bool.not_eq_false] at both
          rw [known.rotator both] at rotates
          cases rotates
        · intro number taken again
          exact known.numbers number again taken
      · rw [Function.update_of_ne vt] at at_v
        exact gate.pairs u v n k at_u at_v different

theorem Compatible.weaken {n : GenMode} (known : Compatible m n)
    (rotates : m'.rotates = true → m.rotates = true)
    (drained : m'.drained = true → m.drained = true)
    (enters : m'.enters = true → m.enters = true)
    (takes : ∀ number, m'.takes = some number → m.takes = some number) : Compatible m' n := by
  refine ⟨fun h => known.rotator (rotates h), fun h => known.gate (drained h), ?_,
    fun number h => known.numbers number (takes number h)⟩
  intro h
  by_contra inside
  rw [Bool.not_eq_false] at inside
  have out := known.gate' h
  rw [enters inside] at out
  cases out

/-- A step that leaves the session word and the sequence alone. -/
theorem Gate.observe (gate : Gate g drawn modes γ) (found : modes t = some m)
    (state : g'.sessionState = g.sessionState) (sequence : g'.sequence = g.sequence)
    (active_lt : g'.active < u32)
    (change : (m'.inside = m.inside ∧ g'.active = g.active) ∨
      (m.inside = false ∧ m'.inside = true ∧ g'.active = g.active + 1) ∨
      (m.inside = true ∧ m'.inside = false ∧ g'.active + 1 = g.active))
    (own : GenFits g.sessionState g.sequence γ m')
    (others : ∀ u n, u ≠ t → modes u = some n → GenFits g.sessionState g.sequence γ n →
      Compatible m n → Compatible m' n) :
    Gate g' drawn (Function.update modes t (some m')) γ := by
  refine gate.step found gate.drawn_eq gate.valid ?_ ?_ active_lt change ?_ ?_
  · rw [state]
    exact gate.word
  · rw [sequence]
    exact gate.sequence_lt
  · rw [state, sequence]
    exact own
  · intro u n ut at_u fits known
    rw [state, sequence]
    exact ⟨fits, others u n ut at_u fits known⟩

/-- A rotating call has the rotating bit set. -/
theorem GenFits.rotated {word sequence : Nat} {n : GenMode} (fits : GenFits word sequence γ n)
    (rotates : n.rotates = true) : ∃ s, word = s ||| sessionRotating := by
  cases n with
  | draining s => exact ⟨s, fits.1⟩
  | drawing s => exact ⟨s, fits.1⟩
  | drawn s v => exact ⟨s, fits.1⟩
  | reset s v => exact ⟨s, fits.1⟩
  | _ => cases rotates

theorem GenMode.rotates_of_drained {n : GenMode} (drained : n.drained = true) :
    n.rotates = true := by
  cases n <;> first | rfl | cases drained

/-- A word without the rotating bit leaves no call rotating. -/
theorem GenFits.not_rotates {word sequence : Nat} {n : GenMode} (fits : GenFits word sequence γ n)
    (clear : word &&& sessionRotating = 0) : n.rotates = false ∧ n.drained = false := by
  have quiet : n.rotates = false := by
    by_contra turning
    rw [Bool.not_eq_false] at turning
    obtain ⟨s, rfl⟩ := fits.rotated turning
    rw [rotating_or] at clear
    cases clear
  refine ⟨quiet, ?_⟩
  by_contra drained
  rw [Bool.not_eq_false] at drained
  rw [GenMode.rotates_of_drained drained] at quiet
  cases quiet

/-- A word without the rotating bit is a session in place, or no session yet. -/
theorem Gate.word_of_clear (gate : Gate g drawn modes γ)
    (clear : g.sessionState &&& sessionRotating = 0) :
    (g.sessionState = 0 ∨ g.sessionState ∈ γ.installed) ∧ γ.pending = none ∧
      γ.resetting = false := by
  rcases gate.word with calm | ⟨s, _, rotating⟩
  · exact calm
  · rw [rotating, rotating_or] at clear
    cases clear

theorem Gate.clear_of_mem (gate : Gate g drawn modes γ) {s : Nat} (known : s ∈ γ.installed) :
    s &&& sessionRotating = 0 := and_rotating (gate.valid s known).2

/-- A new call starts outside the gate. -/
theorem Gate.begin (gate : Gate g drawn modes γ) (fresh : modes t = none) :
    Gate g drawn (Function.update modes t (some .idle)) γ := by
  obtain ⟨F, card, mem⟩ := gate.count
  refine { gate with count := ⟨F, card, fun u => ?_⟩, fits := ?_, pairs := ?_ }
  · rw [mem u]
    by_cases ut : u = t
    · subst u
      simp [fresh, GenMode.inside]
    · rw [Function.update_of_ne ut]
  · intro u n at_u
    by_cases ut : u = t
    · subst u
      rw [Function.update_self, Option.some.injEq] at at_u
      subst n
      trivial
    · rw [Function.update_of_ne ut] at at_u
      exact gate.fits u n at_u
  · intro u v n k at_u at_v different
    have idle_left (k : GenMode) : Compatible .idle k :=
      ⟨(nomatch ·), (nomatch ·), fun _ => rfl, fun _ taken => (nomatch taken)⟩
    have idle_right (k : GenMode) : Compatible k .idle :=
      ⟨fun _ => rfl, fun _ => rfl, (nomatch ·), fun _ _ taken => (nomatch taken)⟩
    by_cases ut : u = t
    · subst u
      rw [Function.update_self, Option.some.injEq] at at_u
      subst n
      exact idle_left k
    · by_cases vt : v = t
      · subst v
        rw [Function.update_self, Option.some.injEq] at at_v
        subst k
        exact idle_right n
      · rw [Function.update_of_ne ut] at at_u
        rw [Function.update_of_ne vt] at at_v
        exact gate.pairs u v n k at_u at_v different

/-! ### The steps of a call -/

theorem Gate.loadSession (gate : Gate g drawn modes γ) (found : modes t = some m)
    (permitted : genPermits m .loadSession) :
    Gate g drawn (Function.update modes t (some (genNext m .loadSession g.sessionState))) γ := by
  cases m with
  | idle =>
      simp only [genNext]
      split
      · exact gate.observe found rfl rfl gate.active_lt (.inl ⟨rfl, rfl⟩) trivial
          (fun _ _ _ _ _ known => known.weaken id id id fun _ => id)
      rename_i clear
      rw [not_not] at clear
      split
      · rename_i empty
        exact gate.observe found rfl rfl gate.active_lt (.inl ⟨rfl, rfl⟩) ⟨clear, empty⟩
          (fun _ _ _ _ _ known => known.weaken id id id fun _ => id)
      · rename_i some_session
        have known : g.sessionState ∈ γ.installed := by
          rcases (gate.word_of_clear clear).1 with zero | known
          · exact absurd (by rw [zero]; rfl) some_session
          · exact known
        exact gate.observe found rfl rfl gate.active_lt (.inl ⟨rfl, rfl⟩) known
          (fun _ _ _ _ _ known => known.weaken id id id fun _ => id)
  | counted state =>
      have known : state ∈ γ.installed := gate.fits t _ found
      simp only [genNext]
      split
      · exact gate.observe found rfl rfl gate.active_lt (.inl ⟨rfl, rfl⟩) trivial
          (fun _ _ _ _ _ known => known.weaken id id id fun _ => id)
      · rename_i same
        rw [not_not] at same
        subst state
        have clear := gate.clear_of_mem known
        refine gate.observe found rfl rfl gate.active_lt (.inl ⟨rfl, rfl⟩)
          ⟨known, .inl rfl, (gate.word_of_clear clear).2.2⟩ ?_
        intro u n _ _ fits pair
        refine ⟨pair.rotator, pair.gate, ?_, pair.numbers⟩
        intro drained
        rw [(fits.not_rotates clear).2] at drained
        cases drained
  | _ => exact permitted.elim

theorem Gate.loadActive (gate : Gate g drawn modes γ) (found : modes t = some m)
    (permitted : genPermits m .loadActive) :
    Gate g drawn (Function.update modes t (some (genNext m .loadActive g.active))) γ := by
  cases m with
  | seen state =>
      have known : state ∈ γ.installed := gate.fits t _ found
      simp only [genNext]
      split
      · exact gate.observe found rfl rfl gate.active_lt (.inl ⟨rfl, rfl⟩) trivial
          (fun _ _ _ _ _ pair => pair.weaken id id id fun _ => id)
      · rename_i below
        exact gate.observe found rfl rfl gate.active_lt (.inl ⟨rfl, rfl⟩) ⟨known, below⟩
          (fun _ _ _ _ _ pair => pair.weaken id id id fun _ => id)
  | draining state =>
      have own := gate.fits t _ found
      simp only [genNext]
      split
      · rename_i empty
        obtain ⟨F, card, mem⟩ := gate.count
        rw [empty, Finset.card_eq_zero] at card
        refine gate.observe found rfl rfl gate.active_lt (.inl ⟨rfl, rfl⟩) own ?_
        intro u n _ at_u _ pair
        refine ⟨pair.rotator, fun _ => ?_, fun _ => rfl, fun _ taken => by cases taken⟩
        -- the gate is empty, so the other call is not inside it
        by_contra enters
        rw [Bool.not_eq_false] at enters
        have inside : n.inside = true := by
          cases n <;> first | rfl | cases enters
        have counted : u ∈ F := (mem u).mpr ⟨n, at_u, inside⟩
        rw [card] at counted
        cases counted
      · exact gate.observe found rfl rfl gate.active_lt (.inl ⟨rfl, rfl⟩) own
          (fun _ _ _ _ _ pair => pair.weaken id id id fun _ => id)
  | _ => exact permitted.elim

/-- A change of the session word that keeps every session in place or out of place. -/
theorem GenFits.transfer {word word' sequence : Nat} {n : GenMode}
    (same : ∀ s, s ∈ γ.installed → (InPlace word' s ↔ InPlace word s))
    (fits : GenFits word sequence γ n) (quiet : n.rotates = false) :
    GenFits word' sequence γ n := by
  cases n with
  | entered s => exact ⟨fits.1, (same s fits.1).mpr fits.2.1, fits.2.2⟩
  | issuing s q => exact ⟨fits.1, (same s fits.1).mpr fits.2.1, fits.2.2⟩
  | issued s q => exact ⟨fits.1, fits.2.1, fun here => fits.2.2 ((same s fits.1).mp here)⟩
  | emitted s q => exact ⟨fits.1, fits.2.1, fun here => fits.2.2 ((same s fits.1).mp here)⟩
  | exhausted s => exact ⟨fits.1, fun here => fits.2 ((same s fits.1).mp here)⟩
  | expired s => exact ⟨fits.1, fun here => fits.2 ((same s fits.1).mp here)⟩
  | draining | drawing | drawn | reset => cases quiet
  | idle | vacant | seen | counting | counted | leaving | failed => exact fits

/-- Setting or clearing the rotating bit of a session leaves it in place. -/
theorem inPlace_rotating {s s' : Nat} (small : s < 2 ^ 24) (small' : s' < 2 ^ 24) :
    InPlace (s ||| sessionRotating) s' ↔ InPlace s s' := by
  constructor
  · intro there
    exact .inl ((InPlace.unique (.inr rfl) there small small'))
  · intro here
    exact .inr (by rw [InPlace.unique (.inl rfl) here small small'])

theorem Gate.casSession (gate : Gate g drawn modes γ) (found : modes t = some m)
    {expected desired : Nat} (e : Entropy) (permitted : genPermits m (.casSession expected desired)) :
    Gate ((GenAct.casSession expected desired).exec e g).2 drawn (Function.update modes t
      (some (genNext m (.casSession expected desired)
        ((GenAct.casSession expected desired).exec e g).1))) γ := by
  by_cases wins : g.sessionState = expected ∧ e.spurious = false
  · simp only [GenAct.exec, casWeak, if_pos wins]
    -- whoever sets the bit finds the word `state` without it
    have rotate (state : Nat) (clear : state &&& sessionRotating = 0)
        (here : g.sessionState = state) (own : GenFits (state ||| sessionRotating) g.sequence γ
          (.draining state)) (outside : m.inside = false) :
        Gate { g with sessionState := state ||| sessionRotating } drawn
          (Function.update modes t (some (.draining state))) γ := by
      have calm := gate.word_of_clear (here ▸ clear)
      have small : state < 2 ^ 24 := gate.not_rotating (here ▸ calm.1)
      refine gate.step found gate.drawn_eq gate.valid (.inr ⟨state, here ▸ calm.1, rfl⟩)
        gate.sequence_lt gate.active_lt (.inl ⟨outside.symm, rfl⟩) own ?_
      intro u n _ _ fits pair
      have quiet := fits.not_rotates (here ▸ clear)
      refine ⟨fits.transfer (fun s known => ?_) quiet.1, ?_⟩
      · rw [here]
        exact inPlace_rotating small (gate.valid s known).2
      · refine ⟨fun _ => quiet.1, fun drained => ?_, fun _ => rfl, fun _ taken => ?_⟩
        · cases drained
        · cases taken
    cases m with
    | vacant state =>
        obtain ⟨rfl, rfl⟩ := permitted
        obtain ⟨clear, empty⟩ := gate.fits t _ found
        have calm := gate.word_of_clear (by rw [wins.1]; exact clear)
        have zero : expected = 0 := by
          have small := gate.not_rotating calm.1
          rw [wins.1] at small
          rwa [and_mask small] at empty
        subst expected
        exact rotate 0 rfl wins.1 ⟨rfl, .inl rfl, calm.2.2, calm.2.1⟩ rfl
    | expired state =>
        obtain ⟨rfl, rfl⟩ := permitted
        obtain ⟨known, ended⟩ := gate.fits t _ found
        have clear := gate.clear_of_mem known
        have calm := gate.word_of_clear (by rw [wins.1]; exact clear)
        exact rotate expected clear wins.1
          ⟨rfl, .inr ⟨known, ended (.inl wins.1) calm.2.2⟩, calm.2.2, calm.2.1⟩ rfl
    | _ => exact permitted.elim
  · simp only [GenAct.exec, casWeak, if_neg wins]
    cases m with
    | vacant state =>
        exact gate.observe found rfl rfl gate.active_lt (.inl ⟨rfl, rfl⟩) trivial
          (fun _ _ _ _ _ pair => pair.weaken id id id fun _ => id)
    | expired state =>
        exact gate.observe found rfl rfl gate.active_lt (.inl ⟨rfl, rfl⟩) trivial
          (fun _ _ _ _ _ pair => pair.weaken id id id fun _ => id)
    | _ => exact permitted.elim

theorem Gate.casActive (gate : Gate g drawn modes γ) (found : modes t = some m)
    {expected desired : Nat} (e : Entropy) (permitted : genPermits m (.casActive expected desired)) :
    Gate ((GenAct.casActive expected desired).exec e g).2 drawn (Function.update modes t
      (some (genNext m (.casActive expected desired)
        ((GenAct.casActive expected desired).exec e g).1))) γ := by
  cases m with
  | counting state active =>
      obtain ⟨rfl, rfl⟩ := permitted
      obtain ⟨known, below⟩ := gate.fits t _ found
      have bound := gate.active_lt
      by_cases wins : g.active = expected ∧ e.spurious = false
      · simp only [GenAct.exec, casWeak, if_pos wins]
        exact gate.observe found rfl rfl (by simp only [u32] at *; omega)
          (.inr (.inl ⟨rfl, rfl, by rw [wins.1]⟩)) known
          (fun _ _ _ _ _ pair => pair.weaken id id id fun _ => id)
      · simp only [GenAct.exec, casWeak, if_neg wins]
        exact gate.observe found rfl rfl gate.active_lt (.inl ⟨rfl, rfl⟩) trivial
          (fun _ _ _ _ _ pair => pair.weaken id id id fun _ => id)
  | _ => exact permitted.elim

theorem Gate.subActive (gate : Gate g drawn modes γ) (found : modes t = some m)
    (permitted : genPermits m .subActive) :
    Gate { g with active := (g.active + (u32 - 1)) % u32 } drawn
      (Function.update modes t (some (genNext m .subActive ()))) γ := by
  have bound := gate.active_lt
  have one_less (inside : m.inside = true) : (g.active + (u32 - 1)) % u32 + 1 = g.active := by
    obtain ⟨F, card, mem⟩ := gate.count
    have counted : t ∈ F := (mem t).mpr ⟨m, found, inside⟩
    have positive : 0 < F.card := Finset.card_pos.mpr ⟨t, counted⟩
    simp only [u32] at *
    omega
  have own := gate.fits t _ found
  have less : (g.active + (u32 - 1)) % u32 < u32 := Nat.mod_lt _ (by decide)
  cases m with
  | leaving =>
      exact gate.observe found rfl rfl less (.inr (.inr ⟨rfl, rfl, one_less rfl⟩)) trivial
        (fun _ _ _ _ _ pair => pair.weaken id id id fun _ => id)
  | issued state number =>
      exact gate.observe found rfl rfl less (.inr (.inr ⟨rfl, rfl, one_less rfl⟩)) own
        (fun _ _ _ _ _ pair => pair.weaken id id id fun _ => id)
  | exhausted state =>
      exact gate.observe found rfl rfl less (.inr (.inr ⟨rfl, rfl, one_less rfl⟩)) own
        (fun _ _ _ _ _ pair => pair.weaken id id id fun _ => id)
  | _ => exact permitted.elim

theorem Gate.loadSequence (gate : Gate g drawn modes γ) (found : modes t = some m)
    (permitted : genPermits m .loadSequence) :
    Gate g drawn (Function.update modes t (some (genNext m .loadSequence g.sequence))) γ := by
  cases m with
  | entered state =>
      obtain ⟨known, here, steady⟩ := gate.fits t _ found
      have bound := gate.sequence_lt
      simp only [genNext]
      split
      · rename_i last
        refine gate.observe found rfl rfl gate.active_lt (.inl ⟨rfl, rfl⟩)
          ⟨known, fun _ _ => last⟩ (fun _ _ _ _ _ pair => pair.weaken id id ?_ fun _ => id)
        intro impossible
        cases impossible
      · rename_i open_number
        exact gate.observe found rfl rfl gate.active_lt (.inl ⟨rfl, rfl⟩)
          ⟨known, here, steady, by omega⟩
          (fun _ _ _ _ _ pair => pair.weaken id id id fun _ => id)
  | _ => exact permitted.elim

/-- A call takes the next number of the session that it holds in place. -/
theorem Gate.casSequence (gate : Gate g drawn modes γ) (found : modes t = some m)
    {expected desired : Nat} (e : Entropy)
    (permitted : genPermits m (.casSequence expected desired)) :
    Gate ((GenAct.casSequence expected desired).exec e g).2 drawn (Function.update modes t
      (some (genNext m (.casSequence expected desired)
        ((GenAct.casSequence expected desired).exec e g).1))) γ := by
  cases m with
  | issuing state number =>
      obtain ⟨rfl, rfl⟩ := permitted
      obtain ⟨known, here, steady, open_number⟩ := gate.fits t _ found
      by_cases wins : g.sequence = expected ∧ e.spurious = false
      · simp only [GenAct.exec, casWeak, if_pos wins]
        have last_not_here : g.sequence ≠ u32 - 1 := by omega
        have unique {s : Nat} (inside : s ∈ γ.installed) (there : InPlace g.sessionState s) :
            s = state := there.unique here (gate.valid s inside).2 (gate.valid state known).2
        refine gate.step found gate.drawn_eq gate.valid gate.word (by simp only [u32] at *; omega)
          gate.active_lt (.inl ⟨rfl, rfl⟩) ⟨known, open_number, fun _ _ => Nat.lt_succ_self _⟩ ?_
        intro u n _ _ fits pair
        have rests : n.drained = false := by
          by_contra drained
          rw [Bool.not_eq_false] at drained
          have out := pair.gate' drained
          cases out
        refine ⟨?_, ?_⟩
        · cases n with
          | issued s q =>
              refine ⟨fits.1, fits.2.1, fun at_s calm => ?_⟩
              have less := fits.2.2 at_s calm
              exact Nat.lt_succ_of_lt (wins.1 ▸ less)
          | emitted s q =>
              refine ⟨fits.1, fits.2.1, fun at_s calm => ?_⟩
              have less := fits.2.2 at_s calm
              exact Nat.lt_succ_of_lt (wins.1 ▸ less)
          | exhausted s =>
              exact ⟨fits.1, fun at_s calm => absurd (fits.2 at_s calm) last_not_here⟩
          | expired s =>
              exact ⟨fits.1, fun at_s calm => absurd (fits.2 at_s calm) last_not_here⟩
          | draining s =>
              -- a rotation starts from an exhausted session, and this one is not exhausted
              obtain ⟨word, from_s, _⟩ := fits
              rcases from_s with rfl | ⟨_, last⟩
              · have zero := InPlace.unique (.inr word) here (by decide)
                  (gate.valid state known).2
                have positive := (gate.valid state known).1
                omega
              · exact absurd last last_not_here
          | drawing | drawn | reset => cases rests
          | idle | vacant | seen | counting | counted | leaving | failed | entered | issuing =>
              exact fits
        · refine ⟨fun rotates => ?_, fun drained => ?_, fun _ => rfl, ?_⟩
          · cases rotates
          · cases drained
          · rintro _ ⟨⟩ taken
            have earlier : state ∈ γ.installed ∧ expected < u32 - 1 ∧
                (InPlace g.sessionState state → γ.resetting = false → expected < g.sequence) := by
              cases n with
              | issued s q =>
                  cases taken
                  exact fits
              | emitted s q =>
                  cases taken
                  exact fits
              | _ => cases taken
            have less := earlier.2.2 here steady
            omega
      · simp only [GenAct.exec, casWeak, if_neg wins]
        refine gate.observe found rfl rfl gate.active_lt (.inl ⟨rfl, rfl⟩) trivial
          (fun _ _ _ _ _ pair => pair.weaken id id ?_ fun _ => id)
        intro impossible
        cases impossible
  | _ => exact permitted.elim

theorem Gate.storeSequence (gate : Gate g drawn modes γ) (found : modes t = some m) {v : Nat}
    (permitted : genPermits m (.storeSequence v)) :
    ∃ γ', Gate { g with sequence := v } drawn
      (Function.update modes t (some (genNext m (.storeSequence v) ()))) γ' := by
  cases m with
  | drawn state session =>
      obtain rfl : v = 0 := permitted
      obtain ⟨word, from_state, _, pending, positive, small⟩ := gate.fits t _ found
      refine ⟨{ γ with resetting := true }, gate.step found gate.drawn_eq gate.valid
        (.inr ⟨state, from_state, word⟩) (Nat.zero_lt_succ _) gate.active_lt (.inl ⟨rfl, rfl⟩)
        ⟨word, from_state, rfl, pending, positive, small, rfl⟩ ?_⟩
      intro u n _ _ fits pair
      have outside := pair.gate rfl
      have quiet := pair.rotator rfl
      refine ⟨?_, pair.weaken id id id fun _ => id⟩
      cases n with
      | entered | issuing => cases outside
      | draining | drawing | drawn | reset => cases quiet
      | issued s q => exact ⟨fits.1, fits.2.1, fun _ calm => by cases calm⟩
      | emitted s q => exact ⟨fits.1, fits.2.1, fun _ calm => by cases calm⟩
      | exhausted s => exact ⟨fits.1, fun _ calm => by cases calm⟩
      | expired s => exact ⟨fits.1, fun _ calm => by cases calm⟩
      | idle | vacant | seen | counting | counted | leaving | failed => exact fits
  | _ => exact permitted.elim

theorem Gate.random (gate : Gate g drawn modes γ) (found : modes t = some m) (word : Option Nat)
    (permitted : genPermits m .random) {state : Nat} (at_state : m = .drawing state) :
    ∃ γ', Gate g (drawn ++ (acceptSession state word).toList)
      (Function.update modes t (some (genNext m .random word))) γ' := by
  subst m
  obtain ⟨here, from_state, steady, empty⟩ := gate.fits t _ found
  cases accepted : acceptSession state word with
  | none =>
      refine ⟨γ, ?_⟩
      simp only [genNext, accepted, Option.toList_none, List.append_nil]
      exact gate.observe found rfl rfl gate.active_lt (.inl ⟨rfl, rfl⟩)
        ⟨here, from_state, steady, empty⟩ (fun _ _ _ _ _ pair => pair.weaken id id id fun _ => id)
  | some session =>
      have bounds : 0 < session ∧ session < 2 ^ 24 := by
        cases word with
        | none => cases accepted
        | some drawn_word =>
            simp only [acceptSession] at accepted
            split at accepted
            · rename_i ok
              cases accepted
              exact ⟨Nat.pos_of_ne_zero ok.1, and_mask_lt drawn_word⟩
            · cases accepted
      have source : state = 0 ∨ state ∈ γ.installed := from_state.imp id And.left
      have before := gate.drawn_eq
      rw [empty, Option.toList_none, List.append_nil] at before
      refine ⟨{ γ with pending := some session }, ?_⟩
      simp only [genNext, accepted]
      refine gate.step found (by rw [before]) gate.valid (.inr ⟨state, source, here⟩)
        gate.sequence_lt gate.active_lt (.inl ⟨rfl, rfl⟩)
        ⟨here, source, steady, rfl, bounds.1, bounds.2⟩ ?_
      intro u n _ _ fits pair
      have quiet := pair.rotator rfl
      refine ⟨?_, pair.weaken id id id fun _ => id⟩
      cases n with
      | draining | drawing | drawn | reset => cases quiet
      | _ => exact fits

theorem Gate.storeSession (gate : Gate g drawn modes γ) (found : modes t = some m) {v : Nat}
    (distinct : drawn.Nodup) (permitted : genPermits m (.storeSession v)) :
    ∃ γ', Gate { g with sessionState := v } drawn
      (Function.update modes t (some (genNext m (.storeSession v) ()))) γ' := by
  cases m with
  | drawing state =>
      obtain rfl : v = state := permitted
      obtain ⟨here, from_state, steady, empty⟩ := gate.fits t _ found
      have source : v = 0 ∨ v ∈ γ.installed := from_state.imp id And.left
      have small := gate.not_rotating source
      refine ⟨γ, gate.step found gate.drawn_eq gate.valid (.inl ⟨source, empty, steady⟩)
        gate.sequence_lt gate.active_lt (.inl ⟨rfl, rfl⟩) trivial ?_⟩
      intro u n _ _ fits pair
      have quiet := pair.rotator rfl
      refine ⟨fits.transfer (fun s known => ?_) quiet, pair.weaken ?_ ?_ id fun _ => id⟩
      · rw [here]
        exact (inPlace_rotating small (gate.valid s known).2).symm
      · intro impossible
        cases impossible
      · intro impossible
        cases impossible
  | reset state session =>
      obtain rfl : v = session := permitted
      obtain ⟨here, _, _, pending, positive, small, _⟩ := gate.fits t _ found
      have before := gate.drawn_eq
      rw [pending] at before
      refine ⟨⟨γ.installed ++ [v], none, false⟩, gate.step found
        (by rw [before]; simp) ?_ (.inl ⟨.inr (by simp), rfl, rfl⟩) gate.sequence_lt
        gate.active_lt (.inl ⟨rfl, rfl⟩) trivial ?_⟩
      · intro s known
        rcases List.mem_append.mp known with old | new
        · exact gate.valid s old
        · rw [List.mem_singleton.mp new]
          exact ⟨positive, small⟩
      intro u n _ _ fits pair
      have outside := pair.gate rfl
      have quiet := pair.rotator rfl
      have kept {s : Nat} (known : s ∈ γ.installed) : s ∈ γ.installed ++ [v] :=
        List.mem_append_left _ known
      -- the new session is none of those that were ever in place
      have gone {s : Nat} (known : s ∈ γ.installed) : ¬InPlace v s := by
        intro there
        have same := InPlace.unique (.inl rfl) there small (gate.valid s known).2
        rw [before, Option.toList_some, List.nodup_append] at distinct
        exact distinct.2.2 s known v (List.mem_singleton_self v) same.symm
      refine ⟨?_, pair.weaken ?_ ?_ id fun _ => id⟩
      · cases n with
        | entered | issuing => cases outside
        | draining | drawing | drawn | reset => cases quiet
        | seen s => exact kept fits
        | counted s => exact kept fits
        | counting s a => exact ⟨kept fits.1, fits.2⟩
        | issued s q => exact ⟨kept fits.1, fits.2.1, fun there => absurd there (gone fits.1)⟩
        | emitted s q => exact ⟨kept fits.1, fits.2.1, fun there => absurd there (gone fits.1)⟩
        | exhausted s => exact ⟨kept fits.1, fun there => absurd there (gone fits.1)⟩
        | expired s => exact ⟨kept fits.1, fun there => absurd there (gone fits.1)⟩
        | idle | vacant | leaving | failed => exact fits
      · intro impossible
        cases impossible
      · intro impossible
        cases impossible
  | _ => exact permitted.elim

end Gate

/-! ## All interleavings -/

/-- The session that a successful `random_session` returns. -/
def GenEvent.drawn : GenEvent → Option Nat
  | ⟨_, _, .drawing state, .random, word⟩ => acceptSession state word
  | _ => none

namespace GenConfig

/-- The sessions that successful calls of `random_session` returned, in order. -/
def drawn (c : GenConfig) : List Nat := c.history.filterMap GenEvent.drawn

def modes (c : GenConfig) (t : Nat) : Option GenMode := (c.tasks t).map Task.mode

end GenConfig

/-- The zeroed static storage of a generator. -/
def genFresh (g : Generator) : Prop := g = ⟨0, 0, 0⟩

abbrev GenReachable (component : Nat) (c : GenConfig) : Prop :=
  (genSystem component).Reachable genFresh (fun _ _ => True) c

theorem modes_update {c c' : GenConfig} {t : Nat}
    {task : Task GenAct Nat GenMode (Option (Except Status Nat))}
    (tasks : c'.tasks = Function.update c.tasks t (some task)) :
    c'.modes = Function.update c.modes t (some task.mode) := by
  funext u
  by_cases ut : u = t
  · subst u
    simp [GenConfig.modes, tasks]
  · simp [GenConfig.modes, tasks, ut]

/-- One action of one call keeps the gate, as long as the drawn sessions differ. -/
theorem Gate.act {c : GenConfig} {γ : Sessions} (gate : Gate c.shared c.drawn c.modes γ)
    {t : Nat} {l : Nat} {mode : GenMode} {β : Type} (action : GenAct β) (e : Entropy)
    (found : c.modes t = some mode) (distinct : c.drawn.Nodup)
    (permitted : genPermits mode action) :
    ∃ γ', Gate (action.exec e c.shared).2
      (c.drawn ++ (GenEvent.drawn ⟨t, l, mode, action, (action.exec e c.shared).1⟩).toList)
      (Function.update c.modes t (some (genNext mode action (action.exec e c.shared).1))) γ' := by
  have same (β : Type) (quiet : GenAct β) (answer : β)
      (none_drawn : GenEvent.drawn ⟨t, l, mode, quiet, answer⟩ = none) :
      c.drawn ++ (GenEvent.drawn ⟨t, l, mode, quiet, answer⟩).toList = c.drawn := by
    rw [none_drawn]
    exact List.append_nil _
  cases action with
  | loadSession =>
      rw [same _ _ _ (by cases mode <;> rfl)]
      exact ⟨γ, gate.loadSession found permitted⟩
  | casSession expected desired =>
      rw [same _ _ _ (by cases mode <;> rfl)]
      exact ⟨γ, gate.casSession found e permitted⟩
  | storeSession v =>
      rw [same _ _ _ (by cases mode <;> rfl)]
      exact gate.storeSession found distinct permitted
  | loadActive =>
      rw [same _ _ _ (by cases mode <;> rfl)]
      exact ⟨γ, gate.loadActive found permitted⟩
  | casActive expected desired =>
      rw [same _ _ _ (by cases mode <;> rfl)]
      exact ⟨γ, gate.casActive found e permitted⟩
  | subActive =>
      rw [same _ _ _ (by cases mode <;> rfl)]
      exact ⟨γ, gate.subActive found permitted⟩
  | loadSequence =>
      rw [same _ _ _ (by cases mode <;> rfl)]
      exact ⟨γ, gate.loadSequence found permitted⟩
  | casSequence expected desired =>
      rw [same _ _ _ (by cases mode <;> rfl)]
      exact ⟨γ, gate.casSequence found e permitted⟩
  | storeSequence v =>
      rw [same _ _ _ (by cases mode <;> rfl)]
      exact gate.storeSequence found permitted
  | random =>
      cases mode with
      | drawing state => exact gate.random found _ permitted rfl
      | _ => exact permitted.elim

/-- The gate holds in every interleaving whose drawn sessions differ. -/
theorem gate_reachable {component : Nat} {c : GenConfig} (reach : GenReachable component c) :
    c.drawn.Nodup → ∃ γ, Gate c.shared c.drawn c.modes γ := by
  refine System.Reachable.disciplinedInvariant (I := fun c : GenConfig => c.drawn.Nodup →
    ∃ γ, Gate c.shared c.drawn c.modes γ) (genSystem_disciplined component) ?_ ?_ ?_ reach
  · rintro s rfl _
    refine ⟨⟨[], none, false⟩, ⟨rfl, ?_, .inl ⟨.inl rfl, rfl, rfl⟩, by decide, by decide,
      ⟨∅, rfl, ?_⟩, ?_, ?_⟩⟩
    · intro s known
      cases known
    · intro t
      simp [GenConfig.modes, System.initial]
    · intro t m found
      cases found
    · intro t u m n found
      cases found
  · intro (c : GenConfig) t l ih _ fresh distinct
    obtain ⟨γ, gate⟩ := ih distinct
    have unused : c.modes t = none := by
      simp only [GenConfig.modes, fresh, Option.map_none]
    refine ⟨γ, ?_⟩
    rw [modes_update rfl]
    exact gate.begin unused
  · intro (c : GenConfig) t e l mode β action next ih _ _ held follows distinct
    have drawn : GenConfig.drawn ((genSystem component).perform c t l mode action next e) =
        c.drawn ++ (GenEvent.drawn ⟨t, l, mode, action, (action.exec e c.shared).1⟩).toList :=
      System.perform_filterMap _ c t l mode action next e
    rw [drawn] at distinct ⊢
    have before := distinct.sublist (List.sublist_append_left _ _)
    obtain ⟨γ, gate⟩ := ih before
    have found : c.modes t = some mode := by
      simp only [GenConfig.modes, held, Option.map_some]
    obtain ⟨γ', after⟩ := gate.act action e found before follows.1
    refine ⟨γ', ?_⟩
    rw [modes_update rfl]
    exact after

/-! ## What the calls return -/

/-- A call that returned an ID took its number from a session that was in place. -/
theorem emitted_of_done {component : Nat} {c : GenConfig} (reach : GenReachable component c)
    {t id : Nat} {task : Task GenAct Nat GenMode (Option (Except Status Nat))}
    (found : c.tasks t = some task) (done : task.rest = .done (some (.ok id))) :
    ∃ state number, c.modes t = some (.emitted state number) ∧
      id = bufferIdMake component (state &&& sessionMask) number ∧
      componentIdValid component = true := by
  obtain ⟨l, mode, rest⟩ := task
  subst done
  have ends : genEnds component mode (some (.ok id)) :=
    reach.follows (genSystem_disciplined component) t _ found
  cases mode with
  | emitted state number =>
      exact ⟨state, number, by simp only [GenConfig.modes, found, Option.map_some], ends⟩
  | _ => exact ends.elim

/-- Only calls for a usable component perform anything. -/
theorem valid_of_acting {component : Nat} {c : GenConfig} (reach : GenReachable component c)
    {t : Nat} {task : Task GenAct Nat GenMode (Option (Except Status Nat))}
    (found : c.tasks t = some task) (running : task.Running) :
    componentIdValid component = true := by
  by_contra invalid
  rw [Bool.not_eq_true] at invalid
  have returned : ∀ t task, c.tasks t = some task → ¬task.Running := by
    refine System.Reachable.invariant (I := fun c : GenConfig => ∀ t task,
      c.tasks t = some task → ¬task.Running) ?_ ?_ ?_ reach
    · intro s _ t task none_yet
      cases none_yet
    · intro c t l ih _ _ u task at_u
      rcases update_eq_some.mp at_u with ⟨rfl, rfl⟩ | ⟨_, old⟩
      · intro starts
        refine starts (some (.error .invalidArgument)) ?_
        simp only [System.begin, genSystem, generateBufferId, invalid, if_true]
        rfl
      · exact ih u task old
    · intro c t e l mode β action next ih _ held
      exact absurd (fun a h => by cases h) (ih t _ held)
  exact returned t task found running

/-- A call fails with the store that gives the rotating bit back. -/
theorem genNext_failed {mode : GenMode} {β : Type} {action : GenAct β} {answer : β}
    (permitted : genPermits mode action) (failed : genNext mode action answer = .failed) :
    ∃ state, mode = .drawing state ∧
      ∀ e g, (action.exec e g).2 = { g with sessionState := state } := by
  cases action with
  | storeSession v =>
      cases mode with
      | drawing state =>
          obtain rfl : v = state := permitted
          exact ⟨v, rfl, fun _ _ => rfl⟩
      | reset => cases failed
      | _ => exact permitted.elim
  | loadSession | casSession | loadActive | casActive | loadSequence | casSequence | random =>
      exfalso
      revert failed
      cases mode <;> simp only [genNext, genPermits] at * <;> split <;> try split
      all_goals exact fun done => by cases done
  | subActive | storeSequence => cases mode <;> first | exact permitted.elim | cases failed

/-- The step with which a call fails puts back the word it started to rotate from. -/
theorem failed_of_done {component : Nat} {c c' : GenConfig} (reach : GenReachable component c)
    {t : Nat} {e : Entropy} (moved : (genSystem component).move c (.act t e) = some c')
    {task : Task GenAct Nat GenMode (Option (Except Status Nat))}
    (found : c'.tasks t = some task)
    (done : task.rest = .done (some (.error .entropyUnavailable))) :
    ∃ state, c.modes t = some (.drawing state) ∧ c'.shared.sessionState = state ∧
      c'.shared.sequence = c.shared.sequence := by
  have after := (reach.step trivial moved).follows (genSystem_disciplined component) t _ found
  rcases System.move_cases moved with ⟨_, _, impossible, _⟩ |
    ⟨u, e', l, mode, β, action, next, same, held, rfl⟩
  · cases impossible
  · cases same
    have permitted : genPermits mode action := (reach.follows (genSystem_disciplined component)
      t _ held).1
    rcases update_eq_some.mp found with ⟨_, rfl⟩ | ⟨other, _⟩
    · rw [show next _ = .done (some (.error .entropyUnavailable)) from done] at after
      have ends : genEnds component (genNext mode action (action.exec e c.shared).1)
        (some (.error .entropyUnavailable)) := after
      have failed : genNext mode action (action.exec e c.shared).1 = .failed := by
        generalize genNext mode action (action.exec e c.shared).1 = m at ends
        cases m with
        | failed => rfl
        | idle => cases ends.1
        | _ => exact ends.elim
      obtain ⟨state, rfl, stored⟩ := genNext_failed permitted failed
      refine ⟨state, ?_, ?_, ?_⟩
      · simp only [GenConfig.modes, held, Option.map_some]
      · simp only [System.perform, genExec_eq, stored]
      · simp only [System.perform, genExec_eq, stored]
    · exact absurd rfl other

section Retry

open Program

variable {t l component : Nat}
  {Q : Option (Except Status Nat) → GenMode → Generator → List GenEvent → Prop}

/-- With a session in place and numbers left, a call alone takes the next one. -/
theorem generateLoop_issues {m : GenMode} {word number : Nat} (fuel : Nat)
    (clear : word &&& sessionRotating = 0) (session : word &&& sessionMask ≠ 0)
    (left : number ≠ u32 - 1) (ends : ∀ id m g events, Q (some (.ok id)) m g events) :
    System.Solo genDiscipline t l (generateLoop component (fuel + 1)) Q m ⟨word, number, 0⟩ := by
  have spurious : (default : Entropy).spurious = false := rfl
  simp only [generateLoop, generateRound, lift_bind, act_bind]
  refine ⟨default, ?_⟩
  simp only [genExec_eq, GenAct.exec, clear, session, ne_eq, not_true_eq_false, if_false, act_bind]
  refine ⟨default, ?_⟩
  simp only [genExec_eq, GenAct.exec, show ¬(0 = u32 - 1) by decide, if_false, act_bind]
  refine ⟨default, ?_⟩
  simp only [genExec_eq, GenAct.exec, casWeak, spurious, and_self, if_true, Bool.true_eq_false,
    if_false, act_bind]
  refine ⟨default, ?_⟩
  simp only [genExec_eq, GenAct.exec, not_true_eq_false, if_false, issueRound, lift_bind, act_bind]
  refine ⟨default, ?_⟩
  simp only [genExec_eq, GenAct.exec, left, if_false, act_bind]
  refine ⟨default, ?_⟩
  simp only [genExec_eq, GenAct.exec, casWeak, spurious, and_self, if_true, Bool.true_eq_false,
    if_false, act_bind]
  exact ⟨default, ends _ _ _ _⟩

/-- A rotation alone, with a random word that the session accepts, installs it. -/
theorem rotateRound_installs {Q : GenRound → GenMode → Generator → List GenEvent → Prop}
    {m : GenMode} {word state old number fresh : Nat} (fuel : Nat)
    (accepted : fresh % u32 &&& sessionMask ≠ 0 ∧ fresh % u32 &&& sessionMask ≠ old)
    (ends : ∀ m events, Q none m ⟨fresh % u32 &&& sessionMask, 0, 0⟩ events) :
    System.Solo genDiscipline t l (rotateRound state old (fuel + 1)) Q m ⟨word, number, 0⟩ := by
  simp only [rotateRound, rotateSession, drainGate, randomSession, lift_bind, act_bind]
  refine ⟨default, ?_⟩
  simp only [genExec_eq, GenAct.exec, if_true, pure_eq, done_bind, Bool.true_eq_false, if_false,
    act_bind]
  refine ⟨{ random := some fresh }, ?_⟩
  simp only [genExec_eq, GenAct.exec, Option.map_some, accepted, ne_eq, not_false_eq_true,
    and_self, if_true, done_bind, act_bind]
  exact ⟨default, default, ends _ _⟩

theorem exists_fresh (old : Nat) :
    ∃ fresh, fresh % u32 &&& sessionMask ≠ 0 ∧ fresh % u32 &&& sessionMask ≠ old ∧
      (fresh % u32 &&& sessionMask) &&& sessionRotating = 0 ∧
      (fresh % u32 &&& sessionMask) &&& sessionMask ≠ 0 := by
  by_cases one : old = 1
  · exact ⟨2, by decide, by rw [one]; decide, by decide, by decide⟩
  · exact ⟨1, by decide, Ne.symm one, by decide, by decide⟩

/-- After a failed call, once the gate is empty, a call with working entropy succeeds. -/
theorem generateLoop_recovers {m : GenMode} {g : Generator}
    (word : g.sessionState = 0 ∨ g.sessionState &&& sessionRotating = 0 ∧
      g.sessionState &&& sessionMask ≠ 0 ∧ g.sequence = u32 - 1)
    (empty : g.active = 0) (ends : ∀ id m g events, Q (some (.ok id)) m g events) :
    System.Solo genDiscipline t l (generateLoop component 3) Q m g := by
  have spurious : (default : Entropy).spurious = false := rfl
  obtain ⟨state, number, active⟩ := g
  obtain rfl : active = 0 := empty
  obtain ⟨fresh, nonzero, different, clear, masked⟩ := exists_fresh (state &&& sessionMask)
  have again {m : GenMode} {events : List GenEvent} : System.Solo genDiscipline t l
      (generateLoop component 2) (fun a m g more => Q a m g (events ++ more)) m
      ⟨fresh % u32 &&& sessionMask, 0, 0⟩ :=
    generateLoop_issues 1 clear masked (by decide) (fun _ _ _ _ => ends _ _ _ _)
  rw [generateLoop]
  refine System.Solo.bind ?_
  rcases word with rfl | ⟨calm, session, rfl⟩
  · simp only [generateRound, lift_bind]
    refine ⟨default, ?_⟩
    simp only [genExec_eq, GenAct.exec, Nat.zero_and, ne_eq, not_true_eq_false, if_false, if_true]
    refine ⟨default, ?_⟩
    simp only [genExec_eq, GenAct.exec, casWeak, spurious, and_self, if_true, Bool.true_eq_false,
      if_false]
    refine rotateRound_installs 1 ⟨nonzero, ?_⟩ (fun m events => again)
    rwa [Nat.zero_and] at different
  · simp only [generateRound, lift_bind]
    refine ⟨default, ?_⟩
    simp only [genExec_eq, GenAct.exec, calm, session, ne_eq, not_true_eq_false, if_false]
    refine ⟨default, ?_⟩
    simp only [genExec_eq, GenAct.exec, show ¬(0 = u32 - 1) by decide, if_false]
    refine ⟨default, ?_⟩
    simp only [genExec_eq, GenAct.exec, casWeak, spurious, and_self, if_true, Bool.true_eq_false,
      if_false]
    refine ⟨default, ?_⟩
    simp only [genExec_eq, GenAct.exec, not_true_eq_false, if_false, issueRound, lift_bind]
    refine ⟨default, ?_⟩
    simp only [genExec_eq, GenAct.exec, if_true]
    refine ⟨default, ?_⟩
    simp only [genExec_eq, GenAct.exec]
    refine ⟨default, ?_⟩
    simp only [genExec_eq, GenAct.exec, casWeak, spurious, and_self, if_true, Bool.true_eq_false,
      if_false]
    exact rotateRound_installs 1 ⟨nonzero, different⟩ (fun m events => again)

end Retry

/-- Every interleaving of any calls for one component whose sessions differ: returned IDs
    are pairwise distinct, valid, of that component and never carry `UINT32_MAX`; a call
    that fails for lack of entropy leaves a word without the rotating bit that is zero or
    an exhausted session, from which a later call can succeed. -/
theorem bufferIds_unique (component : Nat) (c : GenConfig) (reach : GenReachable component c)
    (distinct : c.drawn.Nodup) :
    (∀ t u x y id, c.tasks t = some x → c.tasks u = some y → x.rest = .done (some (.ok id)) →
      y.rest = .done (some (.ok id)) → t = u) ∧
    (∀ t x id, c.tasks t = some x → x.rest = .done (some (.ok id)) → bufferIdValid id = true ∧
      bufferIdComponent id = component ∧ bufferIdSequence id ≠ 4294967295) ∧
    (∀ t e c' x, (genSystem component).move c (.act t e) = some c' → c'.tasks t = some x →
      x.rest = .done (some (.error .entropyUnavailable)) →
      c'.shared.sessionState &&& sessionRotating = 0 ∧
      (c'.shared.sessionState = 0 ∨
        c'.shared.sessionState ∈ c.drawn ∧ c'.shared.sequence = 4294967295) ∧
      (c'.shared.active = 0 → ∀ u, c'.tasks u = none → ∃ id s y events,
        GenReachable component
          ⟨s, Function.update c'.tasks u (some y), c'.history ++ events⟩ ∧
        y.rest = .done (some (.ok id)))) := by
  obtain ⟨γ, gate⟩ := gate_reachable reach distinct
  refine ⟨?_, ?_, ?_⟩
  · intro t u x y id at_t at_u doneX doneY
    obtain ⟨state, number, modeX, idX, valid⟩ := emitted_of_done reach at_t doneX
    obtain ⟨state', number', modeY, idY, _⟩ := emitted_of_done reach at_u doneY
    obtain ⟨known, small, _⟩ := gate.fits t _ modeX
    obtain ⟨known', small', _⟩ := gate.fits u _ modeY
    have bound := (gate.valid state known).2
    have bound' := (gate.valid state' known').2
    rw [and_mask bound] at idX
    rw [and_mask bound'] at idY
    have sameSession : state = state' := by
      have left := bufferIdSession_make component (show number < u32 by omega) bound
      have right := bufferIdSession_make component (show number' < u32 by omega) bound'
      rw [← left, ← right, ← idX, ← idY]
    have sameNumber : number = number' := by
      have left := bufferIdSequence_make component state (show number < u32 by omega)
      have right := bufferIdSequence_make component state' (show number' < u32 by omega)
      rw [← left, ← right, ← idX, ← idY]
    subst sameSession sameNumber
    by_contra different
    exact (gate.pairs t u _ _ modeX modeY different).numbers (state, number) rfl rfl
  · intro t x id at_t done
    obtain ⟨state, number, mode, rfl, valid⟩ := emitted_of_done reach at_t done
    obtain ⟨known, small, _⟩ := gate.fits t _ mode
    obtain ⟨positive, bound⟩ := gate.valid state known
    rw [and_mask bound]
    refine ⟨bufferIdValid_make valid positive bound small, ?_, ?_⟩
    · rw [componentIdValid_iff] at valid
      exact bufferIdComponent_make (by omega) (by omega)
    · rw [bufferIdSequence_make component state (by omega)]
      simp only [u32] at small
      omega
  · intro t e c' x moved found done
    obtain ⟨state, mode, word, sequence⟩ := failed_of_done reach moved found done
    obtain ⟨_, source, _, _⟩ := gate.fits t _ mode
    have small : state < 2 ^ 24 := gate.not_rotating (source.imp id And.left)
    have clear : c'.shared.sessionState &&& sessionRotating = 0 := by
      rw [word]
      exact and_rotating small
    refine ⟨clear, ?_, ?_⟩
    · rw [word, sequence, gate.drawn_eq]
      rcases source with zero | ⟨known, last⟩
      · exact .inl zero
      · exact .inr ⟨List.mem_append_left _ known, last⟩
    · intro empty u fresh
      have retry : c'.shared.sessionState = 0 ∨ c'.shared.sessionState &&& sessionRotating = 0 ∧
          c'.shared.sessionState &&& sessionMask ≠ 0 ∧ c'.shared.sequence = u32 - 1 := by
        rcases source with zero | ⟨known, last⟩
        · exact .inl (word.trans zero)
        · refine .inr ⟨clear, ?_, sequence.trans last⟩
          rw [word, and_mask small]
          exact Nat.pos_iff_ne_zero.mp (gate.valid state known).1
      have valid : componentIdValid component = true := by
        rcases System.move_cases moved with ⟨_, _, impossible, _⟩ |
          ⟨_, _, _, _, _, _, _, _, held, _⟩
        · cases impossible
        · exact valid_of_acting reach held (fun a ended => by cases ended)
      have run : System.Solo genDiscipline u 3 ((genSystem component).program 3)
          (fun result _ _ _ => ∃ id, result = some (.ok id)) .idle c'.shared := by
        simp only [genSystem, generateBufferId, valid, Bool.true_eq_false, if_false]
        exact generateLoop_recovers retry empty (fun id _ _ _ => ⟨id, rfl⟩)
      obtain ⟨_, m, s, events, ⟨id, rfl⟩, final⟩ :=
        (reach.step trivial moved).call fresh trivial (fun _ _ => trivial) run
      exact ⟨id, s, _, events, final, rfl⟩

/-- One call for component 1 on a zeroed generator, with 1 as its random word. -/
def firstCall : List (Move Entropy Nat) :=
  .start 0 2 :: List.replicate 13 (.act 0 { random := some 1 })

theorem bufferIds_unique_first : ∃ c : GenConfig, GenReachable 1 c ∧ c.drawn.Nodup ∧
    (∃ x, c.tasks 0 = some x ∧ x.rest = .done (some (.ok (bufferIdMake 1 1 0)))) ∧
    ∀ t u x y id, c.tasks t = some x → c.tasks u = some y → x.rest = .done (some (.ok id)) →
      y.rest = .done (some (.ok id)) → t = u := by
  obtain ⟨c, ran, drawn, done⟩ : ∃ c, (genSystem 1).run (System.initial ⟨0, 0, 0⟩) firstCall =
      some c ∧ GenConfig.drawn c = [1] ∧
      ∃ x, c.tasks 0 = some x ∧ x.rest = .done (some (.ok (bufferIdMake 1 1 0))) :=
    ⟨_, rfl, rfl, _, rfl, rfl⟩
  have reach : GenReachable 1 c := System.Reachable.run (.start rfl) (fun _ _ => trivial) ran
  have distinct : (GenConfig.drawn c).Nodup := by
    rw [drawn]
    exact List.nodup_singleton 1
  exact ⟨c, reach, distinct, done, (bufferIds_unique 1 c reach distinct).1⟩

end Zipc
