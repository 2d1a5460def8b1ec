import Zipc.Sending
import Zipc.Interrupted
import Zipc.Adoption
import Zipc.Fence

/-! # What a replacement takes over

A runtime dies inside a call. The replacement of a terminated runtime calls
`zipc_component_restart_next` until no buffer is left, and again after every call that
page protection made fail. It gets each buffer of the terminated runtime once, as it was
before the interrupted call.
-/

namespace Zipc

open Atomic Program

/-! ## Slots that can be taken over -/

/-- The slot is claimed for a send or its rollback. -/
def SlotControl.Sending (s : SlotControl) : Prop :=
  claimTokenKind s.claimToken = ClaimKind.send.toNat ∨
    claimTokenKind s.claimToken = ClaimKind.rollback.toNat

/-- The slot is claimed for a release. -/
def SlotControl.Releasing (s : SlotControl) : Prop :=
  claimTokenKind s.claimToken = ClaimKind.release.toNat

/-- What an abandoned slot must still hold for its repair. -/
structure SlotControl.Mendable (pool : Pool) (s : SlotControl) : Prop where
  small : s.generation < u32
  window : s.state = .owned → s.region.Within pool.slotCapacity
  known : s.state = .claiming → claimTokenKind s.claimToken ≠ ClaimKind.allocate.toNat →
    claimTokenKind s.claimToken ≠ ClaimKind.receive.toNat → s.Sending ∨ s.Releasing
  sender : s.state = .claiming → s.Sending → s.ownerId = claimTokenComponent s.claimToken ∧
    s.ownerEpoch = claimTokenEpoch s.claimToken ∧ s.region.Within pool.slotCapacity
  releaser : s.state = .claiming → s.Releasing →
    s.claimPreviousOwner = claimTokenComponent s.claimToken ∧
    s.claimPreviousOwnerEpoch = claimTokenEpoch s.claimToken ∧
    s.claimPreviousRegion.Within pool.slotCapacity

/-- The slot is owned by the terminated runtime. -/
def Restart.OwnerOf (restart : Restart) (s : SlotControl) : Prop :=
  s.ownerId = restart.component ∧ s.ownerEpoch = restart.deadEpoch

/-- The terminated runtime owns the slot, or died while it was sending it, taking it back or
releasing it. -/
def Restart.Finds (restart : Restart) (s : SlotControl) : Prop :=
  (s.state = .owned ∧ restart.OwnerOf s) ∨
    (s.state = .claiming ∧ restart.owns s.claimToken = true ∧ (s.Sending ∨ s.Releasing))

/-- The window of the slot, or the one from before an interrupted release. -/
def SlotControl.window (s : SlotControl) : Region :=
  if s.state = .claiming ∧ claimTokenKind s.claimToken = ClaimKind.release.toNat then
    s.claimPreviousRegion
  else s.region

/-- What a buffer keeps when it is taken over. -/
structure SameCargo (s s' : SlotControl) : Prop where
  identity : s'.identity = s.identity
  window : s'.window = s.window
  hopCount : s'.hopCount = s.hopCount
  visited : s'.visited = s.visited
  deadlineNs : s'.deadlineNs = s.deadlineNs

/-- The slot waits for the replacement as before. -/
structure Pending (pool : Pool) (restart : Restart) (s s' : SlotControl) : Prop where
  found : restart.Finds s' ↔ restart.Finds s
  cargo : SameCargo s s'
  generation : s'.generation = s.generation
  mendable : s'.Mendable pool
  still : ¬ restart.Finds s → restart.owns s.claimToken = false → s' = s

/-- The replacement has taken the slot over. -/
structure TakenOver (restart : Restart) (s s' : SlotControl) : Prop where
  state : s'.state = .owned
  owner : s'.ownerId = restart.component
  epoch : s'.ownerEpoch = restart.epoch
  generation : s'.generation ≠ 0 ∧ s'.generation ≠ s.generation
  cargo : SameCargo s s'

/-- The slot was not for the replacement, which went on. -/
def Passed (restart : Restart) (s s' : SlotControl) : Prop :=
  ¬ restart.Finds s ∧ (restart.owns s.claimToken = false → s' = s)

/-- What a round of the scan leaves of slot `i`. -/
def RoundLeaves (pool : Pool) (restart : Restart) (i : Nat) (s : SlotControl) :
    RestartRound → SlotControl → Prop
  | .skip, s' => Passed restart s s'
  | .fail _, s' => Pending pool restart s s'
  | .adopt v, s' => restart.Finds s ∧ v.slotId = i ∧ TakenOver restart s s'
  | .owned, _ => False

section Rounds

variable {pool : Pool} {m₀ : Mem} {i : Nat} {s s' s'' : SlotControl} {restart : Restart}

theorem SameCargo.refl (s : SlotControl) : SameCargo s s := ⟨rfl, rfl, rfl, rfl, rfl⟩

theorem SameCargo.trans (first : SameCargo s s') (second : SameCargo s' s'') : SameCargo s s'' where
  identity := second.identity.trans first.identity
  window := second.window.trans first.window
  hopCount := second.hopCount.trans first.hopCount
  visited := second.visited.trans first.visited
  deadlineNs := second.deadlineNs.trans first.deadlineNs

theorem Pending.refl (mendable : s.Mendable pool) : Pending pool restart s s :=
  ⟨.rfl, .refl s, rfl, mendable, fun _ _ => rfl⟩

theorem Pending.trans (first : Pending pool restart s s') (second : Pending pool restart s' s'') :
    Pending pool restart s s'' where
  found := second.found.trans first.found
  cargo := first.cargo.trans second.cargo
  generation := second.generation.trans first.generation
  mendable := second.mendable
  still lost free := by
    have same := first.still lost free
    have missing : ¬ restart.Finds s' := fun found => lost (first.found.mp found)
    rw [second.still missing (by rw [same]; exact free), same]

theorem Pending.passed (first : Pending pool restart s s') (second : Passed restart s' s'') :
    Passed restart s s'' := by
  have lost : ¬ restart.Finds s := fun found => second.1 (first.found.mpr found)
  refine ⟨lost, fun free => ?_⟩
  have same := first.still lost free
  rw [second.2 (by rw [same]; exact free), same]

theorem Pending.takenOver (first : Pending pool restart s s') (second : TakenOver restart s' s'') :
    TakenOver restart s s'' where
  state := second.state
  owner := second.owner
  epoch := second.epoch
  generation := ⟨second.generation.1, first.generation ▸ second.generation.2⟩
  cargo := first.cargo.trans second.cargo

/-- What the adoption of an owned slot leaves, which begins with the token as it was seen. -/
def AdoptLeaves (restart : Restart) (i token : Nat) (s : SlotControl) : RestartRound → SlotControl → Prop
  | .skip, s' => ¬ restart.OwnerOf s ∧ (restart.owns token = false → s' = s)
  | .fail _, s' => restart.OwnerOf s ∧ ∃ t, s' = { s with claimToken := t }
  | .adopt v, s' => restart.OwnerOf s ∧ v.slotId = i ∧ TakenOver restart s s'
  | .owned, _ => False

theorem alone_clearOwned {α : Type} {token : Nat} {next : Unit → Prog α}
    {Q : α → SlotControl → Prop}
    (rest : ∀ t, (restart.owns token = false → t = s.claimToken) →
      Alone m₀ i (fun _ => True) (next ()) Q { s with claimToken := t }) :
    Alone m₀ i (fun _ => True) (clearOwned restart i token >>= next) Q s := by
  simp only [clearOwned]
  split
  · rename_i mine
    simp only [clearClaimToken, lift_bind, act_bind, pure_eq, done_bind]
    refine alone_casToken trivial (fun _ => rest 0 ?_) fun _ => rest s.claimToken fun _ => rfl
    rw [mine]
    intro done
    cases done
  · exact rest s.claimToken fun _ => rfl

theorem alone_ownedBy {α : Type} {owner epoch : Nat} {next : Bool → Prog α}
    {K : SlotControl → Prop} {Q : α → SlotControl → Prop} (kept : K s)
    (same : s.ownerId = owner → s.ownerEpoch = epoch → Alone m₀ i K (next true) Q s)
    (other : ¬ (s.ownerId = owner ∧ s.ownerEpoch = epoch) → Alone m₀ i K (next false) Q s) :
    Alone m₀ i K (ownedBy i owner epoch >>= next) Q s := by
  simp only [ownedBy, lift_bind, act_bind]
  refine alone_read kept ?_
  by_cases id : s.ownerId = owner
  · simp only [id, ne_eq, not_true_eq_false, if_false, act_bind, pure_eq, done_bind]
    refine alone_read kept ?_
    by_cases current : s.ownerEpoch = epoch
    · simpa only [current, decide_true] using same id current
    · simpa only [current, decide_false] using other fun both => current both.2
  · simp only [id, ne_eq, not_false_eq_true, if_true, pure_eq, done_bind]
    exact other fun both => id both.1

theorem window_of_owned (owned : s.state = .owned) : s.window = s.region := by
  rw [SlotControl.window, if_neg]
  rw [owned]
  nofun

theorem sameCargo_token (owned : s.state = .owned) (t : Nat) :
    SameCargo s { s with claimToken := t } := by
  have moved : ({ s with claimToken := t } : SlotControl).window = s.region := window_of_owned owned
  exact ⟨rfl, moved.trans (window_of_owned owned).symm, rfl, rfl, rfl⟩

theorem restartAdopt_leaves {token : Nat} (state : s.state = .owned) (small : s.generation < u32)
    (window : s.region.Within pool.slotCapacity) :
    Alone m₀ i (fun _ => True) (restartAdopt pool restart i token) (AdoptLeaves restart i token s) s := by
  have back {t : Nat} : ({ s with claimToken := t, state := .owned } : SlotControl) =
    { s with claimToken := t } := by rw [← state]
  simp only [restartAdopt, lift_bind]
  refine alone_clearOwned fun t seen => alone_casState trivial (fun _ => ?_) fun lost => absurd state lost
  simp only [Bool.true_eq_false, if_false]
  refine alone_ownedBy trivial (fun owner epoch => ?_) fun different => ?_
  · simp only [Bool.true_eq_false, if_false]
    apply alone_protectSlot trivial
    · intro _ status failed
      rw [if_pos failed]
      exact alone_storeState trivial (alone_done trivial ⟨⟨owner, epoch⟩, t, back⟩)
    · rw [if_neg (not_not_intro rfl)]
      refine alone_loadGeneration trivial (alone_write trivial (alone_write trivial ?_))
      refine alone_now trivial (alone_write trivial (alone_read trivial (alone_write trivial ?_)))
      refine alone_makeView window trivial fun v place => ?_
      refine alone_traceSlot trivial trivial trivial ?_
      refine alone_count trivial (alone_any trivial (fun e m single => ?_) fun _ => ?_)
      · have spares : (Act.addRecoveredSlot restart.component).spares i := trivial
        have spared := spares.spared e m
        exact ⟨single.slots, single.access, single.payload,
          fun k => (spared.lifecycle k).trans (single.lifecycle k), single.clock⟩
      refine alone_storeState trivial (alone_done trivial ⟨⟨owner, epoch⟩, place, ?_⟩)
      refine ⟨rfl, owner, rfl, ⟨nextGeneration_ne_zero _, nextGeneration_ne small⟩, rfl, ?_, rfl,
        rfl, rfl⟩
      · rw [window_of_owned rfl, window_of_owned state]
        rfl
  · simp only [if_true]
    refine alone_storeState trivial (alone_done trivial ⟨different, fun free => ?_⟩)
    rw [back, seen free]

theorem not_finds (free : s.state ≠ .owned) (idle : s.state ≠ .claiming) : ¬ restart.Finds s := by
  rintro (⟨owned, _⟩ | ⟨claiming, _⟩)
  · exact free owned
  · exact idle claiming

theorem AdoptLeaves.round {round : RestartRound} (state : s.state = .owned) (mendable : s.Mendable pool)
    (leaves : AdoptLeaves restart i s.claimToken s round s') :
    RoundLeaves pool restart i s round s' := by
  have found (owner : restart.OwnerOf s) : restart.Finds s := .inl ⟨state, owner⟩
  cases round with
  | skip =>
      refine ⟨?_, leaves.2⟩
      rintro (⟨_, owner⟩ | ⟨claiming, _⟩)
      · exact leaves.1 owner
      · rw [state] at claiming
        cases claiming
  | fail status =>
      obtain ⟨owner, t, rfl⟩ := leaves
      have again : restart.Finds { s with claimToken := t } := .inl ⟨state, owner⟩
      refine ⟨⟨fun _ => found owner, fun _ => again⟩, sameCargo_token state t, rfl, ?_, ?_⟩
      · have away : s.state ≠ .claiming := by rw [state]; nofun
        exact ⟨mendable.small, mendable.window, fun claiming => absurd claiming away,
          fun claiming => absurd claiming away, fun claiming => absurd claiming away⟩
      · exact fun lost => absurd (found owner) lost
  | adopt v => exact ⟨found leaves.1, leaves.2⟩
  | owned => exact leaves

/-- What the repair of an interrupted send, rollback or release leaves: a slot that the terminated
runtime owns again. -/
structure Mended (pool : Pool) (restart : Restart) (s s' : SlotControl) : Prop where
  state : s'.state = .owned
  owner : restart.OwnerOf s'
  window : s'.region.Within pool.slotCapacity
  generation : s'.generation = s.generation
  cargo : SameCargo s s'

theorem owns_iff {token : Nat} : restart.owns token = true ↔
    claimTokenComponent token = restart.component ∧ claimTokenEpoch token = restart.deadEpoch := by
  simp [Restart.owns]

theorem restartRepair_leaves (state : s.state = .claiming) (mendable : s.Mendable pool)
    (mine : restart.owns s.claimToken = true) (wanted : s.Sending ∨ s.Releasing) :
    Alone m₀ i (fun _ => True) (restartRepair pool restart i s.claimToken)
      (fun round s' => round = .owned ∧ Mended pool restart s s') s := by
  obtain ⟨component, epoch⟩ := owns_iff.mp mine
  have receive : claimTokenKind s.claimToken ≠ ClaimKind.receive.toNat := by
    rcases wanted with (kind | kind) | kind <;> rw [kind] <;> decide
  have allocate : claimTokenKind s.claimToken ≠ ClaimKind.allocate.toNat := by
    rcases wanted with (kind | kind) | kind <;> rw [kind] <;> decide
  simp only [restartRepair, mine, Bool.true_eq_false, if_false, lift_bind]
  refine alone_casState trivial (fun _ => ?_) fun lost => absurd state lost
  simp only [Bool.true_eq_false, if_false, if_neg receive, if_neg allocate, restoreSaved]
  rcases wanted with sending | releasing
  · obtain ⟨owner, ownerEpoch, within⟩ := mendable.sender state sending
    have window : s.window = s.region := by
      rw [SlotControl.window, if_neg]
      rintro ⟨_, kind⟩
      rcases sending with other | other <;> rw [kind] at other <;> cases other
    have sends : claimTokenKind s.claimToken = ClaimKind.send.toNat ∨
      claimTokenKind s.claimToken = ClaimKind.rollback.toNat := sending
    rw [if_pos sends]
    simp only [restoreSequence, lift_bind, act_bind, pure_eq]
    refine alone_read trivial (alone_write trivial (alone_write trivial (alone_storeToken trivial ?_)))
    refine alone_storeState trivial (alone_done trivial ⟨rfl, rfl, ?_, within, rfl, rfl, ?_, rfl, rfl, rfl⟩)
    · exact ⟨owner.trans component, ownerEpoch.trans epoch⟩
    · rw [window]
      exact window_of_owned rfl
  · obtain ⟨owner, ownerEpoch, within⟩ := mendable.releaser state releasing
    have window : s.window = s.claimPreviousRegion := by
      rw [SlotControl.window, if_pos ⟨state, releasing⟩]
    have other : ¬ (claimTokenKind s.claimToken = ClaimKind.send.toNat ∨
        claimTokenKind s.claimToken = ClaimKind.rollback.toNat) := by
      rw [releasing]
      decide
    have release : claimTokenKind s.claimToken = ClaimKind.release.toNat := releasing
    rw [if_neg other, if_pos release]
    simp only [restoreRelease, lift_bind, act_bind, pure_eq]
    refine alone_read trivial (alone_write trivial (alone_read trivial (alone_write trivial ?_)))
    refine alone_read trivial (alone_write trivial (alone_read trivial (alone_write trivial ?_)))
    refine alone_write trivial (alone_storeToken trivial (alone_storeState trivial ?_))
    refine alone_done trivial ⟨rfl, rfl, ?_, within, rfl, rfl, ?_, rfl, rfl, rfl⟩
    · exact ⟨owner.trans component, ownerEpoch.trans epoch⟩
    · rw [window]
      exact window_of_owned rfl

theorem restartRepair_allocate (state : s.state = .claiming) (mine : restart.owns s.claimToken = true)
    (kind : claimTokenKind s.claimToken = ClaimKind.allocate.toNat) :
    Alone m₀ i (fun _ => True) (restartRepair pool restart i s.claimToken)
      (fun round s' => round = .skip ∨ ∃ status, round = .fail status ∧ s' = s) s := by
  have other : claimTokenKind s.claimToken ≠ ClaimKind.receive.toNat := by
    rw [kind]
    decide
  simp only [restartRepair, mine, Bool.true_eq_false, if_false, lift_bind]
  refine alone_casState trivial (fun _ => ?_) fun lost => absurd state lost
  simp only [Bool.true_eq_false, if_false, if_neg other, if_pos kind]
  apply alone_protectSlot trivial
  · intro _ status failed
    rw [if_pos failed]
    refine alone_storeState trivial (alone_done trivial (.inr ⟨status, rfl, ?_⟩))
    exact back_to_claiming state
  · rw [if_neg (not_not_intro rfl)]
    simp only [freeClaimingSlot, writeAll, lift_bind, act_bind, pure_eq, done_bind]
    refine alone_loadToken trivial (alone_write trivial (alone_write trivial (alone_write trivial ?_)))
    refine alone_write trivial (alone_publish rfl trivial trivial ?_)
    exact alone_done trivial (.inl rfl)

/-- An adoption right after the repair. -/
theorem Mended.round {token : Nat} {round : RestartRound} (found : restart.Finds s) (small : s.generation < u32)
    (mended : Mended pool restart s s') (leaves : AdoptLeaves restart i token s' round s'') :
    RoundLeaves pool restart i s round s'' := by
  cases round with
  | skip => exact absurd mended.owner leaves.1
  | fail status =>
      obtain ⟨owner, t, rfl⟩ := leaves
      have again : restart.Finds { s' with claimToken := t } := .inl ⟨mended.state, owner⟩
      have away : s'.state ≠ .claiming := by rw [mended.state]; nofun
      refine ⟨⟨fun _ => found, fun _ => again⟩, mended.cargo.trans (sameCargo_token mended.state t),
        mended.generation, ?_, fun lost => absurd found lost⟩
      exact ⟨mended.generation.trans_lt small, fun _ => mended.window,
        fun claiming => absurd claiming away, fun claiming => absurd claiming away,
        fun claiming => absurd claiming away⟩
  | adopt v =>
      obtain ⟨_, place, taken⟩ := leaves
      exact ⟨found, place, taken.state, taken.owner, taken.epoch,
        ⟨taken.generation.1, mended.generation ▸ taken.generation.2⟩, mended.cargo.trans taken.cargo⟩
  | owned => exact leaves

/-- A round of the adoption scan, at any slot that an interrupted call may have left. -/
theorem restartSlot_leaves (mendable : s.Mendable pool) :
    Alone m₀ i (fun _ => True) (restartSlot pool restart i) (RoundLeaves pool restart i s) s := by
  simp only [restartSlot, lift_bind]
  refine alone_loadState trivial (alone_loadToken trivial ?_)
  have touched {s' : SlotControl} (mine : restart.owns s.claimToken = true) :
      restart.owns s.claimToken = false → s' = s := by
    rw [mine]
    intro done
    cases done
  cases state : s.state with
  | free =>
      have lost : ¬ restart.Finds s := not_finds (by rw [state]; simp) (by rw [state]; simp)
      simp only [reduceCtorEq, true_and, false_and, if_false]
      split
      · rename_i mine
        refine alone_casToken trivial (fun _ => ?_) fun _ => ?_
        all_goals exact alone_done trivial ⟨lost, touched mine⟩
      · exact alone_done trivial ⟨lost, fun _ => rfl⟩
  | transfer =>
      have lost : ¬ restart.Finds s := not_finds (by rw [state]; simp) (by rw [state]; simp)
      simp only [reduceCtorEq, true_and, false_and, if_false]
      split
      · rename_i mine
        simp only [clearClaimToken, lift_bind, act_bind, pure_eq, done_bind]
        refine alone_casToken trivial (fun _ => ?_) fun _ => ?_
        all_goals exact alone_done trivial ⟨lost, touched mine.2⟩
      · exact alone_done trivial ⟨lost, fun _ => rfl⟩
  | error =>
      have lost : ¬ restart.Finds s := not_finds (by rw [state]; simp) (by rw [state]; simp)
      simp only [reduceCtorEq, false_and, if_false]
      exact alone_done trivial ⟨lost, fun _ => rfl⟩
  | owned =>
      simp only [reduceCtorEq, false_and, if_false, if_true]
      refine (restartAdopt_leaves state mendable.small (mendable.window state)).mono ?_ fun _ kept => kept
      exact fun round s' leaves => leaves.round state mendable
  | claiming =>
      simp only [reduceCtorEq, false_and, if_false, if_true]
      by_cases mine : restart.owns s.claimToken = true
      · by_cases wanted : s.Sending ∨ s.Releasing
        · apply alone_bind
          refine (restartRepair_leaves state mendable mine wanted).mono ?_ fun _ kept => kept
          rintro _ s' ⟨rfl, mended⟩
          have small : s'.generation < u32 := mended.generation.trans_lt mendable.small
          refine (restartAdopt_leaves mended.state small mended.window).mono ?_ fun _ kept => kept
          exact fun round s'' leaves => mended.round (.inr ⟨state, mine, wanted⟩) mendable.small leaves
        · have lost : ¬ restart.Finds s := by
            rintro (⟨owned, _⟩ | ⟨_, _, found⟩)
            · rw [state] at owned
              cases owned
            · exact wanted found
          -- the interrupted call was an allocation or a receive
          apply alone_bind
          by_cases receive : claimTokenKind s.claimToken = ClaimKind.receive.toNat
          · refine (restartRepair_receive state mine receive).mono ?_ fun _ kept => kept
            rintro round s' (⟨rfl, _⟩ | ⟨status, rfl, rfl⟩)
            · exact alone_done trivial ⟨lost, touched mine⟩
            · exact alone_done trivial (Pending.refl mendable)
          · have allocate : claimTokenKind s.claimToken = ClaimKind.allocate.toNat := by
              by_contra other
              exact wanted (mendable.known state other receive)
            refine (restartRepair_allocate state mine allocate).mono ?_ fun _ kept => kept
            rintro round s' (rfl | ⟨status, rfl, rfl⟩)
            · exact alone_done trivial ⟨lost, touched mine⟩
            · exact alone_done trivial (Pending.refl mendable)
      · have lost : ¬ restart.Finds s := by
          rintro (⟨owned, _⟩ | ⟨_, found, _⟩)
          · rw [state] at owned
            cases owned
          · exact mine found
        rw [Bool.not_eq_true] at mine
        simp only [restartRepair, mine, if_true]
        exact alone_done trivial ⟨lost, fun _ => rfl⟩

end Rounds

/-! ## Calls -/

/-- The platform does not report a failed page protection as an empty pool. -/
def plainFailures : Env → Prop := fun e => e.protect ≠ .noBuffer

/-- The scan went past the slots before `k`. -/
structure GoesPast (restart : Restart) (k : Nat) (m m' : Mem) : Prop where
  reach : restart.cursor ≤ k
  passed : ∀ j, restart.cursor ≤ j → j < k → Passed restart (m.slots j) (m'.slots j)
  still : ∀ j, j < restart.cursor ∨ k < j → m'.slots j = m.slots j
  payload : m'.payload = m.payload
  lifecycle : ∀ n, (m'.components n).lifecycle = (m.components n).lifecycle

/-- What a call of `zipc_component_restart_next` leaves. -/
inductive CallLeaves (pool : Pool) (restart : Restart) (m : Mem) :
    Status × Restart × Option View → Mem → Prop where
  /-- There was no slot left for the replacement. -/
  | finished {m' : Mem} {k : Nat} : GoesPast restart k m m' → pool.slotCount ≤ k →
      CallLeaves pool restart m (.noBuffer, { restart with cursor := k, scanComplete := true }, none) m'
  /-- Slot `k` was taken over. -/
  | taken {m' : Mem} {k : Nat} {v : View} : GoesPast restart k m m' → k < pool.slotCount →
      restart.Finds (m.slots k) → v.slotId = k → TakenOver restart (m.slots k) (m'.slots k) →
      CallLeaves pool restart m (.ok, { restart with cursor := k + 1 }, some v) m'
  /-- Page protection failed at slot `k`. -/
  | failed {m' : Mem} {k : Nat} {status : Status} : GoesPast restart k m m' → k < pool.slotCount →
      status ≠ .ok → status ≠ .noBuffer → Pending pool restart (m.slots k) (m'.slots k) →
      CallLeaves pool restart m (status, { restart with cursor := k }, none) m'

/-- A round that fails says so. -/
def RestartRound.Plain (round : RestartRound) : Prop :=
  ∀ status, round = .fail status → status ≠ .ok ∧ status ≠ .noBuffer

section Calls

variable {pool : Pool} {restart : Restart} {m m' a : Mem} {k : Nat}

theorem restartSlot_yields (i : Nat) :
    Yields plainFailures RestartRound.Plain (restartSlot pool restart i) := by
  have skips : Yields plainFailures RestartRound.Plain (pure .skip : Prog RestartRound) :=
    yields_done nofun
  have fails {status : Status} (failed : status ≠ .ok) (plain : status ≠ .noBuffer) :
      Yields plainFailures RestartRound.Plain (pure (.fail status) : Prog RestartRound) :=
    yields_done (by rintro _ ⟨⟩; exact ⟨failed, plain⟩)
  have protects (readWrite : Bool) :
      Yields plainFailures (fun status => status ≠ .noBuffer) (protectSlot pool i readWrite) := by
    unfold protectSlot
    refine yields_ite (fun _ => yields_done nofun) fun _ => ?_
    refine yields_ite (fun _ => yields_done nofun) fun _ => ?_
    exact yields_act fun e _ plain => yields_done plain
  have views (handle : Nat) : Yields plainFailures
      (fun view => ∀ failure, view = .error failure → failure = .regionOverflow)
      (makeView pool i handle) := by
    refine (yields_true _).bind fun offset _ => (yields_true _).bind fun length _ => ?_
    refine yields_ite (fun _ => yields_done ?_) fun _ => ?_
    · rintro _ ⟨⟩
      rfl
    · exact (yields_true _).bind fun _ _ => (yields_true _).bind fun _ _ => yields_done nofun
  have adopts (token : Nat) : Yields plainFailures RestartRound.Plain
      (restartAdopt pool restart i token) := by
    unfold restartAdopt
    refine (yields_true _).bind fun _ _ => (yields_true _).bind fun won _ => ?_
    refine yields_ite (fun _ => skips) fun _ => (yields_true _).bind fun same _ => ?_
    refine yields_ite (fun _ => (yields_true _).bind fun _ _ => skips) fun _ => ?_
    refine (protects true).bind fun status plain => yields_ite (fun failed => ?_) fun _ => ?_
    · exact (yields_true _).bind fun _ _ => fails failed plain
    · refine (yields_true _).bind fun old _ => (yields_true _).bind fun _ _ => ?_
      refine (yields_true _).bind fun _ _ => (yields_true _).bind fun time _ => ?_
      refine (yields_true _).bind fun _ _ => (yields_true _).bind fun recoveries _ => ?_
      refine (yields_true _).bind fun _ _ => (views _).bind fun view known => ?_
      cases view with
      | error failure =>
          have overflow : failure = .regionOverflow := known failure rfl
          refine (yields_true _).bind fun _ _ => (yields_true _).bind fun _ _ => ?_
          exact (yields_true _).bind fun _ _ => overflow ▸ fails nofun nofun
      | ok v =>
          refine (yields_true _).bind fun _ _ => (yields_true _).bind fun _ _ => ?_
          exact (yields_true _).bind fun _ _ => (yields_true _).bind fun _ _ => yields_done nofun
  have repairs (token : Nat) : Yields plainFailures RestartRound.Plain
      (restartRepair pool restart i token) := by
    unfold restartRepair
    refine yields_ite (fun _ => skips) fun _ => (yields_true _).bind fun won _ => ?_
    refine yields_ite (fun _ => skips) fun _ => yields_ite (fun _ => ?_) fun _ => ?_
    · refine (protects false).bind fun status plain => yields_ite (fun failed => ?_) fun _ => ?_
      · exact (yields_true _).bind fun _ _ => fails failed plain
      · exact (yields_true _).bind fun _ _ => skips
    refine yields_ite (fun _ => ?_) fun _ => ?_
    · refine (protects false).bind fun status plain => yields_ite (fun failed => ?_) fun _ => ?_
      · exact (yields_true _).bind fun _ _ => fails failed plain
      · exact (yields_true _).bind fun _ _ => skips
    · refine (yields_true _).bind fun _ _ => (yields_true _).bind fun _ _ => ?_
      refine (yields_true _).bind fun _ _ => (yields_true _).bind fun _ _ => yields_done nofun
  unfold restartSlot
  refine (yields_true _).bind fun state _ => (yields_true _).bind fun token _ => ?_
  refine yields_ite (fun _ => (yields_true _).bind fun _ _ => skips) fun _ => ?_
  refine yields_ite (fun _ => (yields_true _).bind fun _ _ => skips) fun _ => ?_
  refine yields_ite (fun _ => (repairs token).bind fun round kept => ?_) fun _ => ?_
  · cases round with
    | owned => exact adopts token
    | skip => exact skips
    | fail status => exact yields_done kept
    | adopt v => exact yields_done nofun
  · exact yields_ite (fun _ => adopts token) fun _ => skips

/-- A round that went on to the next slot, and what followed. -/
theorem GoesPast.next {s' : SlotControl} (single : Singled m restart.cursor s' a)
    (round : Passed restart (m.slots restart.cursor) s')
    (rest : GoesPast { restart with cursor := restart.cursor + 1 } k a m') :
    GoesPast restart k m m' where
  reach := Nat.le_of_succ_le rest.reach
  passed j low high := by
    by_cases here : j = restart.cursor
    · subst here
      rw [rest.still _ (.inl (Nat.lt_succ_self _)), single.at_slot]
      exact round
    · have later := rest.passed j (Nat.lt_of_le_of_ne low (Ne.symm here)) high
      rw [single.other here] at later
      exact later
  still j away := by
    have reach := rest.reach
    have other : j ≠ restart.cursor := by
      simp only at reach
      omega
    rw [rest.still j (by simp only; omega), single.other other]
  payload := rest.payload.trans single.payload
  lifecycle n := (rest.lifecycle n).trans (single.lifecycle n)

/-- The scan stops at its first slot. -/
theorem Singled.passes {s' : SlotControl} (single : Singled m restart.cursor s' m') :
    GoesPast restart restart.cursor m m' where
  reach := le_rfl
  passed j low high := absurd low (Nat.not_le.mpr high)
  still j away := single.other (by omega)
  payload := single.payload
  lifecycle := single.lifecycle

theorem CallLeaves.next {s' : SlotControl} {result : Status × Restart × Option View}
    (single : Singled m restart.cursor s' a)
    (round : Passed restart (m.slots restart.cursor) s')
    (rest : CallLeaves pool { restart with cursor := restart.cursor + 1 } a result m') :
    CallLeaves pool restart m result m' := by
  cases rest with
  | finished passes past => exact .finished (passes.next single round) past
  | @taken _ k v passes inside found place taken =>
      have reach := passes.reach
      have ahead : a.slots k = m.slots k := single.other (by simp only at reach; omega)
      rw [ahead] at found taken
      exact .taken (passes.next single round) inside found place
        ⟨taken.state, taken.owner, taken.epoch, taken.generation, taken.cargo⟩
  | @failed _ k status passes inside error plain pending =>
      have reach := passes.reach
      have ahead : a.slots k = m.slots k := single.other (by simp only at reach; omega)
      rw [ahead] at pending
      exact .failed (passes.next single round) inside error plain
        ⟨pending.found, pending.cargo, pending.generation, pending.mendable, pending.still⟩

theorem restartScan_leaves (left : Nat) : ∀ {restart : Restart} {m m' : Mem}
    {result : Status × Restart × Option View}, left = pool.slotCount - restart.cursor →
    (∀ j, restart.cursor ≤ j → j < pool.slotCount → (m.slots j).Mendable pool) →
    CompletesIn plainFailures (restartScan pool left restart) m result m' →
    CallLeaves pool restart m result m' := by
  induction left with
  | zero =>
      intro restart m m' result done _ run
      cases run
      have passes : GoesPast restart restart.cursor m m := (Singled.refl m restart.cursor).passes
      exact .finished passes (by omega)
  | succ left ih =>
      intro restart m m' result below mendable run
      have inside : restart.cursor < pool.slotCount := by omega
      obtain ⟨round, a, first, rest⟩ := run.bind
      have plain : round.Plain := first.sound (restartSlot_yields restart.cursor m)
      obtain ⟨s', single, leaves⟩ := first.completes.sound
        ((restartSlot_leaves (mendable _ le_rfl inside)) m (.refl m restart.cursor)).wp
      have ahead (j : Nat) (low : restart.cursor + 1 ≤ j) (high : j < pool.slotCount) :
          (a.slots j).Mendable pool := by
        rw [single.other (by omega)]
        exact mendable j (by omega) high
      cases round with
      | fail status =>
          cases rest
          obtain ⟨error, named⟩ := plain status rfl
          exact .failed single.passes inside error named (single.at_slot ▸ leaves)
      | adopt v =>
          cases rest
          obtain ⟨found, place, taken⟩ := leaves
          exact .taken single.passes inside found place (single.at_slot ▸ taken)
      | skip => exact .next single leaves (ih (by simp only; omega) ahead rest)
      | owned => exact leaves.elim

/-- One call, from a memory in which the restart is under way. -/
theorem restartNext_leaves {result : Status × Restart × Option View} (sound : RestartWell restart)
    (active : Restarting m restart)
    (mendable : ∀ j, restart.cursor ≤ j → j < pool.slotCount → (m.slots j).Mendable pool)
    (run : CompletesIn plainFailures (componentRestartNext pool restart) m result m') :
    CallLeaves pool restart m result m' := by
  obtain ⟨recovering, a, test, rest⟩ := run.bind
  have small : restart.deadEpoch + 1 < u32 := sound.epoch ▸ sound.small
  have tests : (componentEpochRecovering restart.component restart.epoch).wpsIn plainFailures
      (Guarded pool) (fun recovering m' => m' = m ∧ recovering = true) m :=
    (epochRecovering_true sound active).within
  obtain ⟨rfl, rfl⟩ := test.sound tests
  rw [if_neg (by simp [sound.epoch, Nat.mod_eq_of_lt small])] at rest
  exact restartScan_leaves _ rfl mendable rest

end Calls

/-! ## Until no buffer is left -/

/-- Calls of `zipc_component_restart_next`, with what each of them returned. Time passes between
the calls. -/
inductive Resumes (pool : Pool) (restart : Restart) (m : Mem) :
    List (Status × Option View) → Restart → Mem → Prop where
  | start : Resumes pool restart m [] restart m
  | next {results : List (Status × Option View)} {r r' : Restart} {a b : Mem} {status : Status}
      {view : Option View} : Resumes pool restart m results r a →
      CompletesIn plainFailures (componentRestartNext pool r) a (status, r', view) b →
      Resumes pool restart m (results ++ [(status, view)]) r' b
  | tick {results : List (Status × Option View)} {r : Restart} {a : Mem} (clock : Nat) :
      Resumes pool restart m results r a → Resumes pool restart m results r { a with clock }

/-- How often the calls returned OK with the buffer in slot `i`. -/
def returnsOf (results : List (Status × Option View)) (i : Nat) : Nat :=
  results.countP fun result => result.1 = .ok ∧ result.2.map (·.slotId) = some i

/-- Both restart objects are for the same epoch of the same component. -/
structure Restart.Agrees (r restart : Restart) : Prop where
  component : r.component = restart.component
  deadEpoch : r.deadEpoch = restart.deadEpoch
  epoch : r.epoch = restart.epoch

section Agreement

variable {pool : Pool} {r restart : Restart} {s s' : SlotControl}

theorem Restart.Agrees.owns (agrees : r.Agrees restart) (token : Nat) :
    r.owns token = restart.owns token := by
  rw [Restart.owns, Restart.owns, agrees.component, agrees.deadEpoch]

theorem Restart.Agrees.finds (agrees : r.Agrees restart) (s : SlotControl) :
    r.Finds s ↔ restart.Finds s := by
  rw [Restart.Finds, Restart.Finds, Restart.OwnerOf, Restart.OwnerOf, agrees.owns, agrees.component,
    agrees.deadEpoch]

theorem Restart.Agrees.passed (agrees : r.Agrees restart) (passed : Passed r s s') :
    Passed restart s s' :=
  ⟨fun found => passed.1 ((agrees.finds s).mpr found),
    fun free => passed.2 ((agrees.owns _).trans free)⟩

theorem Restart.Agrees.takenOver (agrees : r.Agrees restart) (taken : TakenOver r s s') :
    TakenOver restart s s' :=
  ⟨taken.state, taken.owner.trans agrees.component, taken.epoch.trans agrees.epoch,
    taken.generation, taken.cargo⟩

theorem Restart.Agrees.pending (agrees : r.Agrees restart) (pending : Pending pool r s s') :
    Pending pool restart s s' where
  found := (agrees.finds s').symm.trans (pending.found.trans (agrees.finds s))
  cargo := pending.cargo
  generation := pending.generation
  mendable := pending.mendable
  still lost free := pending.still (fun found => lost ((agrees.finds s).mp found))
    ((agrees.owns _).trans free)

theorem RestartWell.of (agrees : r.Agrees restart) (sound : RestartWell restart) : RestartWell r where
  valid := agrees.component ▸ sound.valid
  dead := agrees.deadEpoch ▸ sound.dead
  epoch := by rw [agrees.epoch, agrees.deadEpoch, sound.epoch]
  small := agrees.epoch ▸ sound.small

end Agreement

/-- How far the calls have come. -/
structure Taking (pool : Pool) (restart : Restart) (m : Mem) (results : List (Status × Option View))
    (r : Restart) (a : Mem) : Prop where
  agrees : r.Agrees restart
  payload : a.payload = m.payload
  lifecycle : ∀ n, (a.components n).lifecycle = (m.components n).lifecycle
  behind : ∀ j, j < r.cursor → j < pool.slotCount →
    (restart.Finds (m.slots j) ∧ TakenOver restart (m.slots j) (a.slots j) ∧
      returnsOf results j = 1) ∨
    (Passed restart (m.slots j) (a.slots j) ∧ returnsOf results j = 0)
  ahead : ∀ j, r.cursor ≤ j → j < pool.slotCount →
    Pending pool restart (m.slots j) (a.slots j) ∧ returnsOf results j = 0
  finished : ∀ view, (.noBuffer, view) ∈ results → pool.slotCount ≤ r.cursor

section Taking

variable {pool : Pool} {r r' restart : Restart} {m a b : Mem} {results : List (Status × Option View)}
  {status : Status} {view : Option View}

theorem returnsOf_append (results : List (Status × Option View)) (i : Nat) (status : Status)
    (view : Option View) : returnsOf (results ++ [(status, view)]) i = returnsOf results i +
      if status = .ok ∧ view.map (·.slotId) = some i then 1 else 0 := by
  simp [returnsOf, List.countP_append, List.countP_cons]

theorem Taking.start (restart : Restart) (m : Mem) (first : restart.cursor = 0)
    (mendable : ∀ j, j < pool.slotCount → (m.slots j).Mendable pool) :
    Taking pool restart m [] restart m where
  agrees := ⟨rfl, rfl, rfl⟩
  payload := rfl
  lifecycle _ := rfl
  behind j low := absurd low (by omega)
  ahead j _ inside := ⟨.refl (mendable j inside), rfl⟩
  finished view member := by cases member

variable {k : Nat}

/-- The slots that a call or its predecessors went past. -/
theorem Taking.past (taking : Taking pool restart m results r a) (passes : GoesPast r k a b) (j : Nat)
    (low : j < k) (inside : j < pool.slotCount) :
    (restart.Finds (m.slots j) ∧ TakenOver restart (m.slots j) (b.slots j) ∧
      returnsOf results j = 1) ∨
    (Passed restart (m.slots j) (b.slots j) ∧ returnsOf results j = 0) := by
  by_cases before : j < r.cursor
  · rw [passes.still j (.inl before)]
    exact taking.behind j before inside
  · have reached : r.cursor ≤ j := Nat.not_lt.mp before
    obtain ⟨pending, none⟩ := taking.ahead j reached inside
    exact .inr ⟨pending.passed (taking.agrees.passed (passes.passed j reached low)), none⟩

/-- The slots that a call did not reach. -/
theorem Taking.unreached (taking : Taking pool restart m results r a) (passes : GoesPast r k a b)
    (j : Nat) (high : k < j) (inside : j < pool.slotCount) :
    Pending pool restart (m.slots j) (b.slots j) ∧ returnsOf results j = 0 := by
  have reach := passes.reach
  rw [passes.still j (.inr high)]
  exact taking.ahead j (by omega) inside

theorem Taking.active (taking : Taking pool restart m results r a) (active : Restarting m restart) :
    Restarting a r := by
  rw [Restarting, taking.lifecycle, taking.agrees.component, taking.agrees.epoch]
  exact active

theorem Taking.leaves {result : Status × Restart × Option View}
    (taking : Taking pool restart m results r a) (sound : RestartWell restart)
    (active : Restarting m restart)
    (run : CompletesIn plainFailures (componentRestartNext pool r) a result b) :
    CallLeaves pool r a result b :=
  restartNext_leaves (.of taking.agrees sound) (taking.active active)
    (fun j reached inside => (taking.ahead j reached inside).1.mendable) run

theorem Taking.next (taking : Taking pool restart m results r a)
    (leaves : CallLeaves pool r a (status, r', view) b) :
    Taking pool restart m (results ++ [(status, view)]) r' b := by
  have agrees := taking.agrees
  cases leaves with
  | @finished _ k passes past =>
      have count (j : Nat) : returnsOf (results ++ [(.noBuffer, none)]) j = returnsOf results j :=
        returnsOf_append results j .noBuffer none
      refine ⟨⟨agrees.component, agrees.deadEpoch, agrees.epoch⟩, passes.payload.trans taking.payload,
        fun n => (passes.lifecycle n).trans (taking.lifecycle n), ?_, ?_, fun _ _ => past⟩
      · intro j low inside
        rw [count]
        exact taking.past passes j low inside
      · intro j high inside
        exact absurd inside (Nat.not_lt.mpr (past.trans high))
  | @taken _ k v passes inside found place taken =>
      obtain ⟨pending, none⟩ := taking.ahead k passes.reach inside
      have count (j : Nat) (other : j ≠ k) :
          returnsOf (results ++ [(.ok, some v)]) j = returnsOf results j := by
        rw [returnsOf_append, if_neg, Nat.add_zero]
        rintro ⟨_, same⟩
        exact other (by simpa [place] using same.symm)
      have once : returnsOf (results ++ [(.ok, some v)]) k = 1 := by
        rw [returnsOf_append, none, if_pos ⟨rfl, by simp [place]⟩]
      refine ⟨⟨agrees.component, agrees.deadEpoch, agrees.epoch⟩, passes.payload.trans taking.payload,
        fun n => (passes.lifecycle n).trans (taking.lifecycle n), ?_, ?_, ?_⟩
      · intro j low within
        by_cases here : j = k
        · subst here
          exact .inl ⟨pending.found.mp ((agrees.finds _).mp found),
            pending.takenOver (agrees.takenOver taken), once⟩
        · rw [count j here]
          exact taking.past passes j (by simp only at low; omega) within
      · intro j high within
        rw [count j (by simp only at high; omega)]
        exact taking.unreached passes j high within
      · intro view member
        rcases List.mem_append.mp member with old | new
        · have done := taking.finished view old
          have reach := passes.reach
          omega
        · simp at new
  | @failed _ k _ passes inside error plain pending =>
      obtain ⟨before, none⟩ := taking.ahead k passes.reach inside
      have count (j : Nat) :
          returnsOf (results ++ [(status, Option.none)]) j = returnsOf results j := by
        rw [returnsOf_append, if_neg (fun both => error both.1), Nat.add_zero]
      refine ⟨⟨agrees.component, agrees.deadEpoch, agrees.epoch⟩, passes.payload.trans taking.payload,
        fun n => (passes.lifecycle n).trans (taking.lifecycle n), ?_, ?_, ?_⟩
      · intro j low within
        rw [count]
        exact taking.past passes j low within
      · intro j high within
        rw [count]
        by_cases here : j = k
        · subst here
          exact ⟨before.trans (agrees.pending pending), none⟩
        · exact taking.unreached passes j (Nat.lt_of_le_of_ne high (Ne.symm here)) within
      · intro view member
        rcases List.mem_append.mp member with old | new
        · have done := taking.finished view old
          have reach := passes.reach
          omega
        · simp only [List.mem_singleton, Prod.mk.injEq] at new
          exact absurd new.1.symm plain

theorem Resumes.taking (resumes : Resumes pool restart m results r a) (sound : RestartWell restart)
    (active : Restarting m restart) (first : restart.cursor = 0)
    (mendable : ∀ j, j < pool.slotCount → (m.slots j).Mendable pool) :
    Taking pool restart m results r a := by
  induction resumes with
  | start => exact .start restart m first mendable
  | next _ run ih => exact ih.next (ih.leaves sound active run)
  | tick clock _ ih => exact ⟨ih.agrees, ih.payload, ih.lifecycle, ih.behind, ih.ahead, ih.finished⟩

end Taking

/-! ## Interrupted calls -/

/-- What a call that died leaves of a slot. -/
def LeftBy (pool : Pool) (s s' : SlotControl) : Prop :=
  s'.Mendable pool ∧
    (s'.state = .claiming → s'.Releasing → s'.claimPreviousRegion = s.region)

/-- The fields that the repair of a slot depends on. -/
structure Held where
  state : SlotState
  claimToken : Nat
  generation : Nat
  ownerId : Nat
  ownerEpoch : Nat
  region : Region
  previousOwner : Nat
  previousEpoch : Nat
  previousRegion : Region

def SlotControl.held (s : SlotControl) : Held :=
  ⟨s.state, s.claimToken, s.generation, s.ownerId, s.ownerEpoch, s.region, s.claimPreviousOwner,
    s.claimPreviousOwnerEpoch, s.claimPreviousRegion⟩

/-- Owner, generation and window are as before. -/
structure SameHold (s s' : SlotControl) : Prop where
  owner : s'.ownerId = s.ownerId
  epoch : s'.ownerEpoch = s.ownerEpoch
  generation : s'.generation = s.generation
  region : s'.region = s.region

/-- Writes to other fields. -/
def SlotWrite.scratch : SlotWrite → Prop
  | .generation _ | .ownerId _ | .ownerEpoch _ | .regionOffset _ | .regionLength _
  | .claimPreviousOwner _ | .claimPreviousOwnerEpoch _ | .claimPreviousRegionOffset _
  | .claimPreviousRegionLength _ => False
  | _ => True

/-- Actions on slot `i` that leave these fields alone. -/
def Act.scratch (i : Nat) {β : Type} : Act β → Prop
  | .storeState _ _ | .casState _ _ _ | .storeToken _ _ | .casToken _ _ _ => False
  | .write k w => k = i ∧ w.scratch
  | action => action.spares i

/-- Every action of the program leaves these fields alone. -/
def Scratch (i : Nat) {α : Type} : Prog α → Prop
  | .done _ => True
  | .act action next => action.scratch i ∧ ∀ b, Scratch i (next b)

/-- The owner of the slot can be named in a token. -/
structure SlotControl.Nameable (pool : Pool) (s : SlotControl) : Prop where
  owner : s.ownerId < 65536
  epoch : s.ownerEpoch < u32
  small : s.generation < u32
  window : s.region.Within pool.slotCapacity

section Left

variable {pool : Pool} {m₀ : Mem} {i : Nat} {s s' : SlotControl}

theorem left_idle (free : s'.state ≠ .owned) (idle : s'.state ≠ .claiming)
    (small : s'.generation < u32) : LeftBy pool s s' :=
  ⟨⟨small, fun owned => absurd owned free, fun claiming => absurd claiming idle,
    fun claiming => absurd claiming idle, fun claiming => absurd claiming idle⟩,
    fun claiming => absurd claiming idle⟩

theorem left_owned (nameable : s.Nameable pool) (state : s'.state = .owned) (same : SameHold s s') :
    LeftBy pool s s' := by
  have away : s'.state ≠ .claiming := by
    rw [state]
    nofun
  have window : s'.region.Within pool.slotCapacity := same.region ▸ nameable.window
  exact ⟨⟨same.generation.trans_lt nameable.small, fun _ => window,
    fun claiming => absurd claiming away, fun claiming => absurd claiming away,
    fun claiming => absurd claiming away⟩, fun claiming => absurd claiming away⟩

theorem left_sending {kind : ClaimKind} (nameable : s.Nameable pool) (state : s'.state = .claiming)
    (sends : kind = .send ∨ kind = .rollback)
    (token : s'.claimToken = claimTokenMake kind s.ownerId s.ownerEpoch) (same : SameHold s s') :
    LeftBy pool s s' := by
  have named : claimTokenKind s'.claimToken = kind.toNat := by rw [token, claimTokenKind_make]
  have sending : s'.Sending := by
    rcases sends with rfl | rfl
    · exact .inl named
    · exact .inr named
  have other : ¬ s'.Releasing := by
    intro releasing
    rw [SlotControl.Releasing, named] at releasing
    rcases sends with rfl | rfl <;> cases releasing
  have window : s'.region.Within pool.slotCapacity := same.region ▸ nameable.window
  refine ⟨⟨same.generation.trans_lt nameable.small, ?_, fun _ _ _ => .inl sending, fun _ _ => ?_,
    fun _ releasing => absurd releasing other⟩, fun _ releasing => absurd releasing other⟩
  · rw [state]
    nofun
  · rw [token, claimTokenComponent_make kind nameable.owner,
      claimTokenEpoch_make kind nameable.owner nameable.epoch]
    exact ⟨same.owner, same.epoch, window⟩

theorem left_releasing (nameable : s.Nameable pool) (state : s'.state = .claiming)
    (token : s'.claimToken = claimTokenMake .release s.ownerId s.ownerEpoch)
    (generation : s'.generation = s.generation) (owner : s'.claimPreviousOwner = s.ownerId)
    (epoch : s'.claimPreviousOwnerEpoch = s.ownerEpoch)
    (region : s'.claimPreviousRegion = s.region) : LeftBy pool s s' := by
  have named : claimTokenKind s'.claimToken = ClaimKind.release.toNat := by
    rw [token, claimTokenKind_make]
  have other : ¬ s'.Sending := by
    rintro (sending | sending) <;> rw [named] at sending <;> cases sending
  have window : s'.claimPreviousRegion.Within pool.slotCapacity := region ▸ nameable.window
  refine ⟨⟨generation.trans_lt nameable.small, ?_, fun _ _ _ => .inr named,
    fun _ sending => absurd sending other, fun _ _ => ?_⟩, fun _ _ => region⟩
  · rw [state]
    nofun
  · rw [token, claimTokenComponent_make .release nameable.owner,
      claimTokenEpoch_make .release nameable.owner nameable.epoch]
    exact ⟨owner, epoch, window⟩

/-- A slot that an allocation holds needs nothing but its token. -/
theorem left_allocating {component epoch : Nat} (state : s'.state = .claiming)
    (token : s'.claimToken = claimTokenMake .allocate component epoch)
    (small : s'.generation < u32) : LeftBy pool s s' := by
  have named : claimTokenKind s'.claimToken = ClaimKind.allocate.toNat := by
    rw [token, claimTokenKind_make]
  have other : ¬ s'.Sending := by
    rintro (sending | sending) <;> rw [named] at sending <;> cases sending
  have another : ¬ s'.Releasing := by
    intro releasing
    rw [SlotControl.Releasing, named] at releasing
    cases releasing
  refine ⟨⟨small, ?_, fun _ wrong => absurd named wrong, fun _ sending => absurd sending other,
    fun _ releasing => absurd releasing another⟩, fun _ releasing => absurd releasing another⟩
  rw [state]
  nofun

theorem SlotWrite.scratch.held {w : SlotWrite} (scratch : w.scratch) (s : SlotControl) :
    (w.apply s).held = s.held := by
  cases w <;> first | rfl | exact scratch.elim

theorem Act.scratch.spares {β : Type} {action : Act β} (scratch : action.scratch i) :
    action.spares i := by
  cases action
  case storeState | casState | storeToken | casToken => exact scratch.elim
  case write => exact scratch.1
  all_goals exact scratch

theorem Act.scratch.held {β : Type} {action : Act β} (scratch : action.scratch i) (e : Env) (m : Mem) :
    ((action.exec e m).2.slots i).held = (m.slots i).held := by
  cases action
  case storeState | casState | storeToken | casToken | copyIn | tick | casLifecycle =>
    exact scratch.elim
  case write k w =>
    obtain ⟨rfl, plain⟩ := scratch
    have stored : (((Act.write k w).exec e m).2.slots k) = w.apply (m.slots k) := by
      simp [Act.exec, Mem.setSlot]
    rw [stored]
    exact plain.held _
  case eventWrite | protect =>
    simp only [Act.exec]
    split <;> rfl
  case eventRead =>
    simp only [Act.exec]
    split
    · rfl
    · split <;> rfl
  all_goals rfl

theorem SameHold.of_held (same : s'.held = s.held) : SameHold s s' :=
  ⟨congrArg Held.ownerId same, congrArg Held.ownerEpoch same, congrArg Held.generation same,
    congrArg Held.region same⟩

theorem SameHold.trans {s'' : SlotControl} (first : SameHold s s') (second : SameHold s' s'') :
    SameHold s s'' :=
  ⟨second.owner.trans first.owner, second.epoch.trans first.epoch,
    second.generation.trans first.generation, second.region.trans first.region⟩

theorem LeftBy.of_held {s'' : SlotControl} (left : LeftBy pool s s') (same : s''.held = s'.held) :
    LeftBy pool s s'' := by
  have state : s''.state = s'.state := congrArg Held.state same
  have token : s''.claimToken = s'.claimToken := congrArg Held.claimToken same
  have generation : s''.generation = s'.generation := congrArg Held.generation same
  have region : s''.region = s'.region := congrArg Held.region same
  have owner : s''.ownerId = s'.ownerId := congrArg Held.ownerId same
  have epoch : s''.ownerEpoch = s'.ownerEpoch := congrArg Held.ownerEpoch same
  have previous : s''.claimPreviousOwner = s'.claimPreviousOwner := congrArg Held.previousOwner same
  have previousEpoch : s''.claimPreviousOwnerEpoch = s'.claimPreviousOwnerEpoch :=
    congrArg Held.previousEpoch same
  have previousRegion : s''.claimPreviousRegion = s'.claimPreviousRegion :=
    congrArg Held.previousRegion same
  obtain ⟨⟨small, window, known, sender, releaser⟩, before⟩ := left
  simp only [SlotControl.Sending, SlotControl.Releasing] at known sender releaser before
  refine ⟨⟨?_, ?_, ?_, ?_, ?_⟩, ?_⟩
  all_goals
    simp only [SlotControl.Sending, SlotControl.Releasing, state, token, generation, region, owner,
      epoch, previous, previousEpoch, previousRegion]
    assumption

/-- An action that leaves the fields `h` alone. -/
theorem alone_keep {α β : Type} {K : SlotControl → Prop} {Q : α → SlotControl → Prop}
    {action : Act β} {next : β → Prog α} {h : Held} (scratch : action.scratch i) (here : s.held = h)
    (kept : ∀ s', s'.held = h → K s')
    (rest : ∀ b s', s'.held = h → Alone m₀ i K (next b) Q s') :
    Alone m₀ i K (.act action next) Q s := by
  intro m single
  refine ⟨⟨s, single, kept s here⟩, fun e => ?_⟩
  have spared := scratch.spares.spared e m
  have held := scratch.held e m
  rw [single.at_slot] at held
  refine rest _ ((action.exec e m).2.slots i) (held.trans here) _ ⟨?_, ?_, ?_, ?_, ?_⟩
  · funext j
    by_cases at' : j = i
    · rw [at', Function.update_self]
      rfl
    · rw [Function.update_of_ne at']
      exact (spared.slots j at').trans (single.other at')
  · exact fun j other => (spared.access j other).trans (single.access j other)
  · exact spared.payload.trans single.payload
  · exact fun k => (spared.lifecycle k).trans (single.lifecycle k)
  · exact spared.clock.trans single.clock

theorem alone_scratch {α β : Type} {K : SlotControl → Prop} {Q : α → SlotControl → Prop}
    {p : Prog β} {f : β → Prog α} {h : Held} (scratch : Scratch i p) (here : s.held = h)
    (kept : ∀ s', s'.held = h → K s')
    (rest : ∀ b s', s'.held = h → Alone m₀ i K (f b) Q s') : Alone m₀ i K (p >>= f) Q s := by
  induction p generalizing s with
  | done b => exact rest b s here
  | act action next ih =>
      exact alone_keep scratch.1 here kept fun b s' same => ih b (scratch.2 b) same

theorem Scratch.bind {α β : Type} {p : Prog β} {f : β → Prog α} (first : Scratch i p)
    (rest : ∀ b, Scratch i (f b)) : Scratch i (p >>= f) := by
  induction p with
  | done b => exact rest b
  | act action next ih => exact ⟨first.1, fun b => ih b (first.2 b)⟩

theorem traceSlot_scratch (component : Nat) (event : TraceEvent) :
    Scratch i (traceSlot pool i component event) :=
  ⟨trivial, fun _ => ⟨trivial, fun _ => ⟨trivial, fun _ => ⟨⟨rfl, trivial⟩, fun _ =>
    ⟨⟨rfl, trivial⟩, fun _ => ⟨trivial, fun _ => trivial⟩⟩⟩⟩⟩⟩

theorem recordSlotError_scratch (component : Nat) : Scratch i (recordSlotError pool i component) :=
  ⟨trivial, fun _ => traceSlot_scratch component .error⟩

theorem recordProtocolError_scratch (component : Nat) :
    Scratch i (recordProtocolError pool component) :=
  ⟨trivial, fun _ => ⟨trivial, fun _ => ⟨trivial, fun _ => trivial⟩⟩⟩

theorem limitsExceeded_scratch : Scratch i (limitsExceeded i) := by
  simp only [limitsExceeded, lift_bind]
  refine ⟨trivial, fun time => ⟨trivial, fun deadline => ?_⟩⟩
  dsimp only
  split
  · trivial
  refine ⟨trivial, fun limit => ?_⟩
  dsimp only
  split
  · trivial
  · exact ⟨trivial, fun _ => trivial⟩

/-- The slot is claimed for a send or its rollback by its owner. -/
structure ClaimedFor (pool : Pool) (kind : ClaimKind) (s s' : SlotControl) : Prop where
  nameable : s.Nameable pool
  sends : kind = .send ∨ kind = .rollback
  state : s'.state = .claiming
  token : s'.claimToken = claimTokenMake kind s.ownerId s.ownerEpoch
  same : SameHold s s'

section ClaimedFor

variable {kind : ClaimKind} {α : Type} {Q : α → SlotControl → Prop}

theorem ClaimedFor.left (claimed : ClaimedFor pool kind s s') : LeftBy pool s s' :=
  left_sending claimed.nameable claimed.state claimed.sends claimed.token claimed.same

theorem ClaimedFor.of_held {s'' : SlotControl} (claimed : ClaimedFor pool kind s s')
    (same : s''.held = s'.held) : ClaimedFor pool kind s s'' where
  nameable := claimed.nameable
  sends := claimed.sends
  state := (congrArg Held.state same).trans claimed.state
  token := (congrArg Held.claimToken same).trans claimed.token
  same := claimed.same.trans (.of_held same)

/-- An action that leaves the claim as it is. -/
theorem ClaimedFor.keep {β : Type} {action : Act β} {next : β → Prog α}
    (claimed : ClaimedFor pool kind s s') (scratch : action.scratch i)
    (rest : ∀ b s'', ClaimedFor pool kind s s'' → Alone m₀ i (LeftBy pool s) (next b) Q s'') :
    Alone m₀ i (LeftBy pool s) (.act action next) Q s' :=
  alone_keep scratch rfl (fun _ same => (claimed.of_held same).left)
    fun b s'' same => rest b s'' (claimed.of_held same)

theorem ClaimedFor.scratch {β : Type} {p : Prog β} {f : β → Prog α}
    (claimed : ClaimedFor pool kind s s') (scratch : Scratch i p)
    (rest : ∀ b s'', ClaimedFor pool kind s s'' → Alone m₀ i (LeftBy pool s) (f b) Q s'') :
    Alone m₀ i (LeftBy pool s) (p >>= f) Q s' :=
  alone_scratch scratch rfl (fun _ same => (claimed.of_held same).left)
    fun b s'' same => rest b s'' (claimed.of_held same)

/-- The claim ends and the slot is published. -/
theorem ClaimedFor.publish {state : SlotState} {next : Unit → Prog α}
    (claimed : ClaimedFor pool kind s s') (ends : state = .owned ∨ state = .transfer)
    (rest : ∀ s'', s''.state = state → SameHold s s'' → LeftBy pool s s'' →
      Alone m₀ i (LeftBy pool s) (next ()) Q s'') :
    Alone m₀ i (LeftBy pool s)
      (Zipc.publish i state (claimTokenMake kind s.ownerId s.ownerEpoch) >>= next) Q s' := by
  have small : s'.generation < u32 := claimed.same.generation.trans_lt claimed.nameable.small
  have left {s'' : SlotControl} (state' : s''.state = state) (same : SameHold s s'') :
      LeftBy pool s s'' := by
    rcases ends with rfl | rfl
    · exact left_owned claimed.nameable state' same
    · refine left_idle (by rw [state']; nofun) (by rw [state']; nofun) ?_
      exact same.generation.trans_lt claimed.nameable.small
  have same : SameHold s { s' with state } :=
    ⟨claimed.same.owner, claimed.same.epoch, claimed.same.generation, claimed.same.region⟩
  have after : SameHold s { s' with state, claimToken := 0 } :=
    ⟨claimed.same.owner, claimed.same.epoch, claimed.same.generation, claimed.same.region⟩
  exact alone_publish claimed.token claimed.left (left rfl same) (rest _ rfl after (left rfl after))

theorem prepareTransfer_cut {handle owner next linkId : Nat} (claimed : ClaimedFor pool .send s s') :
    Alone m₀ i (LeftBy pool s)
      (prepareTransfer pool handle i owner next linkId (claimTokenMake .send s.ownerId s.ownerEpoch))
      (fun _ s'' => s''.state = .transfer ∧ SameHold s s'') s' := by
  simp only [prepareTransfer, lift_bind]
  refine claimed.keep ⟨rfl, trivial⟩ fun _ _ claimed => claimed.keep ⟨rfl, trivial⟩ fun _ _ claimed => ?_
  refine claimed.keep ⟨rfl, trivial⟩ fun _ _ claimed => claimed.keep trivial fun _ _ claimed => ?_
  refine claimed.keep ⟨rfl, trivial⟩ fun _ _ claimed => claimed.keep trivial fun _ _ claimed => ?_
  refine claimed.keep ⟨rfl, trivial⟩ fun _ _ claimed => claimed.keep trivial fun _ _ claimed => ?_
  refine claimed.keep ⟨rfl, trivial⟩ fun _ _ claimed => claimed.keep trivial fun _ _ claimed => ?_
  refine claimed.keep ⟨rfl, trivial⟩ fun _ _ claimed => claimed.keep trivial fun _ _ claimed => ?_
  refine claimed.keep ⟨rfl, trivial⟩ fun _ _ claimed => ?_
  refine claimed.scratch (traceSlot_scratch _ _) fun _ _ claimed => ?_
  exact claimed.publish (.inr rfl) fun _ state same left => alone_done left ⟨state, same⟩

theorem prepareClaimed_cut {handle owner next linkId epoch : Nat} (claimed : ClaimedFor pool .send s s') :
    Alone m₀ i (LeftBy pool s)
      (prepareClaimed pool handle i owner next linkId epoch
        (claimTokenMake .send s.ownerId s.ownerEpoch))
      (fun result s'' => ∀ message, result = .ok message → s''.state = .transfer ∧ SameHold s s'')
      s' := by
  have refuses {status : Status} {s'' : SlotControl} (left : LeftBy pool s s'') :
      Alone m₀ i (LeftBy pool s) (pure (.error status) : Prog (Except Status Message))
        (fun result s'' => ∀ message, result = .ok message → s''.state = .transfer ∧ SameHold s s'')
        s'' := alone_done left nofun
  have reports {status : Status} {s'' : SlotControl} (left : LeftBy pool s s'') :
      Alone m₀ i (LeftBy pool s) (do
          recordProtocolError pool owner
          pure (.error status) : Prog (Except Status Message))
        (fun result s'' => ∀ message, result = .ok message → s''.state = .transfer ∧ SameHold s s'')
        s'' :=
    alone_scratch (recordProtocolError_scratch owner) rfl (fun _ same => left.of_held same)
      fun _ _ same => refuses (left.of_held same)
  simp only [prepareClaimed, lift_bind]
  refine claimed.keep trivial fun generation _ claimed => ?_
  split
  · exact claimed.publish (.inl rfl) fun _ _ _ left => reports left
  refine alone_ownedBy claimed.left (fun _ _ => ?_) fun _ => ?_
  · simp only [Bool.true_eq_false, if_false]
    refine claimed.scratch limitsExceeded_scratch fun exceeded _ claimed => ?_
    cases exceeded with
    | some status =>
        refine claimed.scratch (recordSlotError_scratch owner) fun _ _ claimed => ?_
        exact claimed.publish (.inl rfl) fun _ _ _ left => refuses left
    | none =>
        apply alone_protectSlot claimed.left
        · intro _ status failed
          rw [if_pos failed]
          refine claimed.scratch (recordSlotError_scratch owner) fun _ _ claimed => ?_
          exact claimed.publish (.inl rfl) fun _ _ _ left => refuses left
        · rw [if_neg (not_not_intro rfl)]
          refine (prepareTransfer_cut claimed).mono ?_ fun _ left => left
          exact fun _ _ sent _ _ => sent
  · simp only [if_true]
    exact claimed.publish (.inl rfl) fun _ _ _ left => reports left

end ClaimedFor

/-- A send that dies before it reaches the transport. -/
theorem prepare_cut {handle owner next linkId : Nat} (place : handleSlotId handle = i)
    (mend : LeftBy pool s s) :
    Alone m₀ i (LeftBy pool s) (bufferPrepareTransferInternal pool handle owner next linkId)
      (fun result s' => ∀ message, result = .ok message →
        s.Nameable pool ∧ s'.state = .transfer ∧ SameHold s s') s := by
  have refuses {status : Status} {s' : SlotControl} (left : LeftBy pool s s') :
      Alone m₀ i (LeftBy pool s) (pure (.error status) : Prog (Except Status Message))
        (fun result s' => ∀ message, result = .ok message →
          s.Nameable pool ∧ s'.state = .transfer ∧ SameHold s s') s' := alone_done left nofun
  have reports {status : Status} {s' : SlotControl} (left : LeftBy pool s s') :
      Alone m₀ i (LeftBy pool s) (do
          recordProtocolError pool owner
          pure (.error status) : Prog (Except Status Message))
        (fun result s' => ∀ message, result = .ok message →
          s.Nameable pool ∧ s'.state = .transfer ∧ SameHold s s') s' :=
    alone_scratch (recordProtocolError_scratch owner) rfl (fun _ same => left.of_held same)
      fun _ _ same => refuses (left.of_held same)
  simp only [bufferPrepareTransferInternal, place, lift_bind]
  split
  · exact refuses mend
  rename_i legal
  simp only [not_or, Bool.not_eq_false] at legal
  split
  · exact reports mend
  refine alone_registeredEpoch legal.1 mend (alone_loadState mend ?_)
  by_cases owned : s.state = .owned
  swap
  · rw [if_pos owned]
    exact reports mend
  rw [if_neg (not_not_intro owned)]
  refine alone_loadGeneration mend ?_
  split
  · exact reports mend
  refine alone_ownedBy mend (fun mine epoch => ?_) fun _ => ?_
  swap
  · simp only [if_true]
    exact reports mend
  have bounds := componentIdValid_iff.mp legal.1
  have nameable : s.Nameable pool :=
    ⟨by omega, epoch ▸ epochOf_lt _, mend.1.small, mend.1.window owned⟩
  simp only [Bool.true_eq_false, if_false]
  refine alone_read mend (alone_write mend ?_)
  have saved {s' : SlotControl} (state : s'.state = s.state) (same : SameHold s s') :
      LeftBy pool s s' := left_owned nameable (state.trans owned) same
  refine alone_casToken (saved rfl ⟨rfl, rfl, rfl, rfl⟩) (fun _ => ?_) fun taken => ?_
  swap
  · rw [if_pos taken]
    exact refuses (saved rfl ⟨rfl, rfl, rfl, rfl⟩)
  rw [if_neg (not_not_intro rfl)]
  refine alone_casState (saved rfl ⟨rfl, rfl, rfl, rfl⟩) (fun _ => ?_) fun lost => absurd owned lost
  simp only [Bool.true_eq_false, if_false]
  rw [← epoch, ← mine]
  refine Alone.mono (prepareClaimed_cut ?_) ?_ fun _ left => left
  · exact ⟨nameable, .inl rfl, rfl, rfl, rfl, rfl, rfl, rfl⟩
  · exact fun result s' sent message same => ⟨nameable, sent message same⟩

theorem rollbackMatches_scratch (link : Link) (message : Message) :
    Scratch i (rollbackMatches link message i) := by
  simp only [rollbackMatches, lift_bind]
  refine ⟨trivial, fun generation => ?_⟩
  dsimp only
  split
  · trivial
  refine ⟨trivial, fun owner => ?_⟩
  dsimp only
  split
  · trivial
  refine ⟨trivial, fun next => ?_⟩
  dsimp only
  split
  · trivial
  · exact ⟨trivial, fun _ => trivial⟩

/-- A rollback that dies, of a transfer that keeps the owner of `s`. -/
theorem rollback_cut {link : Link} {message : Message} (nameable : s.Nameable pool)
    (state : s'.state = .transfer) (same : SameHold s s') (owner : s.ownerId = link.localComponent)
    (epoch : s.ownerEpoch = link.localEpoch) :
    Alone m₀ i (LeftBy pool s) (rollbackTransfer pool link i message) (fun _ s'' => LeftBy pool s s'') s' := by
  have sent : LeftBy pool s s' := by
    refine left_idle (by rw [state]; nofun) (by rw [state]; nofun) ?_
    exact same.generation.trans_lt nameable.small
  simp only [rollbackTransfer, rollbackClaimed, lift_bind]
  generalize sub32 message.transferSequence 1 = previous
  refine alone_loadState sent ?_
  rw [if_neg (not_not_intro state)]
  refine alone_keep ⟨rfl, trivial⟩ rfl (fun _ held => sent.of_held held) fun _ s₀ held => ?_
  have state₀ : s₀.state = .transfer := (congrArg Held.state held).trans state
  have same₀ : SameHold s s₀ := same.trans (.of_held held)
  have small : s₀.generation < u32 := same₀.generation.trans_lt nameable.small
  have free : s₀.state ≠ .owned := by
    rw [state₀]
    nofun
  have idle : s₀.state ≠ .claiming := by
    rw [state₀]
    nofun
  refine alone_casToken (sent.of_held held) (fun _ => ?_) fun taken => ?_
  swap
  · rw [if_pos taken]
    exact alone_done (sent.of_held held) (sent.of_held held)
  rw [if_neg (not_not_intro rfl)]
  refine alone_casState (left_idle free idle small) (fun _ => ?_) fun lost => absurd state₀ lost
  simp only [Bool.true_eq_false, if_false]
  rw [← owner, ← epoch]
  have claimed : ClaimedFor pool .rollback s
      { s₀ with claimToken := claimTokenMake .rollback s.ownerId s.ownerEpoch, state := .claiming } :=
    ⟨nameable, .inr rfl, rfl, rfl, same₀.owner, same₀.epoch, same₀.generation, same₀.region⟩
  refine claimed.scratch (rollbackMatches_scratch link message) fun matched _ claimed => ?_
  split
  · exact claimed.publish (.inr rfl) fun _ _ _ left => alone_done left left
  refine claimed.keep ⟨rfl, trivial⟩ fun _ _ claimed => claimed.keep ⟨rfl, trivial⟩ fun _ s₁ claimed => ?_
  -- the owner that the rollback writes is the one that the slot has
  refine alone_write claimed.left ?_
  have again : ClaimedFor pool .rollback s (SlotWrite.apply s₁ (.ownerId s.ownerId)) :=
    ⟨nameable, .inr rfl, claimed.state, claimed.token, rfl, claimed.same.epoch,
      claimed.same.generation, claimed.same.region⟩
  apply alone_protectSlot again.left
  · intro _ status failed
    rw [if_pos failed]
    exact alone_done again.left again.left
  · rw [if_neg (not_not_intro rfl)]
    exact again.publish (.inl rfl) fun _ _ _ left => alone_done left left

theorem Alone.ends {α : Type} {K : SlotControl → Prop} {Q : α → SlotControl → Prop} {p : Prog α}
    (alone : Alone m₀ i K p Q s) : Alone m₀ i K p (fun a s' => K s' ∧ Q a s') s := by
  intro m single
  refine wpc_mono (alone m single).ends ?_ fun _ cut => cut
  rintro a m' ⟨⟨s₁, first, kept⟩, s₂, second, holds⟩
  have same : s₁ = s₂ := first.at_slot.symm.trans second.at_slot
  exact ⟨s₂, second, same ▸ kept, holds⟩

/-- A part of a program that changes no slot. -/
theorem alone_quiet {α β : Type} {K : SlotControl → Prop} {Q : α → SlotControl → Prop} {p : Prog β}
    {f : β → Prog α} (quiet : ∀ j, Only j p) (kept : K s)
    (rest : ∀ b, Alone m₀ i K (f b) Q s) : Alone m₀ i K (p >>= f) Q s := by
  induction p with
  | done b => exact rest b
  | act action next ih =>
      refine alone_any kept (fun e m single => ?_) fun b => ih b fun j => (quiet j).2 b
      have here := (quiet i).1.spared e m
      have slots : (action.exec e m).2.slots = m.slots := by
        funext j
        exact ((quiet (j + 1)).1.spared e m).slots j (Nat.ne_of_lt (Nat.lt_succ_self j))
      exact ⟨slots.trans single.slots,
        fun j other => (here.access j other).trans (single.access j other),
        here.payload.trans single.payload, fun k => (here.lifecycle k).trans (single.lifecycle k),
        here.clock.trans single.clock⟩

section Buffers

variable {K : SlotControl → Prop} {v : View} {link : Link}

theorem alone_bufferOwned {α : Type} {next : Bool → Prog α} {Q : α → SlotControl → Prop}
    (slot : v.slotId = i) (kept : K s)
    (yes : s.ownerId = v.owner → s.ownerEpoch = v.ownerEpoch → Alone m₀ i K (next true) Q s)
    (no : Alone m₀ i K (next false) Q s) :
    Alone m₀ i K (bufferOwned (some v) >>= next) Q s := by
  apply alone_bind
  simp only [bufferOwned, slot, lift_bind]
  refine alone_loadGeneration kept ?_
  split
  · exact alone_done kept no
  refine alone_loadState kept ?_
  split
  · exact alone_done kept no
  refine alone_ownedBy kept (fun owner epoch => ?_) fun _ => ?_
  · simp only [Bool.true_eq_false, if_false]
    refine alone_quiet (fun _ => registeredEpoch_only _) kept fun b => alone_done kept ?_
    by_cases current : b = v.ownerEpoch
    · simpa only [current, decide_true] using yes owner epoch
    · simpa only [current, decide_false] using no
  · simp only [if_true]
    exact alone_done kept no

/-- A send that dies, anywhere between its first test and the end of its rollback. -/
theorem send_cut (place : handleSlotId v.handle = i) (slot : v.slotId = i) (mend : LeftBy pool s s) :
    Alone m₀ i (LeftBy pool s) (send pool link (some v)) (fun _ _ => True) s := by
  have stops {answer : Status × Option View} {s' : SlotControl} (left : LeftBy pool s s') :
      Alone m₀ i (LeftBy pool s) (pure answer) (fun _ _ => True) s' := alone_done left trivial
  have traces {handle sequence component : Nat} {event : TraceEvent} {s' : SlotControl}
      {answer : Status × Option View} (left : LeftBy pool s s') :
      Alone m₀ i (LeftBy pool s) (do
        traceExternalEvent pool handle sequence component event
        pure answer) (fun _ _ => True) s' :=
    alone_now left (alone_hook left (stops left))
  unfold send
  refine alone_bufferOwned slot mend (fun owner epoch => ?_) (stops mend)
  refine alone_quiet (fun _ => epochCurrent_only _ _) mend fun current => ?_
  split
  · exact stops mend
  rename_i live
  simp only [not_or, not_not] at live
  split
  · exact stops mend
  rename_i mine
  simp only [not_not] at mine
  apply alone_bind
  refine (prepare_cut place mend).ends.mono ?_ fun _ left => left
  rintro prepared s' ⟨left, sent⟩
  cases prepared with
  | error status => exact stops left
  | ok message =>
      obtain ⟨nameable, state, same⟩ := sent message rfl
      simp only [sendPrepared, slot]
      refine alone_quiet (fun _ => transportSend_only _ _) left fun status => ?_
      split
      · exact traces left
      split
      · apply alone_bind
        refine (rollback_cut nameable state same (owner.trans mine) (epoch.trans live.2)).mono ?_
          fun _ left => left
        intro undone s'' after
        split
        · exact traces after
        · exact stops after
      · exact stops left

/-- What a release holds once it has saved the owner and the window. -/
structure Saved (pool : Pool) (s s' : SlotControl) : Prop where
  nameable : s.Nameable pool
  generation : s'.generation = s.generation
  owner : s'.claimPreviousOwner = s.ownerId
  epoch : s'.claimPreviousOwnerEpoch = s.ownerEpoch
  region : s'.claimPreviousRegion = s.region

theorem Saved.left (saved : Saved pool s s') (state : s'.state = .claiming)
    (token : s'.claimToken = claimTokenMake .release s.ownerId s.ownerEpoch) : LeftBy pool s s' :=
  left_releasing saved.nameable state token saved.generation saved.owner saved.epoch saved.region

theorem Saved.of_held {s'' : SlotControl} (saved : Saved pool s s') (same : s''.held = s'.held) :
    Saved pool s s'' :=
  ⟨saved.nameable, (congrArg Held.generation same).trans saved.generation,
    (congrArg Held.previousOwner same).trans saved.owner,
    (congrArg Held.previousEpoch same).trans saved.epoch,
    (congrArg Held.previousRegion same).trans saved.region⟩

theorem releaseClaimed_cut {owner epoch : Nat} (saved : Saved pool s s') (same : SameHold s s')
    (state : s'.state = .claiming)
    (token : s'.claimToken = claimTokenMake .release s.ownerId s.ownerEpoch) :
    Alone m₀ i (LeftBy pool s)
      (releaseClaimed pool i owner epoch (claimTokenMake .release s.ownerId s.ownerEpoch))
      (fun _ _ => True) s' := by
  have left := saved.left state token
  have small := saved.generation.trans_lt saved.nameable.small
  have back {status : Status} : Alone m₀ i (LeftBy pool s) (do
      publish i .owned (claimTokenMake .release s.ownerId s.ownerEpoch)
      pure status) (fun _ _ => True) s' := by
    have owned {t : Nat} : LeftBy pool s { s' with state := .owned, claimToken := t } :=
      left_owned saved.nameable rfl ⟨same.owner, same.epoch, same.generation, same.region⟩
    exact alone_publish token left owned (alone_done owned trivial)
  unfold releaseClaimed
  refine alone_ownedBy left (fun _ _ => ?_) fun _ => ?_
  swap
  · simp only [if_true]
    exact back
  simp only [Bool.true_eq_false, if_false]
  apply alone_protectSlot left
  · intro _ status failed
    rw [if_pos failed]
    exact back
  rw [if_neg (not_not_intro rfl)]
  refine alone_scratch (traceSlot_scratch _ _) rfl (fun _ held => left.of_held held)
    fun _ s₁ held => ?_
  have saved₁ := saved.of_held held
  have state₁ : s₁.state = .claiming := (congrArg Held.state held).trans state
  have token₁ : s₁.claimToken = claimTokenMake .release s.ownerId s.ownerEpoch :=
    (congrArg Held.claimToken held).trans token
  -- the owner and the window are cleared, and what was saved stays
  have kept {s₂ : SlotControl} (state₂ : s₂.state = s₁.state) (token₂ : s₂.claimToken = s₁.claimToken)
      (generation : s₂.generation = s₁.generation) (owner : s₂.claimPreviousOwner = s₁.claimPreviousOwner)
      (epoch : s₂.claimPreviousOwnerEpoch = s₁.claimPreviousOwnerEpoch)
      (region : s₂.claimPreviousRegion = s₁.claimPreviousRegion) : LeftBy pool s s₂ :=
    left_releasing saved.nameable (state₂.trans state₁) (token₂.trans token₁)
      (generation.trans saved₁.generation) (owner.trans saved₁.owner) (epoch.trans saved₁.epoch)
      (region.trans saved₁.region)
  have small₁ : s₁.generation < u32 := saved₁.generation.trans_lt saved.nameable.small
  simp only [writeAll, lift_bind, act_bind, pure_eq, done_bind]
  refine alone_write (kept rfl rfl rfl rfl rfl rfl) ?_
  refine alone_write (kept rfl rfl rfl rfl rfl rfl) ?_
  refine alone_write (kept rfl rfl rfl rfl rfl rfl) ?_
  refine alone_write (kept rfl rfl rfl rfl rfl rfl) ?_
  simp only [SlotWrite.apply]
  refine alone_publish token₁ (kept rfl rfl rfl rfl rfl rfl) (left_idle (by simp) (by simp) small₁) ?_
  exact alone_count (left_idle (by simp) (by simp) small₁) (alone_done (left_idle (by simp) (by simp) small₁) trivial)

/-- A release that dies. -/
theorem poolBufferRelease_cut {handle owner : Nat} (place : handleSlotId handle = i)
    (mend : LeftBy pool s s) :
    Alone m₀ i (LeftBy pool s) (poolBufferRelease pool handle owner) (fun _ _ => True) s := by
  have stops {status : Status} {s' : SlotControl} (left : LeftBy pool s s') :
      Alone m₀ i (LeftBy pool s) (pure status) (fun _ _ => True) s' := alone_done left trivial
  simp only [poolBufferRelease, place, lift_bind]
  split
  · exact stops mend
  rename_i legal
  simp only [Bool.not_eq_false] at legal
  split
  · exact stops mend
  refine alone_loadGeneration mend ?_
  split
  · exact stops mend
  refine alone_registeredEpoch legal mend (alone_loadState mend ?_)
  by_cases owned : s.state = .owned
  swap
  · rw [if_pos owned]
    exact stops mend
  rw [if_neg (not_not_intro owned)]
  refine alone_ownedBy mend (fun mine epoch => ?_) fun _ => ?_
  swap
  · simp only [if_true]
    exact stops mend
  have bounds := componentIdValid_iff.mp legal
  have nameable : s.Nameable pool :=
    ⟨by omega, epoch ▸ epochOf_lt _, mend.1.small, mend.1.window owned⟩
  simp only [Bool.true_eq_false, if_false]
  have still {s' : SlotControl} (state : s'.state = s.state) (same : SameHold s s') :
      LeftBy pool s s' := left_owned nameable (state.trans owned) same
  refine alone_read mend (alone_write mend ?_)
  simp only [SlotWrite.apply]
  refine alone_read (still rfl ⟨rfl, rfl, rfl, rfl⟩) (alone_write (still rfl ⟨rfl, rfl, rfl, rfl⟩) ?_)
  simp only [SlotWrite.apply]
  refine alone_read (still rfl ⟨rfl, rfl, rfl, rfl⟩) (alone_write (still rfl ⟨rfl, rfl, rfl, rfl⟩) ?_)
  simp only [SlotWrite.apply]
  refine alone_read (still rfl ⟨rfl, rfl, rfl, rfl⟩) (alone_write (still rfl ⟨rfl, rfl, rfl, rfl⟩) ?_)
  simp only [SlotWrite.apply]
  refine alone_casToken (still rfl ⟨rfl, rfl, rfl, rfl⟩) (fun _ => ?_) fun taken => ?_
  swap
  · rw [if_pos taken]
    exact stops (still rfl ⟨rfl, rfl, rfl, rfl⟩)
  rw [if_neg (not_not_intro rfl)]
  refine alone_casState (still rfl ⟨rfl, rfl, rfl, rfl⟩) (fun _ => ?_) fun lost => absurd owned lost
  simp only [Bool.true_eq_false, if_false]
  rw [← epoch, ← mine]
  apply releaseClaimed_cut
  · exact ⟨nameable, rfl, rfl, rfl, rfl⟩
  · exact ⟨rfl, rfl, rfl, rfl⟩
  · rfl
  · rfl

theorem bufferRelease_cut (place : handleSlotId v.handle = i) (slot : v.slotId = i)
    (mend : LeftBy pool s s) :
    Alone m₀ i (LeftBy pool s) (bufferRelease pool (some v)) (fun _ _ => True) s := by
  have stops {answer : Status × Option View} {s' : SlotControl} (left : LeftBy pool s s') :
      Alone m₀ i (LeftBy pool s) (pure answer) (fun _ _ => True) s' := alone_done left trivial
  unfold bufferRelease
  refine alone_bufferOwned slot mend (fun _ _ => alone_bind ?_) (stops mend)
  refine (poolBufferRelease_cut place mend).ends.mono ?_ fun _ left => left
  exact fun _ _ both => stops both.1

theorem bufferPut_cut (place : handleSlotId v.handle = i) (slot : v.slotId = i)
    (mend : LeftBy pool s s) :
    Alone m₀ i (LeftBy pool s) (bufferPut pool link (some v)) (fun _ _ => True) s := by
  have stops {answer : Status × Option View} {s' : SlotControl} (left : LeftBy pool s s') :
      Alone m₀ i (LeftBy pool s) (pure answer) (fun _ _ => True) s' := alone_done left trivial
  unfold bufferPut
  refine alone_bufferOwned slot mend (fun _ _ => ?_) (stops mend)
  dsimp only
  split
  · exact stops mend
  · exact bufferRelease_cut place slot mend

end Buffers

/-- The slot is claimed for an allocation. -/
structure Allocating (token : Nat) (s : SlotControl) : Prop where
  state : s.state = .claiming
  token : s.claimToken = token
  small : s.generation < u32

section Allocating

variable {a : AllocateArgs} {epoch token : Nat} {α β : Type} {Q : α → SlotControl → Prop}

theorem Allocating.left (held : Allocating token s')
    (named : token = claimTokenMake .allocate a.allocator epoch) : LeftBy pool s s' :=
  left_allocating held.state (held.token.trans named) held.small

theorem Allocating.of_held {s'' : SlotControl} (held : Allocating token s') (same : s''.held = s'.held) :
    Allocating token s'' :=
  ⟨(congrArg Held.state same).trans held.state, (congrArg Held.claimToken same).trans held.token,
    (congrArg Held.generation same).trans_lt held.small⟩

theorem Allocating.written (held : Allocating token s') {w : SlotWrite}
    (fits : ∀ v, w = .generation v → v < u32) : Allocating token (w.apply s') := by
  refine ⟨?_, ?_, ?_⟩
  · rw [← held.state]
    cases w <;> rfl
  · rw [← held.token]
    cases w <;> rfl
  · cases w with
    | generation v => exact fits v rfl
    | _ => exact held.small

theorem alone_viewed {K : SlotControl → Prop} {handle : Nat} {next : Except Status View → Prog α}
    (kept : K s) (made : s.region.Within pool.slotCapacity → ∀ v, Alone m₀ i K (next (.ok v)) Q s)
    (failed : ∀ status, Alone m₀ i K (next (.error status)) Q s) :
    Alone m₀ i K (makeView pool i handle >>= next) Q s := by
  by_cases within : s.region.Within pool.slotCapacity
  · exact alone_makeView within kept fun v _ => made within v
  · have outside : s.region.offset > pool.slotCapacity ∨
        s.region.length > pool.slotCapacity - s.region.offset := by
      unfold Region.Within at within
      omega
    simp only [makeView, lift_bind, act_bind]
    refine alone_read kept (alone_read kept ?_)
    rw [if_pos outside]
    exact failed _

/-- A slot that an allocation has just published. -/
theorem left_window (state : s'.state = .owned) (small : s'.generation < u32)
    (window : s'.region.Within pool.slotCapacity) : LeftBy pool s s' := by
  have away : s'.state ≠ .claiming := by
    rw [state]
    nofun
  exact ⟨⟨small, fun _ => window, fun claiming => absurd claiming away,
    fun claiming => absurd claiming away, fun claiming => absurd claiming away⟩,
    fun claiming => absurd claiming away⟩

section Steps

variable (named : token = claimTokenMake .allocate a.allocator epoch)
include named

theorem Allocating.write (held : Allocating token s') {w : SlotWrite} {next : Unit → Prog α}
    (fits : ∀ v, w = .generation v → v < u32)
    (rest : ∀ s'', Allocating token s'' → Alone m₀ i (LeftBy pool s) (next ()) Q s'') :
    Alone m₀ i (LeftBy pool s) (.act (.write i w) next) Q s' :=
  alone_write (held.left named) (rest _ (held.written fits))

theorem Allocating.writeAll {next : Unit → Prog α} (ws : List SlotWrite)
    (fits : ∀ w, w ∈ ws → ∀ v, w = .generation v → v < u32) :
    ∀ {s'}, Allocating token s' →
      (∀ s'', Allocating token s'' → Alone m₀ i (LeftBy pool s) (next ()) Q s'') →
      Alone m₀ i (LeftBy pool s) (Zipc.writeAll i ws >>= next) Q s' := by
  induction ws with
  | nil => exact fun held rest => rest _ held
  | cons w ws ih =>
      intro s' held rest
      refine held.write named (fits w (List.mem_cons_self ..)) fun s'' held => ?_
      exact ih (fun w member => fits w (List.mem_cons_of_mem _ member)) held rest

theorem Allocating.scratch (held : Allocating token s') {p : Prog β} {f : β → Prog α}
    (scratch : Scratch i p)
    (rest : ∀ b s'', Allocating token s'' → Alone m₀ i (LeftBy pool s) (f b) Q s'') :
    Alone m₀ i (LeftBy pool s) (p >>= f) Q s' :=
  alone_scratch scratch rfl (fun _ same => (held.of_held same).left named)
    fun b s'' same => rest b s'' (held.of_held same)

theorem freeClaimingSlot_left (held : Allocating token s') {next : Unit → Prog α}
    (rest : ∀ s'', LeftBy pool s s'' → Alone m₀ i (LeftBy pool s) (next ()) Q s'') :
    Alone m₀ i (LeftBy pool s) (freeClaimingSlot i >>= next) Q s' := by
  apply alone_bind
  unfold freeClaimingSlot
  refine alone_loadToken (held.left named) ?_
  rw [held.token]
  refine Allocating.writeAll named _ (by simp) held fun s'' held => ?_
  have free {t : Nat} : LeftBy pool s { s'' with state := .free, claimToken := t } :=
    left_idle nofun nofun held.small
  have publishes : Alone m₀ i (LeftBy pool s) (publish i .free token >>= fun _ => pure ())
      (fun _ s'' => Alone m₀ i (LeftBy pool s) (next ()) Q s'') s'' :=
    alone_publish held.token (held.left named) free (alone_done free (rest _ free))
  exact publishes

theorem allocateAbort_cut {revoke : Bool} {status : Status} (held : Allocating token s') :
    Alone m₀ i (LeftBy pool s) (allocateAbort pool a.allocator i revoke status)
      (fun _ _ => True) s' := by
  have ends {s'' : SlotControl} (left : LeftBy pool s s'') : Alone m₀ i (LeftBy pool s) (do
      count .allocationFailure
      pure (status, none) : Prog (Status × Option View)) (fun _ _ => True) s'' :=
    alone_count left (alone_done left trivial)
  unfold allocateAbort
  refine held.scratch named (traceSlot_scratch _ _) fun _ s₁ held => ?_
  split
  · apply alone_protectSlot (held.left named)
    · exact fun _ _ _ => freeClaimingSlot_left named held fun _ left => ends left
    · exact freeClaimingSlot_left named held fun _ left => ends left
  · exact freeClaimingSlot_left named held fun _ left => ends left

theorem allocateClaimed_cut (held : Allocating token s') :
    Alone m₀ i (LeftBy pool s) (allocateClaimed pool a epoch token i) (fun _ _ => True) s' := by
  have plain (w : SlotWrite) (other : ∀ v, w ≠ .generation v) : ∀ v, w = .generation v → v < u32 :=
    fun v same => absurd same (other v)
  simp only [allocateClaimed, lift_bind]
  refine alone_loadGeneration (held.left named) ?_
  refine held.write named (fun v same => by cases same; exact nextGeneration_lt _) fun s₁ held => ?_
  refine Allocating.writeAll named _ (by simp [allocateFields]) held fun s₂ held => ?_
  refine alone_now (held.left named) ?_
  refine held.write named (plain _ (by simp)) fun s₃ held => ?_
  refine held.write named (plain _ (by simp)) fun s₄ held => ?_
  refine Allocating.writeAll named _ (by simp [allocateResets]) held fun s₅ held => ?_
  refine alone_keep trivial rfl (fun _ same => (held.of_held same).left named) fun fresh s₆ same => ?_
  have held := held.of_held same
  cases fresh with
  | error status => exact allocateAbort_cut named held
  | ok id =>
      refine held.write named (plain _ (by simp)) fun s₇ held => ?_
      have enables : Scratch i (enablePayload pool a i) := by
        unfold enablePayload protectSlot
        split
        · split
          · trivial
          · split
            · trivial
            · exact ⟨rfl, fun _ => trivial⟩
        · trivial
      refine held.scratch named enables fun status s₈ held => ?_
      split
      · exact allocateAbort_cut named held
      refine alone_viewed (held.left named) (fun within v => ?_) fun failure => ?_
      · refine alone_scratch (traceSlot_scratch _ _) rfl (fun _ same => (held.of_held same).left named)
          fun _ s₉ same => ?_
        have region : s₉.region = s₈.region := congrArg Held.region same
        have window : s₉.region.Within pool.slotCapacity := region ▸ within
        have held := held.of_held same
        have owned {t : Nat} : LeftBy pool s { s₉ with state := .owned, claimToken := t } :=
          left_window rfl held.small window
        refine alone_publish held.token (held.left named) owned ?_
        refine alone_any owned (fun _ _ single => ?_) fun _ => alone_count owned (alone_done owned trivial)
        exact ⟨single.slots, single.access, single.payload, single.lifecycle, single.clock⟩
      · exact allocateAbort_cut named held

/-- One round of the allocation scan that dies: the slot was left alone, or the allocation holds
it or has ended with it. -/
theorem allocateTry_cut (mend : LeftBy pool s s) :
    Alone m₀ i (LeftBy pool s) (allocateTry pool a epoch token i)
      (fun tried s' => tried = none → s' = s) s := by
  simp only [allocateTry, lift_bind]
  refine alone_loadState mend ?_
  by_cases free : s.state = .free
  swap
  · rw [if_pos free]
    exact alone_done mend fun _ => rfl
  rw [if_neg (not_not_intro free)]
  have small := mend.1.small
  refine alone_casToken mend (fun zero => ?_) fun taken => ?_
  swap
  · rw [if_pos taken]
    exact alone_done mend fun _ => rfl
  rw [if_neg (not_not_intro rfl)]
  have marked : LeftBy pool s { s with claimToken := token } :=
    left_idle (by simp only [free]; simp) (by simp only [free]; simp) small
  refine alone_casState marked (fun _ => ?_) fun lost => absurd free lost
  simp only [Bool.true_eq_false, if_false]
  apply alone_bind
  have held : Allocating token { s with claimToken := token, state := .claiming } :=
    ⟨rfl, rfl, small⟩
  refine (allocateClaimed_cut named held).ends.mono ?_ fun _ left => left
  exact fun _ _ both => alone_done both.1 (by simp)

end Steps

end Allocating

end Left

/-- What a call that died leaves of the pool. -/
def PoolLeft (pool : Pool) (m m' : Mem) : Prop :=
  m'.payload = m.payload ∧ ∀ j, j < pool.slotCount → LeftBy pool (m.slots j) (m'.slots j)

section Scans

variable {pool : Pool} {m m' : Mem} {i : Nat}

theorem Somewhere.poolLeft (mend : ∀ j, j < pool.slotCount → LeftBy pool (m.slots j) (m.slots j))
    (cut : Somewhere m i (LeftBy pool (m.slots i)) m') : PoolLeft pool m m' := by
  obtain ⟨s', single, left⟩ := cut
  refine ⟨single.payload, fun j inside => ?_⟩
  by_cases here : j = i
  · rw [here, single.at_slot]
    exact left
  · rw [single.other here]
    exact mend j inside

theorem Alone.poolLeft {α : Type} {p : Prog α} {Q : α → SlotControl → Prop}
    (mend : ∀ j, j < pool.slotCount → LeftBy pool (m.slots j) (m.slots j))
    (alone : Alone m i (LeftBy pool (m.slots i)) p Q (m.slots i)) :
    p.wpc (fun _ _ => True) (PoolLeft pool m) m :=
  wpc_mono (alone m (.refl m i)) (fun _ _ _ => trivial) fun _ cut => cut.poolLeft mend

theorem allocateScan_cut {a : AllocateArgs} {epoch start : Nat} (left : Nat) :
    left ≤ pool.slotCount → ∀ n (m : Mem),
    (∀ j, j < pool.slotCount → LeftBy pool (m.slots j) (m.slots j)) →
    (allocateScan pool a epoch (claimTokenMake .allocate a.allocator epoch) start left n).wpc
      (fun _ _ => True) (PoolLeft pool m) m := by
  induction left with
  | zero =>
      intro _ n m mend
      exact ⟨⟨rfl, mend⟩, fun e => ⟨⟨rfl, mend⟩, trivial⟩⟩
  | succ left ih =>
      intro few n m mend
      have inside : (start + n) % u32 % pool.slotCount < pool.slotCount :=
        Nat.mod_lt _ (by omega)
      simp only [allocateScan]
      apply wpc_bind
      refine wpc_mono ((allocateTry_cut rfl (mend _ inside)).ends m (.refl m _)) ?_ fun _ cut =>
        cut.poolLeft mend
      rintro tried b ⟨s', single, kept, same⟩
      cases tried with
      | some result => exact ⟨Somewhere.poolLeft mend ⟨s', single, kept⟩, trivial⟩
      | none =>
          have whole : b.slots = m.slots := by
            rw [same rfl] at single
            exact single.unchanged
          have again : PoolLeft pool b = PoolLeft pool m := by
            funext x
            simp only [PoolLeft, whole, single.payload]
          rw [← again]
          exact ih (by omega) (n + 1) b (by rw [whole]; exact mend)

/-- A part of a call that changes nothing, before the call goes on. -/
theorem wpc_quiet {α β : Type} {p : Prog β} {f : β → Prog α} (quiet : ∀ j, Only j p)
    (mend : ∀ j, j < pool.slotCount → LeftBy pool (m.slots j) (m.slots j))
    (rest : ∀ b a, a.slots = m.slots → a.payload = m.payload →
      (f b).wpc (fun _ _ => True) (PoolLeft pool m) a) :
    ∀ {a : Mem}, a.slots = m.slots → a.payload = m.payload →
      (p >>= f).wpc (fun _ _ => True) (PoolLeft pool m) a := by
  induction p with
  | done b => exact fun slots payload => rest b _ slots payload
  | act action next ih =>
      intro a slots payload
      refine ⟨⟨payload, by rw [slots]; exact mend⟩, fun e => ih _ (fun j => (quiet j).2 _) ?_ ?_⟩
      · refine Eq.trans ?_ slots
        funext j
        exact ((quiet (j + 1)).1.spared e a).slots j (Nat.ne_of_lt (Nat.lt_succ_self j))
      · exact ((quiet 0).1.spared e a).payload.trans payload

theorem PoolLeft.of_same {a : Mem} (slots : a.slots = m.slots) (payload : a.payload = m.payload) :
    PoolLeft pool a = PoolLeft pool m := by
  funext x
  simp only [PoolLeft, slots, payload]

theorem bufferOwned_quiet (v : View) (j : Nat) : Only j (bufferOwned (some v)) := by
  simp only [bufferOwned, ownedBy, lift_bind]
  refine only_act trivial fun generation => ?_
  split
  · trivial
  refine only_act trivial fun state => ?_
  split
  · trivial
  refine Only.bind (only_act trivial fun owner => ?_) fun same => ?_
  · split
    · trivial
    · exact only_act trivial fun _ => trivial
  split
  · trivial
  · exact (registeredEpoch_only v.owner).bind fun _ => trivial

section Calls

variable (mend : ∀ j, j < pool.slotCount → LeftBy pool (m.slots j) (m.slots j))
include mend

theorem wpc_stops {α : Type} {answer : α} {a : Mem} (slots : a.slots = m.slots)
    (payload : a.payload = m.payload) :
    (pure answer : Prog α).wpc (fun _ _ => True) (PoolLeft pool m) a :=
  ⟨⟨payload, by rw [slots]; exact mend⟩, trivial⟩

theorem allocateInternal_cut {a : AllocateArgs} {ownerEpoch : Nat} {b : Mem}
    (slots : b.slots = m.slots) (payload : b.payload = m.payload) :
    (bufferAllocateInternal pool a ownerEpoch).wpc (fun _ _ => True) (PoolLeft pool m) b := by
  have known (j : Nat) : Only j (allocateEpoch a ownerEpoch) := by
    unfold allocateEpoch
    split
    · trivial
    · exact registeredEpoch_only _
  unfold bufferAllocateInternal
  split
  · exact wpc_stops mend slots payload
  refine wpc_quiet known mend (fun epoch c slots payload => ?_) slots payload
  refine ⟨⟨payload, by rw [slots]; exact mend⟩, fun e => ?_⟩
  rw [← PoolLeft.of_same slots payload]
  exact allocateScan_cut pool.slotCount le_rfl 0 c (by rw [slots]; exact mend)

theorem allocEx_cut {link : Link} {size headroom tailroom : Nat} {parent : Option (Option View)} :
    (bufferAllocEx pool link size headroom tailroom parent).wpc (fun _ _ => True)
      (PoolLeft pool m) m := by
  unfold bufferAllocEx
  split
  · exact wpc_stops mend rfl rfl
  refine wpc_quiet (fun _ => epochCurrent_only _ _) mend (fun current b slots payload => ?_) rfl rfl
  split
  · exact wpc_stops mend slots payload
  split
  · exact wpc_stops mend slots payload
  cases parent with
  | none => exact allocateInternal_cut mend slots payload
  | some buffer =>
      cases buffer with
      | none => exact wpc_stops mend slots payload
      | some v =>
          refine wpc_quiet (bufferOwned_quiet v) mend (fun owned c slots payload => ?_) slots payload
          cases owned with
          | false => exact wpc_stops mend slots payload
          | true =>
              refine ⟨⟨payload, by rw [slots]; exact mend⟩, fun e => ?_⟩
              exact allocateInternal_cut mend slots payload

end Calls

theorem wpc_answer {α β : Type} {p : Prog α} {C : Mem → Prop} {g : α → β}
    (cut : p.wpc (fun _ _ => True) C m) : (p >>= fun a => pure (g a)).wpc (fun _ _ => True) C m := by
  apply wpc_bind
  exact wpc_mono cut.ends (fun _ _ both => ⟨both.1, trivial⟩) fun _ kept => kept

/-- Allocations, sends with their rollback, and releases. -/
def ApiCall.Mortal : ApiCall → Prop
  | .allocate _ _ | .allocEx _ _ _ _ _ | .prepareTransfer _ _ _ | .send _ _ | .poolRelease _ _
  | .release _ | .put _ _ => True
  | _ => False

theorem prepareTransfer_poolLeft {handle owner next : Nat}
    (mend : ∀ j, j < pool.slotCount → LeftBy pool (m.slots j) (m.slots j)) :
    (bufferPrepareTransfer pool handle owner next).wpc (fun _ _ => True) (PoolLeft pool m) m := by
  by_cases inside : handleSlotId handle < pool.slotCount
  · exact Alone.poolLeft mend (prepare_cut rfl (mend _ inside))
  · unfold bufferPrepareTransfer bufferPrepareTransferInternal
    split
    · exact wpc_stops mend rfl rfl
    rw [if_pos (Nat.not_lt.mp inside)]
    exact wpc_quiet (fun _ => recordProtocolError_only owner) mend
      (fun _ _ slots payload => wpc_stops mend slots payload) rfl rfl

theorem poolRelease_poolLeft {handle owner : Nat}
    (mend : ∀ j, j < pool.slotCount → LeftBy pool (m.slots j) (m.slots j)) :
    (poolBufferRelease pool handle owner).wpc (fun _ _ => True) (PoolLeft pool m) m := by
  by_cases inside : handleSlotId handle < pool.slotCount
  · exact Alone.poolLeft mend (poolBufferRelease_cut rfl (mend _ inside))
  · unfold poolBufferRelease
    split
    · exact wpc_stops mend rfl rfl
    rw [if_pos (Nat.not_lt.mp inside)]
    exact wpc_stops mend rfl rfl

/-- Wherever such a call dies, every slot can be mended. -/
theorem ApiCall.cut {s : Session} {call : ApiCall} (well : SessionWell pool s)
    (mend : ∀ j, j < pool.slotCount → LeftBy pool (s.mem.slots j) (s.mem.slots j))
    (legal : call.Legal s) (mortal : call.Mortal) :
    (call.program pool).wpc (fun _ _ => True) (PoolLeft pool s.mem) s.mem := by
  cases call with
  | allocate allocator parentId => exact wpc_answer (allocateInternal_cut mend rfl rfl)
  | allocEx link size headroom tailroom parent => exact wpc_answer (allocEx_cut mend)
  | prepareTransfer handle owner next => exact wpc_answer (prepareTransfer_poolLeft mend)
  | poolRelease handle owner => exact wpc_answer (poolRelease_poolLeft mend)
  | send link buffer =>
      cases buffer with
      | none => exact wpc_stops mend rfl rfl
      | some v =>
          have placed := well.views v (legal.2 v rfl)
          exact wpc_answer (Alone.poolLeft mend
            (send_cut placed.slot.symm rfl (mend _ placed.inside)))
  | release buffer =>
      cases buffer with
      | none => exact wpc_stops mend rfl rfl
      | some v =>
          have placed := well.views v (legal v rfl)
          exact wpc_answer (Alone.poolLeft mend
            (bufferRelease_cut placed.slot.symm rfl (mend _ placed.inside)))
  | put link buffer =>
      cases buffer with
      | none => exact wpc_stops mend rfl rfl
      | some v =>
          have placed := well.views v (legal.2 v rfl)
          exact wpc_answer (Alone.poolLeft mend
            (bufferPut_cut placed.slot.symm rfl (mend _ placed.inside)))
  | _ => exact mortal.elim

/-- Between calls every slot is as a call that died could leave it. -/
theorem SlotWell.leftBy {s : SlotControl} {access : Bool} {payload : Nat → Nat}
    (well : SlotWell pool (s.core access payload)) : LeftBy pool s s := by
  have small : s.generation < u32 := well.1
  have window : s.region.Within pool.slotCapacity := well.region
  cases state : s.state with
  | free | transfer | error => exact left_idle (by rw [state]; nofun) (by rw [state]; nofun) small
  | owned => exact left_window state small window
  | claiming =>
      obtain ⟨_, _, kept⟩ := well
      have here : (s.core access payload).state = .claiming := state
      rw [here] at kept
      obtain ⟨left, holds, _⟩ := kept
      have bounds := componentIdValid_iff.mp holds.owner
      have nameable : s.Nameable pool :=
        ⟨Nat.lt_of_le_of_lt bounds.2 (by decide), left.epoch, small, window⟩
      exact left_sending nameable state (.inr rfl) left.token ⟨rfl, rfl, rfl, rfl⟩

end Scans

section Beginning

variable {component deadEpoch : Nat} {m b : Mem}

theorem restartBeginLoop_slots (fuel : Nat) : ∀ current : Nat,
    (restartBeginLoop component deadEpoch fuel current).wp
      (fun _ m' => m'.slots = m.slots ∧ m'.payload = m.payload) m := by
  induction fuel with
  | zero => exact fun _ => ⟨rfl, rfl⟩
  | succ fuel ih =>
      intro current
      simp only [restartBeginLoop, lift_bind]
      split
      · exact ⟨rfl, rfl⟩
      intro e
      simp only [exec_eq, Act.exec]
      split
      · exact fun _ _ => ⟨rfl, rfl⟩
      · exact ih _

theorem restartBegin_slots {fuel : Nat} {result : Option (Except Status Restart)}
    (run : Completes (componentRestartBegin fuel component deadEpoch) m result b) :
    b.slots = m.slots ∧ b.payload = m.payload := by
  have kept : (componentRestartBegin fuel component deadEpoch).wp
      (fun _ m' => m'.slots = m.slots ∧ m'.payload = m.payload) m := by
    unfold componentRestartBegin
    split
    · exact ⟨rfl, rfl⟩
    split
    · exact ⟨rfl, rfl⟩
    · exact fun _ => restartBeginLoop_slots fuel _
  exact run.sound kept

end Beginning

/-- A call of the scan that failed: no slot before `k` was for the replacement, slot `k` waits as
before, the other slots are unchanged, and the next call resumes at `k`. -/
structure FailsAt (pool : Pool) (restart r : Restart) (a : Mem) (k : Nat) (r' : Restart) (b : Mem) :
    Prop where
  resumes : r'.cursor = k
  reach : r.cursor ≤ k
  inside : k < pool.slotCount
  before : ∀ j, r.cursor ≤ j → j < k → Passed restart (a.slots j) (b.slots j)
  waits : Pending pool restart (a.slots k) (b.slots k)
  others : ∀ j, j < r.cursor ∨ k < j → b.slots j = a.slots j

/-- A runtime dies at any step of an allocation, a send with its rollback or a release, and a
replacement begins to restart a component from some epoch. It calls
`zipc_component_restart_next` again and again, whatever page protection answers. A call that
fails returns no buffer and the next one resumes at its slot. Once a call has answered that there
is no buffer left, the calls have returned OK once for every slot that the terminated runtime
owned or had claimed for a send, a rollback or a release, and for no other slot. Such a slot has
the new epoch and another generation and keeps its cargo, with the window from before an
interrupted release. Payloads are unchanged, and so is every other slot without a token of the
terminated runtime. -/
theorem adoption_exact {pool : Pool} {s : Session} (reached : s.Reached pool anyStep) {call : ApiCall}
    (legal : call.Legal s) (mortal : call.Mortal) {m : Mem}
    (cut : Prefix (call.program pool) s.mem m) {fuel component deadEpoch : Nat} {restart : Restart}
    {b : Mem} (begun : Completes (componentRestartBegin fuel component deadEpoch) m
      (some (.ok restart)) b)
    {results : List (Status × Option View)} {r : Restart} {a : Mem}
    (calls : Resumes pool restart b results r a) :
    restart.component = component ∧ restart.deadEpoch = deadEpoch ∧ restart.epoch = deadEpoch + 1 ∧
    (∀ status r' view c,
      CompletesIn plainFailures (componentRestartNext pool r) a (status, r', view) c →
      status ≠ .ok → status ≠ .noBuffer → view = none ∧ ∃ k, FailsAt pool restart r a k r' c) ∧
    ((∃ view, (.noBuffer, view) ∈ results) →
      a.payload = m.payload ∧ ∀ i, i < pool.slotCount →
        (restart.Finds (m.slots i) → returnsOf results i = 1 ∧
          TakenOver restart (m.slots i) (a.slots i) ∧
          (a.slots i).region = (m.slots i).window ∧
          ((m.slots i).state = .claiming → (m.slots i).Releasing →
            (a.slots i).region = (s.mem.slots i).region)) ∧
        (¬ restart.Finds (m.slots i) → returnsOf results i = 0) ∧
        (¬ restart.Finds (m.slots i) → restart.owns (m.slots i).claimToken = false →
          a.slots i = m.slots i)) := by
  have mend (j : Nat) (inside : j < pool.slotCount) :
      LeftBy pool (s.mem.slots j) (s.mem.slots j) := (reached.well.slots j inside).leftBy
  obtain ⟨_, left⟩ : PoolLeft pool s.mem m := cut.sound (call.cut reached.well mend legal mortal)
  obtain ⟨slots, payload⟩ := restartBegin_slots begun
  obtain ⟨_, sound, rfl, rfl, first, active, _⟩ :=
    begun.sound (componentRestartBegin_begins pool fuel).wp restart rfl
  have taking : Taking pool restart b results r a :=
    calls.taking sound active first fun j inside => by
      rw [slots]
      exact (left j inside).1
  refine ⟨rfl, rfl, sound.epoch, ?_, ?_⟩
  · intro status r' view c run error named
    have leaves := taking.leaves sound active run
    have agrees := taking.agrees
    cases leaves with
    | finished => exact absurd rfl named
    | taken => exact absurd rfl error
    | @failed _ k _ passes inside _ _ pending =>
        refine ⟨rfl, k, rfl, passes.reach, inside, fun j low high => ?_, agrees.pending pending,
          passes.still⟩
        exact agrees.passed (passes.passed j low high)
  · rintro ⟨view, finished⟩
    have past := taking.finished view finished
    refine ⟨taking.payload.trans payload, fun i inside => ?_⟩
    have behind := taking.behind i (Nat.lt_of_lt_of_le inside past) inside
    rw [slots] at behind
    refine ⟨fun found => ?_, fun lost => ?_, fun lost free => ?_⟩
    · rcases behind with ⟨_, taken, once⟩ | ⟨passed, _⟩
      · have region : (a.slots i).region = (m.slots i).window :=
          (window_of_owned taken.state).symm.trans taken.cargo.window
        refine ⟨once, taken, region, fun claiming releasing => ?_⟩
        rw [region, SlotControl.window, if_pos ⟨claiming, releasing⟩]
        exact (left i inside).2 claiming releasing
      · exact absurd found passed.1
    · rcases behind with ⟨found, _⟩ | ⟨_, none⟩
      · exact absurd found lost
      · exact none
    · rcases behind with ⟨found, _⟩ | ⟨passed, _⟩
      · exact absurd found lost
      · exact passed.2 free

/-- Component 1 has died in a release, after it cleared the owner and the window. -/
def diedReleasing : Mem :=
  ((ApiCall.release (some allocatedView)).program smallPool).runSteps default 33 allocatedSession.mem

/-- Its replacement has begun to restart. -/
def replacing : Mem := ((componentRestartBegin 1 1 1).runWith default diedReleasing).2

def replacement : Restart := ⟨1, 1, 2, 0, false⟩

/-- Page protection fails in the first call. -/
def refusedOnce : Mem :=
  ((componentRestartNext smallPool replacement).runWith { protect := .platform } replacing).2

def replaced : Mem := ((componentRestartNext smallPool replacement).runWith default refusedOnce).2

def adoptedAgain : View := { allocatedView with handle := handleMake 0 2, ownerEpoch := 2 }

theorem adoption_exact_released : ∃ results r a, Resumes smallPool replacement replacing results r a ∧
    results = [(.platform, none), (.ok, some adoptedAgain), (.noBuffer, none)] ∧
    returnsOf results 0 = 1 ∧ (a.slots 0).region = (allocatedSession.mem.slots 0).region := by
  have answers {e : Env} {p : Prog (Status × Restart × Option View)} {m : Mem}
      {x : Status × Restart × Option View} (plain : plainFailures e) (same : (p.runWith e m).1 = x) :
      CompletesIn plainFailures p m x (p.runWith e m).2 := same ▸ runWith_completesIn plain p m
  have begun : Completes (componentRestartBegin 1 1 1) diedReleasing (some (.ok replacement))
      replacing := by
    have run := runWith_completes default (componentRestartBegin 1 1 1) diedReleasing
    have same : ((componentRestartBegin 1 1 1).runWith default diedReleasing).1 =
      some (.ok replacement) := by decide +kernel
    exact same ▸ run
  have first : CompletesIn plainFailures (componentRestartNext smallPool replacement) replacing
      (.platform, replacement, none) refusedOnce := answers nofun (by decide +kernel)
  have second : CompletesIn plainFailures (componentRestartNext smallPool replacement) refusedOnce
      (.ok, { replacement with cursor := 1 }, some adoptedAgain) replaced :=
    answers nofun (by decide +kernel)
  have third : CompletesIn plainFailures
      (componentRestartNext smallPool { replacement with cursor := 1 }) replaced
      (.noBuffer, { replacement with cursor := 2, scanComplete := true }, none) _ :=
    answers (e := default) nofun (by decide +kernel)
  have calls := ((Resumes.start.next first).next second).next third
  have known : (ApiCall.release (some allocatedView)).Legal allocatedSession := by
    rintro v ⟨⟩
    decide
  have cut : Prefix ((ApiCall.release (some allocatedView)).program smallPool) allocatedSession.mem
      diedReleasing := runSteps_cut default 33 _ _
  obtain ⟨_, _, _, _, finished⟩ := adoption_exact allocated_reached known trivial cut begun calls
  obtain ⟨_, slots⟩ := finished ⟨none, by simp⟩
  have claiming : (diedReleasing.slots 0).state = .claiming := by decide +kernel
  have releasing : (diedReleasing.slots 0).Releasing := by
    unfold SlotControl.Releasing
    decide +kernel
  have found : replacement.Finds (diedReleasing.slots 0) :=
    .inr ⟨claiming, by decide +kernel, .inr releasing⟩
  obtain ⟨once, _, _, region⟩ := (slots 0 (by decide)).1 found
  exact ⟨_, _, _, calls, rfl, once, region claiming releasing⟩

end Zipc
