import Zipc.Session
import Zipc.Lib.Noninterference

/-! # A live owner beside an online restart

The adoption scan of one component runs while another component makes a call on a buffer
of its own. The scan reads any slot, but it changes only slots on which it won a
compare-and-exchange, and the call depends only on the slot it works on. Unless the scan
wins a compare-and-exchange there, the call answers what it answers without the scan.
-/

namespace Zipc

open Atomic Program

/-! ## The adoption scan -/

/-- What the adoption scan does, where `held` is the slot that it has taken aside. -/
def scanPermits (held : Option Nat) {β : Type} : Act β → Prop
  | .loadState _ | .loadToken _ | .loadGeneration _ | .read _ _ | .loadLifecycle _ | .now
  | .count _ | .addRecoveredSlot _ | .hookSlot _ _ _ _ _ | .casToken _ _ _ => True
  | .casState _ expected desired => expected ≠ .free ∧ desired ≠ .free
  | .storeState k _ | .storeToken k _ | .write k _ | .protect k _ => held = some k
  | _ => False

def scanNext (held : Option Nat) : {β : Type} → Act β → β → Option Nat
  | _, .casState k _ _, won => if won then some k else held
  | _, .storeState _ _, _ => none
  | _, _, _ => held

def scanDiscipline : Discipline Act Unit (Option Nat) where
  start _ := none
  permits _ held action := scanPermits held action
  next _ held action b := scanNext held action b

/-- The program is a part of an adoption scan that begins with `held` taken aside. -/
def Scans (held : Option Nat) {α : Type} (p : Prog α) : Prop :=
  p.Follows scanDiscipline () (fun _ _ => True) held

section Scan

variable {pool : Pool} {restart : Restart} {k : Nat}

theorem Scans.bind {held : Option Nat} {α β : Type} {p : Prog α} {f : α → Prog β}
    (first : Scans held p) (rest : ∀ held a, Scans held (f a)) : Scans held (p >>= f) := by
  rw [Scans, follows_bind]
  exact follows_mono first fun held a _ => rest held a

/-- A part of the scan that keeps its slot aside. -/
def Keeps (k : Nat) {α : Type} (p : Prog α) : Prop :=
  Stays scanDiscipline () (some k) p fun _ => True

theorem Keeps.bind {α β : Type} {p : Prog α} {f : α → Prog β} (first : Keeps k p)
    (rest : ∀ a, Scans (some k) (f a)) : Scans (some k) (p >>= f) :=
  Stays.bind first fun a _ => rest a

theorem writeAll_keeps (ws : List SlotWrite) : Keeps k (writeAll k ws) := by
  induction ws with
  | nil => exact ⟨rfl, trivial⟩
  | cons w ws ih => exact ⟨rfl, fun _ => ih⟩

theorem protectSlot_keeps (readWrite : Bool) : Keeps k (protectSlot pool k readWrite) := by
  unfold protectSlot
  split
  · exact ⟨rfl, trivial⟩
  split
  · exact ⟨rfl, trivial⟩
  · exact ⟨rfl, fun _ => ⟨rfl, trivial⟩⟩

theorem ownedBy_keeps (owner epoch : Nat) : Keeps k (ownedBy k owner epoch) := by
  simp only [ownedBy, lift_bind]
  refine ⟨trivial, fun id => ?_⟩
  dsimp only
  split
  · exact ⟨rfl, trivial⟩
  · exact ⟨trivial, fun _ => ⟨rfl, trivial⟩⟩

theorem makeView_keeps (handle : Nat) : Keeps k (makeView pool k handle) := by
  simp only [makeView, lift_bind]
  refine ⟨trivial, fun offset => ⟨trivial, fun length => ?_⟩⟩
  dsimp only
  split
  · exact ⟨rfl, trivial⟩
  · exact ⟨trivial, fun _ => ⟨trivial, fun _ => ⟨rfl, trivial⟩⟩⟩

theorem traceSlot_keeps (component : Nat) (event : TraceEvent) :
    Keeps k (traceSlot pool k component event) :=
  ⟨trivial, fun _ => ⟨trivial, fun _ => ⟨trivial, fun _ => ⟨rfl, fun _ => ⟨rfl, fun _ =>
    ⟨trivial, fun _ => ⟨rfl, trivial⟩⟩⟩⟩⟩⟩⟩

theorem freeClaimingSlot_scans : Scans (some k) (freeClaimingSlot k) := by
  refine ⟨trivial, fun token => ?_⟩
  exact (writeAll_keeps _).bind fun _ => ⟨rfl, fun _ => ⟨trivial, fun _ => trivial⟩⟩

theorem restoreTransfer_scans (component : Nat) : Scans (some k) (restoreTransfer k component) := by
  refine ⟨trivial, fun source => ⟨rfl, fun _ => ⟨rfl, fun _ => ⟨trivial, fun epoch => ?_⟩⟩⟩⟩
  refine ⟨rfl, fun _ => ⟨trivial, fun hops => ⟨rfl, fun _ => ⟨trivial, fun acquired => ?_⟩⟩⟩⟩
  refine ⟨rfl, fun _ => ⟨trivial, fun visited => ⟨rfl, fun _ => ⟨rfl, fun _ => ?_⟩⟩⟩⟩
  exact ⟨rfl, fun _ => trivial⟩

theorem restoreSaved_keeps (token : Nat) : Keeps k (restoreSaved k token) := by
  unfold restoreSaved
  split
  · exact ⟨trivial, fun _ => ⟨rfl, fun _ => ⟨rfl, trivial⟩⟩⟩
  split
  · refine ⟨trivial, fun owner => ⟨rfl, fun _ => ⟨trivial, fun epoch => ⟨rfl, fun _ => ?_⟩⟩⟩⟩
    refine ⟨trivial, fun offset => ⟨rfl, fun _ => ⟨trivial, fun length => ⟨rfl, fun _ => ?_⟩⟩⟩⟩
    exact ⟨rfl, trivial⟩
  · exact ⟨rfl, trivial⟩

theorem restartRepair_scans (held : Option Nat) (token : Nat) :
    Scans held (restartRepair pool restart k token) := by
  unfold restartRepair
  split
  · exact trivial
  refine ⟨⟨by decide, by decide⟩, fun won => ?_⟩
  cases won with
  | false => exact trivial
  | true =>
      change Scans (some k) _
      dsimp only [Bool.true_eq_false, if_false]
      split
      · refine (protectSlot_keeps false).bind fun status => ?_
        split
        · exact ⟨rfl, fun _ => trivial⟩
        · exact (restoreTransfer_scans _).bind fun _ _ => trivial
      split
      · refine (protectSlot_keeps false).bind fun status => ?_
        split
        · exact ⟨rfl, fun _ => trivial⟩
        · exact freeClaimingSlot_scans.bind fun _ _ => trivial
      · refine (restoreSaved_keeps token).bind fun _ => ?_
        exact ⟨rfl, fun _ => ⟨rfl, fun _ => ⟨rfl, fun _ => trivial⟩⟩⟩

theorem restartAdopt_scans (held : Option Nat) (token : Nat) :
    Scans held (restartAdopt pool restart k token) := by
  have clears : Scans held (clearOwned restart k token) := by
    unfold clearOwned
    split
    · exact ⟨trivial, fun _ => trivial⟩
    · exact trivial
  refine clears.bind fun held _ => ⟨⟨by decide, by decide⟩, fun won => ?_⟩
  cases won with
  | false => exact trivial
  | true =>
      change Scans (some k) _
      refine (ownedBy_keeps _ _).bind fun same => ?_
      split
      · exact ⟨rfl, fun _ => trivial⟩
      refine (protectSlot_keeps true).bind fun status => ?_
      split
      · exact ⟨rfl, fun _ => trivial⟩
      refine ⟨trivial, fun old => ⟨rfl, fun _ => ⟨rfl, fun _ => ⟨trivial, fun time => ?_⟩⟩⟩⟩
      refine ⟨rfl, fun _ => ⟨trivial, fun recoveries => ⟨rfl, fun _ => ?_⟩⟩⟩
      refine (makeView_keeps _).bind fun view => ?_
      cases view with
      | error failure => exact ⟨rfl, fun _ => ⟨rfl, fun _ => ⟨rfl, fun _ => trivial⟩⟩⟩
      | ok v =>
          refine (traceSlot_keeps _ _).bind fun _ => ?_
          exact ⟨trivial, fun _ => ⟨trivial, fun _ => ⟨rfl, fun _ => trivial⟩⟩⟩

theorem restartSlot_scans (held : Option Nat) : Scans held (restartSlot pool restart k) := by
  simp only [restartSlot, lift_bind]
  refine ⟨trivial, fun state => ⟨trivial, fun token => ?_⟩⟩
  dsimp only
  split
  · exact ⟨trivial, fun _ => trivial⟩
  split
  · exact ⟨trivial, fun _ => trivial⟩
  split
  · refine (restartRepair_scans held token).bind fun held round => ?_
    cases round with
    | owned => exact restartAdopt_scans held token
    | skip | fail | adopt => exact trivial
  split
  · exact restartAdopt_scans held token
  · exact trivial

theorem restartScan_scans (left : Nat) : ∀ held restart,
    Scans held (restartScan pool left restart) := by
  induction left with
  | zero => exact fun held restart => trivial
  | succ left ih =>
      intro held restart
      refine (restartSlot_scans held).bind fun held round => ?_
      cases round with
      | fail | adopt => exact trivial
      | skip | owned => exact ih held _

theorem componentRestartNext_scans (held : Option Nat) (restart : Restart) :
    Scans held (componentRestartNext pool restart) := by
  have looks : Scans held (componentEpochRecovering restart.component restart.epoch) := by
    unfold componentEpochRecovering
    split
    · exact trivial
    · exact ⟨trivial, fun _ => trivial⟩
  refine looks.bind fun held recovering => ?_
  split
  · exact trivial
  · exact restartScan_scans _ held restart

end Scan

/-- Any number of calls of `zipc_component_restart_next`, one after the other. -/
def restartCalls (pool : Pool) : Nat → Restart → Prog Unit
  | 0, _ => pure ()
  | calls + 1, restart => do
      let (_, restart, _) ← componentRestartNext pool restart
      restartCalls pool calls restart

theorem restartCalls_scans (pool : Pool) (calls : Nat) : ∀ held restart,
    Scans held (restartCalls pool calls restart) := by
  induction calls with
  | zero => exact fun held restart => trivial
  | succ calls ih =>
      intro held restart
      exact (componentRestartNext_scans held restart).bind fun held result => ih held result.2.1

/-! ## The call of a live owner -/

/-- Where a call of the live owner is. -/
inductive CallMode where
  /-- It looks for a free slot. -/
  | roving
  /-- It saw this slot free. -/
  | eyeing (i : Nat)
  /-- It works on this slot. -/
  | working (i : Nat)
  deriving Repr, DecidableEq

def callNext : {β : Type} → CallMode → Act β → β → CallMode
  | _, .roving, .loadState k, state => if state = .free then .eyeing k else .roving
  | _, .eyeing k, .casToken _ expected _, found => if found = expected then .eyeing k else .roving
  | _, .eyeing k, .casState _ _ _, won => if won then .working k else .eyeing k
  | _, x, _, _ => x

/-- The step of the scan spares the call: it wins no compare-and-exchange on the slot that
    the call works on and, while the call looks for a slot, it touches no free slot and
    frees none. -/
def Spares {β : Type} : CallMode → Act β → Mem → Prop
  | .working i, .casState k expected _, m => k = i → (m.slots k).state ≠ expected
  | .working i, .casToken k expected _, m => k = i → (m.slots k).claimToken ≠ expected
  | .working _, _, _ => True
  | _, .casToken k expected _, m => (m.slots k).state = .free → (m.slots k).claimToken ≠ expected
  | _, .storeState _ state, _ => state ≠ .free
  | _, _, _ => True

/-- What the two runs always share. -/
structure Shares (m m' : Mem) : Prop where
  lifecycle : ∀ c, (m'.components c).lifecycle = (m.components c).lifecycle
  cursor : m'.allocationCursor = m.allocationCursor
  rings : m'.rings = m.rings
  events : m'.events = m.events
  clock : m'.clock = m.clock

/-- The slots that are free in one of the runs are the same in both, and the scan has none
    of them aside. -/
structure FreeAlike (held : Option Nat) (m m' : Mem) : Prop where
  shares : Shares m m'
  slots : ∀ k, m'.slots k = m.slots k ∨ (m.slots k).state ≠ .free ∧ (m'.slots k).state ≠ .free
  aside : ∀ k, held = some k → (m.slots k).state ≠ .free

/-- The run beside the scan and the run alone, as far as the call can tell. -/
def Agrees (held : Option Nat) : CallMode → Mem → Mem → Prop
  | .roving, m, m' => FreeAlike held m m'
  | .eyeing i, m, m' => FreeAlike held m m' ∧ (m.slots i).state = .free
  | .working i, m, m' => Shares m m' ∧ m'.slots i = m.slots i ∧ held ≠ some i

/-! ### Steps of the scan -/

section Rely

variable {held : Option Nat} {m m' : Mem} {β : Type} {action : Act β}

theorem Shares.scan (shares : Shares m m') (permits : scanPermits held action) (e : Env) :
    Shares (action.exec e m).2 m' := by
  obtain ⟨lifecycle, cursor, rings, events, clock⟩ := shares
  cases action with
  | casState k expected desired =>
      simp only [Act.exec]
      split
      · exact ⟨lifecycle, cursor, rings, events, clock⟩
      · exact ⟨lifecycle, cursor, rings, events, clock⟩
  | casToken k expected desired =>
      simp only [Act.exec]
      split
      · exact ⟨lifecycle, cursor, rings, events, clock⟩
      · exact ⟨lifecycle, cursor, rings, events, clock⟩
  | protect k readWrite =>
      simp only [Act.exec]
      split
      · exact ⟨lifecycle, cursor, rings, events, clock⟩
      · exact ⟨lifecycle, cursor, rings, events, clock⟩
  | addRecoveredSlot c =>
      refine ⟨fun d => ?_, cursor, rings, events, clock⟩
      rw [lifecycle d]
      by_cases same : d = c
      · subst same
        simp [Act.exec, Mem.setComponent]
      · simp [Act.exec, Mem.setComponent, same]
  | loadState | loadToken | loadGeneration | read | loadLifecycle | now | count | hookSlot
  | storeState | storeToken | write => exact ⟨lifecycle, cursor, rings, events, clock⟩
  | _ => cases permits

theorem setSlot_other {i k : Nat} (other : i ≠ k) (t : SlotControl) :
    (m.setSlot k t).slots i = m.slots i := by
  rw [Mem.slots_setSlot, Function.update_of_ne other]

/-- A step that spares slot `i` leaves it alone and does not take it aside. -/
theorem scan_spares {i : Nat} (permits : scanPermits held action) (elsewhere : held ≠ some i)
    (spares : Spares (.working i) action m) (e : Env) :
    (action.exec e m).2.slots i = m.slots i ∧
      scanNext held action (action.exec e m).1 ≠ some i := by
  cases action with
  | casState k expected desired =>
      by_cases won : (m.slots k).state = expected
      · have other : i ≠ k := fun same => spares same.symm won
        simp only [Act.exec, if_pos won, scanNext, if_true]
        exact ⟨setSlot_other other _, fun same => other (Option.some.inj same).symm⟩
      · simp only [Act.exec, if_neg won, scanNext, true_and]
        exact elsewhere
  | casToken k expected desired =>
      refine ⟨?_, elsewhere⟩
      simp only [Act.exec]
      split
      · exact setSlot_other (fun same => spares same.symm ‹_›) _
      · rfl
  | storeState k state =>
      have other : i ≠ k := fun same => elsewhere (same ▸ permits)
      exact ⟨setSlot_other other _, fun same => by cases same⟩
  | storeToken k | write k =>
      have other : i ≠ k := fun same => elsewhere (same ▸ permits)
      exact ⟨setSlot_other other _, elsewhere⟩
  | protect k readWrite =>
      refine ⟨?_, elsewhere⟩
      simp only [Act.exec]
      split
      · rfl
      · rfl
  | loadState | loadToken | loadGeneration | read | loadLifecycle | now | count | hookSlot
  | addRecoveredSlot => exact ⟨rfl, elsewhere⟩
  | _ => cases permits

/-- A store to a slot that is free in neither run. -/
theorem FreeAlike.store {k : Nat} {t : SlotControl} {held' : Option Nat}
    (alike : FreeAlike held m m') (shares : Shares (m.setSlot k t) m')
    (before : (m.slots k).state ≠ .free) (after : t.state ≠ .free)
    (aside : ∀ j, held' = some j → j = k ∨ held = some j) :
    FreeAlike held' (m.setSlot k t) m' := by
  refine ⟨shares, fun j => ?_, fun j taken => ?_⟩
  · by_cases same : j = k
    · subst same
      refine .inr ⟨by simpa using after, ?_⟩
      rcases alike.slots j with equal | ⟨_, busy⟩
      · rw [equal]
        exact before
      · exact busy
    · rw [setSlot_other same]
      exact alike.slots j
  · by_cases same : j = k
    · subst same
      simpa using after
    · rw [setSlot_other same]
      rcases aside j taken with here | old
      · exact absurd here same
      · exact alike.aside j old

/-- A step that touches no free slot and frees none. -/
theorem FreeAlike.scan (alike : FreeAlike held m m') (permits : scanPermits held action)
    (spares : Spares .roving action m) (e : Env) :
    FreeAlike (scanNext held action (action.exec e m).1) (action.exec e m).2 m' := by
  have shares := alike.shares.scan permits e
  cases action with
  | casState k expected desired =>
      by_cases won : (m.slots k).state = expected
      · simp only [Act.exec, if_pos won, scanNext, if_true] at shares ⊢
        refine alike.store shares (won ▸ permits.1) permits.2 fun j taken => ?_
        exact .inl (Option.some.inj taken).symm
      · simp only [Act.exec, if_neg won, scanNext] at shares ⊢
        exact alike
  | casToken k expected desired =>
      by_cases won : (m.slots k).claimToken = expected
      · have busy : (m.slots k).state ≠ .free := fun free => spares free won
        simp only [Act.exec, if_pos won, scanNext] at shares ⊢
        exact alike.store shares busy busy fun j taken => .inr taken
      · simp only [Act.exec, if_neg won, scanNext] at shares ⊢
        exact alike
  | storeState k state =>
      exact alike.store shares (alike.aside k permits) spares fun j taken => by cases taken
  | storeToken k v =>
      exact alike.store shares (alike.aside k permits) (alike.aside k permits)
        fun j taken => .inr taken
  | write k w =>
      have same : (w.apply (m.slots k)).state = (m.slots k).state := by cases w <;> rfl
      refine alike.store shares (alike.aside k permits) ?_ fun j taken => .inr taken
      rw [same]
      exact alike.aside k permits
  | protect k readWrite =>
      refine ⟨shares, ?_, ?_⟩
      all_goals
        simp only [Act.exec]
        split
      · exact alike.slots
      · exact alike.slots
      · exact alike.aside
      · exact alike.aside
  | loadState | loadToken | loadGeneration | read | loadLifecycle | now | count | hookSlot
  | addRecoveredSlot => exact ⟨shares, alike.slots, alike.aside⟩
  | _ => cases permits

/-- A free slot stays as it is. -/
theorem FreeAlike.scan_free {i : Nat} (alike : FreeAlike held m m')
    (permits : scanPermits held action) (spares : Spares (.eyeing i) action m)
    (free : (m.slots i).state = .free) (e : Env) :
    (action.exec e m).2.slots i = m.slots i := by
  refine (scan_spares permits (fun taken => alike.aside i taken free) ?_ e).1
  cases action with
  | casState k expected desired =>
      rintro rfl won
      exact permits.1 (won ▸ free)
  | casToken k expected desired =>
      rintro rfl
      exact spares free
  | _ => trivial

/-- A step of the scan that spares the call keeps the two runs alike. -/
theorem Agrees.scan {x : CallMode} (agrees : Agrees held x m m')
    (permits : scanPermits held action) (spares : Spares x action m) (e : Env) :
    Agrees (scanNext held action (action.exec e m).1) x (action.exec e m).2 m' := by
  cases x with
  | roving => exact FreeAlike.scan agrees permits spares e
  | eyeing i =>
      obtain ⟨alike, free⟩ := agrees
      refine ⟨alike.scan permits ?_ e, ?_⟩
      · cases action <;> exact spares
      rw [alike.scan_free permits spares free e]
      exact free
  | working i =>
      obtain ⟨shares, same, elsewhere⟩ := agrees
      obtain ⟨kept, away⟩ := scan_spares permits elsewhere spares e
      exact ⟨shares.scan permits e, same.trans kept.symm, away⟩

end Rely

/-! ### Steps of the call -/

/-- What a call does while it works on slot `i`. -/
def ownPermits (i : Nat) {β : Type} : Act β → Prop
  | .loadState k | .storeState k _ | .casState k _ _ | .loadToken k | .casToken k _ _
  | .loadGeneration k | .read k _ | .write k _ | .protect k _ | .copyIn k _ _
  | .hookSlot _ k _ _ _ => k = i
  | .loadLifecycle _ | .storeCursor _ | .count _ | .loadProducer _ | .storeProducer _ _
  | .loadConsumer _ | .readDepth _ | .readEntry _ _ | .writeEntry _ _ _ | .eventWrite _
  | .externalSend _ | .now | .generateBufferId _ | .hook _ => True
  | _ => False

def ownDiscipline : Discipline Act Nat CallMode where
  start i := .working i
  permits i _ action := ownPermits i action
  next _ x _ _ := x

/-- The program works on slot `i` alone and ends with `P`. -/
def WorksOn (i : Nat) {α : Type} (p : Prog α) (P : α → Prop) : Prop :=
  Stays ownDiscipline i (.working i) p P

/-- The program works on slot `i` alone. -/
def Confined (i : Nat) {α : Type} (p : Prog α) : Prop := WorksOn i p fun _ => True

section Confined

variable {i : Nat} {α β : Type}

theorem works_act {action : Act β} {next : β → Prog α} {P : α → Prop} (permits : ownPermits i action)
    (rest : ∀ b, WorksOn i (next b) P) : WorksOn i (.act action next) P :=
  ⟨permits, rest⟩

theorem works_done {a : α} {P : α → Prop} (holds : P a) : WorksOn i (.done a) P := ⟨rfl, holds⟩

theorem WorksOn.bind {p : Prog α} {f : α → Prog β} {P : α → Prop} {Q : β → Prop}
    (first : WorksOn i p P) (rest : ∀ a, P a → WorksOn i (f a) Q) : WorksOn i (p >>= f) Q :=
  Stays.bind first rest

theorem Confined.then {p : Prog α} {f : α → Prog β} {Q : β → Prop}
    (first : Confined i p) (rest : ∀ a, WorksOn i (f a) Q) : WorksOn i (p >>= f) Q :=
  WorksOn.bind first fun a _ => rest a

theorem works_ite {c : Prop} [Decidable c] {p q : Prog α} {P : α → Prop}
    (pos : WorksOn i p P) (neg : WorksOn i q P) : WorksOn i (if c then p else q) P := by
  split
  · exact pos
  · exact neg

theorem confined_done (a : α) : Confined i (.done a) := works_done trivial

end Confined

section Parts

variable {i : Nat} (pool : Pool)

theorem registeredEpoch_confined (component : Nat) : Confined i (registeredEpoch component) := by
  unfold registeredEpoch
  exact works_ite (works_act trivial fun _ => confined_done _) (confined_done _)

theorem linkCurrent_confined (link : Link) : Confined i (linkCurrent link) := by
  unfold linkCurrent epochCurrent componentEpochCurrent
  refine works_ite (works_ite (confined_done _) ?_) (confined_done _)
  exact works_act trivial fun _ => confined_done _

theorem ownedBy_confined (owner epoch : Nat) : Confined i (ownedBy i owner epoch) :=
  works_act rfl fun _ => works_ite (confined_done _) (works_act rfl fun _ => confined_done _)

theorem bufferOwned_confined (v : View) : Confined v.slotId (bufferOwned (some v)) := by
  refine works_act rfl fun generation => works_ite (confined_done _) ?_
  refine works_act rfl fun state => works_ite (confined_done _) ?_
  refine (ownedBy_confined _ _).then fun same => works_ite (confined_done _) ?_
  exact (registeredEpoch_confined _).then fun epoch => confined_done _

theorem writeAll_confined (ws : List SlotWrite) : Confined i (writeAll i ws) := by
  induction ws with
  | nil => exact confined_done _
  | cons w ws ih => exact works_act rfl fun _ => ih

theorem protectSlot_confined (readWrite : Bool) : Confined i (protectSlot pool i readWrite) := by
  unfold protectSlot
  refine works_ite (confined_done _) (works_ite (confined_done _) ?_)
  exact works_act rfl fun _ => confined_done _

theorem makeView_works (handle : Nat) : WorksOn i (makeView pool i handle)
    fun view => ∀ v, view = .ok v → v.slotId = i ∧ v.handle = handle := by
  refine works_act rfl fun offset => works_act rfl fun length => works_ite ?_ ?_
  · exact works_done fun v same => by cases same
  · refine works_act rfl fun owner => works_act rfl fun epoch => works_done ?_
    rintro v ⟨⟩
    exact ⟨rfl, rfl⟩

theorem traceSlot_confined (component : Nat) (event : TraceEvent) :
    Confined i (traceSlot pool i component event) := by
  refine works_act rfl fun traced => works_act trivial fun timestamp => works_act rfl fun seq => ?_
  exact works_act rfl fun _ => works_act rfl fun _ => works_act rfl fun _ => confined_done _

theorem recordProtocolError_confined (component : Nat) :
    Confined i (recordProtocolError pool component) :=
  works_act trivial fun _ => works_act trivial fun _ => works_act trivial fun _ => confined_done _

theorem recordSlotError_confined (component : Nat) :
    Confined i (recordSlotError pool i component) :=
  works_act trivial fun _ => traceSlot_confined pool component .error

theorem traceExternalEvent_confined (handle sequence component : Nat) (event : TraceEvent) :
    Confined i (traceExternalEvent pool handle sequence component event) :=
  works_act trivial fun _ => works_act trivial fun _ => confined_done _

theorem publish_confined (state : SlotState) (claim : Nat) : Confined i (publish i state claim) :=
  works_act rfl fun _ => works_act rfl fun _ => confined_done _

theorem freeClaimingSlot_confined : Confined i (freeClaimingSlot i) :=
  works_act rfl fun token => (writeAll_confined _).then fun _ => publish_confined .free token

/-! The operations on the window of a buffer. -/

theorem bufferSetRegion_confined (v : View) (offset length : Nat) :
    Confined v.slotId (bufferSetRegion (some v) offset length) := by
  refine (bufferOwned_confined v).then fun owned => ?_
  cases owned with
  | false => exact confined_done _
  | true =>
      refine works_ite (confined_done _) ?_
      exact works_act rfl fun _ => works_act rfl fun _ => confined_done _

theorem bufferHeadroom_confined (v : View) : Confined v.slotId (bufferHeadroom (some v)) := by
  refine (bufferOwned_confined v).then fun owned => ?_
  cases owned with
  | false => exact confined_done _
  | true => exact works_act rfl fun _ => confined_done _

theorem bufferTailroom_confined (v : View) : Confined v.slotId (bufferTailroom (some v)) := by
  refine (bufferOwned_confined v).then fun owned => ?_
  cases owned with
  | false => exact confined_done _
  | true => exact works_act rfl fun _ => confined_done _

theorem bufferAppend_confined (v : View) (bytes : List Nat) :
    Confined v.slotId (bufferAppend (some v) bytes) := by
  refine (bufferOwned_confined v).then fun owned => ?_
  cases owned with
  | false => exact confined_done _
  | true =>
      refine (bufferTailroom_confined v).then fun tailroom => works_ite (confined_done _) ?_
      exact works_act rfl fun _ => works_act rfl fun _ => bufferSetRegion_confined v _ _

theorem bufferPrepend_confined (v : View) (bytes : List Nat) :
    Confined v.slotId (bufferPrepend (some v) bytes) := by
  refine (bufferOwned_confined v).then fun owned => ?_
  cases owned with
  | false => exact confined_done _
  | true =>
      refine (bufferHeadroom_confined v).then fun headroom => works_ite (confined_done _) ?_
      exact works_act rfl fun _ => works_act rfl fun _ => bufferSetRegion_confined v _ _

theorem bufferTrimFront_confined (v : View) (length : Nat) :
    Confined v.slotId (bufferTrimFront (some v) length) := by
  refine (bufferOwned_confined v).then fun owned => ?_
  cases owned with
  | false => exact confined_done _
  | true =>
      refine works_ite (confined_done _) ?_
      exact works_act rfl fun _ => bufferSetRegion_confined v _ _

theorem bufferTrimBack_confined (v : View) (length : Nat) :
    Confined v.slotId (bufferTrimBack (some v) length) := by
  refine (bufferOwned_confined v).then fun owned => ?_
  cases owned with
  | false => exact confined_done _
  | true =>
      refine works_ite (confined_done _) ?_
      exact works_act rfl fun _ => bufferSetRegion_confined v _ _

theorem bufferData_confined (v : View) : Confined v.slotId (bufferData (some v)) := by
  refine (bufferOwned_confined v).then fun owned => ?_
  cases owned <;> exact confined_done _

theorem bufferSize_confined (v : View) : Confined v.slotId (bufferSize (some v)) := by
  refine (bufferOwned_confined v).then fun owned => ?_
  cases owned <;> exact confined_done _

/-! Send and release. -/

theorem limitsExceeded_confined : Confined i (limitsExceeded i) := by
  refine works_act trivial fun time => works_act rfl fun deadline => works_ite (confined_done _) ?_
  refine works_act rfl fun limit => works_ite (confined_done _) ?_
  exact works_act rfl fun hops => confined_done _

theorem prepareTransfer_confined (handle currentOwner nextOwner linkId claim : Nat) :
    Confined i (prepareTransfer pool handle i currentOwner nextOwner linkId claim) := by
  refine works_act rfl fun _ => works_act rfl fun _ => works_act rfl fun _ => ?_
  refine works_act rfl fun epoch => works_act rfl fun _ => works_act rfl fun hops => ?_
  refine works_act rfl fun _ => works_act rfl fun acquired => works_act rfl fun _ => ?_
  refine works_act rfl fun visited => works_act rfl fun _ => works_act rfl fun sequence => ?_
  refine works_act rfl fun _ => (traceSlot_confined pool _ _).then fun _ => ?_
  exact (publish_confined _ _).then fun _ => confined_done _

theorem prepareClaimed_confined (handle currentOwner nextOwner linkId ownerEpoch claim : Nat) :
    Confined i
      (prepareClaimed pool handle i currentOwner nextOwner linkId ownerEpoch claim) := by
  refine works_act rfl fun generation => works_ite ?_ ?_
  · refine (publish_confined _ _).then fun _ => ?_
    exact (recordProtocolError_confined pool _).then fun _ => confined_done _
  refine (ownedBy_confined _ _).then fun same => works_ite ?_ ?_
  · refine (publish_confined _ _).then fun _ => ?_
    exact (recordProtocolError_confined pool _).then fun _ => confined_done _
  refine limitsExceeded_confined.then fun exceeded => ?_
  cases exceeded with
  | some status =>
      refine (recordSlotError_confined pool _).then fun _ => ?_
      exact (publish_confined _ _).then fun _ => confined_done _
  | none =>
      refine (protectSlot_confined pool _).then fun status => works_ite ?_ ?_
      · refine (recordSlotError_confined pool _).then fun _ => ?_
        exact (publish_confined _ _).then fun _ => confined_done _
      · exact prepareTransfer_confined pool _ _ _ _ _

theorem bufferPrepareTransferInternal_confined (handle currentOwner nextOwner linkId : Nat)
    (slot : i = handleSlotId handle) :
    Confined i (bufferPrepareTransferInternal pool handle currentOwner nextOwner linkId) := by
  have reports : ∀ status : Status, Confined i (recordProtocolError pool currentOwner >>= fun _ =>
      (pure (.error status) : Prog (Except Status Message))) := fun status =>
    (recordProtocolError_confined pool _).then fun _ => confined_done _
  subst slot
  unfold bufferPrepareTransferInternal
  refine works_ite (confined_done _) (works_ite (reports _) ?_)
  refine (registeredEpoch_confined _).then fun ownerEpoch => works_act rfl fun state => ?_
  refine works_ite (reports _) (works_act rfl fun generation => works_ite (reports _) ?_)
  refine (ownedBy_confined _ _).then fun same => works_ite (reports _) ?_
  refine works_act rfl fun sequence => works_act rfl fun _ => works_act rfl fun observed => ?_
  refine works_ite (confined_done _) (works_act rfl fun won => works_ite ?_ ?_)
  · exact works_act rfl fun _ => reports _
  · exact prepareClaimed_confined pool _ _ _ _ _ _

theorem ringScan_confined (r : Nat) (message : Message) (depth left : Nat) : ∀ position,
    Confined i (ringScan r message depth left position) := by
  induction left with
  | zero => exact fun position => confined_done _
  | succ left ih =>
      intro position
      exact works_act trivial fun queued => works_ite (confined_done _) (ih _)

theorem ringPush_confined (r : Nat) (message : Message) : Confined i (ringPush r message) := by
  refine works_act trivial fun depth => works_ite (confined_done _) ?_
  refine works_act trivial fun producer => works_act trivial fun consumer => ?_
  refine works_ite (confined_done _) ((ringScan_confined r message _ _ _).then fun pending => ?_)
  refine works_ite (confined_done _) ?_
  exact works_act trivial fun _ => works_act trivial fun _ => confined_done _

theorem transportSend_confined (t : Transport) (message : Message) :
    Confined i (transportSend t message) := by
  cases t with
  | eventfd r =>
      refine (ringPush_confined r message).then fun status => works_ite (confined_done _) ?_
      exact works_act trivial fun _ => confined_done _
  | polling r timeout => exact ringPush_confined r message
  | external => exact works_act trivial fun _ => confined_done _

theorem rollbackMatches_confined (link : Link) (message : Message) :
    Confined i (rollbackMatches link message i) := by
  refine works_act rfl fun generation => works_ite (confined_done _) ?_
  refine works_act rfl fun owner => works_ite (confined_done _) ?_
  refine works_act rfl fun next => works_ite (confined_done _) ?_
  exact works_act rfl fun _ => confined_done _

theorem rollbackTransfer_confined (link : Link) (message : Message) :
    Confined i (rollbackTransfer pool link i message) := by
  refine works_act rfl fun state => works_ite (confined_done _) ?_
  refine works_act rfl fun _ => works_act rfl fun observed => works_ite (confined_done _) ?_
  refine works_act rfl fun won => works_ite (works_act rfl fun _ => confined_done _) ?_
  refine (rollbackMatches_confined link message).then fun same => works_ite ?_ ?_
  · exact (publish_confined _ _).then fun _ => confined_done _
  refine works_act rfl fun _ => works_act rfl fun _ => works_act rfl fun _ => ?_
  refine (protectSlot_confined pool true).then fun status => works_ite (confined_done _) ?_
  exact (publish_confined _ _).then fun _ => confined_done _

/-- The buffer that a call answers is the one it was given, or none. -/
def Answers (v : View) {α : Type} (result : α × Option View) : Prop :=
  result.2 = none ∨ result.2 = some v

theorem sendPrepared_works (link : Link) (v : View) (message : Message) :
    WorksOn v.slotId (sendPrepared pool link v message) (Answers v) := by
  refine (transportSend_confined _ _).then fun status => works_ite ?_ (works_ite ?_ ?_)
  · exact (traceExternalEvent_confined pool _ _ _ _).then fun _ => works_done (.inl rfl)
  · refine (rollbackTransfer_confined pool link message).then fun undone => works_ite ?_ ?_
    · exact (traceExternalEvent_confined pool _ _ _ _).then fun _ => works_done (.inl rfl)
    · exact works_done (.inr rfl)
  · exact works_done (.inl rfl)

theorem send_works (link : Link) (v : View) (slot : v.slotId = handleSlotId v.handle) :
    WorksOn v.slotId (send pool link (some v)) (Answers v) := by
  refine (bufferOwned_confined v).then fun owned => ?_
  cases owned with
  | false => exact works_done (.inr rfl)
  | true =>
      refine (linkCurrent_confined link).then fun current => works_ite (works_done (.inr rfl)) ?_
      refine works_ite (works_done (.inr rfl)) ?_
      refine (bufferPrepareTransferInternal_confined pool _ _ _ _ slot).then fun prepared => ?_
      cases prepared with
      | error status => exact works_done (.inr rfl)
      | ok message => exact sendPrepared_works pool link v message

theorem poolBufferRelease_confined (handle currentOwner : Nat) (slot : i = handleSlotId handle) :
    Confined i (poolBufferRelease pool handle currentOwner) := by
  subst slot
  unfold poolBufferRelease
  refine works_ite (confined_done _) (works_ite (confined_done _) ?_)
  refine works_act rfl fun generation => works_ite (confined_done _) ?_
  refine (registeredEpoch_confined _).then fun ownerEpoch => works_act rfl fun state => ?_
  refine works_ite (confined_done _) ((ownedBy_confined _ _).then fun same => ?_)
  refine works_ite (confined_done _) ?_
  refine works_act rfl fun offset => works_act rfl fun _ => works_act rfl fun length => ?_
  refine works_act rfl fun _ => works_act rfl fun owner => works_act rfl fun _ => ?_
  refine works_act rfl fun epoch => works_act rfl fun _ => works_act rfl fun observed => ?_
  refine works_ite (confined_done _) (works_act rfl fun won => works_ite ?_ ?_)
  · exact works_act rfl fun _ => confined_done _
  refine (ownedBy_confined _ _).then fun same => works_ite ?_ ?_
  · exact (publish_confined _ _).then fun _ => confined_done _
  refine (protectSlot_confined pool false).then fun status => works_ite ?_ ?_
  · exact (publish_confined _ _).then fun _ => confined_done _
  refine (traceSlot_confined pool _ _).then fun _ => (writeAll_confined _).then fun _ => ?_
  exact (publish_confined _ _).then fun _ => works_act trivial fun _ => confined_done _

theorem bufferRelease_confined (v : View) (slot : v.slotId = handleSlotId v.handle) :
    Confined v.slotId (bufferRelease pool (some v)) := by
  refine (bufferOwned_confined v).then fun owned => ?_
  cases owned with
  | false => exact confined_done _
  | true =>
      exact (poolBufferRelease_confined pool _ _ slot).then fun status => confined_done _

/-! Allocation of the slot that it has won, and the copy. -/

theorem allocateAbort_works (allocator : Nat) (revoke : Bool) (status : Status) :
    WorksOn i (allocateAbort pool allocator i revoke status) fun result => result.2 = none := by
  refine (traceSlot_confined pool _ _).then fun _ => works_ite ?_ ?_
  · refine (protectSlot_confined pool false).then fun _ => freeClaimingSlot_confined.then fun _ => ?_
    exact works_act trivial fun _ => works_done rfl
  · exact freeClaimingSlot_confined.then fun _ => works_act trivial fun _ => works_done rfl

/-- A view of slot `i` whose handle names the slot. -/
def ViewOf (i : Nat) (result : Status × Option View) : Prop :=
  ∀ v, result.2 = some v → v.slotId = i ∧ i = handleSlotId v.handle

theorem allocateClaimed_works (a : AllocateArgs) (epoch token : Nat) (inside : i < u32) :
    WorksOn i (allocateClaimed pool a epoch token i) (ViewOf i) := by
  have aborts : ∀ revoke status, WorksOn i (allocateAbort pool a.allocator i revoke status)
      (ViewOf i) := by
    intro revoke status
    refine follows_mono (allocateAbort_works pool a.allocator revoke status) ?_
    rintro _ result ⟨rfl, none⟩
    refine ⟨rfl, fun v some => ?_⟩
    rw [none] at some
    cases some
  refine works_act rfl fun old => works_act rfl fun _ => (writeAll_confined _).then fun _ => ?_
  refine works_act trivial fun acquired => works_act rfl fun _ => works_act rfl fun _ => ?_
  refine (writeAll_confined _).then fun _ => works_act trivial fun fresh => ?_
  cases fresh with
  | error status => exact aborts _ _
  | ok id =>
      have enables : Confined i (enablePayload pool a i) := by
        unfold enablePayload
        exact works_ite (protectSlot_confined pool true) (confined_done _)
      refine works_act rfl fun _ => enables.then fun status => works_ite (aborts _ _) ?_
      refine (makeView_works pool _).bind fun view made => ?_
      cases view with
      | error failure => exact aborts _ _
      | ok v =>
          refine (traceSlot_confined pool _ _).then fun _ => (publish_confined _ _).then fun _ => ?_
          refine works_act trivial fun _ => works_act trivial fun _ => works_done ?_
          rintro w ⟨⟩
          obtain ⟨slot, handle⟩ := made v rfl
          refine ⟨slot, ?_⟩
          rw [handle, handleSlotId_make inside]

theorem copyPayload_confined (v : View) (bytes : List Nat) :
    Confined v.slotId (copyPayload (some v) bytes) := by
  unfold copyPayload
  refine works_ite (confined_done _) ((bufferData_confined v).then fun pointer => ?_)
  cases pointer with
  | none => exact confined_done _
  | some offset => exact works_act rfl fun _ => confined_done _

end Parts

/-! ### The call in two runs -/

section Call

variable {held : Option Nat} {m m' : Mem} {β : Type} {action : Act β}

theorem Shares.refl (m : Mem) : Shares m m := ⟨fun _ => rfl, rfl, rfl, rfl, rfl⟩

/-- Both runs store the same slot control. -/
theorem Shares.setSlot (shares : Shares m m') (k : Nat) (t : SlotControl) :
    Shares (m.setSlot k t) (m'.setSlot k t) :=
  ⟨shares.lifecycle, shares.cursor, shares.rings, shares.events, shares.clock⟩

theorem Agrees.store {i : Nat} (agrees : Agrees held (.working i) m m') (t : SlotControl) :
    Agrees held (.working i) (m.setSlot i t) (m'.setSlot i t) := by
  obtain ⟨shares, _, elsewhere⟩ := agrees
  exact ⟨shares.setSlot i t, by simp, elsewhere⟩

/-- A call that works on its slot cannot tell the two runs apart. -/
theorem Agrees.own {i : Nat} (agrees : Agrees held (.working i) m m')
    (permits : ownPermits i action) (e : Env) :
    (action.exec e m').1 = (action.exec e m).1 ∧
      Agrees held (.working i) (action.exec e m).2 (action.exec e m').2 := by
  have kept := agrees
  obtain ⟨shares, same, elsewhere⟩ := agrees
  obtain ⟨lifecycle, cursor, rings, events, clock⟩ := shares
  cases action with
  | loadState k | loadToken k | loadGeneration k | read k =>
      cases permits
      exact ⟨by simp only [Act.exec, same], kept⟩
  | storeState k | write k =>
      cases permits
      simp only [Act.exec, same, true_and]
      exact kept.store _
  | casState k expected desired =>
      cases permits
      simp only [Act.exec, same]
      split
      · exact ⟨rfl, kept.store _⟩
      · exact ⟨rfl, kept⟩
  | casToken k expected desired =>
      cases permits
      simp only [Act.exec, same, true_and]
      split
      · exact kept.store _
      · exact kept
  | protect k readWrite =>
      simp only [Act.exec, true_and]
      split
      · exact ⟨⟨lifecycle, cursor, rings, events, clock⟩, same, elsewhere⟩
      · exact kept
  | copyIn | hookSlot | hook | count | storeCursor | externalSend | generateBufferId =>
      exact ⟨rfl, ⟨lifecycle, by first | exact cursor | rfl, rings, events, clock⟩, same, elsewhere⟩
  | loadLifecycle c => exact ⟨lifecycle c, kept⟩
  | now => exact ⟨clock, kept⟩
  | loadProducer r | loadConsumer r | readDepth r | readEntry r =>
      exact ⟨by simp only [Act.exec, rings], kept⟩
  | storeProducer r | writeEntry r =>
      refine ⟨rfl, ⟨lifecycle, cursor, ?_, events, clock⟩, same, elsewhere⟩
      simp only [Act.exec, Mem.setRing, rings]
  | eventWrite r =>
      simp only [Act.exec, true_and]
      split
      · exact ⟨⟨lifecycle, cursor, rings, by simp only [events], clock⟩, same, elsewhere⟩
      · exact kept
  | _ => cases permits

theorem callNext_working {i : Nat} (action : Act β) (b : β) :
    callNext (.working i) action b = .working i := by
  cases action <;> rfl

/-- A program that works on one slot is steady. -/
theorem WorksOn.steady {i : Nat} {α : Type} {p : Prog α} {P : α → Prop} (works : WorksOn i p P) :
    p.Steady callNext Agrees (fun x a => x = .working i ∧ P a) (.working i) := by
  refine Follows.steady works (fun β action b => ⟨rfl, callNext_working action b⟩) ?_
  exact fun β action permits c s s' e agrees => agrees.own permits e

/-! A call that looks for a free slot. -/

/-- The actions beside the slots that an allocation begins and ends with. -/
theorem steady_load {α : Type} {action : Act β} {next : β → Prog α} {Q : CallMode → α → Prop}
    (answers : ∀ (e : Env) (s s' : Mem), Shares s s' → (action.exec e s').1 = (action.exec e s).1 ∧
      Shares (action.exec e s).2 (action.exec e s').2)
    (slots : ∀ (e : Env) (s : Mem), (action.exec e s).2.slots = s.slots)
    (stays : ∀ b, callNext .roving action b = .roving)
    (rest : ∀ b, (next b).Steady callNext Agrees Q .roving) :
    (Program.act action next).Steady callNext Agrees Q .roving := by
  refine steady_act ?_ stays rest
  intro held s s' e agrees
  obtain ⟨same, kept⟩ := answers e s s' agrees.shares
  refine ⟨same, kept, ?_, ?_⟩
  · simp only [exec_eq, slots]
    exact agrees.slots
  · simp only [exec_eq, slots]
    exact agrees.aside

/-- Both runs take the same step on a free slot of theirs. -/
theorem FreeAlike.both {i : Nat} {t : SlotControl} (alike : FreeAlike held m m')
    (free : (m.slots i).state = .free) :
    FreeAlike held (m.setSlot i t) (m'.setSlot i t) := by
  refine ⟨alike.shares.setSlot i t, fun k => ?_, fun k taken => ?_⟩
  · by_cases same : k = i
    · subst same
      exact .inl (by simp)
    · rw [setSlot_other same, setSlot_other same]
      exact alike.slots k
  · have other : k ≠ i := fun same => alike.aside k taken (same ▸ free)
    rw [setSlot_other other]
    exact alike.aside k taken

/-- A slot that is free in the run beside the scan is the same in both. -/
theorem FreeAlike.same {i : Nat} (alike : FreeAlike held m m')
    (free : (m.slots i).state = .free) : m'.slots i = m.slots i := by
  rcases alike.slots i with same | ⟨busy, _⟩
  · exact same
  · exact absurd free busy

/-- A slot is free in both runs or in none. -/
theorem FreeAlike.free_iff (alike : FreeAlike held m m') (i : Nat) :
    (m'.slots i).state = .free ↔ (m.slots i).state = .free := by
  rcases alike.slots i with same | ⟨busy, busy'⟩
  · rw [same]
  · exact ⟨fun free => absurd free busy', fun free => absurd free busy⟩

/-- A round of the scan ends with a slot of its own, or goes on. -/
def TryEnds (x : CallMode) (result : Option (Status × Option View)) : Prop :=
  (result = none ∧ x = .roving) ∨
    ∃ i found, result = some found ∧ x = .working i ∧ ViewOf i found

theorem allocateTry_steady (pool : Pool) (a : AllocateArgs) (epoch token : Nat) {i : Nat}
    (inside : i < u32) :
    (allocateTry pool a epoch token i).Steady callNext Agrees TryEnds .roving := by
  simp only [allocateTry, lift_bind]
  intro held s s' e alike
  simp only [exec_eq, Act.exec]
  have free_iff := FreeAlike.free_iff alike i
  by_cases free : (s.slots i).state = .free
  · have seen : callNext .roving (Act.loadState i) (s.slots i).state = .eyeing i := if_pos free
    rw [seen]
    simp only [ne_eq, free_iff, free, not_true_eq_false, if_false]
    refine ⟨⟨alike, free⟩, trivial, ?_⟩
    -- the token of the free slot
    rintro held s s' e ⟨alike, free⟩
    have same := alike.same free
    simp only [exec_eq, Act.exec, same]
    by_cases taken : (s.slots i).claimToken = 0
    · have next : callNext (.eyeing i) (Act.casToken i 0 token) (s.slots i).claimToken =
          .eyeing i := if_pos taken
      rw [next]
      simp only [taken, not_true_eq_false, if_true, if_false]
      refine ⟨⟨alike.both free, by simpa using free⟩, trivial, ?_⟩
      -- and its state
      rintro held s s' e ⟨alike, free⟩
      have same := alike.same free
      have elsewhere : held ≠ some i := fun aside => alike.aside i aside free
      simp only [exec_eq, Act.exec, same, if_pos free]
      refine ⟨⟨alike.shares.setSlot _ _, by simp, elsewhere⟩, trivial, ?_⟩
      refine steady_bind _ _ _ _ (steady_mono (allocateClaimed_works pool a epoch token inside).steady ?_)
      rintro x result ⟨rfl, made⟩
      exact .inr ⟨i, result, rfl, rfl, made⟩
    · have next : callNext (.eyeing i) (Act.casToken i 0 token) (s.slots i).claimToken =
          .roving := if_neg taken
      rw [next]
      simp only [taken, not_false_eq_true, if_true, if_false]
      exact ⟨alike, trivial, .inl ⟨rfl, rfl⟩⟩
  · have seen : callNext .roving (Act.loadState i) (s.slots i).state = .roving := if_neg free
    rw [seen]
    simp only [ne_eq, free_iff, free, not_false_eq_true, if_true]
    exact ⟨alike, trivial, .inl ⟨rfl, rfl⟩⟩

/-- An allocation ends without a buffer, or with one of the slot that it works on. -/
def AllocEnds (x : CallMode) (result : Status × Option View) : Prop :=
  ∀ v, result.2 = some v → x = .working v.slotId ∧ v.slotId = handleSlotId v.handle

theorem allocateScan_steady (pool : Pool) (a : AllocateArgs) (epoch token start left : Nat) :
    ∀ n, (allocateScan pool a epoch token start left n).Steady callNext Agrees AllocEnds
      .roving := by
  induction left with
  | zero =>
      intro n
      refine steady_load (fun e s s' shares => ⟨rfl, ?_⟩) (fun e s => rfl) (fun b => rfl) fun _ => ?_
      · exact ⟨shares.lifecycle, shares.cursor, shares.rings, shares.events, shares.clock⟩
      · exact fun v none => by cases none
  | succ left ih =>
      intro n
      refine steady_bind _ _ _ _ (steady_mono (allocateTry_steady pool a epoch token ?_) ?_)
      · calc (start + n) % u32 % pool.slotCount ≤ (start + n) % u32 := Nat.mod_le _ _
          _ < u32 := Nat.mod_lt _ (by decide)
      · rintro x result (⟨rfl, rfl⟩ | ⟨i, found, rfl, rfl, made⟩)
        · exact ih _
        · intro v some
          obtain ⟨slot, handle⟩ := made v some
          subst slot
          exact ⟨rfl, handle⟩

theorem steady_lifecycle {α : Type} {c : Nat} {next : Nat → Prog α} {Q : CallMode → α → Prop}
    (rest : ∀ b, (next b).Steady callNext Agrees Q .roving) :
    (Program.act (Act.loadLifecycle c) next).Steady callNext Agrees Q .roving :=
  steady_load (fun _ _ _ shares => ⟨shares.lifecycle c, shares⟩) (fun _ _ => rfl) (fun _ => rfl) rest

theorem bufferAllocateInternal_steady (pool : Pool) (a : AllocateArgs) (ownerEpoch : Nat) :
    (bufferAllocateInternal pool a ownerEpoch).Steady callNext Agrees AllocEnds .roving := by
  have scans : ∀ epoch token, (Program.act Act.loadCursor fun cursor =>
      allocateScan pool a epoch token (cursor % pool.slotCount) pool.slotCount 0).Steady
      callNext Agrees AllocEnds .roving := by
    intro epoch token
    refine steady_load (fun _ _ _ shares => ⟨shares.cursor, shares⟩) (fun _ _ => rfl)
      (fun _ => rfl) fun cursor => ?_
    exact allocateScan_steady pool a epoch token _ _ _
  unfold bufferAllocateInternal
  refine steady_ite (fun _ v none => by cases none) fun _ => ?_
  unfold allocateEpoch registeredEpoch
  split
  · exact scans _ _
  split
  · exact steady_lifecycle fun lifecycle => scans _ _
  · exact scans _ _

theorem bufferAlloc_steady (pool : Pool) (link : Link) (size : Nat) :
    (bufferAlloc pool link size none).Steady callNext Agrees AllocEnds .roving := by
  have allocates : ∀ current : Bool,
      (if current = false then (pure (.componentStale, none) : Prog (Status × Option View))
        else if 0 + size + 0 > pool.slotCapacity then pure (.regionOverflow, none)
        else bufferAllocateInternal pool
          { allocator := link.localComponent, parentId := 0, offset := 0, length := size,
            hopLimit := link.hopLimit, deadlineDurationNs := link.defaultDeadlineNs,
            enablePayload := true } link.localEpoch).Steady callNext Agrees AllocEnds .roving := by
    intro current
    refine steady_ite (fun _ v none => by cases none) fun _ => ?_
    refine steady_ite (fun _ v none => by cases none) fun _ => ?_
    exact bufferAllocateInternal_steady pool _ _
  unfold bufferAlloc bufferAllocEx
  refine steady_ite (fun _ v none => by cases none) fun _ => ?_
  unfold linkCurrent epochCurrent componentEpochCurrent
  split
  · split
    · exact allocates false
    · exact steady_lifecycle fun lifecycle => allocates _
  · exact allocates true

theorem sendCopy_steady (pool : Pool) (link : Link) (bytes : List Nat) :
    (sendCopy pool link bytes).Steady callNext Agrees (fun _ _ => True) .roving := by
  unfold sendCopy
  refine steady_bind _ _ _ _ (steady_mono (bufferAlloc_steady pool link bytes.length) ?_)
  rintro x ⟨status, buffer⟩ ends
  refine steady_ite (fun _ => trivial) fun _ => ?_
  cases buffer with
  | none =>
      unfold copyPayload
      split
      · exact trivial
      · exact trivial
  | some v =>
      obtain ⟨rfl, slot⟩ := ends v rfl
      refine steady_bind _ _ _ _ (steady_mono (copyPayload_confined v bytes).steady ?_)
      rintro x copied ⟨rfl, _⟩
      refine steady_ite (fun _ => trivial) fun _ => ?_
      refine steady_bind _ _ _ _ (steady_mono (send_works pool link v slot).steady ?_)
      rintro x ⟨status, buffer⟩ ⟨rfl, answer⟩
      refine steady_ite (fun _ => trivial) fun _ => ?_
      rcases answer with rfl | rfl
      · exact trivial
      refine steady_bind _ _ _ _ (steady_mono (bufferOwned_confined v).steady ?_)
      rintro x valid ⟨rfl, _⟩
      refine steady_ite (fun _ => ?_) fun _ => trivial
      refine steady_bind _ _ _ _ (steady_mono (bufferRelease_confined pool v slot).steady ?_)
      exact fun _ _ _ => trivial

end Call

/-! ## The calls of a live owner -/

inductive LiveCall where
  | isValid (v : View)
  | data (v : View)
  | size (v : View)
  | setRegion (v : View) (offset length : Nat)
  | append (v : View) (bytes : List Nat)
  | prepend (v : View) (bytes : List Nat)
  | trimFront (v : View) (length : Nat)
  | trimBack (v : View) (length : Nat)
  | send (link : Link) (v : View)
  | release (v : View)
  | sendCopy (link : Link) (bytes : List Nat)
  deriving Repr, DecidableEq

inductive LiveAnswer where
  | valid (yes : Bool)
  | pointer (offset : Option Nat)
  | length (value : Nat)
  | buffer (status : Status) (buffer : Option View)
  /-- A status, or the copy through a null pointer. -/
  | copied (status : Option Status)
  deriving Repr, DecidableEq

/-- The program of a call that answers a status and its buffer. -/
def liveBuffer (p : Prog (Status × Option View)) : Prog LiveAnswer := do
  let (status, buffer) ← p
  pure (.buffer status buffer)

namespace LiveCall

def program (pool : Pool) : LiveCall → Prog LiveAnswer
  | .isValid v => do
      let yes ← bufferIsValid (some v)
      pure (.valid yes)
  | .data v => do
      let offset ← bufferData (some v)
      pure (.pointer offset)
  | .size v => do
      let length ← bufferSize (some v)
      pure (.length length)
  | .setRegion v offset length => liveBuffer (bufferSetRegion (some v) offset length)
  | .append v bytes => liveBuffer (bufferAppend (some v) bytes)
  | .prepend v bytes => liveBuffer (bufferPrepend (some v) bytes)
  | .trimFront v length => liveBuffer (bufferTrimFront (some v) length)
  | .trimBack v length => liveBuffer (bufferTrimBack (some v) length)
  | .send link v => liveBuffer (Zipc.send pool link (some v))
  | .release v => liveBuffer (bufferRelease pool (some v))
  | .sendCopy link bytes => do
      let status ← Zipc.sendCopy pool link bytes
      pure (.copied status)

/-- The buffer that the call is made on. -/
def view : LiveCall → Option View
  | .isValid v | .data v | .size v | .setRegion v _ _ | .append v _ | .prepend v _
  | .trimFront v _ | .trimBack v _ | .send _ v | .release v => some v
  | .sendCopy _ _ => none

/-- A call on a buffer works on its slot from the start. -/
def start (call : LiveCall) : CallMode := call.view.elim .roving fun v => .working v.slotId

theorem steady {pool : Pool} {call : LiveCall}
    (slot : ∀ v, call.view = some v → v.slotId = handleSlotId v.handle) :
    (call.program pool).Steady callNext Agrees (fun _ _ => True) call.start := by
  have ends : ∀ (v : View) {α : Type} {p : Prog α} {P : α → Prop} {f : α → LiveAnswer},
      WorksOn v.slotId p P → (p >>= fun a => pure (f a)).Steady callNext Agrees
        (fun _ _ => True) (.working v.slotId) := by
    intro v α p P f works
    exact steady_bind _ _ _ _ (steady_mono works.steady fun _ _ _ => trivial)
  cases call with
  | isValid v => exact ends v (bufferOwned_confined v)
  | data v => exact ends v (bufferData_confined v)
  | size v => exact ends v (bufferSize_confined v)
  | setRegion v offset length => exact ends v (bufferSetRegion_confined v offset length)
  | append v bytes => exact ends v (bufferAppend_confined v bytes)
  | prepend v bytes => exact ends v (bufferPrepend_confined v bytes)
  | trimFront v length => exact ends v (bufferTrimFront_confined v length)
  | trimBack v length => exact ends v (bufferTrimBack_confined v length)
  | send link v => exact ends v (send_works pool link v (slot v rfl))
  | release v => exact ends v (bufferRelease_confined pool v (slot v rfl))
  | sendCopy link bytes =>
      exact steady_bind _ _ _ _ (steady_mono (sendCopy_steady pool link bytes) fun _ _ _ => trivial)

end LiveCall

theorem Agrees.refl {call : LiveCall} (m : Mem) : Agrees none call.start m m := by
  unfold LiveCall.start
  cases call.view with
  | none => exact ⟨.refl m, fun _ => .inl rfl, fun _ aside => by cases aside⟩
  | some v => exact ⟨.refl m, rfl, fun aside => by cases aside⟩

/-- A call on a buffer answers the same beside any number of `zipc_component_restart_next`
    calls as without them, in every run whose steps of the scan all spare the call. -/
theorem restart_invisible (pool : Pool) (call : LiveCall)
    (slot : ∀ v, call.view = some v → v.slotId = handleSlotId v.handle) (restart : Restart)
    (calls : Nat) (inputs : Nat → Env) (m : Mem) (answer : LiveAnswer)
    (run : Beside callNext Spares inputs (call.program pool) call.start 0
      (restartCalls pool calls restart) m answer) :
    ((call.program pool).runFrom inputs 0 m).1 = answer := by
  refine Beside.same (R := Agrees) ?_ run (LiveCall.steady slot)
    (restartCalls_scans pool calls none restart) (Agrees.refl m)
  intro held x s s' τ action e agrees permits spares
  exact agrees.scan permits spares e

/-- Component 2 has registered, and has then begun the restart of its terminated runtime,
    while component 1 owns a buffer. -/
def recoveringSession : Session :=
  (allocatedSession.run smallPool (.life (.register 1 2))).run smallPool
    (.life (.restartBegin 1 2 1))

def recoveringRestart : Restart :=
  { component := 2, deadEpoch := 1, epoch := 2, cursor := 0, scanComplete := false }

theorem recovering_reached : recoveringSession.Reached smallPool anyStep := by
  obtain ⟨start, starts, leads⟩ := allocated_reached
  have joins : allocatedSession.Step smallPool
      (allocatedSession.run smallPool (.life (.register 1 2))) :=
    Session.run_step trivial (by decide)
  have begins : (allocatedSession.run smallPool (.life (.register 1 2))).Step smallPool
      recoveringSession := Session.run_step trivial (by decide)
  exact ⟨start, starts, (leads.tail ⟨joins, trivial⟩).tail ⟨begins, trivial⟩⟩

/-- The scan that has only looked at the slot so far is not noticed. -/
theorem restart_invisible_looking :
    (((LiveCall.isValid allocatedView).program smallPool).runFrom (fun _ => default) 0
      recoveringSession.mem).1 = .valid true := by
  refine restart_invisible smallPool (.isValid allocatedView) ?_ recoveringRestart 1 _ _ _ ?_
  · rintro v ⟨⟩
    decide
  · exact .theirs default trivial <| .theirs default trivial <| .theirs default trivial <|
      .mine <| .mine <| .mine <| .mine <| .mine <| .done _ _ _ _ _

/-- The scan takes the slot of component 1 aside before it looks at its owner, and the
    buffer of component 1 is not valid in between. -/
theorem restart_noticed : ¬∀ (pool : Pool) (s : Session) (v : View) (restart : Restart)
    (call : LiveCall) (calls : Nat) (inputs : Nat → Env) (answer : LiveAnswer),
    s.Reached pool anyStep → v ∈ s.views → Valid s.mem v → restart ∈ s.restarts →
    restart.component ≠ v.owner → call.view = some v →
    Beside callNext (fun _ _ _ => True) inputs (call.program pool) call.start 0
      (restartCalls pool calls restart) s.mem answer →
    ((call.program pool).runFrom inputs 0 s.mem).1 = answer := by
  intro claim
  have probed : Beside callNext (fun _ _ _ => True) (fun _ => default)
      ((LiveCall.isValid allocatedView).program smallPool) (LiveCall.isValid allocatedView).start 0
      (restartCalls smallPool 1 recoveringRestart) recoveringSession.mem (.valid false) := by
    have run : scheduled (fun _ => default) default [false, false, false, false, true, true]
        ((LiveCall.isValid allocatedView).program smallPool) 0
        (restartCalls smallPool 1 recoveringRestart) recoveringSession.mem =
          some (.valid false) := by decide
    exact Beside.of_scheduled (fun _ _ _ => trivial) run
  have same := claim smallPool recoveringSession allocatedView recoveringRestart
    (.isValid allocatedView) 1 _ _ recovering_reached (by decide)
    ⟨by decide, by decide, by decide, by decide, by decide⟩ (by decide) (by decide) rfl probed
  revert same
  decide

end Zipc
