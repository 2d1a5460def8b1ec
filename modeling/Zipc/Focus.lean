import Zipc.Lifecycle

/-! # Calls that work on one slot

A call that runs alone touches one slot at a time. `Focused` is its weakest precondition
in terms of the core of that slot and the records passed to the trace hook, with the rest
of the memory as it was; the rules below execute the code of the slot protocol step by
step.
-/

namespace Zipc

open Atomic Program

/-- Memory `m` differs from `m₀` only in slot `i`, whose core is `c`, in the records `log`
    passed to the trace hook, and in counters and heartbeats. -/
structure Focus (m₀ : Mem) (i : Nat) (c : SlotCore) (log : List TraceRecord) (m : Mem) : Prop where
  core : m.core i = c
  others : ∀ j, j ≠ i → m.core j = m₀.core j
  hooked : m.hooked = m₀.hooked ++ log
  lifecycle : ∀ k, (m.components k).lifecycle = (m₀.components k).lifecycle
  rings : m.rings = m₀.rings
  clock : m.clock = m₀.clock

/-- A slot is published as `FREE` or `TRANSFER` only while its payload is not accessible. -/
def Guarded (pool : Pool) {β : Type} : Act β → Mem → Prop
  | .storeState i v, m => v = .free ∨ v = .transfer → pool.strict = true → m.access i = false
  | .casState _ _ v, _ => v ≠ .free ∧ v ≠ .transfer
  | _, _ => True

/-- Every environment. -/
def anyEnv : Env → Prop := fun _ => True

/-- Run alone from a memory in focus, the program publishes only guarded states, and ends
    with `R`. -/
def FocusedOn {α : Type} (good : Env → Prop) (pool : Pool) (m₀ : Mem) (i : Nat) (p : Prog α) (R : α → Mem → Prop)
    (c : SlotCore) (log : List TraceRecord) : Prop :=
  ∀ m, Focus m₀ i c log m → p.wpsIn good (Guarded pool) R m

/-- The memory is in focus, with `Q` of the slot and of the records. -/
def InFocus {α : Type} (m₀ : Mem) (i : Nat) (Q : α → SlotCore → List TraceRecord → Prop) (a : α)
    (m : Mem) : Prop :=
  ∃ c log, Focus m₀ i c log m ∧ Q a c log

/-- The program ends in focus. -/
abbrev Focused {α : Type} (good : Env → Prop) (pool : Pool) (m₀ : Mem) (i : Nat) (p : Prog α)
    (Q : α → SlotCore → List TraceRecord → Prop) (c : SlotCore) (log : List TraceRecord) : Prop :=
  FocusedOn good pool m₀ i p (InFocus m₀ i Q) c log

/-- The epoch that `registered_epoch` answers. -/
def Mem.epoch (m : Mem) (component : Nat) : Nat :=
  if componentIdValid component then epochOf (m.components component).lifecycle else 0

theorem Focus.refl (m : Mem) (i : Nat) : Focus m i (m.core i) [] m where
  core := rfl
  others := fun _ _ => rfl
  hooked := by simp
  lifecycle := fun _ => rfl
  rings := rfl
  clock := rfl

section Rules

variable {α β : Type} {good : Env → Prop} {guard pool : Pool} {m₀ : Mem} {i : Nat} {c : SlotCore}
  {log : List TraceRecord} {Q : α → SlotCore → List TraceRecord → Prop} {R : α → Mem → Prop}

theorem focused_done {a : α} (holds : Q a c log) : Focused good guard m₀ i (.done a) Q c log :=
  fun _ focus => ⟨c, log, focus, holds⟩

theorem focused_bind {p : Prog β} {f : β → Prog α}
    (first : Focused good guard m₀ i p (fun b c' log' => FocusedOn good guard m₀ i (f b) R c' log') c log) :
    FocusedOn good guard m₀ i (p >>= f) R c log := by
  intro m focus
  rw [wpsIn_bind]
  refine wpsIn_mono (first m focus) ?_
  rintro b m' ⟨c', log', focus', rest⟩
  exact rest m' focus'

theorem Focused.mono {p : Prog α} {R : α → SlotCore → List TraceRecord → Prop}
    (run : Focused good guard m₀ i p Q c log) (imp : ∀ a c' log', Q a c' log' → R a c' log') :
    Focused good guard m₀ i p R c log := by
  intro m focus
  refine wpsIn_mono (run m focus) ?_
  rintro a m' ⟨c', log', focus', holds⟩
  exact ⟨c', log', focus', imp a c' log' holds⟩

/-- An action that answers what the focus determines and stays in focus. -/
theorem focused_act {action : Act β} {next : β → Prog α} {b : β} {c' : SlotCore}
    {log' : List TraceRecord}
    (step : ∀ e m, Focus m₀ i c log m →
      (action.exec e m).1 = b ∧ Focus m₀ i c' log' (action.exec e m).2)
    (rest : FocusedOn good guard m₀ i (next b) R c' log')
    (guarded : ∀ m, Focus m₀ i c log m → Guarded guard action m) :
    FocusedOn good guard m₀ i (.act action next) R c log := by
  intro m focus
  refine ⟨guarded m focus, fun e _ => ?_⟩
  obtain ⟨answer, after⟩ := step e m focus
  rw [exec_eq, answer]
  exact rest _ after

/-- An action that stays in focus, whatever it answers. -/
theorem focused_any {action : Act β} {next : β → Prog α}
    (step : ∀ e m, Focus m₀ i c log m → Focus m₀ i c log (action.exec e m).2)
    (rest : ∀ b, FocusedOn good guard m₀ i (next b) R c log)
    (guarded : ∀ m, Focus m₀ i c log m → Guarded guard action m) :
    FocusedOn good guard m₀ i (.act action next) R c log :=
  fun m focus => ⟨guarded m focus, fun e _ => rest _ _ (step e m focus)⟩

/-- A store to the slot in focus. -/
theorem Focus.store {m : Mem} {s : SlotControl} {c' : SlotCore} (focus : Focus m₀ i c log m)
    (stored : s.core (m.access i) (m.payload i) = c') : Focus m₀ i c' log (m.setSlot i s) where
  core := by simpa [Mem.core, Mem.setSlot] using stored
  others := fun j other => by simpa [Mem.core, Mem.setSlot, other] using focus.others j other
  hooked := focus.hooked
  lifecycle := focus.lifecycle
  rings := focus.rings
  clock := focus.clock

theorem Focus.access {m : Mem} (focus : Focus m₀ i c log m) : m.access i = c.access :=
  focus.core ▸ rfl

/-! ## Loads and stores -/

theorem focused_loadState {next : SlotState → Prog α}
    (rest : FocusedOn good guard m₀ i (next c.state) R c log) :
    FocusedOn good guard m₀ i (.act (.loadState i) next) R c log :=
  focused_act (fun _ _ focus => ⟨focus.core ▸ rfl, focus⟩) rest fun _ _ => trivial

theorem focused_loadToken {next : Nat → Prog α}
    (rest : FocusedOn good guard m₀ i (next c.claimToken) R c log) :
    FocusedOn good guard m₀ i (.act (.loadToken i) next) R c log :=
  focused_act (fun _ _ focus => ⟨focus.core ▸ rfl, focus⟩) rest fun _ _ => trivial

theorem focused_loadGeneration {next : Nat → Prog α}
    (rest : FocusedOn good guard m₀ i (next c.generation) R c log) :
    FocusedOn good guard m₀ i (.act (.loadGeneration i) next) R c log :=
  focused_act (fun _ _ focus => ⟨focus.core ▸ rfl, focus⟩) rest fun _ _ => trivial

/-- A field of the core. -/
theorem focused_read {τ : Type} {field : SlotControl → τ} {next : τ → Prog α} (g : SlotCore → τ)
    (known : ∀ s access payload, field s = g (s.core access payload))
    (rest : FocusedOn good guard m₀ i (next (g c)) R c log) :
    FocusedOn good guard m₀ i (.act (.read i field) next) R c log :=
  focused_act (fun _ _ focus => ⟨(known _ _ _).trans (congrArg g focus.core), focus⟩) rest
    fun _ _ => trivial

/-- A field of the bookkeeping. -/
theorem focused_readAny {τ : Type} {field : SlotControl → τ} {next : τ → Prog α}
    (rest : ∀ a, FocusedOn good guard m₀ i (next a) R c log) :
    FocusedOn good guard m₀ i (.act (.read i field) next) R c log :=
  focused_any (fun _ _ focus => focus) rest fun _ _ => trivial

theorem focused_write {w : SlotWrite} {next : Unit → Prog α}
    (rest : FocusedOn good guard m₀ i (next ()) R (w.applyCore c) log) :
    FocusedOn good guard m₀ i (.act (.write i w) next) R c log := by
  refine focused_act (fun e m focus => ⟨rfl, focus.store ?_⟩) rest fun _ _ => trivial
  rw [w.core_apply, ← focus.core]
  rfl

theorem focused_storeState {state : SlotState} {next : Unit → Prog α}
    (hidden : state = .free ∨ state = .transfer → c.Closed guard)
    (rest : FocusedOn good guard m₀ i (next ()) R { c with state := state } log) :
    FocusedOn good guard m₀ i (.act (.storeState i state) next) R c log := by
  refine focused_act (fun e m focus => ⟨rfl, focus.store ?_⟩) rest ?_
  · rw [← focus.core]
    rfl
  · intro m focus published strict
    exact focus.access.trans (hidden published strict)

theorem focused_storeToken {token : Nat} {next : Unit → Prog α}
    (rest : FocusedOn good guard m₀ i (next ()) R { c with claimToken := token } log) :
    FocusedOn good guard m₀ i (.act (.storeToken i token) next) R c log := by
  refine focused_act (fun e m focus => ⟨rfl, focus.store ?_⟩) rest fun _ _ => trivial
  rw [← focus.core]
  rfl

/-- A compare-and-exchange that finds the expected state. -/
theorem Focus.casState {m : Mem} {expected desired : SlotState} (focus : Focus m₀ i c log m)
    (found : c.state = expected) (e : Env) :
    ((Act.casState i expected desired).exec e m).1 = true ∧
      Focus m₀ i { c with state := desired } log ((Act.casState i expected desired).exec e m).2 := by
  have state : (m.slots i).state = expected := (focus.core ▸ rfl : (m.slots i).state = c.state).trans found
  simp only [Act.exec, state, if_true, true_and]
  refine focus.store ?_
  rw [← focus.core]
  rfl

/-- The protocol takes a slot only into `CLAIMING` or `ERROR`. -/
theorem focused_casState {expected desired : SlotState} {next : Bool → Prog α}
    (taken : desired ≠ .free ∧ desired ≠ .transfer)
    (won : c.state = expected →
      FocusedOn good guard m₀ i (next true) R { c with state := desired } log)
    (lost : c.state ≠ expected → FocusedOn good guard m₀ i (next false) R c log) :
    FocusedOn good guard m₀ i (.act (.casState i expected desired) next) R c log := by
  by_cases found : c.state = expected
  · exact focused_act (fun e m focus => focus.casState found e) (won found) (fun _ _ => taken)
  · refine focused_act (fun e m focus => ?_) (lost found) (fun _ _ => taken)
    have other : (m.slots i).state ≠ expected := by
      rw [(focus.core ▸ rfl : (m.slots i).state = c.state)]
      exact found
    simp only [Act.exec, other, if_false, true_and]
    exact focus

theorem focused_casToken {expected desired : Nat} {next : Nat → Prog α}
    (hit : c.claimToken = expected →
      FocusedOn good guard m₀ i (next expected) R { c with claimToken := desired } log)
    (missed : c.claimToken ≠ expected → FocusedOn good guard m₀ i (next c.claimToken) R c log) :
    FocusedOn good guard m₀ i (.act (.casToken i expected desired) next) R c log := by
  have token {m : Mem} (focus : Focus m₀ i c log m) : (m.slots i).claimToken = c.claimToken :=
    focus.core ▸ rfl
  by_cases found : c.claimToken = expected
  · refine focused_act (fun e m focus => ?_) (hit found) fun _ _ => trivial
    simp only [Act.exec, (token focus).trans found, if_true, true_and]
    refine focus.store ?_
    rw [← focus.core]
    rfl
  · refine focused_act (fun e m focus => ?_) (missed found) fun _ _ => trivial
    simp only [Act.exec, token focus, found, if_false, true_and]
    exact focus

theorem focused_writeAll {ws : List SlotWrite} {next : Unit → Prog α}
    (rest : FocusedOn good guard m₀ i (next ()) R (c.applyAll ws) log) :
    FocusedOn good guard m₀ i (writeAll i ws >>= next) R c log := by
  induction ws generalizing c with
  | nil => exact rest
  | cons w ws ih => exact focused_write (ih rest)

/-! ## The surroundings -/

theorem focused_now {next : Nat → Prog α} (rest : FocusedOn good guard m₀ i (next m₀.clock) R c log) :
    FocusedOn good guard m₀ i (.act .now next) R c log :=
  focused_act (fun _ _ focus => ⟨focus.clock, focus⟩) rest fun _ _ => trivial

theorem focused_loadLifecycle {component : Nat} {next : Nat → Prog α}
    (rest : FocusedOn good guard m₀ i (next (m₀.components component).lifecycle) R c log) :
    FocusedOn good guard m₀ i (.act (.loadLifecycle component) next) R c log :=
  focused_act (fun _ _ focus => ⟨focus.lifecycle _, focus⟩) rest fun _ _ => trivial

/-- Counters and the allocation cursor are out of focus. -/
theorem Focus.outside {m m' : Mem} (focus : Focus m₀ i c log m)
    (slots : ∀ j, m'.core j = m.core j) (hooked : m'.hooked = m.hooked)
    (lifecycle : ∀ k, (m'.components k).lifecycle = (m.components k).lifecycle)
    (rings : m'.rings = m.rings) (clock : m'.clock = m.clock) : Focus m₀ i c log m' where
  core := (slots i).trans focus.core
  others := fun j other => (slots j).trans (focus.others j other)
  hooked := hooked.trans focus.hooked
  lifecycle := fun k => (lifecycle k).trans (focus.lifecycle k)
  rings := rings.trans focus.rings
  clock := clock.trans focus.clock

theorem focused_count {counter : Counter} {next : Unit → Prog α}
    (rest : FocusedOn good guard m₀ i (next ()) R c log) :
    FocusedOn good guard m₀ i (.act (.count counter) next) R c log :=
  focused_act (fun _ _ focus => ⟨rfl, focus.outside (fun _ => rfl) rfl (fun _ => rfl) rfl rfl⟩) rest
    fun _ _ => trivial

theorem focused_storeCursor {v : Nat} {next : Unit → Prog α}
    (rest : FocusedOn good guard m₀ i (next ()) R c log) :
    FocusedOn good guard m₀ i (.act (.storeCursor v) next) R c log :=
  focused_act (fun _ _ focus => ⟨rfl, focus.outside (fun _ => rfl) rfl (fun _ => rfl) rfl rfl⟩) rest
    fun _ _ => trivial

/-- A change of the permission for the slot in focus. -/
theorem Focus.reach {m : Mem} (focus : Focus m₀ i c log m) (readWrite : Bool) :
    Focus m₀ i { c with access := readWrite } log
      { m with access := Function.update m.access i readWrite } where
  core := by
    rw [← focus.core]
    simp [Mem.core, SlotControl.core]
  others := fun j other => by simpa [Mem.core, other] using focus.others j other
  hooked := focus.hooked
  lifecycle := focus.lifecycle
  rings := focus.rings
  clock := focus.clock

theorem focused_protect {readWrite : Bool} {next : Status → Prog α}
    (failed : ∀ e, good e → e.protect ≠ .ok → FocusedOn good guard m₀ i (next e.protect) R c log)
    (done : FocusedOn good guard m₀ i (next .ok) R { c with access := readWrite } log) :
    FocusedOn good guard m₀ i (.act (.protect i readWrite) next) R c log := by
  intro m focus
  refine ⟨trivial, fun e allowed => ?_⟩
  simp only [exec_eq, Act.exec]
  by_cases works : e.protect = .ok
  · rw [if_pos works, works]
    exact done _ (focus.reach readWrite)
  · rw [if_neg works]
    exact failed e allowed works _ focus

/-- Bytes are copied into the payload of the slot in focus. -/
theorem focused_copyIn {offset : Nat} {bytes : List Nat} {next : Unit → Prog α}
    (rest : ∀ payload, FocusedOn good guard m₀ i (next ()) R { c with payload } log) :
    FocusedOn good guard m₀ i (.act (.copyIn i offset bytes) next) R c log := by
  intro m focus
  refine ⟨trivial, fun e _ => ?_⟩
  refine rest (((Act.copyIn i offset bytes).exec e m).2.payload i) _ ?_
  refine ⟨?_, fun j other => ?_, focus.hooked, focus.lifecycle, focus.rings, focus.clock⟩
  · rw [← focus.core]
    rfl
  · simpa [Act.exec, Mem.core, other] using focus.others j other

theorem focused_hook {record : TraceRecord} {next : Unit → Prog α}
    (rest : FocusedOn good guard m₀ i (next ()) R c (log ++ [record])) :
    FocusedOn good guard m₀ i (.act (.hook record) next) R c log := by
  refine focused_act (fun e m focus => ⟨rfl, ?_⟩) rest fun _ _ => trivial
  exact ⟨focus.core, focus.others, by simp [Act.exec, focus.hooked], focus.lifecycle,
    focus.rings, focus.clock⟩

theorem focused_hookSlot {component time : Nat} {event : TraceEvent}
    {next : Unit → Prog α}
    (rest : FocusedOn good guard m₀ i (next ()) R c (log ++ [c.record pool i component event time])) :
    FocusedOn good guard m₀ i (.act (.hookSlot pool i component event time) next) R c log := by
  refine focused_act (fun e m focus => ⟨rfl, ?_⟩) rest fun _ _ => trivial
  refine ⟨focus.core, focus.others, ?_, focus.lifecycle, focus.rings, focus.clock⟩
  simp only [Act.exec, focus.hooked, ← focus.core, List.append_assoc]
  rfl

theorem focused_addRecoveredSlot {component : Nat} {next : Unit → Prog α}
    (rest : FocusedOn good guard m₀ i (next ()) R c log) :
    FocusedOn good guard m₀ i (.act (.addRecoveredSlot component) next) R c log := by
  refine focused_act (fun e m focus => ⟨rfl, focus.outside (fun _ => rfl) rfl ?_ rfl rfl⟩) rest
    fun _ _ => trivial
  intro k
  by_cases same : k = component
  · subst same
    simp [Act.exec, Mem.setComponent]
  · simp [Act.exec, Mem.setComponent, same]

/-! ## Blocks of the slot protocol -/

theorem focused_registeredEpoch {component : Nat} {next : Nat → Prog α}
    (rest : FocusedOn good guard m₀ i (next (m₀.epoch component)) R c log) :
    FocusedOn good guard m₀ i (registeredEpoch component >>= next) R c log := by
  apply focused_bind
  simp only [registeredEpoch, Mem.epoch] at rest ⊢
  split
  · rename_i valid
    rw [if_pos valid] at rest
    exact focused_loadLifecycle (focused_done rest)
  · rename_i invalid
    rw [if_neg invalid] at rest
    exact focused_done rest

theorem focused_traceSlot {component : Nat} {event : TraceEvent} {next : Unit → Prog α}
    (rest : FocusedOn good guard m₀ i (next ()) R c (log ++ [c.record pool i component event m₀.clock])) :
    FocusedOn good guard m₀ i (traceSlot pool i component event >>= next) R c log := by
  refine focused_readAny fun traced => focused_now (focused_readAny fun sequence => ?_)
  exact focused_write (focused_write (focused_hookSlot rest))

/-- The record that a rejected call without a slot passes to the hook. -/
def errorRecord (pool : Pool) (time component : Nat) : TraceRecord :=
  ⟨time, 0, 0, u32 * u32 - 1, pool.poolId, 0, component, .error⟩

@[simp] theorem errorRecord_event (pool : Pool) (time component : Nat) :
    (errorRecord pool time component).event = .error := rfl

theorem focused_recordProtocolError {component : Nat} {next : Unit → Prog α}
    (rest : FocusedOn good guard m₀ i (next ()) R c (log ++ [errorRecord pool m₀.clock component])) :
    FocusedOn good guard m₀ i (recordProtocolError pool component >>= next) R c log :=
  focused_count (focused_now (focused_hook rest))

theorem focused_recordSlotError {component : Nat} {next : Unit → Prog α}
    (rest : FocusedOn good guard m₀ i (next ()) R c (log ++ [c.record pool i component .error m₀.clock])) :
    FocusedOn good guard m₀ i (recordSlotError pool i component >>= next) R c log :=
  focused_count (focused_traceSlot rest)

/-- Page protection of the slot can fail: the pool has strict ownership, and the slot is
    outside the pool or the platform is allowed to fail. -/
def Unprotected (good : Env → Prop) (pool : Pool) (i : Nat) : Prop :=
  pool.strict = true ∧ (pool.slotCount ≤ i ∨ ∃ e, good e ∧ e.protect ≠ .ok)

theorem focused_protectSlot {readWrite : Bool} {next : Status → Prog α}
    (failed : ∀ status, status ≠ .ok → Unprotected good pool i →
      FocusedOn good guard m₀ i (next status) R c log)
    (done : ∀ access, (pool.strict = true → access = readWrite) →
      FocusedOn good guard m₀ i (next .ok) R { c with access } log) :
    FocusedOn good guard m₀ i (protectSlot pool i readWrite >>= next) R c log := by
  simp only [protectSlot]
  split
  · rename_i lax
    refine done c.access fun strict => ?_
    rw [lax] at strict
    cases strict
  rename_i strict
  rw [Bool.not_eq_false] at strict
  split
  · rename_i outside
    exact failed .invalidHandle nofun ⟨strict, .inl outside⟩
  · refine focused_protect (fun e allowed bad => ?_) (done _ fun _ => rfl)
    exact failed e.protect bad ⟨strict, .inr ⟨e, allowed, bad⟩⟩

/-- Publishing a state under the token that the slot carries. -/
theorem focused_publish {state : SlotState} {claim : Nat} {next : Unit → Prog α}
    (hidden : state = .free ∨ state = .transfer → c.Closed guard) (token : c.claimToken = claim)
    (rest : FocusedOn good guard m₀ i (next ()) R { c with state := state, claimToken := 0 } log) :
    FocusedOn good guard m₀ i (publish i state claim >>= next) R c log := by
  refine focused_storeState hidden (focused_casToken (fun _ => rest) (fun missed => ?_))
  exact absurd token missed

/-- The core of a slot after `free_claiming_slot`. -/
def SlotCore.freed (c : SlotCore) : SlotCore :=
  { c with
    state := .free
    claimToken := 0
    ownerId := invalidComponentId
    nextOwnerId := invalidComponentId
    region := ⟨0, 0⟩ }

theorem SlotCore.freed_empty (c : SlotCore) : c.freed.Empty := ⟨rfl, rfl, rfl, rfl, rfl⟩

theorem focused_freeClaimingSlot {next : Unit → Prog α} (closed : c.Closed guard)
    (rest : FocusedOn good guard m₀ i (next ()) R c.freed log) :
    FocusedOn good guard m₀ i (freeClaimingSlot i >>= next) R c log :=
  focused_loadToken (focused_bind (focused_writeAll
    (focused_publish (fun _ => closed) rfl (focused_done rest))))

theorem focused_ownedBy {owner epoch : Nat} {next : Bool → Prog α}
    (rest : FocusedOn good guard m₀ i (next (decide (c.ownerId = owner ∧ c.ownerEpoch = epoch))) R c log) :
    FocusedOn good guard m₀ i (ownedBy i owner epoch >>= next) R c log := by
  apply focused_bind
  simp only [ownedBy, lift_bind]
  refine focused_read (·.ownerId) (fun _ _ _ => rfl) ?_
  by_cases same : c.ownerId = owner
  · rw [if_neg (not_not_intro same)]
    refine focused_read (·.ownerEpoch) (fun _ _ _ => rfl) (focused_done ?_)
    simpa [same] using rest
  · rw [if_pos same]
    refine focused_done ?_
    simpa [same] using rest

/-- The view of a slot whose window lies inside it. -/
def SlotCore.view (pool : Pool) (i handle : Nat) (c : SlotCore) : View where
  handle
  slotId := i
  data := c.region.offset
  length := c.region.length
  capacity := pool.slotCapacity
  owner := c.ownerId
  ownerEpoch := c.ownerEpoch
  poolId := pool.poolId

theorem makeView_focused {handle : Nat} {Q : Except Status View → SlotCore → List TraceRecord → Prop}
    (within : c.region.Within pool.slotCapacity) (holds : Q (.ok (c.view pool i handle)) c log) :
    Focused good guard m₀ i (makeView pool i handle) Q c log := by
  obtain ⟨offset, length⟩ := within
  simp only [makeView, lift_bind]
  refine focused_read (·.region.offset) (fun _ _ _ => rfl) ?_
  refine focused_read (·.region.length) (fun _ _ _ => rfl) ?_
  rw [if_neg (by omega)]
  refine focused_read (·.ownerId) (fun _ _ _ => rfl) ?_
  exact focused_read (·.ownerEpoch) (fun _ _ _ => rfl) (focused_done holds)

theorem focused_makeView {handle : Nat} {next : Except Status View → Prog α}
    (within : c.region.Within pool.slotCapacity)
    (rest : FocusedOn good guard m₀ i (next (.ok (c.view pool i handle))) R c log) :
    FocusedOn good guard m₀ i (makeView pool i handle >>= next) R c log :=
  focused_bind (makeView_focused within rest)

/-- What the tests of `limitsExceeded` find. -/
def SlotCore.exceeded (c : SlotCore) (time : Nat) : Option Status :=
  if c.deadlineNs ≠ deadlineNone ∧ time > c.deadlineNs then some .deadline
  else if c.hopLimit = hopLimitUnlimited then none
  else if c.hopCount ≥ c.hopLimit then some .hopLimit else none

theorem focused_limitsExceeded {next : Option Status → Prog α}
    (rest : FocusedOn good guard m₀ i (next (c.exceeded m₀.clock)) R c log) :
    FocusedOn good guard m₀ i (limitsExceeded i >>= next) R c log := by
  apply focused_bind
  simp only [limitsExceeded, lift_bind, SlotCore.exceeded] at rest ⊢
  refine focused_now (focused_read (·.deadlineNs) (fun _ _ _ => rfl) ?_)
  by_cases late : c.deadlineNs ≠ deadlineNone ∧ m₀.clock > c.deadlineNs
  · rw [if_pos late] at rest ⊢
    refine focused_done ?_
    exact rest
  rw [if_neg late] at rest ⊢
  refine focused_read (·.hopLimit) (fun _ _ _ => rfl) ?_
  by_cases unlimited : c.hopLimit = hopLimitUnlimited
  · rw [if_pos unlimited] at rest ⊢
    refine focused_done ?_
    exact rest
  · rw [if_neg unlimited] at rest ⊢
    refine focused_read (·.hopCount) (fun _ _ _ => rfl) (focused_done ?_)
    exact rest

end Rules

end Zipc
