import Zipc.Lifecycle

/-! # Runs that work on one slot control

A call that holds a slot changes that slot's control and no other. The rules here follow
such a run one action at a time and keep the whole control, with the counters and trace
fields, in view. They also say what the slot looks like wherever the run is cut off.
-/

namespace Zipc

open Atomic Program

/-- Memory `m` is `m₀` with control `s` at slot `i`, up to the payload access of the slot,
counters, heartbeats, rings and hook records. -/
structure Singled (m₀ : Mem) (i : Nat) (s : SlotControl) (m : Mem) : Prop where
  slots : m.slots = Function.update m₀.slots i s
  access : ∀ j, j ≠ i → m.access j = m₀.access j
  payload : m.payload = m₀.payload
  lifecycle : ∀ k, (m.components k).lifecycle = (m₀.components k).lifecycle
  clock : m.clock = m₀.clock

/-- The memory holds some control at the slot for which `K` holds. -/
def Somewhere (m₀ : Mem) (i : Nat) (K : SlotControl → Prop) (m : Mem) : Prop :=
  ∃ s, Singled m₀ i s m ∧ K s

/-- Run alone with control `s` at slot `i`, the program ends with `Q`, and wherever it is cut
off the slot's control satisfies `K`. -/
def Alone (m₀ : Mem) (i : Nat) (K : SlotControl → Prop) {α : Type} (p : Prog α)
    (Q : α → SlotControl → Prop) (s : SlotControl) : Prop :=
  ∀ m, Singled m₀ i s m → p.wpc (fun a => Somewhere m₀ i (Q a)) (Somewhere m₀ i K) m

theorem Singled.refl (m : Mem) (i : Nat) : Singled m i (m.slots i) m where
  slots := (Function.update_eq_self i m.slots).symm
  access := fun _ _ => rfl
  payload := rfl
  lifecycle := fun _ => rfl
  clock := rfl

namespace Singled

variable {m₀ m : Mem} {i : Nat} {s : SlotControl}

theorem at_slot (single : Singled m₀ i s m) : m.slots i = s := by
  rw [single.slots, Function.update_self]

theorem other (single : Singled m₀ i s m) {j : Nat} (other : j ≠ i) : m.slots j = m₀.slots j := by
  rw [single.slots, Function.update_of_ne other]

/-- A store to the slot. -/
theorem store (single : Singled m₀ i s m) (s' : SlotControl) : Singled m₀ i s' (m.setSlot i s') where
  slots := by rw [Mem.slots_setSlot, single.slots, Function.update_idem]
  access := single.access
  payload := single.payload
  lifecycle := single.lifecycle
  clock := single.clock

theorem unchanged (single : Singled m₀ i (m₀.slots i) m) : m.slots = m₀.slots := by
  rw [single.slots, Function.update_eq_self]

end Singled

section Rules

variable {α β : Type} {m₀ : Mem} {i : Nat} {K : SlotControl → Prop} {s : SlotControl}
  {Q : α → SlotControl → Prop}

theorem alone_done {a : α} (kept : K s) (holds : Q a s) : Alone m₀ i K (.done a) Q s :=
  fun _ single => ⟨⟨s, single, kept⟩, s, single, holds⟩

theorem alone_bind {p : Prog β} {f : β → Prog α}
    (first : Alone m₀ i K p (fun b => Alone m₀ i K (f b) Q) s) : Alone m₀ i K (p >>= f) Q s := by
  intro m single
  apply wpc_bind
  refine wpc_mono (first m single) ?_ fun _ cut => cut
  rintro b m' ⟨s', single', rest⟩
  exact rest m' single'

theorem Alone.mono {p : Prog α} {R : α → SlotControl → Prop} {L : SlotControl → Prop}
    (run : Alone m₀ i K p Q s) (imp : ∀ a s', Q a s' → R a s') (cut : ∀ s', K s' → L s') :
    Alone m₀ i L p R s := by
  intro m single
  refine wpc_mono (run m single) ?_ ?_
  · rintro a m' ⟨s', single', holds⟩
    exact ⟨s', single', imp a s' holds⟩
  · rintro m' ⟨s', single', holds⟩
    exact ⟨s', single', cut s' holds⟩

/-- An action whose answer the control determines. -/
theorem alone_act {action : Act β} {next : β → Prog α} {b : β} {s' : SlotControl} (kept : K s)
    (step : ∀ e m, Singled m₀ i s m →
      (action.exec e m).1 = b ∧ Singled m₀ i s' (action.exec e m).2)
    (rest : Alone m₀ i K (next b) Q s') : Alone m₀ i K (.act action next) Q s := by
  intro m single
  refine ⟨⟨s, single, kept⟩, fun e => ?_⟩
  obtain ⟨answer, after⟩ := step e m single
  rw [exec_eq, answer]
  exact rest _ after

/-- An action that leaves the control alone, whatever it answers. -/
theorem alone_any {action : Act β} {next : β → Prog α} (kept : K s)
    (step : ∀ e m, Singled m₀ i s m → Singled m₀ i s (action.exec e m).2)
    (rest : ∀ b, Alone m₀ i K (next b) Q s) : Alone m₀ i K (.act action next) Q s :=
  fun m single => ⟨⟨s, single, kept⟩, fun e => rest _ _ (step e m single)⟩

section Actions

variable {next : β → Prog α}

theorem alone_read {field : SlotControl → β} (kept : K s) (rest : Alone m₀ i K (next (field s)) Q s) :
    Alone m₀ i K (.act (.read i field) next) Q s :=
  alone_act kept (fun _ _ single => ⟨congrArg field single.at_slot, single⟩) rest

theorem alone_loadState {next : SlotState → Prog α} (kept : K s)
    (rest : Alone m₀ i K (next s.state) Q s) : Alone m₀ i K (.act (.loadState i) next) Q s :=
  alone_act kept (fun _ _ single => ⟨congrArg SlotControl.state single.at_slot, single⟩) rest

theorem alone_loadToken {next : Nat → Prog α} (kept : K s)
    (rest : Alone m₀ i K (next s.claimToken) Q s) : Alone m₀ i K (.act (.loadToken i) next) Q s :=
  alone_act kept (fun _ _ single => ⟨congrArg SlotControl.claimToken single.at_slot, single⟩) rest

theorem alone_loadGeneration {next : Nat → Prog α} (kept : K s)
    (rest : Alone m₀ i K (next s.generation) Q s) :
    Alone m₀ i K (.act (.loadGeneration i) next) Q s :=
  alone_act kept (fun _ _ single => ⟨congrArg SlotControl.generation single.at_slot, single⟩) rest

theorem alone_write {w : SlotWrite} {next : Unit → Prog α} (kept : K s)
    (rest : Alone m₀ i K (next ()) Q (w.apply s)) : Alone m₀ i K (.act (.write i w) next) Q s := by
  refine alone_act kept (fun _ m single => ⟨rfl, ?_⟩) rest
  have stored := single.store (w.apply s)
  simpa only [Act.exec, single.at_slot] using stored

theorem alone_storeState {v : SlotState} {next : Unit → Prog α} (kept : K s)
    (rest : Alone m₀ i K (next ()) Q { s with state := v }) :
    Alone m₀ i K (.act (.storeState i v) next) Q s := by
  refine alone_act kept (fun _ m single => ⟨rfl, ?_⟩) rest
  have stored := single.store { s with state := v }
  simpa only [Act.exec, single.at_slot] using stored

theorem alone_storeToken {v : Nat} {next : Unit → Prog α} (kept : K s)
    (rest : Alone m₀ i K (next ()) Q { s with claimToken := v }) :
    Alone m₀ i K (.act (.storeToken i v) next) Q s := by
  refine alone_act kept (fun _ m single => ⟨rfl, ?_⟩) rest
  have stored := single.store { s with claimToken := v }
  simpa only [Act.exec, single.at_slot] using stored

theorem alone_casState {expected desired : SlotState} {next : Bool → Prog α} (kept : K s)
    (won : s.state = expected → Alone m₀ i K (next true) Q { s with state := desired })
    (lost : s.state ≠ expected → Alone m₀ i K (next false) Q s) :
    Alone m₀ i K (.act (.casState i expected desired) next) Q s := by
  by_cases h : s.state = expected
  · refine alone_act kept (fun _ m single => ?_) (won h)
    have stored := single.store { s with state := desired }
    simpa only [Act.exec, single.at_slot, if_pos h, true_and] using stored
  · refine alone_act kept (fun _ m single => ?_) (lost h)
    simpa only [Act.exec, single.at_slot, if_neg h, true_and] using single

theorem alone_casToken {expected desired : Nat} {next : Nat → Prog α} (kept : K s)
    (found : s.claimToken = expected →
      Alone m₀ i K (next expected) Q { s with claimToken := desired })
    (missed : s.claimToken ≠ expected → Alone m₀ i K (next s.claimToken) Q s) :
    Alone m₀ i K (.act (.casToken i expected desired) next) Q s := by
  by_cases h : s.claimToken = expected
  · refine alone_act kept (fun _ m single => ?_) (found h)
    have stored := single.store { s with claimToken := desired }
    simp only [Act.exec, single.at_slot, if_pos h]
    exact ⟨h, stored⟩
  · refine alone_act kept (fun _ m single => ?_) (missed h)
    simp only [Act.exec, single.at_slot, if_neg h]
    exact ⟨trivial, single⟩

theorem alone_now {next : Nat → Prog α} (kept : K s) (rest : Alone m₀ i K (next m₀.clock) Q s) :
    Alone m₀ i K (.act .now next) Q s :=
  alone_act kept (fun _ _ single => ⟨single.clock, single⟩) rest

theorem alone_loadLifecycle {component : Nat} {next : Nat → Prog α} (kept : K s)
    (rest : Alone m₀ i K (next (m₀.components component).lifecycle) Q s) :
    Alone m₀ i K (.act (.loadLifecycle component) next) Q s :=
  alone_act kept (fun _ _ single => ⟨single.lifecycle component, single⟩) rest

theorem alone_count {counter : Counter} {next : Unit → Prog α} (kept : K s)
    (rest : Alone m₀ i K (next ()) Q s) : Alone m₀ i K (.act (.count counter) next) Q s :=
  alone_act kept (fun _ _ single => ⟨rfl, ⟨single.slots, single.access, single.payload,
    single.lifecycle, single.clock⟩⟩) rest

theorem alone_hook {record : TraceRecord} {next : Unit → Prog α} (kept : K s)
    (rest : Alone m₀ i K (next ()) Q s) : Alone m₀ i K (.act (.hook record) next) Q s :=
  alone_act kept (fun _ _ single => ⟨rfl, ⟨single.slots, single.access, single.payload,
    single.lifecycle, single.clock⟩⟩) rest

theorem alone_hookSlot {pool : Pool} {component : Nat} {event : TraceEvent} {time : Nat}
    {next : Unit → Prog α} (kept : K s) (rest : Alone m₀ i K (next ()) Q s) :
    Alone m₀ i K (.act (.hookSlot pool i component event time) next) Q s :=
  alone_act kept (fun _ _ single => ⟨rfl, ⟨single.slots, single.access, single.payload,
    single.lifecycle, single.clock⟩⟩) rest

theorem alone_protect {readWrite : Bool} {next : Status → Prog α} (kept : K s)
    (rest : ∀ status, Alone m₀ i K (next status) Q s) :
    Alone m₀ i K (.act (.protect i readWrite) next) Q s := by
  refine alone_any kept (fun e m single => ?_) rest
  simp only [Act.exec]
  split
  · refine ⟨single.slots, fun j other => ?_, single.payload, single.lifecycle, single.clock⟩
    have same := single.access j other
    rwa [← Function.update_of_ne other readWrite m.access] at same
  · exact single

end Actions

/-! ## Blocks -/

theorem alone_registeredEpoch {component : Nat} {next : Nat → Prog α}
    (valid : componentIdValid component = true) (kept : K s)
    (rest : Alone m₀ i K (next (epochOf (m₀.components component).lifecycle)) Q s) :
    Alone m₀ i K (registeredEpoch component >>= next) Q s := by
  simp only [registeredEpoch, valid, lift_bind]
  exact alone_loadLifecycle kept rest

/-- A state is published and the claim's token is given back. -/
theorem alone_publish {state : SlotState} {claim : Nat} {next : Unit → Prog α}
    (token : s.claimToken = claim) (kept : K s) (between : K { s with state })
    (after : Alone m₀ i K (next ()) Q { s with state, claimToken := 0 }) :
    Alone m₀ i K (publish i state claim >>= next) Q s := by
  simp only [publish, clearClaimToken, lift_bind, act_bind, pure_eq, done_bind]
  refine alone_storeState kept (alone_casToken between (fun _ => after) fun missed => ?_)
  exact absurd token missed

theorem alone_recordProtocolError {pool : Pool} {component : Nat} {next : Unit → Prog α}
    (kept : K s) (rest : Alone m₀ i K (next ()) Q s) :
    Alone m₀ i K (recordProtocolError pool component >>= next) Q s := by
  simp only [recordProtocolError, lift_bind, act_bind]
  exact alone_count kept (alone_now kept (alone_hook kept rest))

/-- The control after `trace_slot`. -/
def SlotControl.traced (s : SlotControl) (time component : Nat) (event : TraceEvent) :
    SlotControl :=
  { s with
    trace := Function.update s.trace (Fin.ofNat 8 s.traceCount)
      ⟨time, s.transferSequence, component, event⟩
    traceCount := (s.traceCount + 1) % u32 }

theorem alone_traceSlot {pool : Pool} {component : Nat} {event : TraceEvent}
    {next : Unit → Prog α} (kept : K s)
    (between : K { s with trace := (s.traced m₀.clock component event).trace })
    (after : K (s.traced m₀.clock component event))
    (rest : Alone m₀ i K (next ()) Q (s.traced m₀.clock component event)) :
    Alone m₀ i K (traceSlot pool i component event >>= next) Q s := by
  simp only [traceSlot, lift_bind, act_bind]
  refine alone_read kept (alone_now kept (alone_read kept ?_))
  exact alone_write kept (alone_write between (alone_hookSlot after rest))

/-- Page protection answers any status in a strict pool, and succeeds in others. -/
theorem alone_protectSlot {pool : Pool} {readWrite : Bool} {next : Status → Prog α} (kept : K s)
    (failed : pool.strict = true → ∀ status, status ≠ .ok → Alone m₀ i K (next status) Q s)
    (granted : Alone m₀ i K (next .ok) Q s) :
    Alone m₀ i K (protectSlot pool i readWrite >>= next) Q s := by
  have both (strict : pool.strict = true) (status : Status) : Alone m₀ i K (next status) Q s := by
    by_cases ok : status = .ok
    · rw [ok]
      exact granted
    · exact failed strict status ok
  unfold protectSlot
  split
  · exact granted
  · rename_i strict
    simp only [Bool.not_eq_false] at strict
    split
    · exact both strict _
    · exact alone_protect kept (both strict)

theorem alone_makeView {pool : Pool} {handle : Nat} {next : Except Status View → Prog α}
    (region : s.region.Within pool.slotCapacity) (kept : K s)
    (rest : ∀ v, v.slotId = i → Alone m₀ i K (next (.ok v)) Q s) :
    Alone m₀ i K (makeView pool i handle >>= next) Q s := by
  have fits : ¬ (s.region.offset > pool.slotCapacity ∨
      s.region.length > pool.slotCapacity - s.region.offset) := by
    unfold Region.Within at region
    omega
  simp only [makeView, lift_bind, act_bind]
  refine alone_read kept (alone_read kept ?_)
  simp only [if_neg fits, act_bind, pure_eq, done_bind]
  exact alone_read kept (alone_read kept (rest _ rfl))

end Rules

/-! ## Frames -/

/-- Actions that change no slot but `i`, and no payload, lifecycle or clock. -/
def Act.spares (i : Nat) {β : Type} : Act β → Prop
  | .storeState k _ | .casState k _ _ | .storeToken k _ | .casToken k _ _ | .write k _
  | .protect k _ => k = i
  | .copyIn _ _ _ | .tick _ | .casLifecycle _ _ _ _ => False
  | _ => True

/-- Every action of the program spares the other slots. -/
def Only (i : Nat) {α : Type} : Prog α → Prop
  | .done _ => True
  | .act action next => action.spares i ∧ ∀ b, Only i (next b)

/-- What a run that works on slot `i` leaves alone. -/
structure Spared (i : Nat) (m m' : Mem) : Prop where
  slots : ∀ j, j ≠ i → m'.slots j = m.slots j
  access : ∀ j, j ≠ i → m'.access j = m.access j
  payload : m'.payload = m.payload
  lifecycle : ∀ k, (m'.components k).lifecycle = (m.components k).lifecycle
  clock : m'.clock = m.clock

theorem Spared.refl (i : Nat) (m : Mem) : Spared i m m :=
  ⟨fun _ _ => rfl, fun _ _ => rfl, rfl, fun _ => rfl, rfl⟩

theorem Spared.trans {i : Nat} {m m' m'' : Mem} (first : Spared i m m') (second : Spared i m' m'') :
    Spared i m m'' where
  slots j other := (second.slots j other).trans (first.slots j other)
  access j other := (second.access j other).trans (first.access j other)
  payload := second.payload.trans first.payload
  lifecycle k := (second.lifecycle k).trans (first.lifecycle k)
  clock := second.clock.trans first.clock

theorem spared_setSlot (i : Nat) (m : Mem) (s : SlotControl) : Spared i m (m.setSlot i s) where
  slots j other := by rw [Mem.slots_setSlot, Function.update_of_ne other]
  access _ _ := rfl
  payload := rfl
  lifecycle _ := rfl
  clock := rfl

theorem spared_setComponent (i : Nat) {m : Mem} {k : Nat} {status : ComponentStatus}
    (same : status.lifecycle = (m.components k).lifecycle) : Spared i m (m.setComponent k status) where
  slots _ _ := rfl
  access _ _ := rfl
  payload := rfl
  lifecycle j := by
    simp only [Mem.setComponent]
    by_cases here : j = k
    · rw [here, Function.update_self, same]
    · rw [Function.update_of_ne here]
  clock := rfl

theorem Act.spares.spared {i : Nat} {β : Type} {action : Act β} (spares : action.spares i) (e : Env)
    (m : Mem) : Spared i m (action.exec e m).2 := by
  have same : Spared i m m := .refl i m
  cases action <;> simp only [Act.spares] at spares
  case storeState | storeToken | write => exact spares ▸ spared_setSlot _ m _
  case casState =>
    simp only [Act.exec]
    split
    · exact spares ▸ spared_setSlot _ m _
    · exact same
  case casToken =>
    simp only [Act.exec]
    split
    · exact spares ▸ spared_setSlot _ m _
    · exact same
  case storeHeartbeat | addRecoveredSlot => exact spared_setComponent i rfl
  case protect =>
    simp only [Act.exec]
    split
    · subst spares
      exact ⟨same.slots, fun j other => Function.update_of_ne other _ _, rfl, same.lifecycle, rfl⟩
    · exact same
  case eventRead =>
    simp only [Act.exec]
    split
    · exact same
    · split
      · exact same
      · exact ⟨same.slots, same.access, rfl, same.lifecycle, rfl⟩
  case eventWrite =>
    simp only [Act.exec]
    split
    · exact ⟨same.slots, same.access, rfl, same.lifecycle, rfl⟩
    · exact same
  all_goals exact ⟨same.slots, same.access, rfl, same.lifecycle, rfl⟩

theorem Only.spared {i : Nat} {α : Type} {p : Prog α} {m m' : Mem} {a : α} (only : Only i p)
    (run : Completes p m a m') : Spared i m m' := by
  induction run with
  | done a m => exact .refl i m
  | act e _ ih => exact (only.1.spared e _).trans (ih (only.2 _))

theorem only_act {i : Nat} {α β : Type} {action : Act β} {next : β → Prog α}
    (spares : action.spares i) (rest : ∀ b, Only i (next b)) : Only i (.act action next) :=
  ⟨spares, rest⟩

theorem Only.bind {i : Nat} {α β : Type} {p : Prog β} {f : β → Prog α} (first : Only i p)
    (rest : ∀ b, Only i (f b)) : Only i (p >>= f) := by
  induction p with
  | done b => exact rest b
  | act action next ih => exact ⟨first.1, fun b => ih b (first.2 b)⟩

section Frames

variable {pool : Pool} {i : Nat}

theorem protectSlot_only (readWrite : Bool) : Only i (protectSlot pool i readWrite) := by
  unfold protectSlot
  split
  · trivial
  split
  · trivial
  · exact ⟨rfl, fun _ => trivial⟩

theorem traceSlot_only (component : Nat) (event : TraceEvent) :
    Only i (traceSlot pool i component event) :=
  ⟨trivial, fun _ => ⟨trivial, fun _ => ⟨trivial, fun _ => ⟨rfl, fun _ => ⟨rfl, fun _ =>
    ⟨trivial, fun _ => trivial⟩⟩⟩⟩⟩⟩

theorem publish_only (state : SlotState) (claim : Nat) : Only i (publish i state claim) :=
  ⟨rfl, fun _ => ⟨rfl, fun _ => trivial⟩⟩

theorem ownedBy_only (owner epoch : Nat) : Only i (ownedBy i owner epoch) := by
  simp only [ownedBy, lift_bind]
  refine ⟨trivial, fun id => ?_⟩
  dsimp only
  split
  · trivial
  · exact ⟨trivial, fun _ => trivial⟩

end Frames

/-- What a run that works on one slot leaves there. -/
theorem Alone.completes {α : Type} {p : Prog α} {i : Nat} {s : SlotControl}
    {Q : α → SlotControl → Prop} {m m' : Mem} {a : α} (run : Completes p m a m')
    (at' : m.slots i = s) (alone : Alone m i (fun _ => True) p Q s) : Q a (m'.slots i) := by
  subst at'
  obtain ⟨s', single, holds⟩ := run.sound (alone m (.refl m i)).wp
  rwa [single.at_slot]

/-! ## Claim -/

/-- What `zipc_buffer_claim` asks of the message, the receiver and the slot. -/
structure Claimable (pool : Pool) (clock : Nat) (s : SlotControl) (message : Message)
    (receiver : Nat) : Prop where
  valid : componentIdValid receiver = true
  home : message.poolId = pool.poolId
  destination : message.destinationComponent = receiver
  inside : handleSlotId message.handle < pool.slotCount
  state : s.state = .transfer
  generation : s.generation = handleGeneration message.handle
  source : s.ownerId = message.sourceComponent
  next : s.nextOwnerId = receiver
  sequence : s.transferSequence = message.transferSequence
  timely : s.deadlineNs = deadlineNone ∨ clock ≤ s.deadlineNs
  hops : s.hopLimit = hopLimitUnlimited ∨ s.hopCount < s.hopLimit

/-- The control of a transfer that was taken over. -/
def SlotControl.receivedBy (s : SlotControl) (receiver epoch time : Nat) : SlotControl :=
  { s with
    state := .owned
    ownerId := receiver
    nextOwnerId := invalidComponentId
    ownerEpoch := epoch
    hopCount := (s.transferHopCount + 1) % u32
    visited := s.visited.add receiver
    acquiredNs := time }

section Claim

variable {pool : Pool} {m₀ : Mem} {i : Nat} {s : SlotControl} {message : Message}
  {receiver claim epoch : Nat}

/-- A rejected claim puts the slot back as it was. -/
theorem claimReject_alone {status : Status} {Q : Status × Option View → SlotControl → Prop}
    (state : s.state = .transfer) (token : s.claimToken = 0) (rejected : Q (status, none) s) :
    Alone m₀ i (fun _ => True) (claimReject pool i receiver claim status) Q
      { s with state := .claiming, claimToken := claim } := by
  apply alone_publish rfl trivial trivial
  apply alone_recordProtocolError trivial
  apply alone_done trivial
  have back : { s with state := SlotState.transfer, claimToken := 0 } = s := by
    rw [← state, ← token]
  rw [back]
  exact rejected

/-- Without page protection a transfer that passed the checks is always taken over. -/
theorem claimAccept_alone {time : Nat} (lax : pool.strict = false) (token : s.claimToken = 0)
    (region : s.region.Within pool.slotCapacity) :
    Alone m₀ i (fun _ => True) (claimAccept pool message i receiver epoch time claim)
      (fun result s' => result.1 = .ok ∧
        s' = (s.receivedBy receiver epoch time).traced m₀.clock receiver .receive)
      { s with state := .claiming, claimToken := claim } := by
  simp only [claimAccept, lift_bind]
  refine alone_write trivial (alone_write trivial (alone_write trivial (alone_read trivial ?_)))
  refine alone_write trivial (alone_read trivial (alone_write trivial (alone_write trivial ?_)))
  apply alone_protectSlot trivial
  · intro strict
    rw [lax] at strict
    cases strict
  · rw [if_neg (not_not_intro rfl)]
    refine alone_makeView region trivial fun v _ => ?_
    refine alone_traceSlot trivial trivial trivial ?_
    refine alone_publish rfl trivial trivial (alone_done trivial ⟨rfl, ?_⟩)
    simp only [SlotControl.traced, SlotControl.receivedBy, SlotWrite.apply, ← token]

/-- How a claim without page protection ends. -/
def ClaimSettles (pool : Pool) (m₀ : Mem) (s : SlotControl) (message : Message) (receiver : Nat)
    (result : Status × Option View) (s' : SlotControl) : Prop :=
  (result.1 = .ok ∧ Claimable pool m₀.clock s message receiver ∧
    s' = (s.receivedBy receiver (epochOf (m₀.components receiver).lifecycle) m₀.clock).traced
      m₀.clock receiver .receive) ∨
  (result.1 ≠ .ok ∧ ¬ Claimable pool m₀.clock s message receiver ∧ s' = s)

theorem claimClaimed_alone (lax : pool.strict = false) (token : s.claimToken = 0)
    (region : s.region.Within pool.slotCapacity) (valid : componentIdValid receiver = true)
    (home : message.poolId = pool.poolId) (destination : message.destinationComponent = receiver)
    (inside : handleSlotId message.handle < pool.slotCount) (state : s.state = .transfer) :
    Alone m₀ i (fun _ => True)
      (claimClaimed pool message i receiver (epochOf (m₀.components receiver).lifecycle) claim)
      (ClaimSettles pool m₀ s message receiver)
      { s with state := .claiming, claimToken := claim } := by
  have refused {status : Status} (bad : status ≠ .ok)
      (no : ¬ Claimable pool m₀.clock s message receiver) :
      Alone m₀ i (fun _ => True) (claimReject pool i receiver claim status)
        (ClaimSettles pool m₀ s message receiver)
        { s with state := .claiming, claimToken := claim } :=
    claimReject_alone state token (.inr ⟨bad, no, rfl⟩)
  simp only [claimClaimed, lift_bind]
  apply alone_loadGeneration trivial
  split
  · rename_i stale
    exact refused (by decide) fun claimable => stale claimable.generation
  rename_i generation
  refine alone_read trivial (alone_read trivial ?_)
  split
  · rename_i stranger
    refine refused (by decide) fun claimable => ?_
    rcases stranger with other | other
    · exact other claimable.source
    · exact other claimable.next
  rename_i addressed
  apply alone_read trivial
  split
  · rename_i other
    exact refused (by decide) fun claimable => other claimable.sequence
  rename_i sequence
  refine alone_now trivial (alone_read trivial ?_)
  split
  · rename_i late
    refine refused (by decide) fun claimable => ?_
    rcases claimable.timely with none | early
    · exact late.1 none
    · exact absurd early (Nat.not_le.mpr late.2)
  rename_i timely
  refine alone_read trivial (alone_read trivial ?_)
  split
  · rename_i far
    refine refused (by decide) fun claimable => ?_
    rcases claimable.hops with unlimited | below
    · exact far.1 unlimited
    · exact absurd below (Nat.not_lt.mpr far.2)
  rename_i near
  simp only [not_or, not_not, ne_eq] at generation addressed sequence
  simp only [not_and, ne_eq, gt_iff_lt, ge_iff_le, Nat.not_lt, Nat.not_le] at timely near
  refine (claimAccept_alone lax token region).mono ?_ fun _ kept => kept
  rintro result s' ⟨ok, rfl⟩
  refine .inl ⟨ok, ⟨valid, home, destination, inside, state, generation, addressed.1, addressed.2,
    sequence, ?_, ?_⟩, rfl⟩
  · by_cases none : s.deadlineNs = deadlineNone
    · exact .inl none
    · exact .inr (timely none)
  · by_cases unlimited : s.hopLimit = hopLimitUnlimited
    · exact .inl unlimited
    · exact .inr (near unlimited)

/-- A claim on a pool without page protection accepts exactly the claimable transfer, and
leaves the control as it was when it rejects. -/
theorem claim_alone (lax : pool.strict = false)
    (settled : handleSlotId message.handle < pool.slotCount → s.state = .transfer →
      s.claimToken = 0 ∧ s.region.Within pool.slotCapacity) :
    Alone m₀ (handleSlotId message.handle) (fun _ => True) (bufferClaim pool message receiver)
      (ClaimSettles pool m₀ s message receiver) s := by
  have refused {status : Status} (bad : status ≠ .ok)
      (no : ¬ Claimable pool m₀.clock s message receiver) :
      Alone m₀ (handleSlotId message.handle) (fun _ => True)
        (recordProtocolError pool receiver >>= fun _ => pure (status, none))
        (ClaimSettles pool m₀ s message receiver) s :=
    alone_recordProtocolError trivial (alone_done trivial (.inr ⟨bad, no, rfl⟩))
  unfold bufferClaim
  split
  · rename_i invalid
    refine alone_done trivial (.inr ⟨by decide, fun claimable => ?_, rfl⟩)
    rw [claimable.valid] at invalid
    cases invalid
  rename_i valid
  split
  · rename_i foreign
    exact refused (by decide) fun claimable => foreign claimable.home
  rename_i home
  split
  · rename_i other
    exact refused (by decide) fun claimable => other claimable.destination
  rename_i destination
  split
  · rename_i outside
    exact refused (by decide) fun claimable => absurd claimable.inside (Nat.not_lt.mpr outside)
  rename_i inside
  simp only [Bool.not_eq_false, not_not, ne_eq, Nat.not_le] at valid home destination inside
  simp only [lift_bind]
  apply alone_loadState trivial
  split
  · rename_i state
    exact refused (by decide) fun claimable => state claimable.state
  rename_i state
  simp only [not_not, ne_eq] at state
  obtain ⟨token, region⟩ := settled inside state
  apply alone_registeredEpoch valid trivial
  simp only [claimAcquire, lift_bind, act_bind]
  refine alone_casToken trivial (fun _ => ?_) fun missed => absurd token missed
  simp only [if_true, pure_eq, done_bind, Bool.true_eq_false, if_false]
  refine alone_casState trivial (fun _ => ?_) fun lost => absurd state lost
  exact claimClaimed_alone lax token region valid home destination inside state

end Claim

end Zipc
