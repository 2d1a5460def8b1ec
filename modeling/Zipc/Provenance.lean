import Zipc.EndToEnd
import Zipc.Ledger

/-! # Where a buffer comes from

A slot that holds a buffer says where the buffer has been: its hop count and its visited
set repeat the `RECEIVE` records that the slot passed to the trace hook since the buffer
was allocated. They do so in every run of complete calls, over sends that are rolled back,
restarts that adopt the slot and recoveries of other slots, until the slot is free again.
-/

namespace Zipc

open Atomic Program

/-- The components that received slot `i`, in the order of the records. -/
def receivers (i : Nat) (log : List TraceRecord) : List Nat :=
  ((received log).filter fun r => handleSlotId r.handle = i).map (·.componentId)

theorem receivers_append (i : Nat) (before log : List TraceRecord) :
    receivers i (before ++ log) = receivers i before ++ receivers i log := by
  simp only [receivers, received_append, List.filter_append, List.map_append]

theorem receivers_of_received {i : Nat} {log : List TraceRecord} (none : received log = []) :
    receivers i log = [] := by
  rw [receivers, none]
  rfl

theorem Quiet.receivers {log : List TraceRecord} (quiet : Quiet log) (i : Nat) :
    receivers i log = [] := by
  refine receivers_of_received ?_
  rw [received, List.filter_eq_nil_iff]
  intro r member
  simpa using (quiet r member).2

/-- The slot holds the buffer that `first` allocated and that `holders` received one after
    the other. -/
structure Travelled (identity : Identity) (first : Nat) (holders : List Nat) (c : SlotCore) :
    Prop where
  identity : c.identity = identity
  owner : c.ownerId = holders.getLastD first
  hopCount : c.hopCount = (1 + holders.length) % u32
  visited : ∀ k, c.visited.test k = true ↔ k = first ∨ k ∈ holders

/-! ## One step -/

section Steps

variable {pool : Pool} {reach : Reach} {retired : Nat → Nat → Prop} {i : Nat} {c c' : SlotCore}
  {log : List TraceRecord} {identity : Identity} {first : Nat} {holders : List Nat}
  {m m' : Mem}

theorem VisitedSet.test_empty (k : Nat) : VisitedSet.empty.test k = false := by
  simp [VisitedSet.test, VisitedSet.empty]

/-- A slot that has just been allocated. -/
theorem Travelled.allocated (holds : c.Holds pool) (hopCount : c.hopCount = 1)
    (visited : c.visited = VisitedSet.empty.add c.ownerId) :
    Travelled c.identity c.ownerId [] c := by
  refine ⟨rfl, rfl, hopCount, fun k => ?_⟩
  rw [visited, VisitedSet.test_add _ _ holds.owner, VisitedSet.test_empty]
  simp

theorem Travelled.same (path : Travelled identity first holders c)
    (same : c'.identity = c.identity ∧ c'.ownerId = c.ownerId ∧ c'.hopCount = c.hopCount ∧
      c'.visited = c.visited) : Travelled identity first holders c' := by
  obtain ⟨identities, owner, hopCount, visited⟩ := same
  refine ⟨identities.trans path.identity, owner.trans path.owner, hopCount.trans path.hopCount,
    fun k => ?_⟩
  rw [visited]
  exact path.visited k

/-- A receive adds the next owner to the holders. -/
theorem Travelled.received (path : Travelled identity first holders c) (sends : c.Sends)
    (epoch time : Nat) :
    Travelled identity first (holders ++ [c.nextOwnerId]) (c.received epoch time) := by
  refine ⟨path.identity, ?_, ?_, fun k => ?_⟩
  · simp [SlotCore.received]
  · have next : (c.received epoch time).hopCount = (c.hopCount + 1) % u32 := by
      rw [SlotCore.received, sends.hopCount]
    rw [next, path.hopCount, List.length_append, List.length_singleton, Nat.mod_add_mod,
      Nat.add_assoc]
  · have added : (c.received epoch time).visited = c.visited.add c.nextOwnerId := rfl
    rw [added, VisitedSet.test_add _ _ sends.next, path.visited, List.mem_append,
      List.mem_singleton]
    tauto

/-- A step of a slot that holds a buffer empties it, or adds the receivers that it records. -/
theorem SlotLife.travelled (life : SlotLife pool retired i c c' log) (inside : i < u32)
    (well : SlotWell pool c) (live : c.state ≠ .free) (path : Travelled identity first holders c) :
    c'.state = .free ∨ Travelled identity first (holders ++ receivers i log) c' := by
  have quietly (quiet : Quiet log) (same : c'.identity = c.identity ∧ c'.ownerId = c.ownerId ∧
      c'.hopCount = c.hopCount ∧ c'.visited = c.visited) :
      Travelled identity first (holders ++ receivers i log) c' := by
    rw [quiet.receivers i, List.append_nil]
    exact path.same same
  cases life with
  | allocate free => exact absurd free live
  | refuse free => exact absurd free live
  | free empty => exact .inl empty.state
  | save _ quiet | window _ _ quiet | limit _ quiet | rollback _ _ quiet
  | repair _ _ quiet | adopt _ _ _ quiet | retake _ _ _ quiet | stick _ _ _ quiet =>
      exact .inr (quietly quiet ⟨rfl, rfl, rfl, rfl⟩)
  | send =>
      rw [receivers_of_received rfl, List.append_nil]
      exact .inr (path.same ⟨rfl, rfl, rfl, rfl⟩)
  | @receive epoch time access transfer =>
      have sends := well.2.2
      simp only [transfer] at sends
      have one : receivers i [(c.received epoch time).record pool i c.nextOwnerId .receive time] =
          [c.nextOwnerId] := by
        simp [receivers, Zipc.received, SlotCore.record, handleSlotId_make inside]
      rw [one]
      exact .inr ((path.received sends.2.2 epoch time).same ⟨rfl, rfl, rfl, rfl⟩)

/-- The records of a step of one slot report no receiver of another. -/
theorem SlotLife.receivers_other {j : Nat} (life : SlotLife pool retired j c c' log)
    (inside : j < u32) (other : i ≠ j) : receivers i log = [] := by
  rcases life.receives with none | ⟨_, _, _, _, _, component, time, rfl⟩
  · exact receivers_of_received none
  · simp [receivers, Zipc.received, SlotCore.record, handleSlotId_make inside, Ne.symm other]

theorem PoolStep.travelled (step : PoolStep pool reach m m') (well : PoolWell pool m)
    (inside : i < pool.slotCount) (live : (m.core i).state ≠ .free)
    (path : Travelled identity first holders (m.core i)) :
    ∃ log, m'.hooked = m.hooked ++ log ∧ ((m'.core i).state = .free ∨
      Travelled identity first (holders ++ receivers i log) (m'.core i)) := by
  cases step with
  | @still log same hooked quiet =>
      refine ⟨log, hooked, .inr ?_⟩
      rw [same i, quiet.receivers i, List.append_nil]
      exact path
  | @life j log place _ life others hooked =>
      have small : j < u32 := lt_trans place pool.slotCount_lt
      refine ⟨log, hooked, ?_⟩
      by_cases here : i = j
      · subst here
        exact life.travelled small (well i inside) live path
      · rw [others i here, life.receivers_other small here, List.append_nil]
        exact .inr path

end Steps

/-! ## One call -/

section Calls

variable {pool : Pool} {reach : Reach} {i : Nat} {identity : Identity} {first : Nat}
  {holders : List Nat} {m m' : Mem} {s s' : Session}

/-- A call works on free slots only, or on no free slot. -/
def Reach.Splits (reach : Reach) : Prop :=
  (∀ i c, reach.slot i c → c.state = .free) ∨ ∀ i c, reach.slot i c → c.state ≠ .free

theorem ownerReach_splits (owner : Nat) : (ownerReach owner).Splits :=
  .inr fun _ _ near => by simp [near.1]

theorem ApiCall.splits (call : ApiCall) : call.reach.Splits := by
  have nowhere : noReach.Splits := .inl fun _ _ near => near.elim
  have optional (buffer : Option View) :
      (buffer.elim noReach fun v => ownerReach v.owner).Splits := by
    cases buffer with
    | none => exact nowhere
    | some v => exact ownerReach_splits v.owner
  cases call with
  | life | heartbeat | linkCreate | fromHandle => exact nowhere
  | allocate | allocEx => exact .inl fun _ _ free => free
  | setRegion buffer | append buffer | prepend buffer | trimFront buffer | trimBack buffer
  | resize buffer | setLimits buffer | release buffer | put _ buffer => exact optional buffer
  | prepareTransfer _ owner | poolRelease _ owner => exact ownerReach_splits owner
  | send | restartNext | recoverOwner | reconcile => exact .inr fun _ _ near => near.1
  | claim | recv => exact .inr fun _ _ near => by simp [near.1]
  | recoverClaiming => exact .inr fun _ _ near => by rw [near]; simp

/-- Within a call that touches no free slot an empty slot stays empty. -/
theorem Advances.empty (step : Advances pool reach m m')
    (busy : ∀ i c, reach.slot i c → c.state ≠ .free) (free : (m.core i).state = .free) :
    (m'.core i).state = .free := by
  cases step.step with
  | still same => rw [same i, free]
  | @life j log _ near _ others _ =>
      have other : i ≠ j := by
        rintro rfl
        exact busy _ _ near free
      rw [others i other, free]

/-- A slot that holds a buffer before and after a call holds the same buffer. -/
theorem Lives.travelled (lives : Lives pool reach m m') (splits : reach.Splits)
    (well : PoolWell pool m) (inside : i < pool.slotCount) (live : (m.core i).state ≠ .free)
    (path : Travelled identity first holders (m.core i)) :
    ∃ log, m'.hooked = m.hooked ++ log ∧ ((m'.core i).state ≠ .free →
      Travelled identity first (holders ++ receivers i log) (m'.core i)) := by
  -- what holds after each step of the call
  let follows (a : Mem) : Prop := PoolWell pool a ∧ ∃ log, a.hooked = m.hooked ++ log ∧
    ((a.core i).state ≠ .free → Travelled identity first (holders ++ receivers i log) (a.core i))
  have start : follows m := by
    refine ⟨well, [], (List.append_nil _).symm, fun _ => ?_⟩
    simpa [receivers, received] using path
  have advance {a b : Mem} (step : Advances pool reach a b)
      (stays : (a.core i).state = .free → (b.core i).state = .free) (before : follows a) :
      follows b := by
    obtain ⟨sound, log, hooked, kept⟩ := before
    refine ⟨step.step.well sound, ?_⟩
    by_cases empty : (a.core i).state = .free
    · have still := stays empty
      have more : ∃ new, b.hooked = a.hooked ++ new := by
        cases step.step with
        | still _ hooked' _ => exact ⟨_, hooked'⟩
        | life _ _ _ _ hooked' => exact ⟨_, hooked'⟩
      obtain ⟨new, hooked'⟩ := more
      refine ⟨log ++ new, ?_, fun busy => absurd still busy⟩
      rw [hooked', hooked, List.append_assoc]
    · obtain ⟨new, hooked', next⟩ := step.step.travelled sound inside empty (kept empty)
      refine ⟨log ++ new, ?_, fun busy => ?_⟩
      · rw [hooked', hooked, List.append_assoc]
      · rw [receivers_append, ← List.append_assoc]
        exact next.resolve_left busy
  have ends : follows m' := by
    rcases splits with free | busy
    · -- no step of an allocation is about this slot
      have both := lives.preserve (P := fun a => a.core i = m.core i ∧ follows a)
        (fun a b step before => ?_) ⟨rfl, start⟩
      · exact both.2
      have same : b.core i = a.core i := by
        cases step.step with
        | still same => exact same i
        | @life j log _ near _ others _ =>
            refine others i ?_
            rintro rfl
            rw [before.1] at near
            exact live (free _ _ near)
      exact ⟨same.trans before.1, advance step (fun empty => same ▸ empty) before.2⟩
    · exact lives.preserve (fun a b step => advance step (step.empty busy)) start
  exact ends.2

/-- A step that takes an empty slot into use allocates it. -/
theorem SlotLife.allocates {retired : Nat → Nat → Prop} {c c' : SlotCore} {log : List TraceRecord}
    (life : SlotLife pool retired i c c' log) (empty : c.state = .free) :
    c'.state = .free ∨ Travelled c'.identity c'.ownerId [] c' := by
  cases life with
  | save => exact .inl empty
  | allocate _ _ _ _ holds _ _ hopCount visited => exact .inr (.allocated holds hopCount visited)
  | refuse _ emptied => exact .inl emptied.state
  | free emptied => exact .inl emptied.state
  | window other | limit other | send other | receive other | rollback other | stick other
  | repair other | adopt other | retake other =>
      rw [empty] at other
      cases other

/-- A slot that a call took into use holds a buffer that nobody has received yet. -/
theorem Lives.allocated (lives : Lives pool reach m m') (splits : reach.Splits)
    (empty : (m.core i).state = .free) (taken : (m'.core i).state ≠ .free) :
    Travelled (m'.core i).identity (m'.core i).ownerId [] (m'.core i) := by
  rcases splits with free | busy
  · have ends := lives.preserve (P := fun a => (a.core i).state = .free ∨
      Travelled (a.core i).identity (a.core i).ownerId [] (a.core i)) ?_ (.inl empty)
    · exact ends.resolve_left taken
    intro a b step before
    cases step.step with
    | still same =>
        rw [same i]
        exact before
    | @life j log _ near life others _ =>
        by_cases here : i = j
        · subst here
          exact life.allocates (free _ _ near)
        · rw [others i here]
          exact before
  · have still := lives.preserve (P := fun a => (a.core i).state = .free)
      (fun a b step => step.empty busy) empty
    exact absurd still taken

/-- What happens in one step of a session is within a reach that splits. -/
theorem Session.Step.splits (step : s.Step pool s') (well : SessionWell pool s) :
    ∃ reach : Reach, reach.Splits ∧ Lives pool reach s.mem s'.mem := by
  cases step with
  | @call call outcome m legal run =>
      exact ⟨_, call.splits, (run.sound (ApiCall.delivers well legal).wp).lives⟩
  | @fill v bytes known valid =>
      exact ⟨_, ownerReach_splits v.owner,
        (fill_settles (well.views v known) well.slots valid bytes).lives⟩
  | tick clock =>
      have renews : Renews s.mem { s.mem with clock } := ⟨fun _ => rfl, rfl, fun _ => le_rfl, rfl⟩
      exact ⟨noReach, .inl fun _ _ near => near.elim, renews.settles.lives⟩

end Calls

/-! ## The whole run -/

section Runs

variable {pool : Pool} {s s' start : Session} {i : Nat} {identity : Identity} {first : Nat}
  {ok : Session → Session → Prop}

/-- What a session has and every step keeps is kept by every run from there. -/
theorem Session.Leads.invariant {I : Session → Prop} (leads : s.Leads pool ok s')
    (well : SessionWell pool s) (step : ∀ a b, SessionWell pool a → a.Step pool b → ok a b →
      I a → I b) (init : I s) : I s' := by
  induction leads with
  | refl => exact init
  | tail before last ih => exact step _ _ (Session.Leads.well before well) last.1 last.2 ih

/-- Slot `i` is not free after the step. -/
def InUse (i : Nat) : Session → Session → Prop := fun _ s' => (s'.mem.core i).state ≠ .free

/-- The buffer that stays in its slot over a run. -/
theorem Session.Leads.travelled (leads : s.Leads pool (InUse i) s') (well : SessionWell pool s)
    (inside : i < pool.slotCount) (live : (s.mem.core i).state ≠ .free)
    (path : Travelled identity first [] (s.mem.core i)) :
    ∃ log, s'.mem.hooked = s.mem.hooked ++ log ∧
      Travelled identity first (receivers i log) (s'.mem.core i) := by
  have ends := leads.invariant (I := fun a => (a.mem.core i).state ≠ .free ∧
    ∃ log, a.mem.hooked = s.mem.hooked ++ log ∧
      Travelled identity first (receivers i log) (a.mem.core i)) well ?_
    ⟨live, [], (List.append_nil _).symm, path⟩
  · exact ends.2
  rintro a b sound step busy ⟨busyBefore, log, hooked, before⟩
  obtain ⟨reach, splits, lives⟩ := step.splits sound
  obtain ⟨new, hooked', after⟩ := lives.travelled splits sound.slots inside busyBefore before
  refine ⟨busy, log ++ new, ?_, ?_⟩
  · rw [hooked', hooked, List.append_assoc]
  · rw [receivers_append]
    exact after busy

/-- From the call that allocates a buffer until its slot is free again the identity of the
    buffer never changes, its owner is the last component that received it, the hop count
    is 1 plus the number of receives, the visited set is the allocator and the receivers, and
    a buffer in transfer is below its hop limit. -/
theorem buffer_provenance (reached : start.Reached pool anyStep) (inside : i < pool.slotCount)
    (empty : (start.mem.core i).state = .free) (allocates : start.Step pool s)
    (taken : (s.mem.core i).state ≠ .free) (leads : s.Leads pool (InUse i) s') :
    ∃ log, s'.mem.hooked = s.mem.hooked ++ log ∧
      (s'.mem.core i).identity = (s.mem.core i).identity ∧
      (s'.mem.core i).ownerId = (receivers i log).getLastD (s.mem.core i).ownerId ∧
      (s'.mem.core i).hopCount = (1 + (receivers i log).length) % u32 ∧
      (∀ k, (s'.mem.core i).visited.test k = true ↔
        k = (s.mem.core i).ownerId ∨ k ∈ receivers i log) ∧
      ((s'.mem.core i).state = .transfer → (s'.mem.core i).hopLimit = hopLimitUnlimited ∨
        (1 + (receivers i log).length) % u32 < (s'.mem.core i).hopLimit) := by
  obtain ⟨reach, splits, lives⟩ := allocates.splits reached.well
  have well := reached.well.step allocates
  obtain ⟨log, hooked, path⟩ :=
    leads.travelled well inside taken (lives.allocated splits empty taken)
  refine ⟨log, hooked, path.identity, path.owner, path.hopCount, path.visited, fun sent => ?_⟩
  have slot := ((leads.well well).slots i inside).2.2
  simp only [sent] at slot
  rw [← path.hopCount]
  exact slot.2.2.hops

/-- Component 2 holds the buffer that component 1 allocated. -/
theorem buffer_provenance_claimed : (claimedSession.mem.core 0).ownerId = 2 ∧
    ∃ log, claimedSession.mem.hooked = allocatedSession.mem.hooked ++ log ∧
      (claimedSession.mem.core 0).hopCount = (1 + (receivers 0 log).length) % u32 := by
  have registers : registeredSession.Reached smallPool anyStep :=
    ⟨attached, attached_starts, .single ⟨registered_step, trivial⟩⟩
  have prepares : allocatedSession.Step smallPool preparedSession :=
    Session.run_step trivial (by decide)
  have claims : preparedSession.Step smallPool claimedSession :=
    Session.run_step trivial (by decide)
  have sent : allocatedSession.Leads smallPool (InUse 0) preparedSession :=
    .single ⟨prepares, by unfold InUse; decide⟩
  have leads := sent.tail ⟨claims, by unfold InUse; decide⟩
  obtain ⟨log, hooked, _, _, hopCount, _⟩ := buffer_provenance (i := 0) registers (by decide)
    (by decide) allocated_step (by decide) leads
  exact ⟨by decide, log, hooked, hopCount⟩

end Runs

end Zipc
