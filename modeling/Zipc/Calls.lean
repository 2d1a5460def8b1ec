import Zipc.Focus
import Zipc.Link
import Zipc.Buffer

/-! # The slot protocol, one call at a time

What allocation, transfer, claim, release and rollback do when they run alone on a slot
that satisfies the representation invariant: each outcome is one step in the life of the
slot, or leaves it as it was.
-/

namespace Zipc

open Atomic Program

section Calls

variable {good : Env → Prop} {guard pool : Pool} {m₀ : Mem} {i : Nat} {c : SlotCore}
  {log : List TraceRecord}

theorem Quiet.nil : Quiet [] := nofun

theorem Quiet.snoc {r : TraceRecord} (quiet : Quiet log)
    (plain : r.event ≠ .send ∧ r.event ≠ .receive) : Quiet (log ++ [r]) := by
  intro r' member
  rcases List.mem_append.mp member with old | new
  · exact quiet r' old
  · rw [List.mem_singleton.mp new]
    exact plain

theorem Quiet.record {component time : Nat} {event : TraceEvent} (quiet : Quiet log)
    (plain : event ≠ .send ∧ event ≠ .receive) :
    Quiet (log ++ [c.record pool i component event time]) :=
  quiet.snoc plain

/-! ## Allocation -/

/-- An allocation of the slot can fail for want of page protection or of entropy. -/
def Unallocatable (good : Env → Prop) (pool : Pool) (i : Nat) : Prop :=
  Unprotected good pool i ∨ ∃ e, good e ∧ e.identity = none

/-- How an allocation ends that has won the slot with core `c`. -/
def AllocateEnds (good : Env → Prop) (guard pool : Pool) (i : Nat) (c : SlotCore)
    (a : AllocateArgs) (epoch : Nat) (result : Status × Option View) (c' : SlotCore) (log : List TraceRecord) : Prop :=
  Quiet log ∧ c'.generation = nextGeneration c.generation ∧
    ((result = (.ok, some (c'.view pool i (handleMake i c'.generation))) ∧ c'.state = .owned ∧
        c'.claimToken = 0 ∧ c'.Holds pool ∧ c'.nextOwnerId = invalidComponentId ∧
        c'.transferSequence = 0 ∧ c'.hopCount = 1 ∧
        c'.visited = VisitedSet.empty.add c'.ownerId ∧ c'.ownerId = a.allocator ∧
        c'.ownerEpoch = epoch ∧
        (pool.strict = true → a.enablePayload = true → c'.access = true)) ∨
      (∃ status, result = (status, none) ∧ status ≠ .ok ∧ c'.Empty ∧ c'.Closed guard ∧
        Unallocatable good pool i))

theorem focused_generateBufferId {α : Type} {Q : α → SlotCore → List TraceRecord → Prop}
    {component : Nat} {next : Except Status Nat → Prog α} (valid : componentIdValid component = true)
    (rest : ∀ answer, (∀ id, answer = .ok id → bufferIdValid id = true) →
      (∀ status, answer = .error status → status ≠ .ok ∧ ∃ e, good e ∧ e.identity = none) →
      Focused good guard m₀ i (next answer) Q c log) :
    Focused good guard m₀ i (.act (.generateBufferId component) next) Q c log := by
  intro m focus
  refine ⟨trivial, fun e allowed => rest _ ?_ ?_ m focus⟩
  · intro id fresh
    simp only [exec_eq, Act.exec] at fresh
    split at fresh
    · rename_i made _
      injection fresh with same
      exact same ▸ bufferIdValid_make valid made.session_pos made.session_lt made.sequence_lt
    · cases fresh
  · intro status failed
    simp only [exec_eq, Act.exec] at failed
    split at failed
    · cases failed
    · rename_i empty
      injection failed with same
      exact ⟨same ▸ (by simp), e, allowed, empty⟩

theorem allocateAbort_focused {a : AllocateArgs} {old : SlotCore} {epoch : Nat} {revoke : Bool}
    {status : Status} (lax : guard.strict = true → pool.strict = true) (quiet : Quiet log)
    (failed : status ≠ .ok) (closed : c.Closed guard)
    (generation : c.generation = nextGeneration old.generation)
    (why : Unallocatable good pool i) :
    Focused good guard m₀ i (allocateAbort pool a.allocator i revoke status)
      (AllocateEnds good guard pool i old a epoch) c log := by
  have ended (access : Bool) (hidden : guard.strict = true → access = false) :
      AllocateEnds good guard pool i old a epoch (status, none) { c with access }.freed
        (log ++ [c.record pool i a.allocator .error m₀.clock]) :=
    ⟨quiet.record ⟨nofun, nofun⟩, generation,
      .inr ⟨status, rfl, failed, SlotCore.freed_empty _, hidden, why⟩⟩
  simp only [allocateAbort]
  refine focused_traceSlot ?_
  split
  · refine focused_protectSlot (fun _ _ _ => ?_) (fun access hidden => ?_)
    · exact focused_freeClaimingSlot closed (focused_count (focused_done (ended _ closed)))
    · have shut : { c with access }.Closed guard := fun strict => hidden (lax strict)
      exact focused_freeClaimingSlot shut (focused_count (focused_done (ended _ shut)))
  · exact focused_freeClaimingSlot closed (focused_count (focused_done (ended _ closed)))

theorem focused_enablePayload {α : Type} {Q : α → SlotCore → List TraceRecord → Prop}
    {a : AllocateArgs} {next : Status → Prog α}
    (failed : ∀ status, status ≠ .ok → Unprotected good pool i →
      Focused good guard m₀ i (next status) Q c log)
    (done : ∀ access, (pool.strict = true → a.enablePayload = true → access = true) →
      Focused good guard m₀ i (next .ok) Q { c with access } log) :
    Focused good guard m₀ i (enablePayload pool a i >>= next) Q c log := by
  simp only [enablePayload]
  split
  · exact focused_protectSlot failed
      (fun access opened => done access fun strict _ => opened strict)
  · rename_i unwanted
    exact done c.access fun _ wanted => absurd wanted unwanted

theorem allocateClaimed_focused {a : AllocateArgs} {epoch token : Nat}
    (lax : guard.strict = true → pool.strict = true) (valid : componentIdValid a.allocator = true)
    (within : (⟨a.offset, a.length⟩ : Region).Within pool.slotCapacity) (quiet : Quiet log)
    (held : c.claimToken = token) (closed : c.Closed guard) :
    Focused good guard m₀ i (allocateClaimed pool a epoch token i)
      (AllocateEnds good guard pool i c a epoch) c log := by
  simp only [allocateClaimed, lift_bind]
  refine focused_loadGeneration (focused_write (focused_writeAll ?_))
  refine focused_now (focused_write (focused_write (focused_writeAll ?_)))
  simp only [SlotCore.applyAll, allocateFields, allocateResets, List.foldl_cons, List.foldl_nil,
    SlotWrite.applyCore]
  refine focused_generateBufferId valid fun fresh identity failing => ?_
  cases fresh with
  | error status =>
      obtain ⟨failed, empty⟩ := failing status rfl
      exact allocateAbort_focused lax quiet failed closed rfl (.inr empty)
  | ok id =>
      refine focused_write ?_
      simp only [SlotWrite.applyCore]
      refine focused_enablePayload (fun status failed why => ?_) (fun access opened => ?_)
      · rw [if_pos failed]
        exact allocateAbort_focused lax quiet failed closed rfl (.inl why)
      rw [if_neg (not_not_intro rfl)]
      refine focused_makeView within ?_
      refine focused_traceSlot (focused_publish nofun ?_ (focused_storeCursor (focused_count ?_)))
      · exact held
      refine focused_done ⟨quiet.record ⟨nofun, nofun⟩, rfl,
        .inl ⟨rfl, rfl, rfl, ?_, rfl, rfl, rfl, rfl, rfl, rfl, opened⟩⟩
      have visits : (VisitedSet.empty.add a.allocator).test a.allocator = true :=
        (VisitedSet.test_add _ _ valid).mpr (.inl rfl)
      exact ⟨valid, nextGeneration_ne_zero _, identity id rfl, visits, within⟩

/-- One round of the scan: the slot is left alone, or the allocation ends with it. -/
theorem allocateTry_focused {a : AllocateArgs} {epoch token : Nat}
    (lax : guard.strict = true → pool.strict = true) (valid : componentIdValid a.allocator = true)
    (within : (⟨a.offset, a.length⟩ : Region).Within pool.slotCapacity) (quiet : Quiet log)
    (vacant : c.state = .free → c.claimToken = 0 ∧ c.Closed guard) :
    Focused good guard m₀ i (allocateTry pool a epoch token i) (fun tried c' log' => match tried with
      | none => c' = c ∧ log' = log ∧ c.state ≠ .free
      | some result => c.state = .free ∧ AllocateEnds good guard pool i c a epoch result c' log') c log := by
  simp only [allocateTry, lift_bind]
  refine focused_loadState ?_
  by_cases free : c.state = .free
  swap
  · rw [if_pos free]
    exact focused_done ⟨rfl, rfl, free⟩
  rw [if_neg (not_not_intro free)]
  obtain ⟨zero, closed⟩ := vacant free
  refine focused_casToken (fun _ => ?_) (fun missed => absurd zero missed)
  rw [if_neg (not_not_intro rfl)]
  refine focused_casState (by decide) (fun _ => ?_) (fun lost => absurd free lost)
  rw [if_neg (by decide)]
  have claimed : Focused good guard m₀ i (allocateClaimed pool a epoch token i)
      (AllocateEnds good guard pool i c a epoch) { c with claimToken := token, state := .claiming } log :=
    allocateClaimed_focused lax valid within quiet rfl closed
  apply focused_bind
  refine claimed.mono ?_
  intro result c' log' ends
  exact focused_done ⟨free, ends⟩

/-! ## Transfer -/

/-- The core while a call holds the slot under `token`. -/
def SlotCore.taken (c : SlotCore) (token : Nat) : SlotCore :=
  { c with claimToken := token, state := .claiming }

theorem SlotCore.settle {state : SlotState} (same : c.state = state) (token : c.claimToken = 0) :
    { c with state := state, claimToken := 0 } = c := by
  subst same
  rw [← token]

/-- The core with the sequence that a send saves. -/
def SlotCore.saved (c : SlotCore) : SlotCore := { c with claimPreviousSequence := c.transferSequence }

/-- How a send ends before its descriptor is delivered. -/
def PrepareEnds (pool : Pool) (m₀ : Mem) (i : Nat) (c : SlotCore)
    (handle owner next linkId : Nat) (result : Except Status Message) (c' : SlotCore)
    (log : List TraceRecord) : Prop :=
  (∃ status, result = .error status ∧ status ≠ .ok ∧ Quiet log ∧
    (c' = c ∨ i < pool.slotCount ∧ c.state = .owned ∧ c.ownerId = owner ∧ c' = c.saved)) ∨
  (i < pool.slotCount ∧ c.state = .owned ∧ c.generation = handleGeneration handle ∧ c.ownerId = owner ∧
    c.ownerEpoch = m₀.epoch owner ∧ componentIdValid next = true ∧
    (c.hopLimit = hopLimitUnlimited ∨ c.hopCount < c.hopLimit) ∧
    (∃ access, (pool.strict = true → access = false) ∧
      c' = { c.prepared next linkId with access }) ∧
    log = [c'.record pool i owner .send m₀.clock] ∧
    result = .ok { handle, poolId := pool.poolId, sourceComponent := owner,
                   destinationComponent := next, flags := 0,
                   transferSequence := (c.transferSequence + 1) % u32 })

theorem SlotCore.exceeded_none {time : Nat} (fine : c.exceeded time = none) :
    c.hopLimit = hopLimitUnlimited ∨ c.hopCount < c.hopLimit := by
  rw [SlotCore.exceeded] at fine
  split at fine
  · cases fine
  split at fine
  · rename_i unlimited
    exact .inl unlimited
  · split at fine
    · cases fine
    · rename_i below
      exact .inr (Nat.not_le.mp below)

theorem SlotCore.exceeded_ne_ok {time : Nat} {status : Status}
    (found : c.exceeded time = some status) : status ≠ .ok := by
  rw [SlotCore.exceeded] at found
  rintro rfl
  split at found
  · cases found
  split at found
  · cases found
  · split at found <;> cases found

theorem prepareTransfer_focused {handle owner next linkId claim : Nat}
    (inside : i < pool.slotCount) (state : c.state = .owned)
    (generation : c.generation = handleGeneration handle) (own : c.ownerId = owner)
    (current : c.ownerEpoch = m₀.epoch owner) (valid : componentIdValid next = true)
    (hops : c.hopLimit = hopLimitUnlimited ∨ c.hopCount < c.hopLimit) {access : Bool}
    (hidden : pool.strict = true → access = false) :
    Focused good pool m₀ i (prepareTransfer pool handle i owner next linkId claim)
      (PrepareEnds pool m₀ i c handle owner next linkId)
      { c.saved.taken claim with access } [] := by
  subst own
  simp only [prepareTransfer, lift_bind]
  refine focused_write (focused_write (focused_write ?_))
  refine focused_read (·.ownerEpoch) (fun _ _ _ => rfl) (focused_write ?_)
  refine focused_read (·.hopCount) (fun _ _ _ => rfl) (focused_write ?_)
  refine focused_read (·.acquiredNs) (fun _ _ _ => rfl) (focused_write ?_)
  refine focused_read (·.visited) (fun _ _ _ => rfl) (focused_write ?_)
  refine focused_read (·.transferSequence) (fun _ _ _ => rfl) (focused_write ?_)
  simp only [SlotWrite.applyCore, SlotCore.taken, SlotCore.saved]
  refine focused_traceSlot (focused_publish (fun _ => hidden) rfl (focused_done ?_))
  exact .inr ⟨inside, state, generation, rfl, current, valid, hops, ⟨access, hidden, rfl⟩, rfl, rfl⟩

theorem prepareClaimed_focused {handle owner next linkId claim : Nat}
    (inside : i < pool.slotCount) (state : c.state = .owned) (token : c.claimToken = 0)
    (own : c.ownerId = owner) (valid : componentIdValid next = true) :
    Focused good pool m₀ i (prepareClaimed pool handle i owner next linkId (m₀.epoch owner) claim)
      (PrepareEnds pool m₀ i c handle owner next linkId) (c.saved.taken claim) [] := by
  -- every refusal puts the slot back as the send found it
  have refused {status : Status} {log' : List TraceRecord} (failed : status ≠ .ok)
      (quiet : Quiet log') : PrepareEnds pool m₀ i c handle owner next linkId (.error status)
        { c.saved.taken claim with state := .owned, claimToken := 0 } log' :=
    .inl ⟨status, rfl, failed, quiet,
      .inr ⟨inside, state, own, SlotCore.settle (c := c.saved) state token⟩⟩
  simp only [prepareClaimed, lift_bind]
  refine focused_loadGeneration ?_
  split
  · refine focused_publish nofun rfl (focused_recordProtocolError (focused_done ?_))
    exact refused nofun (Quiet.nil.snoc ⟨nofun, nofun⟩)
  rename_i generation
  refine focused_ownedBy ?_
  split
  · refine focused_publish nofun rfl (focused_recordProtocolError (focused_done ?_))
    exact refused nofun (Quiet.nil.snoc ⟨nofun, nofun⟩)
  rename_i owned
  rw [Bool.not_eq_false, decide_eq_true_eq] at owned
  refine focused_limitsExceeded ?_
  cases limits : (c.saved.taken claim).exceeded m₀.clock with
  | some status =>
      refine focused_recordSlotError (focused_publish nofun rfl (focused_done ?_))
      exact refused (SlotCore.exceeded_ne_ok limits) (Quiet.nil.record ⟨nofun, nofun⟩)
  | none =>
      refine focused_protectSlot (fun status failed _ => ?_) (fun access hidden => ?_)
      · rw [if_pos failed]
        refine focused_recordSlotError (focused_publish nofun rfl (focused_done ?_))
        exact refused failed (Quiet.nil.record ⟨nofun, nofun⟩)
      · rw [if_neg (not_not_intro rfl)]
        exact prepareTransfer_focused inside state (not_not.mp generation) owned.1 owned.2 valid
          (SlotCore.exceeded_none limits) hidden

/-- `buffer_prepare_transfer_internal` alone. -/
theorem prepare_focused {handle owner next linkId : Nat}
    (well : handleSlotId handle < pool.slotCount → SlotWell pool c) :
    Focused good pool m₀ (handleSlotId handle)
      (bufferPrepareTransferInternal pool handle owner next linkId)
      (PrepareEnds pool m₀ (handleSlotId handle) c handle owner next linkId) c [] := by
  have refused {status : Status} {log' : List TraceRecord} (failed : status ≠ .ok)
      (quiet : Quiet log') : PrepareEnds pool m₀ (handleSlotId handle) c handle owner next linkId
        (.error status) c log' :=
    .inl ⟨status, rfl, failed, quiet, .inl rfl⟩
  simp only [bufferPrepareTransferInternal]
  split
  · exact focused_done (refused (by simp) Quiet.nil)
  rename_i legal
  simp only [not_or, Bool.not_eq_false] at legal
  split
  · refine focused_recordProtocolError (focused_done ?_)
    exact refused (by simp) (Quiet.nil.snoc ⟨by simp, by simp⟩)
  rename_i inside
  refine focused_registeredEpoch ?_
  simp only [lift_bind]
  refine focused_loadState ?_
  split
  · refine focused_recordProtocolError (focused_done ?_)
    exact refused (by simp) (Quiet.nil.snoc ⟨by simp, by simp⟩)
  rename_i state
  rw [not_not] at state
  have token : c.claimToken = 0 := by
    have slot := well (Nat.lt_of_not_le inside)
    simp only [SlotWell, state] at slot
    exact slot.2.2.1
  refine focused_loadGeneration ?_
  split
  · refine focused_recordProtocolError (focused_done ?_)
    exact refused (by simp) (Quiet.nil.snoc ⟨by simp, by simp⟩)
  refine focused_ownedBy ?_
  split
  · refine focused_recordProtocolError (focused_done ?_)
    exact refused (by simp) (Quiet.nil.snoc ⟨by simp, by simp⟩)
  rename_i owned
  rw [Bool.not_eq_false, decide_eq_true_eq] at owned
  refine focused_read (·.transferSequence) (fun _ _ _ => rfl) (focused_write ?_)
  refine focused_casToken (fun _ => ?_) (fun missed => absurd token missed)
  rw [if_neg (not_not_intro rfl)]
  refine focused_casState (by decide) (fun _ => ?_) (fun lost => absurd state lost)
  exact prepareClaimed_focused (Nat.lt_of_not_le inside) state token owned.1 legal.2

/-! ## Claim -/

/-- The status with which a claim is rejected, or nothing when the transfer may be taken
    over. The test of the hop limit is not among them: a transfer within it was sent. -/
def claimVerdict (pool : Pool) (clock : Nat) (c : SlotCore) (message : Message) (receiver : Nat) :
    Option Status :=
  if componentIdValid receiver = false then some .invalidArgument
  else if message.poolId ≠ pool.poolId then some .invalidHandle
  else if message.destinationComponent ≠ receiver then some .invalidReceiver
  else if pool.slotCount ≤ handleSlotId message.handle then some .invalidHandle
  else if c.state ≠ .transfer then some .invalidState
  else if c.generation ≠ handleGeneration message.handle then some .staleHandle
  else if c.ownerId ≠ message.sourceComponent ∨ c.nextOwnerId ≠ receiver then
    some .invalidReceiver
  else if c.transferSequence ≠ message.transferSequence then some .sequenceMismatch
  else if c.deadlineNs ≠ deadlineNone ∧ clock > c.deadlineNs then some .deadline
  else none

/-- How a claim ends. -/
def ClaimEnds (pool : Pool) (m₀ : Mem) (i : Nat) (c : SlotCore) (message : Message)
    (receiver : Nat) (result : Status × Option View) (c' : SlotCore) (log : List TraceRecord) :
    Prop :=
  match claimVerdict pool m₀.clock c message receiver with
  | some status => result = (status, none) ∧ c' = c ∧ Quiet log
  | none =>
      (result = (.ok, some (c'.view pool i message.handle)) ∧
        (∃ access, (pool.strict = true → access = true) ∧
          c' = { c.received (m₀.epoch receiver) m₀.clock with access }) ∧
        log = [c'.record pool i receiver .receive m₀.clock]) ∨
      (∃ status, result = (status, none) ∧ status ≠ .ok ∧ pool.strict = true ∧ c'.Empty ∧
        c'.Closed pool ∧ c'.generation = c.generation ∧ Quiet log)

/-- How a claim ends, where page protection fails only as `good` lets it. -/
def ClaimEndsIn (good : Env → Prop) (pool : Pool) (m₀ : Mem) (i : Nat) (c : SlotCore)
    (message : Message) (receiver : Nat) (result : Status × Option View) (c' : SlotCore)
    (log : List TraceRecord) : Prop :=
  match claimVerdict pool m₀.clock c message receiver with
  | some status => result = (status, none) ∧ c' = c ∧ Quiet log
  | none =>
      (result = (.ok, some (c'.view pool i message.handle)) ∧
        (∃ access, (pool.strict = true → access = true) ∧
          c' = { c.received (m₀.epoch receiver) m₀.clock with access }) ∧
        log = [c'.record pool i receiver .receive m₀.clock]) ∨
      (∃ status, result = (status, none) ∧ status ≠ .ok ∧ Unprotected good pool i ∧ c'.Empty ∧
        c'.Closed pool ∧ c'.generation = c.generation ∧ Quiet log)

theorem claimReject_focused {claim receiver : Nat} {status : Status}
    {Q : Status × Option View → SlotCore → List TraceRecord → Prop} (state : c.state = .transfer)
    (token : c.claimToken = 0) (closed : c.Closed pool)
    (rejected : Q (status, none) c [errorRecord pool m₀.clock receiver]) :
    Focused good pool m₀ i (claimReject pool i receiver claim status) Q (c.taken claim) [] := by
  refine focused_publish (fun _ => closed) rfl (focused_recordProtocolError (focused_done ?_))
  have back : { c.taken claim with state := SlotState.transfer, claimToken := 0 } = c :=
    SlotCore.settle state token
  rw [back]
  exact rejected

theorem claimAccept_focused {message : Message} {claim epoch time : Nat} (well : c.Holds pool)
    (closed : c.Closed pool) :
    Focused good pool m₀ i (claimAccept pool message i c.nextOwnerId epoch time claim)
      (fun result c' log' =>
        (result = (.ok, some (c'.view pool i message.handle)) ∧
          (∃ access, (pool.strict = true → access = true) ∧
            c' = { c.received epoch time with access }) ∧
          log' = [c'.record pool i c.nextOwnerId .receive m₀.clock]) ∨
        (∃ status, result = (status, none) ∧ status ≠ .ok ∧ Unprotected good pool i ∧ c'.Empty ∧
          c'.Closed pool ∧ c'.generation = c.generation ∧ Quiet log')) (c.taken claim) [] := by
  simp only [claimAccept, lift_bind]
  refine focused_write (focused_write (focused_write ?_))
  refine focused_read (·.transferHopCount) (fun _ _ _ => rfl) (focused_write ?_)
  refine focused_read (·.visited) (fun _ _ _ => rfl) (focused_write (focused_write ?_))
  simp only [SlotWrite.applyCore, SlotCore.taken]
  refine focused_protectSlot (fun status failed unprotected => ?_) (fun access opened => ?_)
  · rw [if_pos failed]
    refine focused_recordSlotError (focused_freeClaimingSlot closed (focused_done (.inr ?_)))
    exact ⟨status, rfl, failed, unprotected, SlotCore.freed_empty _, closed, rfl,
      Quiet.nil.record ⟨nofun, nofun⟩⟩
  · rw [if_neg (not_not_intro rfl)]
    refine focused_makeView well.region ?_
    refine focused_traceSlot (focused_publish nofun rfl (focused_done (.inl ?_)))
    exact ⟨rfl, ⟨access, opened, rfl⟩, rfl⟩

theorem claimClaimed_focused {message : Message} {receiver claim : Nat}
    (valid : componentIdValid receiver = true) (home : message.poolId = pool.poolId)
    (mine : message.destinationComponent = receiver)
    (inside : handleSlotId message.handle < pool.slotCount) (state : c.state = .transfer)
    (well : SlotWell pool c) :
    Focused good pool m₀ (handleSlotId message.handle)
      (claimClaimed pool message (handleSlotId message.handle) receiver (m₀.epoch receiver) claim)
      (ClaimEndsIn good pool m₀ (handleSlotId message.handle) c message receiver) (c.taken claim) [] := by
  have closed : c.Closed pool := well.2.1 (by rw [state]; simp)
  simp only [SlotWell, state] at well
  obtain ⟨_, _, token, holds, sends⟩ := well
  have rejected {status : Status} (verdict : claimVerdict pool m₀.clock c message receiver =
      some status) : ClaimEndsIn good pool m₀ (handleSlotId message.handle) c message receiver (status, none)
        c [errorRecord pool m₀.clock receiver] := by
    rw [ClaimEndsIn, verdict]
    exact ⟨rfl, rfl, Quiet.nil.snoc ⟨by simp, by simp⟩⟩
  have passed : claimVerdict pool m₀.clock c message receiver =
      if c.generation ≠ handleGeneration message.handle then some .staleHandle
      else if c.ownerId ≠ message.sourceComponent ∨ c.nextOwnerId ≠ receiver then
        some .invalidReceiver
      else if c.transferSequence ≠ message.transferSequence then some .sequenceMismatch
      else if c.deadlineNs ≠ deadlineNone ∧ m₀.clock > c.deadlineNs then some .deadline
      else none := by
    simp [claimVerdict, valid, home, mine, Nat.not_le.mpr inside, state]
  simp only [claimClaimed, lift_bind]
  refine focused_loadGeneration ?_
  split
  · rename_i stale
    exact claimReject_focused state token closed (rejected (passed.trans (if_pos stale)))
  rename_i generation
  replace passed := passed.trans (if_neg generation)
  refine focused_read (·.ownerId) (fun _ _ _ => rfl) (focused_read (·.nextOwnerId) (fun _ _ _ => rfl) ?_)
  split
  · rename_i stranger
    exact claimReject_focused state token closed (rejected (passed.trans (if_pos stranger)))
  rename_i addressed
  replace passed := passed.trans (if_neg addressed)
  refine focused_read (·.transferSequence) (fun _ _ _ => rfl) ?_
  split
  · rename_i other
    exact claimReject_focused state token closed (rejected (passed.trans (if_pos other)))
  rename_i sequence
  replace passed := passed.trans (if_neg sequence)
  refine focused_now (focused_read (·.deadlineNs) (fun _ _ _ => rfl) ?_)
  split
  · rename_i late
    exact claimReject_focused state token closed (rejected (passed.trans (if_pos late)))
  rename_i timely
  replace passed := passed.trans (if_neg timely)
  refine focused_read (·.hopLimit) (fun _ _ _ => rfl) (focused_read (·.hopCount) (fun _ _ _ => rfl) ?_)
  split
  · rename_i far
    rcases sends.hops with unlimited | below
    · exact absurd unlimited far.1
    · exact absurd below (Nat.not_lt.mpr far.2)
  · have next : c.nextOwnerId = receiver := not_not.mp (not_or.mp addressed).2
    subst next
    refine (claimAccept_focused holds closed).mono ?_
    intro result c' log' ends
    rw [ClaimEndsIn, passed]
    exact ends

/-- `zipc_buffer_claim` alone, where page protection fails only as `good` lets it. -/
theorem claim_focusedIn {message : Message} {receiver : Nat}
    (well : handleSlotId message.handle < pool.slotCount → SlotWell pool c) :
    Focused good pool m₀ (handleSlotId message.handle) (bufferClaim pool message receiver)
      (ClaimEndsIn good pool m₀ (handleSlotId message.handle) c message receiver) c [] := by
  have rejected {status : Status} {log' : List TraceRecord} (quiet : Quiet log')
      (verdict : claimVerdict pool m₀.clock c message receiver = some status) :
      ClaimEndsIn good pool m₀ (handleSlotId message.handle) c message receiver (status, none) c log' := by
    rw [ClaimEndsIn, verdict]
    exact ⟨rfl, rfl, quiet⟩
  simp only [bufferClaim]
  split
  · rename_i invalid
    exact focused_done (rejected Quiet.nil (if_pos invalid))
  rename_i valid
  split
  · rename_i foreign
    refine focused_recordProtocolError (focused_done (rejected (Quiet.nil.snoc ⟨nofun, nofun⟩) ?_))
    rw [claimVerdict, if_neg valid, if_pos foreign]
  rename_i home
  split
  · rename_i elsewhere
    refine focused_recordProtocolError (focused_done (rejected (Quiet.nil.snoc ⟨nofun, nofun⟩) ?_))
    rw [claimVerdict, if_neg valid, if_neg home, if_pos elsewhere]
  rename_i mine
  split
  · rename_i outside
    refine focused_recordProtocolError (focused_done (rejected (Quiet.nil.snoc ⟨nofun, nofun⟩) ?_))
    rw [claimVerdict, if_neg valid, if_neg home, if_neg mine, if_pos outside]
  rename_i inside
  simp only [lift_bind]
  refine focused_loadState ?_
  split
  · rename_i settled
    refine focused_recordProtocolError (focused_done (rejected (Quiet.nil.snoc ⟨nofun, nofun⟩) ?_))
    rw [claimVerdict, if_neg valid, if_neg home, if_neg mine, if_neg inside, if_pos settled]
  rename_i state
  rw [not_not] at state
  have slot := well (Nat.lt_of_not_le inside)
  have token : c.claimToken = 0 := by
    simp only [SlotWell, state] at slot
    exact slot.2.2.1
  refine focused_registeredEpoch ?_
  apply focused_bind
  simp only [claimAcquire, lift_bind]
  refine focused_casToken (fun _ => ?_) (fun missed => absurd token missed)
  rw [if_pos rfl]
  refine focused_done ?_
  rw [if_neg (by decide)]
  refine focused_casState (by decide) (fun _ => ?_) (fun lost => absurd state lost)
  rw [Bool.not_eq_false] at valid
  exact claimClaimed_focused valid (not_not.mp home) (not_not.mp mine) (Nat.lt_of_not_le inside)
    state slot

/-- `zipc_buffer_claim` alone. -/
theorem claim_focused {message : Message} {receiver : Nat}
    (well : handleSlotId message.handle < pool.slotCount → SlotWell pool c) :
    Focused good pool m₀ (handleSlotId message.handle) (bufferClaim pool message receiver)
      (ClaimEnds pool m₀ (handleSlotId message.handle) c message receiver) c [] := by
  refine (claim_focusedIn well).mono ?_
  intro result c' log' ends
  simp only [ClaimEndsIn, ClaimEnds] at ends ⊢
  cases verdict : claimVerdict pool m₀.clock c message receiver with
  | some status =>
      simp only [verdict] at ends ⊢
      exact ends
  | none =>
      simp only [verdict] at ends ⊢
      rcases ends with taken | ⟨status, same, failed, unprotected, rest⟩
      · exact .inl taken
      · exact .inr ⟨status, same, failed, unprotected.1, rest⟩

/-! ## Release -/

/-- The core with the window and the owner that a release saves. -/
def SlotCore.kept (c : SlotCore) : SlotCore :=
  { c with
    claimPreviousRegion := c.region
    claimPreviousOwner := c.ownerId
    claimPreviousOwnerEpoch := c.ownerEpoch }

/-- How a release ends. -/
def ReleaseEnds (pool : Pool) (m₀ : Mem) (i : Nat) (c : SlotCore) (handle owner : Nat)
    (status : Status) (c' : SlotCore) (log : List TraceRecord) : Prop :=
  Quiet log ∧
    ((status ≠ .ok ∧
        (c' = c ∨ i < pool.slotCount ∧ c.state = .owned ∧ c.ownerId = owner ∧ c' = c.kept)) ∨
      (status = .ok ∧ i < pool.slotCount ∧ c.state = .owned ∧ c.generation = handleGeneration handle ∧
        c.ownerId = owner ∧ c.ownerEpoch = m₀.epoch owner ∧ c'.Closed pool ∧
        ∃ access, c' = { c.kept.freed with access }))

theorem releaseClaimed_focused {handle owner claim : Nat} (inside : i < pool.slotCount)
    (state : c.state = .owned) (token : c.claimToken = 0) (own : c.ownerId = owner)
    (generation : c.generation = handleGeneration handle) :
    Focused good pool m₀ i (releaseClaimed pool i owner (m₀.epoch owner) claim)
      (ReleaseEnds pool m₀ i c handle owner) (c.kept.taken claim) [] := by
  have refused {status : Status} (failed : status ≠ .ok) :
      ReleaseEnds pool m₀ i c handle owner status
        { c.kept.taken claim with state := .owned, claimToken := 0 } [] :=
    ⟨Quiet.nil, .inl ⟨failed, .inr ⟨inside, state, own,
      SlotCore.settle (c := c.kept) state token⟩⟩⟩
  simp only [releaseClaimed]
  refine focused_ownedBy ?_
  split
  · exact focused_publish nofun rfl (focused_done (refused nofun))
  rename_i owned
  rw [Bool.not_eq_false, decide_eq_true_eq] at owned
  refine focused_protectSlot (fun status failed _ => ?_) (fun access hidden => ?_)
  · rw [if_pos failed]
    exact focused_publish nofun rfl (focused_done (refused failed))
  rw [if_neg (not_not_intro rfl)]
  refine focused_traceSlot (focused_writeAll
    (focused_publish (fun _ => hidden) rfl (focused_count (focused_done ?_))))
  exact ⟨Quiet.nil.record ⟨nofun, nofun⟩,
    .inr ⟨rfl, inside, state, generation, owned.1, owned.2, hidden, access, rfl⟩⟩

/-- `zipc_pool_buffer_release` alone. -/
theorem release_focused {handle owner : Nat}
    (well : handleSlotId handle < pool.slotCount → SlotWell pool c) :
    Focused good pool m₀ (handleSlotId handle) (poolBufferRelease pool handle owner)
      (ReleaseEnds pool m₀ (handleSlotId handle) c handle owner) c [] := by
  have refused {status : Status} (failed : status ≠ .ok) :
      ReleaseEnds pool m₀ (handleSlotId handle) c handle owner status c [] :=
    ⟨Quiet.nil, .inl ⟨failed, .inl rfl⟩⟩
  simp only [poolBufferRelease]
  split
  · exact focused_done (refused (by simp))
  split
  · exact focused_done (refused (by simp))
  rename_i inside
  simp only [lift_bind]
  refine focused_loadGeneration ?_
  split
  · exact focused_done (refused (by simp))
  rename_i generation
  refine focused_registeredEpoch (focused_loadState ?_)
  split
  · exact focused_done (refused (by simp))
  rename_i state
  rw [not_not] at state
  have token : c.claimToken = 0 := by
    have slot := well (Nat.lt_of_not_le inside)
    simp only [SlotWell, state] at slot
    exact slot.2.2.1
  refine focused_ownedBy ?_
  split
  · exact focused_done (refused (by simp))
  rename_i owned
  rw [Bool.not_eq_false, decide_eq_true_eq] at owned
  refine focused_read (·.region.offset) (fun _ _ _ => rfl) (focused_write ?_)
  refine focused_read (·.region.length) (fun _ _ _ => rfl) (focused_write ?_)
  refine focused_read (·.ownerId) (fun _ _ _ => rfl) (focused_write ?_)
  refine focused_read (·.ownerEpoch) (fun _ _ _ => rfl) (focused_write ?_)
  simp only [SlotWrite.applyCore]
  refine focused_casToken (fun _ => ?_) (fun missed => absurd token missed)
  rw [if_neg (not_not_intro rfl)]
  refine focused_casState (by decide) (fun _ => ?_) (fun lost => absurd state lost)
  exact releaseClaimed_focused (Nat.lt_of_not_le inside) state token owned.1
    (not_not.mp generation)

/-! ## Rollback -/

/-- The core with the sequence that a rollback saves. -/
def SlotCore.undoing (c : SlotCore) (previous : Nat) : SlotCore :=
  { c with claimPreviousSequence := previous }

theorem SlotCore.rolledBack_eq {previous : Nat} (known : sub32 c.transferSequence 1 = previous) :
    c.rolledBack = { c with
      state := .owned
      claimToken := 0
      claimPreviousSequence := previous
      nextOwnerId := invalidComponentId
      transferSequence := previous } := by
  rw [SlotCore.rolledBack, known]

/-- How a rollback ends. -/
def RollbackEnds (pool : Pool) (c : SlotCore) (link : Link) (message : Message) (status : Status)
    (c' : SlotCore) (log : List TraceRecord) : Prop :=
  log = [] ∧
    ((status ≠ .ok ∧ (c' = c ∨ c.state = .transfer ∧ c' = c.undoing (sub32 message.transferSequence 1))) ∨
      (c.state = .transfer ∧ c.generation = handleGeneration message.handle ∧
        c.ownerId = link.localComponent ∧ c.nextOwnerId = link.remoteComponent ∧
        c.transferSequence = message.transferSequence ∧
        ((status = .ok ∧ ∃ access, (pool.strict = true → access = true) ∧
            c' = { c.rolledBack with access }) ∨
          (status ≠ .ok ∧ pool.strict = true ∧
            c' = { c.rolledBack with
              state := .claiming
              claimToken := claimTokenMake .rollback c.ownerId link.localEpoch }))))

theorem rollbackMatches_focused {link : Link} {message : Message}
    {α : Type} {Q : α → SlotCore → List TraceRecord → Prop} {next : Bool → Prog α}
    (rest : Focused good pool m₀ i (next (decide (c.generation = handleGeneration message.handle ∧
      c.ownerId = link.localComponent ∧ c.nextOwnerId = link.remoteComponent ∧
      c.transferSequence = message.transferSequence))) Q c log) :
    Focused good pool m₀ i (rollbackMatches link message i >>= next) Q c log := by
  apply focused_bind
  simp only [rollbackMatches, lift_bind]
  refine focused_loadGeneration ?_
  split
  · rename_i different
    exact focused_done (by simpa [different] using rest)
  rename_i generation
  rw [not_not] at generation
  refine focused_read (·.ownerId) (fun _ _ _ => rfl) ?_
  split
  · rename_i different
    exact focused_done (by simpa [different] using rest)
  rename_i owner
  rw [not_not] at owner
  refine focused_read (·.nextOwnerId) (fun _ _ _ => rfl) ?_
  split
  · rename_i different
    exact focused_done (by simpa [different] using rest)
  rename_i receiver
  rw [not_not] at receiver
  refine focused_read (·.transferSequence) (fun _ _ _ => rfl) (focused_done ?_)
  simpa [generation, owner, receiver] using rest

theorem rollbackClaimed_focused {link : Link} {message : Message} {previous : Nat}
    (known : sub32 message.transferSequence 1 = previous) (state : c.state = .transfer)
    (token : c.claimToken = 0) (closed : c.Closed pool) :
    Focused good pool m₀ i (rollbackClaimed pool link message i
      (claimTokenMake .rollback link.localComponent link.localEpoch))
      (RollbackEnds pool c link message)
      ((c.undoing previous).taken
        (claimTokenMake .rollback link.localComponent link.localEpoch)) [] := by
  simp only [rollbackClaimed, lift_bind, known]
  refine rollbackMatches_focused ?_
  split
  · refine focused_publish (fun _ => closed) rfl
      (focused_done ⟨rfl, .inl ⟨nofun, .inr ⟨state, ?_⟩⟩⟩)
    rw [known]
    exact SlotCore.settle (c := c.undoing previous) state token
  rename_i same
  rw [Bool.not_eq_false, decide_eq_true_eq] at same
  obtain ⟨generation, owner, receiver, sequence⟩ := same
  have own : c.ownerId = link.localComponent := owner
  have back : c.rolledBack = _ := SlotCore.rolledBack_eq ((congrArg (sub32 · 1) sequence).trans known)
  refine focused_write (focused_write (focused_write ?_))
  refine focused_protectSlot (fun status failed strict => ?_) (fun access opened => ?_)
  · rw [if_pos failed]
    refine focused_done ⟨rfl, .inr ⟨state, generation, owner, receiver, sequence, ?_⟩⟩
    refine .inr ⟨failed, strict.1, ?_⟩
    rw [back, own]
    rfl
  · rw [if_neg (not_not_intro rfl)]
    refine focused_publish nofun rfl (focused_done ?_)
    refine ⟨rfl, .inr ⟨state, generation, owner, receiver, sequence,
      .inl ⟨rfl, access, opened, ?_⟩⟩⟩
    rw [back, own]
    rfl

/-- `rollback_transfer` alone. -/
theorem rollback_focused {link : Link} {message : Message} (well : SlotWell pool c) :
    Focused good pool m₀ i (rollbackTransfer pool link i message) (RollbackEnds pool c link message) c [] := by
  simp only [rollbackTransfer, lift_bind]
  refine focused_loadState ?_
  split
  · exact focused_done ⟨rfl, .inl ⟨nofun, .inl rfl⟩⟩
  rename_i state
  rw [not_not] at state
  have closed : c.Closed pool := well.2.1 (by rw [state]; nofun)
  have token : c.claimToken = 0 := by
    simp only [SlotWell, state] at well
    exact well.2.2.1
  refine focused_write ?_
  simp only [SlotWrite.applyCore]
  refine focused_casToken (fun _ => ?_) (fun missed => absurd token missed)
  rw [if_neg (not_not_intro rfl)]
  refine focused_casState (by decide) (fun _ => ?_) (fun lost => absurd state lost)
  exact rollbackClaimed_focused rfl state token closed

/-! ## Windows and limits -/

/-- The tests of `buffer_owned`. -/
structure Owns (m₀ : Mem) (c : SlotCore) (v : View) : Prop where
  generation : c.generation = handleGeneration v.handle
  state : c.state = .owned
  owner : c.ownerId = v.owner
  ownerEpoch : c.ownerEpoch = v.ownerEpoch
  current : m₀.epoch v.owner = v.ownerEpoch

theorem focused_bufferOwned {α : Type} {Q : α → SlotCore → List TraceRecord → Prop} {v : View}
    {next : Bool → Prog α} (place : v.slotId = i)
    (owned : Owns m₀ c v → Focused good pool m₀ i (next true) Q c log)
    (foreign : ¬Owns m₀ c v → Focused good pool m₀ i (next false) Q c log) :
    Focused good pool m₀ i (bufferOwned (some v) >>= next) Q c log := by
  subst place
  apply focused_bind
  simp only [bufferOwned, lift_bind]
  refine focused_loadGeneration ?_
  split
  · rename_i different
    exact focused_done (foreign fun owns => different owns.generation)
  rename_i generation
  refine focused_loadState ?_
  split
  · rename_i different
    exact focused_done (foreign fun owns => different owns.state)
  rename_i state
  refine focused_ownedBy ?_
  split
  · rename_i different
    rw [decide_eq_false_iff_not] at different
    exact focused_done (foreign fun owns => different ⟨owns.owner, owns.ownerEpoch⟩)
  rename_i same
  rw [Bool.not_eq_false, decide_eq_true_eq] at same
  refine focused_registeredEpoch (focused_done ?_)
  by_cases current : m₀.epoch v.owner = v.ownerEpoch
  · simp only [current, decide_true]
    exact owned ⟨not_not.mp generation, not_not.mp state, same.1, same.2, current⟩
  · simp only [current, decide_false]
    exact foreign fun owns => current owns.current

/-- How an operation on the window ends: it is refused, or moves the window inside the slot. -/
def WindowEnds (pool : Pool) (m₀ : Mem) (c : SlotCore) (v : View) (result : Status × Option View)
    (c' : SlotCore) (log : List TraceRecord) : Prop :=
  log = [] ∧
    ((¬Owns m₀ c v ∧ result = (.invalidBuffer, some v) ∧ c' = c) ∨
      (Owns m₀ c v ∧ (∃ data length, result.2 = some { v with data, length }) ∧
        ∃ region payload, region.Within pool.slotCapacity ∧ c' = { c with region, payload }))

section Windows

variable {v : View} (place : v.slotId = i) (capacity : v.capacity = pool.slotCapacity)
  (within : c.region.Within pool.slotCapacity)

include within in
/-- The window stays as it is. -/
theorem WindowEnds.still {status : Status} {payload : Nat → Nat} (owns : Owns m₀ c v) :
    WindowEnds pool m₀ c v (status, some v) { c with payload } [] :=
  ⟨rfl, .inr ⟨owns, ⟨v.data, v.length, rfl⟩, c.region, payload, within, rfl⟩⟩

theorem WindowEnds.foreign (other : ¬Owns m₀ c v) :
    WindowEnds pool m₀ c v (.invalidBuffer, some v) c [] :=
  ⟨rfl, .inl ⟨other, rfl, rfl⟩⟩

include place capacity within in
/-- `zipc_buffer_set_region`, on a slot whose bytes may just have changed. -/
theorem setRegion_focused {offset length : Nat} {payload : Nat → Nat} :
    Focused good pool m₀ i (bufferSetRegion (some v) offset length)
      (fun result c' log' => Owns m₀ c v → WindowEnds pool m₀ c v result c' log')
      { c with payload } [] := by
  simp only [bufferSetRegion]
  refine focused_bufferOwned place (fun _ => ?_) (fun other => ?_)
  swap
  · refine focused_done fun owns => absurd ?_ other
    exact ⟨owns.generation, owns.state, owns.owner, owns.ownerEpoch, owns.current⟩
  simp only
  split
  · exact focused_done fun owns => WindowEnds.still within owns
  · rename_i fits
    rw [capacity] at fits
    subst place
    refine focused_write (focused_write (focused_done fun owns => ?_))
    refine ⟨rfl, .inr ⟨owns, ⟨offset, length, rfl⟩, ⟨offset, length⟩, payload, ?_, rfl⟩⟩
    simp only [Region.Within]
    omega

include place capacity within in
theorem bufferSetRegion_focused {offset length : Nat} :
    Focused good pool m₀ i (bufferSetRegion (some v) offset length) (WindowEnds pool m₀ c v) c [] := by
  by_cases owns : Owns m₀ c v
  · exact (setRegion_focused place capacity within).mono fun _ _ _ ends => ends owns
  · simp only [bufferSetRegion]
    exact focused_bufferOwned place (fun owned => absurd owned owns)
      (fun other => focused_done (.foreign other))

theorem focused_bufferHeadroom {α : Type} {Q : α → SlotCore → List TraceRecord → Prop}
    {next : Nat → Prog α} (place : v.slotId = i) (owns : Owns m₀ c v)
    (rest : Focused good pool m₀ i (next c.region.offset) Q c log) :
    Focused good pool m₀ i (bufferHeadroom (some v) >>= next) Q c log := by
  apply focused_bind
  simp only [bufferHeadroom]
  refine focused_bufferOwned place (fun _ => ?_) (fun other => absurd owns other)
  subst place
  exact focused_read (·.region.offset) (fun _ _ _ => rfl) (focused_done rest)

theorem focused_bufferTailroom {α : Type} {Q : α → SlotCore → List TraceRecord → Prop}
    {next : Nat → Prog α} (place : v.slotId = i) (owns : Owns m₀ c v)
    (rest : ∀ room, Focused good pool m₀ i (next room) Q c log) :
    Focused good pool m₀ i (bufferTailroom (some v) >>= next) Q c log := by
  apply focused_bind
  simp only [bufferTailroom]
  refine focused_bufferOwned place (fun _ => ?_) (fun other => absurd owns other)
  subst place
  exact focused_read (·.region.offset) (fun _ _ _ => rfl) (focused_done (rest _))

include place capacity within

theorem bufferResize_focused {size : Nat} :
    Focused good pool m₀ i (bufferResize (some v) size) (WindowEnds pool m₀ c v) c [] := by
  simp only [bufferResize]
  refine focused_bufferOwned place (fun owns => ?_) (fun other => focused_done (.foreign other))
  simp only
  split
  · exact focused_done (WindowEnds.still within owns)
  refine focused_bufferHeadroom place owns (focused_bufferTailroom place owns fun room => ?_)
  split
  · exact focused_done (WindowEnds.still within owns)
  have placed := place
  subst place
  simp only [lift_bind]
  refine focused_read (·.region.offset) (fun _ _ _ => rfl) ?_
  split
  · exact focused_done (WindowEnds.still within owns)
  · exact bufferSetRegion_focused placed capacity within

theorem bufferAppend_focused {bytes : List Nat} :
    Focused good pool m₀ i (bufferAppend (some v) bytes) (WindowEnds pool m₀ c v) c [] := by
  simp only [bufferAppend]
  refine focused_bufferOwned place (fun owns => ?_) (fun other => focused_done (.foreign other))
  simp only
  refine focused_bufferTailroom place owns fun room => ?_
  split
  · exact focused_done (WindowEnds.still within owns)
  have placed := place
  subst place
  refine focused_copyIn fun payload => focused_read (·.region.offset) (fun _ _ _ => rfl) ?_
  exact (setRegion_focused placed capacity within).mono fun _ _ _ ends => ends owns

theorem bufferPrepend_focused {bytes : List Nat} :
    Focused good pool m₀ i (bufferPrepend (some v) bytes) (WindowEnds pool m₀ c v) c [] := by
  simp only [bufferPrepend]
  refine focused_bufferOwned place (fun owns => ?_) (fun other => focused_done (.foreign other))
  simp only
  refine focused_bufferHeadroom place owns ?_
  split
  · exact focused_done (WindowEnds.still within owns)
  have placed := place
  subst place
  refine focused_read (·.region.offset) (fun _ _ _ => rfl) (focused_copyIn fun payload => ?_)
  exact (setRegion_focused placed capacity within).mono fun _ _ _ ends => ends owns

theorem bufferTrimFront_focused {length : Nat} :
    Focused good pool m₀ i (bufferTrimFront (some v) length) (WindowEnds pool m₀ c v) c [] := by
  simp only [bufferTrimFront]
  refine focused_bufferOwned place (fun owns => ?_) (fun other => focused_done (.foreign other))
  simp only
  split
  · exact focused_done (WindowEnds.still within owns)
  have placed := place
  subst place
  refine focused_read (·.region.offset) (fun _ _ _ => rfl) ?_
  exact bufferSetRegion_focused placed capacity within

theorem bufferTrimBack_focused {length : Nat} :
    Focused good pool m₀ i (bufferTrimBack (some v) length) (WindowEnds pool m₀ c v) c [] := by
  simp only [bufferTrimBack]
  refine focused_bufferOwned place (fun owns => ?_) (fun other => focused_done (.foreign other))
  simp only
  split
  · exact focused_done (WindowEnds.still within owns)
  have placed := place
  subst place
  refine focused_read (·.region.offset) (fun _ _ _ => rfl) ?_
  exact bufferSetRegion_focused placed capacity within

end Windows

/-- How a change of the limits ends. -/
def LimitEnds (m₀ : Mem) (c : SlotCore) (v : View) (status : Status) (c' : SlotCore)
    (log : List TraceRecord) : Prop :=
  log = [] ∧ ((¬Owns m₀ c v ∧ status = .invalidBuffer ∧ c' = c) ∨
    (Owns m₀ c v ∧ status = .ok ∧ ∃ hopLimit deadlineNs, c' = { c with hopLimit, deadlineNs }))

theorem bufferSetLimits_focused {v : View} {hopLimit deadline : Nat} (place : v.slotId = i) :
    Focused good pool m₀ i (bufferSetLimits (some v) hopLimit deadline) (LimitEnds m₀ c v) c [] := by
  simp only [bufferSetLimits]
  refine focused_bufferOwned place (fun owns => ?_)
    (fun other => focused_done ⟨rfl, .inl ⟨other, rfl, rfl⟩⟩)
  subst place
  exact focused_write (focused_write (focused_done ⟨rfl, .inr ⟨owns, rfl, _, _, rfl⟩⟩))

/-- How `zipc_buffer_from_handle` ends: it only reads. -/
def HandleEnds (pool : Pool) (m₀ : Mem) (i : Nat) (c : SlotCore) (handle owner : Nat)
    (result : Except Status View) (c' : SlotCore) (log : List TraceRecord) : Prop :=
  c' = c ∧ log = [] ∧ ((∃ status, result = .error status) ∨
    (result = .ok (c.view pool i handle) ∧ i < pool.slotCount ∧
      c.generation = handleGeneration handle ∧ c.state = .owned ∧ c.ownerId = owner ∧
      c.ownerEpoch = m₀.epoch owner))

theorem fromHandle_focused {handle owner : Nat}
    (well : handleSlotId handle < pool.slotCount → SlotWell pool c) :
    Focused good pool m₀ (handleSlotId handle) (bufferFromHandle pool handle owner)
      (HandleEnds pool m₀ (handleSlotId handle) c handle owner) c [] := by
  have refused {status : Status} : HandleEnds pool m₀ (handleSlotId handle) c handle owner
      (.error status) c [] := ⟨rfl, rfl, .inl ⟨status, rfl⟩⟩
  simp only [bufferFromHandle]
  split
  · exact focused_done refused
  split
  · exact focused_done refused
  rename_i inside
  simp only [lift_bind]
  refine focused_loadGeneration ?_
  split
  · exact focused_done refused
  rename_i generation
  refine focused_loadState ?_
  split
  · exact focused_done refused
  rename_i state
  rw [not_not] at state
  refine focused_read (·.ownerId) (fun _ _ _ => rfl) ?_
  split
  · exact focused_done refused
  rename_i owned
  refine focused_read (·.ownerEpoch) (fun _ _ _ => rfl) (focused_registeredEpoch ?_)
  split
  · exact focused_done refused
  rename_i current
  have holds : c.Holds pool := by
    have slot := well (Nat.lt_of_not_le inside)
    simp only [SlotWell, state] at slot
    exact slot.2.2.2.1
  refine makeView_focused holds.region ⟨rfl, rfl, .inr ⟨rfl, ?_⟩⟩
  exact ⟨Nat.lt_of_not_le inside, not_not.mp generation, state, not_not.mp owned,
    not_not.mp current⟩

end Calls

end Zipc
