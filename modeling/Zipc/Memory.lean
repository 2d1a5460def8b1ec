import Zipc.Visited
import Zipc.Lib.Interleaving

/-! # The shared memory of a pool and its atomic actions

`zipc_slot_control_t`, the pool header with its component table, descriptor rings,
and the part of the platform that the protocol sees: payload page permissions, the
clock, event counters and the records passed to the trace hook. An action is one
shared access of the C code: an atomic load, store or compare-and-exchange, one plain
field access, or one call of the platform. All links and views of the model belong to
one pool, whose fixed header fields are the parameter `Pool` of every operation.
-/

namespace Zipc

open Atomic

/-- The fixed part of an attached pool: header geometry, identity and flags. -/
structure Pool where
  slotCount : Nat
  slotCapacity : Nat
  poolId : Nat
  /-- `ZIPC_POOL_F_STRICT_OWNERSHIP`. -/
  strict : Bool
  slotCount_lt : slotCount < u32 := by decide
  slotCapacity_lt : slotCapacity < u32 := by decide
  deriving Repr, DecidableEq

/-- A pool with a single slot of 64 bytes. -/
def oneSlot : Pool := { slotCount := 1, slotCapacity := 64, poolId := 1, strict := false }

def smallPool : Pool := { slotCount := 2, slotCapacity := 64, poolId := 7, strict := true }

structure Region where
  offset : Nat
  length : Nat
  deriving Repr, DecidableEq, Inhabited

structure Identity where
  id : Nat
  parentId : Nat
  deriving Repr, DecidableEq, Inhabited

structure TraceEntry where
  timestampNs : Nat
  sequence : Nat
  componentId : Nat
  event : TraceEvent
  deriving Repr, DecidableEq, Inhabited

/-- `zipc_trace_record_t`, as passed to the trace hook. -/
structure TraceRecord where
  timestampNs : Nat
  bufferId : Nat
  parentId : Nat
  handle : Nat
  poolId : Nat
  transferSequence : Nat
  componentId : Nat
  event : TraceEvent
  deriving Repr, DecidableEq, Inhabited

/-- `zipc_message_t`, the descriptor of one transfer. -/
structure Message where
  handle : Nat
  poolId : Nat
  sourceComponent : Nat
  destinationComponent : Nat
  transferSequence : Nat
  flags : Nat
  deriving Repr, DecidableEq, Inhabited

/-- `zipc_slot_control_t`. -/
structure SlotControl where
  state : SlotState
  generation : Nat
  ownerId : Nat
  nextOwnerId : Nat
  ownerEpoch : Nat
  hopCount : Nat
  hopLimit : Nat
  visited : VisitedSet
  identity : Identity
  region : Region
  transferSequence : Nat
  payloadType : Nat
  flags : Nat
  errorFlags : Nat
  acquiredNs : Nat
  deadlineNs : Nat
  traceCount : Nat
  recoveryCount : Nat
  claimToken : Nat
  claimPreviousSequence : Nat
  claimPreviousRegion : Region
  claimPreviousOwner : Nat
  claimPreviousOwnerEpoch : Nat
  transferLinkId : Nat
  transferSourceId : Nat
  transferSourceEpoch : Nat
  transferHopCount : Nat
  transferAcquiredNs : Nat
  transferVisited : VisitedSet
  trace : Fin 8 → TraceEntry
  deriving Inhabited, DecidableEq

/-- One plain store to a field of a slot control, or the relaxed store of its generation. -/
inductive SlotWrite where
  | generation (v : Nat)
  | ownerId (v : Nat)
  | nextOwnerId (v : Nat)
  | ownerEpoch (v : Nat)
  | hopCount (v : Nat)
  | hopLimit (v : Nat)
  | visited (v : VisitedSet)
  | identityId (v : Nat)
  | identityParentId (v : Nat)
  | regionOffset (v : Nat)
  | regionLength (v : Nat)
  | transferSequence (v : Nat)
  | payloadType (v : Nat)
  | flags (v : Nat)
  | errorFlags (v : Nat)
  | acquiredNs (v : Nat)
  | deadlineNs (v : Nat)
  | traceCount (v : Nat)
  | recoveryCount (v : Nat)
  | claimPreviousSequence (v : Nat)
  | claimPreviousRegionOffset (v : Nat)
  | claimPreviousRegionLength (v : Nat)
  | claimPreviousOwner (v : Nat)
  | claimPreviousOwnerEpoch (v : Nat)
  | transferLinkId (v : Nat)
  | transferSourceId (v : Nat)
  | transferSourceEpoch (v : Nat)
  | transferHopCount (v : Nat)
  | transferAcquiredNs (v : Nat)
  | transferVisited (v : VisitedSet)
  | traceEntry (k : Fin 8) (v : TraceEntry)
  | traceClear

def SlotWrite.apply (s : SlotControl) : SlotWrite → SlotControl
  | .generation v => { s with generation := v }
  | .ownerId v => { s with ownerId := v }
  | .nextOwnerId v => { s with nextOwnerId := v }
  | .ownerEpoch v => { s with ownerEpoch := v }
  | .hopCount v => { s with hopCount := v }
  | .hopLimit v => { s with hopLimit := v }
  | .visited v => { s with visited := v }
  | .identityId v => { s with identity := { s.identity with id := v } }
  | .identityParentId v => { s with identity := { s.identity with parentId := v } }
  | .regionOffset v => { s with region := { s.region with offset := v } }
  | .regionLength v => { s with region := { s.region with length := v } }
  | .transferSequence v => { s with transferSequence := v }
  | .payloadType v => { s with payloadType := v }
  | .flags v => { s with flags := v }
  | .errorFlags v => { s with errorFlags := v }
  | .acquiredNs v => { s with acquiredNs := v }
  | .deadlineNs v => { s with deadlineNs := v }
  | .traceCount v => { s with traceCount := v }
  | .recoveryCount v => { s with recoveryCount := v }
  | .claimPreviousSequence v => { s with claimPreviousSequence := v }
  | .claimPreviousRegionOffset v =>
      { s with claimPreviousRegion := { s.claimPreviousRegion with offset := v } }
  | .claimPreviousRegionLength v =>
      { s with claimPreviousRegion := { s.claimPreviousRegion with length := v } }
  | .claimPreviousOwner v => { s with claimPreviousOwner := v }
  | .claimPreviousOwnerEpoch v => { s with claimPreviousOwnerEpoch := v }
  | .transferLinkId v => { s with transferLinkId := v }
  | .transferSourceId v => { s with transferSourceId := v }
  | .transferSourceEpoch v => { s with transferSourceEpoch := v }
  | .transferHopCount v => { s with transferHopCount := v }
  | .transferAcquiredNs v => { s with transferAcquiredNs := v }
  | .transferVisited v => { s with transferVisited := v }
  | .traceEntry k v => { s with trace := Function.update s.trace k v }
  | .traceClear => { s with trace := fun _ => default }

/-- `zipc_component_status_t`. -/
structure ComponentStatus where
  lifecycle : Nat
  lastHeartbeatNs : Nat
  recoveredSlots : Nat
  deriving Repr, DecidableEq, Inhabited

/-- `zipc_transport_spsc_ring_t`. -/
structure Ring where
  producer : Nat
  consumer : Nat
  depth : Nat
  entries : Nat → Message
  deriving Inhabited

/-- The header counters that the protocol increments. -/
inductive Counter where
  | allocation | release | allocationFailure | protocolError | recovery
  deriving Repr, DecidableEq

structure Mem where
  slots : Nat → SlotControl
  components : Nat → ComponentStatus
  allocationCursor : Nat
  counters : Counter → Nat
  rings : Nat → Ring
  /-- Pending eventfd notifications of each ring. -/
  events : Nat → Nat
  /-- The payload pages of the slot are readable and writable in this process. -/
  access : Nat → Bool
  payload : Nat → Nat → Nat
  clock : Nat
  /-- The records passed to the trace hook, in order. -/
  hooked : List TraceRecord
  deriving Inhabited

namespace Mem

def setSlot (m : Mem) (i : Nat) (s : SlotControl) : Mem :=
  { m with slots := Function.update m.slots i s }

def setRing (m : Mem) (r : Nat) (ring : Ring) : Mem :=
  { m with rings := Function.update m.rings r ring }

def setComponent (m : Mem) (c : Nat) (status : ComponentStatus) : Mem :=
  { m with components := Function.update m.components c status }

end Mem

/-- A fresh identity: a nonzero 24-bit session and a sequence below `UINT32_MAX`. -/
structure GeneratedId where
  session : Nat
  sequence : Nat
  session_pos : 0 < session
  session_lt : session < 16777216
  sequence_lt : sequence < 4294967295

instance : Inhabited GeneratedId := ⟨⟨1, 0, by decide, by decide, by decide⟩⟩

/-- The inputs of the environment to one action. -/
structure Env where
  /-- What a page protection call of the platform returns. -/
  protect : Status := .ok
  /-- The identity that `generate_buffer_id` produces, or nothing for lack of entropy. -/
  identity : Option GeneratedId := some default
  /-- A weak compare-and-exchange fails spuriously. -/
  spurious : Bool := false
  /-- The eventfd accepts the write, or delivers the read. -/
  eventOk : Bool := true
  /-- The timeout of a polling receive has passed. -/
  expired : Bool := true
  /-- What a transport outside shared memory returns from a send. -/
  sent : Status := .ok
  /-- What a transport outside shared memory returns from a receive. -/
  received : Except Status Message := .error .transport

instance : Inhabited Env := ⟨{}⟩

/-- The outcome of one blocking eventfd read. -/
inductive EventRead where
  | woken | blocked | failed
  deriving Repr, DecidableEq

inductive Act : Type → Type 1 where
  | loadState (i : Nat) : Act SlotState
  | storeState (i : Nat) (v : SlotState) : Act Unit
  /-- Strong compare-and-exchange of a state word; the answer is its success. -/
  | casState (i : Nat) (expected desired : SlotState) : Act Bool
  | loadToken (i : Nat) : Act Nat
  | storeToken (i : Nat) (v : Nat) : Act Unit
  /-- Strong compare-and-exchange of a claim token; the answer is the token it found,
      so it succeeded exactly when the answer is `expected`. -/
  | casToken (i : Nat) (expected desired : Nat) : Act Nat
  | loadGeneration (i : Nat) : Act Nat
  /-- Plain read of one field of a slot control. -/
  | read {α : Type} (i : Nat) (field : SlotControl → α) : Act α
  | write (i : Nat) (w : SlotWrite) : Act Unit
  | loadLifecycle (component : Nat) : Act Nat
  /-- Compare-and-exchange of a lifecycle, weak or strong; answers success and the word. -/
  | casLifecycle (weak : Bool) (component expected desired : Nat) : Act (Bool × Nat)
  | storeHeartbeat (component v : Nat) : Act Unit
  | addRecoveredSlot (component : Nat) : Act Unit
  | loadCursor : Act Nat
  | storeCursor (v : Nat) : Act Unit
  | count (counter : Counter) : Act Unit
  | loadProducer (r : Nat) : Act Nat
  | storeProducer (r v : Nat) : Act Unit
  | loadConsumer (r : Nat) : Act Nat
  | storeConsumer (r v : Nat) : Act Unit
  | readDepth (r : Nat) : Act Nat
  | readEntry (r k : Nat) : Act Message
  | writeEntry (r k : Nat) (message : Message) : Act Unit
  | eventWrite (r : Nat) : Act Bool
  | eventRead (r : Nat) : Act EventRead
  | pollExpired : Act Bool
  | externalSend (message : Message) : Act Status
  | externalReceive : Act (Except Status Message)
  | protect (i : Nat) (readWrite : Bool) : Act Status
  | now : Act Nat
  /-- Time passes; no thread of the protocol performs this. -/
  | tick (v : Nat) : Act Unit
  | generateBufferId (component : Nat) : Act (Except Status Nat)
  | copyIn (i offset : Nat) (bytes : List Nat) : Act Unit
  /-- The trace hook is called with the current contents of slot `i`. -/
  | hookSlot (pool : Pool) (i component : Nat) (event : TraceEvent) (timestamp : Nat) : Act Unit
  /-- The trace hook is called with a given record. -/
  | hook (record : TraceRecord) : Act Unit

def Mem.hookRecord (m : Mem) (pool : Pool) (i component : Nat) (event : TraceEvent)
    (timestamp : Nat) : TraceRecord where
  timestampNs := timestamp
  bufferId := (m.slots i).identity.id
  parentId := (m.slots i).identity.parentId
  handle := handleMake i (m.slots i).generation
  poolId := pool.poolId
  transferSequence := (m.slots i).transferSequence
  componentId := component
  event := event

def Act.exec : {β : Type} → Act β → Env → Mem → β × Mem
  | _, .loadState i, _, m => ((m.slots i).state, m)
  | _, .storeState i v, _, m => ((), m.setSlot i { m.slots i with state := v })
  | _, .casState i expected desired, _, m =>
      if (m.slots i).state = expected then
        (true, m.setSlot i { m.slots i with state := desired })
      else (false, m)
  | _, .loadToken i, _, m => ((m.slots i).claimToken, m)
  | _, .storeToken i v, _, m => ((), m.setSlot i { m.slots i with claimToken := v })
  | _, .casToken i expected desired, _, m =>
      ((m.slots i).claimToken,
        if (m.slots i).claimToken = expected then
          m.setSlot i { m.slots i with claimToken := desired }
        else m)
  | _, .loadGeneration i, _, m => ((m.slots i).generation, m)
  | _, .read i field, _, m => (field (m.slots i), m)
  | _, .write i w, _, m => ((), m.setSlot i (w.apply (m.slots i)))
  | _, .loadLifecycle c, _, m => ((m.components c).lifecycle, m)
  | _, .casLifecycle weak c expected desired, e, m =>
      if (m.components c).lifecycle = expected ∧ (weak && e.spurious) = false then
        ((true, expected), m.setComponent c { m.components c with lifecycle := desired })
      else ((false, (m.components c).lifecycle), m)
  | _, .storeHeartbeat c v, _, m =>
      ((), m.setComponent c { m.components c with lastHeartbeatNs := v })
  | _, .addRecoveredSlot c, _, m =>
      ((), m.setComponent c
        { m.components c with
          recoveredSlots := ((m.components c).recoveredSlots + 1) % (u32 * u32) })
  | _, .loadCursor, _, m => (m.allocationCursor, m)
  | _, .storeCursor v, _, m => ((), { m with allocationCursor := v })
  | _, .count k, _, m =>
      ((), { m with
        counters := Function.update m.counters k ((m.counters k + 1) % (u32 * u32)) })
  | _, .loadProducer r, _, m => ((m.rings r).producer, m)
  | _, .storeProducer r v, _, m => ((), m.setRing r { m.rings r with producer := v })
  | _, .loadConsumer r, _, m => ((m.rings r).consumer, m)
  | _, .storeConsumer r v, _, m => ((), m.setRing r { m.rings r with consumer := v })
  | _, .readDepth r, _, m => ((m.rings r).depth, m)
  | _, .readEntry r k, _, m => ((m.rings r).entries k, m)
  | _, .writeEntry r k message, _, m =>
      ((), m.setRing r
        { m.rings r with entries := Function.update (m.rings r).entries k message })
  | _, .eventWrite r, e, m =>
      (e.eventOk,
        if e.eventOk then { m with events := Function.update m.events r (m.events r + 1) } else m)
  | _, .eventRead r, e, m =>
      if e.eventOk = false then (.failed, m)
      else if m.events r = 0 then (.blocked, m)
      else (.woken, { m with events := Function.update m.events r 0 })
  | _, .pollExpired, e, m => (e.expired, m)
  | _, .externalSend _, e, m => (e.sent, m)
  | _, .externalReceive, e, m => (e.received, m)
  | _, .protect i readWrite, e, m =>
      (e.protect,
        if e.protect = .ok then { m with access := Function.update m.access i readWrite } else m)
  | _, .now, _, m => (m.clock, m)
  | _, .tick v, _, m => ((), { m with clock := v })
  | _, .generateBufferId c, e, m =>
      (match e.identity with
        | some fresh => .ok (bufferIdMake c fresh.session fresh.sequence)
        | none => .error .entropyUnavailable, m)
  | _, .copyIn i offset bytes, _, m =>
      ((), { m with
        payload := Function.update m.payload i (fun k =>
          if offset ≤ k ∧ k < offset + bytes.length then bytes.getD (k - offset) 0
          else m.payload i k) })
  | _, .hookSlot pool i component event timestamp, _, m =>
      ((), { m with hooked := m.hooked ++ [m.hookRecord pool i component event timestamp] })
  | _, .hook record, _, m => ((), { m with hooked := m.hooked ++ [record] })

instance : Semantics Act Env Mem := ⟨Act.exec⟩

@[simp] theorem exec_eq {β : Type} (action : Act β) (e : Env) (m : Mem) :
    Semantics.exec action e m = action.exec e m := rfl

/-- Programs over the shared memory of a pool. -/
abbrev Prog := Program Act

namespace Mem

@[simp] theorem slots_setSlot (m : Mem) (i : Nat) (s : SlotControl) :
    (m.setSlot i s).slots = Function.update m.slots i s := rfl

@[simp] theorem setSlot_setSlot (m : Mem) (i : Nat) (s t : SlotControl) :
    (m.setSlot i s).setSlot i t = m.setSlot i t := by
  simp [setSlot]

@[simp] theorem setSlot_self (m : Mem) (i : Nat) : m.setSlot i (m.slots i) = m := by
  simp [setSlot]

/-- A store that leaves a field of its slot as it is leaves it in every slot. -/
theorem setSlot_proj {τ : Type} (field : SlotControl → τ) (m : Mem) (j : Nat) {s : SlotControl}
    (same : field s = field (m.slots j)) (i : Nat) :
    field ((m.setSlot j s).slots i) = field (m.slots i) := by
  rw [slots_setSlot]
  by_cases h : i = j
  · subst h
    rw [Function.update_self, same]
  · rw [Function.update_of_ne h]

end Mem

/-! ## Formatting -/

/-- A slot control of a formatted pool: zeroed memory, no owner and no next owner. -/
def formattedSlot : SlotControl where
  state := .free
  generation := 0
  ownerId := invalidComponentId
  nextOwnerId := invalidComponentId
  ownerEpoch := 0
  hopCount := 0
  hopLimit := 0
  visited := .empty
  identity := ⟨0, 0⟩
  region := ⟨0, 0⟩
  transferSequence := 0
  payloadType := 0
  flags := 0
  errorFlags := 0
  acquiredNs := 0
  deadlineNs := 0
  traceCount := 0
  recoveryCount := 0
  claimToken := 0
  claimPreviousSequence := 0
  claimPreviousRegion := ⟨0, 0⟩
  claimPreviousOwner := 0
  claimPreviousOwnerEpoch := 0
  transferLinkId := 0
  transferSourceId := 0
  transferSourceEpoch := 0
  transferHopCount := 0
  transferAcquiredNs := 0
  transferVisited := .empty
  trace := fun _ => default

/-- `zipc_pool_format` on memory that passed its checks: the slot controls, the
    components, the allocation cursor and the counters start afresh. -/
def poolFormat (pool : Pool) (m : Mem) : Mem :=
  { m with
    slots := fun i => if i < pool.slotCount then formattedSlot else m.slots i
    components := fun _ => ⟨componentLifecycleMake 0 .inactive, 0, 0⟩
    allocationCursor := 0
    counters := fun _ => 0 }

/-- The pool was just formatted. -/
def Formatted (pool : Pool) (m : Mem) : Prop := ∃ before, m = poolFormat pool before

theorem Formatted.slots {pool : Pool} {m : Mem} (formatted : Formatted pool m) {i : Nat}
    (inside : i < pool.slotCount) : m.slots i = formattedSlot := by
  obtain ⟨before, rfl⟩ := formatted
  simp [poolFormat, inside]

end Zipc
