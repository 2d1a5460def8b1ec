import Zipc.Memory

/-! # The slot protocol

Allocation, transfer, claim and release of one slot, as `zipc.c` performs them on the
slot control: take the claim token, take the state word into `CLAIMING`, work on the
plain fields, publish the next state and clear the token. Every access of the shared
control is one action, in the order of the C code; pointer arguments are never null.
-/

namespace Zipc

open Atomic

section Actions

abbrev loadState (i : Nat) : Prog SlotState := .lift (.loadState i)
abbrev storeState (i : Nat) (v : SlotState) : Prog Unit := .lift (.storeState i v)
abbrev casState (i : Nat) (expected desired : SlotState) : Prog Bool :=
  .lift (.casState i expected desired)
abbrev loadToken (i : Nat) : Prog Nat := .lift (.loadToken i)
abbrev storeToken (i v : Nat) : Prog Unit := .lift (.storeToken i v)
abbrev casToken (i expected desired : Nat) : Prog Nat := .lift (.casToken i expected desired)
abbrev loadGeneration (i : Nat) : Prog Nat := .lift (.loadGeneration i)
abbrev read {α : Type} (i : Nat) (field : SlotControl → α) : Prog α := .lift (.read i field)
abbrev write (i : Nat) (w : SlotWrite) : Prog Unit := .lift (.write i w)
abbrev loadLifecycle (component : Nat) : Prog Nat := .lift (.loadLifecycle component)
abbrev count (counter : Counter) : Prog Unit := .lift (.count counter)
abbrev now : Prog Nat := .lift .now

/-- Consecutive plain stores to one slot control. -/
def writeAll (i : Nat) : List SlotWrite → Prog Unit
  | [] => pure ()
  | w :: ws => do
      write i w
      writeAll i ws

end Actions

/-! ## Components -/

/-- The epoch that `registered_epoch` gets from a lifecycle word. -/
def epochOf (lifecycle : Nat) : Nat :=
  if componentLifecycleState lifecycle = ComponentState.inactive.toNat then 0
  else componentLifecycleEpoch lifecycle

/-- `registered_epoch`. -/
def registeredEpoch (component : Nat) : Prog Nat :=
  if componentIdValid component then do
    let lifecycle ← loadLifecycle component
    pure (epochOf lifecycle)
  else pure 0

/-- `component_epoch_current`. -/
def componentEpochCurrent (component epoch : Nat) : Prog Bool :=
  if componentIdValid component = false ∨ epoch = 0 then pure false
  else do
    let lifecycle ← loadLifecycle component
    pure (componentLifecycleEpoch lifecycle = epoch ∧
      componentLifecycleState lifecycle ≠ ComponentState.inactive.toNat)

/-- `component_epoch_recovering`. -/
def componentEpochRecovering (component epoch : Nat) : Prog Bool :=
  if componentIdValid component = false ∨ epoch = 0 then pure false
  else do
    let lifecycle ← loadLifecycle component
    pure (lifecycle = componentLifecycleMake epoch .recovering)

/-! ## Tracing and protection -/

/-- `trace_slot`. -/
def traceSlot (pool : Pool) (i component : Nat) (event : TraceEvent) : Prog Unit := do
  let traced ← read i (·.traceCount)
  let timestamp ← now
  let sequence ← read i (·.transferSequence)
  write i (.traceEntry (Fin.ofNat 8 traced) ⟨timestamp, sequence, component, event⟩)
  write i (.traceCount ((traced + 1) % u32))
  .lift (.hookSlot pool i component event timestamp)

/-- `record_protocol_error` without a slot. -/
def recordProtocolError (pool : Pool) (component : Nat) : Prog Unit := do
  count .protocolError
  let timestamp ← now
  .lift (.hook ⟨timestamp, 0, 0, u32 * u32 - 1, pool.poolId, 0, component, .error⟩)

/-- `record_protocol_error` for a slot that the caller holds. -/
def recordSlotError (pool : Pool) (i component : Nat) : Prog Unit := do
  count .protocolError
  traceSlot pool i component .error

/-- `trace_external_event`. -/
def traceExternalEvent (pool : Pool) (handle sequence component : Nat) (event : TraceEvent) :
    Prog Unit := do
  let timestamp ← now
  .lift (.hook ⟨timestamp, 0, 0, handle, pool.poolId, sequence, component, event⟩)

/-- `protect_slot`. -/
def protectSlot (pool : Pool) (i : Nat) (readWrite : Bool) : Prog Status :=
  if pool.strict = false then pure .ok
  else if pool.slotCount ≤ i then pure .invalidHandle
  else .lift (.protect i readWrite)

/-- `clear_claim_token`. -/
def clearClaimToken (i token : Nat) : Prog Unit := do
  let _ ← casToken i token 0
  pure ()

/-- Store the next state of a held slot and give its token back. -/
def publish (i : Nat) (state : SlotState) (claim : Nat) : Prog Unit := do
  storeState i state
  clearClaimToken i claim

/-- `free_claiming_slot`. -/
def freeClaimingSlot (i : Nat) : Prog Unit := do
  let token ← loadToken i
  writeAll i [.ownerId invalidComponentId, .nextOwnerId invalidComponentId,
    .regionOffset 0, .regionLength 0]
  publish i .free token

/-! ## Views -/

/-- `zipc_buffer_impl_t` of a valid buffer; `data` is relative to the slot's base. An
    invalidated `zipc_buffer_t` is `none`. -/
structure View where
  handle : Nat
  slotId : Nat
  data : Nat
  length : Nat
  capacity : Nat
  owner : Nat
  ownerEpoch : Nat
  poolId : Nat
  deriving Repr, DecidableEq, Inhabited

/-- `make_view`. -/
def makeView (pool : Pool) (slotId handle : Nat) : Prog (Except Status View) := do
  let offset ← read slotId (·.region.offset)
  let length ← read slotId (·.region.length)
  if offset > pool.slotCapacity ∨ length > pool.slotCapacity - offset then
    pure (.error .regionOverflow)
  else do
    let owner ← read slotId (·.ownerId)
    let epoch ← read slotId (·.ownerEpoch)
    pure (.ok { handle, slotId, data := offset, length, capacity := pool.slotCapacity, owner,
                ownerEpoch := epoch, poolId := pool.poolId })

/-- The test `slot->owner_id == owner && slot->owner_epoch == epoch`. -/
def ownedBy (i owner epoch : Nat) : Prog Bool := do
  let id ← read i (·.ownerId)
  if id ≠ owner then pure false
  else do
    let current ← read i (·.ownerEpoch)
    pure (current = epoch)

/-- `buffer_owned`. -/
def bufferOwned : Option View → Prog Bool
  | none => pure false
  | some v => do
      let generation ← loadGeneration v.slotId
      if generation ≠ handleGeneration v.handle then pure false
      else do
        let state ← loadState v.slotId
        if state ≠ .owned then pure false
        else do
          let same ← ownedBy v.slotId v.owner v.ownerEpoch
          if same = false then pure false
          else do
            let epoch ← registeredEpoch v.owner
            pure (epoch = v.ownerEpoch)

/-! ## Allocation -/

structure AllocateArgs where
  allocator : Nat
  parentId : Nat
  offset : Nat
  length : Nat
  hopLimit : Nat
  deadlineDurationNs : Nat
  enablePayload : Bool
  deriving Repr, DecidableEq, Inhabited

/-- The generation after `old`; zero is skipped. -/
def nextGeneration (old : Nat) : Nat := if (old + 1) % u32 = 0 then 1 else (old + 1) % u32

/-- Give up an allocation that already holds its slot. -/
def allocateAbort (pool : Pool) (allocator slotId : Nat) (revoke : Bool) (status : Status) :
    Prog (Status × Option View) := do
  traceSlot pool slotId allocator .error
  if revoke then do
    let _ ← protectSlot pool slotId false
    freeClaimingSlot slotId
    count .allocationFailure
    pure (status, none)
  else do
    freeClaimingSlot slotId
    count .allocationFailure
    pure (status, none)

/-- The metadata that a new buffer starts with, before its clock-dependent fields. -/
def allocateFields (a : AllocateArgs) (epoch : Nat) : List SlotWrite :=
  [.ownerId a.allocator, .nextOwnerId invalidComponentId, .ownerEpoch epoch, .hopCount 1,
    .hopLimit (if a.hopLimit ≠ 0 then a.hopLimit else hopLimitUnlimited),
    .visited .empty, .visited (VisitedSet.empty.add a.allocator),
    .identityId 0, .identityParentId a.parentId, .regionOffset a.offset,
    .regionLength a.length, .transferSequence 0, .payloadType 0, .flags 0, .errorFlags 0]

/-- Recovery and trace fields that a new buffer starts with. -/
def allocateResets : List SlotWrite :=
  [.traceCount 0, .recoveryCount 0, .claimPreviousSequence 0, .claimPreviousRegionOffset 0,
    .claimPreviousRegionLength 0, .claimPreviousOwner invalidComponentId,
    .claimPreviousOwnerEpoch 0, .transferLinkId 0, .transferSourceId invalidComponentId,
    .transferSourceEpoch 0, .transferHopCount 0, .transferAcquiredNs 0,
    .transferVisited .empty, .traceClear]

/-- A relative deadline that would reach `ZIPC_DEADLINE_NONE` means no deadline. -/
def deadlineAfter (acquired duration : Nat) : Nat :=
  if duration = 0 ∨ duration ≥ deadlineNone - acquired then deadlineNone
  else acquired + duration

/-- The payload of a new buffer is made accessible where the caller asks for it. -/
def enablePayload (pool : Pool) (a : AllocateArgs) (slotId : Nat) : Prog Status :=
  if a.enablePayload then protectSlot pool slotId true else pure .ok

/-- The part of `buffer_allocate_internal` that holds the slot. -/
def allocateClaimed (pool : Pool) (a : AllocateArgs) (epoch token slotId : Nat) :
    Prog (Status × Option View) := do
  let old ← loadGeneration slotId
  let generation := nextGeneration old
  write slotId (.generation generation)
  writeAll slotId (allocateFields a epoch)
  let acquired ← now
  write slotId (.acquiredNs acquired)
  write slotId (.deadlineNs (deadlineAfter acquired a.deadlineDurationNs))
  writeAll slotId allocateResets
  let fresh ← .lift (.generateBufferId a.allocator)
  match fresh with
  | .error status => allocateAbort pool a.allocator slotId false status
  | .ok id => do
      write slotId (.identityId id)
      let status ← enablePayload pool a slotId
      if status ≠ .ok then allocateAbort pool a.allocator slotId true status
      else do
        let view ← makeView pool slotId (handleMake slotId generation)
        match view with
        | .error failure => allocateAbort pool a.allocator slotId a.enablePayload failure
        | .ok v => do
            traceSlot pool slotId a.allocator .allocate
            publish slotId .owned token
            .lift (.storeCursor ((slotId + 1) % u32 % pool.slotCount))
            count .allocation
            pure (.ok, some v)

/-- One round of the scan of `buffer_allocate_internal`; `none` goes on to the next slot. -/
def allocateTry (pool : Pool) (a : AllocateArgs) (epoch token slotId : Nat) :
    Prog (Option (Status × Option View)) := do
  let state ← loadState slotId
  if state ≠ .free then pure none
  else do
    let observed ← casToken slotId 0 token
    if observed ≠ 0 then pure none
    else do
      let won ← casState slotId .free .claiming
      if won = false then do
        let _ ← casToken slotId token 0
        pure none
      else do
        let result ← allocateClaimed pool a epoch token slotId
        pure (some result)

/-- The scan of `buffer_allocate_internal` from round `n`, with `left` rounds to go. -/
def allocateScan (pool : Pool) (a : AllocateArgs) (epoch token start : Nat) :
    Nat → Nat → Prog (Status × Option View)
  | 0, _ => do
      count .allocationFailure
      pure (.noBuffer, none)
  | left + 1, n => do
      let tried ← allocateTry pool a epoch token ((start + n) % u32 % pool.slotCount)
      match tried with
      | some result => pure result
      | none => allocateScan pool a epoch token start left (n + 1)

/-- The epoch of a new buffer's owner. -/
def allocateEpoch (a : AllocateArgs) (ownerEpoch : Nat) : Prog Nat :=
  if ownerEpoch ≠ 0 then pure ownerEpoch else registeredEpoch a.allocator

/-- `buffer_allocate_internal`. -/
def bufferAllocateInternal (pool : Pool) (a : AllocateArgs) (ownerEpoch : Nat) :
    Prog (Status × Option View) :=
  if componentIdValid a.allocator = false ∨ (a.parentId ≠ 0 ∧ bufferIdValid a.parentId = false) ∨
      a.offset > pool.slotCapacity ∨ a.length > pool.slotCapacity - a.offset then
    pure (.invalidArgument, none)
  else do
    let epoch ← allocateEpoch a ownerEpoch
    let token := claimTokenMake .allocate a.allocator epoch
    let cursor ← .lift .loadCursor
    allocateScan pool a epoch token (cursor % pool.slotCount) pool.slotCount 0

/-- `zipc_buffer_allocate`. -/
def bufferAllocate (pool : Pool) (allocator parentId : Nat) : Prog (Status × Option View) :=
  bufferAllocateInternal pool
    { allocator, parentId, offset := 0, length := 0, hopLimit := hopLimitUnlimited,
      deadlineDurationNs := 0, enablePayload := true } 0

/-- `zipc_buffer_from_handle`. -/
def bufferFromHandle (pool : Pool) (handle expectedOwner : Nat) : Prog (Except Status View) :=
  if componentIdValid expectedOwner = false then pure (.error .invalidArgument)
  else if pool.slotCount ≤ handleSlotId handle then pure (.error .invalidHandle)
  else do
    let slotId := handleSlotId handle
    let generation ← loadGeneration slotId
    if generation ≠ handleGeneration handle then pure (.error .staleHandle)
    else do
      let state ← loadState slotId
      if state ≠ .owned then pure (.error .invalidState)
      else do
        let owner ← read slotId (·.ownerId)
        if owner ≠ expectedOwner then pure (.error .notOwner)
        else do
          let epoch ← read slotId (·.ownerEpoch)
          let current ← registeredEpoch expectedOwner
          if epoch ≠ current then pure (.error .componentStale)
          else makeView pool slotId handle

/-! ## Transfer -/

/-- The tests of a held slot against its deadline and hop limit. -/
def limitsExceeded (i : Nat) : Prog (Option Status) := do
  let time ← now
  let deadline ← read i (·.deadlineNs)
  if deadline ≠ deadlineNone ∧ time > deadline then pure (some .deadline)
  else do
    let limit ← read i (·.hopLimit)
    if limit = hopLimitUnlimited then pure none
    else do
      let hops ← read i (·.hopCount)
      pure (if hops ≥ limit then some .hopLimit else none)

/-- Fill in the transfer metadata of a held slot and publish it in `TRANSFER`. -/
def prepareTransfer (pool : Pool) (handle slotId currentOwner nextOwner linkId claim : Nat) :
    Prog (Except Status Message) := do
  write slotId (.nextOwnerId nextOwner)
  write slotId (.transferLinkId linkId)
  write slotId (.transferSourceId currentOwner)
  let epoch ← read slotId (·.ownerEpoch)
  write slotId (.transferSourceEpoch epoch)
  let hops ← read slotId (·.hopCount)
  write slotId (.transferHopCount hops)
  let acquired ← read slotId (·.acquiredNs)
  write slotId (.transferAcquiredNs acquired)
  let visited ← read slotId (·.visited)
  write slotId (.transferVisited visited)
  let sequence ← read slotId (·.transferSequence)
  write slotId (.transferSequence ((sequence + 1) % u32))
  traceSlot pool slotId currentOwner .send
  publish slotId .transfer claim
  pure (.ok { handle, poolId := pool.poolId, sourceComponent := currentOwner,
              destinationComponent := nextOwner, transferSequence := (sequence + 1) % u32,
              flags := 0 })

/-- The part of `buffer_prepare_transfer_internal` that holds the slot. -/
def prepareClaimed (pool : Pool)
    (handle slotId currentOwner nextOwner linkId ownerEpoch claim : Nat) :
    Prog (Except Status Message) := do
  let generation ← loadGeneration slotId
  if generation ≠ handleGeneration handle then do
    publish slotId .owned claim
    recordProtocolError pool currentOwner
    pure (.error .staleHandle)
  else do
    let same ← ownedBy slotId currentOwner ownerEpoch
    if same = false then do
      publish slotId .owned claim
      recordProtocolError pool currentOwner
      pure (.error .notOwner)
    else do
      let exceeded ← limitsExceeded slotId
      match exceeded with
      | some status => do
          recordSlotError pool slotId currentOwner
          publish slotId .owned claim
          pure (.error status)
      | none => do
          let status ← protectSlot pool slotId false
          if status ≠ .ok then do
            recordSlotError pool slotId currentOwner
            publish slotId .owned claim
            pure (.error status)
          else prepareTransfer pool handle slotId currentOwner nextOwner linkId claim

/-- `buffer_prepare_transfer_internal`. -/
def bufferPrepareTransferInternal (pool : Pool) (handle currentOwner nextOwner linkId : Nat) :
    Prog (Except Status Message) :=
  if componentIdValid currentOwner = false ∨ componentIdValid nextOwner = false then
    pure (.error .invalidArgument)
  else if pool.slotCount ≤ handleSlotId handle then do
    recordProtocolError pool currentOwner
    pure (.error .invalidHandle)
  else do
    let slotId := handleSlotId handle
    let ownerEpoch ← registeredEpoch currentOwner
    let state ← loadState slotId
    if state ≠ .owned then do
      recordProtocolError pool currentOwner
      pure (.error .invalidState)
    else do
      let generation ← loadGeneration slotId
      if generation ≠ handleGeneration handle then do
        recordProtocolError pool currentOwner
        pure (.error .staleHandle)
      else do
        let same ← ownedBy slotId currentOwner ownerEpoch
        if same = false then do
          recordProtocolError pool currentOwner
          pure (.error .notOwner)
        else do
          let sequence ← read slotId (·.transferSequence)
          write slotId (.claimPreviousSequence sequence)
          let claim := claimTokenMake .send currentOwner ownerEpoch
          let observed ← casToken slotId 0 claim
          if observed ≠ 0 then pure (.error .invalidState)
          else do
            let won ← casState slotId .owned .claiming
            if won = false then do
              let _ ← casToken slotId claim 0
              recordProtocolError pool currentOwner
              pure (.error .invalidState)
            else prepareClaimed pool handle slotId currentOwner nextOwner linkId ownerEpoch claim

/-- `zipc_buffer_prepare_transfer`. -/
def bufferPrepareTransfer (pool : Pool) (handle currentOwner nextOwner : Nat) :
    Prog (Except Status Message) :=
  bufferPrepareTransferInternal pool handle currentOwner nextOwner 0

/-! ## Claim -/

/-- Put a rejected transfer back. -/
def claimReject (pool : Pool) (slotId receiver claim : Nat) (status : Status) :
    Prog (Status × Option View) := do
  publish slotId .transfer claim
  recordProtocolError pool receiver
  pure (status, none)

/-- Take over a transfer that passed validation. -/
def claimAccept (pool : Pool) (message : Message) (slotId receiver receiverEpoch time claim : Nat) :
    Prog (Status × Option View) := do
  write slotId (.ownerId receiver)
  write slotId (.nextOwnerId invalidComponentId)
  write slotId (.ownerEpoch receiverEpoch)
  let hops ← read slotId (·.transferHopCount)
  write slotId (.hopCount ((hops + 1) % u32))
  let visited ← read slotId (·.visited)
  write slotId (.visited (visited.add receiver))
  write slotId (.acquiredNs time)
  let status ← protectSlot pool slotId true
  if status ≠ .ok then do
    recordSlotError pool slotId receiver
    freeClaimingSlot slotId
    pure (status, none)
  else do
    let view ← makeView pool slotId message.handle
    match view with
    | .error failure => do
        recordSlotError pool slotId receiver
        let _ ← protectSlot pool slotId false
        freeClaimingSlot slotId
        pure (failure, none)
    | .ok v => do
        traceSlot pool slotId receiver .receive
        publish slotId .owned claim
        pure (.ok, some v)

/-- The part of `zipc_buffer_claim` that holds the slot. -/
def claimClaimed (pool : Pool) (message : Message) (slotId receiver receiverEpoch claim : Nat) :
    Prog (Status × Option View) := do
  let generation ← loadGeneration slotId
  if generation ≠ handleGeneration message.handle then
    claimReject pool slotId receiver claim .staleHandle
  else do
    let owner ← read slotId (·.ownerId)
    let next ← read slotId (·.nextOwnerId)
    if owner ≠ message.sourceComponent ∨ next ≠ receiver then
      claimReject pool slotId receiver claim .invalidReceiver
    else do
      let sequence ← read slotId (·.transferSequence)
      if sequence ≠ message.transferSequence then
        claimReject pool slotId receiver claim .sequenceMismatch
      else do
        let time ← now
        let deadline ← read slotId (·.deadlineNs)
        if deadline ≠ deadlineNone ∧ time > deadline then
          claimReject pool slotId receiver claim .deadline
        else do
          let limit ← read slotId (·.hopLimit)
          let hops ← read slotId (·.hopCount)
          if limit ≠ hopLimitUnlimited ∧ hops ≥ limit then
            claimReject pool slotId receiver claim .hopLimit
          else claimAccept pool message slotId receiver receiverEpoch time claim

/-- Take the token of a transfer; a token that its sender left behind is stolen. -/
def claimAcquire (slotId claim : Nat) : Prog Bool := do
  let observed ← casToken slotId 0 claim
  if observed = 0 then pure true
  else if claimTokenKind observed ≠ ClaimKind.send.toNat then pure false
  else do
    let state ← loadState slotId
    if state ≠ .transfer then pure false
    else do
      let found ← casToken slotId observed claim
      pure (found = observed)

/-- `zipc_buffer_claim`. -/
def bufferClaim (pool : Pool) (message : Message) (receiver : Nat) :
    Prog (Status × Option View) :=
  if componentIdValid receiver = false then pure (.invalidArgument, none)
  else if message.poolId ≠ pool.poolId then do
    recordProtocolError pool receiver
    pure (.invalidHandle, none)
  else if message.destinationComponent ≠ receiver then do
    recordProtocolError pool receiver
    pure (.invalidReceiver, none)
  else if pool.slotCount ≤ handleSlotId message.handle then do
    recordProtocolError pool receiver
    pure (.invalidHandle, none)
  else do
    let slotId := handleSlotId message.handle
    let state ← loadState slotId
    if state ≠ .transfer then do
      recordProtocolError pool receiver
      pure (.invalidState, none)
    else do
      let receiverEpoch ← registeredEpoch receiver
      let claim := claimTokenMake .receive receiver receiverEpoch
      let acquired ← claimAcquire slotId claim
      if acquired = false then do
        recordProtocolError pool receiver
        pure (.invalidState, none)
      else do
        let won ← casState slotId .transfer .claiming
        if won = false then do
          let _ ← casToken slotId claim 0
          recordProtocolError pool receiver
          pure (.invalidState, none)
        else claimClaimed pool message slotId receiver receiverEpoch claim

/-! ## Release -/

/-- The part of `zipc_pool_buffer_release` that holds the slot. -/
def releaseClaimed (pool : Pool) (slotId currentOwner ownerEpoch claim : Nat) : Prog Status := do
  let same ← ownedBy slotId currentOwner ownerEpoch
  if same = false then do
    publish slotId .owned claim
    pure .notOwner
  else do
    let status ← protectSlot pool slotId false
    if status ≠ .ok then do
      publish slotId .owned claim
      pure status
    else do
      traceSlot pool slotId currentOwner .release
      writeAll slotId [.ownerId invalidComponentId, .nextOwnerId invalidComponentId,
        .regionOffset 0, .regionLength 0]
      publish slotId .free claim
      count .release
      pure .ok

/-- `zipc_pool_buffer_release`. Unlike `buffer_prepare_transfer_internal` it does not
    look at the generation again once it holds the slot. -/
def poolBufferRelease (pool : Pool) (handle currentOwner : Nat) : Prog Status :=
  if componentIdValid currentOwner = false then pure .invalidArgument
  else if pool.slotCount ≤ handleSlotId handle then pure .invalidHandle
  else do
    let slotId := handleSlotId handle
    let generation ← loadGeneration slotId
    if generation ≠ handleGeneration handle then pure .staleHandle
    else do
      let ownerEpoch ← registeredEpoch currentOwner
      let state ← loadState slotId
      if state ≠ .owned then pure .invalidState
      else do
        let same ← ownedBy slotId currentOwner ownerEpoch
        if same = false then pure .notOwner
        else do
          let offset ← read slotId (·.region.offset)
          write slotId (.claimPreviousRegionOffset offset)
          let length ← read slotId (·.region.length)
          write slotId (.claimPreviousRegionLength length)
          let owner ← read slotId (·.ownerId)
          write slotId (.claimPreviousOwner owner)
          let epoch ← read slotId (·.ownerEpoch)
          write slotId (.claimPreviousOwnerEpoch epoch)
          let claim := claimTokenMake .release currentOwner ownerEpoch
          let observed ← casToken slotId 0 claim
          if observed ≠ 0 then pure .invalidState
          else do
            let won ← casState slotId .owned .claiming
            if won = false then do
              let _ ← casToken slotId claim 0
              pure .invalidState
            else releaseClaimed pool slotId currentOwner ownerEpoch claim

end Zipc
