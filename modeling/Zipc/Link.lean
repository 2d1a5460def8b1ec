import Zipc.Transport
import Zipc.Recovery
import Zipc.Buffer

/-! # Links

The high-level API over one pool: allocation, send with its rollback, receive, release
and the reconciliation of a link during the online restart of its local component.
A buffer argument is an `Option View`, with `none` for an invalidated one; an operation
that changes its buffer answers the buffer after the call as well.
-/

namespace Zipc

open Atomic

/-- `zipc_link_role_t`. -/
inductive LinkRole where
  | unspecified | producer | consumer
  deriving Repr, DecidableEq, Inhabited

/-- `struct zipc_link`. -/
structure Link where
  localComponent : Nat
  remoteComponent : Nat
  linkId : Nat
  localEpoch : Nat
  role : LinkRole
  transport : Transport
  /-- The shared ring, when the configuration supplied it. -/
  recoveryRing : Option Nat
  hopLimit : Nat
  defaultDeadlineNs : Nat
  timeoutTicks : Nat
  deriving Repr, DecidableEq, Inhabited

/-- `zipc_link_config_t`; `supplied` tells that the configuration names a ring itself. -/
structure LinkConfig where
  localComponent : Nat
  remoteComponent : Nat
  linkId : Nat
  localEpoch : Nat
  role : LinkRole
  transport : Transport
  supplied : Bool
  hopLimit : Nat
  defaultDeadlineNs : Nat
  timeoutTicks : Nat
  deriving Repr, DecidableEq, Inhabited

/-- The test that a given local epoch, unless it is zero, is still current. -/
def epochCurrent (component epoch : Nat) : Prog Bool :=
  if epoch ≠ 0 then componentEpochCurrent component epoch else pure true

/-- The local epoch of a new link. -/
def linkEpoch (config : LinkConfig) : Prog Nat :=
  if config.localEpoch ≠ 0 then pure config.localEpoch
  else registeredEpoch config.localComponent

/-- `zipc_link_create`; `opened` is what the platform answers to the allocation of the
    link and to `zipc_platform_transport_open`. -/
def linkCreate (config : LinkConfig) (opened : Status) : Prog (Except Status Link) :=
  if componentIdValid config.localComponent = false ∨
      componentIdValid config.remoteComponent = false then pure (.error .invalidArgument)
  else do
    let current ← epochCurrent config.localComponent config.localEpoch
    if current = false then pure (.error .componentStale)
    else do
      let epoch ← linkEpoch config
      if opened ≠ .ok then pure (.error opened)
      else pure (.ok {
        localComponent := config.localComponent, remoteComponent := config.remoteComponent,
        linkId := config.linkId, localEpoch := epoch, role := config.role,
        transport := config.transport,
        recoveryRing := if config.supplied then config.transport.ring else none,
        hopLimit := if config.hopLimit ≠ 0 then config.hopLimit else hopLimitUnlimited,
        defaultDeadlineNs := config.defaultDeadlineNs, timeoutTicks := config.timeoutTicks })

/-- The test that the local epoch of a link, when it has one, is still current. -/
def linkCurrent (link : Link) : Prog Bool := epochCurrent link.localComponent link.localEpoch

/-! ## Allocation and release -/

/-- `zipc_buffer_alloc_ex`; `parent` is absent for a null pointer. -/
def bufferAllocEx (pool : Pool) (link : Link) (size headroom tailroom : Nat)
    (parent : Option (Option View)) : Prog (Status × Option View) :=
  if size ≥ u32 ∨ headroom ≥ u32 ∨ tailroom ≥ u32 then pure (.invalidArgument, none)
  else do
    let current ← linkCurrent link
    if current = false then pure (.componentStale, none)
    else if headroom + size + tailroom > pool.slotCapacity then pure (.regionOverflow, none)
    else do
      let args (parentId : Nat) : AllocateArgs :=
        { allocator := link.localComponent, parentId, offset := headroom, length := size,
          hopLimit := link.hopLimit, deadlineDurationNs := link.defaultDeadlineNs,
          enablePayload := true }
      match parent with
      | none => bufferAllocateInternal pool (args 0) link.localEpoch
      | some buffer => do
          let owned ← bufferOwned buffer
          match buffer, owned with
          | some v, true => do
              let id ← read v.slotId (·.identity.id)
              bufferAllocateInternal pool (args id) link.localEpoch
          | _, _ => pure (.invalidBuffer, none)

/-- `zipc_buffer_alloc`. -/
def bufferAlloc (pool : Pool) (link : Link) (size : Nat) (parent : Option (Option View)) :
    Prog (Status × Option View) :=
  bufferAllocEx pool link size 0 0 parent

/-- `zipc_buffer_get`. -/
def bufferGet (pool : Pool) (link : Link) (headroom : Nat) : Prog (Status × Option View) :=
  bufferAllocEx pool link 0 headroom 0 none

/-- `zipc_buffer_release`. -/
def bufferRelease (pool : Pool) (buffer : Option View) : Prog (Status × Option View) := do
  let owned ← bufferOwned buffer
  match buffer, owned with
  | some v, true => do
      let status ← poolBufferRelease pool v.handle v.owner
      pure (status, if status = .ok then none else some v)
  | _, _ => pure (.invalidBuffer, buffer)

/-- `zipc_buffer_put`. -/
def bufferPut (pool : Pool) (link : Link) (buffer : Option View) :
    Prog (Status × Option View) := do
  let owned ← bufferOwned buffer
  match buffer, owned with
  | some v, true =>
      if v.owner ≠ link.localComponent then pure (.notOwner, some v)
      else bufferRelease pool (some v)
  | _, _ => pure (.invalidBuffer, buffer)

/-! ## Send -/

/-- The comparison of a held slot with the transfer that is to be rolled back. -/
def rollbackMatches (link : Link) (message : Message) (i : Nat) : Prog Bool := do
  let generation ← loadGeneration i
  if generation ≠ handleGeneration message.handle then pure false
  else do
    let owner ← read i (·.ownerId)
    if owner ≠ link.localComponent then pure false
    else do
      let next ← read i (·.nextOwnerId)
      if next ≠ link.remoteComponent then pure false
      else do
        let sequence ← read i (·.transferSequence)
        pure (sequence = message.transferSequence)

/-- The part of `rollback_transfer` that holds the slot. A failed protection leaves it
    in `CLAIMING` under the rollback token. -/
def rollbackClaimed (pool : Pool) (link : Link) (message : Message) (i claim : Nat) :
    Prog Status := do
  let same ← rollbackMatches link message i
  if same = false then do
    publish i .transfer claim
    pure .recoveryRequired
  else do
    write i (.nextOwnerId invalidComponentId)
    write i (.transferSequence (sub32 message.transferSequence 1))
    write i (.ownerId link.localComponent)
    let status ← protectSlot pool i true
    if status ≠ .ok then pure status
    else do
      publish i .owned claim
      pure .ok

/-- `rollback_transfer` on the slot `i` of the sent buffer. -/
def rollbackTransfer (pool : Pool) (link : Link) (i : Nat) (message : Message) :
    Prog Status := do
  let state ← loadState i
  if state ≠ .transfer then pure .recoveryRequired
  else do
    let claim := claimTokenMake .rollback link.localComponent link.localEpoch
    write i (.claimPreviousSequence (sub32 message.transferSequence 1))
    let observed ← casToken i 0 claim
    if observed ≠ 0 then pure .recoveryRequired
    else do
      let won ← casState i .transfer .claiming
      if won = false then do
        let _ ← casToken i claim 0
        pure .recoveryRequired
      else rollbackClaimed pool link message i claim

/-- The delivery of a prepared transfer, with its rollback. -/
def sendPrepared (pool : Pool) (link : Link) (v : View) (message : Message) :
    Prog (Status × Option View) := do
  let status ← transportSend link.transport message
  if status = .transportPublished then do
    traceExternalEvent pool message.handle message.transferSequence link.localComponent .error
    pure (status, none)
  else if status ≠ .ok then do
    let undone ← rollbackTransfer pool link v.slotId message
    if undone ≠ .ok then do
      traceExternalEvent pool message.handle message.transferSequence link.localComponent .error
      pure (undone, none)
    else pure (status, some v)
  else pure (.ok, none)

/-- `zipc_send`. -/
def send (pool : Pool) (link : Link) (buffer : Option View) : Prog (Status × Option View) := do
  let owned ← bufferOwned buffer
  match buffer, owned with
  | some v, true => do
      let current ← linkCurrent link
      if current = false ∨ v.ownerEpoch ≠ link.localEpoch then pure (.componentStale, some v)
      else if v.owner ≠ link.localComponent then pure (.notOwner, some v)
      else do
        let prepared ← bufferPrepareTransferInternal pool v.handle link.localComponent
          link.remoteComponent link.linkId
        match prepared with
        | .error status => pure (status, some v)
        | .ok message => sendPrepared pool link v message
  | _, _ => pure (.invalidBuffer, buffer)

/-- The copy into a new buffer; `false` when its data pointer is null. -/
def copyPayload (buffer : Option View) (bytes : List Nat) : Prog Bool :=
  if bytes = [] then pure true
  else do
    let pointer ← bufferData buffer
    match buffer, pointer with
    | some v, some offset => do
        .lift (.copyIn v.slotId offset bytes)
        pure true
    | _, _ => pure false

/-- `zipc_send_copy`; `none` when it copies through a null pointer. -/
def sendCopy (pool : Pool) (link : Link) (bytes : List Nat) : Prog (Option Status) := do
  let (status, buffer) ← bufferAlloc pool link bytes.length none
  if status ≠ .ok then pure (some status)
  else do
    let copied ← copyPayload buffer bytes
    if copied = false then pure none
    else do
      let (status, buffer) ← send pool link buffer
      if status = .ok then pure (some status)
      else do
        let valid ← bufferIsValid buffer
        if valid then do
          let _ ← bufferRelease pool buffer
          pure (some status)
        else pure (some status)

/-! ## Receive -/

/-- How one received descriptor ends: the call returns, or goes on to the next one. -/
def recvMessage (pool : Pool) (link : Link) (message : Message) (token : ReceiveToken) :
    Prog (Option (Status × Option View)) :=
  if message.sourceComponent ≠ link.remoteComponent then do
    recordProtocolError pool link.localComponent
    let _ ← receiveCommit link.transport token
    pure (some (.invalidReceiver, none))
  else do
    let (status, buffer) ← bufferClaim pool message link.localComponent
    let committed ← receiveCommit link.transport token
    if status = .ok then
      if committed ≠ .ok then pure (some (.recoveryRequired, none))
      else pure (some (.ok, buffer.map fun v => { v with owner := link.localComponent }))
    else if status = .invalidState ∨ status = .staleHandle ∨ status = .sequenceMismatch then
      pure none
    else pure (some (status, buffer))

/-- The loop of `zipc_recv`. -/
def recvLoop (pool : Pool) (link : Link) : Nat → Prog (Option (Status × Option View))
  | 0 => pure none
  | fuel + 1 => do
      let begun ← receiveBegin link.transport fuel
      match begun with
      | none => pure none
      | some (.error status) => pure (some (status, none))
      | some (.ok (message, token)) => do
          let ended ← recvMessage pool link message token
          match ended with
          | some result => pure (some result)
          | none => recvLoop pool link fuel

/-- `zipc_recv`. -/
def recv (pool : Pool) (link : Link) (fuel : Nat) : Prog (Option (Status × Option View)) := do
  let current ← linkCurrent link
  if current = false then pure (some (.componentStale, none))
  else recvLoop pool link fuel

/-! ## Reconciliation -/

/-- The tests at the head of `zipc_link_reconcile`. -/
def reconcileRefused (link : Link) (restart : Restart) : Prog (Option Status) :=
  if link.localComponent ≠ restart.component ∨ link.localEpoch ≠ restart.epoch ∨
      link.linkId = 0 ∨ restart.epoch ≠ (restart.deadEpoch + 1) % u32 then
    pure (some .invalidArgument)
  else do
    let recovering ← componentEpochRecovering restart.component restart.epoch
    pure (if recovering = false then some .invalidArgument
      else if link.transport.ring = none then some .recoveryUnsupported
      else if link.role = .unspecified then some .invalidArgument
      else if link.recoveryRing = none then some .recoveryUnsupported
      else none)

/-- Repair a slot that the terminated runtime left in `CLAIMING`. -/
def reconcileClaiming (pool : Pool) (link : Link) (restart : Restart) (i token : Nat) :
    Prog (Except Status Bool) :=
  let matching := if link.role = .producer then
      claimTokenKind token = ClaimKind.send.toNat ∨ claimTokenKind token = ClaimKind.rollback.toNat
    else claimTokenKind token = ClaimKind.receive.toNat
  if ¬matching ∨ restart.owns token = false then pure (.ok false)
  else do
    let won ← casState i .claiming .error
    if won = false then pure (.ok false)
    else if link.role = .producer then do
      restoreSequence i
      write i (.nextOwnerId invalidComponentId)
      storeToken i 0
      storeState i .owned
      pure (.ok false)
    else do
      let status ← protectSlot pool i false
      if status ≠ .ok then do
        storeState i .claiming
        pure (.error status)
      else do
        restoreTransfer i restart.component
        pure (.ok false)

/-- The test that a slot holds a transfer of the terminated runtime over this link. -/
def reconcileMatches (link : Link) (restart : Restart) (i : Nat) : Prog Bool := do
  let owner ← read i (·.ownerId)
  if owner ≠ restart.component then pure false
  else do
    let epoch ← read i (·.ownerEpoch)
    if epoch ≠ restart.deadEpoch then pure false
    else do
      let next ← read i (·.nextOwnerId)
      if next ≠ link.remoteComponent then pure false
      else do
        let linkId ← read i (·.transferLinkId)
        pure (linkId = link.linkId)

/-- A rollback token that the terminated runtime left on a transfer is cleared. -/
def clearRollback (restart : Restart) (i token : Nat) : Prog Unit :=
  if claimTokenKind token = ClaimKind.rollback.toNat ∧ restart.owns token = true then
    clearClaimToken i token
  else pure ()

/-- Look at a slot in `TRANSFER` from the producer's end: take it aside in `ERROR`, and
    answer the generation and the sequence of a transfer over this link. -/
def reconcileProbe (link : Link) (restart : Restart) (i : Nat) : Prog (Option (Nat × Nat)) := do
  let token ← loadToken i
  clearRollback restart i token
  let won ← casState i .transfer .error
  if won = false then pure none
  else do
    let same ← reconcileMatches link restart i
    if same = false then do
      storeState i .transfer
      pure none
    else do
      let generation ← loadGeneration i
      let sequence ← read i (·.transferSequence)
      storeState i .transfer
      pure (some (generation, sequence))

/-- Publish the descriptor of a transfer over this link again. -/
def reconcileTransfer (pool : Pool) (link : Link) (restart : Restart) (i : Nat) :
    Prog (Except Status Bool) := do
  let probed ← reconcileProbe link restart i
  match probed with
  | none => pure (.ok false)
  | some (generation, sequence) => do
      let status ← transportSend link.transport
        { handle := handleMake i generation, poolId := pool.poolId,
          sourceComponent := restart.component, destinationComponent := link.remoteComponent,
          transferSequence := sequence, flags := 0 }
      if status ≠ .ok ∧ status ≠ .transportPublished then pure (.error status)
      else pure (.ok true)

/-- One slot of `zipc_link_reconcile`; answers whether a transfer was recovered. -/
def reconcileSlot (pool : Pool) (link : Link) (restart : Restart) (i : Nat) :
    Prog (Except Status Bool) := do
  let state ← loadState i
  let token ← loadToken i
  if link.role = .consumer ∧ state = .transfer ∧
      claimTokenKind token = ClaimKind.receive.toNat ∧ restart.owns token = true then do
    clearClaimToken i token
    pure (.ok false)
  else if state = .claiming then reconcileClaiming pool link restart i token
  else if link.role ≠ .producer ∨ state ≠ .transfer then pure (.ok false)
  else reconcileTransfer pool link restart i

/-- The slot scan of `zipc_link_reconcile` with `left` slots to go. -/
def reconcileScan (pool : Pool) (link : Link) (restart : Restart) :
    Nat → Nat → Nat → Prog (Except Status Unit × Nat)
  | 0, _, recovered => pure (.ok (), recovered)
  | left + 1, i, recovered => do
      let slot ← reconcileSlot pool link restart i
      match slot with
      | .error status => pure (.error status, recovered)
      | .ok again =>
          reconcileScan pool link restart left (i + 1) (if again then recovered + 1 else recovered)

/-- The consumer's end drops descriptors at the head of the ring that name no transfer. -/
def reconcileDrain (pool : Pool) (ring : Nat) : Nat → Prog (Option Unit)
  | 0 => pure none
  | fuel + 1 => do
      let consumer ← loadConsumer ring
      let producer ← loadProducer ring
      if consumer = producer then pure (some ())
      else do
        let depth ← readDepth ring
        let message ← readEntry ring (consumer % depth)
        if pool.slotCount ≤ handleSlotId message.handle then do
          .lift (.storeConsumer ring ((consumer + 1) % u32))
          reconcileDrain pool ring fuel
        else do
          let state ← loadState (handleSlotId message.handle)
          let generation ← loadGeneration (handleSlotId message.handle)
          if state = .transfer ∧ generation = handleGeneration message.handle then pure (some ())
          else do
            .lift (.storeConsumer ring ((consumer + 1) % u32))
            reconcileDrain pool ring fuel

/-- `zipc_link_reconcile`; answers the number of recovered transfers as well. -/
def linkReconcile (pool : Pool) (link : Link) (restart : Restart) (fuel : Nat) :
    Prog (Option (Status × Nat)) := do
  let refused ← reconcileRefused link restart
  match refused with
  | some status => pure (some (status, 0))
  | none => do
      let (scanned, recovered) ← reconcileScan pool link restart pool.slotCount 0 0
      match scanned with
      | .error status => pure (some (status, recovered))
      | .ok () =>
          match link.role, link.recoveryRing with
          | .consumer, some ring => do
              let drained ← reconcileDrain pool ring fuel
              pure (drained.map fun _ => (.ok, recovered))
          | _, _ => pure (some (.ok, recovered))

end Zipc
