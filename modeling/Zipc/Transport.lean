import Zipc.Slot

/-! # Descriptor transports

The shared single-producer single-consumer ring of `platform-linux-common.c`, and the
send and claim-before-commit receive of the Linux platform over it. Transports that
do not keep their descriptors in shared memory answer what the environment chooses.
Loops without a bound of their own take fuel and answer `none` when it runs out: the
call is then still waiting.
-/

namespace Zipc

open Atomic

/-- The fields that `zipc_linux_common_ring_push` compares for a pending duplicate. -/
def Message.same (queued message : Message) : Bool :=
  queued.handle = message.handle && queued.poolId = message.poolId &&
    queued.sourceComponent = message.sourceComponent &&
    queued.destinationComponent = message.destinationComponent &&
    queued.transferSequence = message.transferSequence

section Ring

variable (r : Nat)

abbrev readDepth : Prog Nat := .lift (.readDepth r)
abbrev loadProducer : Prog Nat := .lift (.loadProducer r)
abbrev loadConsumer : Prog Nat := .lift (.loadConsumer r)
abbrev readEntry (k : Nat) : Prog Message := .lift (.readEntry r k)

/-- The search for a pending duplicate over `left` entries from `position`. -/
def ringScan (message : Message) (depth : Nat) : Nat → Nat → Prog Bool
  | 0, _ => pure false
  | left + 1, position => do
      let queued ← readEntry r (position % depth)
      if queued.same message then pure true
      else ringScan message depth left ((position + 1) % u32)

/-- `zipc_linux_common_ring_push`. -/
def ringPush (message : Message) : Prog Status := do
  let depth ← readDepth r
  if depth < 2 then pure .invalidArgument
  else do
    let producer ← loadProducer r
    let consumer ← loadConsumer r
    if sub32 producer consumer ≥ depth then pure .transport
    else do
      let pending ← ringScan r message depth (sub32 producer consumer) consumer
      if pending then pure .ok
      else do
        .lift (.writeEntry r (producer % depth) message)
        .lift (.storeProducer r ((producer + 1) % u32))
        pure .ok

/-- `zipc_linux_common_ring_peek`: the next descriptor and its position. -/
def ringPeek : Prog (Except Status (Message × Nat)) := do
  let depth ← readDepth r
  if depth < 2 then pure (.error .invalidArgument)
  else do
    let consumer ← loadConsumer r
    let producer ← loadProducer r
    if consumer = producer then pure (.error .noBuffer)
    else do
      let message ← readEntry r (consumer % depth)
      pure (.ok (message, consumer))

/-- `zipc_linux_common_ring_commit`. -/
def ringCommit (position : Nat) : Prog Status := do
  let depth ← readDepth r
  if depth < 2 then pure .invalidArgument
  else do
    let consumer ← loadConsumer r
    if consumer ≠ position then pure .recoveryRequired
    else do
      .lift (.storeConsumer r ((consumer + 1) % u32))
      pure .ok

/-- `zipc_linux_common_ring_pop`. -/
def ringPop : Prog (Except Status Message) := do
  let depth ← readDepth r
  if depth < 2 then pure (.error .invalidArgument)
  else do
    let consumer ← loadConsumer r
    let producer ← loadProducer r
    if consumer = producer then pure (.error .noBuffer)
    else do
      let message ← readEntry r (consumer % depth)
      .lift (.storeConsumer r ((consumer + 1) % u32))
      pure (.ok message)

end Ring

/-- `zipc_transport_spsc_ring_initialize` on memory with arbitrary entries. -/
def ringInitialize (depth : Nat) (entries : Nat → Message) : Except Status Ring :=
  if depth < 2 then .error .invalidArgument
  else .ok { producer := 0, consumer := 0, depth, entries }

/-- An open transport endpoint. -/
inductive Transport where
  /-- `ZIPC_TRANSPORT_SHM_RING_EVENTFD`. -/
  | eventfd (ring : Nat)
  /-- `ZIPC_TRANSPORT_SHM_RING_POLLING`; timeout 0 waits forever. -/
  | polling (ring timeoutNs : Nat)
  /-- A transport whose queue is outside shared memory. -/
  | external
  deriving Repr, DecidableEq, Inhabited

/-- The ring behind a shared-ring transport. -/
def Transport.ring : Transport → Option Nat
  | .eventfd r => some r
  | .polling r _ => some r
  | .external => none

/-- `zipc_platform_transport_send`. -/
def transportSend (t : Transport) (message : Message) : Prog Status :=
  match t with
  | .eventfd r => do
      let status ← ringPush r message
      if status ≠ .ok then pure status
      else do
        let written ← .lift (.eventWrite r)
        pure (if written then .ok else .transportPublished)
  | .polling r _ => ringPush r message
  | .external => .lift (.externalSend message)

/-- `zipc_transport_receive_token_t`: the position of a peeked descriptor, or nothing on
    a transport whose receive already consumed it. -/
structure ReceiveToken where
  position : Option Nat
  deriving Repr, DecidableEq, Inhabited

/-- Wait for the eventfd of a ring. -/
def eventWait (r : Nat) : Nat → Prog (Option Bool)
  | 0 => pure none
  | fuel + 1 => do
      let outcome ← .lift (.eventRead r)
      match outcome with
      | .woken => pure (some true)
      | .failed => pure (some false)
      | .blocked => eventWait r fuel

/-- `zipc_platform_transport_receive_begin`. -/
def receiveBegin (t : Transport) : Nat → Prog (Option (Except Status (Message × ReceiveToken)))
  | 0 => pure none
  | fuel + 1 =>
      match t with
      | .eventfd r => do
          let peeked ← ringPeek r
          match peeked with
          | .ok (message, position) => pure (some (.ok (message, ⟨some position⟩)))
          | .error .noBuffer => do
              let woken ← eventWait r fuel
              match woken with
              | none => pure none
              | some false => pure (some (.error .transport))
              | some true => receiveBegin t fuel
          | .error status => pure (some (.error status))
      | .polling r timeoutNs => do
          let peeked ← ringPeek r
          match peeked with
          | .ok (message, position) => pure (some (.ok (message, ⟨some position⟩)))
          | .error .noBuffer =>
              if timeoutNs ≠ 0 then do
                let expired ← .lift .pollExpired
                if expired then pure (some (.error .timeout)) else receiveBegin t fuel
              else receiveBegin t fuel
          | .error status => pure (some (.error status))
      | .external => do
          let received ← .lift .externalReceive
          match received with
          | .ok message => pure (some (.ok (message, ⟨none⟩)))
          | .error status => pure (some (.error status))

/-- `zipc_platform_transport_receive_commit`. -/
def receiveCommit (t : Transport) (token : ReceiveToken) : Prog Status :=
  match token.position with
  | none => pure .ok
  | some position =>
      match t.ring with
      | some r => ringCommit r position
      | none => pure .invalidArgument

end Zipc
