import Zipc.Slot

/-! # Component lifecycle and recovery

Registration, the online restart of a component (`restart_begin`, `restart_next`,
`restart_finish`) and the two administrative sweeps of a quiesced pool. A
compare-and-exchange loop takes fuel and answers `none` when it runs out.
-/

namespace Zipc

open Atomic

/-- The end of a lifecycle change: the heartbeat of its moment. -/
def heartbeatNow (component : Nat) : Prog Unit := do
  let time ← now
  .lift (.storeHeartbeat component time)

/-- The loop of `zipc_component_register`; answers the new epoch. -/
def registerLoop (component : Nat) : Nat → Nat → Prog (Option (Except Status Nat))
  | 0, _ => pure none
  | fuel + 1, current =>
      if componentLifecycleEpoch current = u32 - 1 ∨
          componentLifecycleState current ≠ ComponentState.inactive.toNat then
        pure (some (.error .componentStale))
      else do
        let epoch := componentLifecycleEpoch current + 1
        let (won, found) ← .lift
          (.casLifecycle true component current (componentLifecycleMake epoch .active))
        if won then do
          heartbeatNow component
          pure (some (.ok epoch))
        else registerLoop component fuel found

/-- `zipc_component_register`. -/
def componentRegister (fuel component : Nat) : Prog (Option (Except Status Nat)) :=
  if componentIdValid component = false then pure (some (.error .invalidArgument))
  else do
    let current ← loadLifecycle component
    registerLoop component fuel current

/-- `zipc_component_heartbeat`. -/
def componentHeartbeat (component epoch : Nat) : Prog Status :=
  if componentIdValid component = false ∨ epoch = 0 then pure .invalidArgument
  else do
    let lifecycle ← loadLifecycle component
    if componentLifecycleState lifecycle = ComponentState.inactive.toNat ∨
        componentLifecycleEpoch lifecycle ≠ epoch then pure .componentStale
    else do
      heartbeatNow component
      pure .ok

/-- The loop of `zipc_component_unregister`. -/
def unregisterLoop (component epoch : Nat) : Nat → Nat → Prog (Option Status)
  | 0, _ => pure none
  | fuel + 1, current =>
      if componentLifecycleEpoch current ≠ epoch ∨
          componentLifecycleState current = ComponentState.inactive.toNat then
        pure (some .componentStale)
      else do
        let (won, found) ← .lift
          (.casLifecycle true component current (componentLifecycleMake epoch .inactive))
        if won then pure (some .ok) else unregisterLoop component epoch fuel found

/-- `zipc_component_unregister`. -/
def componentUnregister (fuel component epoch : Nat) : Prog (Option Status) :=
  if componentIdValid component = false ∨ epoch = 0 then pure (some .invalidArgument)
  else do
    let current ← loadLifecycle component
    unregisterLoop component epoch fuel current

/-! ## Online restart -/

/-- `zipc_restart_t`. -/
structure Restart where
  component : Nat
  deadEpoch : Nat
  epoch : Nat
  cursor : Nat
  scanComplete : Bool
  deriving Repr, DecidableEq, Inhabited

/-- The loop of `zipc_component_restart_begin`. -/
def restartBeginLoop (component deadEpoch : Nat) : Nat → Nat → Prog (Option (Except Status Restart))
  | 0, _ => pure none
  | fuel + 1, current =>
      if componentLifecycleEpoch current ≠ deadEpoch ∨
          componentLifecycleState current = ComponentState.recovering.toNat then
        pure (some (.error .componentStale))
      else do
        let (won, found) ← .lift
          (.casLifecycle true component current
            (componentLifecycleMake (deadEpoch + 1) .recovering))
        if won then do
          heartbeatNow component
          pure (some (.ok { component, deadEpoch, epoch := deadEpoch + 1, cursor := 0,
                            scanComplete := false }))
        else restartBeginLoop component deadEpoch fuel found

/-- `zipc_component_restart_begin`. -/
def componentRestartBegin (fuel component deadEpoch : Nat) :
    Prog (Option (Except Status Restart)) :=
  if componentIdValid component = false ∨ deadEpoch = 0 then
    pure (some (.error .invalidArgument))
  else if deadEpoch = u32 - 1 then pure (some (.error .componentStale))
  else do
    let current ← loadLifecycle component
    restartBeginLoop component deadEpoch fuel current

/-- The token belongs to the terminated runtime. -/
def Restart.owns (restart : Restart) (token : Nat) : Bool :=
  claimTokenComponent token = restart.component && claimTokenEpoch token = restart.deadEpoch

/-- Undo an interrupted receive: the transfer goes back to its sender's metadata. -/
def restoreTransfer (slotId component : Nat) : Prog Unit := do
  let source ← read slotId (·.transferSourceId)
  write slotId (.ownerId source)
  write slotId (.nextOwnerId component)
  let epoch ← read slotId (·.transferSourceEpoch)
  write slotId (.ownerEpoch epoch)
  let hops ← read slotId (·.transferHopCount)
  write slotId (.hopCount hops)
  let acquired ← read slotId (·.transferAcquiredNs)
  write slotId (.acquiredNs acquired)
  let visited ← read slotId (·.transferVisited)
  write slotId (.visited visited)
  storeToken slotId 0
  storeState slotId .transfer

/-- Undo an interrupted release: the owner and the window from before it. -/
def restoreRelease (slotId : Nat) : Prog Unit := do
  let owner ← read slotId (·.claimPreviousOwner)
  write slotId (.ownerId owner)
  let epoch ← read slotId (·.claimPreviousOwnerEpoch)
  write slotId (.ownerEpoch epoch)
  let offset ← read slotId (·.claimPreviousRegion.offset)
  write slotId (.regionOffset offset)
  let length ← read slotId (·.claimPreviousRegion.length)
  write slotId (.regionLength length)

/-- Undo an interrupted send or rollback: the sequence from before it. -/
def restoreSequence (slotId : Nat) : Prog Unit := do
  let sequence ← read slotId (·.claimPreviousSequence)
  write slotId (.transferSequence sequence)

/-- What the kind of an abandoned claim calls for. -/
def restoreSaved (slotId token : Nat) : Prog Unit :=
  if claimTokenKind token = ClaimKind.send.toNat ∨
      claimTokenKind token = ClaimKind.rollback.toNat then restoreSequence slotId
  else if claimTokenKind token = ClaimKind.release.toNat then restoreRelease slotId
  else pure ()

/-- How one round of the adoption scan ends. -/
inductive RestartRound where
  /-- Advance the cursor and go on. -/
  | skip
  /-- Return an error; the cursor stays. -/
  | fail (status : Status)
  /-- Advance the cursor and return the adopted buffer. -/
  | adopt (view : View)
  /-- The slot is now `OWNED`; try to adopt it. -/
  | owned

/-- Repair a slot that the terminated runtime left in `CLAIMING` under `token`. -/
def restartRepair (pool : Pool) (restart : Restart) (slotId token : Nat) : Prog RestartRound :=
  if restart.owns token = false then pure .skip
  else do
    let won ← casState slotId .claiming .error
    if won = false then pure .skip
    else if claimTokenKind token = ClaimKind.receive.toNat then do
      let status ← protectSlot pool slotId false
      if status ≠ .ok then do
        storeState slotId .claiming
        pure (.fail status)
      else do
        restoreTransfer slotId restart.component
        pure .skip
    else if claimTokenKind token = ClaimKind.allocate.toNat then do
      let status ← protectSlot pool slotId false
      if status ≠ .ok then do
        storeState slotId .claiming
        pure (.fail status)
      else do
        freeClaimingSlot slotId
        pure .skip
    else do
      restoreSaved slotId token
      write slotId (.nextOwnerId invalidComponentId)
      storeToken slotId 0
      storeState slotId .owned
      pure .owned

/-- A token that the terminated runtime left on an owned slot is cleared. -/
def clearOwned (restart : Restart) (slotId token : Nat) : Prog Unit :=
  if restart.owns token then clearClaimToken slotId token else pure ()

/-- Take an `OWNED` slot of the terminated runtime over, at the new epoch. -/
def restartAdopt (pool : Pool) (restart : Restart) (slotId token : Nat) : Prog RestartRound := do
  clearOwned restart slotId token
  let won ← casState slotId .owned .error
  if won = false then pure .skip
  else do
    let same ← ownedBy slotId restart.component restart.deadEpoch
    if same = false then do
      storeState slotId .owned
      pure .skip
    else do
      let status ← protectSlot pool slotId true
      if status ≠ .ok then do
        storeState slotId .owned
        pure (.fail status)
      else do
        let old ← loadGeneration slotId
        let generation := nextGeneration old
        write slotId (.generation generation)
        write slotId (.ownerEpoch restart.epoch)
        let time ← now
        write slotId (.acquiredNs time)
        let recoveries ← read slotId (·.recoveryCount)
        write slotId (.recoveryCount ((recoveries + 1) % u32))
        let view ← makeView pool slotId (handleMake slotId generation)
        match view with
        | .error failure => do
            write slotId (.ownerEpoch restart.deadEpoch)
            write slotId (.generation old)
            storeState slotId .owned
            pure (.fail failure)
        | .ok v => do
            traceSlot pool slotId restart.component .recover
            count .recovery
            .lift (.addRecoveredSlot restart.component)
            storeState slotId .owned
            pure (.adopt v)

/-- One round of the scan of `zipc_component_restart_next`. -/
def restartSlot (pool : Pool) (restart : Restart) (slotId : Nat) : Prog RestartRound := do
  let state ← loadState slotId
  let token ← loadToken slotId
  if state = .free ∧ restart.owns token = true then do
    let _ ← casToken slotId token 0
    pure .skip
  else if state = .transfer ∧ claimTokenKind token = ClaimKind.receive.toNat ∧
      restart.owns token = true then do
    clearClaimToken slotId token
    pure .skip
  else if state = .claiming then do
    let round ← restartRepair pool restart slotId token
    match round with
    | .owned => restartAdopt pool restart slotId token
    | other => pure other
  else if state = .owned then restartAdopt pool restart slotId token
  else pure .skip

/-- The scan of `zipc_component_restart_next` with `left` slots to go. -/
def restartScan (pool : Pool) : Nat → Restart → Prog (Status × Restart × Option View)
  | 0, restart => pure (.noBuffer, { restart with scanComplete := true }, none)
  | left + 1, restart => do
      let round ← restartSlot pool restart restart.cursor
      match round with
      | .fail status => pure (status, restart, none)
      | .adopt v => pure (.ok, { restart with cursor := restart.cursor + 1 }, some v)
      | _ => restartScan pool left { restart with cursor := restart.cursor + 1 }

/-- `zipc_component_restart_next`; answers the advanced restart object as well. -/
def componentRestartNext (pool : Pool) (restart : Restart) :
    Prog (Status × Restart × Option View) := do
  let recovering ← componentEpochRecovering restart.component restart.epoch
  if recovering = false ∨ restart.epoch ≠ (restart.deadEpoch + 1) % u32 then
    pure (.invalidArgument, restart, none)
  else restartScan pool (pool.slotCount - restart.cursor) restart

/-- `zipc_component_restart_finish`. -/
def componentRestartFinish (restart : Restart) : Prog Status :=
  if restart.scanComplete = false ∨ restart.epoch ≠ (restart.deadEpoch + 1) % u32 then
    pure .invalidArgument
  else do
    let recovering ← componentEpochRecovering restart.component restart.epoch
    if recovering = false then pure .invalidArgument
    else do
      let (won, _) ← .lift
        (.casLifecycle false restart.component
          (componentLifecycleMake restart.epoch .recovering)
          (componentLifecycleMake restart.epoch .active))
      if won = false then pure .componentStale
      else do
        heartbeatNow restart.component
        pure .ok

/-! ## Administrative recovery -/

/-- `zipc_recovery_result_t`. -/
structure RecoveryResult where
  recoveredOwned : Nat
  recoveredTransfer : Nat
  skippedNewerEpoch : Nat
  deriving Repr, DecidableEq, Inhabited

/-- The owner recovery of one probed slot that was in `state`; `none` means it was put
    back, and the flag that it belongs to a newer epoch. -/
def recoverProbed (pool : Pool) (component deadEpoch minimumAgeNs time slotId : Nat)
    (state : SlotState) : Prog (Except Status (Option Bool)) := do
  let owner ← read slotId (·.ownerId)
  if owner ≠ component then do
    storeState slotId state
    pure (.ok (some false))
  else do
    let epoch ← read slotId (·.ownerEpoch)
    if epoch ≠ deadEpoch then do
      storeState slotId state
      pure (.ok (some (epoch > deadEpoch)))
    else do
      let acquired ← read slotId (·.acquiredNs)
      if minimumAgeNs ≠ 0 ∧ (time < acquired ∨ time - acquired < minimumAgeNs) then do
        storeState slotId state
        pure (.ok (some false))
      else do
        let status ← protectSlot pool slotId false
        if status ≠ .ok then do
          storeState slotId state
          pure (.error status)
        else do
          traceSlot pool slotId component .recover
          let recoveries ← read slotId (·.recoveryCount)
          write slotId (.recoveryCount ((recoveries + 1) % u32))
          let errors ← read slotId (·.errorFlags)
          write slotId (.errorFlags (errors ||| 1))
          writeAll slotId [.ownerId invalidComponentId, .nextOwnerId invalidComponentId,
            .regionOffset 0, .regionLength 0]
          storeState slotId .free
          count .recovery
          .lift (.addRecoveredSlot component)
          pure (.ok none)

/-- The sweep of `zipc_pool_recover_owner` with `left` slots to go. -/
def recoverOwnerScan (pool : Pool) (component deadEpoch minimumAgeNs time : Nat) :
    Nat → Nat → RecoveryResult → Prog (Status × RecoveryResult)
  | 0, _, result => pure (.ok, result)
  | left + 1, slotId, result => do
      let state ← loadState slotId
      if state ≠ .owned ∧ state ≠ .transfer then
        recoverOwnerScan pool component deadEpoch minimumAgeNs time left (slotId + 1) result
      else do
        let won ← casState slotId state .error
        if won = false then
          recoverOwnerScan pool component deadEpoch minimumAgeNs time left (slotId + 1) result
        else do
          let probed ← recoverProbed pool component deadEpoch minimumAgeNs time slotId state
          match probed with
          | .error status => pure (status, result)
          | .ok (some newer) =>
              recoverOwnerScan pool component deadEpoch minimumAgeNs time left (slotId + 1)
                (if newer then { result with skippedNewerEpoch := result.skippedNewerEpoch + 1 }
                  else result)
          | .ok none =>
              recoverOwnerScan pool component deadEpoch minimumAgeNs time left (slotId + 1)
                (if state = .owned then { result with recoveredOwned := result.recoveredOwned + 1 }
                  else { result with recoveredTransfer := result.recoveredTransfer + 1 })

/-- `zipc_pool_recover_owner`. -/
def poolRecoverOwner (pool : Pool) (component deadEpoch minimumAgeNs : Nat) :
    Prog (Status × RecoveryResult) :=
  if componentIdValid component = false ∨ deadEpoch = 0 then pure (.invalidArgument, ⟨0, 0, 0⟩)
  else do
    let lifecycle ← loadLifecycle component
    if componentLifecycleState lifecycle ≠ ComponentState.inactive.toNat ∧
        componentLifecycleEpoch lifecycle = deadEpoch then
      pure (.componentStale, ⟨0, 0, 0⟩)
    else do
      let time ← now
      recoverOwnerScan pool component deadEpoch minimumAgeNs time pool.slotCount 0 ⟨0, 0, 0⟩

/-- What `zipc_pool_recover_claiming` leaves in an abandoned slot. -/
def recoverClaimingFields : List SlotWrite :=
  [.ownerId invalidComponentId, .nextOwnerId invalidComponentId, .ownerEpoch 0, .hopCount 0,
    .hopLimit 0, .visited .empty, .identityId 0, .identityParentId 0, .regionOffset 0,
    .regionLength 0, .transferSequence 0, .payloadType 0, .flags 0, .errorFlags 0,
    .acquiredNs 0, .deadlineNs 0, .traceCount 0, .recoveryCount 0, .claimPreviousSequence 0,
    .claimPreviousRegionOffset 0, .claimPreviousRegionLength 0,
    .claimPreviousOwner invalidComponentId, .claimPreviousOwnerEpoch 0, .transferLinkId 0,
    .transferSourceId invalidComponentId, .transferSourceEpoch 0, .transferHopCount 0,
    .transferAcquiredNs 0, .transferVisited .empty, .traceClear]

/-- The sweep of `zipc_pool_recover_claiming` with `left` slots to go. -/
def recoverClaimingScan (pool : Pool) : Nat → Nat → Nat → Prog (Status × Nat)
  | 0, _, recovered => pure (.ok, recovered)
  | left + 1, slotId, recovered => do
      let state ← loadState slotId
      if state ≠ .claiming then recoverClaimingScan pool left (slotId + 1) recovered
      else do
        let won ← casState slotId .claiming .error
        if won = false then recoverClaimingScan pool left (slotId + 1) recovered
        else do
          let status ← protectSlot pool slotId false
          if status ≠ .ok then do
            storeState slotId .claiming
            pure (status, recovered)
          else do
            writeAll slotId recoverClaimingFields
            storeToken slotId 0
            storeState slotId .free
            count .recovery
            traceExternalEvent pool (u32 * u32 - 1) 0 invalidComponentId .recover
            recoverClaimingScan pool left (slotId + 1) (recovered + 1)

/-- `zipc_pool_recover_claiming`. -/
def poolRecoverClaiming (pool : Pool) : Prog (Status × Nat) :=
  recoverClaimingScan pool pool.slotCount 0 0

end Zipc
