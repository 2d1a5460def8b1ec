import Zipc.Calls

/-! # Recovery, one slot at a time

What a round of the adoption scan, of the two administrative sweeps and of the
reconciliation of a link does to a slot when it runs alone.
-/

namespace Zipc

open Atomic Program

section Repairs

variable {good : Env → Prop} {guard pool : Pool} {m₀ : Mem} {i : Nat} {c : SlotCore}
  {log : List TraceRecord}

/-! ## Adoption -/

/-- How the adoption of an owned slot ends. -/
def AdoptEnds (good : Env → Prop) (pool : Pool) (m₀ : Mem) (i : Nat) (restart : Restart) (c : SlotCore)
    (round : RestartRound) (c' : SlotCore) (log : List TraceRecord) : Prop :=
  Quiet log ∧
    ((round = .skip ∧ c' = c ∧
        ¬(c.ownerId = restart.component ∧ c.ownerEpoch = restart.deadEpoch)) ∨
      (c.ownerId = restart.component ∧ c.ownerEpoch = restart.deadEpoch ∧
        ((∃ status, round = .fail status ∧ status ≠ .ok ∧ Unprotected good pool i ∧ c' = c) ∨
          (∃ access, ¬c.region.Within pool.slotCapacity ∧ round = .fail .regionOverflow ∧
            c' = { c with access, acquiredNs := m₀.clock }) ∨
          (∃ access, c.region.Within pool.slotCapacity ∧ (pool.strict = true → access = true) ∧
            c' = { c.adopted restart.epoch m₀.clock with access } ∧
            round = .adopt (c'.view pool i (handleMake i c'.generation))))))

/-- Clearing the token of a slot that has none. -/
theorem focused_dropToken {α : Type} {Q : α → SlotCore → List TraceRecord → Prop}
    {token : Nat} {next : Nat → Prog α} (zero : c.claimToken = 0)
    (rest : ∀ found, Focused good pool m₀ i (next found) Q c log) :
    Focused good pool m₀ i (.act (.casToken i token 0) next) Q c log := by
  refine focused_casToken (fun _ => ?_) (fun _ => rest _)
  have same : { c with claimToken := 0 } = c := by rw [← zero]
  rw [same]
  exact rest _

theorem focused_clearClaimToken {α : Type} {Q : α → SlotCore → List TraceRecord → Prop}
    {token : Nat} {next : Unit → Prog α} (zero : c.claimToken = 0)
    (rest : Focused good pool m₀ i (next ()) Q c log) :
    Focused good pool m₀ i (clearClaimToken i token >>= next) Q c log :=
  focused_dropToken zero fun _ => rest

theorem focused_clearOwned {α : Type} {Q : α → SlotCore → List TraceRecord → Prop}
    {restart : Restart} {token : Nat} {next : Unit → Prog α} (zero : c.claimToken = 0)
    (rest : Focused good pool m₀ i (next ()) Q c log) :
    Focused good pool m₀ i (clearOwned restart i token >>= next) Q c log := by
  simp only [clearOwned]
  split
  · exact focused_clearClaimToken zero rest
  · exact rest

/-- A view is refused exactly when the window does not lie inside the slot. -/
theorem focused_makeViewAny {α : Type} {Q : α → SlotCore → List TraceRecord → Prop}
    {handle : Nat} {next : Except Status View → Prog α}
    (inside : c.region.Within pool.slotCapacity →
      Focused good pool m₀ i (next (.ok (c.view pool i handle))) Q c log)
    (outside : ¬c.region.Within pool.slotCapacity →
      Focused good pool m₀ i (next (.error .regionOverflow)) Q c log) :
    Focused good pool m₀ i (makeView pool i handle >>= next) Q c log := by
  by_cases within : c.region.Within pool.slotCapacity
  · exact focused_makeView within (inside within)
  · apply focused_bind
    simp only [makeView, lift_bind]
    refine focused_read (·.region.offset) (fun _ _ _ => rfl) ?_
    refine focused_read (·.region.length) (fun _ _ _ => rfl) ?_
    rw [if_pos (by simp only [Region.Within] at within; omega)]
    exact focused_done (outside within)

theorem restartAdopt_focused {restart : Restart} {token : Nat} (quiet : Quiet log)
    (state : c.state = .owned) (zero : c.claimToken = 0) :
    Focused good pool m₀ i (restartAdopt pool restart i token) (AdoptEnds good pool m₀ i restart c) c log := by
  have back : { c with state := .owned } = c := by rw [← state]
  simp only [restartAdopt, lift_bind]
  refine focused_clearOwned zero (focused_casState (by decide) (fun _ => ?_) (fun lost => absurd state lost))
  rw [if_neg (by decide)]
  refine focused_ownedBy ?_
  split
  · rename_i other
    rw [decide_eq_false_iff_not] at other
    refine focused_storeState (by simp) (focused_done ⟨quiet, .inl ⟨rfl, back, other⟩⟩)
  rename_i same
  rw [Bool.not_eq_false, decide_eq_true_eq] at same
  refine focused_protectSlot (fun status failed strict => ?_) (fun access opened => ?_)
  · rw [if_pos failed]
    refine focused_storeState (by simp) (focused_done ⟨quiet, .inr ⟨same.1, same.2, .inl ?_⟩⟩)
    exact ⟨status, rfl, failed, strict, back⟩
  rw [if_neg (not_not_intro rfl)]
  refine focused_loadGeneration (focused_write (focused_write (focused_now (focused_write ?_))))
  refine focused_readAny fun recoveries => focused_write ?_
  simp only [SlotWrite.applyCore]
  refine focused_makeViewAny (fun within => ?_) (fun outside => ?_)
  · refine focused_traceSlot (focused_count (focused_addRecoveredSlot ?_))
    refine focused_storeState (by simp) (focused_done ⟨quiet.record ⟨by simp, by simp⟩, .inr ?_⟩)
    refine ⟨same.1, same.2, .inr (.inr ⟨access, within, opened, ?_, rfl⟩)⟩
    rw [SlotCore.adopted, state]
  · refine focused_write (focused_write (focused_storeState (by simp) (focused_done ⟨quiet, .inr ?_⟩)))
    refine ⟨same.1, same.2, .inr (.inl ⟨access, outside, rfl, ?_⟩)⟩
    obtain ⟨_, dead⟩ := same
    simp only [SlotWrite.applyCore]
    rw [← dead, ← state]

/-- A token that a rollback left, with the kind that the recovery code looks at. -/
theorem SlotCore.LeftByRollback.kind (left : c.LeftByRollback pool) :
    claimTokenKind c.claimToken = ClaimKind.rollback.toNat := by
  rw [left.token, claimTokenKind_make]

/-- How a round of the adoption scan ends on a slot between calls. -/
def RestartEnds (good : Env → Prop) (pool : Pool) (m₀ : Mem) (i : Nat) (restart : Restart) (c : SlotCore)
    (round : RestartRound) (c' : SlotCore) (log : List TraceRecord) : Prop :=
  match c.state with
  | .owned => AdoptEnds good pool m₀ i restart c round c' log
  | .claiming => (round = .skip ∧ c' = c ∧ log = [] ∧ restart.owns c.claimToken = false) ∨
      (restart.owns c.claimToken = true ∧ AdoptEnds good pool m₀ i restart c.repaired round c' log)
  | _ => round = .skip ∧ c' = c ∧ log = []

theorem restartRepair_focused {restart : Restart} {α : Type}
    {Q : α → SlotCore → List TraceRecord → Prop} {next : RestartRound → Prog α}
    (state : c.state = .claiming) (left : c.LeftByRollback pool)
    (skipped : restart.owns c.claimToken = false → Focused good pool m₀ i (next .skip) Q c log)
    (owned : restart.owns c.claimToken = true →
      Focused good pool m₀ i (next .owned) Q c.repaired log) :
    Focused good pool m₀ i (restartRepair pool restart i c.claimToken >>= next) Q c log := by
  apply focused_bind
  simp only [restartRepair, lift_bind]
  split
  · rename_i stranger
    exact focused_done (skipped stranger)
  rename_i own
  rw [Bool.not_eq_false] at own
  refine focused_casState (by decide) (fun _ => ?_) (fun lost => absurd state lost)
  rw [if_neg (by decide), left.kind, if_neg (by decide), if_neg (by decide)]
  simp only [restoreSaved, left.kind]
  rw [if_pos (.inr trivial)]
  refine focused_read (·.claimPreviousSequence) (fun _ _ _ => rfl) (focused_write ?_)
  refine focused_write (focused_storeToken (focused_storeState nofun (focused_done ?_)))
  exact owned own

/-- The token that a slot carries between calls: none, or that of an interrupted rollback. -/
def SlotCore.Settled (pool : Pool) (c : SlotCore) : Prop :=
  match c.state with
  | .claiming => c.LeftByRollback pool
  | .error => False
  | _ => c.claimToken = 0

theorem SlotWell.settled (well : SlotWell pool c) : c.Settled pool := by
  obtain ⟨_, _, kept⟩ := well
  cases state : c.state with
  | free | owned | transfer | claiming =>
      simp only [state] at kept
      simp only [SlotCore.Settled, state]
      exact kept.1
  | error => simp [state] at kept

theorem restartSlot_focused {restart : Restart} (settled : c.Settled pool) :
    Focused good pool m₀ i (restartSlot pool restart i) (RestartEnds good pool m₀ i restart c) c [] := by
  simp only [restartSlot, lift_bind]
  refine focused_loadState (focused_loadToken ?_)
  have kept := settled
  rw [SlotCore.Settled] at kept
  cases state : c.state with
  | free =>
      simp only [state] at kept
      have idle : RestartEnds good pool m₀ i restart c .skip c [] := by
        simp only [RestartEnds, state]
        exact ⟨trivial, trivial, trivial⟩
      split
      · exact focused_dropToken kept fun _ => focused_done idle
      · simp only [reduceCtorEq, false_and, if_false]
        exact focused_done idle
  | transfer =>
      simp only [state] at kept
      have idle : RestartEnds good pool m₀ i restart c .skip c [] := by
        simp only [RestartEnds, state]
        exact ⟨trivial, trivial, trivial⟩
      simp only [reduceCtorEq, false_and, if_false, true_and]
      split
      · exact focused_clearClaimToken kept (focused_done idle)
      · exact focused_done idle
  | claiming =>
      simp only [state] at kept
      simp only [reduceCtorEq, false_and, if_false, if_true]
      refine restartRepair_focused state kept (fun stranger => ?_) (fun own => ?_)
      · refine focused_done ?_
        simp only [RestartEnds, state]
        exact .inl ⟨trivial, trivial, trivial, stranger⟩
      · refine (restartAdopt_focused Quiet.nil rfl rfl).mono fun round c' log' ends => ?_
        simp only [RestartEnds, state]
        exact .inr ⟨own, ends⟩
  | owned =>
      simp only [state] at kept
      simp only [reduceCtorEq, false_and, if_false, if_true]
      refine (restartAdopt_focused Quiet.nil state kept).mono fun round c' log' ends => ?_
      simp only [RestartEnds, state]
      exact ends
  | error => simp [state] at kept

/-! ## Administrative recovery -/

/-- How a slot that an owner recovery has taken aside ends. -/
def RecoverEnds (pool : Pool) (component deadEpoch minimumAgeNs : Nat) (c : SlotCore)
    (result : Except Status (Option Bool)) (c' : SlotCore) (log : List TraceRecord) : Prop :=
  Quiet log ∧
    ((c' = c ∧ (∃ newer, result = .ok (some newer)) ∧
        (minimumAgeNs = 0 → ¬(c.ownerId = component ∧ c.ownerEpoch = deadEpoch))) ∨
      (∃ status, result = .error status ∧ status ≠ .ok ∧ pool.strict = true ∧ c' = c) ∨
      (result = .ok none ∧ c.ownerId = component ∧ c.ownerEpoch = deadEpoch ∧ c'.Closed pool ∧
        ∃ access, c' = { c with
          state := .free, ownerId := invalidComponentId, nextOwnerId := invalidComponentId,
          region := ⟨0, 0⟩, access }))

theorem recoverProbed_focused {component deadEpoch minimumAgeNs time : Nat} {state : SlotState}
    (lax : guard.strict = true → pool.strict = true) (found : c.state = state)
    (hidden : state = .transfer → c.Closed guard) (live : state ≠ .free) :
    Focused good guard m₀ i (recoverProbed pool component deadEpoch minimumAgeNs time i state)
      (RecoverEnds pool component deadEpoch minimumAgeNs c) { c with state := .error } [] := by
  subst found
  have guard : c.state = .free ∨ c.state = .transfer → c.Closed guard := by
    rintro (free | transfer)
    · exact absurd free live
    · exact hidden transfer
  simp only [recoverProbed, lift_bind]
  refine focused_read (·.ownerId) (fun _ _ _ => rfl) ?_
  split
  · rename_i other
    refine focused_storeState guard (focused_done ⟨Quiet.nil, .inl ⟨rfl, ⟨_, rfl⟩, ?_⟩⟩)
    exact fun _ same => other same.1
  rename_i owner
  refine focused_read (·.ownerEpoch) (fun _ _ _ => rfl) ?_
  split
  · rename_i other
    refine focused_storeState guard (focused_done ⟨Quiet.nil, .inl ⟨rfl, ⟨_, rfl⟩, ?_⟩⟩)
    exact fun _ same => other same.2
  rename_i epoch
  refine focused_read (·.acquiredNs) (fun _ _ _ => rfl) ?_
  split
  · rename_i young
    refine focused_storeState guard (focused_done ⟨Quiet.nil, .inl ⟨rfl, ⟨_, rfl⟩, ?_⟩⟩)
    exact fun zero => absurd zero young.1
  refine focused_protectSlot (fun status failed strict => ?_) (fun access closed => ?_)
  · rw [if_pos failed]
    refine focused_storeState guard (focused_done ⟨Quiet.nil, .inr (.inl ?_)⟩)
    exact ⟨status, rfl, failed, strict.1, rfl⟩
  rw [if_neg (not_not_intro rfl)]
  refine focused_traceSlot (focused_readAny fun recoveries => focused_write ?_)
  refine focused_readAny fun errors => focused_write (focused_writeAll ?_)
  simp only [SlotCore.applyAll, List.foldl_cons, List.foldl_nil, SlotWrite.applyCore]
  refine focused_storeState (fun _ strict => closed (lax strict)) (focused_count (focused_addRecoveredSlot ?_))
  refine focused_done ⟨Quiet.nil.record ⟨by simp, by simp⟩, .inr (.inr ?_)⟩
  exact ⟨rfl, not_not.mp owner, not_not.mp epoch, closed, access, rfl⟩

/-- The core of a slot that `zipc_pool_recover_claiming` has cleared. -/
def SlotCore.cleared (c : SlotCore) (access : Bool) : SlotCore :=
  { c with
    state := .free, claimToken := 0, ownerId := invalidComponentId
    nextOwnerId := invalidComponentId, ownerEpoch := 0, hopCount := 0, hopLimit := 0
    visited := .empty, identity := ⟨0, 0⟩, region := ⟨0, 0⟩, transferSequence := 0
    acquiredNs := 0, deadlineNs := 0, claimPreviousSequence := 0
    claimPreviousRegion := ⟨0, 0⟩, claimPreviousOwner := invalidComponentId
    claimPreviousOwnerEpoch := 0, transferLinkId := 0, transferSourceId := invalidComponentId
    transferSourceEpoch := 0, transferHopCount := 0, transferAcquiredNs := 0
    transferVisited := .empty, access }

theorem SlotCore.cleared_empty (c : SlotCore) (access : Bool) : (c.cleared access).Empty :=
  ⟨rfl, rfl, rfl, rfl, rfl⟩

theorem focused_recoverClaimingFields {α : Type} {Q : α → SlotCore → List TraceRecord → Prop}
    {next : Unit → Prog α} (closed : c.Closed pool)
    (rest : Focused good pool m₀ i (next ()) Q (c.cleared c.access) log) :
    Focused good pool m₀ i (do
      writeAll i recoverClaimingFields
      storeToken i 0
      storeState i .free
      next ()) Q c log := by
  refine focused_writeAll ?_
  simp only [SlotCore.applyAll, recoverClaimingFields, List.foldl_cons, List.foldl_nil,
    SlotWrite.applyCore]
  exact focused_storeToken (focused_storeState (fun _ => closed) rest)

/-! ## Reconciliation -/

/-- How the repair of a slot in `CLAIMING` ends. -/
def ReconcileEnds (restart : Restart) (c : SlotCore) (c' : SlotCore) (log : List TraceRecord) :
    Prop :=
  log = [] ∧ (c' = c ∨ restart.owns c.claimToken = true ∧ c' = c.repaired)

theorem reconcileClaiming_focused {link : Link} {restart : Restart} (state : c.state = .claiming)
    (left : c.LeftByRollback pool) :
    Focused good pool m₀ i (reconcileClaiming pool link restart i c.claimToken)
      (fun result c' log' => (∃ again, result = .ok again) ∧ ReconcileEnds restart c c' log')
      c [] := by
  have idle : (∃ again, (.ok false : Except Status Bool) = .ok again) ∧
      ReconcileEnds restart c c [] := ⟨⟨false, rfl⟩, rfl, .inl rfl⟩
  simp only [reconcileClaiming, lift_bind, left.kind]
  by_cases producer : link.role = .producer
  · simp only [producer, if_true, or_true, not_true, false_or]
    split
    · exact focused_done idle
    rename_i own
    rw [Bool.not_eq_false] at own
    refine focused_casState (by decide) (fun _ => ?_) (fun lost => absurd state lost)
    rw [if_neg (by decide)]
    refine focused_read (·.claimPreviousSequence) (fun _ _ _ => rfl) (focused_write ?_)
    refine focused_write (focused_storeToken (focused_storeState nofun (focused_done ?_)))
    exact ⟨⟨_, rfl⟩, rfl, .inr ⟨own, rfl⟩⟩
  · simp only [producer, if_false]
    rw [if_pos (.inl (by decide))]
    exact focused_done idle

theorem focused_reconcileMatches {link : Link} {restart : Restart} {α : Type}
    {Q : α → SlotCore → List TraceRecord → Prop} {next : Bool → Prog α}
    (rest : Focused good pool m₀ i (next (decide (c.ownerId = restart.component ∧
      c.ownerEpoch = restart.deadEpoch ∧ c.nextOwnerId = link.remoteComponent ∧
      c.transferLinkId = link.linkId))) Q c log) :
    Focused good pool m₀ i (reconcileMatches link restart i >>= next) Q c log := by
  apply focused_bind
  simp only [reconcileMatches, lift_bind]
  refine focused_read (·.ownerId) (fun _ _ _ => rfl) ?_
  split
  · rename_i different
    exact focused_done (by simpa [different] using rest)
  rename_i owner
  rw [not_not] at owner
  refine focused_read (·.ownerEpoch) (fun _ _ _ => rfl) ?_
  split
  · rename_i different
    exact focused_done (by simpa [different] using rest)
  rename_i epoch
  rw [not_not] at epoch
  refine focused_read (·.nextOwnerId) (fun _ _ _ => rfl) ?_
  split
  · rename_i different
    exact focused_done (by simpa [different] using rest)
  rename_i receiver
  rw [not_not] at receiver
  refine focused_read (·.transferLinkId) (fun _ _ _ => rfl) (focused_done ?_)
  simpa [owner, epoch, receiver] using rest

/-- Looking at a transfer from the producer's end leaves it as it is. -/
theorem reconcileProbe_focused {link : Link} {restart : Restart} (state : c.state = .transfer)
    (zero : c.claimToken = 0) (closed : c.Closed pool) :
    Focused good pool m₀ i (reconcileProbe link restart i)
      (fun probed c' log' => c' = c ∧ log' = [] ∧ ∀ generation sequence,
        probed = some (generation, sequence) → generation = c.generation ∧
          sequence = c.transferSequence ∧ c.ownerId = restart.component ∧
          c.ownerEpoch = restart.deadEpoch ∧ c.nextOwnerId = link.remoteComponent) c [] := by
  have back : { c with state := .transfer } = c := by rw [← state]
  simp only [reconcileProbe, lift_bind, clearRollback]
  refine focused_loadToken ?_
  rw [zero, if_neg fun rollback => absurd rollback.1 (by decide)]
  refine focused_casState (by decide) (fun _ => ?_) (fun lost => absurd state lost)
  rw [if_neg (by decide)]
  refine focused_reconcileMatches ?_
  split
  · exact focused_storeState (fun _ => closed) (focused_done ⟨back, rfl, nofun⟩)
  rename_i same
  rw [Bool.not_eq_false, decide_eq_true_eq] at same
  refine focused_loadGeneration (focused_read (·.transferSequence) (fun _ _ _ => rfl) ?_)
  refine focused_storeState (fun _ => closed) (focused_done ⟨back, rfl, ?_⟩)
  intro generation sequence probed
  obtain ⟨rfl, rfl⟩ := probed
  exact ⟨rfl, rfl, same.1, same.2.1, same.2.2.1⟩

end Repairs

end Zipc
