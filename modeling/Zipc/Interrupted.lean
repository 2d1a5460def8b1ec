import Zipc.Acceptance
import Zipc.Link

/-! # A claim that is cut off

A receiver that dies inside `zipc_buffer_claim` leaves the slot in `CLAIMING`, with the
sender's metadata in the shadow fields. Two routines repair it: the adoption scan and the
reconciliation of a consumer link. Both put the shadow fields back and name their own
component as the next owner; neither has a copy of the window.
-/

namespace Zipc

open Atomic Program

section Cut

variable {pool : Pool} {m₀ : Mem} {i : Nat} {s : SlotControl} {message : Message}
  {receiver claim epoch : Nat}

end Cut

/-! ## The repairs -/

/-- A control whose transfer was put back for component `next`. -/
def SlotControl.restored (s : SlotControl) (next : Nat) : SlotControl :=
  { s with
    state := .transfer
    ownerId := s.transferSourceId
    nextOwnerId := next
    ownerEpoch := s.transferSourceEpoch
    hopCount := s.transferHopCount
    acquiredNs := s.transferAcquiredNs
    visited := s.transferVisited
    claimToken := 0 }

section Repair

variable {pool : Pool} {m₀ : Mem} {i : Nat} {s : SlotControl} {restart : Restart} {link : Link}

theorem alone_restoreTransfer {α : Type} {next : Unit → Prog α} {Q : α → SlotControl → Prop}
    {component : Nat} (rest : Alone m₀ i (fun _ => True) (next ()) Q (s.restored component)) :
    Alone m₀ i (fun _ => True) (restoreTransfer i component >>= next) Q { s with state := .error } := by
  simp only [restoreTransfer, lift_bind, act_bind]
  refine alone_read trivial (alone_write trivial (alone_write trivial (alone_read trivial ?_)))
  refine alone_write trivial (alone_read trivial (alone_write trivial (alone_read trivial ?_)))
  refine alone_write trivial (alone_read trivial (alone_write trivial (alone_storeToken trivial ?_)))
  exact alone_storeState trivial rest

theorem back_to_claiming (state : s.state = .claiming) :
    { s with state := SlotState.claiming } = s := by
  rw [← state]

theorem restartRepair_receive (state : s.state = .claiming)
    (mine : restart.owns s.claimToken = true)
    (kind : claimTokenKind s.claimToken = ClaimKind.receive.toNat) :
    Alone m₀ i (fun _ => True) (restartRepair pool restart i s.claimToken)
      (fun round s' => (round = .skip ∧ s' = s.restored restart.component) ∨
        ∃ status, round = .fail status ∧ s' = s) s := by
  simp only [restartRepair, mine, Bool.true_eq_false, if_false, lift_bind]
  refine alone_casState trivial (fun _ => ?_) fun lost => absurd state lost
  simp only [Bool.true_eq_false, if_false, kind, if_true]
  apply alone_protectSlot trivial
  · intro _ status failed
    rw [if_pos failed]
    refine alone_storeState trivial (alone_done trivial (.inr ⟨status, rfl, ?_⟩))
    exact back_to_claiming state
  · rw [if_neg (not_not_intro rfl)]
    exact alone_restoreTransfer (alone_done trivial (.inl ⟨rfl, rfl⟩))

end Repair

/-! ## When the repair is exact -/

section Exactness

variable {pool : Pool} {s s' : SlotControl} {component claim : Nat}

theorem Session.Reached.sends {s : Session} {ok : Session → Session → Prop}
    (reached : s.Reached pool ok) {i : Nat} (inside : i < pool.slotCount)
    (state : (s.mem.slots i).state = .transfer) : ((s.mem.slots i).core true fun _ => 0).Sends := by
  have well : SlotWell pool (s.mem.core i) := reached.well.slots i inside
  have transfer : (s.mem.core i).state = .transfer := state
  simp only [SlotWell, transfer] at well
  have sends := well.2.2.2.2
  exact ⟨sends.next, sends.source, sends.sourceEpoch, sends.hopCount, sends.acquired, sends.visited,
    sends.hops⟩

theorem epochOf_lt (lifecycle : Nat) : epochOf lifecycle < u32 := by
  unfold epochOf
  split
  · decide
  · exact Nat.mod_lt _ (by decide)

end Exactness

/-- Components 1, 2 and 3 have registered, and 1 has prepared a transfer to 2. -/
def crowded : Session :=
  (((attached.run laxPool (.life (.register 1 1))).run laxPool (.life (.register 1 2))).run laxPool
    (.life (.register 1 3)))

def crowdedAllocated : Session := crowded.run laxPool (.allocate 1 0)

def crowdedPrepared : Session := crowdedAllocated.run laxPool (.prepareTransfer (handleMake 0 1) 1 2)

/-- The message for component `component` about that transfer. -/
def noticeTo (component : Nat) : Message := ⟨handleMake 0 1, 7, 1, component, 1, 0⟩

/-- Component `component` has died right after it took the slot. -/
def diedClaiming (component : Nat) : Mem :=
  (bufferClaim laxPool (noticeTo component) component).runSteps default 4 crowdedPrepared.mem

/-- Its successor has begun to restart. -/
def restarting (component : Nat) : Mem :=
  ((componentRestartBegin 1 component 1).runWith default (diedClaiming component)).2

/-- The successor's scan has run to its end. -/
def scanned (component : Nat) : (Status × Restart × Option View) × Mem :=
  (componentRestartNext laxPool ⟨component, 1, 2, 0, false⟩).runWith default (restarting component)

end Zipc
