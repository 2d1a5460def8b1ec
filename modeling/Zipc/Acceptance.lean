import Zipc.Controls
import Zipc.Session

/-! # What a claim accepts

`zipc_buffer_claim` takes the slot before it has checked the message. Between complete calls
a transfer carries no token, so the claim always gets the slot, and every rejection puts
state and token back.
-/

namespace Zipc

open Atomic Program

section Acceptance

variable {pool : Pool}

/-- A transfer between calls is free to be taken, and its region fits. -/
def TransfersSettled (pool : Pool) (m : Mem) : Prop :=
  ∀ i, i < pool.slotCount → (m.slots i).state = .transfer →
    (m.slots i).claimToken = 0 ∧ (m.slots i).region.Within pool.slotCapacity

theorem Session.Reached.transfers_settled {s : Session} {ok : Session → Session → Prop}
    (reached : s.Reached pool ok) : TransfersSettled pool s.mem := by
  intro i inside state
  have well : SlotWell pool (s.mem.core i) := reached.well.slots i inside
  have transfer : (s.mem.core i).state = .transfer := state
  simp only [SlotWell, transfer] at well
  exact ⟨well.2.2.1, well.2.2.2.1.region⟩

/-- What a complete claim leaves in memory. -/
theorem claim_settles {m m' : Mem} {message : Message} {receiver : Nat}
    {result : Status × Option View} (lax : pool.strict = false) (settled : TransfersSettled pool m)
    (run : Completes (bufferClaim pool message receiver) m result m') :
    ∃ s', Singled m (handleSlotId message.handle) s' m' ∧
      ClaimSettles pool m (m.slots (handleSlotId message.handle)) message receiver result s' :=
  run.sound ((claim_alone lax (settled _)) m (.refl m _)).wp

/-- Without page protection a claim between complete calls succeeds exactly for the live
transfer the message describes. It then changes that slot only, to one owned by the
receiver at its registered epoch; otherwise it changes no field of any slot control, and a
message that matches a slot is still accepted. -/
theorem claim_accepts_exactly (lax : pool.strict = false) {s : Session}
    (reached : s.Reached pool anyStep) (message : Message) (receiver : Nat)
    {result : Status × Option View} {m' : Mem}
    (run : Completes (bufferClaim pool message receiver) s.mem result m') :
    (result.1 = .ok ↔ Claimable pool s.mem.clock (s.mem.slots (handleSlotId message.handle))
      message receiver) ∧
    (result.1 = .ok →
      (∀ j, j ≠ handleSlotId message.handle → m'.slots j = s.mem.slots j) ∧
      m'.slots (handleSlotId message.handle) =
        ((s.mem.slots (handleSlotId message.handle)).receivedBy receiver
          (epochOf (s.mem.components receiver).lifecycle) s.mem.clock).traced
          s.mem.clock receiver .receive) ∧
    (result.1 ≠ .ok → m'.slots = s.mem.slots ∧
      ∀ (right : Message) (other : Nat) (result' : Status × Option View) (m'' : Mem),
        Claimable pool s.mem.clock (s.mem.slots (handleSlotId right.handle)) right other →
        Completes (bufferClaim pool right other) m' result' m'' → result'.1 = .ok) := by
  have settled := reached.transfers_settled
  obtain ⟨s', single, ends⟩ := claim_settles lax settled run
  rcases ends with ⟨ok, claimable, rfl⟩ | ⟨refused, no, rfl⟩
  · refine ⟨⟨fun _ => claimable, fun _ => ok⟩, fun _ => ⟨fun j other => ?_, ?_⟩, fun bad => ?_⟩
    · exact single.other other
    · exact single.at_slot
    · exact absurd ok bad
  · refine ⟨⟨fun ok => absurd ok refused, fun claimable => absurd claimable no⟩,
      fun ok => absurd ok refused, fun _ => ⟨single.unchanged, ?_⟩⟩
    intro right other result' m'' claimable again
    have still : TransfersSettled pool m' := by
      unfold TransfersSettled
      rw [single.unchanged]
      exact settled
    obtain ⟨s'', -, ends⟩ := claim_settles lax still again
    rw [single.unchanged] at ends
    rcases ends with ⟨ok, -, -⟩ | ⟨-, no, -⟩
    · exact ok
    · rw [single.clock] at no
      exact absurd claimable no

/-- The small pool without page protection. -/
def laxPool : Pool := { smallPool with strict := false }

/-- Component 1 has registered. -/
def laxRegistered : Session := attached.run laxPool (.life (.register 1 1))

/-- It has allocated the first slot. -/
def laxAllocated : Session := laxRegistered.run laxPool (.allocate 1 0)

/-- It has prepared the transfer of the slot to component 2. -/
def laxPrepared : Session := laxAllocated.run laxPool (.prepareTransfer (handleMake 0 1) 1 2)

theorem laxPrepared_reached : laxPrepared.Reached laxPool anyStep := by
  have starts : attached.Starts laxPool := ⟨⟨default, rfl⟩, fun _ _ => rfl, rfl, rfl, rfl, rfl⟩
  have registers : attached.Step laxPool laxRegistered := Session.run_step trivial (by decide)
  have allocates : laxRegistered.Step laxPool laxAllocated := Session.run_step trivial (by decide)
  have prepares : laxAllocated.Step laxPool laxPrepared := Session.run_step trivial (by decide)
  have first : attached.Leads laxPool anyStep laxRegistered := .single ⟨registers, trivial⟩
  have second := first.tail ⟨allocates, trivial⟩
  exact ⟨attached, starts, second.tail ⟨prepares, trivial⟩⟩

/-- A wrong sequence number is refused, and the right message is accepted afterwards. -/
theorem claim_accepts_exactly_retry :
    ((bufferClaim laxPool ⟨handleMake 0 1, 7, 1, 2, 1, 0⟩ 2).runWith default
      ((bufferClaim laxPool ⟨handleMake 0 1, 7, 1, 2, 9, 0⟩ 2).runWith default laxPrepared.mem).2).1.1 =
        .ok := by
  have run := runWith_completes default (bufferClaim laxPool ⟨handleMake 0 1, 7, 1, 2, 9, 0⟩ 2)
    laxPrepared.mem
  have exact := claim_accepts_exactly rfl laxPrepared_reached ⟨handleMake 0 1, 7, 1, 2, 9, 0⟩ 2 run
  have refused : ((bufferClaim laxPool ⟨handleMake 0 1, 7, 1, 2, 9, 0⟩ 2).runWith default
      laxPrepared.mem).1.1 ≠ .ok := by decide
  have again := runWith_completes default (bufferClaim laxPool ⟨handleMake 0 1, 7, 1, 2, 1, 0⟩ 2)
    ((bufferClaim laxPool ⟨handleMake 0 1, 7, 1, 2, 9, 0⟩ 2).runWith default laxPrepared.mem).2
  refine (exact.2.2 refused).2 ⟨handleMake 0 1, 7, 1, 2, 1, 0⟩ 2 _ _ ?_ again
  exact ⟨by decide, by decide, by decide, by decide, by decide, by decide, by decide, by decide,
    by decide, by decide, by decide⟩

end Acceptance

end Zipc
