import Zipc.Provenance

/-! # Isolation of components

A call is made for one component: the owner of the buffer, the sender or the receiver, or
the component that is restarted or recovered. A slot that is owned or in transfer changes
only by calls for its owner or, in transfer, for its next owner: whatever the other
components do in between, with any arguments and any failures, leaves the slot, its
payload and the buffers of its owner as they were.
-/

namespace Zipc

open Atomic Program

/-- The component that a call is made for; `none` when it works on no slot in use, or only
    on claims that a failed rollback left behind. -/
def ApiCall.actor : ApiCall → Option Nat
  | .life _ | .heartbeat _ _ | .linkCreate _ _ | .fromHandle _ _ | .recoverClaiming => none
  | .allocate allocator _ => some allocator
  | .allocEx link _ _ _ _ | .send link _ | .recv link _ => some link.localComponent
  | .setRegion buffer _ _ | .append buffer _ | .prepend buffer _ | .trimFront buffer _
  | .trimBack buffer _ | .resize buffer _ | .setLimits buffer _ _ | .release buffer
  | .put _ buffer => buffer.map (·.owner)
  | .prepareTransfer _ owner _ | .poolRelease _ owner => some owner
  | .claim _ receiver => some receiver
  | .restartNext restart | .reconcile _ restart _ => some restart.component
  | .recoverOwner component _ _ => some component

/-- The components that have a say in a slot. -/
def SlotCore.Party (c : SlotCore) (component : Nat) : Prop :=
  c.ownerId = component ∨ c.state = .transfer ∧ c.nextOwnerId = component

/-- A step of a component that is none of `parties`, or a tick of the clock. -/
inductive Session.Aside (pool : Pool) (parties : Nat → Prop) : Session → Session → Prop where
  | call {s : Session} {call : ApiCall} {outcome : Outcome} {m : Mem} : call.Legal s →
      (∀ k, call.actor = some k → ¬parties k) →
      Completes (call.program pool) s.mem (some outcome) m →
      Session.Aside pool parties s (s.after outcome m)
  | fill {s : Session} {v : View} (bytes : Nat → Nat) : v ∈ s.views → Valid s.mem v →
      ¬parties v.owner → Session.Aside pool parties s { s with mem := s.mem.fill v bytes }
  | tick {s : Session} (clock : Nat) :
      Session.Aside pool parties s { s with mem := { s.mem with clock } }

/-- A call reaches free slots, claims left behind, and slots that its component has a say in. -/
theorem ApiCall.reach_party {call : ApiCall} {i : Nat} {c : SlotCore} (near : call.reach.slot i c) :
    c.state = .free ∨ c.state = .claiming ∨ ∃ k, call.actor = some k ∧ c.Party k := by
  have optional {buffer : Option View}
      (near : (buffer.elim noReach fun v => ownerReach v.owner).slot i c)
      (acts : call.actor = buffer.map (·.owner)) : ∃ k, call.actor = some k ∧ c.Party k := by
    cases buffer with
    | none => exact near.elim
    | some v => exact ⟨v.owner, acts, .inl near.2⟩
  cases call with
  | life | heartbeat | linkCreate | fromHandle => exact near.elim
  | allocate | allocEx => exact .inl near
  | setRegion | append | prepend | trimFront | trimBack | resize | setLimits | release | put =>
      exact .inr (.inr (optional near rfl))
  | prepareTransfer | poolRelease => exact .inr (.inr ⟨_, rfl, .inl near.2⟩)
  | send | restartNext | recoverOwner | reconcile => exact .inr (.inr ⟨_, rfl, .inl near.2⟩)
  | claim | recv => exact .inr (.inr ⟨_, rfl, .inr near⟩)
  | recoverClaiming => exact .inr (.inl near)

section Runs

variable {pool : Pool} {parties : Nat → Prop} {s s' : Session} {i : Nat}

theorem Session.Aside.step (aside : s.Aside pool parties s') : s.Step pool s' := by
  cases aside with
  | call legal _ run => exact .call legal run
  | fill bytes known valid => exact .fill bytes known valid
  | tick clock => exact .tick clock

/-- A slot in use, all of whose parties stand aside. -/
structure SlotCore.Secluded (parties : Nat → Prop) (c : SlotCore) : Prop where
  used : c.state = .owned ∨ c.state = .transfer
  parties : ∀ k, c.Party k → parties k

theorem SlotCore.Secluded.beyond {c : SlotCore} (secluded : c.Secluded parties) {call : ApiCall}
    (others : ∀ k, call.actor = some k → ¬parties k) : ¬call.reach.slot i c := by
  intro near
  have used := secluded.used
  rcases ApiCall.reach_party near with free | claiming | ⟨k, acts, party⟩
  · simp [free] at used
  · simp [claiming] at used
  · exact others k acts (secluded.parties k party)

/-- One step of the others. -/
theorem Session.Aside.core (aside : s.Aside pool parties s') (well : SessionWell pool s)
    (secluded : (s.mem.core i).Secluded parties) : s'.mem.core i = s.mem.core i := by
  cases aside with
  | call legal others run =>
      exact (run.sound (ApiCall.delivers well legal).wp).lives.outside (secluded.beyond others)
  | @fill v bytes known valid other =>
      have lives := (fill_settles (well.views v known) well.slots valid bytes).lives
      refine lives.outside fun near => other (secluded.parties _ (.inl near.2))
  | tick => rfl

theorem Session.Aside.run (leads : Relation.ReflTransGen (Session.Aside pool parties) s s')
    (well : SessionWell pool s) (secluded : (s.mem.core i).Secluded parties) :
    s'.mem.core i = s.mem.core i := by
  suffices both : SessionWell pool s' ∧ s'.mem.core i = s.mem.core i from both.2
  induction leads with
  | refl => exact ⟨well, rfl⟩
  | tail _ last ih =>
      obtain ⟨sound, same⟩ := ih
      exact ⟨sound.step last.step, (last.core sound (same ▸ secluded)).trans same⟩

end Runs

end Zipc
