import Mathlib.Data.List.Basic

/-! # The last write of a history

A history is a list of events, oldest first. An event may write a value into a cell, clear the
cell, or leave it alone.
-/

namespace History

variable {α β : Type}

/-- The last event of the history that touches the cell wrote `value` into it. -/
def Latest (writes : α → Option (Option β)) (events : List α) (value : β) : Prop :=
  ∃ before event later, events = before ++ event :: later ∧ writes event = some (some value) ∧
    ∀ e ∈ later, writes e = none

variable {writes : α → Option (Option β)} {events : List α} {event : α} {value : β}

theorem Latest.write (written : writes event = some (some value)) :
    Latest writes (events ++ [event]) value :=
  ⟨events, event, [], rfl, written, by simp⟩

theorem Latest.keep (latest : Latest writes events value) (quiet : writes event = none) :
    Latest writes (events ++ [event]) value := by
  obtain ⟨before, last, later, rfl, written, still⟩ := latest
  refine ⟨before, last, later ++ [event], by simp, written, ?_⟩
  rw [List.forall_mem_append]
  exact ⟨still, by simpa using quiet⟩

end History
