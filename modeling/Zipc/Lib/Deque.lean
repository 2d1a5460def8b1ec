import Mathlib.Data.List.Basic
import Mathlib.Tactic.Common

/-! # Bounded double-ended queues

A list inside a fixed amount of room. Items are added at both ends as long as the room before
or behind the list lasts, and dropped at both ends.
-/

namespace Bounded

/-- A list with the room before it and behind it. -/
@[ext]
structure Deque (α : Type) where
  headroom : Nat
  items : List α
  tailroom : Nat

inductive Op (α : Type) where
  | append (d : List α)
  | prepend (d : List α)
  | dropFront (n : Nat)
  | dropBack (n : Nat)
  /-- Keep the first `n` items. -/
  | keep (n : Nat)

namespace Deque

variable {α : Type}

def capacity (q : Deque α) : Nat := q.headroom + q.items.length + q.tailroom

/-- The queue after the operation, unless it is refused. -/
def apply (q : Deque α) : Op α → Option (Deque α)
  | .append d =>
      if d.length ≤ q.tailroom then
        some ⟨q.headroom, q.items ++ d, q.tailroom - d.length⟩
      else none
  | .prepend d =>
      if d.length ≤ q.headroom then
        some ⟨q.headroom - d.length, d ++ q.items, q.tailroom⟩
      else none
  | .dropFront n =>
      if n ≤ q.items.length then some ⟨q.headroom + n, q.items.drop n, q.tailroom⟩ else none
  | .dropBack n =>
      if n ≤ q.items.length then
        some ⟨q.headroom, q.items.take (q.items.length - n), q.tailroom + n⟩
      else none
  | .keep n =>
      if n ≤ q.items.length then
        some ⟨q.headroom, q.items.take n, q.tailroom + (q.items.length - n)⟩
      else none

/-- The queue after the operation; a refused operation leaves it as it was. -/
def step (q : Deque α) (op : Op α) : Deque α := (q.apply op).getD q

/-- No operation changes the amount of room. -/
theorem capacity_step (q : Deque α) (op : Op α) : (q.step op).capacity = q.capacity := by
  cases op with
  | append d =>
      simp only [step, apply]
      split
      · simp only [capacity, Option.getD_some, List.length_append]
        omega
      · rfl
  | prepend d =>
      simp only [step, apply]
      split
      · simp only [capacity, Option.getD_some, List.length_append]
        omega
      · rfl
  | dropFront n =>
      simp only [step, apply]
      split
      · simp only [capacity, Option.getD_some, List.length_drop]
        omega
      · rfl
  | dropBack n =>
      simp only [step, apply]
      split
      · simp only [capacity, Option.getD_some, List.length_take]
        omega
      · rfl
  | keep n =>
      simp only [step, apply]
      split
      · simp only [capacity, Option.getD_some, List.length_take]
        omega
      · rfl

theorem capacity_foldl (ops : List (Op α)) (q : Deque α) :
    (ops.foldl step q).capacity = q.capacity := by
  induction ops generalizing q with
  | nil => rfl
  | cons op ops ih => rw [List.foldl_cons, ih, capacity_step]

end Deque

end Bounded
