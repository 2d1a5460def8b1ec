import Mathlib.Data.List.Basic

/-! # Queues without repetitions

A queue that takes no item twice: an item is appended unless one that counts as the same is
already there. Offered one after the other, items that differ from each other go in exactly if
they were missing at first, and in their order.
-/

namespace Atomic

variable {α : Type} (same : α → α → Bool)

/-- Append the item, unless the queue has one that counts as the same. -/
def appendMissing (queue : List α) (item : α) : List α :=
  if queue.any (same · item) then queue else queue ++ [item]

variable {same}

theorem appendMissing_of_any {queue : List α} {item : α} (there : queue.any (same · item) = true) :
    appendMissing same queue item = queue := if_pos there

theorem appendMissing_of_not_any {queue : List α} {item : α}
    (missing : queue.any (same · item) = false) :
    appendMissing same queue item = queue ++ [item] :=
  if_neg (by rw [missing]; decide)

/-- What is in the queue stays there. -/
theorem mem_foldl_appendMissing {items : List α} {queue : List α} {x : α} (there : x ∈ queue) :
    x ∈ items.foldl (appendMissing same) queue := by
  induction items generalizing queue with
  | nil => exact there
  | cons item items ih =>
      apply ih
      unfold appendMissing
      split
      · exact there
      · exact List.mem_append_left _ there

/-- Every item that was offered has its like in the queue. -/
theorem any_foldl_appendMissing (refl : ∀ x, same x x = true) {items : List α} {queue : List α}
    {item : α} (offered : item ∈ items) :
    (items.foldl (appendMissing same) queue).any (same · item) = true := by
  induction items generalizing queue with
  | nil => cases offered
  | cons first items ih =>
      rcases List.mem_cons.mp offered with rfl | later
      · rw [List.any_eq_true]
        cases there : queue.any (same · item) with
        | true =>
            obtain ⟨x, member, like⟩ := List.any_eq_true.mp there
            rw [List.foldl_cons, appendMissing_of_any there]
            exact ⟨x, mem_foldl_appendMissing member, like⟩
        | false =>
            rw [List.foldl_cons, appendMissing_of_not_any there]
            have last : item ∈ queue ++ [item] := List.mem_append_right _ List.mem_cons_self
            exact ⟨item, mem_foldl_appendMissing last, refl item⟩
      · exact ih later

theorem drop_length_takeWhile (p : α → Bool) (queue : List α) :
    queue.drop (queue.takeWhile p).length = queue.dropWhile p := by
  induction queue with
  | nil => rfl
  | cons x queue ih =>
      cases here : p x with
      | true => simpa [here] using ih
      | false => simp [here]

/-- Items that differ from each other are appended if they were missing at first. -/
theorem foldl_appendMissing {items : List α}
    (apart : items.Pairwise fun x y => same x y = false) (queue : List α) :
    items.foldl (appendMissing same) queue =
      queue ++ items.filter fun item => !queue.any (same · item) := by
  induction items generalizing queue with
  | nil => simp
  | cons item items ih =>
      rw [List.pairwise_cons] at apart
      rw [List.foldl_cons, ih apart.2]
      cases there : queue.any (same · item) with
      | true => rw [appendMissing_of_any there, List.filter_cons_of_neg (by simp [there])]
      | false =>
          rw [appendMissing_of_not_any there, List.filter_cons_of_pos (by simp [there]),
            List.append_assoc, List.singleton_append]
          congr 2
          apply List.filter_congr
          intro other later
          simp [apart.1 other later]

end Atomic
