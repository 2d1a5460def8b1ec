import Mathlib.Data.List.DropRight
import Mathlib.Data.List.TakeWhile
import Mathlib.Tactic.Common

/-! # Trimming

A list without the elements at its two ends that satisfy `p`. `List.rdropWhile` drops at the
right end, so that both ends come down to an element that stays.
-/

namespace Trim

variable {α : Type} {p : α → Bool} {s pad pad' a b : List α} {c : α}

/-- `s` without what satisfies `p` at its ends. -/
def trim (p : α → Bool) (s : List α) : List α := (s.dropWhile p).rdropWhile p

/-- There is nothing to trim. -/
structure Bare (p : α → Bool) (s : List α) : Prop where
  left : ∀ c ∈ s.head?, p c = false
  right : ∀ c ∈ s.getLast?, p c = false

/-- The right end is dropped behind an element that stays. -/
theorem rdropWhile_append_cons (stays : p c = false) (a b : List α) :
    (a ++ c :: b).rdropWhile p = a ++ c :: b.rdropWhile p := by
  unfold List.rdropWhile
  rw [List.reverse_append, List.reverse_cons, List.append_assoc, List.dropWhile_append]
  split
  · rename_i gone
    rw [List.isEmpty_iff] at gone
    simp [gone, stays]
  · simp

theorem rdropWhile_append_of_pos (drops : ∀ c ∈ pad, p c = true) (s : List α) :
    (s ++ pad).rdropWhile p = s.rdropWhile p := by
  unfold List.rdropWhile
  rw [List.reverse_append, List.dropWhile_append_of_pos]
  intro c member
  exact drops c (List.mem_reverse.mp member)

/-- A list that is not dropped whole has a first element that stays. -/
theorem dropWhile_cases (p : α → Bool) (s : List α) :
    (∀ c ∈ s, p c = true) ∨
      ∃ pad c b, s = pad ++ c :: b ∧ (∀ c ∈ pad, p c = true) ∧ p c = false := by
  cases rest : s.dropWhile p with
  | nil => exact .inl (List.dropWhile_eq_nil_iff.mp rest)
  | cons c b =>
    refine .inr ⟨s.takeWhile p, c, b, ?_, fun c member => List.mem_takeWhile_imp member, ?_⟩
    · rw [← rest, List.takeWhile_append_dropWhile]
    · have first := List.dropWhile_get_zero_not p s (by simp [rest])
      simpa [rest] using first

theorem dropWhile_append_cons (drops : ∀ c ∈ pad, p c = true) (stays : p c = false) (b : List α) :
    (pad ++ c :: b).dropWhile p = c :: b := by
  rw [List.dropWhile_append_of_pos drops, List.dropWhile_cons_of_neg (by simp [stays])]

theorem trim_blank (drops : ∀ c ∈ s, p c = true) : trim p s = [] := by
  rw [trim, List.dropWhile_eq_nil_iff.mpr drops, List.rdropWhile_nil]

/-- Both ends at once, around an element that stays. -/
theorem trim_append_cons (drops : ∀ c ∈ pad, p c = true) (stays : p c = false) (b : List α) :
    trim p (pad ++ c :: b) = c :: b.rdropWhile p := by
  rw [trim, dropWhile_append_cons drops stays]
  exact rdropWhile_append_cons stays [] b

/-- Dropping at the right end first makes no difference. -/
theorem trim_rdropWhile (p : α → Bool) (s : List α) : trim p (s.rdropWhile p) = trim p s := by
  rcases dropWhile_cases p s with drops | ⟨pad, c, b, rfl, drops, stays⟩
  · rw [List.rdropWhile_eq_nil_iff.mpr drops, trim_blank drops]
    rfl
  · rw [rdropWhile_append_cons stays, trim_append_cons drops stays, trim_append_cons drops stays,
      List.rdropWhile_idempotent]

theorem trim_pad (left : ∀ c ∈ pad, p c = true) (right : ∀ c ∈ pad', p c = true) (s : List α) :
    trim p (pad ++ s ++ pad') = trim p s := by
  rw [← trim_rdropWhile, rdropWhile_append_of_pos right, trim_rdropWhile, trim,
    List.dropWhile_append_of_pos left, trim]

theorem Bare.trim (bare : Bare p s) : trim p s = s := by
  cases s with
  | nil => rfl
  | cons c b =>
    have stays : p c = false := bare.left c (by simp)
    have cut : Trim.trim p (c :: b) = (c :: b).rdropWhile p := by
      rw [Trim.trim, List.dropWhile_cons_of_neg (by simp [stays])]
    rw [cut, List.rdropWhile_eq_self_iff]
    intro nonempty
    rw [Bool.not_eq_true]
    exact bare.right _ (by simp [List.getLast?_eq_some_getLast nonempty])

theorem trim_bare (p : α → Bool) (s : List α) : Bare p (trim p s) := by
  rcases dropWhile_cases p s with drops | ⟨pad, c, b, rfl, drops, stays⟩
  · rw [trim_blank drops]
    exact ⟨nofun, nofun⟩
  · rw [trim_append_cons drops stays]
    refine ⟨fun first member => ?_, fun last member => ?_⟩
    · simp only [List.head?_cons, Option.mem_some_iff] at member
      exact member ▸ stays
    · have whole : c :: b.rdropWhile p = (c :: b).rdropWhile p :=
        (rdropWhile_append_cons stays [] b).symm
      have nonempty : (c :: b).rdropWhile p ≠ [] := by
        rw [← whole]
        exact List.cons_ne_nil _ _
      have ends := List.rdropWhile_last_not p (c :: b) nonempty
      rw [whole, List.getLast?_eq_some_getLast nonempty, Option.mem_some_iff] at member
      rwa [member, Bool.not_eq_true] at ends

end Trim
