import Mathlib.Data.Nat.BitIndices
import Mathlib.Data.Nat.Bitwise
import Mathlib.Data.Nat.Count
import Mathlib.Tactic.Common

/-! # Counting the bits of a word

`n &&& (n - 1)` clears the lowest set bit of `n`. A loop that clears bits one at a time
therefore makes as many turns as the word has set bits.
-/

namespace BitCount

theorem odd_and_pred (m : Nat) : (2 * m + 1) &&& (2 * m + 1 - 1) = 2 * m := by
  apply Nat.eq_of_testBit_eq
  intro i
  cases i with
  | zero => simp
  | succ i =>
    rw [Nat.add_sub_cancel, Nat.testBit_and]
    simp only [Nat.testBit_add_one]
    rw [show (2 * m + 1) / 2 = m by omega, show 2 * m / 2 = m by omega, Bool.and_self]

theorem even_and_pred {m : Nat} (positive : 0 < m) :
    2 * m &&& (2 * m - 1) = 2 * (m &&& (m - 1)) := by
  apply Nat.eq_of_testBit_eq
  intro i
  cases i with
  | zero => simp
  | succ i =>
    rw [Nat.testBit_and]
    simp only [Nat.testBit_add_one]
    rw [show 2 * m / 2 = m by omega, show (2 * m - 1) / 2 = m - 1 by omega,
      Nat.mul_div_cancel_left _ (by decide : 0 < 2), Nat.testBit_and]

/-- Clearing the lowest bit drops the first index. -/
theorem bitIndices_and_pred {n : Nat} (positive : 0 < n) :
    (n &&& (n - 1)).bitIndices = n.bitIndices.tail := by
  induction n using Nat.strongRecOn with
  | ind n ih =>
    obtain ⟨m, rfl | rfl⟩ := Nat.even_or_odd' n
    · have smaller : 0 < m := by omega
      rw [even_and_pred smaller, Nat.bitIndices_two_mul, Nat.bitIndices_two_mul,
        ih m (by omega) smaller, List.map_tail]
    · rw [odd_and_pred, Nat.bitIndices_two_mul, Nat.bitIndices_two_mul_add_one, List.tail_cons]

theorem and_pred_lt {n : Nat} (positive : 0 < n) : n &&& (n - 1) < n := by
  have := Nat.and_le_right (n := n) (m := n - 1)
  omega

theorem length_bitIndices_pos {n : Nat} (positive : 0 < n) : 0 < n.bitIndices.length := by
  apply List.length_pos_of_ne_nil
  intro none
  have total := Nat.sum_map_two_pow_bitIndices n
  rw [none] at total
  simp only [List.map_nil, List.sum_nil] at total
  omega

/-- One turn of the loop takes one set bit away. -/
theorem length_bitIndices_and_pred {n : Nat} (positive : 0 < n) :
    (n &&& (n - 1)).bitIndices.length + 1 = n.bitIndices.length := by
  rw [bitIndices_and_pred positive, List.length_tail]
  have := length_bitIndices_pos positive
  omega

/-- A word below `2 ^ w` has as many set bits as positions below `w` where it has one. -/
theorem length_bitIndices {n w : Nat} (small : n < 2 ^ w) :
    n.bitIndices.length = Nat.count (fun i => n.testBit i = true) w := by
  rw [Nat.count_eq_card_filter_range, ← List.toFinset_card_of_nodup Nat.bitIndices_nodup]
  congr 1
  ext i
  simp only [List.mem_toFinset, Nat.mem_bitIndices, Finset.mem_filter, Finset.mem_range]
  constructor
  · intro set
    have := Nat.ge_two_pow_of_testBit set
    exact ⟨(Nat.pow_lt_pow_iff_right (by decide)).mp (Nat.lt_of_le_of_lt this small), set⟩
  · exact fun ⟨_, set⟩ => set

end BitCount
