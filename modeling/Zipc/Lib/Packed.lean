import Mathlib.Tactic.Common
import Mathlib.Data.Nat.Bitwise

/-! # Bit fields packed into one word

`hi <<< w ||| lo` with `lo` below `2 ^ w` keeps both fields apart: they are read back
with a shift and a remainder, and the word determines them.
-/

namespace Packed

theorem pack_eq {hi w lo : Nat} (small : lo < 2 ^ w) : hi <<< w ||| lo = hi * 2 ^ w + lo := by
  rw [← Nat.shiftLeft_add_eq_or_of_lt small, Nat.shiftLeft_eq]

theorem high {hi w lo : Nat} (small : lo < 2 ^ w) : (hi <<< w ||| lo) >>> w = hi := by
  rw [pack_eq small, Nat.shiftRight_eq_div_pow, Nat.add_comm,
    Nat.add_mul_div_right _ _ (Nat.two_pow_pos w), Nat.div_eq_of_lt small, Nat.zero_add]

theorem low {hi w lo : Nat} (small : lo < 2 ^ w) : (hi <<< w ||| lo) % 2 ^ w = lo := by
  rw [pack_eq small, Nat.mul_add_mod', Nat.mod_eq_of_lt small]

theorem lt {hi w lo v : Nat} (small : lo < 2 ^ w) (top : hi < 2 ^ v) :
    hi <<< w ||| lo < 2 ^ (v + w) := by
  rw [pack_eq small, Nat.pow_add]
  calc
    hi * 2 ^ w + lo < hi * 2 ^ w + 2 ^ w := Nat.add_lt_add_left small _
    _ = (hi + 1) * 2 ^ w := by rw [Nat.add_mul, Nat.one_mul]
    _ ≤ 2 ^ v * 2 ^ w := Nat.mul_le_mul_right _ top

theorem injective {hi hi' w lo lo' : Nat} (small : lo < 2 ^ w) (small' : lo' < 2 ^ w)
    (same : hi <<< w ||| lo = hi' <<< w ||| lo') : hi = hi' ∧ lo = lo' := by
  constructor
  · have top := congrArg (· >>> w) same
    simpa only [high small, high small'] using top
  · have bottom := congrArg (· % 2 ^ w) same
    simpa only [low small, low small'] using bottom

end Packed
