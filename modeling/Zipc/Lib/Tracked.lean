import Mathlib.Data.Nat.Bitwise

/-! # Machine arithmetic that remembers its wraps

A value computed with fixed-width unsigned operations, together with whether every
operation on the way gave the exact result. Branches that are not taken compute nothing,
so the mark speaks of the path that was really run.
-/

/-- A value, and whether no operation that led to it wrapped. -/
structure Tracked (α : Type) where
  value : α
  exact : Bool

namespace Tracked

variable {α β : Type}

instance : Monad Tracked where
  pure a := ⟨a, true⟩
  bind x f := ⟨(f x.value).value, x.exact && (f x.value).exact⟩

@[simp] theorem value_pure (a : α) : (pure a : Tracked α).value = a := rfl

@[simp] theorem exact_pure (a : α) : (pure a : Tracked α).exact = true := rfl

@[simp] theorem value_bind (x : Tracked α) (f : α → Tracked β) :
    (x >>= f).value = (f x.value).value := rfl

@[simp] theorem exact_bind (x : Tracked α) (f : α → Tracked β) :
    (x >>= f).exact = (x.exact && (f x.value).exact) := rfl

@[simp] theorem value_ite {c : Prop} [Decidable c] (x y : Tracked α) :
    (if c then x else y).value = if c then x.value else y.value := by
  split <;> rfl

@[simp] theorem exact_ite {c : Prop} [Decidable c] (x y : Tracked α) :
    (if c then x else y).exact = if c then x.exact else y.exact := by
  split <;> rfl

/-- `x && y`: the second operand is computed only when the first holds. -/
def both (x y : Tracked Bool) : Tracked Bool := do
  if (← x) = true then y else pure false

@[simp] theorem value_both (x y : Tracked Bool) : (both x y).value = (x.value && y.value) := by
  unfold both
  cases h : x.value <;> simp [h]

@[simp] theorem exact_both (x y : Tracked Bool) :
    (both x y).exact = (x.exact && (!x.value || y.exact)) := by
  unfold both
  cases h : x.value <;> simp [h]

/-- A test that computes nothing. -/
def test (c : Prop) [Decidable c] : Tracked Bool := pure (decide c)

@[simp] theorem value_test (c : Prop) [Decidable c] : (test c).value = decide c := rfl

@[simp] theorem exact_test (c : Prop) [Decidable c] : (test c).exact = true := rfl

section Operations

variable (w a b : Nat)

def add : Tracked Nat := ⟨(a + b) % 2 ^ w, decide (a + b < 2 ^ w)⟩

def sub : Tracked Nat := ⟨(a + 2 ^ w - b) % 2 ^ w, decide (b ≤ a)⟩

def mul : Tracked Nat := ⟨a * b % 2 ^ w, decide (a * b < 2 ^ w)⟩

/-- A conversion to a type of `w` bits. -/
def narrow : Tracked Nat := ⟨a % 2 ^ w, decide (a < 2 ^ w)⟩

end Operations

variable {w a b : Nat}

theorem add_of_lt (fits : a + b < 2 ^ w) : add w a b = pure (a + b) := by
  simp only [add, Nat.mod_eq_of_lt fits, fits, decide_true]
  rfl

theorem sub_of_le (low : b ≤ a) (fits : a < 2 ^ w) : sub w a b = pure (a - b) := by
  have shifted : (a + 2 ^ w - b) % 2 ^ w = a - b := by
    rw [Nat.sub_add_comm low, Nat.add_mod_right]
    exact Nat.mod_eq_of_lt (by omega)
  simp only [sub, shifted, low, decide_true]
  rfl

theorem mul_of_lt (fits : a * b < 2 ^ w) : mul w a b = pure (a * b) := by
  simp only [mul, Nat.mod_eq_of_lt fits, fits, decide_true]
  rfl

theorem narrow_of_lt (fits : a < 2 ^ w) : narrow w a = pure a := by
  simp only [narrow, Nat.mod_eq_of_lt fits, fits, decide_true]
  rfl

@[simp] theorem pure_bind' (x : α) (f : α → Tracked β) : (pure x >>= f) = f x := by
  simp only [bind, pure, Bool.true_and]

/-! ## Tests that do not wrap -/

/-- The computation never wraps, and answers whether `P` holds. -/
structure Decides (x : Tracked Bool) (P : Prop) : Prop where
  exact : x.exact = true
  iff : x.value = true ↔ P

theorem decides_test (c : Prop) [Decidable c] : Decides (test c) c where
  exact := rfl
  iff := decide_eq_true_iff

theorem decides_both {x y : Tracked Bool} {P Q : Prop} (first : Decides x P)
    (second : P → Decides y Q) : Decides (both x y) (P ∧ Q) := by
  by_cases holds : x.value = true
  · have rest := second (first.iff.mp holds)
    constructor
    · simp [first.exact, holds, rest.exact]
    · simp [holds, rest.iff, first.iff.mp holds]
  · constructor
    · simp [first.exact, holds]
    · have refused : ¬ P := fun h => holds (first.iff.mpr h)
      simp [holds, refused]

theorem Decides.congr {x : Tracked Bool} {P Q : Prop} (d : Decides x P) (same : P ↔ Q) :
    Decides x Q := ⟨d.exact, d.iff.trans same⟩

theorem Decides.value_false {x : Tracked Bool} {P : Prop} (d : Decides x P) :
    x.value = false ↔ ¬ P := by
  rw [← d.iff]
  simp

/-! ## Masks -/

/-- Clearing the low bits of a word rounds down to the power of two. -/
theorem and_mask {x k w : Nat} (fits : x < 2 ^ w) (narrower : k ≤ w) :
    x &&& (2 ^ w - 1 - (2 ^ k - 1)) = x / 2 ^ k * 2 ^ k := by
  have below : 2 ^ k ≤ 2 ^ w := Nat.pow_le_pow_right (by decide) narrower
  have positive : 0 < 2 ^ k := Nat.two_pow_pos k
  have mask : 2 ^ w - 1 - (2 ^ k - 1) = 2 ^ w - (2 ^ k - 1 + 1) := by omega
  apply Nat.eq_of_testBit_eq
  intro i
  rw [mask, Nat.testBit_and, Nat.testBit_two_pow_sub_succ (by omega), Nat.testBit_two_pow_sub_one,
    Nat.mul_comm, Nat.testBit_two_pow_mul, Nat.testBit_div_two_pow]
  by_cases high : i < k
  · simp [high, Nat.not_le.mpr high]
  · by_cases outside : i < w
    · simp [high, outside, Nat.not_lt.mp high]
    · have zero : x.testBit i = false := by
        apply Nat.testBit_lt_two_pow
        exact Nat.lt_of_lt_of_le fits (Nat.pow_le_pow_right (by decide) (by omega))
      simp [zero, Nat.not_lt.mp high]

/-- Rounding up by adding the alignment less one and rounding down. -/
theorem roundUp_spec {n a : Nat} (positive : 0 < a) :
    n ≤ (n + a - 1) / a * a ∧ (n + a - 1) / a * a ≤ n + a - 1 ∧ a ∣ (n + a - 1) / a * a := by
  have parts := Nat.div_add_mod (n + a - 1) a
  have small := Nat.mod_lt (n + a - 1) positive
  rw [Nat.mul_comm] at parts
  refine ⟨by omega, by omega, Nat.dvd_mul_left _ _⟩

end Tracked
