import Zipc.Words
import Zipc.Lib.BitCount
import Mathlib.Data.Fintype.Pi
import Mathlib.Logic.Function.Basic
import Mathlib.Order.Interval.Finset.Nat

/-! # The visited-component set

`zipc_visited_set_t`: one bit per component ID in eight 32-bit words. Only the usable
IDs 1 to 254 are ever added or tested true.
-/

namespace Zipc

structure VisitedSet where
  words : Fin 8 → BitVec 32
  deriving DecidableEq

namespace VisitedSet

def empty : VisitedSet := ⟨fun _ => 0⟩

instance : Inhabited VisitedSet := ⟨empty⟩

/-- The word of a component, `component / 32U`. -/
def word (component : Nat) : Fin 8 := Fin.ofNat 8 (component / 32)

/-- The bit of a component in its word, `UINT32_C(1) << (component % 32U)`. -/
def bit (component : Nat) : BitVec 32 := 1#32 <<< (component % 32)

/-- `zipc_visited_set_test`. -/
def test (visited : VisitedSet) (component : Nat) : Bool :=
  componentIdValid component && (visited.words (word component) &&& bit component) != 0#32

/-- `visited_set_add`. -/
def add (visited : VisitedSet) (component : Nat) : VisitedSet :=
  if componentIdValid component then
    ⟨Function.update visited.words (word component)
      (visited.words (word component) ||| bit component)⟩
  else visited

theorem toNat_pos {word : BitVec 32} (live : word ≠ 0#32) : 0 < word.toNat :=
  Nat.pos_of_ne_zero fun zero => live (BitVec.eq_of_toNat_eq zero)

theorem toNat_clear {word : BitVec 32} (live : word ≠ 0#32) :
    (word &&& (word - 1#32)).toNat = word.toNat &&& (word.toNat - 1) := by
  have one : (1#32).toNat ≤ word.toNat := toNat_pos live
  rw [BitVec.toNat_and, BitVec.toNat_sub_of_le (BitVec.le_def.mpr one)]
  rfl

/-- The inner loop of `zipc_visited_set_count`: it clears the lowest bit of the word until
no bit is left. -/
def clearLoop (word : BitVec 32) (count : Nat) : Nat :=
  if word = 0#32 then count
  else clearLoop (word &&& (word - 1#32)) ((count + 1) % u32)
termination_by word.toNat
decreasing_by
  rename_i live
  rw [toNat_clear live]
  exact BitCount.and_pred_lt (toNat_pos live)

/-- The counter of `zipc_visited_set_count` after the loop over the first `i` words. -/
def countWords (visited : VisitedSet) : Nat → Nat
  | 0 => 0
  | i + 1 => clearLoop (visited.words (Fin.ofNat 8 i)) (visited.countWords i)

/-- The reserved bits 0 and 255 that the count takes back. -/
def reservedLow (visited : VisitedSet) : Nat := if visited.words 0 &&& 1#32 ≠ 0#32 then 1 else 0

def reservedHigh (visited : VisitedSet) : Nat :=
  if visited.words 7 &&& (1#32 <<< 31) ≠ 0#32 then 1 else 0

/-- `zipc_visited_set_count`. -/
def count (visited : VisitedSet) : Nat :=
  sub32 (sub32 (visited.countWords 8) visited.reservedLow) visited.reservedHigh

theorem and_bit_ne_zero (w : BitVec 32) (component : Nat) :
    (w &&& bit component) ≠ 0#32 ↔ w.getLsbD (component % 32) = true := by
  have small : component % 32 < 32 := Nat.mod_lt component (by decide)
  rw [bit, ← BitVec.twoPow_eq, BitVec.and_twoPow]
  split
  · rename_i set
    refine ⟨fun _ => set, fun _ zero => ?_⟩
    have lit := congrArg (fun v => v.getLsbD (component % 32)) zero
    simp [small] at lit
  · rename_i clear
    simp [clear]

theorem test_iff (visited : VisitedSet) (component : Nat) :
    visited.test component = true ↔ componentIdValid component = true ∧
      (visited.words (word component)).getLsbD (component % 32) = true := by
  simp only [test, Bool.and_eq_true, bne_iff_ne, and_bit_ne_zero]

/-- Two usable IDs with the same word and the same bit are one ID. -/
theorem word_bit_injective {c d : Nat} (hc : componentIdValid c = true)
    (hd : componentIdValid d = true) (sameWord : word c = word d) (sameBit : c % 32 = d % 32) :
    c = d := by
  rw [componentIdValid_iff] at hc hd
  have quotient : c / 32 % 8 = d / 32 % 8 := congrArg Fin.val sameWord
  omega

/-- Adding a usable ID makes exactly that ID test true. -/
theorem test_add (visited : VisitedSet) {added : Nat} (component : Nat)
    (valid : componentIdValid added = true) :
    (visited.add added).test component = true ↔
      component = added ∨ visited.test component = true := by
  simp only [test_iff, add, valid, if_true]
  by_cases sameWord : word component = word added
  · rw [sameWord, Function.update_self, BitVec.getLsbD_or, bit, ← BitVec.twoPow_eq,
      BitVec.getLsbD_twoPow]
    simp only [Nat.mod_lt added (by decide : 32 > 0), decide_true, Bool.true_and, Bool.or_eq_true,
      decide_eq_true_eq]
    constructor
    · rintro ⟨ok, old | new⟩
      · exact .inr ⟨ok, old⟩
      · exact .inl (word_bit_injective ok valid sameWord new.symm)
    · rintro (rfl | ⟨ok, old⟩)
      · exact ⟨valid, .inr rfl⟩
      · exact ⟨ok, .inl old⟩
  · rw [Function.update_of_ne sameWord]
    have different : component ≠ added := fun same => sameWord (same ▸ rfl)
    simp [different]

/-! ## The count -/

theorem clearLoop_eq (word : BitVec 32) (count : Nat)
    (room : count + word.toNat.bitIndices.length < u32) :
    clearLoop word count = count + word.toNat.bitIndices.length := by
  induction word, count using clearLoop.induct with
  | case1 count =>
    rw [clearLoop]
    simp
  | case2 word count live ih =>
    have fewer := BitCount.length_bitIndices_and_pred (toNat_pos live)
    rw [toNat_clear live] at ih
    have small : (count + 1) % u32 = count + 1 := Nat.mod_eq_of_lt (by omega)
    rw [clearLoop, if_neg live, ih (by rw [small]; omega), small]
    omega

/-- Whether the bit of an ID is set, reserved IDs included. -/
def Holds (visited : VisitedSet) (component : Nat) : Prop :=
  (visited.words (word component)).getLsbD (component % 32) = true

instance (visited : VisitedSet) : DecidablePred visited.Holds :=
  fun _ => inferInstanceAs (Decidable (_ = true))

theorem holds_word (visited : VisitedSet) {i k : Nat} (inside : k < 32) :
    visited.Holds (32 * i + k) ↔ (visited.words (Fin.ofNat 8 i)).toNat.testBit k = true := by
  unfold Holds word
  rw [show (32 * i + k) / 32 = i by omega, show (32 * i + k) % 32 = k by omega]
  rfl

theorem length_word (visited : VisitedSet) (i : Nat) :
    (visited.words (Fin.ofNat 8 i)).toNat.bitIndices.length =
      Nat.count (fun k => visited.Holds (32 * i + k)) 32 := by
  rw [BitCount.length_bitIndices (BitVec.isLt _), Nat.count_eq_card_filter_range,
    Nat.count_eq_card_filter_range]
  congr 1
  apply Finset.filter_congr
  intro k inside
  rw [holds_word visited (Finset.mem_range.mp inside)]

/-- The loop invariant: after `i` words the counter is the number of bits set in them. -/
theorem countWords_eq (visited : VisitedSet) {i : Nat} (bounded : i ≤ 8) :
    visited.countWords i = Nat.count visited.Holds (32 * i) := by
  induction i with
  | zero => rfl
  | succ i ih =>
    have before := ih (by omega)
    have few : Nat.count visited.Holds (32 * i) ≤ 32 * i := Nat.count_le _
    have more : Nat.count (fun k => visited.Holds (32 * i + k)) 32 ≤ 32 := Nat.count_le _
    rw [countWords, clearLoop_eq, before, length_word, Nat.mul_succ, Nat.count_add]
    rw [before, length_word]
    unfold u32
    omega

theorem reservedLow_eq (visited : VisitedSet) :
    visited.reservedLow = if visited.Holds 0 then 1 else 0 := by
  have := and_bit_ne_zero (visited.words 0) 0
  unfold reservedLow Holds
  exact if_congr this rfl rfl

theorem reservedHigh_eq (visited : VisitedSet) :
    visited.reservedHigh = if visited.Holds 255 then 1 else 0 := by
  have := and_bit_ne_zero (visited.words 7) 255
  unfold reservedHigh Holds
  exact if_congr this rfl rfl

/-- The IDs that test true. -/
def members (visited : VisitedSet) : Finset Nat :=
  (Finset.Icc 1 254).filter fun component => visited.test component = true

theorem mem_members (visited : VisitedSet) (component : Nat) :
    component ∈ visited.members ↔ visited.test component = true := by
  rw [members, Finset.mem_filter, Finset.mem_Icc, and_iff_right_iff_imp]
  intro tested
  exact componentIdValid_iff.mp ((test_iff visited component).mp tested).1

theorem card_members (visited : VisitedSet) :
    visited.members.card = Nat.count (fun k => visited.Holds (k + 1)) 254 := by
  rw [Nat.count_eq_card_filter_range]
  apply Eq.symm
  apply Finset.card_bij (fun k _ => k + 1)
  · intro k member
    rw [Finset.mem_filter, Finset.mem_range] at member
    rw [mem_members, test_iff, componentIdValid_iff]
    exact ⟨by omega, member.2⟩
  · intro a _ b _ same
    omega
  · intro component member
    rw [mem_members, test_iff, componentIdValid_iff] at member
    obtain ⟨k, rfl⟩ : ∃ k, component = k + 1 := ⟨component - 1, by omega⟩
    refine ⟨k, ?_, rfl⟩
    rw [Finset.mem_filter, Finset.mem_range]
    exact ⟨by omega, member.2⟩

/-- All eight words hold the usable IDs and the two reserved bits. -/
theorem countWords_members (visited : VisitedSet) :
    visited.countWords 8 = visited.members.card + visited.reservedLow + visited.reservedHigh := by
  rw [countWords_eq visited (le_refl 8), card_members, reservedLow_eq, reservedHigh_eq]
  rw [show 32 * 8 = 255 + 1 from rfl, Nat.count_succ, show 255 = 254 + 1 from rfl,
    Nat.count_succ']

theorem count_eq (visited : VisitedSet) : visited.count = visited.members.card := by
  have total := countWords_members visited
  have few : visited.members.card ≤ 254 := by
    rw [card_members]
    exact Nat.count_le _
  have low : visited.reservedLow ≤ 1 := by unfold reservedLow; split <;> omega
  have high : visited.reservedHigh ≤ 1 := by unfold reservedHigh; split <;> omega
  have first : sub32 (visited.countWords 8) visited.reservedLow =
      visited.countWords 8 - visited.reservedLow :=
    sub32_of_le (by omega) (by unfold u32; omega)
  unfold count
  rw [first, sub32_of_le (by omega) (by unfold u32; omega), total]
  omega

theorem add_invalid (visited : VisitedSet) {component : Nat}
    (invalid : componentIdValid component = false) : visited.add component = visited := by
  simp [add, invalid]

theorem members_add (visited : VisitedSet) (added : Nat) :
    (visited.add added).members =
      if componentIdValid added = true then insert added visited.members else visited.members := by
  split
  · rename_i valid
    ext component
    rw [Finset.mem_insert, mem_members, mem_members, test_add visited component valid]
  · rename_i invalid
    rw [add_invalid visited (by simpa using invalid)]

theorem members_empty : empty.members = ∅ := by
  apply Finset.eq_empty_of_forall_notMem
  intro component member
  rw [mem_members, test_iff] at member
  simp [empty] at member

theorem members_adds (visited : VisitedSet) (added : List Nat) :
    (added.foldl add visited).members =
      visited.members ∪ (added.filter (componentIdValid ·)).toFinset := by
  induction added generalizing visited with
  | nil => simp
  | cons first rest ih =>
    rw [List.foldl_cons, ih, members_add]
    cases valid : componentIdValid first with
    | true =>
      ext component
      simp only [if_true, List.filter_cons, valid, List.toFinset_cons, Finset.mem_union,
        Finset.mem_insert]
      tauto
    | false => simp [valid]

/-- The visited set is the exact finite set of its usable members: the count is their number,
with no subtraction below zero, adding a usable ID adds exactly it and adding any other value
changes nothing, so a set built from nothing counts the distinct usable IDs added to it. -/
theorem visited_set_exact :
    (∀ visited : VisitedSet,
      visited.count = ((Finset.Icc 1 254).filter fun c => visited.test c = true).card ∧
        visited.reservedLow ≤ visited.countWords 8 ∧
        visited.reservedHigh ≤ visited.countWords 8 - visited.reservedLow) ∧
      (∀ (visited : VisitedSet) (added : Nat),
        if 1 ≤ added ∧ added ≤ 254 then
          ∀ c, (visited.add added).test c = true ↔ c = added ∨ visited.test c = true
        else visited.add added = visited) ∧
      ∀ added : List Nat,
        (added.foldl add empty).count =
          (added.filter fun c => 1 ≤ c ∧ c ≤ 254).toFinset.card := by
  refine ⟨fun visited => ⟨count_eq visited, ?_⟩, fun visited added => ?_, fun added => ?_⟩
  · have total := countWords_members visited
    omega
  · split
    · rename_i valid
      exact fun c => test_add visited c (componentIdValid_iff.mpr valid)
    · rename_i invalid
      apply add_invalid
      rw [← Bool.not_eq_true, componentIdValid_iff]
      exact invalid
  · rw [count_eq, members_adds, members_empty, Finset.empty_union]
    congr 2
    apply List.filter_congr
    intro c _
    simp [componentIdValid]

end VisitedSet

end Zipc
