import Zipc.Placement
import Mathlib.Data.Int.ModEq

/-! # The size calculators

What a caller asks before it maps memory: the bytes behind a pool header, the payload with and
without guard pages, and a descriptor ring. Three of the four refuse a product that does not
fit `size_t`; the ring size does not, and wraps where `size_t` has 32 bits.
-/

namespace Zipc.Geometry

open Tracked

/-- `zipc_pool_guarded_slot_stride`; `pageSize` is `zipc_platform_page_size()`. -/
def poolGuardedSlotStride (pageSize slotCapacity : Nat) : Tracked Nat := do
  if pageSize = 0 ∨ pageSize ≥ u32 ∨ slotCapacity = 0 ∨ slotCapacity % pageSize ≠ 0 then pure 0
  else if slotCapacity > (← sub 32 (u32 - 1) (← narrow 32 pageSize)) then pure 0
  else do add 32 slotCapacity (← narrow 32 pageSize)

/-- `zipc_pool_guarded_payload_size`. -/
def poolGuardedPayloadSize (t : SizeT) (pageSize slotCount slotCapacity : Nat) : Tracked Nat := do
  let stride ← poolGuardedSlotStride pageSize slotCapacity
  if slotCount = 0 ∨ stride = 0 ∨ slotCount > t.max / stride then pure 0
  else mul t.bits slotCount stride

/-- `sizeof(zipc_transport_spsc_ring_t)`: four words, before the flexible array. -/
def ringHeaderSize : Nat := 16

/-- `sizeof(zipc_message_t)`. -/
def messageSize : Nat := 24

/-- `zipc_transport_spsc_ring_size`. -/
def transportSpscRingSize (t : SizeT) (depth : Nat) : Tracked Nat := do
  if depth < 2 then pure 0
  else do add t.bits ringHeaderSize (← mul t.bits depth messageSize)

/-- The distance between slots that the parameters ask for. -/
def payloadStride (slotCapacity slotStride payloadAlignment : Nat) : Nat :=
  if slotStride ≠ 0 then slotStride
  else (slotCapacity + payloadAlignment - 1) / payloadAlignment * payloadAlignment

/-- The calculator that belongs to the flags of a configuration. -/
def payloadSizeFor {t : SizeT} (config : PoolConfig t) (pageSize : Nat) : Tracked Nat :=
  if config.guards then poolGuardedPayloadSize t pageSize config.slotCount config.slotCapacity
  else poolRequiredPayloadSize t config.slotCount config.slotCapacity config.slotStride
    config.payloadAlignment

/-- A payload memory of exactly the size that the calculator returned passes the range check
that formatting makes with the stride it normalized. -/
def PayloadSuffices (t : SizeT) (layout : Layout) (pageSize : Nat) : Prop :=
  ∀ (p : Platform t) (config : PoolConfig t) (control payload stride : Nat),
    (normalizeConfig p config layout control payload).value = .ok stride →
    config.payloadOffset = 0 →
    (p.memory payload).size = (payloadSizeFor config pageSize).value →
    (p.memory payload).size ≠ 0 →
    (p.memory payload).base + (p.memory payload).size < 2 ^ t.bits →
    (p.memory payload).pageSize = 0 ∨ (p.memory payload).pageSize = pageSize →
    (memoryRangeFits (p.memory payload) config.payloadOffset
      (poolRequiredPayloadSize t config.slotCount config.slotCapacity stride
        config.payloadAlignment).value).value = true

section Calculators

variable {t : SizeT} {slotCount slotCapacity alignment pageSize : Nat}

/-- A product that the guard against `SIZE_MAX` lets through is exact. -/
theorem guarded_mul {count stride : Nat} (positive : stride ≠ 0) (allowed : ¬count > t.max / stride) :
    mul t.bits count stride = pure (count * stride) := by
  have top := t.max_add
  have product : count * stride ≤ t.max :=
    (Nat.le_div_iff_mul_le (Nat.pos_of_ne_zero positive)).mp (Nat.not_lt.mp allowed)
  exact mul_of_lt (by omega)

theorem guardedSlotStride_value :
    (poolGuardedSlotStride pageSize slotCapacity).value = 0 ∨
      (poolGuardedSlotStride pageSize slotCapacity).value = slotCapacity + pageSize := by
  unfold poolGuardedSlotStride
  by_cases bad : pageSize = 0 ∨ pageSize ≥ u32 ∨ slotCapacity = 0 ∨ slotCapacity % pageSize ≠ 0
  · rw [if_pos bad]
    exact .inl rfl
  · have narrowed : narrow 32 pageSize = pure pageSize := narrow_of_lt (by unfold u32 at bad; omega)
    have left : sub 32 (u32 - 1) pageSize = pure (u32 - 1 - pageSize) :=
      sub_of_le (by omega) (by decide)
    simp only [if_neg bad, narrowed, pure_bind', left]
    by_cases beyond : slotCapacity > u32 - 1 - pageSize
    · rw [if_pos beyond]
      exact .inl rfl
    · rw [if_neg beyond, add_of_lt (by unfold u32 at *; omega)]
      exact .inr rfl

theorem guardedPayloadSize_value :
    (poolGuardedPayloadSize t pageSize slotCount slotCapacity).value = 0 ∨
      (poolGuardedPayloadSize t pageSize slotCount slotCapacity).value =
        slotCount * (slotCapacity + pageSize) := by
  unfold poolGuardedPayloadSize
  rw [value_bind]
  generalize stride : (poolGuardedSlotStride pageSize slotCapacity).value = s
  by_cases bad : slotCount = 0 ∨ s = 0 ∨ slotCount > t.max / s
  · rw [if_pos bad]
    exact .inl rfl
  · have known := guardedSlotStride_value.resolve_left (by rw [stride]; tauto)
    rw [if_neg bad, guarded_mul (by tauto) (by tauto), ← known, stride]
    exact .inr rfl

theorem controlSize_value (t : SizeT) (layout : Layout) (slotCount : Nat) :
    (poolRequiredControlSize t layout slotCount).value = 0 ∨
      (poolRequiredControlSize t layout slotCount).value =
        layout.controlsOffset + slotCount * layout.slotSize := by
  by_cases empty : slotCount = 0
  · left
    rw [poolRequiredControlSize, if_pos empty, value_pure]
  · by_cases zero : (poolRequiredControlSize t layout slotCount).value = 0
    · exact .inl zero
    · exact .inr ((requiredControlSize_spec empty).2 zero).1

/-- With a stride of the caller, or with the capacity rounded up. -/
theorem payloadSize_value {slotStride : Nat} (fits : slotCapacity < u32 ∧ alignment < u32) :
    (poolRequiredPayloadSize t slotCount slotCapacity slotStride alignment).value = 0 ∨
      (poolRequiredPayloadSize t slotCount slotCapacity slotStride alignment).value =
        slotCount * payloadStride slotCapacity slotStride alignment := by
  have wide := t.u32_le
  unfold payloadStride
  by_cases strided : slotStride ≠ 0
  · rw [if_pos strided]
    by_cases zero : (poolRequiredPayloadSize t slotCount slotCapacity slotStride alignment).value = 0
    · exact .inl zero
    · exact .inr ((requiredPayloadSize_spec strided (by omega)).2 zero).1
  rw [if_neg strided]
  unfold poolRequiredPayloadSize
  by_cases empty : slotCount = 0 ∨ slotCapacity = 0
  · exact .inl (by rw [if_pos empty, value_pure])
  by_cases power : (isPowerOfTwo t alignment).value = false
  · exact .inl (by rw [if_neg empty, value_bind, if_pos power, value_pure])
  rw [if_neg empty, value_bind, if_neg power, if_neg strided]
  cases aligned : (alignUpChecked t slotCapacity alignment).value with
  | none =>
    left
    simp only [value_bind, aligned, value_pure]
  | some r =>
    obtain ⟨-, -, rounded, -⟩ := alignUpChecked_some (by omega) (by omega) aligned
    by_cases large : r ≥ u32
    · left
      simp only [value_bind, aligned, if_pos large, value_pure]
    · have narrowed : narrow 32 r = pure r := narrow_of_lt (by unfold u32 at large; omega)
      simp only [value_bind, aligned, if_neg large, narrowed, pure_bind']
      by_cases bad : r < slotCapacity ∨ r % alignment ≠ 0 ∨ slotCount > t.max / r
      · rw [if_pos bad]
        exact .inl rfl
      · rw [if_neg bad, guarded_mul (by omega) (by tauto), ← rounded]
        exact .inr rfl

/-- With a stride that fits the slots, the size is their product unless it overflows. -/
theorem payloadSize_of_lt {stride : Nat} (some : slotCount ≠ 0) (capacity : slotCapacity ≠ 0)
    (power : alignment.isPowerOfTwo) (narrow : alignment < 2 ^ t.bits) (large : slotCapacity ≤ stride)
    (aligned : alignment ∣ stride) (fits : slotCount * stride < 2 ^ t.bits) :
    (poolRequiredPayloadSize t slotCount slotCapacity stride alignment).value =
      slotCount * stride := by
  have top := t.max_add
  have strided : stride ≠ 0 := by omega
  have found := (isPowerOfTwo_decides narrow).iff.mpr power
  have allowed : ¬slotCount > t.max / stride := by
    rw [not_lt, Nat.le_div_iff_mul_le (Nat.pos_of_ne_zero strided)]
    omega
  have fine : ¬(stride < slotCapacity ∨ stride % alignment ≠ 0 ∨ slotCount > t.max / stride) := by
    rintro (less | rest | more)
    · omega
    · exact rest (Nat.mod_eq_zero_of_dvd aligned)
    · exact allowed more
  unfold poolRequiredPayloadSize
  rw [if_neg (by tauto), value_bind, found, if_neg (by decide), if_pos strided]
  simp only [pure_bind', if_neg fine, guarded_mul strided allowed, value_pure]

/-- The size of a ring wraps like the sum of its parts. -/
theorem ringSize_value (t : SizeT) {depth : Nat} (deep : 2 ≤ depth) :
    (transportSpscRingSize t depth).value = (16 + 24 * depth) % 2 ^ t.bits := by
  unfold transportSpscRingSize
  rw [if_neg (by omega), value_bind]
  simp only [add, mul, ringHeaderSize, messageSize, Nat.add_mod_mod, Nat.mul_comm depth]

/-- The depths at which the sum is a multiple of `2 ^ 32`: three divides out of the residues. -/
theorem ring_wraps_to_zero (depth : Nat) :
    (16 + 24 * depth) % 4294967296 = 0 ↔ depth % 536870912 = 178956970 := by
  have whole : 16 + 24 * depth ≡ 16 + 24 * 178956970 [MOD 4294967296] ↔
      (16 + 24 * depth) % 4294967296 = 0 := Iff.rfl
  have rest : depth ≡ 178956970 [MOD 536870912] ↔ depth % 536870912 = 178956970 := Iff.rfl
  rw [← whole, ← rest]
  constructor
  · intro same
    have scaled : 8 * (3 * depth) ≡ 8 * (3 * 178956970) [MOD 8 * 536870912] := by
      rw [← Nat.mul_assoc]
      exact Nat.ModEq.add_left_cancel' 16 same
    have thirds := Nat.ModEq.mul_left_cancel' (by decide) scaled
    exact thirds.cancel_left_of_coprime (by decide)
  · intro same
    have scaled := (same.mul_left' 8).mul_left 3
    rw [← Nat.mul_assoc] at scaled
    exact Nat.ModEq.add_left 16 scaled

/-- A ring size is zero or exact when it does not wrap, or wraps to zero. -/
theorem ringSize_iff {depth : Nat} (word : depth < u32) :
    ((transportSpscRingSize t depth).value = 0 ∨
        (transportSpscRingSize t depth).value = 16 + 24 * depth) ↔
      t = .bits64 ∨ depth < 2 ∨ 16 + 24 * depth < u32 ∨ depth % 536870912 = 178956970 := by
  by_cases shallow : depth < 2
  · have zero : (transportSpscRingSize t depth).value = 0 := by
      rw [transportSpscRingSize, if_pos shallow, value_pure]
    simp [zero, shallow]
  rw [ringSize_value t (by omega)]
  cases t with
  | bits32 =>
    have exact : (16 + 24 * depth) % 4294967296 = 16 + 24 * depth ↔ 16 + 24 * depth < u32 :=
      Nat.mod_eq_iff_lt (by decide)
    change (16 + 24 * depth) % 4294967296 = 0 ∨ (16 + 24 * depth) % 4294967296 = 16 + 24 * depth ↔ _
    rw [ring_wraps_to_zero, exact]
    simp only [reduceCtorEq, false_or, shallow]
    exact or_comm
  | bits64 =>
    have fits : 16 + 24 * depth < 2 ^ SizeT.bits64.bits := by
      unfold u32 at word
      simp only [SizeT.bits]
      omega
    simp only [true_or, iff_true]
    exact .inr (Nat.mod_eq_of_lt fits)

/-- The stride that formatting normalizes is the one that the calculator used. -/
theorem payload_suffices (t : SizeT) (layout : Layout) (pageSize : Nat) :
    PayloadSuffices t layout pageSize := by
  intro p config control payload stride accepted front size some top pages
  have normal := normalizeConfig_ok accepted
  obtain ⟨-, capacitySmall, -, alignmentSmall, -⟩ := config.words_fit
  have wide := t.u32_le
  have product : (p.memory payload).size = config.slotCount * stride := by
    rw [size] at some ⊢
    unfold payloadSizeFor at some ⊢
    by_cases guards : config.guards = true
    · rw [if_pos guards] at some ⊢
      obtain ⟨protectable, same⟩ := normal.strided.guarded guards
      rw [guardedPayloadSize_value.resolve_left some, same, pages.resolve_left protectable.page]
    · rw [if_neg guards] at some ⊢
      have plain : config.guards = false := by simpa using guards
      rw [(payloadSize_value ⟨capacitySmall, alignmentSmall⟩).resolve_left some, payloadStride]
      by_cases chosen : config.slotStride ≠ 0
      · rw [if_pos chosen, normal.strided.chosen plain chosen]
      · rw [if_neg chosen, normal.strided.rounded plain (not_not.mp chosen)]
  have fits : config.slotCount * stride < 2 ^ t.bits := product ▸ (p.memory payload).size_fits
  rw [payloadSize_of_lt normal.count normal.capacity normal.power (by omega) normal.large
    normal.aligned fits, ← product, front, rangeFits_decides.iff]
  exact ⟨normal.based, by omega, by omega⟩

end Calculators

/-- The four calculators answer zero or the exact size, and the payload they size suffices,
exactly when the ring size does not wrap to a smaller one. -/
theorem size_calculators_exact (t : SizeT) (layout : Layout)
    (slotCount slotCapacity slotStride alignment pageSize depth : Nat)
    (words : slotCount < u32 ∧ slotCapacity < u32 ∧ slotStride < u32 ∧ alignment < u32 ∧
      depth < u32 ∧ pageSize < 2 ^ t.bits) :
    (((poolRequiredControlSize t layout slotCount).value = 0 ∨
          (poolRequiredControlSize t layout slotCount).value =
            layout.controlsOffset + slotCount * layout.slotSize) ∧
      ((poolRequiredPayloadSize t slotCount slotCapacity slotStride alignment).value = 0 ∨
          (poolRequiredPayloadSize t slotCount slotCapacity slotStride alignment).value =
            slotCount * payloadStride slotCapacity slotStride alignment) ∧
      ((poolGuardedPayloadSize t pageSize slotCount slotCapacity).value = 0 ∨
          (poolGuardedPayloadSize t pageSize slotCount slotCapacity).value =
            slotCount * (slotCapacity + pageSize)) ∧
      ((transportSpscRingSize t depth).value = 0 ∨
          (transportSpscRingSize t depth).value = ringHeaderSize + depth * messageSize) ∧
      PayloadSuffices t layout pageSize) ↔
    t = .bits64 ∨ depth < 2 ∨ ringHeaderSize + depth * messageSize < u32 ∨
      depth % 536870912 = 178956970 := by
  have ring : ringHeaderSize + depth * messageSize = 16 + 24 * depth := by
    unfold ringHeaderSize messageSize
    omega
  rw [ring, ← ringSize_iff words.2.2.2.2.1]
  constructor
  · rintro ⟨-, -, -, exact, -⟩
    exact exact
  · intro exact
    exact ⟨controlSize_value t layout slotCount, payloadSize_value ⟨words.2.1, words.2.2.2.1⟩,
      guardedPayloadSize_value, exact, payload_suffices t layout pageSize⟩

/-- Two slots of a page and a ring of 64 descriptors on a 32-bit target. -/
theorem size_calculators_exact_small :
    (((poolRequiredControlSize .bits32 linuxLayout 2).value = 0 ∨
          (poolRequiredControlSize .bits32 linuxLayout 2).value =
            linuxLayout.controlsOffset + 2 * linuxLayout.slotSize) ∧
      ((poolRequiredPayloadSize .bits32 2 4096 0 64).value = 0 ∨
          (poolRequiredPayloadSize .bits32 2 4096 0 64).value = 2 * payloadStride 4096 0 64) ∧
      ((poolGuardedPayloadSize .bits32 4096 2 4096).value = 0 ∨
          (poolGuardedPayloadSize .bits32 4096 2 4096).value = 2 * (4096 + 4096)) ∧
      ((transportSpscRingSize .bits32 64).value = 0 ∨
          (transportSpscRingSize .bits32 64).value = ringHeaderSize + 64 * messageSize) ∧
      PayloadSuffices .bits32 linuxLayout 4096) ↔
    SizeT.bits32 = .bits64 ∨ 64 < 2 ∨ ringHeaderSize + 64 * messageSize < u32 ∨
      64 % 536870912 = 178956970 :=
  size_calculators_exact .bits32 linuxLayout 2 4096 0 64 4096 64 (by decide)

/-- A deep ring on a 32-bit target: 178956971 descriptors get a mapping of 24 bytes. -/
theorem ring_size_wraps :
    (transportSpscRingSize .bits32 178956971).value = 24 ∧
      ¬((transportSpscRingSize .bits32 178956971).value = 0 ∨
        (transportSpscRingSize .bits32 178956971).value =
          ringHeaderSize + 178956971 * messageSize) := by
  decide

end Zipc.Geometry
