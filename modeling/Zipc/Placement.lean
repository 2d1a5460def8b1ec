import Zipc.Geometry

/-! # Placement of an accepted pool

What the checks of `zipc_pool_format` and `zipc_pool_attach` establish. Each check is
read back once as a plain statement about numbers, the checks of an accepted
configuration are collected in `Passed`, and the safety of the geometry and the agreement
of attach with format follow from that.
-/

namespace Zipc.Geometry

open Tracked

variable {t : SizeT}

/-! ## What the checks say -/

theorem SizeT.u32_le (t : SizeT) : u32 ≤ 2 ^ t.bits := by
  cases t <;> decide

theorem SizeT.max_add (t : SizeT) : t.max + 1 = 2 ^ t.bits := by
  cases t <;> decide

theorem isPowerOfTwo_decides {v : Nat} (fits : v < 2 ^ t.bits) :
    Decides (isPowerOfTwo t v) v.isPowerOfTwo := by
  have split : (v ≠ 0 ∧ (v &&& (v - 1)) = 0) ↔ v.isPowerOfTwo :=
    Nat.ne_zero_and_sub_one_eq_zero_iff_isPowerOfTwo
  refine (decides_both (decides_test _) fun nonzero => ?_).congr split
  rw [sub_of_le (by omega) fits, pure_bind']
  exact decides_test _

theorem isPowerOfTwo.pos {n : Nat} (power : n.isPowerOfTwo) : 0 < n := by
  obtain ⟨k, rfl⟩ := power
  exact Nat.two_pow_pos k

theorem and_low_iff {n a : Nat} (power : a.isPowerOfTwo) : n &&& (a - 1) = 0 ↔ a ∣ n := by
  obtain ⟨k, rfl⟩ := power
  rw [Nat.and_two_pow_sub_one_eq_mod, Nat.dvd_iff_mod_eq_zero]

section Checks

variable {memory : PlatformMemory t} {offset length alignment : Nat}

theorem addressAligned_decides (memory : PlatformMemory t) (offset : Nat)
    (small : alignment < 2 ^ t.bits) :
    Decides (memoryAddressAligned memory offset alignment)
      (memory.base ≠ 0 ∧ alignment.isPowerOfTwo ∧ memory.base + offset < 2 ^ t.bits ∧
        alignment ∣ memory.base + offset) := by
  have top := t.max_add
  have based := memory.base_fits
  refine decides_both (decides_test _) fun _ => decides_both (isPowerOfTwo_decides small) ?_
  intro power
  have positive := isPowerOfTwo.pos power
  apply decides_both
  · rw [sub_of_le (by omega) (by omega), pure_bind']
    exact (decides_test _).congr (by omega)
  · intro inside
    rw [add_of_lt inside, pure_bind', sub_of_le (by omega) small, pure_bind']
    exact (decides_test _).congr (and_low_iff power)

theorem rangeFits_decides :
    Decides (memoryRangeFits memory offset length)
      (memory.base ≠ 0 ∧ offset + length ≤ memory.size ∧
        memory.base + offset + length < 2 ^ t.bits) := by
  have top := t.max_add
  have based := memory.base_fits
  have sized := memory.size_fits
  have unfolded : Decides (memoryRangeFits memory offset length)
      (memory.base ≠ 0 ∧ offset ≤ memory.size ∧ length ≤ memory.size - offset ∧
        memory.base + offset < 2 ^ t.bits ∧ length ≤ t.max - (memory.base + offset)) := by
    refine decides_both (decides_test _) fun _ => decides_both (decides_test _) fun low => ?_
    apply decides_both
    · rw [sub_of_le low sized, pure_bind']
      exact decides_test _
    · intro _
      apply decides_both
      · rw [sub_of_le (by omega) (by omega), pure_bind']
        exact (decides_test _).congr (by omega)
      · intro inside
        rw [add_of_lt inside, pure_bind', sub_of_le (by omega) (by omega), pure_bind']
        exact decides_test _
  exact unfolded.congr (by omega)

/-- Rounding up answers when the sum stays below the top of the type; the sum in front
of the mask wraps only when it meets the top exactly. -/
theorem alignUpChecked_some {value r : Nat} (small : value < 2 ^ t.bits)
    (narrow : alignment < 2 ^ t.bits) (answered : (alignUpChecked t value alignment).value = some r) :
    alignment.isPowerOfTwo ∧ value + alignment ≤ 2 ^ t.bits ∧
      r = (value + alignment - 1) / alignment * alignment ∧
      (value + alignment < 2 ^ t.bits → (alignUpChecked t value alignment).exact = true) := by
  have top := t.max_add
  have decided := isPowerOfTwo_decides (t := t) narrow
  by_cases power : alignment.isPowerOfTwo
  · have found := decided.iff.mpr power
    have positive := isPowerOfTwo.pos power
    have low : sub t.bits alignment 1 = pure (alignment - 1) := sub_of_le (by omega) narrow
    have rest : sub t.bits t.max (alignment - 1) = pure (t.max - (alignment - 1)) :=
      sub_of_le (by omega) (by omega)
    have raised : (sub t.bits (add t.bits value alignment).value 1).value = value + alignment - 1 ∨
        t.max - (alignment - 1) < value := by
      by_cases beyond : t.max - (alignment - 1) < value
      · exact .inr beyond
      · left
        by_cases wraps : value + alignment < 2 ^ t.bits
        · rw [add_of_lt wraps, value_pure, sub_of_le (by omega) wraps, value_pure]
        · have meets : value + alignment = 2 ^ t.bits := by omega
          simp only [add, sub, meets, Nat.mod_self, Nat.zero_add]
          exact Nat.mod_eq_of_lt (by omega)
    unfold alignUpChecked at answered ⊢
    simp only [value_bind, value_ite, exact_bind, exact_ite, found, low, rest, value_pure,
      exact_pure, Bool.true_eq_false, if_false, decided.exact, Bool.true_and] at answered ⊢
    split at answered
    · cases answered
    · rename_i below
      have sum := raised.resolve_right (by omega)
      rw [sum, Option.some.injEq] at answered
      refine ⟨power, by omega, ?_, ?_⟩
      · obtain ⟨k, rfl⟩ := power
        have narrower : k ≤ t.bits :=
          (Nat.pow_le_pow_iff_right (a := 2) (by decide)).mp (by omega)
        rw [← answered]
        exact and_mask (by omega) narrower
      · intro clear
        rw [add_of_lt clear, value_pure, sub_of_le (by omega) clear]
        simp
  · have refused := decided.value_false.mpr power
    simp [alignUpChecked, refused] at answered

end Checks

theorem alignUpChecked_of_lt {value alignment : Nat} (power : alignment.isPowerOfTwo)
    (clear : value + alignment < 2 ^ t.bits) :
    alignUpChecked t value alignment =
      pure (some ((value + alignment - 1) / alignment * alignment)) := by
  have top := t.max_add
  have positive := isPowerOfTwo.pos power
  have decided := isPowerOfTwo_decides (t := t) (v := alignment) (by omega)
  have found : isPowerOfTwo t alignment = pure true := by
    cases computed : isPowerOfTwo t alignment with
    | mk value exact =>
        have both := decided
        rw [computed] at both
        obtain ⟨exactly, iff⟩ := both
        have holds := iff.mpr power
        simp only at exactly holds
        subst exactly holds
        rfl
  obtain ⟨k, rfl⟩ := power
  have narrower : k ≤ t.bits := (Nat.pow_le_pow_iff_right (a := 2) (by decide)).mp (by omega)
  have room : ¬ value > t.max - (2 ^ k - 1) := by omega
  have mask := and_mask (x := value + 2 ^ k - 1) (w := t.bits) (by omega) narrower
  unfold alignUpChecked
  simp only [found, pure_bind', Bool.true_eq_false, if_false]
  rw [sub_of_le (by omega) (by omega), pure_bind', sub_of_le (by omega) (by omega), pure_bind',
    if_neg room, add_of_lt clear, pure_bind', sub_of_le (by omega) clear, pure_bind']
  simp only [SizeT.max, mask]

/-- Where the slot controls start behind the header. -/
def Layout.controlsOffset (layout : Layout) : Nat :=
  (layout.headerSize + layout.slotAlign - 1) / layout.slotAlign * layout.slotAlign

namespace Layout

variable (layout : Layout)

theorem slotAlign_small : 0 < layout.slotAlign ∧ layout.slotAlign < 65536 := by
  refine ⟨isPowerOfTwo.pos layout.slot_power, ?_⟩
  have le := Nat.le_of_dvd layout.slot_pos layout.slot_whole
  have small := layout.slot_small
  omega

theorem headerAlign_small : 0 < layout.headerAlign ∧ layout.headerAlign < 65536 := by
  refine ⟨isPowerOfTwo.pos layout.header_power, ?_⟩
  have le := Nat.le_of_dvd layout.header_pos layout.header_whole
  have small := layout.header_small
  omega

theorem controlsOffset_spec :
    layout.headerSize ≤ layout.controlsOffset ∧ layout.controlsOffset < 131072 ∧
      layout.slotAlign ∣ layout.controlsOffset := by
  have small := layout.slotAlign_small
  have header := layout.header_small
  have spec := roundUp_spec (n := layout.headerSize) small.1
  unfold controlsOffset
  exact ⟨spec.1, by omega, spec.2.2⟩

theorem alignUp_header (t : SizeT) :
    alignUpChecked t layout.headerSize layout.slotAlign = pure (some layout.controlsOffset) := by
  have small := layout.slotAlign_small
  have header := layout.header_small
  have wide := t.u32_le
  apply alignUpChecked_of_lt layout.slot_power
  unfold u32 at wide
  omega

end Layout

/-- A nonzero required control size is the offset of the controls and their total size. -/
theorem requiredControlSize_spec {layout : Layout} {slotCount : Nat} (some : slotCount ≠ 0) :
    (poolRequiredControlSize t layout slotCount).exact = true ∧
      ((poolRequiredControlSize t layout slotCount).value ≠ 0 →
        (poolRequiredControlSize t layout slotCount).value =
            layout.controlsOffset + slotCount * layout.slotSize ∧
          layout.controlsOffset + slotCount * layout.slotSize < 2 ^ t.bits) := by
  have top := t.max_add
  have wide := t.u32_le
  have spec := layout.controlsOffset_spec
  have positive := layout.slot_pos
  have below : layout.controlsOffset ≤ t.max := by
    unfold u32 at wide
    omega
  have left : sub t.bits t.max layout.controlsOffset = pure (t.max - layout.controlsOffset) :=
    sub_of_le below (by omega)
  unfold poolRequiredControlSize
  simp only [if_neg some, layout.alignUp_header, left, pure_bind']
  by_cases beyond : slotCount > (t.max - layout.controlsOffset) / layout.slotSize
  · simp [beyond]
  · have product : slotCount * layout.slotSize ≤ t.max - layout.controlsOffset :=
      (Nat.le_div_iff_mul_le positive).mp (by omega)
    rw [if_neg beyond, mul_of_lt (by omega), pure_bind', add_of_lt (by omega)]
    exact ⟨rfl, fun _ => ⟨rfl, by omega⟩⟩

/-- With a stride the required payload size is the slots' total, when no check fails. -/
theorem requiredPayloadSize_spec {slotCount slotCapacity stride alignment : Nat}
    (strided : stride ≠ 0) (small : alignment < 2 ^ t.bits) :
    (poolRequiredPayloadSize t slotCount slotCapacity stride alignment).exact = true ∧
      ((poolRequiredPayloadSize t slotCount slotCapacity stride alignment).value ≠ 0 →
        (poolRequiredPayloadSize t slotCount slotCapacity stride alignment).value =
            slotCount * stride ∧ slotCount * stride < 2 ^ t.bits) := by
  have top := t.max_add
  have decided := isPowerOfTwo_decides small
  unfold poolRequiredPayloadSize
  by_cases empty : slotCount = 0 ∨ slotCapacity = 0
  · simp [empty]
  · by_cases power : (isPowerOfTwo t alignment).value = true
    · simp only [if_neg empty, value_bind, exact_bind, value_ite, exact_ite, power, decided.exact,
        strided, ne_eq, not_false_eq_true, if_true, Bool.true_eq_false, if_false, value_pure,
        exact_pure, Bool.true_and]
      by_cases bad : stride < slotCapacity ∨ ¬stride % alignment = 0 ∨ slotCount > t.max / stride
      · simp [bad]
      · have product : slotCount * stride ≤ t.max :=
          (Nat.le_div_iff_mul_le (by omega)).mp (by omega)
        rw [if_neg bad, if_neg bad, mul_of_lt (by omega)]
        exact ⟨rfl, fun _ => ⟨rfl, by omega⟩⟩
    · simp [empty, power, decided.exact]

section Config

variable {p : Platform t} {config : PoolConfig t} {layout : Layout}
  {control payload stride : Nat}

theorem rangesValid_decides {controlRequired payloadRequired : Nat} :
    Decides (poolRangesValid p config control payload controlRequired payloadRequired)
      (((p.memory control).base ≠ 0 ∧
          config.controlOffset + controlRequired ≤ (p.memory control).size ∧
          (p.memory control).base + config.controlOffset + controlRequired < 2 ^ t.bits) ∧
        ((p.memory payload).base ≠ 0 ∧
          config.payloadOffset + payloadRequired ≤ (p.memory payload).size ∧
          (p.memory payload).base + config.payloadOffset + payloadRequired < 2 ^ t.bits) ∧
        (control = payload → config.payloadOffset + payloadRequired ≤ config.controlOffset ∨
          config.controlOffset + controlRequired ≤ config.payloadOffset)) := by
  refine decides_both rangeFits_decides fun first => decides_both rangeFits_decides fun second => ?_
  by_cases shared : control = payload
  · rw [if_pos shared, add_of_lt (by omega), pure_bind', add_of_lt (by omega), pure_bind']
    refine ⟨rfl, ?_⟩
    simp only [value_pure, Bool.not_eq_true', Bool.and_eq_false_iff, decide_eq_false_iff_not,
      shared, forall_const]
    omega
  · rw [if_neg shared]
    exact ⟨rfl, by simp [shared]⟩

/-- What both protection flags ask for. -/
structure Protectable (config : PoolConfig t) (memory : PlatformMemory t) : Prop where
  page : memory.pageSize ≠ 0
  small : memory.pageSize < u32
  capable : memory.capabilities &&& capPageProtect ≠ 0
  offset : memory.pageSize ∣ config.payloadOffset
  address : memory.pageSize ∣ memory.base + config.payloadOffset
  capacity : memory.pageSize ∣ config.slotCapacity

theorem protectable_decides {memory : PlatformMemory t} (based : memory.base ≠ 0)
    (inside : memory.base + config.payloadOffset < 2 ^ t.bits) :
    Decides (pagesProtectable config memory) (Protectable config memory) := by
  have steps := decides_both (decides_test (memory.pageSize ≠ 0 ∧ memory.pageSize < u32 ∧
      memory.capabilities &&& capPageProtect ≠ 0 ∧ config.payloadOffset % memory.pageSize = 0))
    fun _ => decides_both (addressAligned_decides memory config.payloadOffset
      memory.page_fits) fun _ =>
        decides_test (config.slotCapacity % memory.pageSize = 0)
  refine Decides.congr steps ?_
  constructor
  · rintro ⟨⟨page, small, capable, offset⟩, ⟨-, -, -, address⟩, capacity⟩
    exact ⟨page, small, capable, Nat.dvd_of_mod_eq_zero offset, address,
      Nat.dvd_of_mod_eq_zero capacity⟩
  · intro h
    have power := memory.page_power.resolve_left h.page
    exact ⟨⟨h.page, h.small, h.capable, Nat.mod_eq_zero_of_dvd h.offset⟩,
      ⟨based, power, inside, h.address⟩, Nat.mod_eq_zero_of_dvd h.capacity⟩

/-- What the choice of a stride says. -/
structure Strided (config : PoolConfig t) (memory : PlatformMemory t) (stride : Nat) : Prop where
  fits : stride < u32
  guarded : config.guards = true →
    Protectable config memory ∧ stride = config.slotCapacity + memory.pageSize
  chosen : config.guards = false → config.slotStride ≠ 0 → stride = config.slotStride
  rounded : config.guards = false → config.slotStride = 0 →
    stride = (config.slotCapacity + config.payloadAlignment - 1) / config.payloadAlignment *
      config.payloadAlignment
  exact : config.slotCapacity + config.payloadAlignment < 2 ^ t.bits →
    (chooseStride config memory).exact = true

theorem chooseStride_ok {memory : PlatformMemory t} (based : memory.base ≠ 0)
    (inside : memory.base + config.payloadOffset < 2 ^ t.bits)
    (accepted : (chooseStride config memory).value = .ok stride) :
    Strided config memory stride := by
  have decided := protectable_decides based inside
  obtain ⟨-, capacitySmall, strideSmall, alignmentSmall, -⟩ := config.words_fit
  have wide := t.u32_le
  unfold chooseStride at accepted
  by_cases guards : config.guards = true
  · simp only [guards, if_true] at accepted
    by_cases holds : (pagesProtectable config memory).value = true
    · have protectable := decided.iff.mp holds
      have small := protectable.small
      have narrowed : narrow 32 memory.pageSize = pure memory.pageSize := narrow_of_lt small
      have left : sub 32 (u32 - 1) memory.pageSize = pure (u32 - 1 - memory.pageSize) :=
        sub_of_le (by omega) (by decide)
      simp only [value_bind, value_ite, holds, Bool.true_eq_false, if_false, narrowed, left,
        value_pure] at accepted
      split at accepted
      · cases accepted
      · rename_i room
        have sum : add 32 config.slotCapacity memory.pageSize =
            pure (config.slotCapacity + memory.pageSize) := add_of_lt (by unfold u32 at *; omega)
        rw [sum, value_pure] at accepted
        split at accepted
        · cases accepted
        · cases accepted
          refine ⟨by omega, fun _ => ⟨protectable, rfl⟩, by simp [guards], by simp [guards], ?_⟩
          intro _
          unfold chooseStride
          simp only [guards, if_true, exact_bind, exact_ite, holds, decided.exact, narrowed, left,
            room, sum, value_pure, exact_pure, Bool.true_and, ite_self]
    · have refused : (pagesProtectable config memory).value = false := by simpa using holds
      simp [refused] at accepted
  · by_cases chosen : config.slotStride ≠ 0
    · simp only [guards, chosen, if_true, ne_eq, not_false_eq_true, value_pure,
        Bool.false_eq_true, if_false] at accepted
      cases accepted
      refine ⟨strideSmall, by simp [guards], fun _ _ => rfl, fun _ zero => absurd zero chosen, ?_⟩
      intro _
      unfold chooseStride
      simp [guards, chosen]
    · simp only [guards, chosen, if_false, value_bind, Bool.false_eq_true] at accepted
      cases aligned : (alignUpChecked t config.slotCapacity config.payloadAlignment).value with
      | none => simp [aligned] at accepted
      | some r =>
          obtain ⟨-, -, rounded, exactly⟩ :=
            alignUpChecked_some (by omega) (by omega) aligned
          simp only [aligned, value_ite] at accepted
          split at accepted
          · cases accepted
          · rename_i small
            have narrowed : narrow 32 r = pure r := narrow_of_lt (by unfold u32 at *; omega)
            simp only [narrowed, value_bind, value_pure] at accepted
            cases accepted
            refine ⟨by omega, by simp [guards], fun _ nonzero => absurd nonzero chosen,
              fun _ _ => rounded, ?_⟩
            intro clear
            unfold chooseStride
            simp [guards, chosen, aligned, exactly clear, small, narrowed]

/-- What `normalize_config` established when it answers a stride. -/
structure Normalized (p : Platform t) (config : PoolConfig t) (layout : Layout)
    (control payload stride : Nat) : Prop where
  count : config.slotCount ≠ 0
  capacity : config.slotCapacity ≠ 0
  power : config.payloadAlignment.isPowerOfTwo
  controlOffset : layout.headerAlign ∣ config.controlOffset
  controlAddress : layout.headerAlign ∣ (p.memory control).base + config.controlOffset
  payloadOffset : config.payloadAlignment ∣ config.payloadOffset
  based : (p.memory payload).base ≠ 0
  payloadAddress : config.payloadAlignment ∣ (p.memory payload).base + config.payloadOffset
  strict : config.strict = true → Protectable config (p.memory payload)
  large : config.slotCapacity ≤ stride
  aligned : config.payloadAlignment ∣ stride
  strided : Strided config (p.memory payload) stride
  exact : config.slotCapacity + config.payloadAlignment < 2 ^ t.bits →
    (normalizeConfig p config layout control payload).exact = true

theorem normalizeConfig_ok
    (accepted : (normalizeConfig p config layout control payload).value = .ok stride) :
    Normalized p config layout control payload stride := by
  obtain ⟨-, capacitySmall, -, alignmentSmall, -⟩ := config.words_fit
  have wide := t.u32_le
  have headerSmall := layout.headerAlign_small
  have power := isPowerOfTwo_decides (t := t) (v := config.payloadAlignment) (by omega)
  have headerFits : layout.headerAlign < 2 ^ t.bits := by
    unfold u32 at wide
    omega
  have controlOk := addressAligned_decides (p.memory control) config.controlOffset headerFits
  have alignmentFits : config.payloadAlignment < 2 ^ t.bits := by omega
  have payloadOk := addressAligned_decides (p.memory payload) config.payloadOffset alignmentFits
  unfold normalizeConfig at accepted
  simp only [value_bind, value_ite, value_both, value_test, value_pure] at accepted
  split at accepted
  · cases accepted
  rename_i sized
  split at accepted
  · cases accepted
  rename_i flagged
  split at accepted
  · cases accepted
  rename_i controlOffset
  split at accepted
  · cases accepted
  rename_i controlAddress
  split at accepted
  · cases accepted
  rename_i payloadOffset
  split at accepted
  · cases accepted
  rename_i payloadAddress
  split at accepted
  · cases accepted
  rename_i strict
  split at accepted
  · cases accepted
  rename_i chosen stride' strideChosen
  simp only [value_ite, value_pure] at accepted
  split at accepted
  · cases accepted
  rename_i shaped
  split at accepted
  · cases accepted
  rename_i controlCaps
  split at accepted
  · cases accepted
  rename_i payloadCaps
  cases accepted
  simp only [not_or, Bool.not_eq_false] at sized controlAddress payloadAddress
  simp only [not_or, not_not, ne_eq, Nat.not_lt] at shaped
  obtain ⟨-, -, -, controlAddressed⟩ := controlOk.iff.mp controlAddress
  obtain ⟨based, powered, inside, payloadAddressed⟩ := payloadOk.iff.mp payloadAddress
  have protect := protectable_decides based inside
  have strided := chooseStride_ok based inside strideChosen
  refine ⟨sized.1, sized.2, powered, Nat.dvd_of_mod_eq_zero (by simpa using controlOffset),
    controlAddressed, Nat.dvd_of_mod_eq_zero (by simpa using payloadOffset), based,
    payloadAddressed, fun isStrict => protect.iff.mp (by simpa [isStrict] using strict),
    shaped.1, Nat.dvd_of_mod_eq_zero shaped.2, strided, ?_⟩
  -- no test before the choice of the stride wraps, and none after it computes anything
  intro clear
  unfold normalizeConfig
  simp only [exact_bind, exact_ite, exact_both, exact_test, value_both, value_test, value_bind,
    exact_pure, value_pure, power.exact, controlOk.exact, payloadOk.exact, protect.exact,
    strided.exact clear, strideChosen, Bool.true_and, Bool.or_true, ite_self]

/-- The checks of `zipc_platform_memory_protect_none`. -/
structure Granted (p : Platform t) (memory offset length : Nat) : Prop where
  some : length ≠ 0
  capable : (p.memory memory).capabilities &&& capPageProtect ≠ 0
  page : (p.memory memory).pageSize ≠ 0
  starts : (p.memory memory).pageSize ∣ offset
  whole : (p.memory memory).pageSize ∣ length
  inside : offset + length ≤ (p.memory memory).size

theorem protectNone_exact (memory offset length : Nat) :
    (protectNone p memory offset length).exact = true := by
  unfold protectNone
  split
  · rfl
  · split
    · rfl
    · rename_i refused
      simp only [not_or] at refused
      rw [sub_of_le (by omega) (p.memory memory).size_fits, pure_bind']
      split
      · rfl
      · split <;> rfl

theorem protectNone_ok_iff (memory offset length : Nat) :
    (protectNone p memory offset length).value = .ok ↔
      Granted p memory offset length ∧ p.mprotect memory offset length = true := by
  unfold protectNone
  split
  · rename_i refused
    refine ⟨nofun, fun granted => ?_⟩
    have some := granted.1.some
    have capable := granted.1.capable
    tauto
  · rename_i able
    split
    · rename_i refused
      refine ⟨nofun, fun granted => ?_⟩
      have offsetOk := Nat.mod_eq_zero_of_dvd granted.1.starts
      have lengthOk := Nat.mod_eq_zero_of_dvd granted.1.whole
      have inside := granted.1.inside
      have page := granted.1.page
      omega
    · rename_i placed
      simp only [not_or, not_not, ne_eq, Nat.not_lt] at able placed
      rw [sub_of_le (by omega) (p.memory memory).size_fits, pure_bind']
      split
      · rename_i beyond
        refine ⟨nofun, fun granted => ?_⟩
        have inside := granted.1.inside
        omega
      · rename_i fits
        have granted : Granted p memory offset length :=
          ⟨able.1, able.2, placed.1, Nat.dvd_of_mod_eq_zero placed.2.1,
            Nat.dvd_of_mod_eq_zero placed.2.2.1, by omega⟩
        split
        · rename_i given
          exact ⟨fun _ => ⟨granted, given⟩, fun _ => rfl⟩
        · rename_i denied
          exact ⟨nofun, fun both => absurd both.2 denied⟩

/-- A sweep of protections whose offsets stay inside the type never wraps, and succeeds
exactly when each of its requests does. -/
theorem protectEach_spec {skip length : Nat} : ∀ {left i : Nat},
    (∀ k, k < left → config.payloadOffset + (i + k) * stride + skip < 2 ^ t.bits) →
    (protectEach p config payload stride skip length left i).exact = true ∧
      ((protectEach p config payload stride skip length left i).value = .ok ↔
        ∀ k, k < left → (protectNone p payload
          (config.payloadOffset + (i + k) * stride + skip) length).value = .ok) := by
  intro left
  induction left with
  | zero => exact fun _ => ⟨rfl, fun _ k below => absurd below (by omega), fun _ => rfl⟩
  | succ left ih =>
      intro i small
      have here := small 0 (by omega)
      rw [Nat.add_zero] at here
      have later : ∀ k, k < left → config.payloadOffset + (i + 1 + k) * stride + skip <
          2 ^ t.bits := by
        intro k below
        have := small (k + 1) (by omega)
        rwa [show i + (k + 1) = i + 1 + k by omega] at this
      obtain ⟨exactly, iff⟩ := ih later
      unfold protectEach
      rw [mul_of_lt (by omega), pure_bind', add_of_lt (by omega), pure_bind', add_of_lt here,
        pure_bind']
      have one := protectNone_exact (p := p) payload (config.payloadOffset + i * stride + skip) length
      simp only [exact_bind, value_bind, one, Bool.true_and]
      by_cases first : (protectNone p payload (config.payloadOffset + i * stride + skip)
          length).value = .ok
      · simp only [first]
        refine ⟨exactly, iff.trans ⟨fun rest k below => ?_, fun all k below => ?_⟩⟩
        · cases k with
          | zero => rwa [Nat.add_zero]
          | succ k =>
              have := rest k (by omega)
              rwa [show i + (k + 1) = i + 1 + k by omega]
        · have := all (k + 1) (by omega)
          rwa [show i + (k + 1) = i + 1 + k by omega] at this
      · split
        · rename_i accepted
          exact absurd accepted first
        · refine ⟨rfl, fun refused => absurd refused first, fun all => ?_⟩
          have := all 0 (by omega)
          rw [Nat.add_zero] at this
          exact absurd this first

theorem guardPages_spec
    (small : ∀ k, k < config.slotCount →
      config.payloadOffset + k * stride + config.slotCapacity < 2 ^ t.bits) :
    (applyGuardPages p config payload stride).exact = true := by
  unfold applyGuardPages
  split
  · rfl
  · split
    · rfl
    · apply (protectEach_spec ?_).1
      intro k below
      rw [Nat.zero_add]
      exact small k below

/-- The slot controls start aligned, behind the header. -/
theorem controlsPlace_spec :
    (controlsPlace p config layout control).exact = true ∧
      ∀ found, (controlsPlace p config layout control).value = some found →
        found = layout.controlsOffset ∧ found < u32 ∧
          layout.slotAlign ∣ (p.memory control).base + config.controlOffset + found := by
  have top := t.max_add
  have wide := t.u32_le
  have spec := layout.controlsOffset_spec
  have alignSmall := layout.slotAlign_small
  have narrowAlign : layout.slotAlign < 2 ^ t.bits := by
    unfold u32 at wide
    omega
  have small : layout.controlsOffset < u32 := by
    unfold u32
    omega
  have left : sub t.bits t.max layout.controlsOffset = pure (t.max - layout.controlsOffset) :=
    sub_of_le (by omega) (by omega)
  unfold controlsPlace
  simp only [layout.alignUp_header, pure_bind', left, if_neg (Nat.not_le.mpr small)]
  split
  · exact ⟨rfl, nofun⟩
  · rename_i room
    rw [add_of_lt (by omega), pure_bind']
    have decided := addressAligned_decides (p.memory control)
      (config.controlOffset + layout.controlsOffset) narrowAlign
    refine ⟨by simp [decided.exact], fun found answer => ?_⟩
    simp only [value_bind, value_ite, value_pure] at answer
    split at answer
    · cases answer
    · rename_i aligned
      cases answer
      have holds := decided.iff.mp (by simpa using aligned)
      exact ⟨rfl, small, by simpa [Nat.add_assoc] using holds.2.2.2⟩

/-- The checks that an accepted configuration passed, in format as in attach. -/
structure Passed (p : Platform t) (config : PoolConfig t) (layout : Layout)
    (control payload stride : Nat) : Prop where
  normalized : (normalizeConfig p config layout control payload).value = .ok stride
  controlSize : (poolRequiredControlSize t layout config.slotCount).value ≠ 0
  payloadSize : (poolRequiredPayloadSize t config.slotCount config.slotCapacity stride
    config.payloadAlignment).value ≠ 0
  ranges : (poolRangesValid p config control payload
    (poolRequiredControlSize t layout config.slotCount).value
    (poolRequiredPayloadSize t config.slotCount config.slotCapacity stride
      config.payloadAlignment).value).value = true
  guarded : (applyGuardPages p config payload stride).value = .ok
  place : (controlsPlace p config layout control).value = some layout.controlsOffset

theorem chooseStride_refuses {memory : PlatformMemory t} :
    (chooseStride config memory).value ≠ .error .ok := by
  intro refused
  unfold chooseStride at refused
  simp only [value_bind, value_ite, value_pure] at refused
  repeat' split at refused
  all_goals simp at refused

theorem normalizeConfig_refuses :
    (normalizeConfig p config layout control payload).value ≠ .error .ok := by
  intro refused
  have never : (chooseStride config (p.memory payload)).value ≠ .error .ok := chooseStride_refuses
  unfold normalizeConfig at refused
  simp only [value_bind, value_ite, value_pure] at refused
  repeat' split at refused
  all_goals simp_all

theorem poolFormat_ok {header written : PoolHeader}
    (accepted : (poolFormat p config layout header).value = (.ok, written)) :
    ∃ control stride, config.controlMemory = some control ∧
      Passed p config layout control (config.payloadMemory.getD control) stride ∧
      written = { formattedHeader config layout stride with
        controlsOffset := layout.controlsOffset, payloadAlignment := config.payloadAlignment } := by
  unfold poolFormat at accepted
  cases memory : config.controlMemory with
  | none => simp [memory] at accepted
  | some control =>
      simp only [memory, value_bind] at accepted
      split at accepted
      · rename_i status normalized
        cases accepted
        exact absurd normalized normalizeConfig_refuses
      rename_i stride normalized
      simp only [value_bind, value_ite, value_pure] at accepted
      split at accepted
      · cases accepted
      rename_i sizes
      split at accepted
      · cases accepted
      rename_i ranges
      split at accepted
      · rename_i guarded
        simp only [value_bind] at accepted
        split at accepted
        · cases accepted
        rename_i found place
        simp only [value_pure, value_bind, Prod.mk.injEq, true_and] at accepted
        simp only [not_or] at sizes
        obtain ⟨rfl, small, -⟩ := controlsPlace_spec.2 found place
        have narrowed : (narrow 32 layout.controlsOffset).value = layout.controlsOffset := by
          rw [narrow_of_lt small, value_pure]
        rw [narrowed] at accepted
        exact ⟨control, stride, rfl, ⟨normalized, sizes.1, sizes.2, by simpa using ranges,
          guarded, place⟩, accepted.symm⟩
      · rename_i status refused
        exact absurd (congrArg Prod.fst accepted) refused

theorem headerMatches_iff {header : PoolHeader} :
    headerMatches config layout stride header = true ↔
      header.magic = poolMagic ∧ header.abiVersion = poolAbiVersion ∧
        header.headerSize = layout.headerSize ∧ header.slotCount = config.slotCount ∧
        header.slotCapacity = config.slotCapacity ∧ header.slotStride = stride ∧
        header.payloadAlignment = config.payloadAlignment := by
  simp only [headerMatches, Bool.and_eq_true, decide_eq_true_eq, and_assoc]

/-- Attach passes the checks of format, finds the header it expects and, with strict
ownership, protects every slot. -/
theorem poolAttach_ok_iff {header : PoolHeader} :
    (poolAttach p config layout header).value = .ok ↔
    ∃ control stride, config.controlMemory = some control ∧
      Passed p config layout control (config.payloadMemory.getD control) stride ∧
      config.controlOffset + layout.headerSize ≤ (p.memory control).size ∧
      headerMatches config layout stride header = true ∧
      header.controlsOffset = layout.controlsOffset ∧
      (config.strict = true → (protectEach p config (config.payloadMemory.getD control)
        stride 0 config.slotCapacity config.slotCount 0).value = .ok) := by
  unfold poolAttach
  cases memory : config.controlMemory with
  | none => simp
  | some control =>
      simp only [Option.some.injEq, exists_and_left, exists_eq_left']
      cases normalized : (normalizeConfig p config layout control
          (config.payloadMemory.getD control)).value with
      | error status =>
          simp only [value_bind, normalized, value_pure]
          constructor
          · rintro rfl
            exact absurd normalized normalizeConfig_refuses
          · rintro ⟨stride, passed, -⟩
            rw [passed.normalized] at normalized
            cases normalized
      | ok stride =>
          have sized := (p.memory control).size_fits
          have offsets := layout.controlsOffset_spec
          have rest (low : config.controlOffset ≤ (p.memory control).size) :
              (sub t.bits (p.memory control).size config.controlOffset).value =
                (p.memory control).size - config.controlOffset := by
            rw [sub_of_le low sized, value_pure]
          simp only [value_bind, normalized, value_ite, value_pure]
          constructor
          · intro accepted
            split at accepted
            · cases accepted
            rename_i low
            rw [rest (by omega)] at accepted
            split at accepted
            · cases accepted
            rename_i room
            split at accepted
            · cases accepted
            rename_i matched
            simp only [Bool.not_eq_false] at matched
            obtain ⟨-, -, -, count, capacity, strided, alignment⟩ := headerMatches_iff.mp matched
            rw [count, capacity, strided, alignment] at accepted
            split at accepted
            · cases accepted
            rename_i placed
            simp only [not_or, not_not, ne_eq] at placed
            obtain ⟨place, -, -⟩ := controlsPlace_spec.2 _ placed.1
            split at accepted
            · cases accepted
            rename_i sizes
            simp only [not_or] at sizes
            split at accepted
            · cases accepted
            split at accepted
            · cases accepted
            rename_i ranges
            split at accepted
            · rename_i guarded
              refine ⟨stride, ⟨normalized, sizes.1, sizes.2.1, by simpa using ranges, guarded,
                placed.1.trans (congrArg some place)⟩, by omega, matched, place, fun strict => ?_⟩
              rw [if_pos strict] at accepted
              exact accepted
            · rename_i refused
              exact absurd accepted refused
          · rintro ⟨stride', passed, room, matched, placed, strict⟩
            have same : stride = stride' := Except.ok.inj (normalized.symm.trans passed.normalized)
            subst same
            obtain ⟨-, -, -, count, capacity, strided, alignment⟩ := headerMatches_iff.mp matched
            have passedPlace := passed.place
            have whole : layout.controlsOffset % layout.slotAlign = 0 :=
              Nat.mod_eq_zero_of_dvd offsets.2.2
            obtain ⟨controlSize, controlFits⟩ :=
              (requiredControlSize_spec (normalizeConfig_ok normalized).count).2 passed.controlSize
            have passedSize := passed.payloadSize
            have passedRanges := passed.ranges
            rw [controlSize] at passedRanges
            rw [rest (by omega), if_neg (by omega), if_neg (by omega), if_neg (by simp [matched]),
              count, capacity, strided, alignment, placed, passedPlace, if_neg (by simp [whole]),
              controlSize, sub_of_le (by omega) controlFits, value_pure, if_neg, if_neg, if_neg,
              passed.guarded]
            · simp only
              split
              · rename_i isStrict
                exact strict isStrict
              · rfl
            · simp [passedRanges]
            · rw [Nat.add_sub_cancel_left, Nat.mul_div_cancel _ layout.slot_pos]
              omega
            · have positive := layout.header_pos
              omega

/-! ## Safe geometry -/

/-- Two ranges given by start and length do not meet. -/
def Apart (start length start' length' : Nat) : Prop :=
  start + length ≤ start' ∨ start' + length' ≤ start

/-- The offset of a slot's payload in the payload memory. -/
def slotStart (config : PoolConfig t) (stride i : Nat) : Nat := config.payloadOffset + i * stride

/-- The bytes of the header and the slot controls. -/
def controlArea (config : PoolConfig t) (layout : Layout) : Nat :=
  layout.controlsOffset + config.slotCount * layout.slotSize

/-- Header, slot controls, payloads and guard pages lie inside their memory, aligned and
apart from one another. -/
structure SafeGeometry (p : Platform t) (config : PoolConfig t) (layout : Layout)
    (control payload stride : Nat) : Prop where
  header_inside : config.controlOffset + layout.headerSize ≤ (p.memory control).size
  header_aligned : layout.headerAlign ∣ (p.memory control).base + config.controlOffset
  header_apart : layout.headerSize ≤ layout.controlsOffset
  area_inside : config.controlOffset + controlArea config layout ≤ (p.memory control).size ∧
    (p.memory control).base + config.controlOffset + controlArea config layout < 2 ^ t.bits
  controls_aligned : ∀ i, layout.slotAlign ∣ (p.memory control).base + config.controlOffset +
    layout.controlsOffset + i * layout.slotSize
  slots_inside : ∀ i, i < config.slotCount →
    slotStart config stride i + config.slotCapacity ≤ (p.memory payload).size ∧
      (p.memory payload).base + slotStart config stride i + config.slotCapacity < 2 ^ t.bits
  slots_aligned : ∀ i, config.payloadAlignment ∣ slotStart config stride i ∧
    config.payloadAlignment ∣ (p.memory payload).base + slotStart config stride i
  slots_apart : ∀ i j, i ≠ j → Apart (slotStart config stride i) config.slotCapacity
    (slotStart config stride j) config.slotCapacity
  slots_off_control : control = payload → ∀ i, i < config.slotCount →
    Apart (slotStart config stride i) config.slotCapacity
      config.controlOffset (controlArea config layout)
  guards_aligned : config.guards = true → ∀ i,
    (p.memory payload).pageSize ∣ slotStart config stride i + config.slotCapacity ∧
      (p.memory payload).pageSize ∣
        (p.memory payload).base + (slotStart config stride i + config.slotCapacity)
  guards_inside : config.guards = true → ∀ i, i < config.slotCount →
    slotStart config stride i + config.slotCapacity + (p.memory payload).pageSize ≤
      (p.memory payload).size
  guards_apart : config.guards = true → ∀ i j,
    Apart (slotStart config stride i + config.slotCapacity) (p.memory payload).pageSize
      (slotStart config stride j) config.slotCapacity
  guards_off_control : config.guards = true → control = payload → ∀ i, i < config.slotCount →
    Apart (slotStart config stride i + config.slotCapacity) (p.memory payload).pageSize
      config.controlOffset (controlArea config layout)

/-- One slot's stride fits before the next slot's start. -/
theorem slotStart_next (config : PoolConfig t) (stride : Nat) {i j : Nat} (before : i < j) :
    slotStart config stride i + stride ≤ slotStart config stride j := by
  have step : (i + 1) * stride ≤ j * stride := Nat.mul_le_mul_right stride before
  rw [Nat.succ_mul] at step
  unfold slotStart
  omega

/-- What the ranges of a configuration that passed say, in plain numbers. -/
structure Placed (p : Platform t) (config : PoolConfig t) (layout : Layout)
    (control payload stride : Nat) : Prop where
  control_inside : config.controlOffset + controlArea config layout ≤ (p.memory control).size
  control_fits : (p.memory control).base + config.controlOffset + controlArea config layout <
    2 ^ t.bits
  payload_inside : config.payloadOffset + config.slotCount * stride ≤ (p.memory payload).size
  payload_fits : (p.memory payload).base + config.payloadOffset + config.slotCount * stride <
    2 ^ t.bits
  off : control = payload → config.payloadOffset + config.slotCount * stride ≤ config.controlOffset ∨
    config.controlOffset + controlArea config layout ≤ config.payloadOffset
  clear : config.slotCapacity + config.payloadAlignment < 2 ^ t.bits

theorem Passed.placed (passed : Passed p config layout control payload stride) :
    Placed p config layout control payload stride := by
  have normal := normalizeConfig_ok passed.normalized
  have wide := t.u32_le
  have small := config.words_fit
  have strided : stride ≠ 0 := by
    have := normal.capacity
    have := normal.large
    omega
  have alignmentFits : config.payloadAlignment < 2 ^ t.bits := by omega
  have controlSpec := (requiredControlSize_spec normal.count).2 passed.controlSize
  have payloadSpec := (requiredPayloadSize_spec strided alignmentFits).2 passed.payloadSize
  have ranges := rangesValid_decides.iff.mp passed.ranges
  rw [controlSpec.1, payloadSpec.1] at ranges
  obtain ⟨⟨-, controlInside, controlFits⟩, ⟨based, payloadInside, payloadFits⟩, off⟩ := ranges
  refine ⟨controlInside, controlFits, payloadInside, payloadFits, off, ?_⟩
  -- the payload starts at a nonzero multiple of the alignment and ends inside the type
  have first : config.payloadAlignment ≤ (p.memory payload).base + config.payloadOffset :=
    Nat.le_of_dvd (by omega) normal.payloadAddress
  have one : stride ≤ config.slotCount * stride :=
    Nat.le_mul_of_pos_left stride (Nat.pos_of_ne_zero normal.count)
  have large := normal.large
  omega

theorem Passed.safe (passed : Passed p config layout control payload stride) :
    SafeGeometry p config layout control payload stride := by
  have normal := normalizeConfig_ok passed.normalized
  have placed := passed.placed
  have offsets := layout.controlsOffset_spec
  have controlInside := placed.control_inside
  have payloadInside := placed.payload_inside
  have payloadFits := placed.payload_fits
  have large := normal.large
  have last : ∀ i, i < config.slotCount →
      slotStart config stride i + stride ≤ config.payloadOffset + config.slotCount * stride :=
    fun i below => slotStart_next config stride below
  have guardStride (guards : config.guards = true) :
      stride = config.slotCapacity + (p.memory payload).pageSize :=
    (normal.strided.guarded guards).2
  refine
    { header_inside := ?_
      header_aligned := normal.controlAddress
      header_apart := offsets.1
      area_inside := ⟨controlInside, placed.control_fits⟩
      controls_aligned := ?_
      slots_inside := ?_
      slots_aligned := ?_
      slots_apart := ?_
      slots_off_control := ?_
      guards_aligned := ?_
      guards_inside := ?_
      guards_apart := ?_
      guards_off_control := ?_ }
  · unfold controlArea at controlInside
    omega
  · intro i
    have place := (controlsPlace_spec.2 _ passed.place).2.2
    exact Nat.dvd_add place (Nat.dvd_trans layout.slot_whole (Nat.dvd_mul_left _ _))
  · intro i below
    have := last i below
    omega
  · intro i
    have multiple : config.payloadAlignment ∣ i * stride :=
      Nat.dvd_trans normal.aligned (Nat.dvd_mul_left _ _)
    refine ⟨Nat.dvd_add normal.payloadOffset multiple, ?_⟩
    unfold slotStart
    rw [← Nat.add_assoc]
    exact Nat.dvd_add normal.payloadAddress multiple
  · intro i j other
    unfold Apart
    rcases Nat.lt_or_gt_of_ne other with before | after
    · have := slotStart_next config stride before
      omega
    · have := slotStart_next config stride after
      omega
  · intro shared i below
    have ends := last i below
    have starts : config.payloadOffset ≤ slotStart config stride i := Nat.le_add_right _ _
    have := placed.off shared
    unfold Apart
    omega
  · intro guards i
    have protectable := (normal.strided.guarded guards).1
    have page : (p.memory payload).pageSize ∣ stride := by
      rw [guardStride guards]
      exact Nat.dvd_add protectable.capacity (Nat.dvd_refl _)
    have multiple : (p.memory payload).pageSize ∣ i * stride + config.slotCapacity :=
      Nat.dvd_add (Nat.dvd_trans page (Nat.dvd_mul_left _ _)) protectable.capacity
    unfold slotStart
    rw [Nat.add_assoc, ← Nat.add_assoc (p.memory payload).base]
    exact ⟨Nat.dvd_add protectable.offset multiple, Nat.dvd_add protectable.address multiple⟩
  · intro guards i below
    have := last i below
    have := guardStride guards
    omega
  · intro guards i j
    have wide := guardStride guards
    unfold Apart
    rcases Nat.lt_trichotomy i j with before | same | after
    · have := slotStart_next config stride before
      omega
    · subst same
      omega
    · have := slotStart_next config stride after
      omega
  · intro guards shared i below
    have ends := last i below
    have starts : config.payloadOffset ≤ slotStart config stride i := Nat.le_add_right _ _
    have wide := guardStride guards
    have := placed.off shared
    unfold Apart
    omega

/-- No computation of the common checks wraps when they pass. -/
theorem Passed.exact (passed : Passed p config layout control payload stride) :
    (normalizeConfig p config layout control payload).exact = true ∧
      (poolRequiredControlSize t layout config.slotCount).exact = true ∧
      (poolRequiredPayloadSize t config.slotCount config.slotCapacity stride
        config.payloadAlignment).exact = true ∧
      (applyGuardPages p config payload stride).exact = true := by
  have normal := normalizeConfig_ok passed.normalized
  have placed := passed.placed
  have wide := t.u32_le
  have small := config.words_fit
  have large := normal.large
  have capacity := normal.capacity
  have strided : stride ≠ 0 := by omega
  have alignmentFits : config.payloadAlignment < 2 ^ t.bits := by omega
  refine ⟨normal.exact placed.clear, (requiredControlSize_spec normal.count).1,
    (requiredPayloadSize_spec strided alignmentFits).1, guardPages_spec fun i below => ?_⟩
  have ends := slotStart_next config stride below
  have fits := placed.payload_fits
  unfold slotStart at ends
  omega

theorem poolFormat_exact {header written : PoolHeader}
    (accepted : (poolFormat p config layout header).value = (.ok, written)) :
    (poolFormat p config layout header).exact = true := by
  obtain ⟨control, stride, memory, passed, -⟩ := poolFormat_ok accepted
  obtain ⟨normal, controlSize, payloadSize, guarded⟩ := passed.exact
  have small : layout.controlsOffset < 2 ^ 32 := (controlsPlace_spec.2 _ passed.place).2.1
  have nonzero := passed.controlSize
  have nonzero' := passed.payloadSize
  unfold poolFormat
  simp only [memory, exact_bind, exact_ite, normal, passed.normalized, controlSize,
    payloadSize, rangesValid_decides.exact, guarded, passed.guarded, controlsPlace_spec.1,
    passed.place, narrow_of_lt small, exact_pure, Bool.true_and, ite_self]

theorem poolAttach_exact {header : PoolHeader}
    (accepted : (poolAttach p config layout header).value = .ok) :
    (poolAttach p config layout header).exact = true := by
  obtain ⟨control, stride, memory, passed, room, matched, placed, -⟩ :=
    poolAttach_ok_iff.mp accepted
  obtain ⟨normal, controlSize, payloadSize, guarded⟩ := passed.exact
  obtain ⟨-, -, -, count, capacity, strided, alignment⟩ := headerMatches_iff.mp matched
  have normalized := normalizeConfig_ok passed.normalized
  have controlSpec := (requiredControlSize_spec normalized.count).2 passed.controlSize
  have headerRoom : sub t.bits (p.memory control).size config.controlOffset =
      pure ((p.memory control).size - config.controlOffset) :=
    sub_of_le (by omega) (p.memory control).size_fits
  have controlsRoom : sub t.bits (poolRequiredControlSize t layout config.slotCount).value
      layout.controlsOffset = pure (config.slotCount * layout.slotSize) := by
    rw [controlSpec.1, sub_of_le (by omega) controlSpec.2, Nat.add_sub_cancel_left]
  have slotsExact : (protectEach p config (config.payloadMemory.getD control) stride 0
      config.slotCapacity config.slotCount 0).exact = true := by
    refine (protectEach_spec fun i below => ?_).1
    have ends := slotStart_next config stride below
    have fits := passed.placed.payload_fits
    unfold slotStart at ends
    rw [Nat.zero_add]
    omega
  unfold poolAttach
  simp only [memory, exact_bind, exact_ite, normal, passed.normalized, headerRoom,
    count, capacity, strided, alignment, placed, controlSize, payloadSize, controlsRoom,
    rangesValid_decides.exact, guarded, passed.guarded, controlsPlace_spec.1, slotsExact, exact_pure,
    Bool.true_and, ite_self]

/-- Whatever format or attach accepts has a safe geometry, at the stride the header holds,
and no size or offset computation on the way wrapped. -/
theorem pool_geometry_safe (t : SizeT) (p : Platform t) (config : PoolConfig t) (layout : Layout)
    (header : PoolHeader) :
    (∀ written, (poolFormat p config layout header).value = (.ok, written) →
      (poolFormat p config layout header).exact = true ∧
      ∃ control, config.controlMemory = some control ∧
        written.controlsOffset = layout.controlsOffset ∧
        SafeGeometry p config layout control (config.payloadMemory.getD control)
          written.slotStride) ∧
    ((poolAttach p config layout header).value = .ok →
      (poolAttach p config layout header).exact = true ∧
      ∃ control, config.controlMemory = some control ∧
        header.controlsOffset = layout.controlsOffset ∧
        SafeGeometry p config layout control (config.payloadMemory.getD control)
          header.slotStride) := by
  constructor
  · intro written accepted
    obtain ⟨control, stride, memory, passed, rfl⟩ := poolFormat_ok accepted
    exact ⟨poolFormat_exact accepted, control, memory, rfl, passed.safe⟩
  · intro accepted
    obtain ⟨control, stride, memory, passed, -, matched, placed, -⟩ :=
      poolAttach_ok_iff.mp accepted
    obtain ⟨-, -, -, -, -, rfl, -⟩ := headerMatches_iff.mp matched
    exact ⟨poolAttach_exact accepted, control, memory, placed, passed.safe⟩

/-! ## Attach after format -/

/-- Two powers of two: the smaller divides the larger. -/
theorem powers_nest {a b : Nat} (first : a.isPowerOfTwo) (second : b.isPowerOfTwo) :
    a ∣ b ∨ b ∣ a := by
  obtain ⟨j, rfl⟩ := first
  obtain ⟨k, rfl⟩ := second
  rcases Nat.le_total j k with le | le
  · exact .inl (Nat.pow_dvd_pow 2 le)
  · exact .inr (Nat.pow_dvd_pow 2 le)

/-- Rounding a multiple up changes nothing. -/
theorem roundUp_of_dvd {n a : Nat} (positive : 0 < a) (whole : a ∣ n) :
    (n + a - 1) / a * a = n := by
  obtain ⟨k, rfl⟩ := whole
  have shifted : a * k + a - 1 = a * k + (a - 1) := by omega
  rw [shifted, Nat.mul_add_div positive, Nat.div_eq_of_lt (by omega), Nat.add_zero, Nat.mul_comm]

/-- The caller's stride keeps the slots of a strict pool on page boundaries: there are
guard pages, a single slot, or a stride of whole pages. -/
def StrideOnPages (p : Platform t) (config : PoolConfig t) : Prop :=
  ∀ control, config.controlMemory = some control → config.strict = true → config.guards = false →
    1 < config.slotCount → (p.memory (config.payloadMemory.getD control)).pageSize ∣ config.slotStride

/-- A stride the code computed itself is a multiple of the page. -/
theorem Normalized.page_dvd_stride (normal : Normalized p config layout control payload stride)
    (strict : config.strict = true) (own : config.guards = true ∨ config.slotStride = 0) :
    (p.memory payload).pageSize ∣ stride := by
  have protectable := normal.strict strict
  have power := (p.memory payload).page_power.resolve_left protectable.page
  cases guards : config.guards with
  | true =>
      rw [(normal.strided.guarded guards).2]
      exact Nat.dvd_add protectable.capacity (Nat.dvd_refl _)
  | false =>
      have zero : config.slotStride = 0 := own.resolve_left (by simp [guards])
      rcases powers_nest power normal.power with coarse | fine
      · exact Nat.dvd_trans coarse normal.aligned
      · have whole := Nat.dvd_trans fine protectable.capacity
        rw [normal.strided.rounded guards zero, roundUp_of_dvd (isPowerOfTwo.pos normal.power) whole]
        exact protectable.capacity

/-- The strict protection of every slot passes the platform's checks exactly when every
slot starts on a page. -/
theorem Passed.slots_protected_iff (granting : ∀ m o l, p.mprotect m o l = true)
    (passed : Passed p config layout control payload stride) (strict : config.strict = true) :
    (protectEach p config payload stride 0 config.slotCapacity config.slotCount 0).value = .ok ↔
      (1 < config.slotCount → (p.memory payload).pageSize ∣ stride) := by
  have normal := normalizeConfig_ok passed.normalized
  have protectable := normal.strict strict
  have safe := passed.safe
  have small : ∀ k, k < config.slotCount →
      config.payloadOffset + (0 + k) * stride + 0 < 2 ^ t.bits := by
    intro k below
    have inside := (safe.slots_inside k below).2
    unfold slotStart at inside
    rw [Nat.zero_add]
    omega
  rw [(protectEach_spec small).2]
  constructor
  · intro each many
    obtain ⟨granted, -⟩ := (protectNone_ok_iff ..).mp (each 1 many)
    have starts := granted.starts
    rw [Nat.add_zero, Nat.zero_add, Nat.one_mul] at starts
    exact (Nat.dvd_add_right protectable.offset).mp starts
  · intro whole k below
    rw [protectNone_ok_iff]
    refine ⟨⟨normal.capacity, protectable.capable, protectable.page, ?_, protectable.capacity, ?_⟩,
      granting _ _ _⟩
    · rw [Nat.add_zero, Nat.zero_add]
      apply Nat.dvd_add protectable.offset
      by_cases many : 1 < config.slotCount
      · exact Nat.dvd_trans (whole many) (Nat.dvd_mul_left _ _)
      · have only : k = 0 := by omega
        subst only
        simp
    · have inside := (safe.slots_inside k below).1
      unfold slotStart at inside
      rw [Nat.add_zero, Nat.zero_add]
      omega

/-- After a format that succeeded, attach with the same configuration succeeds exactly
when the caller's stride keeps the slots of a strict pool on page boundaries. -/
theorem attach_after_format_iff (t : SizeT) (p : Platform t)
    (granting : ∀ memory offset length, p.mprotect memory offset length = true)
    (config : PoolConfig t) (layout : Layout) (header written : PoolHeader)
    (formatted : (poolFormat p config layout header).value = (.ok, written)) :
    (poolAttach p config layout written).value = .ok ↔ StrideOnPages p config := by
  obtain ⟨control, stride, memory, passed, rfl⟩ := poolFormat_ok formatted
  have normal := normalizeConfig_ok passed.normalized
  have matched : headerMatches config layout stride
      { formattedHeader config layout stride with
        controlsOffset := layout.controlsOffset, payloadAlignment := config.payloadAlignment } =
      true := by
    have small : layout.headerSize % 65536 = layout.headerSize :=
      Nat.mod_eq_of_lt layout.header_small
    exact headerMatches_iff.mpr ⟨rfl, rfl, small, rfl, rfl, rfl, rfl⟩
  have reduced : (poolAttach p config layout { formattedHeader config layout stride with
        controlsOffset := layout.controlsOffset,
        payloadAlignment := config.payloadAlignment }).value = .ok ↔
      (config.strict = true → (protectEach p config (config.payloadMemory.getD control)
        stride 0 config.slotCapacity config.slotCount 0).value = .ok) := by
    rw [poolAttach_ok_iff]
    constructor
    · rintro ⟨control', stride', memory', passed', -, -, -, strict⟩
      cases memory.symm.trans memory'
      cases passed.normalized.symm.trans passed'.normalized
      exact strict
    · intro strict
      exact ⟨control, stride, memory, passed, passed.safe.header_inside, matched, rfl, strict⟩
  rw [reduced]
  constructor
  · intro protectedAll control' memory' strict guards many
    cases memory.symm.trans memory'
    have whole := (passed.slots_protected_iff granting strict).mp (protectedAll strict) many
    by_cases zero : config.slotStride = 0
    · rw [zero]
      exact Nat.dvd_zero _
    · rwa [← normal.strided.chosen guards zero]
  · intro onPages strict
    rw [passed.slots_protected_iff granting strict]
    intro many
    by_cases own : config.guards = true ∨ config.slotStride = 0
    · exact normal.page_dvd_stride strict own
    · simp only [not_or, Bool.not_eq_true] at own
      rw [normal.strided.chosen own.1 own.2]
      exact onPages control memory strict own.1 many

end Config

/-! ## Examples -/

/-- The sizes on Linux. -/
def linuxLayout : Layout where
  headerSize := 6248
  headerAlign := 8
  slotSize := 344
  slotAlign := 8
  header_power := ⟨3, rfl⟩
  slot_power := ⟨3, rfl⟩
  header_whole := by decide
  slot_whole := by decide

/-- One object of 64 KiB for control (0) and payload (1) memory. -/
def linuxPlatform : Platform .bits64 where
  memory handle :=
    { base := 65536 * (handle % 2 + 1), size := 65536, capabilities := 271, pageSize := 4096
      base_fits := by
        have := Nat.mod_lt handle (show 0 < 2 by decide)
        simp only [SizeT.bits]
        omega
      page_power := .inr ⟨12, rfl⟩ }
  mprotect _ _ _ := true

/-- Two slots of one page with strict ownership. -/
def strictConfig (slotStride : Nat) (fits : slotStride < u32) : PoolConfig .bits64 where
  controlMemory := some 0
  payloadMemory := some 1
  slotCount := 2
  slotCapacity := 4096
  slotStride := slotStride
  payloadAlignment := 64
  flags := 2
  words_fit := ⟨by decide, by decide, fits, by decide, by decide⟩

/-- A header that was never written. -/
def blankHeader : PoolHeader := ⟨0, 0, 0, 0, 0, 0, 0, 0⟩

/-- The header of `strictConfig`. -/
def strictHeader (slotStride : Nat) : PoolHeader :=
  ⟨poolMagic, 3, 6248, 2, 4096, slotStride, 6248, 64⟩

theorem pool_geometry_safe_strict :
    ∃ control, (strictConfig 4096 (by decide)).controlMemory = some control ∧
      SafeGeometry linuxPlatform (strictConfig 4096 (by decide)) linuxLayout control 1 4096 := by
  obtain ⟨-, control, memory, -, safe⟩ := (pool_geometry_safe .bits64 linuxPlatform
    (strictConfig 4096 (by decide)) linuxLayout blankHeader).1 (strictHeader 4096) (by decide)
  exact ⟨control, memory, safe⟩

/-- Format accepts a stride that is not a multiple of the page; attach then refuses to
protect the second slot. -/
theorem attach_refuses_formatted :
    ¬ ∀ (p : Platform .bits64), (∀ memory offset length, p.mprotect memory offset length = true) →
      ∀ (config : PoolConfig .bits64) (header written : PoolHeader),
        (poolFormat p config linuxLayout header).value = (.ok, written) →
        (poolAttach p config linuxLayout written).value = .ok := by
  intro all
  have accepted := all linuxPlatform (fun _ _ _ => rfl) (strictConfig 4160 (by decide)) blankHeader
    (strictHeader 4160) (by decide)
  revert accepted
  decide

theorem attach_after_format_page_stride :
    (poolAttach linuxPlatform (strictConfig 8192 (by decide)) linuxLayout
      (strictHeader 8192)).value = .ok := by
  rw [attach_after_format_iff .bits64 linuxPlatform (fun _ _ _ => rfl) (strictConfig 8192 (by decide))
    linuxLayout blankHeader (strictHeader 8192) (by decide)]
  intro control memory _ _ _
  cases memory
  decide

end Zipc.Geometry
