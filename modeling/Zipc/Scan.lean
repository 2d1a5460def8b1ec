import Zipc.Session

/-! # The allocation scan

`buffer_allocate_internal` looks for a free slot from the allocation cursor on, at the index
`(start + n) % count` of round `n`. The sum is a `uint32_t`: for large pools it wraps before
the remainder is taken, and the scan then goes on at slot 0 a second time instead of reaching
the slots just before its start.
-/

namespace Zipc

open Atomic Program

/-- The slot of round `n`, as the code computes it. -/
def scanIndex (count start n : Nat) : Nat := (start + n) % u32 % count

/-- Each slot is the slot of exactly one round. -/
def VisitsOnce (count start : Nat) : Prop :=
  ∀ j, j < count → ∃! n, n < count ∧ scanIndex count start n = j

/-- A slot that an allocation can take. -/
def Available (m : Mem) (j : Nat) : Prop :=
  (m.slots j).state = .free ∧ (m.slots j).claimToken = 0

/-- The first slot that can be taken, in cyclic order from `start`. -/
def FirstAvailable (count start : Nat) (m : Mem) (j : Nat) : Prop :=
  ∃ d, d < count ∧ j = (start + d) % count ∧ Available m j ∧
    ∀ d', d' < d → ¬Available m ((start + d') % count)

/-- Page protection succeeds and there is entropy. -/
def plentiful : Env → Prop := fun e => e.protect = .ok ∧ e.identity ≠ none

/-- The same pool without strict ownership: what it guards is nothing. -/
def Pool.lax (pool : Pool) : Pool := { pool with strict := false }

theorem Pool.lax_guards (pool : Pool) {P : Prop} (strict : pool.lax.strict = true) : P :=
  Bool.noConfusion (strict : false = true)

/-- The allocation returns a buffer in slot `i`, owned by the allocator, and leaves the other
slots alone. -/
structure Takes (allocator i : Nat) (m : Mem) (result : Status × Option View) (m' : Mem) :
    Prop where
  returned : ∃ v, result = (.ok, some v) ∧ v.slotId = i
  state : (m'.slots i).state = .owned
  owner : (m'.slots i).ownerId = allocator
  others : ∀ j, j ≠ i → m'.core j = m.core j

/-- What an allocation is for: it fails only if nothing is free, and otherwise takes the first
free slot from the cursor on. -/
def AllocatesFirst (pool : Pool) (allocator parentId : Nat) (m : Mem) : Prop :=
  ∀ result m', CompletesIn plentiful (bufferAllocate pool allocator parentId) m result m' →
    (result.1 = .noBuffer → ∀ j, j < pool.slotCount → ¬Available m j) ∧
      ∀ j, FirstAvailable pool.slotCount (m.allocationCursor % pool.slotCount) m j →
        Takes allocator j m result m'

/-! ## The index -/

section Index

variable {count start n : Nat}

theorem scanIndex_lt (positive : 0 < count) : scanIndex count start n < count :=
  Nat.mod_lt _ positive

/-- Up to the wrap the index is the cyclic one. -/
theorem scanIndex_cyclic (unwrapped : start + n < u32) :
    scanIndex count start n = (start + n) % count := by
  rw [scanIndex, Nat.mod_eq_of_lt unwrapped]

theorem scanIndex_before (early : start + n < count) (fits : count < u32) :
    scanIndex count start n = start + n := by
  rw [scanIndex_cyclic (by omega), Nat.mod_eq_of_lt early]

theorem scanIndex_around (inside : start < count) (bounded : n < count) (around : count ≤ start + n)
    (unwrapped : start + n < u32) : scanIndex count start n = start + n - count := by
  rw [scanIndex_cyclic unwrapped, Nat.mod_eq_sub_mod around, Nat.mod_eq_of_lt (by omega)]

theorem scanIndex_wrapped (inside : start < count) (bounded : n < count) (fits : count < u32)
    (wrapped : u32 ≤ start + n) : scanIndex count start n = start + n - u32 := by
  rw [scanIndex, Nat.mod_eq_sub_mod wrapped, Nat.mod_eq_of_lt (a := start + n - u32) (by omega),
    Nat.mod_eq_of_lt (by omega)]

theorem scanIndex_unwrapped (inside : start < count) (room : start + count ≤ u32) (bounded : n < count) :
    scanIndex count start n = if start + n < count then start + n else start + n - count := by
  split
  · rename_i early
    rw [scanIndex_cyclic (by omega), Nat.mod_eq_of_lt early]
  · rename_i late
    exact scanIndex_around inside bounded (by omega) (by omega)

/-- When the last sum wraps, no round reaches the slot just before the start. -/
theorem scanIndex_skips (inside : start < count) (fits : count < u32)
    (overflow : u32 < start + count) (bounded : n < count) :
    scanIndex count start n ≠ start - 1 := by
  by_cases early : start + n < count
  · rw [scanIndex_before early fits]
    omega
  by_cases unwrapped : start + n < u32
  · rw [scanIndex_around inside bounded (by omega) unwrapped]
    omega
  · rw [scanIndex_wrapped inside bounded fits (by omega)]
    omega

theorem visitsOnce_iff (inside : start < count) (fits : count < u32) :
    VisitsOnce count start ↔ start + count ≤ u32 := by
  constructor
  · intro once
    by_contra overflow
    obtain ⟨n, ⟨bounded, found⟩, _⟩ := once (start - 1) (by omega)
    exact scanIndex_skips inside fits (by omega) bounded found
  · intro room j bounded
    refine ⟨if start ≤ j then j - start else j + count - start, ⟨?_, ?_⟩, ?_⟩
    · split <;> omega
    · rw [scanIndex_unwrapped inside room (by split <;> omega)]
      split <;> split <;> omega
    · rintro n ⟨small, found⟩
      rw [scanIndex_unwrapped inside room small] at found
      split at found <;> split <;> omega

end Index

/-! ## One round -/

section Rounds

variable {pool : Pool} {a : AllocateArgs} {epoch token start : Nat} {m : Mem}

/-- A slot that is not available is passed over and left as it is. -/
theorem allocateTry_passes {good : Env → Prop} {i : Nat} (busy : ¬Available m i) :
    (allocateTry pool a epoch token i).wpsIn good (Guarded pool.lax)
      (fun tried m' => tried = none ∧ m' = m) m := by
  simp only [allocateTry, lift_bind]
  refine ⟨trivial, fun e _ => wpsIn_ite (fun _ => ⟨rfl, rfl⟩) fun free => ?_⟩
  have taken : (m.slots i).claimToken ≠ 0 := fun zero => busy ⟨not_not.mp free, zero⟩
  refine ⟨trivial, fun e _ => wpsIn_ite (fun _ => ⟨rfl, ?_⟩) fun zero => absurd taken zero⟩
  exact if_neg taken

theorem not_unallocatable {i : Nat} (inside : i < pool.slotCount) :
    ¬Unallocatable plentiful pool i := by
  rintro (⟨_, outside | ⟨e, works, fails⟩⟩ | ⟨e, works, fails⟩)
  · exact absurd outside (Nat.not_le.mpr inside)
  · exact fails works.1
  · exact works.2 fails

/-- A slot that is available is taken. -/
theorem allocateTry_takes {i : Nat} (valid : componentIdValid a.allocator = true)
    (within : (⟨a.offset, a.length⟩ : Region).Within pool.slotCapacity)
    (inside : i < pool.slotCount) (available : Available m i) :
    (allocateTry pool a epoch token i).wpsIn plentiful (Guarded pool.lax)
      (fun tried m' => ∃ result, tried = some result ∧ Takes a.allocator i m result m') m := by
  have vacant : (m.core i).state = .free → (m.core i).claimToken = 0 ∧ (m.core i).Closed pool.lax :=
    fun _ => ⟨available.2, pool.lax_guards⟩
  refine wpsIn_mono (allocateTry_focused pool.lax_guards valid within Quiet.nil vacant m (.refl m i)) ?_
  rintro (_ | result) m' ⟨c, log, focus, ends⟩
  · exact absurd available.1 ends.2.2
  · obtain ⟨_, _, _, made | ⟨_, _, _, _, _, why⟩⟩ := ends
    · obtain ⟨rfl, owned, _, _, _, _, _, _, owner, _⟩ := made
      rw [← focus.core] at owned owner
      exact ⟨_, rfl, ⟨_, rfl, rfl⟩, owned, owner, focus.others⟩
    · exact absurd why (not_unallocatable inside)

/-- What the scan does in its rounds from `n` on: the allocation ends with the first available
slot that comes up, and if none does there is no buffer. -/
def Scanned (pool : Pool) (taken : Nat → Status × Option View → Mem → Prop) (start left n : Nat)
    (m : Mem) (result : Status × Option View) (m' : Mem) : Prop :=
  (result = (.noBuffer, none) ∧ (∀ j, m'.core j = m.core j) ∧
    ∀ k, k < left → ¬Available m (scanIndex pool.slotCount start (n + k))) ∨
  ∃ k, k < left ∧ Available m (scanIndex pool.slotCount start (n + k)) ∧
    (∀ l, l < k → ¬Available m (scanIndex pool.slotCount start (n + l))) ∧
    taken (scanIndex pool.slotCount start (n + k)) result m'

variable {good : Env → Prop} {taken : Nat → Status × Option View → Mem → Prop}

/-- A round that passes over its slot puts the rest of the scan one round later. -/
theorem Scanned.later {left n : Nat} {result : Status × Option View} {m' : Mem}
    (busy : ¬Available m (scanIndex pool.slotCount start n))
    (rest : Scanned pool taken start left (n + 1) m result m') :
    Scanned pool taken start (left + 1) n m result m' := by
  have shift (k : Nat) : n + 1 + k = n + (k + 1) := by omega
  simp only [Scanned, shift] at rest ⊢
  have passed {K : Nat}
      (none : ∀ l, l < K → ¬Available m (scanIndex pool.slotCount start (n + (l + 1))))
      (l : Nat) (early : l < K + 1) : ¬Available m (scanIndex pool.slotCount start (n + l)) := by
    cases l with
    | zero => exact busy
    | succ l => exact none l (by omega)
  rcases rest with ⟨failed, still, none⟩ | ⟨k, bounded, available, before, takes⟩
  · exact .inl ⟨failed, still, passed none⟩
  · exact .inr ⟨k + 1, by omega, available, passed before, takes⟩

/-- The whole scan, by induction on the rounds that are left. -/
theorem allocateScan_scanned
    (takes : ∀ i, i < pool.slotCount → Available m i →
      (allocateTry pool a epoch token i).wpsIn good (Guarded pool.lax)
        (fun tried m' => ∃ result, tried = some result ∧ taken i result m') m)
    {left : Nat} (few : left ≤ pool.slotCount) (n : Nat) :
    (allocateScan pool a epoch token start left n).wpsIn good (Guarded pool.lax)
      (Scanned pool taken start left n m) m := by
  induction left generalizing n with
  | zero => exact ⟨trivial, fun _ _ => .inl ⟨rfl, fun _ => rfl, nofun⟩⟩
  | succ left ih =>
    have inside : scanIndex pool.slotCount start n < pool.slotCount := scanIndex_lt (by omega)
    simp only [allocateScan]
    rw [wpsIn_bind]
    by_cases available : Available m (scanIndex pool.slotCount start n)
    · refine wpsIn_mono (takes _ inside available) ?_
      rintro _ m' ⟨result, rfl, ends⟩
      exact .inr ⟨0, by omega, available, nofun, ends⟩
    · refine wpsIn_mono (allocateTry_passes available) ?_
      rintro _ _ ⟨rfl, rfl⟩
      exact wpsIn_mono (ih (by omega) (n + 1)) fun _ _ rest => rest.later available

/-- What `buffer_allocate_internal` asks of its arguments. -/
def AllocateArgs.Legal (a : AllocateArgs) (pool : Pool) : Prop :=
  componentIdValid a.allocator = true ∧ (a.parentId = 0 ∨ bufferIdValid a.parentId = true) ∧
    (⟨a.offset, a.length⟩ : Region).Within pool.slotCapacity

theorem legal_iff : ¬(componentIdValid a.allocator = false ∨
    (a.parentId ≠ 0 ∧ bufferIdValid a.parentId = false) ∨ a.offset > pool.slotCapacity ∨
      a.length > pool.slotCapacity - a.offset) ↔ a.Legal pool := by
  simp only [AllocateArgs.Legal, Region.Within, not_or, not_and, Bool.not_eq_false, gt_iff_lt,
    Nat.not_lt, ne_eq, ← or_iff_not_imp_left]

theorem allocateInternal_refuses {ownerEpoch : Nat} (illegal : ¬a.Legal pool) :
    bufferAllocateInternal pool a ownerEpoch = pure (.invalidArgument, none) := by
  rw [bufferAllocateInternal, if_pos (not_not.mp (mt legal_iff.mp illegal))]

/-- `buffer_allocate_internal` with arguments that it accepts. -/
theorem allocateInternal_scanned {ownerEpoch : Nat} (legal : a.Legal pool)
    (takes : ∀ epoch token i, epoch = (if ownerEpoch ≠ 0 then ownerEpoch else m.epoch a.allocator) →
      i < pool.slotCount → Available m i →
      (allocateTry pool a epoch token i).wpsIn good (Guarded pool.lax)
        (fun tried m' => ∃ result, tried = some result ∧ taken i result m') m) :
    (bufferAllocateInternal pool a ownerEpoch).wpsIn good (Guarded pool.lax)
      (Scanned pool taken (m.allocationCursor % pool.slotCount) pool.slotCount 0 m) m := by
  simp only [bufferAllocateInternal, allocateEpoch]
  rw [if_neg (legal_iff.mpr legal), wpsIn_bind]
  refine wpsIn_ite (fun given => ?_) (fun missing => ?_)
  · refine ⟨trivial, fun _ _ => allocateScan_scanned (takes _ _ · ?_) le_rfl _⟩
    rw [if_pos given]
  · refine wpsIn_mono (registeredEpoch_alone pool.lax m a.allocator).within ?_
    rintro epoch _ ⟨rfl, rfl⟩
    refine ⟨trivial, fun _ _ => allocateScan_scanned (takes _ _ · ?_) le_rfl _⟩
    rw [if_neg missing]

end Rounds

/-! ## The call -/

section Allocate

variable {pool : Pool} {allocator parentId : Nat} {m : Mem}

/-- `zipc_buffer_allocate`, with arguments that it accepts. -/
theorem bufferAllocate_scanned (valid : componentIdValid allocator = true)
    (parent : parentId = 0 ∨ bufferIdValid parentId = true) :
    (bufferAllocate pool allocator parentId).wpsIn plentiful (Guarded pool.lax)
      (Scanned pool (Takes allocator · m) (m.allocationCursor % pool.slotCount) pool.slotCount 0 m)
      m := by
  have within : (⟨0, 0⟩ : Region).Within pool.slotCapacity := ⟨Nat.zero_le _, Nat.zero_le _⟩
  exact allocateInternal_scanned ⟨valid, parent, within⟩
    fun _ _ _ _ inside available => allocateTry_takes valid within inside available

/-- Without a wrap the rounds are the cyclic order, so the first one that finds a slot finds
the first slot. -/
theorem Scanned.first {start : Nat} {result : Status × Option View} {m' : Mem}
    (inside : start < pool.slotCount) (room : start + pool.slotCount ≤ u32)
    (scanned : Scanned pool (Takes allocator · m) start pool.slotCount 0 m result m') :
    (result.1 = .noBuffer → ∀ j, j < pool.slotCount → ¬Available m j) ∧
      ∀ j, FirstAvailable pool.slotCount start m j → Takes allocator j m result m' := by
  have cyclic {d : Nat} (bounded : d < pool.slotCount) :
      scanIndex pool.slotCount start (0 + d) = (start + d) % pool.slotCount := by
    rw [Nat.zero_add, scanIndex_cyclic (by omega)]
  rcases scanned with ⟨failed, _, none⟩ | ⟨k, bounded, available, before, takes⟩
  · refine ⟨fun _ j bounded => ?_, ?_⟩
    · obtain ⟨n, ⟨small, rfl⟩, _⟩ := (visitsOnce_iff inside pool.slotCount_lt).mpr room j bounded
      have := none n small
      rwa [Nat.zero_add] at this
    · rintro j ⟨d, small, rfl, available, _⟩
      rw [← cyclic small] at available
      exact absurd available (none d small)
  · obtain ⟨v, rfl, _⟩ := takes.returned
    refine ⟨nofun, ?_⟩
    rintro j ⟨d, small, rfl, found, earlier⟩
    have same : k = d := by
      by_contra other
      rcases Nat.lt_or_gt_of_ne other with early | late
      · rw [cyclic bounded] at available
        exact earlier k early available
      · rw [← cyclic small] at found
        exact before d late found
    rw [← cyclic small, ← same]
    exact takes

/-- A pool whose only free slot is `j`. -/
def onlyFree (cursor j : Nat) : Mem :=
  { (default : Mem) with
    allocationCursor := cursor
    slots := fun i => { formattedSlot with state := if i = j then .free else .owned } }

theorem onlyFree_available {cursor i j : Nat} : Available (onlyFree cursor j) i ↔ i = j := by
  simp only [Available, onlyFree, formattedSlot]
  split <;> simp_all

/-- A scan that does not reach the only free slot finds no buffer. -/
theorem onlyFree_missed {cursor j : Nat} (valid : componentIdValid allocator = true)
    (parent : parentId = 0 ∨ bufferIdValid parentId = true) (bounded : j < pool.slotCount)
    (missed : ∀ n, n < pool.slotCount → scanIndex pool.slotCount (cursor % pool.slotCount) n ≠ j) :
    ¬AllocatesFirst pool allocator parentId (onlyFree cursor j) := by
  intro first
  have run := runWith_completesIn (show plentiful default from ⟨rfl, nofun⟩)
    (bufferAllocate pool allocator parentId) (onlyFree cursor j)
  rcases run.sound (bufferAllocate_scanned valid parent) with
    ⟨failed, _⟩ | ⟨k, small, available, _⟩
  · exact (first _ _ run).1 (congrArg Prod.fst failed) j bounded (onlyFree_available.mpr rfl)
  · rw [onlyFree_available] at available
    exact missed (0 + k) (by omega) available

/-- The scan visits every slot once, and an allocation takes the first free slot whatever the
slots are, exactly when the last index of the scan does not wrap. -/
theorem allocation_scan_exact (pool : Pool) (positive : 1 ≤ pool.slotCount) (cursor : Nat)
    (allocator parentId : Nat) (valid : componentIdValid allocator = true)
    (parent : parentId = 0 ∨ bufferIdValid parentId = true) :
    (VisitsOnce pool.slotCount (cursor % pool.slotCount) ↔
      cursor % pool.slotCount + pool.slotCount ≤ u32) ∧
    ((∀ m : Mem, m.allocationCursor = cursor → AllocatesFirst pool allocator parentId m) ↔
      cursor % pool.slotCount + pool.slotCount ≤ u32) := by
  have inside : cursor % pool.slotCount < pool.slotCount := Nat.mod_lt _ positive
  refine ⟨visitsOnce_iff inside pool.slotCount_lt, ⟨fun all => ?_, ?_⟩⟩
  · by_contra overflow
    refine onlyFree_missed valid parent (j := cursor % pool.slotCount - 1) (by omega) ?_
      (all (onlyFree cursor (cursor % pool.slotCount - 1)) rfl)
    intro n bounded
    exact scanIndex_skips inside pool.slotCount_lt (by omega) bounded
  · rintro room m rfl result m' run
    exact (run.sound (bufferAllocate_scanned valid parent)).first inside room

/-- Two slots with the cursor at the second. -/
theorem allocation_scan_exact_small :
    (VisitsOnce 2 1 ↔ 1 + 2 ≤ u32) ∧
    ((∀ m : Mem, m.allocationCursor = 1 → AllocatesFirst smallPool 1 0 m) ↔ 1 + 2 ≤ u32) :=
  allocation_scan_exact smallPool (by decide) 1 1 0 (by decide) (.inl rfl)

/-- One slot more than half the range of an index. -/
def widePool : Pool :=
  { smallPool with slotCount := 2147483649, slotCount_lt := by decide, strict := false }

/-- With the cursor at the last of 2147483649 slots, the scan misses slot 2147483647: although
it is free, there is no buffer. -/
theorem allocation_scan_misses :
    ¬AllocatesFirst widePool 1 0 (onlyFree 2147483648 2147483647) ∧
      ¬VisitsOnce widePool.slotCount (2147483648 % widePool.slotCount) := by
  have start : 2147483648 % widePool.slotCount = 2147483648 := rfl
  have skips {n : Nat} (bounded : n < widePool.slotCount) :
      scanIndex widePool.slotCount 2147483648 n ≠ 2147483648 - 1 :=
    scanIndex_skips (by decide) (by decide) (by decide) bounded
  constructor
  · refine onlyFree_missed (by decide) (.inl rfl) (by decide) ?_
    rw [start]
    exact fun n bounded => skips bounded
  · rw [start, visitsOnce_iff (by decide) (by decide)]
    decide

end Allocate

end Zipc
