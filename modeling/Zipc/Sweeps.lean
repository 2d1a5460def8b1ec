import Zipc.Adoption
import Zipc.Scan

/-! # The administrative sweeps

`zipc_pool_recover_owner` and `zipc_pool_recover_claiming` look at the state word of every
slot of a quiesced pool. What they do to a slot depends on nothing else than this slot, so
they are described here for any memory that a death may have left. Neither of them looks at
the token of a slot that is `FREE`, and the first leaves the token of the slots that it frees.
-/

namespace Zipc

open Atomic Program

/-- The slot belongs to the terminated runtime. -/
def SlotCore.Abandoned (component deadEpoch : Nat) (c : SlotCore) : Prop :=
  (c.state = .owned ∨ c.state = .transfer) ∧ c.ownerId = component ∧ c.ownerEpoch = deadEpoch

/-- What the sweep of an owner does to a slot. -/
structure OwnerSwept (component deadEpoch : Nat) (c c' : SlotCore) : Prop where
  freed : c.Abandoned component deadEpoch → c'.state = .free ∧ c'.claimToken = c.claimToken
  kept : ¬c.Abandoned component deadEpoch → c' = c

/-- What the sweep of abandoned claims does to a slot. -/
structure ClaimsSwept (c c' : SlotCore) : Prop where
  freed : c.state = .claiming → c'.state = .free ∧ c'.claimToken = 0
  kept : c.state ≠ .claiming → c' = c

/-- The slots from `first` on, `left` of them, were swept, and the others not. -/
def SweptRange (swept : SlotCore → SlotCore → Prop) (first left : Nat) (m m' : Mem) : Prop :=
  ∀ j, (first ≤ j ∧ j < first + left → swept (m.core j) (m'.core j)) ∧
    (¬(first ≤ j ∧ j < first + left) → m'.core j = m.core j)

theorem SweptRange.cons {swept : SlotCore → SlotCore → Prop} {i left : Nat} {m a m' : Mem}
    {c : SlotCore} {log : List TraceRecord} (focus : Focus m i c log a) (here : swept (m.core i) c)
    (rest : SweptRange swept (i + 1) left a m') : SweptRange swept i (left + 1) m m' := by
  intro j
  obtain ⟨within, outside⟩ := rest j
  by_cases first : j = i
  · subst first
    refine ⟨fun _ => ?_, fun far => by omega⟩
    rw [outside (by omega), focus.core]
    exact here
  · rw [focus.others j first] at within outside
    exact ⟨fun near => within (by omega), fun far => outside (by omega)⟩

section Sweeps

variable {pool : Pool}

theorem recoverOwnerScan_sweeps (component deadEpoch time left : Nat) :
    ∀ (i : Nat) (m : Mem) (result : RecoveryResult),
      (recoverOwnerScan pool component deadEpoch 0 time left i result).wps (Guarded pool.lax)
        (fun ended m' => ended.1 = .ok →
          SweptRange (OwnerSwept component deadEpoch) i left m m') m := by
  induction left with
  | zero => exact fun _ m _ _ j => ⟨fun inside => by omega, fun _ => rfl⟩
  | succ left ih =>
      intro i m result
      have onward {m' : Mem} {c : SlotCore} {log : List TraceRecord} (focus : Focus m i c log m')
          (swept : OwnerSwept component deadEpoch (m.core i) c) (result : RecoveryResult) :
          (recoverOwnerScan pool component deadEpoch 0 time left (i + 1) result).wpsIn anyEnv
            (Guarded pool.lax) (fun ended m'' => ended.1 = .ok →
              SweptRange (OwnerSwept component deadEpoch) i (left + 1) m m'') m' :=
        (wps_mono (ih (i + 1) m' result) fun _ _ rest done => (rest done).cons focus swept).within
      suffices run : FocusedOn anyEnv pool.lax m i
          (recoverOwnerScan pool component deadEpoch 0 time (left + 1) i result)
          (fun ended m'' => ended.1 = .ok →
            SweptRange (OwnerSwept component deadEpoch) i (left + 1) m m'') (m.core i) [] from
        (run m (.refl m i)).all fun _ => trivial
      simp only [recoverOwnerScan, lift_bind]
      refine focused_loadState ?_
      split
      · rename_i other
        refine fun m' focus => onward focus ⟨fun abandoned => ?_, fun _ => rfl⟩ result
        rcases abandoned.1 with owned | sent
        · exact absurd owned other.1
        · exact absurd sent other.2
      rename_i live
      have busy : (m.core i).state ≠ .free := by
        intro free
        simp [free] at live
      refine focused_casState (by decide) (fun _ => ?_) (fun lost => absurd rfl lost)
      rw [if_neg (by decide)]
      apply focused_bind
      refine (recoverProbed_focused pool.lax_guards rfl (fun _ strict => pool.lax_guards strict) busy).mono ?_
      rintro probed c log ⟨quiet, ⟨rfl, ⟨newer, rfl⟩, other⟩ | ⟨status, rfl, failed, _, rfl⟩ | freed⟩
      · refine fun m' focus => onward focus ⟨fun abandoned => ?_, fun _ => rfl⟩ _
        exact absurd abandoned.2 (other rfl)
      · exact fun m' focus done => absurd done failed
      · obtain ⟨rfl, own, epoch, closed, access, rfl⟩ := freed
        refine fun m' focus => onward focus ⟨fun _ => ⟨rfl, rfl⟩, fun kept => ?_⟩ _
        refine absurd ⟨?_, own, epoch⟩ kept
        by_contra neither
        rw [not_or] at neither
        exact live neither

theorem poolRecoverOwner_sweeps (component deadEpoch : Nat) (m : Mem) :
    (poolRecoverOwner pool component deadEpoch 0).wps (Guarded pool.lax)
      (fun ended m' => ended.1 = .ok → ∀ j, j < pool.slotCount →
        OwnerSwept component deadEpoch (m.core j) (m'.core j)) m := by
  simp only [poolRecoverOwner, lift_bind]
  refine wps_ite (fun _ done => by cases done) (fun _ => ⟨trivial, fun _ => ?_⟩)
  refine wps_ite (fun _ done => by cases done) (fun _ => ⟨trivial, fun _ => ?_⟩)
  refine wps_mono (recoverOwnerScan_sweeps component deadEpoch _ pool.slotCount 0 m _) ?_
  exact fun ended m' swept done j inside => (swept done j).1 (by omega)

theorem recoverClaimingScan_sweeps (left : Nat) :
    ∀ (i : Nat) (m : Mem) (recovered : Nat),
      (recoverClaimingScan pool left i recovered).wps (Guarded pool.lax)
        (fun ended m' => ended.1 = .ok → SweptRange ClaimsSwept i left m m') m := by
  induction left with
  | zero => exact fun _ m _ _ j => ⟨fun inside => by omega, fun _ => rfl⟩
  | succ left ih =>
      intro i m recovered
      have onward {m' : Mem} {c : SlotCore} {log : List TraceRecord} (focus : Focus m i c log m')
          (swept : ClaimsSwept (m.core i) c) (recovered : Nat) :
          (recoverClaimingScan pool left (i + 1) recovered).wpsIn anyEnv (Guarded pool.lax)
            (fun ended m'' => ended.1 = .ok → SweptRange ClaimsSwept i (left + 1) m m'') m' :=
        (wps_mono (ih (i + 1) m' recovered) fun _ _ rest done => (rest done).cons focus swept).within
      suffices run : FocusedOn anyEnv pool.lax m i (recoverClaimingScan pool (left + 1) i recovered)
          (fun ended m'' => ended.1 = .ok → SweptRange ClaimsSwept i (left + 1) m m'')
          (m.core i) [] from
        (run m (.refl m i)).all fun _ => trivial
      simp only [recoverClaimingScan, lift_bind]
      refine focused_loadState ?_
      split
      · rename_i other
        exact fun m' focus =>
          onward focus ⟨fun claiming => absurd claiming other, fun _ => rfl⟩ recovered
      rename_i claiming
      rw [not_not] at claiming
      refine focused_casState (by decide) (fun _ => ?_) (fun lost => absurd claiming lost)
      rw [if_neg (by decide)]
      refine focused_protectSlot (fun status failed _ => ?_) (fun access closed => ?_)
      · rw [if_pos failed]
        exact focused_storeState (by simp) fun m' focus done => absurd done failed
      rw [if_neg (not_not_intro rfl)]
      refine focused_writeAll ?_
      simp only [SlotCore.applyAll, recoverClaimingFields, List.foldl_cons, List.foldl_nil,
        SlotWrite.applyCore]
      refine focused_storeToken (focused_storeState (fun _ strict => pool.lax_guards strict) ?_)
      refine focused_count (focused_now (focused_hook fun m' focus => ?_))
      exact onward focus ⟨fun _ => ⟨rfl, rfl⟩, fun other => absurd claiming other⟩ _

theorem poolRecoverClaiming_sweeps (m : Mem) :
    (poolRecoverClaiming pool).wps (Guarded pool.lax)
      (fun ended m' => ended.1 = .ok → ∀ j, j < pool.slotCount →
        ClaimsSwept (m.core j) (m'.core j)) m := by
  refine wps_mono (recoverClaimingScan_sweeps pool.slotCount 0 m 0) ?_
  exact fun ended m' swept done j inside => (swept done j).1 (by omega)

end Sweeps

/-! ## Both sweeps -/

/-- Both sweeps have returned OK, in either order. -/
inductive Swept (pool : Pool) (component deadEpoch : Nat) (m m' : Mem) : Prop where
  | claimsFirst {a : Mem} {n : Nat} {result : RecoveryResult} :
      Completes (poolRecoverClaiming pool) m (.ok, n) a →
      Completes (poolRecoverOwner pool component deadEpoch 0) a (.ok, result) m' →
      Swept pool component deadEpoch m m'
  | ownerFirst {a : Mem} {n : Nat} {result : RecoveryResult} :
      Completes (poolRecoverOwner pool component deadEpoch 0) m (.ok, result) a →
      Completes (poolRecoverClaiming pool) a (.ok, n) m' →
      Swept pool component deadEpoch m m'

/-- What both sweeps together do to a slot. -/
structure SlotSwept (component deadEpoch : Nat) (c c' : SlotCore) : Prop where
  claimed : c.state = .claiming → c'.state = .free ∧ c'.claimToken = 0
  abandoned : c.Abandoned component deadEpoch → c'.state = .free ∧ c'.claimToken = c.claimToken
  kept : c.state ≠ .claiming → ¬c.Abandoned component deadEpoch → c' = c

theorem SlotCore.Abandoned.not_claiming {component deadEpoch : Nat} {c : SlotCore}
    (abandoned : c.Abandoned component deadEpoch) : c.state ≠ .claiming := by
  rcases abandoned.1 with state | state <;> rw [state] <;> nofun

theorem SlotCore.not_abandoned {component deadEpoch : Nat} {c : SlotCore} (free : c.state = .free) :
    ¬c.Abandoned component deadEpoch := by
  rintro ⟨owned | sent, _⟩
  · rw [free] at owned
    cases owned
  · rw [free] at sent
    cases sent

theorem Swept.slot {pool : Pool} {component deadEpoch : Nat} {m m' : Mem}
    (swept : Swept pool component deadEpoch m m') {i : Nat} (inside : i < pool.slotCount) :
    SlotSwept component deadEpoch (m.core i) (m'.core i) := by
  cases swept with
  | @claimsFirst a n result claims owner =>
      have first := claims.sound (poolRecoverClaiming_sweeps m).wp rfl i inside
      have second := owner.sound (poolRecoverOwner_sweeps component deadEpoch a).wp rfl i inside
      refine ⟨fun claiming => ?_, fun abandoned => ?_, fun other foreign => ?_⟩
      · obtain ⟨free, zero⟩ := first.freed claiming
        rw [second.kept (SlotCore.not_abandoned free)]
        exact ⟨free, zero⟩
      · have same := first.kept abandoned.not_claiming
        rw [← same] at abandoned ⊢
        exact second.freed abandoned
      · have same := first.kept other
        rw [← same] at foreign
        exact (second.kept foreign).trans same
  | @ownerFirst a n result owner claims =>
      have first := owner.sound (poolRecoverOwner_sweeps component deadEpoch m).wp rfl i inside
      have second := claims.sound (poolRecoverClaiming_sweeps a).wp rfl i inside
      refine ⟨fun claiming => ?_, fun abandoned => ?_, fun other foreign => ?_⟩
      · have foreign : ¬(m.core i).Abandoned component deadEpoch :=
          fun abandoned => abandoned.not_claiming claiming
        have same := first.kept foreign
        rw [← same] at claiming
        exact second.freed claiming
      · obtain ⟨free, token⟩ := first.freed abandoned
        rw [second.kept (by rw [free]; nofun)]
        exact ⟨free, token⟩
      · have same := first.kept foreign
        rw [← same] at other
        exact (second.kept other).trans same

/-! ## Allocations afterwards -/

/-- No free slot carries a token. -/
def Vacant (pool : Pool) (m : Mem) : Prop :=
  ∀ i, i < pool.slotCount → (m.core i).state = .free → (m.core i).claimToken = 0

/-- How an allocation ends that looks at the slots in `seen`. -/
inductive Obtains (pool : Pool) (seen : Nat → Prop) (m : Mem) : Status × Option View → Mem → Prop where
  | slot {v : View} {m' : Mem} : v.slotId < pool.slotCount → (m.core v.slotId).state = .free →
      (m'.core v.slotId).state = .owned → (∀ j, j ≠ v.slotId → m'.core j = m.core j) →
      Obtains pool seen m (.ok, some v) m'
  | nothing {m' : Mem} : (∀ j, m'.core j = m.core j) →
      (∀ i, seen i → (m.core i).state ≠ .free) → Obtains pool seen m (.noBuffer, none) m'

section Allocations

variable {pool : Pool} {m : Mem}

theorem Vacant.available_iff (vacant : Vacant pool m) {i : Nat} (inside : i < pool.slotCount) :
    Available m i ↔ (m.core i).state = .free :=
  ⟨fun available => available.1, fun free => ⟨free, vacant i inside free⟩⟩

/-- One allocation gets a free slot as long as there is one. -/
theorem bufferAllocate_obtains {allocator : Nat} (small : 2 * pool.slotCount ≤ u32)
    (valid : componentIdValid allocator = true) (vacant : Vacant pool m) :
    (bufferAllocate pool allocator 0).wpsIn plentiful (Guarded pool.lax)
      (Obtains pool (fun i => i < pool.slotCount) m) m := by
  refine wpsIn_mono (bufferAllocate_scanned valid (.inl rfl)) ?_
  rintro result m' (⟨rfl, still, none⟩ | ⟨k, bounded, available, _, takes⟩)
  · refine .nothing still fun i inside free => ?_
    have start : m.allocationCursor % pool.slotCount < pool.slotCount := Nat.mod_lt _ (by omega)
    have once := (visitsOnce_iff start pool.slotCount_lt).mpr (by omega)
    obtain ⟨n, ⟨round, rfl⟩, _⟩ := once i inside
    rw [← vacant.available_iff inside, ← Nat.zero_add n] at free
    exact none n round free
  · obtain ⟨v, rfl, same⟩ := takes.returned
    rw [← same] at takes available
    refine .slot ?_ available.1 takes.state takes.others
    rw [same]
    exact scanIndex_lt (by omega)

end Allocations

/-- Allocations by one component, one after the other, with the buffers that it gets. -/
inductive Allocations (pool : Pool) (allocator : Nat) (m : Mem) : Nat → List View → Mem → Prop where
  | none : Allocations pool allocator m 0 [] m
  | next {n : Nat} {views : List View} {status : Status} {w : Option View} {a b : Mem} :
      Allocations pool allocator m n views a →
      CompletesIn plentiful (bufferAllocate pool allocator 0) a (status, w) b →
      Allocations pool allocator m (n + 1) (views ++ w.toList) b

/-- The free slots of the pool. -/
def Mem.freeSlots (m : Mem) (pool : Pool) : Finset Nat :=
  (Finset.range pool.slotCount).filter fun i => (m.core i).state = .free

section Sequence

variable {pool : Pool} {allocator n : Nat} {m a : Mem} {views : List View}

/-- Every allocation takes a free slot away, until none is left. -/
theorem Allocations.progress (allocations : Allocations pool allocator m n views a)
    (small : 2 * pool.slotCount ≤ u32) (valid : componentIdValid allocator = true)
    (vacant : Vacant pool m) :
    Vacant pool a ∧ (a.freeSlots pool).card ≤ pool.slotCount - n ∧
      ∀ i, i < pool.slotCount → (m.core i).state = .free →
        (a.core i).state = .free ∨ ∃ v, v ∈ views ∧ v.slotId = i := by
  induction allocations with
  | none =>
      refine ⟨vacant, ?_, fun i _ free => .inl free⟩
      exact (Finset.card_filter_le _ _).trans (by simp)
  | @next n views status w a b _ run ih =>
      obtain ⟨vacant, few, got⟩ := ih
      have ends := run.sound (bufferAllocate_obtains small valid vacant)
      cases ends with
      | @slot v _ low free owned others =>
          have away : ¬(b.core v.slotId).state = .free := by rw [owned]; nofun
          refine ⟨fun i inside state => ?_, ?_, fun i inside state => ?_⟩
          · have other : i ≠ v.slotId := fun same => away (same ▸ state)
            rw [others i other] at state ⊢
            exact vacant i inside state
          · have smaller : (b.freeSlots pool).card < (a.freeSlots pool).card := by
              refine Finset.card_lt_card (Finset.ssubset_iff_of_subset ?_ |>.mpr ⟨v.slotId, ?_, ?_⟩)
              · intro i known
                obtain ⟨inside, state⟩ := Finset.mem_filter.mp known
                have other : i ≠ v.slotId := fun same => away (same ▸ state)
                rw [others i other] at state
                exact Finset.mem_filter.mpr ⟨inside, state⟩
              · exact Finset.mem_filter.mpr ⟨Finset.mem_range.mpr low, free⟩
              · exact fun known => away (Finset.mem_filter.mp known).2
            omega
          · rcases got i inside state with still | ⟨u, known, here⟩
            · by_cases same : i = v.slotId
              · exact .inr ⟨v, List.mem_append_right _ (by simp), same.symm⟩
              · rw [others i same]
                exact .inl still
            · exact .inr ⟨u, List.mem_append_left _ known, here⟩
      | nothing others busy =>
          have empty : b.freeSlots pool = ∅ := by
            refine Finset.filter_eq_empty_iff.mpr fun i known free => ?_
            rw [others i] at free
            exact busy i (Finset.mem_range.mp known) free
          refine ⟨fun i inside state => ?_, by simp [empty], fun i inside state => ?_⟩
          · rw [others i] at state ⊢
            exact vacant i inside state
          · rw [others i, Option.toList_none, List.append_nil]
            exact got i inside state

end Sequence

/-! ## Completeness -/

/-- After both sweeps a slot is free, or it is as it was: neither claimed nor abandoned. -/
theorem SlotSwept.cases {component deadEpoch : Nat} {c c' : SlotCore}
    (swept : SlotSwept component deadEpoch c c') :
    c'.state = .free ∨ c' = c ∧ c.state ≠ .claiming ∧ ¬c.Abandoned component deadEpoch := by
  by_cases claiming : c.state = .claiming
  · exact .inl (swept.claimed claiming).1
  by_cases abandoned : c.Abandoned component deadEpoch
  · exact .inl (swept.abandoned abandoned).1
  · exact .inr ⟨swept.kept claiming abandoned, claiming, abandoned⟩

end Zipc
