import Zipc.Session

/-! # The adoption scan when page protection works

`zipc_component_restart_next`, called again and again by the replacement of a terminated
runtime, visits the slots in order. It leaves the slots ahead of its cursor alone, adopts
every owned slot of the terminated runtime on its way with the region that the slot has,
and stops for good at one whose region does not lie inside the slot.
-/

namespace Zipc

open Atomic Program

/-- Page protection succeeds. -/
def sheltered : Env → Prop := fun e => e.protect = .ok

/-- The slot is owned by the terminated runtime. -/
def Restart.Holds (restart : Restart) (c : SlotCore) : Prop :=
  c.state = .owned ∧ c.ownerId = restart.component ∧ c.ownerEpoch = restart.deadEpoch

section Scan

variable {pool : Pool} {restart : Restart} {m : Mem} {i : Nat}

theorem not_unprotected (inside : i < pool.slotCount) : ¬Unprotected sheltered pool i := by
  rintro ⟨_, outside | ⟨e, works, fails⟩⟩
  · exact absurd outside (Nat.not_le.mpr inside)
  · exact fails works

/-- How a round of the scan ends. -/
def RoundEnds (pool : Pool) (restart : Restart) (i : Nat) (c : SlotCore) : RestartRound → Prop
  | .skip => ¬restart.Holds c
  | .fail status => status = .regionOverflow ∧ (c.state = .owned ∨ c.state = .claiming) ∧
      ¬c.region.Within pool.slotCapacity
  | .adopt v => v.slotId = i ∧ ⟨v.data, v.length⟩ = c.region ∧ c.region.Within pool.slotCapacity
  | .owned => False

theorem AdoptEnds.roundEnds {c c' : SlotCore} {round : RestartRound} {log : List TraceRecord}
    (inside : i < pool.slotCount) (owned : c.state = .owned)
    (ends : AdoptEnds sheltered pool m i restart c round c' log) :
    RoundEnds pool restart i c round := by
  obtain ⟨_, ⟨rfl, _, different⟩ | ⟨_, _, ends⟩⟩ := ends
  · exact fun holds => different holds.2
  rcases ends with ⟨_, _, _, unprotected, _⟩ | ⟨_, outside, rfl, _⟩ | ⟨_, within, _, rfl, rfl⟩
  · exact absurd unprotected (not_unprotected inside)
  · exact ⟨rfl, .inl owned, outside⟩
  · exact ⟨rfl, rfl, within⟩

theorem restartSlot_sheltered (inside : i < pool.slotCount) (settled : (m.core i).Settled pool) :
    (restartSlot pool restart i).wpsIn sheltered (Guarded pool) (fun round m' =>
      (∃ c log, Focus m i c log m') ∧ RoundEnds pool restart i (m.core i) round) m := by
  refine wpsIn_mono (restartSlot_focused settled m (.refl m i)) ?_
  rintro round m' ⟨c, log, focus, ends⟩
  refine ⟨⟨c, log, focus⟩, ?_⟩
  have idle (other : (m.core i).state ≠ .owned) : ¬restart.Holds (m.core i) :=
    fun holds => other holds.1
  cases state : (m.core i).state with
  | free | transfer | error =>
      simp only [RestartEnds, state] at ends
      obtain ⟨rfl, _, _⟩ := ends
      exact idle (by rw [state]; simp)
  | owned =>
      simp only [RestartEnds, state] at ends
      exact ends.roundEnds inside state
  | claiming =>
      simp only [RestartEnds, state] at ends
      have busy : ¬restart.Holds (m.core i) := idle (by rw [state]; simp)
      rcases ends with ⟨rfl, _⟩ | ⟨_, ends⟩
      · exact busy
      have repaired := ends.roundEnds inside rfl
      cases round with
      | skip => exact busy
      | fail status => exact ⟨repaired.1, .inr state, repaired.2.2⟩
      | adopt v => exact repaired
      | owned => exact repaired

/-- How a call of `zipc_component_restart_next` ends. -/
inductive NextEnds (pool : Pool) (restart : Restart) (m : Mem) :
    Status × Restart × Option View → Mem → Prop where
  /-- No slot of the terminated runtime is left. -/
  | finished {m' : Mem} {cursor : Nat} :
      (∀ j, restart.cursor ≤ j → j < pool.slotCount → ¬restart.Holds (m.core j)) →
      NextEnds pool restart m
        (.noBuffer, { restart with cursor, scanComplete := true }, none) m'
  /-- The buffer in slot `k` was adopted. -/
  | adopted {m' : Mem} {k : Nat} {v : View} : restart.cursor ≤ k → k < pool.slotCount →
      (∀ j, restart.cursor ≤ j → j < k → ¬restart.Holds (m.core j)) → v.slotId = k →
      ⟨v.data, v.length⟩ = (m.core k).region → (m.core k).region.Within pool.slotCapacity →
      (∀ j, k < j → m'.core j = m.core j) →
      NextEnds pool restart m (.ok, { restart with cursor := k + 1 }, some v) m'
  /-- The region in slot `k` does not lie inside the slot. -/
  | stuck {m' : Mem} {k : Nat} {restart' : Restart} : restart.cursor ≤ k → k < pool.slotCount →
      ((m.core k).state = .owned ∨ (m.core k).state = .claiming) →
      ¬(m.core k).region.Within pool.slotCapacity →
      NextEnds pool restart m (.regionOverflow, restart', none) m'

theorem restartScan_sheltered (left : Nat) : ∀ (restart : Restart) (m : Mem),
    left = pool.slotCount - restart.cursor →
    (∀ j, restart.cursor ≤ j → j < pool.slotCount → (m.core j).Settled pool) →
    (restartScan pool left restart).wpsIn sheltered (Guarded pool) (fun result m' =>
      (∀ k, (m'.components k).lifecycle = (m.components k).lifecycle) ∧
        NextEnds pool restart m result m') m := by
  induction left with
  | zero =>
      intro restart m done _
      exact ⟨fun _ => rfl, .finished fun j above inside => by omega⟩
  | succ left ih =>
      intro restart m below settled
      have inside : restart.cursor < pool.slotCount := by omega
      simp only [restartScan]
      rw [wpsIn_bind]
      refine wpsIn_mono (restartSlot_sheltered inside (settled _ le_rfl inside)) ?_
      rintro round a ⟨⟨c, log, focus⟩, ends⟩
      have ahead (j : Nat) (above : restart.cursor < j) : a.core j = m.core j :=
        focus.others j (by omega)
      cases round with
      | fail status =>
          obtain ⟨rfl, state, outside⟩ := ends
          exact ⟨focus.lifecycle, .stuck le_rfl inside state outside⟩
      | adopt v =>
          obtain ⟨slot, region, within⟩ := ends
          exact ⟨focus.lifecycle, .adopted le_rfl inside (fun j above low => by omega) slot region
            within ahead⟩
      | owned => exact ends.elim
      | skip =>
          have rest := ih { restart with cursor := restart.cursor + 1 } a (by simp only; omega)
            (fun j above low => by
              rw [ahead j (by simp only at above; omega)]
              exact settled j (by simp only at above; omega) low)
          refine wpsIn_mono rest ?_
          rintro result m' ⟨lifecycle, found⟩
          refine ⟨fun k => (lifecycle k).trans (focus.lifecycle k), ?_⟩
          have clear (j : Nat) (above : restart.cursor ≤ j)
              (later : restart.cursor < j → ¬restart.Holds (a.core j)) :
              ¬restart.Holds (m.core j) := by
            by_cases here : j = restart.cursor
            · exact here ▸ ends
            · rw [← ahead j (by omega)]
              exact later (by omega)
          cases found with
          | finished none =>
              exact .finished fun j above low => clear j above fun strict => none j strict low
          | @adopted _ k _ above low none slot region within kept =>
              have strict : restart.cursor < k := above
              rw [ahead k strict] at region within
              refine .adopted (by omega) low (fun j before low' => ?_) slot region within
                (fun j after => ?_)
              · exact clear j before fun strict => none j strict low'
              · rw [kept j after, ahead j (by omega)]
          | @stuck _ k _ above low state outside =>
              have strict : restart.cursor < k := above
              rw [ahead k strict] at state outside
              exact .stuck (by omega) low state outside

theorem epochRecovering_true (sound : RestartWell restart) (active : Restarting m restart) :
    (componentEpochRecovering restart.component restart.epoch).wps (Guarded pool)
      (fun recovering m' => m' = m ∧ recovering = true) m := by
  simp only [componentEpochRecovering]
  rw [if_neg (by simp [sound.valid, sound.epoch])]
  exact ⟨trivial, fun _ => ⟨rfl, decide_eq_true active⟩⟩

/-- One call, from a memory in which the restart is under way. -/
theorem componentRestartNext_sheltered (sound : RestartWell restart) (active : Restarting m restart)
    (settled : ∀ j, restart.cursor ≤ j → j < pool.slotCount → (m.core j).Settled pool) :
    (componentRestartNext pool restart).wpsIn sheltered (Guarded pool) (fun result m' =>
      (∀ k, (m'.components k).lifecycle = (m.components k).lifecycle) ∧
        NextEnds pool restart m result m') m := by
  simp only [componentRestartNext]
  rw [wpsIn_bind]
  refine wpsIn_mono (epochRecovering_true sound active).within ?_
  rintro recovering m ⟨rfl, rfl⟩
  have small : restart.deadEpoch + 1 < u32 := sound.epoch ▸ sound.small
  rw [if_neg (by simp [sound.epoch, Nat.mod_eq_of_lt small])]
  exact restartScan_sheltered _ restart m rfl settled

/-- A restart whose scan is over can be finished. -/
theorem componentRestartFinish_ok (pool : Pool) (sound : RestartWell restart)
    (active : Restarting m restart) (complete : restart.scanComplete = true) :
    (componentRestartFinish restart).wps (Guarded pool) (fun status _ => status = .ok) m := by
  have small : restart.deadEpoch + 1 < u32 := sound.epoch ▸ sound.small
  simp only [componentRestartFinish]
  rw [if_neg (by simp [complete, sound.epoch, Nat.mod_eq_of_lt small]), wps_bind]
  refine wps_mono (epochRecovering_true sound active) ?_
  rintro recovering m ⟨rfl, rfl⟩
  rw [if_neg (by decide)]
  refine ⟨trivial, fun e => ?_⟩
  rw [Restarting] at active
  simp only [exec_eq, Act.exec, active, Bool.false_and, and_self, if_true]
  exact ⟨trivial, fun _ => ⟨trivial, fun _ => rfl⟩⟩

end Scan

/-! ## The begin of a restart -/

section Begin

variable {pool : Pool} {m : Mem} {component deadEpoch : Nat}

/-- The lifecycle word allows a restart from the epoch. -/
structure Restartable (m : Mem) (component deadEpoch : Nat) : Prop where
  valid : componentIdValid component = true
  dead : deadEpoch ≠ 0
  below : deadEpoch ≠ u32 - 1
  epoch : componentLifecycleEpoch (m.components component).lifecycle = deadEpoch
  state : componentLifecycleState (m.components component).lifecycle ≠
    ComponentState.recovering.toNat

/-- What a restart that has begun leaves. -/
def Begins (m : Mem) (component deadEpoch : Nat) (restart : Restart) (m' : Mem) : Prop :=
  Restartable m component deadEpoch ∧ RestartWell restart ∧ restart.component = component ∧
    restart.deadEpoch = deadEpoch ∧ restart.cursor = 0 ∧ Restarting m' restart ∧
    ∀ j, m'.core j = m.core j

theorem restartBeginLoop_begins (valid : componentIdValid component = true) (dead : deadEpoch ≠ 0)
    (below : deadEpoch ≠ u32 - 1) (fuel : Nat) : ∀ current : Nat,
      (restartBeginLoop component deadEpoch fuel current).wps (Guarded pool)
        (fun result m' => ∀ restart, result = some (.ok restart) →
          Begins m component deadEpoch restart m') m := by
  induction fuel with
  | zero => exact fun _ _ done => by cases done
  | succ fuel ih =>
      intro current
      simp only [restartBeginLoop]
      refine wps_ite (fun _ _ done => by cases done) (fun dies => ⟨trivial, fun e => ?_⟩)
      simp only [not_or, not_not] at dies
      have small : deadEpoch < u32 := dies.1 ▸ Nat.mod_lt _ (by decide)
      simp only [exec_eq, Act.exec]
      split
      · rename_i found
        refine ⟨trivial, fun _ => ⟨trivial, fun _ => ?_⟩⟩
        rintro restart ⟨⟩
        refine ⟨⟨valid, dead, below, ?_, ?_⟩, ⟨valid, dead, rfl, by simp only; omega⟩, rfl, rfl, rfl,
          ?_, fun _ => rfl⟩
        · rw [found.1]
          exact dies.1
        · rw [found.1]
          exact dies.2
        · simp [Restarting, exec_eq, Act.exec, Mem.setComponent]
      · exact ih _

theorem componentRestartBegin_begins (pool : Pool) (fuel : Nat) :
    (componentRestartBegin fuel component deadEpoch).wps (Guarded pool)
      (fun result m' => ∀ restart, result = some (.ok restart) →
        Begins m component deadEpoch restart m') m := by
  simp only [componentRestartBegin]
  refine wps_ite (fun _ _ done => by cases done) (fun legal => wps_ite (fun _ _ done => by cases done) (fun below => ?_))
  rw [not_or, Bool.not_eq_false] at legal
  exact ⟨trivial, fun _ => restartBeginLoop_begins legal.1 legal.2 below fuel _⟩

/-- A restart that the lifecycle allows can begin. -/
theorem Restartable.begins (can : Restartable m component deadEpoch) :
    ∃ restart m', Completes (componentRestartBegin 1 component deadEpoch) m
      (some (.ok restart)) m' := by
  have passes : ¬(componentLifecycleEpoch (m.components component).lifecycle ≠ deadEpoch ∨
      componentLifecycleState (m.components component).lifecycle =
        ComponentState.recovering.toNat) := by
    simp [can.epoch, can.state]
  obtain ⟨m₁, exchanged⟩ : ∃ m₁, (Act.casLifecycle true component (m.components component).lifecycle
      (componentLifecycleMake (deadEpoch + 1) .recovering)).exec default m =
      ((true, (m.components component).lifecycle), m₁) :=
    ⟨_, if_pos ⟨rfl, rfl⟩⟩
  simp only [componentRestartBegin]
  rw [if_neg (by simp [can.valid, can.dead]), if_neg can.below]
  refine ⟨⟨component, deadEpoch, deadEpoch + 1, 0, false⟩,
    ((Act.storeHeartbeat component m₁.clock).exec default m₁).2, .act default ?_⟩
  change Completes (restartBeginLoop component deadEpoch 1 (m.components component).lifecycle) m _ _
  simp only [restartBeginLoop]
  rw [if_neg passes]
  refine .act default ?_
  rw [exec_eq, exchanged]
  exact .act default (.act default (.done _ _))

end Begin

/-- Calls of `zipc_component_restart_next` that return OK, with the adopted buffers. -/
inductive Adoptions (pool : Pool) (restart : Restart) (m : Mem) :
    List View → Restart → Mem → Prop where
  | none : Adoptions pool restart m [] restart m
  | next {views : List View} {r r' : Restart} {a b : Mem} {v : View} :
      Adoptions pool restart m views r a →
      CompletesIn sheltered (componentRestartNext pool r) a (.ok, r', some v) b →
      Adoptions pool restart m (views ++ [v]) r' b

section Progress

variable {pool : Pool} {restart r : Restart} {m a : Mem} {views : List View}

/-- How far the scan has come. -/
structure Progress (pool : Pool) (restart : Restart) (m : Mem) (views : List View) (r : Restart)
    (a : Mem) : Prop where
  same : r = { restart with cursor := r.cursor }
  count : views.length ≤ r.cursor
  inside : r.cursor ≤ pool.slotCount
  lifecycle : ∀ k, (a.components k).lifecycle = (m.components k).lifecycle
  ahead : ∀ j, r.cursor ≤ j → a.core j = m.core j
  regions : ∀ v, v ∈ views → ⟨v.data, v.length⟩ = (m.core v.slotId).region ∧
    (m.core v.slotId).region.Within pool.slotCapacity
  passed : ∀ j, j < r.cursor → restart.Holds (m.core j) → ∃ v, v ∈ views ∧ v.slotId = j

theorem Progress.sound (progress : Progress pool restart m views r a) (sound : RestartWell restart) :
    RestartWell r := by
  rw [progress.same]
  exact ⟨sound.valid, sound.dead, sound.epoch, sound.small⟩

theorem Progress.active (progress : Progress pool restart m views r a)
    (active : Restarting m restart) : Restarting a r := by
  rw [progress.same]
  exact (progress.lifecycle _).trans active

theorem Progress.settled (progress : Progress pool restart m views r a)
    (settled : ∀ j, j < pool.slotCount → (m.core j).Settled pool) (j : Nat) (above : r.cursor ≤ j)
    (low : j < pool.slotCount) : (a.core j).Settled pool := by
  rw [progress.ahead j above]
  exact settled j low

theorem Progress.ends (progress : Progress pool restart m views r a) (sound : RestartWell restart)
    (active : Restarting m restart) (settled : ∀ j, j < pool.slotCount → (m.core j).Settled pool)
    {result : Status × Restart × Option View} {b : Mem}
    (run : CompletesIn sheltered (componentRestartNext pool r) a result b) :
    (∀ k, (b.components k).lifecycle = (a.components k).lifecycle) ∧ NextEnds pool r a result b :=
  run.sound (componentRestartNext_sheltered (progress.sound sound) (progress.active active)
    (progress.settled settled))

theorem Adoptions.progress (adoptions : Adoptions pool restart m views r a)
    (zero : restart.cursor = 0) (sound : RestartWell restart) (active : Restarting m restart)
    (settled : ∀ j, j < pool.slotCount → (m.core j).Settled pool) :
    Progress pool restart m views r a := by
  induction adoptions with
  | none =>
      refine ⟨rfl, Nat.zero_le _, by omega, fun _ => rfl, fun _ _ => rfl, nofun, ?_⟩
      intro j low
      omega
  | @next views r r' a b v _ run ih =>
      obtain ⟨lifecycle, ends⟩ := ih.ends sound active settled run
      cases ends with
      | @adopted _ k _ above low none slot region within kept =>
          have here := ih.ahead k above
          rw [here] at region within
          refine ⟨?_, ?_, low, fun j => (lifecycle j).trans (ih.lifecycle j), ?_, ?_, ?_⟩
          · rw [ih.same]
          · have count := ih.count
            simp only [List.length_append, List.length_singleton]
            omega
          · intro j after
            rw [kept j after]
            exact ih.ahead j (by simp only at after; omega)
          · intro w known
            rcases List.mem_append.mp known with old | new
            · exact ih.regions w old
            · rw [List.mem_singleton.mp new, slot]
              exact ⟨region, within⟩
          · intro j before holds
            by_cases old : j < r.cursor
            · obtain ⟨w, known, found⟩ := ih.passed j old holds
              exact ⟨w, List.mem_append_left _ known, found⟩
            by_cases last : j = k
            · exact ⟨v, List.mem_append_right _ (List.mem_singleton.mpr rfl), slot.trans last.symm⟩
            · refine absurd ?_ (none j (by omega) (by simp only at before; omega))
              rw [ih.ahead j (by omega), ih.same]
              exact holds

end Progress

end Zipc
