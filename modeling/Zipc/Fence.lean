import Zipc.Session

/-! # Stale buffers

A buffer is stale when the epoch of its owner is over, when its slot was freed, or when
the slot has a new generation. Along a run in which no generation wraps it stays stale,
and every call through it fails and leaves the memory as it is.
-/

namespace Zipc

open Atomic Program

/-- The buffer's epoch is over, or its allocation was freed or adopted. -/
def Stale (m : Mem) (v : View) : Prop :=
  v.ownerEpoch < componentLifecycleEpoch (m.components v.owner).lifecycle ∨
    (m.core v.slotId).state = .free ∨ (m.core v.slotId).generation ≠ handleGeneration v.handle

/-- No generation wraps in the step. -/
def Unwrapped (pool : Pool) (s s' : Session) : Prop :=
  ∀ i, i < pool.slotCount → (s.mem.core i).generation ≤ (s'.mem.core i).generation

/-- The calls that use the buffer `v`, as a buffer or as an allocation parent. -/
def ApiCall.Through (v : View) : ApiCall → Prop
  | .setRegion buffer _ _ | .append buffer _ | .prepend buffer _ | .trimFront buffer _
  | .trimBack buffer _ | .resize buffer _ | .setLimits buffer _ _ | .release buffer
  | .put _ buffer | .send _ buffer => buffer = some v
  | .allocEx _ _ _ _ parent => parent = some (some v)
  | _ => False

/-- Every call through the buffer fails and changes nothing, and its data is unreachable. -/
structure Fenced (pool : Pool) (m : Mem) (v : View) : Prop where
  calls : ∀ call : ApiCall, call.Through v → ∀ result m',
    Completes (call.program pool) m result m' →
      m' = m ∧ ∃ outcome, result = some outcome ∧ outcome.status ≠ .ok
  data : ∀ pointer m', Completes (bufferData (some v)) m pointer m' → m' = m ∧ pointer = none
  constData : ∀ pointer m',
    Completes (bufferConstData (some v)) m pointer m' → m' = m ∧ pointer = none
  place : ∀ offset length pointer m',
    Completes (bufferAt (some v) offset length) m pointer m' → m' = m ∧ pointer = none

/-! ## Invalid buffers -/

section Invalid

variable {pool : Pool} {m : Mem} {v : View}

theorem bufferOwned_invalid {α : Type} {next : Bool → Prog α} {Q : α → Mem → Prop}
    (invalid : ¬Valid m v) (rest : (next false).wps (Guarded pool) Q m) :
    (bufferOwned (some v) >>= next).wps (Guarded pool) Q m := by
  rw [wps_bind]
  refine wps_mono (bufferOwned_alone pool m v) ?_
  rintro owned m' ⟨rfl, valid⟩
  cases owned with
  | false => exact rest
  | true => exact absurd (valid.mp rfl) invalid

/-- A call on an invalid buffer is refused. -/
def Refused (m : Mem) (result : Option Outcome) (m' : Mem) : Prop :=
  m' = m ∧ ∃ outcome, result = some outcome ∧ outcome.status ≠ .ok

theorem refused_of_invalid {next : Bool → Prog (Status × Option View)} (invalid : ¬Valid m v)
    (refused : next false = pure (.invalidBuffer, some v)) :
    (bufferOutcome (bufferOwned (some v) >>= next)).wps (Guarded pool) (Refused m) m := by
  simp only [bufferOutcome]
  rw [wps_bind]
  refine bufferOwned_invalid invalid ?_
  rw [refused]
  exact ⟨rfl, _, rfl, fun done => by cases done⟩

theorem ApiCall.refused {call : ApiCall} (invalid : ¬Valid m v) (through : call.Through v) :
    (call.program pool).wps (Guarded pool) (Refused m) m := by
  cases call with
  | setRegion buffer | append buffer | prepend buffer | trimFront buffer | trimBack buffer
  | resize buffer | release buffer =>
      cases through
      exact refused_of_invalid invalid rfl
  | send link buffer | put link buffer =>
      cases through
      exact refused_of_invalid invalid rfl
  | setLimits buffer hopLimit deadline =>
      cases through
      simp only [ApiCall.program, bufferSetLimits]
      rw [wps_bind]
      exact bufferOwned_invalid invalid ⟨rfl, _, rfl, fun done => by cases done⟩
  | allocEx link size headroom tailroom parent =>
      cases through
      simp only [ApiCall.program, bufferOutcome, bufferAllocEx]
      rw [wps_bind]
      refine wps_ite (fun _ => ⟨rfl, _, rfl, fun done => by cases done⟩) (fun _ => ?_)
      rw [wps_bind]
      refine wps_mono (epochCurrent_alone pool m _ _) ?_
      rintro current m ⟨rfl, _⟩
      refine wps_ite (fun _ => ⟨rfl, _, rfl, fun done => by cases done⟩) (fun _ => ?_)
      refine wps_ite (fun _ => ⟨rfl, _, rfl, fun done => by cases done⟩) (fun _ => ?_)
      exact bufferOwned_invalid invalid ⟨rfl, _, rfl, fun done => by cases done⟩
  | _ => cases through

theorem fenced_of_invalid (invalid : ¬Valid m v) : Fenced pool m v := by
  have data : (bufferData (some v)).wps (Guarded pool)
      (fun pointer m' => m' = m ∧ pointer = none) m :=
    bufferOwned_invalid invalid ⟨rfl, rfl⟩
  constructor
  · intro call through result m' run
    have refused : (call.program pool).wps (Guarded pool) (Refused m) m :=
      ApiCall.refused invalid through
    exact run.sound refused.wp
  · exact fun pointer m' run => run.sound data.wp
  · exact fun pointer m' run => run.sound data.wp
  · intro offset length pointer m' run
    have place : (bufferAt (some v) offset length).wps (Guarded pool)
        (fun pointer m' => m' = m ∧ pointer = none) m :=
      bufferOwned_invalid invalid ⟨rfl, rfl⟩
    exact run.sound place.wp

end Invalid

/-! ## Once stale, always stale -/

/-- The buffer's epoch is over, its slot has moved on to a later generation, or is free. -/
def Gone (m : Mem) (v : View) : Prop :=
  v.ownerEpoch < componentLifecycleEpoch (m.components v.owner).lifecycle ∨
    handleGeneration v.handle < (m.core v.slotId).generation ∨
    (m.core v.slotId).generation = handleGeneration v.handle ∧ (m.core v.slotId).state = .free

theorem nextGeneration_ne {old : Nat} (small : old < u32) : nextGeneration old ≠ old := by
  unfold nextGeneration
  unfold u32 at *
  split <;> omega

section Staying

variable {pool : Pool} {reach : Reach} {m m' : Mem} {v : View}

/-- A free slot stays free, or gets the next generation. -/
theorem SlotLife.free_stays {retired : Nat → Nat → Prop} {i : Nat} {c c' : SlotCore}
    {log : List TraceRecord} (life : SlotLife pool retired i c c' log) (free : c.state = .free) :
    c'.generation = c.generation ∧ c'.state = .free ∨ c'.generation = nextGeneration c.generation := by
  cases life with
  | save => exact .inl ⟨rfl, free⟩
  | allocate _ _ generation => exact .inr generation
  | refuse _ _ _ generation => exact .inr generation
  | free empty _ same _ => exact .inl ⟨same, empty.state⟩
  | window other | limit other | send other | receive other | rollback other | stick other
  | repair other | adopt other | retake other =>
      rw [free] at other
      cases other

theorem Advances.free_stays (step : Advances pool reach m m') {i : Nat}
    (free : (m.core i).state = .free) :
    (m'.core i).generation = (m.core i).generation ∧ (m'.core i).state = .free ∨
      (m'.core i).generation = nextGeneration (m.core i).generation := by
  cases step.step with
  | still same => exact .inl ⟨by rw [same i], by rw [same i]; exact free⟩
  | @life j log _ _ life others =>
      by_cases here : i = j
      · subst here
        exact life.free_stays free
      · exact .inl ⟨by rw [others i here], by rw [others i here]; exact free⟩

theorem Settles.generation (settles : Settles pool reach m m') (i : Nat) :
    (m'.core i).generation = (m.core i).generation := by
  induction settles with
  | refl => rfl
  | tail _ step ih => exact (step.2 i).trans ih

theorem Settles.free_stays (settles : Settles pool reach m m') {i : Nat}
    (small : (m.core i).generation < u32) (free : (m.core i).state = .free) :
    (m'.core i).state = .free := by
  induction settles with
  | refl => exact free
  | @tail a b before step ih =>
      rcases step.1.free_stays ih with ⟨_, stays⟩ | renewed
      · exact stays
      · have same := Settles.generation before i
        rw [step.2 i] at renewed
        exact absurd renewed.symm (nextGeneration_ne (same ▸ small))

/-- After a complete call a free slot is free with its generation, or has another one. -/
theorem Lives.free_stays (lives : Lives pool reach m m') {i : Nat}
    (small : (m.core i).generation < u32) (free : (m.core i).state = .free) :
    (m'.core i).generation = (m.core i).generation ∧ (m'.core i).state = .free ∨
      (m'.core i).generation ≠ (m.core i).generation := by
  obtain ⟨a, b, before, turn, after⟩ := lives
  have first := before.generation i
  have last := after.generation i
  have stays := before.free_stays small free
  rcases turn with rfl | turn
  · exact .inl ⟨last.trans first, after.free_stays (first ▸ small) stays⟩
  rcases turn.free_stays stays with ⟨same, still⟩ | renewed
  · have generation : (b.core i).generation = (m.core i).generation := same.trans first
    exact .inl ⟨last.trans generation, after.free_stays (generation ▸ small) still⟩
  · refine .inr ?_
    rw [last, renewed, first]
    exact nextGeneration_ne small

theorem Lives.epochs (lives : Lives pool reach m m') (k : Nat) :
    componentLifecycleEpoch (m.components k).lifecycle ≤
      componentLifecycleEpoch (m'.components k).lifecycle :=
  lives.preserve (P := fun a => componentLifecycleEpoch (m.components k).lifecycle ≤
    componentLifecycleEpoch (a.components k).lifecycle)
    (fun _ _ step before => before.trans (step.epochs k)) le_rfl

theorem Gone.invalid (gone : Gone m v) (epoch : v.ownerEpoch ≠ 0) : ¬Valid m v := by
  intro valid
  rcases gone with over' | later | ⟨_, free⟩
  · have current := valid.current
    rw [Mem.epoch, epochOf] at current
    split at current
    · split at current <;> omega
    · exact epoch current.symm
  · exact absurd valid.generation (Nat.ne_of_gt later)
  · have owned := valid.state
    rw [free] at owned
    cases owned

theorem Stale.gone (stale : Stale m v)
    (aged : handleGeneration v.handle ≤ (m.core v.slotId).generation) : Gone m v := by
  rcases stale with retired | free | renewed
  · exact .inl retired
  · rcases Nat.lt_or_eq_of_le aged with later | same
    · exact .inr (.inl later)
    · exact .inr (.inr ⟨same.symm, free⟩)
  · exact .inr (.inl (lt_of_le_of_ne aged (Ne.symm renewed)))

theorem Gone.lives (gone : Gone m v) (lives : Lives pool reach m m')
    (small : (m.core v.slotId).generation < u32)
    (grows : (m.core v.slotId).generation ≤ (m'.core v.slotId).generation) : Gone m' v := by
  rcases gone with retired | later | ⟨same, free⟩
  · exact .inl (lt_of_lt_of_le retired (lives.epochs _))
  · exact .inr (.inl (lt_of_lt_of_le later grows))
  · rcases lives.free_stays small free with ⟨kept, still⟩ | renewed
    · exact .inr (.inr ⟨kept.trans same, still⟩)
    · refine .inr (.inl ?_)
      rw [← same]
      exact lt_of_le_of_ne grows (Ne.symm renewed)

end Staying

/-! ## Runs -/

section Runs

variable {pool : Pool} {s s' : Session} {v : View}

/-- A buffer never names a later generation than its slot has. -/
def Aged (s : Session) : Prop :=
  ∀ v, v ∈ s.views → handleGeneration v.handle ≤ (s.mem.core v.slotId).generation

theorem Aged.step (aged : Aged s) (well : SessionWell pool s) (step : s.Step pool s')
    (grows : Unwrapped pool s s') : Aged s' := by
  intro v known
  rcases step.returns well known with ⟨w, old, data, length, rfl⟩ | fresh
  · exact (aged w old).trans (grows _ (well.views w old).inside)
  · exact le_of_eq fresh.valid.generation.symm

theorem Session.Reached.aged (reached : s.Reached pool (Unwrapped pool)) : Aged s := by
  refine reached.invariant (fun s starts v known => ?_)
    (fun s s' well step grows aged => aged.step well step grows)
  rw [starts.2.2.2.1] at known
  cases known

theorem Session.Leads.gone (leads : s.Leads pool (Unwrapped pool) s') (well : SessionWell pool s)
    (placed : ViewWell pool v) (gone : Gone s.mem v) : Gone s'.mem v := by
  induction leads with
  | refl => exact gone
  | tail before last ih =>
      have sound := Session.Leads.well before well
      obtain ⟨reach, lives⟩ := last.1.lives sound
      exact ih.lives lives (sound.slots _ placed.inside).1 (last.2 _ placed.inside)

/-- A buffer that is stale once is fenced for the rest of the run. -/
theorem stale_views_fenced (reached : s.Reached pool (Unwrapped pool)) (made : v ∈ s.views)
    (epoch : v.ownerEpoch ≠ 0) (stale : Stale s.mem v) (later : s.Leads pool (Unwrapped pool) s') :
    Fenced pool s'.mem v := by
  have well := reached.well
  have gone : Gone s.mem v := stale.gone (reached.aged v made)
  exact fenced_of_invalid ((later.gone well (well.views v made) gone).invalid epoch)

/-- Component 1 has released the first slot again. -/
def releasedSession : Session :=
  allocatedSession.run smallPool (.poolRelease (handleMake 0 1) 1)

theorem stale_views_fenced_released : allocatedView ∈ releasedSession.views ∧
    Fenced smallPool releasedSession.mem allocatedView := by
  have made : allocatedView ∈ releasedSession.views := by decide
  have released : allocatedSession.Step smallPool releasedSession :=
    Session.run_step trivial (by decide)
  have first : attached.Leads smallPool (Unwrapped smallPool) registeredSession :=
    .single ⟨registered_step, by unfold Unwrapped; decide⟩
  have second := first.tail ⟨allocated_step, by unfold Unwrapped; decide⟩
  have third := second.tail ⟨released, by unfold Unwrapped; decide⟩
  have freed : (releasedSession.mem.core allocatedView.slotId).state = .free := by decide
  exact ⟨made, stale_views_fenced ⟨attached, attached_starts, third⟩ made (by decide)
    (.inr (.inl freed)) .refl⟩

end Runs

end Zipc
