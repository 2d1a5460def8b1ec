import Zipc.Session

/-! # Strict ownership

In a pool with strict ownership a process can reach the payload of a slot only after a
page protection call, which may fail. The state of a slot is stored as `FREE` or
`TRANSFER` only while its payload is out of reach, and the payload of a valid buffer is
within reach. An owned slot whose payload is out of reach belongs to a runtime whose
epoch is over: the repair of an interrupted rollback leaves it to the adoption.
-/

namespace Zipc

open Atomic Program

/-- The payload of an owned slot is accessible, unless its owner's epoch is over. -/
def Opened (pool : Pool) (m : Mem) : Prop :=
  ∀ i, i < pool.slotCount → (m.core i).state = .owned → (m.core i).access = true ∨
    m.retired (m.core i).ownerId (m.core i).ownerEpoch

section Opening

variable {pool : Pool} {reach : Reach} {m m' : Mem}

theorem SlotLife.opened {retired : Nat → Nat → Prop} {i : Nat} {c c' : SlotCore}
    {log : List TraceRecord} (life : SlotLife pool retired i c c' log) (strict : pool.strict = true)
    (opened : c.state = .owned → c.access = true ∨ retired c.ownerId c.ownerEpoch) :
    c'.state = .owned → c'.access = true ∨ retired c'.ownerId c'.ownerEpoch := by
  cases life with
  | save | window | limit => exact opened
  | allocate _ _ _ _ _ _ _ _ _ open' _ => exact fun _ => .inl (open' strict)
  | refuse _ empty =>
      intro owned
      rw [empty.state] at owned
      cases owned
  | send | stick => nofun
  | receive _ open' => exact fun _ => .inl (open' strict)
  | rollback _ open' _ => exact fun _ => .inl (open' strict)
  | repair _ gone _ => exact fun _ => .inr gone
  | adopt _ _ open' _ => exact fun _ => .inl (open' strict)
  | retake _ _ open' _ => exact fun _ => .inl (open' strict)
  | free empty =>
      intro owned
      rw [empty.state] at owned
      cases owned

theorem Advances.retired (step : Advances pool reach m m') {component epoch : Nat}
    (gone : m.retired component epoch) : m'.retired component epoch :=
  ⟨gone.1, lt_of_lt_of_le gone.2 (step.epochs component)⟩

theorem Opened.advances (opened : Opened pool m) (strict : pool.strict = true)
    (step : Advances pool reach m m') : Opened pool m' := by
  intro i inside owned
  have before : ((m.core i).state = .owned → (m.core i).access = true ∨
      m.retired (m.core i).ownerId (m.core i).ownerEpoch) := opened i inside
  have after : (m'.core i).access = true ∨
      m.retired (m'.core i).ownerId (m'.core i).ownerEpoch := by
    cases step.step with
    | still same =>
        rw [same i] at owned ⊢
        exact before owned
    | @life j log _ _ life others =>
        by_cases here : i = j
        · subst here
          exact life.opened strict before owned
        · rw [others i here] at owned ⊢
          exact before owned
  exact after.imp id fun gone => step.retired gone

/-- A valid buffer belongs to the current epoch of its owner. -/
theorem Valid.not_retired {v : View} (valid : Valid m v) :
    ¬m.retired (m.core v.slotId).ownerId (m.core v.slotId).ownerEpoch := by
  rintro ⟨nonzero, past⟩
  have current := valid.current
  rw [valid.owner] at past
  rw [valid.ownerEpoch] at nonzero past
  rw [Mem.epoch, epochOf] at current
  split at current
  · split at current <;> omega
  · exact nonzero current.symm

end Opening

section Runs

variable {pool : Pool} {s s' : Session}

theorem Opened.step (opened : Opened pool s.mem) (strict : pool.strict = true)
    (well : SessionWell pool s) (step : s.Step pool s') : Opened pool s'.mem := by
  obtain ⟨reach, lives⟩ := step.lives well
  exact lives.preserve (fun _ _ turn before => before.advances strict turn) opened

theorem Session.Reached.opened {ok : Session → Session → Prop} (reached : s.Reached pool ok)
    (strict : pool.strict = true) : Opened pool s.mem := by
  refine reached.invariant (I := fun s => Opened pool s.mem) (fun s starts i inside owned => ?_)
    (fun s s' well step _ opened => opened.step strict well step)
  rw [Mem.core, starts.1.slots inside] at owned
  cases owned

/-- In every run, a call stores `FREE` or `TRANSFER` only while the payload is out of
    reach, and the payload of a valid buffer that it returns with OK is within reach. -/
theorem strict_publication (strict : pool.strict = true) (reached : s.Reached pool anyStep)
    {call : ApiCall} (legal : call.Legal s) :
    (∀ i state m, state = .free ∨ state = .transfer →
      Performs (call.program pool) s.mem (Act.storeState i state) m → m.access i = false) ∧
    (∀ i expected state m, state = .free ∨ state = .transfer →
      ¬Performs (call.program pool) s.mem (Act.casState i expected state) m) ∧
    (∀ outcome v m, Completes (call.program pool) s.mem (some outcome) m → outcome.status = .ok →
      outcome.buffer = some v → Valid m v → m.access v.slotId = true) := by
  have well := reached.well
  have delivers := ApiCall.delivers well legal
  refine ⟨fun i state m published performs => ?_, fun i expected state m published performs => ?_,
    fun outcome v m completes _ returned valid => ?_⟩
  · have guarded : Guarded pool (Act.storeState i state) m := performs.allowed delivers
    exact guarded published strict
  · have guarded : Guarded pool (Act.casState i expected state) m := performs.allowed delivers
    rcases published with free | transfer
    · exact guarded.1 free
    · exact guarded.2 transfer
  · have step : s.Step pool (s.after outcome m) := .call legal completes
    have opened : Opened pool m := (reached.opened strict).step strict well step
    have known : v ∈ (s.after outcome m).views := by
      rw [Session.after, returned]
      exact List.mem_append_left _ (List.mem_singleton.mpr rfl)
    have inside := ((well.step step).views v known).inside
    exact (opened _ inside valid.state).resolve_right valid.not_retired

/-- The run of an allocation by component 1. -/
def allocateRun : Option Outcome × Mem :=
  ((ApiCall.allocate 1 0).program smallPool).runWith default registeredSession.mem

theorem strict_publication_allocate : allocateRun.2.access 0 = true := by
  have reached : registeredSession.Reached smallPool anyStep :=
    ⟨attached, attached_starts, .single ⟨registered_step, trivial⟩⟩
  have legal : (ApiCall.allocate 1 0).Legal registeredSession := trivial
  have result : allocateRun.1 = some { status := .ok, buffer := some allocatedView } := by decide
  have run : Completes ((ApiCall.allocate 1 0).program smallPool) registeredSession.mem
      allocateRun.1 allocateRun.2 := runWith_completes default _ _
  rw [result] at run
  exact (strict_publication rfl reached legal).2.2 _ allocatedView _ run rfl rfl
    ⟨by decide, by decide, by decide, by decide, by decide⟩

end Runs

end Zipc
