import Zipc.Exclusion

/-! # The generation that a release frees

A handle names one generation of its slot. A send looks at the generation again once it
holds the slot; a release tests it only before. When the slot gets a new generation
between the test and the claim, the release frees a newer buffer: the last theorem is
such a run. In every other run a release frees, and a send publishes, only the
generation of its handle.
-/

namespace Zipc

open Atomic

/-- The call has seen the generation of slot `i` match its handle, and has not yet won or
    lost the slot. -/
def SlotMode.tests (i : Nat) : SlotMode → Bool
  | .outside _ tested | .acquired _ _ tested => decide (tested = some i)
  | _ => false

/-- The slot that the next action of the program gives a new generation. -/
def renewing : Prog SlotResult → Option Nat
  | .act (.write i (.generation _)) _ => some i
  | _ => none

/-- The slot and the state that the next action of the program stores. -/
def storing : Prog SlotResult → Option (Nat × SlotState)
  | .act (.storeState i state) _ => some (i, state)
  | _ => none

/-- No slot gets a new generation while a running release is between its test of the
    generation and its claim of the slot. -/
def TestsLast (c : SlotConfig) : Move Env SlotCall → Prop
  | .start _ _ => True
  | .act t _ => ∀ task i, c.tasks t = some task → renewing task.rest = some i →
      ∀ u other, c.tasks u = some other → other.label.releases = true → other.Running →
        other.mode.tests i = false

/-- The release frees, and the send publishes, the generation of its handle. -/
structure OwnGeneration (c : SlotConfig) : Prop where
  release : ∀ t task handle owner i, c.tasks t = some task → task.label = .release handle owner →
    storing task.rest = some (i, .free) →
    (c.shared.slots i).generation = handleGeneration handle
  transfer : ∀ t task handle owner nextOwner linkId i, c.tasks t = some task →
    task.label = .prepare handle owner nextOwner linkId →
    storing task.rest = some (i, .transfer) →
    (c.shared.slots i).generation = handleGeneration handle

variable {pool : Pool} {c : SlotConfig} {init : Mem → Prop}
  {ok : SlotConfig → Move Env SlotCall → Prop}

/-- A generation changes only when a holder of its slot renews it. -/
theorem renewing_of_change {l : SlotCall} {m : SlotMode} {β : Type} {action : Act β}
    {next : β → Prog SlotResult} {s : Mem} {e : Env} {i : Nat} (permitted : slotPermits l m action)
    (changed : ((action.exec e s).2.slots i).generation ≠ (s.slots i).generation) :
    renewing (.act action next) = some i ∧ m.holds i = true := by
  cases action with
  | write j w =>
      cases renews : w.isGeneration with
      | false => exact absurd (write_words renews i).2.2 changed
      | true =>
          cases w with
          | generation v =>
              obtain impossible | ⟨holds, -⟩ := permitted
              · cases impossible
              · by_cases same : i = j
                · subst same
                  exact ⟨rfl, holds⟩
                · simp [Act.exec, same] at changed
          | _ => cases renews
  | storeState j state =>
      refine absurd ?_ changed
      apply s.setSlot_proj (·.generation)
      rfl
  | casState j expected desired | casToken j expected desired =>
      simp only [Act.exec] at changed
      split at changed
      · refine absurd ?_ changed
        apply s.setSlot_proj (·.generation)
        rfl
      · exact absurd rfl changed
  | casLifecycle | protect =>
      simp only [Act.exec] at changed
      split at changed <;> exact absurd rfl changed
  | _ => first | exact absurd rfl changed | cases permitted

/-- The call goes on as if slot `i` had the generation of its handle. -/
def SlotMode.relies (l : SlotCall) (i : Nat) : SlotMode → Bool
  | .outside _ tested | .acquired _ _ tested => l.releases && decide (tested = some i)
  | .held j _ confirmed => decide (j = i) && confirmed
  | _ => false

/-- A call that relies on a generation did so before, or has just seen it. -/
theorem SlotStep.relies_cases {l : SlotCall} {s s' : Mem} {m m' : SlotMode} {i : Nat}
    (step : SlotStep l s m m' s') (relies : m'.relies l i = true) (guarded : l.allocates = false) :
    (m.relies l i = true ∧ (s'.slots i).generation = (s.slots i).generation) ∨
      l.generation = some (s'.slots i).generation := by
  cases step with
  | quiet same => exact .inl ⟨relies, (same i).2.2⟩
  | epoch => exact .inl ⟨relies, rfl⟩
  | @test epoch j tested =>
      simp only [SlotMode.relies, Bool.and_eq_true, decide_eq_true_eq,
        Option.ite_none_right_eq_some, Option.some.injEq] at relies
      obtain ⟨_, seen, rfl⟩ := relies
      exact .inr seen
  | @confirm k epoch j confirmed =>
      simp only [SlotMode.relies, Bool.and_eq_true, Bool.or_eq_true, decide_eq_true_eq] at relies
      obtain ⟨rfl, before | ⟨rfl, seen⟩⟩ := relies
      · exact .inl ⟨by simp [SlotMode.relies, before], rfl⟩
      · exact .inr seen
  | renew allocates =>
      rw [guarded] at allocates
      cases allocates
  | acquire =>
      refine .inl ⟨relies, ?_⟩
      apply s.setSlot_proj (·.generation)
      rfl
  | @win j epoch tested =>
      simp only [SlotMode.relies, Bool.and_eq_true, decide_eq_true_eq] at relies
      obtain ⟨rfl, released, seen⟩ := relies
      refine .inl ⟨by simp [SlotMode.relies, released, seen], ?_⟩
      apply s.setSlot_proj (·.generation)
      rfl
  | clearLost | keepLost => simp [SlotMode.relies] at relies
  | lose | store | clearPublished => cases relies

/-- Calls of the kinds `P` rely only on generations that their slots have. -/
def Relied (P : SlotCall → Prop) (c : SlotConfig) : Prop :=
  ∀ t task i, c.tasks t = some task → P task.label → task.Running →
    task.mode.relies task.label i = true → task.label.generation = some (c.shared.slots i).generation

theorem Relied.perform {P : SlotCall → Prop} {t : Nat} {e : Env} {l : SlotCall} {m : SlotMode}
    {β : Type} {action : Act β} {next : β → Prog SlotResult} (old : Relied P c) (held : Claimed c)
    (plain : ∀ l, P l → l.allocates = false)
    (last : ∀ l, P l → l.releases = true → TestsLast c (.act t e))
    (found : c.tasks t = some ⟨l, m, .act action next⟩) (permitted : slotPermits l m action) :
    Relied P ((slotSystem pool).perform c t l m action next e) := by
  intro u task i taken kind running relies
  rcases update_eq_some.mp taken with ⟨rfl, rfl⟩ | ⟨other, taken⟩
  · rcases (slotStep_of_permits c.shared e permitted).relies_cases relies (plain l kind) with
      ⟨before, same⟩ | seen
    · have active : (⟨l, m, .act action next⟩ : Task Act SlotCall SlotMode SlotResult).Running := by
        intro a done
        cases done
      rw [old u ⟨l, m, .act action next⟩ i found kind active before]
      exact congrArg some same.symm
    · exact seen
  · have before := old u task i taken kind running relies
    by_contra changed
    have renews : renewing (.act action next) = some i ∧ m.holds i = true := by
      refine renewing_of_change (s := c.shared) (e := e) permitted ?_
      intro same
      exact changed (before.trans (congrArg some same.symm))
    -- the other call holds the slot as well, or is a release that tested it
    cases mode : task.mode with
    | held j epoch confirmed =>
        have same : task.mode.holds i = true := by
          simp only [mode, SlotMode.relies, Bool.and_eq_true] at relies
          simpa only [mode, SlotMode.holds] using relies.1
        exact other (held.unique u t task _ i taken found same renews.2)
    | outside epoch tested | acquired j epoch tested =>
        simp only [mode, SlotMode.relies, Bool.and_eq_true] at relies
        have idle := last _ kind relies.1 _ i found renews.1 u task taken relies.1 running
        rw [mode] at idle
        simp only [SlotMode.tests] at idle
        rw [relies.2] at idle
        cases idle
    | lost | published =>
        rw [mode] at relies
        cases relies

theorem relied {P : SlotCall → Prop} (plain : ∀ l, P l → l.allocates = false)
    (last : ∀ c m l, ok c m → P l → l.releases = true → TestsLast c m)
    (reach : (slotSystem pool).Reachable init ok c) : Relied P c := by
  refine System.Reachable.disciplinedInvariant (I := Relied P) (slotSystem_disciplined pool)
    ?_ ?_ ?_ reach
  · intro s _ t task i taken
    cases taken
  · intro c t l old _ _ u task i taken kind running relies
    rcases update_eq_some.mp taken with ⟨rfl, rfl⟩ | ⟨_, taken⟩
    · have fresh : (SlotMode.outside l.givenEpoch none).relies l i = true := relies
      simp [SlotMode.relies] at fresh
    · exact old u task i taken kind running relies
  · intro c t e l mode β action next old reached permitted found follows
    exact old.perform (claimed reached) plain (fun l => last c _ l permitted) found follows.1

/-- A call about to publish its guarded state relies on the generation of the slot. -/
theorem relies_of_storing (reach : (slotSystem pool).Reachable init ok c) {t i : Nat}
    {task : Task Act SlotCall SlotMode SlotResult} {state : SlotState} (found : c.tasks t = some task)
    (stores : storing task.rest = some (i, state)) (guarded : task.label.guarded = some state) :
    task.Running ∧ task.mode.relies task.label i = true := by
  have follows := reach.follows (slotSystem_disciplined pool) t task found
  obtain ⟨l, m, rest⟩ := task
  cases rest with
  | done a => cases stores
  | act action next =>
      refine ⟨fun a done => (nomatch done), ?_⟩
      cases action with
      | storeState j stored =>
          simp only [storing, Option.some.injEq, Prod.mk.injEq] at stores
          obtain ⟨rfl, rfl⟩ := stores
          cases m with
          | held k epoch confirmed =>
              obtain ⟨⟨rfl, _, guard⟩, _⟩ := follows
              simp [SlotMode.relies, guard guarded]
          | _ => exact follows.1.elim
      | _ => cases stores

/-- A send publishes only the generation of its handle, in every run. -/
theorem transfer_generation (reach : (slotSystem pool).Reachable init ok c) {t i : Nat}
    {task : Task Act SlotCall SlotMode SlotResult} {handle owner nextOwner linkId : Nat}
    (found : c.tasks t = some task) (label : task.label = .prepare handle owner nextOwner linkId)
    (stores : storing task.rest = some (i, .transfer)) :
    (c.shared.slots i).generation = handleGeneration handle := by
  obtain ⟨running, relies⟩ := relies_of_storing reach found stores (by rw [label]; rfl)
  have sends := relied (P := fun l => l.allocates = false ∧ l.releases = false)
    (fun _ kind => kind.1) (fun _ _ _ _ kind released => by simp [kind.2] at released) reach
  have seen := sends t task i found (by rw [label]; exact ⟨rfl, rfl⟩) running relies
  rw [label] at seen
  exact (Option.some.inj seen).symm

/-- In every run where no generation changes under a tested release. -/
theorem ownGeneration_of_testsLast
    (reach : (slotSystem pool).Reachable (Formatted pool) TestsLast c) : OwnGeneration c := by
  constructor
  · intro t task handle owner i found label stores
    obtain ⟨running, relies⟩ := relies_of_storing reach found stores (by rw [label]; rfl)
    have releases := relied (P := fun l => l.allocates = false) (fun _ kind => kind)
      (fun _ _ _ tests _ _ => tests) reach
    have seen := releases t task i found (by rw [label]; rfl) running relies
    rw [label] at seen
    exact (Option.some.inj seen).symm
  · intro t task handle owner nextOwner linkId i found label stores
    exact transfer_generation reach found label stores

/-! ## Runs with and without the defect -/

/-- An allocation and then the release of its buffer, up to the store of `FREE`. -/
def plainRelease : Option SlotConfig :=
  ((slotSystem oneSlot).run allocating ((List.replicate 55 default).map (.act 0))).bind fun c =>
    ((slotSystem oneSlot).move c (.start 1 (.release (handleMake 0 1) 1))).bind fun c =>
      (slotSystem oneSlot).run c ((List.replicate 27 default).map (.act 1))
where
  /-- The allocation before its first action. -/
  allocating : SlotConfig :=
    { shared := poolFormat oneSlot default
      tasks := Function.update (fun _ => none) 0
        (some ((slotSystem oneSlot).begin (.allocate ⟨1, 0, 0, 8, 0, 0, true⟩ 0)))
      history := [] }

/-- Without a release nothing is tested. -/
theorem testsLast_of_no_release {t : Nat} (e : Env)
    (none : ∀ u task, c.tasks u = some task → task.label.releases = false) :
    TestsLast c (.act t e) := by
  intro task i _ _ u other found releases
  rw [none u other found] at releases
  cases releases

/-- A call that does not allocate renews no generation. -/
theorem testsLast_of_no_allocation (reach : (slotSystem pool).Reachable init ok c) {t : Nat}
    (e : Env) (plain : ∀ task, c.tasks t = some task → task.label.allocates = false) :
    TestsLast c (.act t e) := by
  intro task i found renews
  have follows := reach.follows (slotSystem_disciplined pool) t task found
  have kind := plain task found
  obtain ⟨l, m, rest⟩ := task
  cases rest with
  | done a => cases renews
  | act action next =>
      cases action with
      | write j w =>
          cases w with
          | generation v =>
              obtain impossible | ⟨_, allocates⟩ := follows.1
              · cases impossible
              · rw [allocates rfl] at kind
                cases kind
          | _ => cases renews
      | _ => cases renews

theorem ownGeneration_plainRelease :
    plainRelease.any (fun c => (c.tasks 1).any fun task =>
      storing task.rest = some (0, .free)) = true ∧
      ∀ c, plainRelease = some c → OwnGeneration c := by
  refine ⟨by decide +kernel, ?_⟩
  intro c ran
  simp only [plainRelease, Option.bind_eq_some_iff] at ran
  obtain ⟨c₁, allocated, c₂, started, released⟩ := ran
  have first : (slotSystem oneSlot).Reachable (Formatted oneSlot) TestsLast plainRelease.allocating :=
    .step (.start ⟨default, rfl⟩) (m := .start 0 (.allocate ⟨1, 0, 0, 8, 0, 0, true⟩ 0)) trivial rfl
  have second : (slotSystem oneSlot).Reachable (Formatted oneSlot) TestsLast c₁ := by
    refine .along (I := fun c => ∀ u task, c.tasks u = some task → task.label.releases = false)
      (fun c e _ => testsLast_of_no_release e) ?_ first ?_ allocated
    · intro c e c' none moved u task found
      obtain ⟨before, old, label⟩ := System.move_label moved found
      exact label ▸ none u before old
    · intro u task found
      simp only [plainRelease.allocating] at found
      rcases update_eq_some.mp found with ⟨_, rfl⟩ | ⟨_, impossible⟩
      · rfl
      · cases impossible
  have third := second.step (m := .start 1 (.release (handleMake 0 1) 1)) trivial started
  refine ownGeneration_of_testsLast (.along (I := fun c => ∀ task, c.tasks 1 = some task →
    task.label.allocates = false) (fun c e reach => testsLast_of_no_allocation reach e) ?_ third ?_
    released)
  · intro c e c' plain moved task found
    obtain ⟨before, old, label⟩ := System.move_label moved found
    exact label ▸ plain before old
  · rcases System.move_cases started with ⟨_, _, same, _, rfl⟩ | ⟨_, _, _, _, _, _, _, same, _⟩
    · cases same
      intro task found
      simp only [Function.update_self, Option.some.injEq] at found
      exact found ▸ rfl
    · cases same

/-- Two threads of component 1 release the same buffer. The first one tests the generation
    and is delayed; the second one frees the slot, and component 1 allocates it again. The
    first one then wins the slot and is about to free the new buffer. -/
def delayedRelease : Option SlotConfig :=
  (slotSystem oneSlot).run (System.initial (poolFormat oneSlot default))
    (callMoves 0 (.register 1 1) 4 ++ callMoves 1 (.allocate ⟨1, 0, 0, 8, 0, 0, true⟩ 0) 55 ++
      callMoves 2 (.release (handleMake 0 1) 1) 13 ++
      callMoves 3 (.release (handleMake 0 1) 1) 30 ++
      callMoves 4 (.allocate ⟨1, 0, 0, 8, 0, 0, true⟩ 0) 55 ++
      List.replicate 14 (.act 2 default))

theorem delayedRelease_frees_newer : ∃ c : SlotConfig,
    (slotSystem oneSlot).Reachable (Formatted oneSlot) (fun _ _ => True) c ∧ ¬OwnGeneration c := by
  have left : delayedRelease.any (fun c => (c.tasks 2).any fun task =>
      decide (task.label = .release (handleMake 0 1) 1 ∧ storing task.rest = some (0, .free) ∧
        (c.shared.slots 0).generation = 2)) = true := by
    decide +kernel
  simp only [Option.any_eq_true, decide_eq_true_eq] at left
  obtain ⟨c, ran, task, found, label, stores, newer⟩ := left
  refine ⟨c, .run (.start ⟨default, rfl⟩) (fun _ _ => trivial) ran, ?_⟩
  intro own
  have same := own.release 2 task _ _ 0 found label stores
  rw [newer] at same
  exact absurd same (by decide)

end Zipc
