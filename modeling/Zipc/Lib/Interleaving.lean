import Zipc.Lib.Program

/-! # Interleaved programs

Any number of tasks, each running one program, take turns on a shared state, one
atomic action at a time. Every task has a mode that is a function of what it did so
far (`Discipline.next`); a discipline also says which actions a mode permits. A
program that follows the discipline alone performs only permitted actions in every
interleaving, so facts about all tasks are proved about one program at a time.

A task is never reused: a thread that makes several calls is several tasks, one
after the other. The history keeps every action of every task in order.
-/

namespace Atomic

/-- A typestate for programs: the mode of a task, and what each mode permits. -/
structure Discipline (A : Type → Type 1) (L M : Type) where
  start : L → M
  permits : {β : Type} → L → M → A β → Prop
  next : {β : Type} → L → M → A β → β → M

namespace Program

variable {A : Type → Type 1} {L M α β : Type} (D : Discipline A L M) (l : L)

/-- From mode `m` the program performs only permitted actions, whatever they answer,
    and ends in a mode and with a value that satisfy `Q`. -/
def Follows : Program A α → (M → α → Prop) → M → Prop
  | .done a, Q, m => Q m a
  | .act action next, Q, m =>
      D.permits l m action ∧ ∀ b, (next b).Follows Q (D.next l m action b)

variable {D l}

@[simp] theorem follows_done (a : α) (Q : M → α → Prop) (m : M) :
    (Program.done a : Program A α).Follows D l Q m ↔ Q m a := Iff.rfl

theorem follows_act (action : A β) (next : β → Program A α) (Q : M → α → Prop) (m : M) :
    (Program.act action next).Follows D l Q m ↔
      D.permits l m action ∧ ∀ b, (next b).Follows D l Q (D.next l m action b) := Iff.rfl

theorem follows_bind (p : Program A α) (f : α → Program A β) (Q : M → β → Prop) (m : M) :
    (p >>= f).Follows D l Q m ↔ p.Follows D l (fun m' a => (f a).Follows D l Q m') m := by
  induction p generalizing m with
  | done a => rfl
  | act action next ih => exact and_congr Iff.rfl (forall_congr' fun b => ih _ _)

theorem follows_mono {p : Program A α} {Q R : M → α → Prop} {m : M}
    (h : p.Follows D l Q m) (imp : ∀ m a, Q m a → R m a) : p.Follows D l R m := by
  induction p generalizing m with
  | done a => exact imp m a h
  | act action next ih => exact ⟨h.1, fun b => ih b (h.2 b)⟩

/-- The program keeps mode `m` and ends with a value that satisfies `P`. -/
def Stays (D : Discipline A L M) (l : L) (m : M) (p : Program A α) (P : α → Prop) : Prop :=
  p.Follows D l (fun m' a => m' = m ∧ P a) m

theorem Stays.bind {D : Discipline A L M} {l : L} {m : M} {p : Program A α} {P : α → Prop}
    {f : α → Program A β} {Q : M → β → Prop} (first : Stays D l m p P)
    (rest : ∀ a, P a → (f a).Follows D l Q m) : (p >>= f).Follows D l Q m := by
  rw [follows_bind]
  refine follows_mono first ?_
  rintro _ a ⟨rfl, holds⟩
  exact rest a holds

/-- Run alone, a program performs only allowed actions and keeps every relation to its
    first state, when the actions that its discipline permits do. -/
theorem Follows.safe {E σ : Type} [Semantics A E σ] {D : Discipline A L M} {l : L}
    {Q : M → α → Prop} {R : σ → σ → Prop} {ok : {β : Type} → A β → σ → Prop} {p : Program A α}
    {m : M} (h : p.Follows D l Q m)
    (step : ∀ s s' m (β : Type) (action : A β), R s s' → D.permits l m action →
      ok action s' ∧ ∀ e : E, R s (Semantics.exec action e s').2) {s s' : σ} (start : R s s') :
    p.wps ok (fun a s'' => R s s'' ∧ ∃ m', Q m' a) s' := by
  induction p generalizing m s' with
  | done a => exact ⟨start, m, h⟩
  | act action next ih =>
      obtain ⟨allowed, kept⟩ := step s s' m _ action start h.1
      exact ⟨allowed, fun e => ih _ (h.2 _) (kept e)⟩

end Program

structure Task (A : Type → Type 1) (L M R : Type) where
  label : L
  mode : M
  rest : Program A R

/-- The task has not returned. -/
def Task.Running {A : Type → Type 1} {L M R : Type} (task : Task A L M R) : Prop :=
  ∀ a, task.rest ≠ .done a

/-- One action that a task performed: who, in which mode, and with which answer. -/
structure Event (A : Type → Type 1) (L M : Type) where
  task : Nat
  label : L
  mode : M
  {β : Type}
  action : A β
  answer : β

structure Config (A : Type → Type 1) (σ L M R : Type) where
  shared : σ
  tasks : Nat → Option (Task A L M R)
  history : List (Event A L M)

/-- Of each class of tasks at most one is running. -/
def Config.Exclusive {A : Type → Type 1} {σ L M R K : Type} (kind : L → K)
    (c : Config A σ L M R) : Prop :=
  ∀ t u x y, c.tasks t = some x → c.tasks u = some y → kind x.label = kind y.label →
    x.Running → y.Running → t = u

theorem update_eq_some {ι : Type} {α : Type 1} [DecidableEq ι] {f : ι → Option α} {i j : ι} {x y : α} :
    Function.update f i (some x) j = some y ↔ (j = i ∧ x = y) ∨ (j ≠ i ∧ f j = some y) := by
  by_cases same : j = i
  · subst same
    simp
  · simp [same]

inductive Move (E L : Type) where
  /-- A new task starts a program. -/
  | start (task : Nat) (label : L)
  /-- A task performs its next action. -/
  | act (task : Nat) (input : E)

/-- The programs that tasks may run, and the discipline that tracks them. -/
structure System (A : Type → Type 1) (L M R : Type) where
  program : L → Program A R
  discipline : Discipline A L M

namespace System

variable {A : Type → Type 1} {E σ L M R : Type} [Semantics A E σ] (S : System A L M R)

def initial (s : σ) : Config A σ L M R := ⟨s, fun _ => none, []⟩

def begin (l : L) : Task A L M R := ⟨l, S.discipline.start l, S.program l⟩

/-- The configuration after task `t`, with label `l` in mode `m`, performed `action`. -/
def perform {β : Type} (c : Config A σ L M R) (t : Nat) (l : L) (m : M) (action : A β)
    (next : β → Program A R) (e : E) : Config A σ L M R :=
  let b := (Semantics.exec action e c.shared).1
  { shared := (Semantics.exec action e c.shared).2
    tasks := Function.update c.tasks t (some ⟨l, S.discipline.next l m action b, next b⟩)
    history := c.history ++ [⟨t, l, m, action, b⟩] }

def move (c : Config A σ L M R) : Move E L → Option (Config A σ L M R)
  | .start t l =>
      match c.tasks t with
      | none => some { c with tasks := Function.update c.tasks t (some (S.begin l)) }
      | some _ => none
  | .act t e =>
      match c.tasks t with
      | some ⟨l, m, .act action next⟩ => some (S.perform c t l m action next e)
      | _ => none

def run (c : Config A σ L M R) : List (Move E L) → Option (Config A σ L M R)
  | [] => some c
  | m :: ms => (S.move c m).bind (fun c' => run c' ms)

/-- The configurations of the runs that begin with `init` and whose moves are all `ok`. -/
inductive Reachable (init : σ → Prop) (ok : Config A σ L M R → Move E L → Prop) :
    Config A σ L M R → Prop where
  | start {s : σ} : init s → Reachable init ok (initial s)
  | step {c c' : Config A σ L M R} {m : Move E L} :
      Reachable init ok c → ok c m → S.move c m = some c' → Reachable init ok c'

variable {S}

/-- What a move can do: start a program in a fresh task, or perform one action. -/
theorem move_cases {c c' : Config A σ L M R} {m : Move E L} (h : S.move c m = some c') :
    (∃ t l, m = .start t l ∧ c.tasks t = none ∧
      c' = { c with tasks := Function.update c.tasks t (some (S.begin l)) }) ∨
    (∃ t e l mode, ∃ (β : Type) (action : A β) (next : β → Program A R),
      m = .act t e ∧ c.tasks t = some ⟨l, mode, .act action next⟩ ∧
      c' = S.perform c t l mode action next e) := by
  cases m with
  | start t l =>
      simp only [move] at h
      split at h
      · rename_i fresh
        exact .inl ⟨t, l, rfl, fresh, by simpa using h.symm⟩
      · cases h
  | act t e =>
      simp only [move] at h
      split at h
      · rename_i l mode β action next found
        exact .inr ⟨t, e, l, mode, β, action, next, rfl, found, by simpa using h.symm⟩
      · cases h

/-- What a function of single events sees of one more action. -/
theorem perform_filterMap {β τ : Type} (f : Event A L M → Option τ) (c : Config A σ L M R)
    (t : Nat) (l : L) (m : M) (action : A β) (next : β → Program A R) (e : E) :
    (S.perform c t l m action next e).history.filterMap f = c.history.filterMap f ++
      (f ⟨t, l, m, action, (Semantics.exec action e c.shared).1⟩).toList := by
  simp only [perform, List.filterMap_append, List.append_cancel_left_eq]
  cases h : f ⟨t, l, m, action, (Semantics.exec action e c.shared).1⟩ <;> simp [h]

theorem Reachable.run {init : σ → Prop} {ok : Config A σ L M R → Move E L → Prop}
    {c c' : Config A σ L M R} {ms : List (Move E L)} (reach : S.Reachable init ok c)
    (all : ∀ c m, ok c m) (h : S.run c ms = some c') : S.Reachable init ok c' := by
  induction ms generalizing c with
  | nil =>
      simp only [System.run, Option.some.injEq] at h
      exact h ▸ reach
  | cons m ms ih =>
      simp only [System.run, Option.bind_eq_some_iff] at h
      obtain ⟨c₁, moved, rest⟩ := h
      exact ih (reach.step (all c m) moved) rest

/-- An invariant of the whole configuration, from the three ways it can change. -/
theorem Reachable.invariant {init : σ → Prop} {ok : Config A σ L M R → Move E L → Prop}
    {I : Config A σ L M R → Prop} (base : ∀ s, init s → I (initial s))
    (start : ∀ c t l, I c → ok c (.start t l) → c.tasks t = none →
      I { c with tasks := Function.update c.tasks t (some (S.begin l)) })
    (act : ∀ c t e l mode (β : Type) (action : A β) (next : β → Program A R),
      I c → ok c (.act t e) → c.tasks t = some ⟨l, mode, .act action next⟩ →
      I (S.perform c t l mode action next e))
    {c : Config A σ L M R} (reach : S.Reachable init ok c) : I c := by
  induction reach with
  | start h => exact base _ h
  | step _ permitted moved ih =>
      rcases move_cases moved with ⟨t, l, rfl, fresh, rfl⟩ |
        ⟨t, e, l, mode, β, action, next, rfl, found, rfl⟩
      · exact start _ t l ih permitted fresh
      · exact act _ t e l mode β action next ih permitted found

/-- Every program of the system follows its discipline from its start, and ends in a
    mode and with a result that satisfy `Q`. -/
def Disciplined (S : System A L M R) (Q : L → M → R → Prop) : Prop :=
  ∀ l, (S.program l).Follows S.discipline l (Q l) (S.discipline.start l)

/-- In a disciplined system every task keeps following the discipline from its mode. -/
theorem Reachable.follows {init : σ → Prop} {ok : Config A σ L M R → Move E L → Prop}
    {Q : L → M → R → Prop} (disciplined : S.Disciplined Q) {c : Config A σ L M R}
    (reach : S.Reachable init ok c) :
    ∀ t task, c.tasks t = some task →
      task.rest.Follows S.discipline task.label (Q task.label) task.mode := by
  refine Reachable.invariant (I := fun c => ∀ t task, c.tasks t = some task →
    task.rest.Follows S.discipline task.label (Q task.label) task.mode) ?_ ?_ ?_ reach
  · intro s _ t task h
    simp [initial] at h
  · intro c t l ih _ _ u task found
    rcases update_eq_some.mp found with ⟨rfl, rfl⟩ | ⟨_, found⟩
    · exact disciplined l
    · exact ih u task found
  · intro c t e l mode β action next ih _ held u task found
    rcases update_eq_some.mp found with ⟨rfl, rfl⟩ | ⟨_, found⟩
    · exact (ih u _ held).2 _
    · exact ih u task found

/-- `Reachable.invariant` for a disciplined system: the action that is performed is
    permitted, and the rest of its task follows the discipline. -/
theorem Reachable.disciplinedInvariant {init : σ → Prop}
    {ok : Config A σ L M R → Move E L → Prop} {Q : L → M → R → Prop}
    (disciplined : S.Disciplined Q) {I : Config A σ L M R → Prop}
    (base : ∀ s, init s → I (initial s))
    (start : ∀ c t l, I c → ok c (.start t l) → c.tasks t = none →
      I { c with tasks := Function.update c.tasks t (some (S.begin l)) })
    (act : ∀ c t e l mode (β : Type) (action : A β) (next : β → Program A R),
      I c → S.Reachable init ok c → ok c (.act t e) →
      c.tasks t = some ⟨l, mode, .act action next⟩ →
      (Program.act action next).Follows S.discipline l (Q l) mode →
      I (S.perform c t l mode action next e))
    {c : Config A σ L M R} (reach : S.Reachable init ok c) : I c := by
  induction reach with
  | start h => exact base _ h
  | step reached permitted moved ih =>
      rcases move_cases moved with ⟨t, l, rfl, fresh, rfl⟩ |
        ⟨t, e, l, mode, β, action, next, rfl, found, rfl⟩
      · exact start _ t l ih permitted fresh
      · exact act _ t e l mode β action next ih reached permitted found
          (reached.follows disciplined t _ found)

/-- A property of label and mode that holds at the start and that permitted actions keep
    holds of every task. -/
theorem Reachable.eachMode {init : σ → Prop} {ok : Config A σ L M R → Move E L → Prop}
    {Q : L → M → R → Prop} (disciplined : S.Disciplined Q) {P : L → M → Prop}
    (start : ∀ l, P l (S.discipline.start l))
    (act : ∀ l m (β : Type) (action : A β) (s : σ) (e : E), P l m →
      S.discipline.permits l m action →
      P l (S.discipline.next l m action (Semantics.exec action e s).1))
    {c : Config A σ L M R} (reach : S.Reachable init ok c) :
    ∀ t task, c.tasks t = some task → P task.label task.mode := by
  refine Reachable.disciplinedInvariant (I := fun c => ∀ t task, c.tasks t = some task →
    P task.label task.mode) disciplined ?_ ?_ ?_ reach
  · intro s _ t task taken
    cases taken
  · intro c t l old _ _ u task taken
    rcases update_eq_some.mp taken with ⟨rfl, rfl⟩ | ⟨_, taken⟩
    · exact start l
    · exact old u task taken
  · intro c t e l mode β action next old _ _ found follows u task taken
    rcases update_eq_some.mp taken with ⟨rfl, rfl⟩ | ⟨_, taken⟩
    · exact act l mode β action c.shared e (old u _ found) follows.1
    · exact old u task taken

/-- What holds of every action when it is performed, relative to the history so far. -/
theorem Reachable.event {init : σ → Prop} {ok : Config A σ L M R → Move E L → Prop}
    {Q : L → M → R → Prop} (disciplined : S.Disciplined Q)
    {P : List (Event A L M) → Event A L M → Prop}
    (act : ∀ c t e l mode (β : Type) (action : A β) (next : β → Program A R),
      S.Reachable init ok c → c.tasks t = some ⟨l, mode, .act action next⟩ →
      (Program.act action next).Follows S.discipline l (Q l) mode →
      P c.history ⟨t, l, mode, action, (Semantics.exec action e c.shared).1⟩)
    {c : Config A σ L M R} (reach : S.Reachable init ok c) :
    ∀ before event after, c.history = before ++ event :: after → P before event := by
  refine Reachable.disciplinedInvariant (I := fun c => ∀ before event after,
    c.history = before ++ event :: after → P before event) disciplined ?_ ?_ ?_ reach
  · intro s _ before event after split
    simp [initial] at split
  · intro c t l ih _ _
    exact ih
  · intro c t e l mode β action next ih reached _ held follows before event after split
    simp only [perform] at split
    -- the new action is the last one: it is the event, or it belongs to `after`
    rcases List.eq_nil_or_concat after with rfl | ⟨rest, last, rfl⟩
    · obtain ⟨rfl, same⟩ := List.append_inj' split rfl
      simp only [List.cons.injEq, and_true] at same
      exact same ▸ act c t e l mode β action next reached held follows
    · rw [List.concat_eq_append, ← List.cons_append, ← List.append_assoc] at split
      exact ih before event rest (List.append_inj' split rfl).1

/-- An event that every task performs at most once, as its last one, and that its mode
    remembers: the history holds it exactly when some task has it in its mode. -/
theorem Reachable.marked {τ : Type} {init : σ → Prop} {ok : Config A σ L M R → Move E L → Prop}
    {Q : L → M → R → Prop} (disciplined : S.Disciplined Q) {f : Event A L M → Option (Nat × τ)}
    {mark : L → M → Option τ} (fresh : ∀ l, mark l (S.discipline.start l) = none)
    (step : ∀ t l m (β : Type) (action : A β) b u x, S.discipline.permits l m action →
      (f ⟨t, l, m, action, b⟩ = some (u, x) ↔
        t = u ∧ mark l (S.discipline.next l m action b) = some x))
    (final : ∀ l m (β : Type) (action : A β), S.discipline.permits l m action → mark l m = none)
    {c : Config A σ L M R} (reach : S.Reachable init ok c) :
    ∀ t x, (t, x) ∈ c.history.filterMap f ↔
      ∃ task, c.tasks t = some task ∧ mark task.label task.mode = some x := by
  refine Reachable.disciplinedInvariant (I := fun c => ∀ t x,
    (t, x) ∈ c.history.filterMap f ↔
      ∃ task, c.tasks t = some task ∧ mark task.label task.mode = some x)
    disciplined ?_ ?_ ?_ reach
  · intro s _ t x
    simp [initial]
  · intro c t l ih _ unused u x
    refine (ih u x).trans ⟨?_, ?_⟩
    · rintro ⟨task, found, marked⟩
      refine ⟨task, update_eq_some.mpr (.inr ⟨?_, found⟩), marked⟩
      rintro rfl
      rw [unused] at found
      cases found
    · rintro ⟨task, found, marked⟩
      rcases update_eq_some.mp found with ⟨rfl, rfl⟩ | ⟨_, old⟩
      · rw [begin, fresh] at marked
        cases marked
      · exact ⟨task, old, marked⟩
  · intro c t e l mode β action next ih _ _ held follows u x
    rw [perform_filterMap, List.mem_append, ih u x, Option.mem_toList,
      step t l mode β action _ u x follows.1]
    constructor
    · rintro (⟨task, found, marked⟩ | ⟨rfl, marked⟩)
      · refine ⟨task, update_eq_some.mpr (.inr ⟨?_, found⟩), marked⟩
        -- a marked task performs nothing more
        rintro rfl
        rw [held, Option.some.injEq] at found
        subst found
        rw [final l mode β action follows.1] at marked
        cases marked
      · exact ⟨_, update_eq_some.mpr (.inl ⟨rfl, rfl⟩), marked⟩
    · rintro ⟨task, found, marked⟩
      rcases update_eq_some.mp found with ⟨rfl, rfl⟩ | ⟨_, old⟩
      · exact .inr ⟨rfl, marked⟩
      · exact .inl ⟨task, old, marked⟩

/-! ## Tasks that take turns -/

/-- The tasks of one class start one after the other: each after the last one returned. -/
def TakeTurns {K : Type} (kind : L → K) (c : Config A σ L M R) : Move E L → Prop
  | .start _ l => ∀ u task, c.tasks u = some task → kind task.label = kind l → ¬task.Running
  | .act _ _ => True

theorem Reachable.exclusive {K : Type} {kind : L → K} {init : σ → Prop}
    {ok : Config A σ L M R → Move E L → Prop} (turns : ∀ c m, ok c m → TakeTurns kind c m)
    {c : Config A σ L M R} (reach : S.Reachable init ok c) : c.Exclusive kind := by
  refine Reachable.invariant (I := fun c => c.Exclusive kind) ?_ ?_ ?_ reach
  · intro s _ t u x y hx
    cases hx
  · intro c t l ih permitted _ u v x y hx hy same runX runY
    have alone := turns c _ permitted
    rcases update_eq_some.mp hx with ⟨rfl, rfl⟩ | ⟨_, oldX⟩
    · rcases update_eq_some.mp hy with ⟨rfl, rfl⟩ | ⟨_, oldY⟩
      · rfl
      · exact absurd runY (alone v y oldY same.symm)
    · rcases update_eq_some.mp hy with ⟨rfl, rfl⟩ | ⟨_, oldY⟩
      · exact absurd runX (alone u x oldX same)
      · exact ih u v x y oldX oldY same runX runY
  · intro c t e l mode β action next ih _ held u v x y hx hy same runX runY
    have active : (⟨l, mode, .act action next⟩ : Task A L M R).Running := by
      intro a h
      cases h
    rcases update_eq_some.mp hx with ⟨rfl, rfl⟩ | ⟨_, oldX⟩
    · rcases update_eq_some.mp hy with ⟨rfl, rfl⟩ | ⟨_, oldY⟩
      · rfl
      · exact ih u v _ y held oldY same active runY
    · rcases update_eq_some.mp hy with ⟨rfl, rfl⟩ | ⟨_, oldY⟩
      · exact ih u v x _ oldX held same runX active
      · exact ih u v x y oldX oldY same runX runY

/-! ## Moves of one task -/

/-- A run of one task whose moves are `ok` as long as `I` holds, and which keeps `I`. -/
theorem Reachable.along {init : σ → Prop} {ok : Config A σ L M R → Move E L → Prop} {t : Nat}
    {I : Config A σ L M R → Prop} (acts : ∀ c e, S.Reachable init ok c → I c → ok c (.act t e))
    (keeps : ∀ c e c', I c → S.move c (.act t e) = some c' → I c') {es : List E}
    {c c' : Config A σ L M R} (reach : S.Reachable init ok c) (holds : I c)
    (h : S.run c (es.map (.act t)) = some c') : S.Reachable init ok c' := by
  induction es generalizing c with
  | nil =>
      simp only [List.map_nil, System.run, Option.some.injEq] at h
      exact h ▸ reach
  | cons e es ih =>
      simp only [List.map_cons, System.run, Option.bind_eq_some_iff] at h
      obtain ⟨c₁, moved, rest⟩ := h
      exact ih (reach.step (acts c e reach holds) moved) (keeps c e c₁ holds moved) rest

/-- An action leaves the tasks and their labels as they are. -/
theorem move_label {t u : Nat} {e : E} {c c' : Config A σ L M R} {task : Task A L M R}
    (moved : S.move c (.act t e) = some c') (found : c'.tasks u = some task) :
    ∃ before, c.tasks u = some before ∧ before.label = task.label := by
  rcases move_cases moved with ⟨_, _, same, _⟩ | ⟨v, _, l, mode, β, action, next, _, held, rfl⟩
  · cases same
  · rcases update_eq_some.mp found with ⟨rfl, rfl⟩ | ⟨_, old⟩
    · exact ⟨_, held, rfl⟩
    · exact ⟨task, old, rfl⟩

/-- Task `t` is the only one. -/
def Alone (t : Nat) (c : Config A σ L M R) : Prop := ∀ u, u ≠ t → c.tasks u = none

theorem Alone.move {t : Nat} {e : E} {c c' : Config A σ L M R} (only : Alone t c)
    (moved : S.move c (.act t e) = some c') : Alone t c' := by
  rcases move_cases moved with ⟨_, _, same, _⟩ | ⟨u, _, l, mode, β, action, next, same, _, rfl⟩
  · cases same
  · injection same with same
    subst same
    intro v other
    exact (Function.update_of_ne other _ _).trans (only v other)

/-! ## Running one task to its end -/

/-- Task `t` can run alone from mode `m` and state `s` to an end where its result, its
    mode, the state and the events it performed satisfy `Q`. -/
def Solo (D : Discipline A L M) (t : Nat) (l : L) {R : Type} :
    Program A R → (R → M → σ → List (Event A L M) → Prop) → M → σ → Prop
  | .done a, Q, m, s => Q a m s []
  | .act action next, Q, m, s => ∃ e : E,
      Solo D t l (next (Semantics.exec action e s).1)
        (fun a m' s' events =>
          Q a m' s' (⟨t, l, m, action, (Semantics.exec action e s).1⟩ :: events))
        (D.next l m action (Semantics.exec action e s).1) (Semantics.exec action e s).2

theorem solo_act {D : Discipline A L M} {t : Nat} {l : L} {β : Type} {action : A β}
    {next : β → Program A R} {Q : R → M → σ → List (Event A L M) → Prop} {m : M} {s : σ} :
    Solo D t l (.act action next) Q m s ↔ ∃ e : E,
      Solo D t l (next (Semantics.exec action e s).1)
        (fun a m' s' events =>
          Q a m' s' (⟨t, l, m, action, (Semantics.exec action e s).1⟩ :: events))
        (D.next l m action (Semantics.exec action e s).1) (Semantics.exec action e s).2 := Iff.rfl

theorem Solo.mono {D : Discipline A L M} {t : Nat} {l : L} {p : Program A R}
    {Q Q' : R → M → σ → List (Event A L M) → Prop} {m : M} {s : σ} (run : Solo D t l p Q m s)
    (imp : ∀ a m' s' events, Q a m' s' events → Q' a m' s' events) : Solo D t l p Q' m s := by
  induction p generalizing Q Q' m s with
  | done a => exact imp _ _ _ _ run
  | act action next ih =>
      obtain ⟨e, rest⟩ := run
      exact ⟨e, ih _ rest (fun a m' s' events h => imp _ _ _ _ h)⟩

theorem Solo.bind {D : Discipline A L M} {t : Nat} {l : L} {R' : Type} {p : Program A R}
    {f : R → Program A R'} {Q : R' → M → σ → List (Event A L M) → Prop} {m : M} {s : σ}
    (run : Solo D t l p (fun a m' s' events => Solo D t l (f a)
      (fun b m'' s'' more => Q b m'' s'' (events ++ more)) m' s') m s) :
    Solo D t l (p >>= f) Q m s := by
  induction p generalizing Q m s with
  | done a => exact run
  | act action next ih =>
      obtain ⟨e, rest⟩ := run
      exact ⟨e, ih _ rest⟩

/-- A run of one task alone is a run of the system. -/
theorem Reachable.solo {init : σ → Prop} {ok : Config A σ L M R → Move E L → Prop}
    {t : Nat} {l : L} {p : Program A R} {m : M} {Q : R → M → σ → List (Event A L M) → Prop}
    {c : Config A σ L M R} (run : Solo S.discipline t l p Q m c.shared)
    (acts : ∀ c e, ok c (.act t e)) (reach : S.Reachable init ok c)
    (task : c.tasks t = some ⟨l, m, p⟩) :
    ∃ a m' s' events, Q a m' s' events ∧ S.Reachable init ok
      ⟨s', Function.update c.tasks t (some ⟨l, m', .done a⟩), c.history ++ events⟩ := by
  induction p generalizing Q m c with
  | done a =>
      have unchanged : Function.update c.tasks t (some ⟨l, m, .done a⟩) = c.tasks := by
        rw [← task, Function.update_eq_self]
      exact ⟨a, m, c.shared, [], run, by simpa only [unchanged, List.append_nil] using reach⟩
  | act action next ih =>
      obtain ⟨e, rest⟩ := run
      have moved : S.move c (.act t e) = some (S.perform c t l m action next e) := by
        simp only [move, task]
      obtain ⟨a, m', s', events, holds, final⟩ :=
        ih _ rest (reach.step (acts c e) moved) (Function.update_self _ _ _)
      refine ⟨a, m', s', _, holds, ?_⟩
      simpa only [perform, Function.update_idem, List.append_assoc, List.singleton_append]
        using final

/-- A fresh task starts a program and runs alone to its end. -/
theorem Reachable.call {init : σ → Prop} {ok : Config A σ L M R → Move E L → Prop}
    {t : Nat} {l : L} {Q : R → M → σ → List (Event A L M) → Prop} {c : Config A σ L M R}
    (reach : S.Reachable init ok c) (fresh : c.tasks t = none) (starts : ok c (.start t l))
    (acts : ∀ c e, ok c (.act t e))
    (run : Solo S.discipline t l (S.program l) Q (S.discipline.start l) c.shared) :
    ∃ a m' s' events, Q a m' s' events ∧ S.Reachable init ok
      ⟨s', Function.update c.tasks t (some ⟨l, m', .done a⟩), c.history ++ events⟩ := by
  have moved : S.move c (.start t l) =
      some { c with tasks := Function.update c.tasks t (some (S.begin l)) } := by
    simp only [move, fresh]
  have started := reach.step starts moved
  obtain ⟨a, m', s', events, holds, final⟩ :=
    Reachable.solo (c := { c with tasks := Function.update c.tasks t (some (S.begin l)) })
      run acts started (Function.update_self _ _ _)
  exact ⟨a, m', s', events, holds, by simpa only [Function.update_idem] using final⟩

end System

end Atomic
