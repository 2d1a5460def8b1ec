import Mathlib.Tactic.Common

/-! # Programs of atomic actions

A program is a tree of atomic actions on a shared state: each node performs one
action and continues with its answer. The same program is read in three ways: run
alone to its end (`Completes`, reasoned about with `wp`), run alone up to an
arbitrary point (`Prefix`, reasoned about with `wpc`), and interleaved one action
at a time with other programs (`Interleaving`).

An action gets an input of the environment with every execution, so that clocks,
entropy and failures of the platform are arbitrary and differ from step to step.
-/

namespace Atomic

/-- What one atomic action does: its answer and the shared state after it. -/
class Semantics (A : Type → Type 1) (E σ : outParam Type) where
  exec : {β : Type} → A β → E → σ → β × σ

inductive Program (A : Type → Type 1) (α : Type) : Type 1 where
  | done (value : α)
  | act {β : Type} (action : A β) (next : β → Program A α)

namespace Program

variable {A : Type → Type 1} {E σ α β γ : Type}

def bind : Program A α → (α → Program A β) → Program A β
  | .done a, f => f a
  | .act action next, f => .act action (fun b => (next b).bind f)

/-- The program of one action. -/
def lift (action : A α) : Program A α := .act action .done

instance : Monad (Program A) where
  pure := .done
  bind := bind

theorem bind_assoc (p : Program A α) (f : α → Program A β) (g : β → Program A γ) :
    (p.bind f).bind g = p.bind (fun a => (f a).bind g) := by
  induction p with
  | done a => rfl
  | act action next ih =>
      simp only [bind]
      congr 1
      funext b
      exact ih b

@[simp] theorem done_bind (a : α) (f : α → Program A β) : (Program.done a >>= f) = f a := rfl

@[simp] theorem pure_eq (a : α) : (pure a : Program A α) = .done a := rfl

@[simp] theorem lift_bind (action : A α) (f : α → Program A β) :
    (lift action >>= f) = .act action f := rfl

@[simp] theorem act_bind (action : A γ) (next : γ → Program A α) (f : α → Program A β) :
    (Program.act action next >>= f) = .act action (fun b => next b >>= f) := rfl

variable [Semantics A E σ]

open Semantics

/-- Every complete run of the program alone from `s` ends with `Q`. -/
def wp : Program A α → (α → σ → Prop) → σ → Prop
  | .done a, Q, s => Q a s
  | .act action next, Q, s => ∀ e : E, (next (exec action e s).1).wp Q (exec action e s).2

/-- As `wp`, and `C` holds at every point of the run, before the first action and
    after each one: `C` is what a crash can leave behind. -/
def wpc : Program A α → (α → σ → Prop) → (σ → Prop) → σ → Prop
  | .done a, Q, C, s => C s ∧ Q a s
  | .act action next, Q, C, s =>
      C s ∧ ∀ e : E, (next (exec action e s).1).wpc Q C (exec action e s).2

/-- As `wp`, and every action of the run is performed in a state where `ok` allows it. -/
def wps (ok : {β : Type} → A β → σ → Prop) : Program A α → (α → σ → Prop) → σ → Prop
  | .done a, Q, s => Q a s
  | .act action next, Q, s =>
      ok action s ∧ ∀ e : E, (next (exec action e s).1).wps ok Q (exec action e s).2

/-- As `wps`, for the inputs of the environment in `good`. -/
def wpsIn (good : E → Prop) (ok : {β : Type} → A β → σ → Prop) :
    Program A α → (α → σ → Prop) → σ → Prop
  | .done a, Q, s => Q a s
  | .act action next, Q, s => ok action s ∧
      ∀ e : E, good e → (next (exec action e s).1).wpsIn good ok Q (exec action e s).2

/-- A complete run alone from `s`, with its result. -/
inductive Completes : Program A α → σ → α → σ → Prop where
  | done (a : α) (s : σ) : Completes (.done a) s a s
  | act {τ : Type} {action : A τ} {next : τ → Program A α} {s s' : σ} {a : α} (e : E) :
      Completes (next (exec action e s).1) (exec action e s).2 a s' →
      Completes (.act action next) s a s'

/-- A complete run alone from `s` in which the environment gives only inputs in `good`. -/
inductive CompletesIn (good : E → Prop) : Program A α → σ → α → σ → Prop where
  | done (a : α) (s : σ) : CompletesIn good (.done a) s a s
  | act {τ : Type} {action : A τ} {next : τ → Program A α} {s s' : σ} {a : α} (e : E) :
      good e → CompletesIn good (next (exec action e s).1) (exec action e s).2 a s' →
      CompletesIn good (.act action next) s a s'

/-- The run in which the environment gives every action the same input. -/
def runWith (e : E) : Program A α → σ → α × σ
  | .done a, s => (a, s)
  | .act action next, s => (next (exec action e s).1).runWith e (exec action e s).2

/-- The state after the first `n` actions of that run. -/
def runSteps (e : E) : Nat → Program A α → σ → σ
  | 0, _, s => s
  | _ + 1, .done _, s => s
  | n + 1, .act action next, s => (next (exec action e s).1).runSteps e n (exec action e s).2

/-- The state after some of the program's actions, run alone from `s`. -/
inductive Prefix : Program A α → σ → σ → Prop where
  | here (p : Program A α) (s : σ) : Prefix p s s
  | act {τ : Type} {action : A τ} {next : τ → Program A α} {s s' : σ} (e : E) :
      Prefix (next (exec action e s).1) (exec action e s).2 s' →
      Prefix (.act action next) s s'

/-- The program, run alone from `s`, performs `action` in the state `s'`. -/
inductive Performs : {α : Type} → Program A α → σ → {β : Type} → A β → σ → Prop where
  | here {α β : Type} {action : A β} {next : β → Program A α} (s : σ) :
      Performs (.act action next) s action s
  | later {α β τ : Type} {action : A τ} {next : τ → Program A α} {s s' : σ} {last : A β} (e : E) :
      Performs (next (exec action e s).1) (exec action e s).2 last s' →
      Performs (.act action next) s last s'

@[simp] theorem wp_done (a : α) (Q : α → σ → Prop) (s : σ) :
    (Program.done a : Program A α).wp Q s ↔ Q a s := Iff.rfl

theorem wp_act (action : A β) (next : β → Program A α) (Q : α → σ → Prop) (s : σ) :
    (Program.act action next).wp Q s ↔
      ∀ e : E, (next (exec action e s).1).wp Q (exec action e s).2 := Iff.rfl

theorem wp_bind (p : Program A α) (f : α → Program A β) (Q : β → σ → Prop) (s : σ) :
    (p >>= f).wp Q s ↔ p.wp (fun a s' => (f a).wp Q s') s := by
  induction p generalizing s with
  | done a => rfl
  | act action next ih => exact forall_congr' fun e => ih _ _

theorem wp_mono {p : Program A α} {Q R : α → σ → Prop} {s : σ}
    (h : p.wp Q s) (imp : ∀ a s', Q a s' → R a s') : p.wp R s := by
  induction p generalizing s with
  | done a => exact imp a s h
  | act action next ih => exact fun e => ih _ (h e)

theorem wp_true (p : Program A α) (s : σ) : p.wp (fun _ _ => True) s := by
  induction p generalizing s with
  | done a => trivial
  | act action next ih => exact fun e => ih _ _

theorem wp_and {p : Program A α} {Q R : α → σ → Prop} {s : σ}
    (left : p.wp Q s) (right : p.wp R s) : p.wp (fun a s' => Q a s' ∧ R a s') s := by
  induction p generalizing s with
  | done a => exact ⟨left, right⟩
  | act action next ih => exact fun e => ih _ (left e) (right e)

section Safe

variable {ok : {β : Type} → A β → σ → Prop}

theorem wps_bind (p : Program A α) (f : α → Program A β) (Q : β → σ → Prop) (s : σ) :
    (p >>= f).wps ok Q s ↔ p.wps ok (fun a s' => (f a).wps ok Q s') s := by
  induction p generalizing s with
  | done a => rfl
  | act action next ih => exact and_congr Iff.rfl (forall_congr' fun e => ih _ _)

theorem wps_mono {p : Program A α} {Q R : α → σ → Prop} {s : σ}
    (h : p.wps ok Q s) (imp : ∀ a s', Q a s' → R a s') : p.wps ok R s := by
  induction p generalizing s with
  | done a => exact imp a s h
  | act action next ih => exact ⟨h.1, fun e => ih _ (h.2 e)⟩

theorem wps_and {p : Program A α} {Q R : α → σ → Prop} {s : σ}
    (left : p.wps ok Q s) (right : p.wps ok R s) : p.wps ok (fun a s' => Q a s' ∧ R a s') s := by
  induction p generalizing s with
  | done a => exact ⟨left, right⟩
  | act action next ih => exact ⟨left.1, fun e => ih _ (left.2 e) (right.2 e)⟩

theorem wps_ite {c : Prop} [Decidable c] {p q : Program A α} {Q : α → σ → Prop} {s : σ}
    (pos : c → p.wps ok Q s) (neg : ¬c → q.wps ok Q s) : (if c then p else q).wps ok Q s := by
  split
  · exact pos ‹c›
  · exact neg ‹¬c›

/-- What holds of every run that is allowed holds of every run. -/
theorem wps.wp {p : Program A α} {Q : α → σ → Prop} {s : σ} (h : p.wps ok Q s) : p.wp Q s := by
  induction p generalizing s with
  | done a => exact h
  | act action next ih => exact fun e => ih _ (h.2 e)

section Within

variable {good : E → Prop}

theorem wpsIn_bind (p : Program A α) (f : α → Program A β) (Q : β → σ → Prop) (s : σ) :
    (p >>= f).wpsIn good ok Q s ↔ p.wpsIn good ok (fun a s' => (f a).wpsIn good ok Q s') s := by
  induction p generalizing s with
  | done a => rfl
  | act action next ih =>
      exact and_congr Iff.rfl (forall_congr' fun e => imp_congr Iff.rfl (ih _ _))

theorem wpsIn_mono {p : Program A α} {Q R : α → σ → Prop} {s : σ}
    (h : p.wpsIn good ok Q s) (imp : ∀ a s', Q a s' → R a s') : p.wpsIn good ok R s := by
  induction p generalizing s with
  | done a => exact imp a s h
  | act action next ih => exact ⟨h.1, fun e allowed => ih _ (h.2 e allowed)⟩

theorem wpsIn_ite {c : Prop} [Decidable c] {p q : Program A α} {Q : α → σ → Prop} {s : σ}
    (pos : c → p.wpsIn good ok Q s) (neg : ¬c → q.wpsIn good ok Q s) :
    (if c then p else q).wpsIn good ok Q s := by
  split
  · exact pos ‹c›
  · exact neg ‹¬c›

/-- What holds in every environment holds in the good ones. -/
theorem wps.within {p : Program A α} {Q : α → σ → Prop} {s : σ} (h : p.wps ok Q s) :
    p.wpsIn good ok Q s := by
  induction p generalizing s with
  | done a => exact h
  | act action next ih => exact ⟨h.1, fun e _ => ih _ (h.2 e)⟩

/-- What holds in the good environments holds in every one when all are good. -/
theorem wpsIn.all {p : Program A α} {Q : α → σ → Prop} {s : σ} (h : p.wpsIn good ok Q s)
    (all : ∀ e, good e) : p.wps ok Q s := by
  induction p generalizing s with
  | done a => exact h
  | act action next ih => exact ⟨h.1, fun e => ih _ (h.2 e (all e))⟩

theorem wpsIn_and {ok' : {β : Type} → A β → σ → Prop} {p : Program A α} {Q R : α → σ → Prop} {s : σ}
    (left : p.wpsIn good ok Q s) (right : p.wpsIn good ok' R s) :
    p.wpsIn good ok (fun a s' => Q a s' ∧ R a s') s := by
  induction p generalizing s with
  | done a => exact ⟨left, right⟩
  | act action next ih => exact ⟨left.1, fun e allowed => ih _ (left.2 e allowed) (right.2 e allowed)⟩

theorem CompletesIn.sound {p : Program A α} {s s' : σ} {a : α} (run : CompletesIn good p s a s')
    {Q : α → σ → Prop} (h : p.wpsIn good ok Q s) : Q a s' := by
  induction run with
  | done a s => exact h
  | act e allowed _ ih => exact ih (h.2 e allowed)

end Within

theorem Performs.allowed {p : Program A α} {s s' : σ} {action : A β}
    (performs : Performs p s action s') {Q : α → σ → Prop} (h : p.wps ok Q s) : ok action s' := by
  induction performs with
  | here s => exact h.1
  | later e _ ih => exact ih (h.2 e)

end Safe

theorem runWith_completes (e : E) (p : Program A α) (s : σ) :
    Completes p s (p.runWith e s).1 (p.runWith e s).2 := by
  induction p generalizing s with
  | done a => exact .done a s
  | act action next ih => exact .act e (ih _ _)

theorem runSteps_cut (e : E) (n : Nat) (p : Program A α) (s : σ) :
    Prefix p s (p.runSteps e n s) := by
  induction n generalizing p s with
  | zero => exact .here p s
  | succ n ih =>
      cases p with
      | done a => exact .here _ s
      | act action next => exact .act e (ih _ _)

theorem CompletesIn.completes {good : E → Prop} {p : Program A α} {s s' : σ} {a : α}
    (run : CompletesIn good p s a s') : Completes p s a s' := by
  induction run with
  | done a s => exact .done a s
  | act e _ _ ih => exact .act e ih

theorem runWith_completesIn {good : E → Prop} {e : E} (allowed : good e) (p : Program A α) (s : σ) :
    CompletesIn good p s (p.runWith e s).1 (p.runWith e s).2 := by
  induction p generalizing s with
  | done a => exact .done a s
  | act action next ih => exact .act e allowed (ih _ _)

/-- In the good environments the program answers only what satisfies `P`, from every state. -/
def Yields (good : E → Prop) (P : α → Prop) (p : Program A α) : Prop :=
  ∀ s, p.wpsIn good (fun _ _ => True) (fun a _ => P a) s

section Yields

variable {good : E → Prop} {P : α → Prop}

theorem yields_done {a : α} (holds : P a) : Yields good P (.done a : Program A α) := fun _ => holds

theorem yields_act {action : A β} {next : β → Program A α}
    (rest : ∀ e s, good e → Yields good P (next (exec action e s).1)) :
    Yields good P (.act action next) :=
  fun s => ⟨trivial, fun e allowed => rest e s allowed _⟩

theorem Yields.bind {P' : β → Prop} {p : Program A β} {f : β → Program A α}
    (first : Yields good P' p) (rest : ∀ b, P' b → Yields good P (f b)) :
    Yields good P (p >>= f) := by
  intro s
  rw [wpsIn_bind]
  exact wpsIn_mono (first s) fun b s' holds => rest b holds s'

theorem yields_ite {c : Prop} [Decidable c] {p q : Program A α} (pos : c → Yields good P p)
    (neg : ¬c → Yields good P q) : Yields good P (if c then p else q) := by
  split
  · exact pos ‹c›
  · exact neg ‹¬c›

theorem yields_true (p : Program A α) : Yields good (fun _ => True) p := by
  induction p with
  | done a => exact yields_done trivial
  | act action next ih => exact yields_act fun _ _ _ => ih _

end Yields

/-- A complete run of a sequence goes through its middle. -/
theorem Completes.bind {p : Program A α} {f : α → Program A β} {s s'' : σ} {b : β}
    (run : Completes (p >>= f) s b s'') :
    ∃ a s', Completes p s a s' ∧ Completes (f a) s' b s'' := by
  induction p generalizing s with
  | done a => exact ⟨a, s, .done a s, run⟩
  | act action next ih =>
      cases run with
      | act e rest =>
          obtain ⟨a, s', first, second⟩ := ih _ rest
          exact ⟨a, s', .act e first, second⟩

theorem CompletesIn.bind {good : E → Prop} {p : Program A α} {f : α → Program A β} {s s'' : σ} {b : β}
    (run : CompletesIn good (p >>= f) s b s'') :
    ∃ a s', CompletesIn good p s a s' ∧ CompletesIn good (f a) s' b s'' := by
  induction p generalizing s with
  | done a => exact ⟨a, s, .done a s, run⟩
  | act action next ih =>
      cases run with
      | act e allowed rest =>
          obtain ⟨a, s', first, second⟩ := ih _ rest
          exact ⟨a, s', .act e allowed first, second⟩

/-- A run of a sequence, put together from its parts. -/
theorem Completes.append {p : Program A α} {f : α → Program A β} {s s' s'' : σ} {a : α} {b : β}
    (first : Completes p s a s') (rest : Completes (f a) s' b s'') : Completes (p >>= f) s b s'' := by
  induction first with
  | done a s => exact rest
  | act e _ ih => exact .act e (ih rest)

theorem CompletesIn.append {good : E → Prop} {p : Program A α} {f : α → Program A β} {s s' s'' : σ}
    {a : α} {b : β} (first : CompletesIn good p s a s') (rest : CompletesIn good (f a) s' b s'') :
    CompletesIn good (p >>= f) s b s'' := by
  induction first with
  | done a s => exact rest
  | act e allowed _ ih => exact .act e allowed (ih rest)

/-! ## What a program can perform -/

section Every

variable {ok : {β : Type} → A β → Prop}

/-- Every action that the program can perform is `ok`. -/
def Every (ok : {β : Type} → A β → Prop) : Program A α → Prop
  | .done _ => True
  | .act action next => ok action ∧ ∀ b, Every ok (next b)

theorem every_act {action : A β} {next : β → Program A α} (allowed : ok action)
    (rest : ∀ b, Every ok (next b)) : Every ok (.act action next : Program A α) := ⟨allowed, rest⟩

theorem Every.bind {p : Program A β} {f : β → Program A α} (first : Every ok p)
    (rest : ∀ b, Every ok (f b)) : Every ok (p >>= f) := by
  induction p with
  | done b => exact rest b
  | act action next ih => exact ⟨first.1, fun b => ih b (first.2 b)⟩

theorem every_ite {c : Prop} [Decidable c] {p q : Program A α} (pos : Every ok p)
    (neg : Every ok q) : Every ok (if c then p else q) := by
  split
  · exact pos
  · exact neg

/-- What the actions that are `ok` preserve, a run preserves. -/
theorem Every.preserves {P : σ → Prop} {p : Program A α} {s s' : σ} {a : α} (every : Every ok p)
    (step : ∀ {β : Type} (action : A β) (e : E) (s : σ), ok action → P s → P (exec action e s).2)
    (run : Completes p s a s') (holds : P s) : P s' := by
  induction run with
  | done a s => exact holds
  | act e _ ih => exact ih (every.2 _) (step _ e _ every.1 holds)

end Every

/-! ## Looking around -/

/-- From `s` the program goes on as `q`, after actions that leave `s` alone and answer the
    same in every environment. -/
inductive Looks (s : σ) : Program A α → Program A α → Prop where
  | here (p : Program A α) : Looks s p p
  | act {τ : Type} {action : A τ} {next : τ → Program A α} {q : Program A α} (b : τ) :
      (∀ e : E, exec action e s = (b, s)) → Looks s (next b) q → Looks s (.act action next) q

theorem Looks.bind {s : σ} {p : Program A α} {a : α} {f : α → Program A β} {q : Program A β}
    (first : Looks s p (.done a)) (rest : Looks s (f a) q) : Looks s (p >>= f) q := by
  generalize final : Program.done a = d at first
  induction first with
  | here p =>
      subst final
      exact rest
  | act b same _ ih => exact .act b same (ih final)

/-- Where a run can be cut off while it looks around and afterwards. -/
theorem Looks.cut {s s' : σ} {p q : Program A α} (looks : Looks s p q) (run : Prefix p s s') :
    s' = s ∨ Prefix q s s' := by
  induction looks with
  | here p => exact .inr run
  | act b same _ ih =>
      cases run with
      | here => exact .inl rfl
      | act e rest =>
          rw [same e] at rest
          exact ih rest

theorem Looks.prefixed [Inhabited E] {s s' : σ} {p q : Program A α} (looks : Looks s p q)
    (run : Prefix q s s') : Prefix p s s' := by
  induction looks with
  | here p => exact run
  | act b same _ ih =>
      refine .act default ?_
      rw [same default]
      exact ih run

/-- A complete run goes on after the looks. -/
theorem Looks.completes {s s' : σ} {p q : Program A α} {a : α} (looks : Looks s p q)
    (run : Completes p s a s') : Completes q s a s' := by
  induction looks with
  | here p => exact run
  | act b same _ ih =>
      cases run with
      | act e rest =>
          rw [same e] at rest
          exact ih rest

theorem Looks.completesIn {good : E → Prop} {s s' : σ} {p q : Program A α} {a : α}
    (looks : Looks s p q) (run : CompletesIn good p s a s') : CompletesIn good q s a s' := by
  induction looks with
  | here p => exact run
  | act b same _ ih =>
      cases run with
      | act e _ rest =>
          rw [same e] at rest
          exact ih rest

/-- What the program goes on with can be run after the looks. -/
theorem Looks.runs [Inhabited E] {s s' : σ} {p q : Program A α} {a : α} (looks : Looks s p q)
    (run : Completes q s a s') : Completes p s a s' := by
  induction looks with
  | here p => exact run
  | act b same _ ih =>
      refine .act default ?_
      rw [same default]
      exact ih run

/-- From `s` the program gets to `q` in `s'`, in the same way in every environment. -/
inductive Goes : σ → Program A α → σ → Program A α → Prop where
  | here (s : σ) (p : Program A α) : Goes s p s p
  | act {τ : Type} {action : A τ} {next : τ → Program A α} {s s₁ s' : σ} {q : Program A α} (b : τ) :
      (∀ e : E, exec action e s = (b, s₁)) → Goes s₁ (next b) s' q → Goes s (.act action next) s' q

theorem Looks.goes {s : σ} {p q : Program A α} (looks : Looks s p q) : Goes s p s q := by
  induction looks with
  | here p => exact .here s p
  | act b same _ ih => exact .act b same ih

theorem Goes.bind {s s' s'' : σ} {p : Program A α} {a : α} {f : α → Program A β} {q : Program A β}
    (first : Goes s p s' (.done a)) (rest : Goes s' (f a) s'' q) : Goes s (p >>= f) s'' q := by
  generalize final : Program.done a = d at first
  induction first with
  | here s p =>
      subst final
      exact rest
  | act b same _ ih => exact .act b same (ih rest final)

theorem Goes.trans {s s' s'' : σ} {p q q' : Program A α} (first : Goes s p s' q)
    (rest : Goes s' q s'' q') : Goes s p s'' q' := by
  induction first with
  | here s p => exact rest
  | act b same _ ih => exact .act b same (ih rest)

/-- What holds from where the program gets holds from its start. -/
theorem Goes.wp {s s' : σ} {p q : Program A α} {Q : α → σ → Prop} (goes : Goes s p s' q)
    (rest : q.wp Q s') : p.wp Q s := by
  induction goes with
  | here s p => exact rest
  | act b same _ ih =>
      intro e
      rw [same e]
      exact ih rest

/-- A program that looks around performs what it goes on with. -/
theorem Looks.performs [Inhabited E] {s : σ} {p : Program A α} {action : A β}
    {next : β → Program A α} (looks : Looks s p (.act action next)) : Performs p s action s := by
  generalize final : Program.act action next = q at looks
  induction looks with
  | here p =>
      subst final
      exact .here s
  | act b same _ ih =>
      refine .later default ?_
      rw [same default]
      exact ih final

/-- What `wp` promises holds of every complete run. -/
theorem Completes.sound {p : Program A α} {s s' : σ} {a : α}
    (run : Completes p s a s') {Q : α → σ → Prop} (h : p.wp Q s) : Q a s' := by
  induction run with
  | done a s => exact h
  | act e _ ih => exact ih (h e)

theorem wpc_bind (p : Program A α) (f : α → Program A β) {Q : β → σ → Prop} {C : σ → Prop} {s : σ}
    (first : p.wpc (fun a s' => (f a).wpc Q C s') C s) : (p >>= f).wpc Q C s := by
  induction p generalizing s with
  | done a => exact first.2
  | act action next ih => exact ⟨first.1, fun e => ih _ (first.2 e)⟩

theorem wpc_mono {p : Program A α} {Q R : α → σ → Prop} {C D : σ → Prop} {s : σ}
    (h : p.wpc Q C s) (imp : ∀ a s', Q a s' → R a s') (cut : ∀ s', C s' → D s') : p.wpc R D s := by
  induction p generalizing s with
  | done a => exact ⟨cut s h.1, imp a s h.2⟩
  | act action next ih => exact ⟨cut s h.1, fun e => ih _ (h.2 e)⟩

/-- A run that ends is also one that can be cut off there. -/
theorem wpc.ends {p : Program A α} {Q : α → σ → Prop} {C : σ → Prop} {s : σ} (h : p.wpc Q C s) :
    p.wpc (fun a s' => C s' ∧ Q a s') C s := by
  induction p generalizing s with
  | done a => exact ⟨h.1, h⟩
  | act action next ih => exact ⟨h.1, fun e => ih _ (h.2 e)⟩

theorem wpc.wp {p : Program A α} {Q : α → σ → Prop} {C : σ → Prop} {s : σ} (h : p.wpc Q C s) :
    p.wp Q s := by
  induction p generalizing s with
  | done a => exact h.2
  | act action next ih => exact fun e => ih _ (h.2 e)

/-- What `wpc` promises holds wherever a run is cut off. -/
theorem Prefix.sound {p : Program A α} {s s' : σ} (run : Prefix p s s')
    {Q : α → σ → Prop} {C : σ → Prop} (h : p.wpc Q C s) : C s' := by
  induction run with
  | here p s => cases p <;> exact h.1
  | act e _ ih => exact ih (h.2 e)

end Program

end Atomic
