import Zipc.Lib.Interleaving

/-! # A program beside another one

One program runs to its end while another one takes steps in between. The environment
gives the first program the same inputs whether the other one moves or not, so its answer
beside the other program can be compared with its answer alone. A program is steady for a
relation of the two runs when related states make it go on in the same way.
-/

namespace Atomic

namespace Program

open Semantics

variable {A : Type → Type 1} {E σ L M X α β γ : Type} [Semantics A E σ]

/-- The run alone, from the `n`-th action on, in which the environment gives each action
    its own input. -/
def runFrom (inputs : Nat → E) : Program A α → Nat → σ → α × σ
  | .done a, _, s => (a, s)
  | .act action next, n, s =>
      (next (exec action (inputs n) s).1).runFrom inputs (n + 1) (exec action (inputs n) s).2

/-- From `s` the first program returns `a`, while the second takes steps in between that
    `ok` allows. The mode of the first one is what it did so far. -/
inductive Beside (track : {β : Type} → X → A β → β → X)
    (ok : {β : Type} → X → A β → σ → Prop) (inputs : Nat → E) :
    Program A α → X → Nat → Program A γ → σ → α → Prop where
  | done (a : α) (x : X) (n : Nat) (q : Program A γ) (s : σ) :
      Beside track ok inputs (.done a) x n q s a
  | mine {τ : Type} {action : A τ} {next : τ → Program A α} {x : X} {n : Nat} {q : Program A γ}
      {s : σ} {a : α} :
      Beside track ok inputs (next (exec action (inputs n) s).1)
        (track x action (exec action (inputs n) s).1) (n + 1) q (exec action (inputs n) s).2 a →
      Beside track ok inputs (.act action next) x n q s a
  | theirs {τ : Type} {p : Program A α} {x : X} {n : Nat} {action : A τ}
      {next : τ → Program A γ} {s : σ} {a : α} (e : E) : ok x action s →
      Beside track ok inputs p x n (next (exec action e s).1) (exec action e s).2 a →
      Beside track ok inputs p x n (.act action next) s a

/-- The run in the order of a schedule, `true` for a step of the first program; the other
    one gets the input `e` every time. -/
def scheduled (inputs : Nat → E) (e : E) :
    List Bool → Program A α → Nat → Program A γ → σ → Option α
  | _, .done a, _, _, _ => some a
  | true :: turns, .act action next, n, q, s =>
      scheduled inputs e turns (next (exec action (inputs n) s).1) (n + 1) q
        (exec action (inputs n) s).2
  | false :: turns, p, n, .act action next, s =>
      scheduled inputs e turns p n (next (exec action e s).1) (exec action e s).2
  | _, _, _, _, _ => none

theorem Beside.of_scheduled {track : {β : Type} → X → A β → β → X}
    {ok : {β : Type} → X → A β → σ → Prop} {inputs : Nat → E} {e : E} {turns : List Bool}
    {p : Program A α} {x : X} {n : Nat} {q : Program A γ} {s : σ} {a : α}
    (all : ∀ {β : Type} (x : X) (action : A β) (s : σ), ok x action s)
    (run : scheduled inputs e turns p n q s = some a) : Beside track ok inputs p x n q s a := by
  induction turns generalizing p x n q s with
  | nil =>
      cases p with
      | done b =>
          cases run
          exact .done _ x n q s
      | act action next => cases run
  | cons turn turns ih =>
      cases p with
      | done b =>
          cases turn <;>
          · cases run
            exact .done _ x n q s
      | act action next =>
          cases turn with
          | true => exact .mine (ih run)
          | false =>
              cases q with
              | done c => cases run
              | act other rest => exact .theirs e (all x other s) (ih run)

/-- Related states make the program go on in the same way, to related states, until it
    ends with `Q`. The relation may also look at the mode of the other program. -/
def Steady (track : {β : Type} → X → A β → β → X) (R : M → X → σ → σ → Prop) :
    Program A α → (X → α → Prop) → X → Prop
  | .done a, Q, x => Q x a
  | .act action next, Q, x => ∀ (c : M) (s s' : σ) (e : E), R c x s s' →
      R c (track x action (exec action e s).1) (exec action e s).2 (exec action e s').2 ∧
      next (exec action e s').1 = next (exec action e s).1 ∧
      (next (exec action e s).1).Steady track R Q (track x action (exec action e s).1)

section Steady

variable {track : {β : Type} → X → A β → β → X} {R : M → X → σ → σ → Prop}

theorem steady_bind (p : Program A α) (f : α → Program A β) (Q : X → β → Prop) (x : X)
    (first : p.Steady track R (fun x' a => (f a).Steady track R Q x') x) :
    (p >>= f).Steady track R Q x := by
  induction p generalizing x with
  | done a => exact first
  | act action next ih =>
      intro c s s' e related
      obtain ⟨kept, same, rest⟩ := first c s s' e related
      exact ⟨kept, congrArg (· >>= f) same, ih _ _ rest⟩

theorem steady_mono {p : Program A α} {Q Q' : X → α → Prop} {x : X} (h : p.Steady track R Q x)
    (imp : ∀ x a, Q x a → Q' x a) : p.Steady track R Q' x := by
  induction p generalizing x with
  | done a => exact imp x a h
  | act action next ih =>
      intro c s s' e related
      obtain ⟨kept, same, rest⟩ := h c s s' e related
      exact ⟨kept, same, ih _ rest⟩

/-- An action that answers the same in related states and stays in its mode. -/
theorem steady_act {action : A β} {next : β → Program A α} {Q : X → α → Prop} {x : X}
    (answers : ∀ (c : M) (s s' : σ) (e : E), R c x s s' →
      (exec action e s').1 = (exec action e s).1 ∧
      R c x (exec action e s).2 (exec action e s').2)
    (stays : ∀ b, track x action b = x) (rest : ∀ b, (next b).Steady track R Q x) :
    (Program.act action next).Steady track R Q x := by
  intro c s s' e related
  obtain ⟨same, kept⟩ := answers c s s' e related
  simp only [stays]
  exact ⟨kept, congrArg next same, rest _⟩

theorem steady_ite {P : Prop} [Decidable P] {p q : Program A α} {Q : X → α → Prop} {x : X}
    (pos : P → p.Steady track R Q x) (neg : ¬P → q.Steady track R Q x) :
    (if P then p else q).Steady track R Q x := by
  split
  · exact pos ‹P›
  · exact neg ‹¬P›

/-- A program whose discipline permits only actions that answer the same in related states
    is steady. -/
theorem Follows.steady {D : Discipline A L X} {l : L} {p : Program A α} {Q : X → α → Prop} {x : X}
    (h : p.Follows D l Q x)
    (stays : ∀ (β : Type) (action : A β) b, D.next l x action b = x ∧ track x action b = x)
    (answers : ∀ (β : Type) (action : A β), D.permits l x action →
      ∀ (c : M) (s s' : σ) (e : E), R c x s s' →
        (exec action e s').1 = (exec action e s).1 ∧
        R c x (exec action e s).2 (exec action e s').2) :
    p.Steady track R Q x := by
  induction p with
  | done a => exact h
  | act action next ih =>
      refine steady_act (answers _ action h.1) (fun b => (stays _ action b).2) fun b => ih b ?_
      have rest := h.2 b
      rwa [(stays _ action b).1] at rest

/-- Beside a program whose allowed steps keep the relation, a steady program answers what it
    answers alone. -/
theorem Beside.same {ok : {β : Type} → X → A β → σ → Prop} {inputs : Nat → E}
    {D : Discipline A L M} {l : L} {p : Program A α} {Q : X → α → Prop} {q : Program A γ}
    {P : M → γ → Prop} {c : M} {x : X} {n : Nat} {s s' : σ} {a : α}
    (rely : ∀ (c : M) (x : X) (s s' : σ) (τ : Type) (action : A τ) (e : E), R c x s s' →
      D.permits l c action → ok x action s →
      R (D.next l c action (exec action e s).1) x (exec action e s).2 s')
    (run : Beside track ok inputs p x n q s a) (steady : p.Steady track R Q x)
    (follows : q.Follows D l P c) (related : R c x s s') : (p.runFrom inputs n s').1 = a := by
  induction run generalizing c s' with
  | done a x n q s => rfl
  | mine _ ih =>
      obtain ⟨kept, same, rest⟩ := steady c _ s' (inputs _) related
      simp only [runFrom]
      rw [same]
      exact ih rest follows kept
  | theirs e allowed _ ih =>
      exact ih steady (follows.2 _) (rely c _ _ s' _ _ e related follows.1 allowed)

end Steady

end Program

end Atomic
