import Zipc.Exclusion

/-! # Whose claim a slot is in

While a slot is in `CLAIMING`, recovery reads the claim token to learn which callMoves took
it there. A token is cleared by its value, and a receiver may take over the token of a
sender; both can hit a token that another callMoves of the same component has since taken.
In runs without such a step the token is always that of the callMoves inside the slot; the
last theorem is a run with one.
-/

namespace Zipc

open Atomic

/-- The epoch of the token of slot `i` that a callMoves has taken and is still using. -/
def SlotMode.claims (i : Nat) : SlotMode → Option Nat
  | .acquired j epoch _ | .held j epoch _ => if j = i then some epoch else none
  | _ => none

/-- While slot `i` is in `CLAIMING`, its token is that of the callMoves that won it. -/
def Attributed (c : SlotConfig) (i : Nat) : Prop :=
  (c.shared.slots i).state = .claiming → ∃ t task epoch, c.tasks t = some task ∧
    inside i t c.history = true ∧ task.mode.claims i = some epoch ∧
    (c.shared.slots i).claimToken =
      claimTokenMake task.label.kind task.label.component epoch

/-- The next action of the program is a compare-and-exchange that finds a token on slot
    `i` and replaces it: it clears the token, or takes it over. -/
def replacesToken (s : Mem) (i : Nat) : Prog SlotResult → Prop
  | .act (.casToken j expected _) _ =>
      j = i ∧ (s.slots i).claimToken = expected ∧ expected ≠ 0
  | _ => False

/-- No callMoves replaces the token of a slot while another callMoves is using the slot. -/
def Undisturbed (c : SlotConfig) : Move Env SlotCall → Prop
  | .start _ _ => True
  | .act t _ => ∀ task i, c.tasks t = some task → replacesToken c.shared i task.rest →
      ∀ u other, u ≠ t → c.tasks u = some other → other.mode.claims i = none

variable {pool : Pool} {c : SlotConfig} {init : Mem → Prop}
  {ok : SlotConfig → Move Env SlotCall → Prop}

/-- A token that is not zero changes only by being replaced. -/
theorem replacesToken_of_change {l : SlotCall} {m : SlotMode} {β : Type} {action : Act β}
    {next : β → Prog SlotResult} {s : Mem} {e : Env} {i : Nat} (permitted : slotPermits l m action)
    (used : (s.slots i).claimToken ≠ 0)
    (changed : ((action.exec e s).2.slots i).claimToken ≠ (s.slots i).claimToken) :
    replacesToken s i (.act action next) := by
  cases action with
  | casToken j expected desired =>
      by_cases found : (s.slots j).claimToken = expected
      · by_cases same : i = j
        · subst same
          exact ⟨rfl, found, found ▸ used⟩
        · simp [Act.exec, found, same] at changed
      · simp [Act.exec, found] at changed
  | write j w =>
      exact absurd (s.setSlot_proj (·.claimToken) j (w.apply_words (s.slots j)).2.1 i) changed
  | storeState j state =>
      refine absurd ?_ changed
      apply s.setSlot_proj (·.claimToken)
      rfl
  | casState j expected state =>
      simp only [Act.exec] at changed
      split at changed
      · refine absurd ?_ changed
        apply s.setSlot_proj (·.claimToken)
        rfl
      · exact absurd rfl changed
  | casLifecycle | protect =>
      simp only [Act.exec] at changed
      split at changed <;> exact absurd rfl changed
  | _ => first | exact absurd rfl changed | cases permitted

/-- A callMoves that uses a slot after an action used it before, or has just taken its token. -/
theorem SlotStep.claims_cases {l : SlotCall} {s s' : Mem} {m m' : SlotMode} {i epoch : Nat}
    (step : SlotStep l s m m' s') (claims : m'.claims i = some epoch) :
    (m.claims i = some epoch ∧ (s'.slots i).claimToken = (s.slots i).claimToken) ∨
      (l.kind ≠ .none ∧ (s'.slots i).claimToken = l.token epoch) := by
  cases step with
  | quiet same => exact .inl ⟨claims, (same i).2.1⟩
  | confirm => exact .inl ⟨claims, rfl⟩
  | renew | win =>
      refine .inl ⟨claims, ?_⟩
      apply s.setSlot_proj (·.claimToken)
      rfl
  | @acquire j given tested used =>
      simp only [SlotMode.claims, Option.ite_none_right_eq_some, Option.some.injEq] at claims
      obtain ⟨rfl, rfl⟩ := claims
      exact .inr ⟨used, by simp⟩
  | epoch | test | lose | store | clearLost | keepLost | clearPublished => cases claims

/-- Only calls that claim slots use one. -/
theorem claims_used (reach : (slotSystem pool).Reachable init ok c) :
    ∀ t task, c.tasks t = some task → ∀ i epoch, task.mode.claims i = some epoch →
      task.label.kind ≠ .none := by
  refine System.Reachable.eachMode (P := fun l m => ∀ i epoch, m.claims i = some epoch →
    l.kind ≠ .none) (slotSystem_disciplined pool) ?_ ?_ reach
  · intro l i epoch claims
    cases claims
  · intro l m β action s e old permitted i epoch claims
    rcases (slotStep_of_permits s e permitted).claims_cases claims with ⟨before, _⟩ | ⟨used, _⟩
    · exact old i epoch before
    · exact used

/-! ## Undisturbed runs -/

/-- The token of a slot that a callMoves uses is the token of the call. -/
def TokenOwned (c : SlotConfig) : Prop :=
  ∀ t task i epoch, c.tasks t = some task → task.mode.claims i = some epoch →
    (c.shared.slots i).claimToken = task.label.token epoch

theorem tokenOwned (reach : (slotSystem pool).Reachable init Undisturbed c) : TokenOwned c := by
  refine System.Reachable.disciplinedInvariant (I := TokenOwned) (slotSystem_disciplined pool)
    ?_ ?_ ?_ reach
  · intro s _ t task i epoch taken
    cases taken
  · intro c t l old _ _ u task i epoch taken claims
    rcases update_eq_some.mp taken with ⟨rfl, rfl⟩ | ⟨_, taken⟩
    · cases claims
    · exact old u task i epoch taken claims
  · intro c t e l mode β action next old reached undisturbed found follows u task i epoch taken claims
    rcases update_eq_some.mp taken with ⟨rfl, rfl⟩ | ⟨other, taken⟩
    · rcases (slotStep_of_permits c.shared e follows.1).claims_cases claims with
        ⟨before, same⟩ | ⟨_, fresh⟩
      · exact same.trans (old u ⟨l, mode, .act action next⟩ i epoch found before)
      · exact fresh
    · have token := old u task i epoch taken claims
      by_contra changed
      have used : (c.shared.slots i).claimToken ≠ 0 := by
        rw [token]
        exact claimTokenMake_ne_zero (claims_used reached u task taken i epoch claims) _ _
      have replaced : replacesToken c.shared i (.act action next) :=
        replacesToken_of_change follows.1 used (fun same => changed (same.trans token))
      have idle := undisturbed _ i found replaced u task other taken
      rw [claims] at idle
      cases idle

/-- A slot of a formatted pool is in `CLAIMING` only while a callMoves holds it. -/
theorem claiming_held {i : Nat} (inside : i < pool.slotCount)
    (reach : (slotSystem pool).Reachable (Formatted pool) ok c) :
    (c.shared.slots i).state = .claiming →
      ∃ t task, c.tasks t = some task ∧ task.mode.holds i = true := by
  refine System.Reachable.disciplinedInvariant (I := fun c : SlotConfig =>
    (c.shared.slots i).state = .claiming →
      ∃ t task, c.tasks t = some task ∧ task.mode.holds i = true)
    (slotSystem_disciplined pool) ?_ ?_ ?_ reach
  · intro s formatted claiming
    rw [System.initial, formatted.slots inside] at claiming
    cases claiming
  · intro c t l old _ fresh claiming
    obtain ⟨u, task, taken, holds⟩ := old claiming
    refine ⟨u, task, update_eq_some.mpr (.inr ⟨?_, taken⟩), holds⟩
    rintro rfl
    rw [fresh] at taken
    cases taken
  · intro c t e l mode β action next old _ _ found follows claiming
    rcases (slotStep_of_permits c.shared e follows.1).holds_cases i with
      ⟨kept, state⟩ | ⟨_, won, _⟩ | ⟨_, _, left, _⟩
    · obtain ⟨u, task, taken, holds⟩ := old (state.symm.trans claiming)
      by_cases same : u = t
      · subst same
        rw [found, Option.some.injEq] at taken
        subst taken
        exact ⟨u, _, Function.update_self _ _ _, kept.trans holds⟩
      · exact ⟨u, task, update_eq_some.mpr (.inr ⟨same, taken⟩), holds⟩
    · exact ⟨t, _, Function.update_self _ _ _, won⟩
    · exact absurd claiming left

/-- In every undisturbed run a slot in `CLAIMING` carries the token of the callMoves that won it. -/
theorem attributed_of_undisturbed {i : Nat}
    (reach : (slotSystem pool).Reachable (Formatted pool) Undisturbed c)
    (slot : i < pool.slotCount) : Attributed c i := by
  intro claiming
  obtain ⟨t, task, found, holds⟩ := claiming_held slot reach claiming
  obtain ⟨epoch, claims⟩ : ∃ epoch, task.mode.claims i = some epoch := by
    cases mode : task.mode with
    | held j epoch confirmed =>
        rw [mode] at holds
        have same : j = i := by simpa [SlotMode.holds] using holds
        exact ⟨epoch, by simp [SlotMode.claims, same]⟩
    | _ =>
        rw [mode] at holds
        cases holds
  refine ⟨t, task, epoch, found, ?_, claims, tokenOwned reach t task i epoch found claims⟩
  rw [inside_eq_holds reach, found]
  exact holds

/-- A task that is alone disturbs nobody. -/
theorem undisturbed_alone {t : Nat} (e : Env) (only : System.Alone t c) :
    Undisturbed c (.act t e) := by
  intro task i _ _ u other different taken
  rw [only u different] at taken
  cases taken

/-- An allocation on a pool with one slot, before its first action. -/
def startedAllocation : SlotConfig :=
  { shared := poolFormat oneSlot default
    tasks := Function.update (fun _ => none) 0
      (some ((slotSystem oneSlot).begin (.allocate ⟨1, 0, 0, 8, 0, 0, true⟩ 1)))
    history := [] }

theorem startedAllocation_reachable :
    (slotSystem oneSlot).Reachable (Formatted oneSlot) Undisturbed startedAllocation :=
  .step (.start ⟨default, rfl⟩) (m := .start 0 (.allocate ⟨1, 0, 0, 8, 0, 0, true⟩ 1)) trivial rfl

/-- The allocation has won its slot. -/
def wonAllocation : Option SlotConfig :=
  (slotSystem oneSlot).run startedAllocation ((List.replicate 4 default).map (.act 0))

theorem attributed_wonAllocation :
    wonAllocation.any (fun c => (c.shared.slots 0).state = .claiming) = true ∧
      ∀ c, wonAllocation = some c → Attributed c 0 := by
  refine ⟨rfl, ?_⟩
  intro c ran
  have only : System.Alone 0 startedAllocation := by
    intro u other
    simp [startedAllocation, Function.update_of_ne other]
  have reach : (slotSystem oneSlot).Reachable (Formatted oneSlot) Undisturbed c :=
    .along (I := System.Alone 0) (fun _ e _ => undisturbed_alone e)
      (fun _ _ _ alone moved => alone.move moved) startedAllocation_reachable only ran
  exact attributed_of_undisturbed reach (show 0 < 1 by decide)

/-- Component 1 sends its buffer to component 2 and is delayed before it clears its token.
    The receiver takes the token over, releases the buffer, and component 1 allocates the
    slot again and starts a second send: the delayed clear hits the token of this one. -/
def delayedClear : Option SlotConfig :=
  (slotSystem oneSlot).run (System.initial (poolFormat oneSlot default))
    (callMoves 0 (.register 1 1) 4 ++ callMoves 1 (.register 1 2) 4 ++
      callMoves 2 (.allocate ⟨1, 0, 0, 8, 0, 0, true⟩ 0) 55 ++
      callMoves 3 (.prepare (handleMake 0 1) 1 2 0) 35 ++
      callMoves 4 (.claim ⟨handleMake 0 1, 1, 1, 2, 1, 0⟩ 2) 34 ++
      callMoves 5 (.release (handleMake 0 1) 2) 30 ++
      callMoves 6 (.allocate ⟨1, 0, 0, 8, 0, 0, true⟩ 0) 55 ++
      callMoves 7 (.prepare (handleMake 0 2) 1 2 0) 9 ++ [.act 3 default])

theorem delayedClear_unattributed : ∃ c : SlotConfig,
    (slotSystem oneSlot).Reachable (Formatted oneSlot) (fun _ _ => True) c ∧
      ¬Attributed c 0 := by
  have left : delayedClear.any (fun c => decide ((c.shared.slots 0).state = .claiming) &&
      decide ((c.shared.slots 0).claimToken = 0)) = true := by
    decide +kernel
  rw [Option.any_eq_true] at left
  obtain ⟨c, ran, cleared⟩ := left
  simp only [Bool.and_eq_true, decide_eq_true_eq] at cleared
  have reach : (slotSystem oneSlot).Reachable (Formatted oneSlot)
      (fun _ _ => True) c := .run (.start ⟨default, rfl⟩) (fun _ _ => trivial) ran
  refine ⟨c, reach, ?_⟩
  intro attributed
  obtain ⟨t, task, epoch, found, _, claims, token⟩ := attributed cleared.1
  rw [cleared.2] at token
  exact claimTokenMake_ne_zero (claims_used reach t task found 0 epoch claims) _ _ token.symm

end Zipc
