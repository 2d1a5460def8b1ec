import Zipc.Recovery

/-! # Epochs of components

Registration, unregistration and the two ends of an online restart race on the packed
lifecycle of a component. Every successful compare-and-exchange is one of four changes;
the epoch half grows by one in a registration or the begin of a restart, and stays in the
other two. So an epoch is handed out once, and what names an older epoch fails.
-/

namespace Zipc

open Atomic

inductive LifeCall where
  | register (fuel component : Nat)
  | unregister (fuel component epoch : Nat)
  | restartBegin (fuel component deadEpoch : Nat)
  | restartFinish (restart : Restart)
  deriving Repr, DecidableEq

def LifeCall.component : LifeCall → Nat
  | .register _ component => component
  | .unregister _ component _ => component
  | .restartBegin _ component _ => component
  | .restartFinish restart => restart.component

/-- The epoch that an unregistration or the end of a restart names. -/
def LifeCall.named : LifeCall → Option Nat
  | .unregister _ _ epoch => some epoch
  | .restartFinish restart => some restart.epoch
  | .register _ _ => none
  | .restartBegin _ _ _ => none

inductive LifeResult where
  | registered (result : Option (Except Status Nat))
  | unregistered (result : Option Status)
  | begun (result : Option (Except Status Restart))
  | finished (status : Status)

/-- The epoch that a successful registration or restart hands out. -/
def LifeResult.epoch : LifeResult → Option Nat
  | .registered (some (.ok epoch)) => some epoch
  | .begun (some (.ok restart)) => some restart.epoch
  | _ => none

/-- The call ended an epoch, or a restart, with OK. -/
def LifeResult.settled : LifeResult → Bool
  | .unregistered (some .ok) => true
  | .finished .ok => true
  | _ => false

def LifeCall.program : LifeCall → Prog LifeResult
  | .register fuel component => do
      let result ← componentRegister fuel component
      pure (.registered result)
  | .unregister fuel component epoch => do
      let result ← componentUnregister fuel component epoch
      pure (.unregistered result)
  | .restartBegin fuel component deadEpoch => do
      let result ← componentRestartBegin fuel component deadEpoch
      pure (.begun result)
  | .restartFinish restart => do
      let status ← componentRestartFinish restart
      pure (.finished status)

/-! ## The changes of a lifecycle -/

/-- The change that a call makes when its compare-and-exchange succeeds. -/
def LifeChange (l : LifeCall) (found stored : Nat) : Prop :=
  match l with
  | .register _ _ =>
      componentLifecycleState found = ComponentState.inactive.toNat ∧
      componentLifecycleEpoch found ≠ u32 - 1 ∧
      stored = componentLifecycleMake (componentLifecycleEpoch found + 1) .active
  | .unregister _ _ epoch =>
      componentLifecycleEpoch found = epoch ∧
      componentLifecycleState found ≠ ComponentState.inactive.toNat ∧
      stored = componentLifecycleMake epoch .inactive
  | .restartBegin _ _ deadEpoch =>
      componentLifecycleEpoch found = deadEpoch ∧
      componentLifecycleState found ≠ ComponentState.recovering.toNat ∧ deadEpoch ≠ u32 - 1 ∧
      stored = componentLifecycleMake (deadEpoch + 1) .recovering
  | .restartFinish restart =>
      restart.epoch < u32 ∧ found = componentLifecycleMake restart.epoch .recovering ∧
      stored = componentLifecycleMake restart.epoch .active

/-- The call has not changed the lifecycle yet, or changed it. -/
inductive LifeMode where
  | pending
  | changed (found stored : Nat)
  deriving Repr, DecidableEq

def lifePermits (l : LifeCall) (m : LifeMode) {β : Type} : Act β → Prop
  | .loadLifecycle _ => True
  | .casLifecycle _ component expected desired =>
      component = l.component ∧ m = .pending ∧ LifeChange l expected desired
  | .now => True
  | .storeHeartbeat _ _ => True
  | _ => False

def lifeNext (m : LifeMode) {β : Type} : Act β → β → LifeMode
  | .casLifecycle _ _ expected desired, answer =>
      if answer.1 then .changed expected desired else m
  | _, _ => m

/-- A call that succeeds has changed the lifecycle. -/
def lifeEnds (l : LifeCall) (m : LifeMode) (result : LifeResult) : Prop :=
  (∀ epoch, result.epoch = some epoch → l.named = none ∧
    ∃ found stored, m = .changed found stored ∧ epoch = componentLifecycleEpoch found + 1) ∧
  (result.settled = true → l.named ≠ none ∧ ∃ found stored, m = .changed found stored)

def lifeDiscipline : Discipline Act LifeCall LifeMode where
  start _ := .pending
  permits l m action := lifePermits l m action
  next _ m action answer := lifeNext m action answer

def lifeSystem : System Act LifeCall LifeMode LifeResult := ⟨LifeCall.program, lifeDiscipline⟩

abbrev LifeConfig := Config Act Mem LifeCall LifeMode LifeResult
abbrev LifeEvent := Event Act LifeCall LifeMode

section Discipline

open Program

@[simp] theorem lifeDiscipline_permits {β : Type} (l : LifeCall) (m : LifeMode) (action : Act β) :
    lifeDiscipline.permits l m action = lifePermits l m action := rfl

@[simp] theorem lifeDiscipline_next {β : Type} (l : LifeCall) (m : LifeMode) (action : Act β)
    (answer : β) : lifeDiscipline.next l m action answer = lifeNext m action answer := rfl

/-- A result that reports no success ends a call in any mode. -/
theorem lifeEnds_failed {l : LifeCall} {m : LifeMode} {result : LifeResult}
    (nothing : result.epoch = none) (unsettled : result.settled = false) : lifeEnds l m result := by
  refine ⟨fun epoch some => ?_, fun settled => ?_⟩
  · rw [nothing] at some
    cases some
  · rw [unsettled] at settled
    cases settled

theorem registerLoop_changes {id : Nat} (n fuel : Nat) : ∀ current,
    (registerLoop id n current).Follows lifeDiscipline (.register fuel id)
      (fun m result => lifeEnds (.register fuel id) m (.registered result)) .pending := by
  induction n with
  | zero =>
      intro current
      exact lifeEnds_failed rfl rfl
  | succ n ih =>
      intro current
      simp only [registerLoop]
      split
      · exact lifeEnds_failed rfl rfl
      rename_i free
      simp only [not_or, not_not] at free
      refine ⟨⟨rfl, rfl, free.2, free.1, rfl⟩, fun (won, found) => ?_⟩
      cases won with
      | true =>
          refine ⟨trivial, fun time => ⟨trivial, fun _ => ⟨?_, nofun⟩⟩⟩
          intro epoch same
          injection same with same
          exact ⟨rfl, _, _, rfl, same.symm⟩
      | false => exact ih found

theorem unregisterLoop_changes {id epoch : Nat} (n fuel : Nat) : ∀ current,
    (unregisterLoop id epoch n current).Follows lifeDiscipline (.unregister fuel id epoch)
      (fun m result => lifeEnds (.unregister fuel id epoch) m (.unregistered result)) .pending := by
  induction n with
  | zero =>
      intro current
      exact lifeEnds_failed rfl rfl
  | succ n ih =>
      intro current
      simp only [unregisterLoop]
      split
      · exact lifeEnds_failed rfl rfl
      rename_i held
      simp only [not_or, not_not] at held
      refine ⟨⟨rfl, rfl, held.1, held.2, rfl⟩, fun (won, found) => ?_⟩
      cases won with
      | true => exact ⟨nofun, fun _ => ⟨nofun, _, _, rfl⟩⟩
      | false => exact ih found

theorem restartBeginLoop_changes {id dead : Nat} (below : dead ≠ u32 - 1) (n fuel : Nat) :
    ∀ current, (restartBeginLoop id dead n current).Follows lifeDiscipline
      (.restartBegin fuel id dead)
      (fun m result => lifeEnds (.restartBegin fuel id dead) m (.begun result)) .pending := by
  induction n with
  | zero =>
      intro current
      exact lifeEnds_failed rfl rfl
  | succ n ih =>
      intro current
      simp only [restartBeginLoop]
      split
      · exact lifeEnds_failed rfl rfl
      rename_i dies
      simp only [not_or, not_not] at dies
      refine ⟨⟨rfl, rfl, dies.1, dies.2, below, rfl⟩, fun (won, found) => ?_⟩
      cases won with
      | true =>
          refine ⟨trivial, fun time => ⟨trivial, fun _ => ⟨?_, nofun⟩⟩⟩
          intro epoch same
          injection same with same
          exact ⟨rfl, _, _, rfl, by rw [dies.1]; exact same.symm⟩
      | false => exact ih found

theorem epochRecovering_stays {l : LifeCall} {m : LifeMode} (component epoch : Nat) :
    Stays lifeDiscipline l m (componentEpochRecovering component epoch) (fun _ => True) := by
  simp only [componentEpochRecovering]
  split
  · exact ⟨rfl, trivial⟩
  · exact ⟨trivial, fun _ => ⟨rfl, trivial⟩⟩

theorem restartFinish_changes (restart : Restart) :
    (componentRestartFinish restart).Follows lifeDiscipline (.restartFinish restart)
      (fun m status => lifeEnds (.restartFinish restart) m (.finished status)) .pending := by
  simp only [componentRestartFinish]
  split
  · exact lifeEnds_failed rfl rfl
  rename_i scanned
  simp only [not_or, not_not] at scanned
  have small : restart.epoch < u32 := scanned.2 ▸ Nat.mod_lt _ (by decide)
  refine (epochRecovering_stays _ _).bind fun recovering _ => ?_
  cases recovering with
  | false => exact lifeEnds_failed rfl rfl
  | true =>
      refine ⟨⟨rfl, rfl, small, rfl, rfl⟩, fun (won, found) => ?_⟩
      cases won with
      | false => exact lifeEnds_failed rfl rfl
      | true => exact ⟨trivial, fun _ => ⟨trivial, fun _ => ⟨nofun, fun _ => ⟨nofun, _, _, rfl⟩⟩⟩⟩

theorem lifeSystem_disciplined : lifeSystem.Disciplined lifeEnds := by
  intro l
  cases l with
  | register fuel id =>
      simp only [lifeSystem, LifeCall.program, componentRegister]
      rw [follows_bind]
      split
      · exact lifeEnds_failed rfl rfl
      · exact ⟨trivial, fun current => registerLoop_changes fuel fuel current⟩
  | unregister fuel id epoch =>
      simp only [lifeSystem, LifeCall.program, componentUnregister]
      rw [follows_bind]
      split
      · exact lifeEnds_failed rfl rfl
      · exact ⟨trivial, fun current => unregisterLoop_changes fuel fuel current⟩
  | restartBegin fuel id dead =>
      simp only [lifeSystem, LifeCall.program, componentRestartBegin]
      rw [follows_bind]
      split
      · exact lifeEnds_failed rfl rfl
      split
      · exact lifeEnds_failed rfl rfl
      · rename_i below
        exact ⟨trivial, fun current => restartBeginLoop_changes below fuel fuel current⟩
  | restartFinish restart =>
      simp only [lifeSystem, LifeCall.program]
      rw [follows_bind]
      exact restartFinish_changes restart

end Discipline

/-! ## The lifecycle over a history -/

/-- The word that a successful compare-and-exchange finds and the one that it stores. -/
def LifeEvent.change (k : Nat) : LifeEvent → Option (Nat × Nat)
  | ⟨_, _, _, .casLifecycle _ component expected desired, (true, _)⟩ =>
      if component = k then some (expected, desired) else none
  | _ => none

/-- The lifecycle of component `k` after one more event. -/
def wordStep (k word : Nat) (event : LifeEvent) : Nat :=
  match LifeEvent.change k event with
  | some (_, stored) => stored
  | none => word

/-- The lifecycle of component `k` after the events of a run from a formatted pool. -/
def wordAfter (k : Nat) (events : List LifeEvent) : Nat :=
  events.foldl (wordStep k) (componentLifecycleMake 0 .inactive)

/-- What epochs promise over a whole run, for every component `k`. -/
structure EpochsOrdered (c : LifeConfig) : Prop where
  /-- The history tells the lifecycle words. -/
  word : ∀ k, (c.shared.components k).lifecycle = wordAfter k c.history
  /-- The epoch never decreases, and never wraps. -/
  monotone : ∀ k before after, c.history = before ++ after →
    componentLifecycleEpoch (wordAfter k before) ≤ componentLifecycleEpoch (wordAfter k c.history)
  /-- An epoch is handed out once. -/
  unique : ∀ t u x y a b epoch, c.tasks t = some x → c.tasks u = some y →
    x.label.component = y.label.component → x.rest = .done a → y.rest = .done b →
    a.epoch = some epoch → b.epoch = some epoch → t = u
  /-- What ends an epoch does so while the epoch is current. -/
  current : ∀ t x a epoch, c.tasks t = some x → x.label.named = some epoch → x.rest = .done a →
    a.settled = true → ∃ before event after, c.history = before ++ event :: after ∧
      event.task = t ∧ (LifeEvent.change x.label.component event).isSome = true ∧
      componentLifecycleEpoch (wordAfter x.label.component before) = epoch
  /-- `RECOVERING` is left by the end of the restart, or an unregistration, that names its
      epoch. -/
  left : ∀ k before event after, c.history = before ++ event :: after →
    componentLifecycleState (wordAfter k before) = ComponentState.recovering.toNat →
    wordAfter k (before ++ [event]) ≠ wordAfter k before →
    event.label.component = k ∧
      event.label.named = some (componentLifecycleEpoch (wordAfter k before))

section Run

variable {pool : Pool} {ok : LifeConfig → Move Env LifeCall → Prop} {c : LifeConfig}

theorem wordAfter_snoc (k : Nat) (events : List LifeEvent) (event : LifeEvent) :
    wordAfter k (events ++ [event]) = wordStep k (wordAfter k events) event := by
  simp [wordAfter]

/-- The events of a run are its changes of the lifecycle words. -/
theorem lifecycle_eq_word (reach : lifeSystem.Reachable (Formatted pool) ok c) (k : Nat) :
    (c.shared.components k).lifecycle = wordAfter k c.history := by
  refine System.Reachable.disciplinedInvariant (I := fun c =>
    (c.shared.components k).lifecycle = wordAfter k c.history) lifeSystem_disciplined
    ?_ ?_ ?_ reach
  · rintro s ⟨before, rfl⟩
    rfl
  · intro c t l same _ _
    exact same
  · intro c t e l mode β action next same _ _ _ follows
    have history : (lifeSystem.perform c t l mode action next e).history =
        c.history ++ [⟨t, l, mode, action, (action.exec e c.shared).1⟩] := rfl
    rw [history, wordAfter_snoc, ← same]
    have permits : lifePermits l mode action := follows.1
    cases action with
    | loadLifecycle component => rfl
    | now => rfl
    | storeHeartbeat component v =>
        by_cases own : k = component
        · subst own
          simp [System.perform, Act.exec, Mem.setComponent, wordStep, LifeEvent.change]
        · simp [System.perform, Act.exec, Mem.setComponent, wordStep, LifeEvent.change, own]
    | casLifecycle weak component expected desired =>
        simp only [System.perform, exec_eq, Act.exec, wordStep]
        split
        · by_cases own : component = k
          · subst own
            simp [LifeEvent.change, Mem.setComponent]
          · simp [LifeEvent.change, Mem.setComponent, own, Ne.symm own]
        · rfl
    | _ => cases permits

/-- Every change finds the current word and is the change of its call. -/
theorem change_of_event (reach : lifeSystem.Reachable (Formatted pool) ok c) :
    ∀ before event after, c.history = before ++ event :: after →
      ∀ k found stored, LifeEvent.change k event = some (found, stored) →
        event.label.component = k ∧ wordAfter k before = found ∧
          LifeChange event.label found stored := by
  refine System.Reachable.event (P := fun before event => ∀ k found stored,
    LifeEvent.change k event = some (found, stored) → event.label.component = k ∧
      wordAfter k before = found ∧ LifeChange event.label found stored) lifeSystem_disciplined
    ?_ reach
  intro c t e l mode β action next reached _ follows k found stored changes
  have permits : lifePermits l mode action := follows.1
  cases action with
  | casLifecycle weak component expected desired =>
      obtain ⟨rfl, _, change⟩ := permits
      simp only [exec_eq, Act.exec] at changes
      split at changes
      · rename_i hit
        simp only [LifeEvent.change, Option.ite_none_right_eq_some, Option.some.injEq,
          Prod.mk.injEq] at changes
        obtain ⟨rfl, rfl, rfl⟩ := changes
        exact ⟨rfl, (lifecycle_eq_word reached _).symm.trans hit.1, change⟩
      · cases changes
  | _ => cases changes

/-- A change adds at most one to the epoch, and exactly one when it names none. -/
theorem LifeChange.epoch {l : LifeCall} {found stored : Nat} (change : LifeChange l found stored) :
    componentLifecycleEpoch stored = componentLifecycleEpoch found + (if l.named = none then 1 else 0) ∧
      (∀ epoch, l.named = some epoch → componentLifecycleEpoch found = epoch) := by
  have small : componentLifecycleEpoch found < u32 := Nat.mod_lt _ (by decide)
  cases l with
  | register fuel component =>
      obtain ⟨_, below, rfl⟩ := change
      refine ⟨?_, nofun⟩
      rw [componentLifecycleEpoch_make _ (by omega)]
      rfl
  | unregister fuel component epoch =>
      obtain ⟨rfl, _, rfl⟩ := change
      refine ⟨?_, fun epoch same => Option.some.inj same⟩
      rw [componentLifecycleEpoch_make _ small]
      rfl
  | restartBegin fuel component dead =>
      obtain ⟨rfl, _, below, rfl⟩ := change
      refine ⟨?_, nofun⟩
      rw [componentLifecycleEpoch_make _ (by omega)]
      rfl
  | restartFinish restart =>
      obtain ⟨fits, rfl, rfl⟩ := change
      rw [componentLifecycleEpoch_make _ fits, componentLifecycleEpoch_make _ fits]
      exact ⟨rfl, fun epoch same => Option.some.inj same⟩

/-- The epoch grows with every event. -/
theorem epoch_mono (reach : lifeSystem.Reachable (Formatted pool) ok c) (k : Nat)
    (before : List LifeEvent) : ∀ after rest, c.history = before ++ after ++ rest →
      componentLifecycleEpoch (wordAfter k before) ≤
        componentLifecycleEpoch (wordAfter k (before ++ after)) := by
  intro after
  induction after using List.reverseRecOn with
  | nil =>
      intro rest _
      rw [List.append_nil]
  | append_singleton events event ih =>
      intro rest split
      have earlier := ih (event :: rest) (by rw [split]; simp)
      refine earlier.trans ?_
      rw [← List.append_assoc, wordAfter_snoc, wordStep]
      cases changes : LifeEvent.change k event with
      | none => exact le_rfl
      | some change =>
          obtain ⟨found, stored⟩ := change
          obtain ⟨_, word, changed⟩ := change_of_event reach (before ++ events) event rest
            (by rw [split]; simp) k found stored changes
          rw [word]
          exact changed.epoch.1 ▸ Nat.le_add_right _ _

/-- A call that has changed the lifecycle did so in one event. -/
theorem event_of_changed (reach : lifeSystem.Reachable (Formatted pool) ok c) :
    ∀ t x found stored, c.tasks t = some x → x.mode = .changed found stored →
      ∃ before event after, c.history = before ++ event :: after ∧ event.task = t ∧
        event.label = x.label ∧
        LifeEvent.change x.label.component event = some (found, stored) := by
  refine System.Reachable.disciplinedInvariant (I := fun c => ∀ t x found stored,
    c.tasks t = some x → x.mode = .changed found stored →
      ∃ before event after, c.history = before ++ event :: after ∧ event.task = t ∧
        event.label = x.label ∧
        LifeEvent.change x.label.component event = some (found, stored))
    lifeSystem_disciplined ?_ ?_ ?_ reach
  · intro s _ t x found stored taken
    cases taken
  · intro c t l old _ _ u x found stored taken changed
    rcases update_eq_some.mp taken with ⟨_, rfl⟩ | ⟨_, taken⟩
    · cases changed
    · exact old u x found stored taken changed
  · intro c t e l mode β action next old _ _ held follows u x found stored taken changed
    have permits : lifePermits l mode action := follows.1
    have before (known : ∃ y, c.tasks u = some y ∧ y.label = x.label ∧
        y.mode = .changed found stored) : ∃ before event after,
        (lifeSystem.perform c t l mode action next e).history = before ++ event :: after ∧
          event.task = u ∧ event.label = x.label ∧
          LifeEvent.change x.label.component event = some (found, stored) := by
      obtain ⟨y, heldY, label, modeY⟩ := known
      obtain ⟨first, event, rest, split, task, same, change⟩ := old u y found stored heldY modeY
      refine ⟨first, event, rest ++ [⟨t, l, mode, action, (action.exec e c.shared).1⟩], ?_, task,
        same.trans label, label ▸ change⟩
      simp [System.perform, split]
    rcases update_eq_some.mp taken with ⟨rfl, rfl⟩ | ⟨_, taken⟩
    swap
    · exact before ⟨x, taken, rfl, changed⟩
    cases action with
    | casLifecycle weak component expected desired =>
        obtain ⟨rfl, rfl, _⟩ := permits
        refine ⟨c.history, _, [], rfl, rfl, rfl, ?_⟩
        simp only [lifeSystem, lifeDiscipline_next, lifeNext, exec_eq] at changed ⊢
        split at changed
        · rename_i won
          injection changed with same stores
          subst same stores
          generalize ((Act.casLifecycle weak l.component expected desired).exec e c.shared).1 =
            answer at won
          obtain ⟨hit, word⟩ := answer
          subst won
          simp [LifeEvent.change]
        · cases changed
    | loadLifecycle | now | storeHeartbeat => exact before ⟨_, held, rfl, changed⟩
    | _ => cases permits

/-- Two calls that hand out the same epoch of a component: none comes after the other. -/
theorem not_later (reach : lifeSystem.Reachable (Formatted pool) ok c) {k : Nat}
    {before between after : List LifeEvent} {first second : LifeEvent}
    (split : c.history = before ++ first :: between ++ second :: after)
    {found stored found' stored' : Nat}
    (change : LifeEvent.change k first = some (found, stored))
    (change' : LifeEvent.change k second = some (found', stored'))
    (fresh : first.label.named = none) :
    componentLifecycleEpoch found < componentLifecycleEpoch found' := by
  obtain ⟨_, word, changed⟩ := change_of_event reach before first (between ++ second :: after)
    (by rw [split]; simp) k found stored change
  obtain ⟨_, word', _⟩ := change_of_event reach (before ++ first :: between) second after split k
    found' stored' change'
  have grows := epoch_mono reach k (before ++ [first]) between (second :: after)
    (by rw [split]; simp)
  have stores : wordAfter k (before ++ [first]) = stored := by
    rw [wordAfter_snoc, wordStep, change]
  rw [stores, show before ++ [first] ++ between = before ++ first :: between by simp, word',
    changed.epoch.1, if_pos fresh] at grows
  exact grows

/-- In every run on a formatted pool the epochs of each component are handed out once, in
    order, and ended only while they are current. -/
theorem epochs_ordered (reach : lifeSystem.Reachable (Formatted pool) (fun _ _ => True) c) :
    EpochsOrdered c := by
  constructor
  · exact lifecycle_eq_word reach
  · intro k before after split
    have grows := epoch_mono reach k before after [] (by rw [split, List.append_nil])
    rwa [← split] at grows
  · intro t u x y a b epoch foundX foundY same doneX doneY gives gives'
    have endsX := reach.follows lifeSystem_disciplined t x foundX
    have endsY := reach.follows lifeSystem_disciplined u y foundY
    rw [doneX] at endsX
    rw [doneY] at endsY
    obtain ⟨freshX, found, stored, modeX, rfl⟩ := endsX.1 epoch gives
    obtain ⟨freshY, found', stored', modeY, equal⟩ := endsY.1 _ gives'
    obtain ⟨before, event, after, split, task, label, change⟩ :=
      event_of_changed reach t x found stored foundX modeX
    obtain ⟨before', event', after', split', task', label', change'⟩ :=
      event_of_changed reach u y found' stored' foundY modeY
    rw [← same] at change'
    -- the two events are one, or one of them is later and hands out a later epoch
    rcases List.append_eq_append_iff.mp (split.symm.trans split') with ⟨rest, left, right⟩ |
      ⟨rest, left, right⟩
    · cases rest with
      | nil =>
          simp only [List.nil_append, List.cons.injEq] at right
          rw [← task, right.1, task']
      | cons head rest =>
          obtain ⟨rfl, rfl⟩ := List.cons.inj right
          subst left
          have less := not_later reach split' change change' (label ▸ freshX)
          omega
    · cases rest with
      | nil =>
          simp only [List.nil_append, List.cons.injEq] at right
          rw [← task', right.1, task]
      | cons head rest =>
          obtain ⟨rfl, rfl⟩ := List.cons.inj right
          subst left
          have less := not_later reach split change' change (label' ▸ freshY)
          omega
  · intro t x a epoch found names done settled
    have ends := reach.follows lifeSystem_disciplined t x found
    rw [done] at ends
    obtain ⟨_, word, stored, mode⟩ := ends.2 settled
    obtain ⟨before, event, after, split, task, label, change⟩ :=
      event_of_changed reach t x word stored found mode
    obtain ⟨_, same, changed⟩ := change_of_event reach before event after split _ _ _ change
    refine ⟨before, event, after, split, task, by rw [change]; rfl, ?_⟩
    rw [same]
    exact changed.epoch.2 epoch (label ▸ names)
  · intro k before event after split recovering moves
    rw [wordAfter_snoc, wordStep] at moves
    cases changes : LifeEvent.change k event with
    | none =>
        rw [changes] at moves
        exact absurd rfl moves
    | some change =>
        obtain ⟨found, stored⟩ := change
        obtain ⟨own, word, changed⟩ := change_of_event reach before event after split k _ _ changes
        refine ⟨own, ?_⟩
        rw [word] at recovering ⊢
        cases label : event.label with
        | register fuel component =>
            rw [label] at changed
            exact absurd (recovering.symm.trans changed.1) (by decide)
        | restartBegin fuel component dead =>
            rw [label] at changed
            exact absurd recovering changed.2.1
        | unregister fuel component epoch =>
            rw [label] at changed
            rw [changed.epoch.2 epoch rfl]
            rfl
        | restartFinish restart =>
            rw [label] at changed
            rw [changed.epoch.2 restart.epoch rfl]
            rfl

end Run

/-- Component 3 registers, a second registration is refused, and a replacement begins
    the restart of its first epoch. -/
def restartedComponent : Option LifeConfig :=
  lifeSystem.run (System.initial (poolFormat oneSlot default))
    ((.start 0 (.register 1 3) :: List.replicate 4 (.act 0 default)) ++
      (.start 1 (.register 1 3) :: List.replicate 1 (.act 1 default)) ++
      (.start 2 (.restartBegin 1 3 1) :: List.replicate 4 (.act 2 default)))

theorem epochs_ordered_restart :
    restartedComponent.any (fun c => componentLifecycleEpoch (wordAfter 3 c.history) = 2) = true ∧
      ∀ c, restartedComponent = some c → EpochsOrdered c :=
  ⟨by decide, fun _ ran => epochs_ordered (.run (.start ⟨_, rfl⟩) (fun _ _ => trivial) ran)⟩

end Zipc
