import Zipc.Claiming

/-! # Mutual exclusion on a slot

In any interleaving of slot calls, at most one call is between winning the state of a
slot into `CLAIMING` and its next store to that state. Only this call writes the
metadata of the slot, and two allocations of one slot have a store of `FREE` between
them. The statements are about the history of actions; the modes of the calls are the
invariant behind them.
-/

namespace Zipc

open Atomic

namespace SlotEvent

/-- The action wins the state of slot `i` into `CLAIMING`. -/
def wins (i : Nat) : SlotEvent → Bool
  | ⟨_, _, _, .casState j _ .claiming, won⟩ => decide (j = i) && won
  | _ => false

/-- The state that the action stores to slot `i`. -/
def stores (i : Nat) : SlotEvent → Option SlotState
  | ⟨_, _, _, .storeState j state, _⟩ => if j = i then some state else none
  | _ => none

/-- The plain store, or store of the generation, that the action performs on slot `i`. -/
def writes (i : Nat) : SlotEvent → Option SlotWrite
  | ⟨_, _, _, .write j w, _⟩ => if j = i then some w else none
  | _ => none

/-- An allocation publishes slot `i`. -/
def allocates (i : Nat) (event : SlotEvent) : Bool :=
  event.label.allocates && decide (event.stores i = some .owned)

end SlotEvent

/-- The fields of a slot that belong to the call that holds it. -/
def SlotWrite.metadata : SlotWrite → Bool
  | .ownerId _ | .nextOwnerId _ | .ownerEpoch _ | .hopCount _ | .visited _ | .identityId _
  | .identityParentId _ | .regionOffset _ | .regionLength _ | .transferSequence _
  | .generation _ => true
  | _ => false

theorem SlotWrite.not_saved (w : SlotWrite) (metadata : w.metadata = true) : w.saved = false := by
  cases w <;> simp_all [SlotWrite.metadata, SlotWrite.saved]

def insideStep (i t : Nat) (inside : Bool) (event : SlotEvent) : Bool :=
  if event.task = t then
    if event.wins i then true else if (event.stores i).isSome then false else inside
  else inside

/-- Task `t` is between winning the state of slot `i` and its next store to it. -/
def inside (i t : Nat) (history : List SlotEvent) : Bool :=
  history.foldl (insideStep i t) false

/-- Slot `i` was published by an allocation after the last store of `FREE` to it. -/
def allocatedStep (i : Nat) (allocated : Bool) (event : SlotEvent) : Bool :=
  if event.allocates i then true
  else if event.stores i = some .free then false else allocated

def allocated (i : Nat) (history : List SlotEvent) : Bool :=
  history.foldl (allocatedStep i) false

variable {pool : Pool} {c : SlotConfig} {init : Mem → Prop}
  {ok : SlotConfig → Move Env SlotCall → Prop}

/-! ## The history and the modes agree -/

theorem insideStep_holds {t i : Nat} {l : SlotCall} {m : SlotMode} {β : Type} {action : Act β}
    {b : β} (permitted : slotPermits l m action) :
    insideStep i t (m.holds i) ⟨t, l, m, action, b⟩ = (slotNext l m action b).holds i := by
  rw [insideStep, if_pos rfl]
  cases action with
  | casState j expected desired =>
      cases m with
      | acquired k epoch tested =>
          obtain ⟨rfl, rfl, -, -⟩ := permitted
          cases b <;> simp [SlotEvent.wins, SlotEvent.stores, slotNext, SlotMode.holds]
      | _ => cases permitted
  | storeState j state =>
      cases m with
      | held k epoch confirmed =>
          obtain ⟨rfl, -, -⟩ := permitted
          by_cases same : k = i <;>
            simp [SlotEvent.wins, SlotEvent.stores, slotNext, SlotMode.holds, same]
      | _ => cases permitted
  | casToken j expected desired =>
      cases m with
      | outside epoch tested =>
          by_cases found : b = expected <;>
            simp [SlotEvent.wins, SlotEvent.stores, slotNext, SlotMode.holds, found]
      | _ => rfl
  | loadLifecycle | loadGeneration => cases m <;> rfl
  | _ => rfl

theorem inside_eq_holds (reach : (slotSystem pool).Reachable init ok c) (i t : Nat) :
    inside i t c.history = (c.tasks t).any (fun task => task.mode.holds i) := by
  refine System.Reachable.disciplinedInvariant (I := fun c : SlotConfig =>
    inside i t c.history = (c.tasks t).any (fun task => task.mode.holds i))
    (slotSystem_disciplined pool) ?_ ?_ ?_ reach
  · intro s _
    rfl
  · intro c u l ih _ fresh
    simp only [ih]
    by_cases same : t = u
    · subst same
      rw [fresh, Function.update_self]
      rfl
    · rw [Function.update_of_ne same]
  · intro c u e l mode β action next ih _ _ held follows
    simp only [System.perform, inside, List.foldl_append, List.foldl_cons, List.foldl_nil]
    simp only [inside] at ih
    by_cases same : t = u
    · subst same
      rw [ih, held, Function.update_self]
      exact insideStep_holds follows.1
    · rw [Function.update_of_ne same, ← ih]
      simp [insideStep, Ne.symm same]

theorem stores_iff {t i : Nat} {l : SlotCall} {m : SlotMode} {β : Type} {action : Act β} {b : β}
    {state : SlotState} (permitted : slotPermits l m action) :
    SlotEvent.stores i ⟨t, l, m, action, b⟩ = some state ↔
      m.holds i = true ∧ ∃ epoch, slotNext l m action b = .published i epoch state := by
  cases action with
  | storeState j stored =>
      cases m with
      | held k epoch confirmed =>
          obtain ⟨rfl, -, -⟩ := permitted
          by_cases same : k = i <;> simp [SlotEvent.stores, slotNext, SlotMode.holds, same]
      | _ => cases permitted
  | casState j expected desired =>
      cases m with
      | acquired k epoch tested => simp [SlotEvent.stores, SlotMode.holds]
      | _ => cases permitted
  | _ => cases m <;> simp [SlotEvent.stores, slotNext, SlotMode.holds]

/-! ## Exclusion -/

/-- What one action can do to slot `i` and to the hold of its call on it. -/
theorem SlotStep.holds_cases {l : SlotCall} {s s' : Mem} {m m' : SlotMode}
    (step : SlotStep l s m m' s') (i : Nat) :
    (m'.holds i = m.holds i ∧ (s'.slots i).state = (s.slots i).state) ∨
    (m.holds i = false ∧ m'.holds i = true ∧ (s.slots i).state ≠ .claiming ∧
      (l.allocates = true → (s.slots i).state = .free) ∧ (s'.slots i).state = .claiming) ∨
    (m.holds i = true ∧ m'.holds i = false ∧ (s'.slots i).state ≠ .claiming ∧
      ∃ epoch, m' = .published i epoch (s'.slots i).state) := by
  cases step with
  | quiet same => exact .inl ⟨rfl, (same i).1⟩
  | epoch | test | confirm | lose | keepLost => exact .inl ⟨rfl, rfl⟩
  | @renew j | @acquire j | @clearLost j | @clearPublished j =>
      refine .inl ⟨rfl, ?_⟩
      apply s.setSlot_proj (·.state)
      rfl
  | @win j epoch tested fresh free =>
      by_cases same : i = j
      · subst same
        exact .inr (.inl ⟨rfl, by simp [SlotMode.holds], fresh, free, by simp⟩)
      · exact .inl ⟨by simp [SlotMode.holds, Ne.symm same], by simp [same]⟩
  | @store j epoch confirmed state proper =>
      by_cases same : i = j
      · subst same
        exact .inr (.inr ⟨by simp [SlotMode.holds], rfl, by simpa using proper, epoch, by simp⟩)
      · exact .inl ⟨by simp [SlotMode.holds, Ne.symm same], by simp [same]⟩

/-- A held slot is in `CLAIMING`, and only one call holds it. -/
structure Claimed (c : SlotConfig) : Prop where
  claiming : ∀ t task i, c.tasks t = some task → task.mode.holds i = true →
    (c.shared.slots i).state = .claiming
  unique : ∀ t u x y i, c.tasks t = some x → c.tasks u = some y → x.mode.holds i = true →
    y.mode.holds i = true → t = u

theorem Claimed.perform {t : Nat} {e : Env} {l : SlotCall} {m : SlotMode} {β : Type}
    {action : Act β} {next : β → Prog SlotResult} (old : Claimed c)
    (found : c.tasks t = some ⟨l, m, .act action next⟩) (permitted : slotPermits l m action) :
    Claimed ((slotSystem pool).perform c t l m action next e) := by
  have step := slotStep_of_permits c.shared e permitted
  constructor
  · intro u task i taken holds
    rcases update_eq_some.mp taken with ⟨rfl, rfl⟩ | ⟨other, taken⟩
    · rcases step.holds_cases i with ⟨kept, state⟩ | ⟨_, _, _, _, state⟩ | ⟨_, left, _⟩
      · exact state.trans (old.claiming u _ i found (kept ▸ holds))
      · exact state
      · exact absurd holds (by rw [Bool.not_eq_true]; exact left)
    · have claiming := old.claiming u task i taken holds
      rcases step.holds_cases i with ⟨_, state⟩ | ⟨_, _, fresh, _⟩ | ⟨held, _, _⟩
      · exact state.trans claiming
      · exact absurd claiming fresh
      · exact absurd (old.unique u t task _ i taken found holds held) other
  · intro u v x y i takenX takenY holdsX holdsY
    -- a second holder contradicts the state that the first one won
    have alone (w z) (taken : c.tasks w = some z) (other : w ≠ t) (holds : z.mode.holds i = true)
        (mine : (slotNext l m action (action.exec e c.shared).1).holds i = true) : False := by
      rcases step.holds_cases i with ⟨kept, _⟩ | ⟨_, _, fresh, _⟩ | ⟨_, left, _⟩
      · exact other (old.unique w t z _ i taken found holds (kept ▸ mine))
      · exact fresh (old.claiming w z i taken holds)
      · rw [mine] at left
        cases left
    rcases update_eq_some.mp takenX with ⟨rfl, rfl⟩ | ⟨otherX, oldX⟩
    · rcases update_eq_some.mp takenY with ⟨rfl, rfl⟩ | ⟨otherY, oldY⟩
      · rfl
      · exact (alone v y oldY otherY holdsY holdsX).elim
    · rcases update_eq_some.mp takenY with ⟨rfl, rfl⟩ | ⟨_, oldY⟩
      · exact (alone u x oldX otherX holdsX holdsY).elim
      · exact old.unique u v x y i oldX oldY holdsX holdsY

theorem claimed (reach : (slotSystem pool).Reachable init ok c) : Claimed c := by
  refine System.Reachable.disciplinedInvariant (I := Claimed) (slotSystem_disciplined pool)
    ?_ ?_ ?_ reach
  · intro s _
    constructor
    · intro t task i taken
      cases taken
    · intro t u x y i taken
      cases taken
  · intro c t l old _ fresh
    have kept (u task i) (taken : Function.update c.tasks t (some ((slotSystem pool).begin l)) u =
        some task) (holds : task.mode.holds i = true) : c.tasks u = some task := by
      rcases update_eq_some.mp taken with ⟨rfl, rfl⟩ | ⟨_, taken⟩
      · cases holds
      · exact taken
    constructor
    · intro u task i taken holds
      exact old.claiming u task i (kept u task i taken holds) holds
    · intro u v x y i takenX takenY holdsX holdsY
      exact old.unique u v x y i (kept u x i takenX holdsX) (kept v y i takenY holdsY) holdsX holdsY
  · intro c t e l mode β action next old _ _ found follows
    exact old.perform found follows.1

/-! ## Allocations of one slot -/

/-- A slot that was allocated and not freed is not `FREE`, and no allocation holds it. -/
def Occupied (i : Nat) (c : SlotConfig) : Prop :=
  allocated i c.history = true → (c.shared.slots i).state ≠ .free ∧
    ∀ t task, c.tasks t = some task → task.mode.holds i = true → task.label.allocates = false

theorem Occupied.perform {i t : Nat} {e : Env} {l : SlotCall} {m : SlotMode} {β : Type}
    {action : Act β} {next : β → Prog SlotResult} (old : Occupied i c) (held : Claimed c)
    (found : c.tasks t = some ⟨l, m, .act action next⟩) (permitted : slotPermits l m action) :
    Occupied i ((slotSystem pool).perform c t l m action next e) := by
  have step := slotStep_of_permits c.shared e permitted
  intro occupied
  simp only [System.perform, allocated, List.foldl_append, List.foldl_cons, List.foldl_nil,
    allocatedStep, exec_eq] at occupied
  by_cases publishes : SlotEvent.allocates i
      ⟨t, l, m, action, (action.exec e c.shared).1⟩ = true
  · simp only [SlotEvent.allocates, Bool.and_eq_true, decide_eq_true_eq] at publishes
    obtain ⟨holds, epoch, published⟩ := (stores_iff permitted).mp publishes.2
    rcases step.holds_cases i with ⟨kept, _⟩ | ⟨outside, _⟩ | ⟨_, left, _, _, same⟩
    · rw [published, holds] at kept
      cases kept
    · rw [holds] at outside
      cases outside
    · rw [published] at same
      injection same with _ _ state
      refine ⟨?_, ?_⟩
      · exact state ▸ (by simp)
      · intro u task taken mine
        rcases update_eq_some.mp taken with ⟨rfl, rfl⟩ | ⟨other, taken⟩
        · exact absurd mine (by rw [Bool.not_eq_true]; exact left)
        · exact absurd (held.unique u t task _ i taken found mine holds) other
  rw [if_neg publishes] at occupied
  by_cases frees : SlotEvent.stores i ⟨t, l, m, action, (action.exec e c.shared).1⟩ = some .free
  · rw [if_pos frees] at occupied
    cases occupied
  rw [if_neg frees] at occupied
  obtain ⟨busy, strangers⟩ := old occupied
  rcases step.holds_cases i with ⟨kept, state⟩ | ⟨_, _, _, free, state⟩ | ⟨holds, left, _, epoch, same⟩
  · refine ⟨?_, ?_⟩
    · exact fun h => busy (state ▸ h)
    · intro u task taken mine
      rcases update_eq_some.mp taken with ⟨rfl, rfl⟩ | ⟨_, taken⟩
      · exact strangers u ⟨l, m, .act action next⟩ found (kept ▸ mine)
      · exact strangers u task taken mine
  · refine ⟨?_, ?_⟩
    · intro h
      exact absurd (state.symm.trans h) (by simp)
    · intro u task taken mine
      rcases update_eq_some.mp taken with ⟨rfl, rfl⟩ | ⟨_, taken⟩
      · rw [← Bool.not_eq_true]
        exact fun allocates => busy (free allocates)
      · exact strangers u task taken mine
  · refine ⟨?_, ?_⟩
    · intro h
      refine frees ((stores_iff permitted).mpr ⟨holds, epoch, ?_⟩)
      rw [same]
      exact congrArg _ h
    · intro u task taken mine
      rcases update_eq_some.mp taken with ⟨rfl, rfl⟩ | ⟨_, taken⟩
      · exact absurd mine (by rw [Bool.not_eq_true]; exact left)
      · exact strangers u task taken mine

theorem occupied (reach : (slotSystem pool).Reachable init ok c) (i : Nat) : Occupied i c := by
  refine System.Reachable.disciplinedInvariant (I := Occupied i) (slotSystem_disciplined pool)
    ?_ ?_ ?_ reach
  · intro s _ impossible
    cases impossible
  · intro c t l old _ _ since
    obtain ⟨busy, strangers⟩ := old since
    refine ⟨busy, ?_⟩
    intro u task taken mine
    rcases update_eq_some.mp taken with ⟨rfl, rfl⟩ | ⟨_, taken⟩
    · cases mine
    · exact strangers u task taken mine
  · intro c t e l mode β action next old reached _ found follows
    exact old.perform (claimed reached) found follows.1

/-- An allocation publishes a slot only after the last one was freed. -/
theorem allocates_after_free (reach : (slotSystem pool).Reachable init ok c) (i : Nat) :
    ∀ before event after, c.history = before ++ event :: after → event.allocates i = true →
      allocated i before = false := by
  refine System.Reachable.event (P := fun before event => SlotEvent.allocates i event = true →
    allocated i before = false) (slotSystem_disciplined pool) ?_ reach
  intro c t e l mode β action next reached found follows publishes
  simp only [SlotEvent.allocates, Bool.and_eq_true, decide_eq_true_eq] at publishes
  have holds := ((stores_iff follows.1).mp publishes.2).1
  rw [← Bool.not_eq_true]
  intro since
  have stranger := (occupied reached i since).2 t _ found holds
  rw [publishes.1] at stranger
  cases stranger

/-- Without a store of `FREE` an allocated slot stays allocated. -/
theorem allocated_of_no_free {i : Nat} (events : List SlotEvent)
    (kept : ∀ event, event ∈ events → event.stores i ≠ some .free) :
    events.foldl (allocatedStep i) true = true := by
  induction events with
  | nil => rfl
  | cons event events ih =>
      have first : allocatedStep i true event = true := by
        simp [allocatedStep, kept event List.mem_cons_self]
      rw [List.foldl_cons, first]
      exact ih (fun other member => kept other (List.mem_cons_of_mem event member))

/-! ## Publications -/

theorem SlotStep.published {l : SlotCall} {s s' : Mem} {m : SlotMode} {i epoch : Nat}
    {state : SlotState} (step : SlotStep l s m (.published i epoch state) s') :
    m = .published i epoch state ∨ m.holds i = true := by
  cases step with
  | quiet | clearPublished => exact .inl rfl
  | store => exact .inr (by simp [SlotMode.holds])

/-- A call that published a state has the store of it in its history. -/
def Stored (c : SlotConfig) : Prop :=
  ∀ t task i epoch state, c.tasks t = some task → task.mode = .published i epoch state →
    ∃ event : SlotEvent, event ∈ c.history ∧ event.task = t ∧ event.label = task.label ∧
      event.stores i = some state

theorem stored (reach : (slotSystem pool).Reachable init ok c) : Stored c := by
  refine System.Reachable.disciplinedInvariant (I := Stored) (slotSystem_disciplined pool)
    ?_ ?_ ?_ reach
  · intro s _ t task i epoch state taken
    cases taken
  · intro c t l old _ _ u task i epoch state taken published
    rcases update_eq_some.mp taken with ⟨rfl, rfl⟩ | ⟨_, taken⟩
    · cases published
    · exact old u task i epoch state taken published
  · intro c t e l mode β action next old _ _ found follows u task i epoch state taken published
    rcases update_eq_some.mp taken with ⟨rfl, rfl⟩ | ⟨_, taken⟩
    · have step := slotStep_of_permits c.shared e follows.1
      have after : slotNext l mode action (action.exec e c.shared).1 = .published i epoch state :=
        published
      rw [after] at step
      rcases step.published with rfl | holds
      · obtain ⟨event, member, rest⟩ := old u _ i epoch state found rfl
        exact ⟨event, List.mem_append_left _ member, rest⟩
      · exact ⟨_, List.mem_append_right _ List.mem_cons_self, rfl, rfl,
          (stores_iff follows.1).mpr ⟨holds, epoch, after⟩⟩
    · obtain ⟨event, member, rest⟩ := old u task i epoch state taken published
      exact ⟨event, List.mem_append_left _ member, rest⟩

/-! ## The whole pool -/

/-- Mutual exclusion on the slots of a pool, over everything that happened so far. -/
structure SlotExclusion (c : SlotConfig) : Prop where
  /-- At most one task is between winning a slot and its next store to the state. -/
  exclusive : ∀ i t u, inside i t c.history = true → inside i u c.history = true → t = u
  /-- Only that task writes the metadata of the slot. -/
  writers : ∀ i before event after w, c.history = before ++ event :: after →
    SlotEvent.writes i event = some w → w.metadata = true → inside i event.task before = true
  /-- Between two published allocations of a slot it is freed. -/
  separated : ∀ i before first between second after,
    c.history = before ++ first :: between ++ second :: after →
    SlotEvent.allocates i first = true → SlotEvent.allocates i second = true →
    ∃ event, event ∈ between ∧ SlotEvent.stores i event = some .free
  /-- A successful allocation has published the slot of its view. -/
  published : ∀ t task v, c.tasks t = some task →
    task.rest = .done (.allocated .ok (some v)) →
    ∃ event, event ∈ c.history ∧ event.task = t ∧ SlotEvent.allocates v.slotId event = true

theorem metadata_writer (reach : (slotSystem pool).Reachable init ok c) (i : Nat) (w : SlotWrite)
    (metadata : w.metadata = true) : ∀ before event after, c.history = before ++ event :: after →
      SlotEvent.writes i event = some w → inside i event.task before = true := by
  refine System.Reachable.event (P := fun before event => SlotEvent.writes i event = some w →
    inside i event.task before = true) (slotSystem_disciplined pool) ?_ reach
  intro c t e l mode β action next reached found follows writes
  rw [inside_eq_holds reached, found]
  cases action with
  | write j v =>
      simp only [SlotEvent.writes, Option.ite_none_right_eq_some, Option.some.injEq] at writes
      obtain ⟨rfl, rfl⟩ := writes
      obtain saved | ⟨holds, -⟩ := follows.1
      · rw [v.not_saved metadata] at saved
        cases saved
      · exact holds
  | _ => cases writes

/-- For every interleaving of slot calls on a formatted pool. -/
theorem slotExclusion (reach : (slotSystem pool).Reachable (Formatted pool) (fun _ _ => True) c) :
    SlotExclusion c := by
  constructor
  · intro i t u insideT insideU
    rw [inside_eq_holds reach, Option.any_eq_true] at insideT insideU
    obtain ⟨x, foundX, holdsX⟩ := insideT
    obtain ⟨y, foundY, holdsY⟩ := insideU
    exact (claimed reach).unique t u x y i foundX foundY holdsX holdsY
  · intro i before event after w split writes metadata
    exact metadata_writer reach i w metadata before event after split writes
  · intro i before first between second after split publishes again
    by_contra none
    have kept (event) (member : event ∈ between) : SlotEvent.stores i event ≠ some .free :=
      fun frees => none ⟨event, member, frees⟩
    have fresh := allocates_after_free reach i (before ++ first :: between) second after split again
    rw [allocated, List.foldl_append, List.foldl_cons] at fresh
    have first : allocatedStep i (before.foldl (allocatedStep i) false) first = true := by
      rw [allocatedStep, if_pos publishes]
    rw [first, allocated_of_no_free between kept] at fresh
    cases fresh
  · intro t task v found returned
    have follows := reach.follows (slotSystem_disciplined pool) t task found
    rw [returned] at follows
    obtain ⟨allocates, epoch, mode⟩ := follows
    obtain ⟨event, member, own, label, stores⟩ := stored reach t task v.slotId epoch .owned found mode
    refine ⟨event, member, own, ?_⟩
    rw [SlotEvent.allocates, label, allocates, stores]
    rfl

/-- Task `t` starts a call and performs its first actions. -/
def callMoves (t : Nat) (l : SlotCall) (actions : Nat) : List (Move Env SlotCall) :=
  .start t l :: List.replicate actions (.act t default)

/-- Two allocations that race for the only slot of a pool, until one has won it. -/
def racingAllocations : Option SlotConfig :=
  (slotSystem oneSlot).run (System.initial (poolFormat oneSlot default))
    ([.start 0 (.allocate ⟨1, 0, 0, 8, 0, 0, true⟩ 1),
      .start 1 (.allocate ⟨2, 0, 0, 8, 0, 0, true⟩ 1)] ++
      [0, 1, 0, 1, 1, 0, 1].map (.act · default))

theorem slotExclusion_race : racingAllocations.any (fun c => inside 0 1 c.history) = true ∧
    ∀ c, racingAllocations = some c → SlotExclusion c :=
  ⟨rfl, fun _ ran => slotExclusion (.run (.start ⟨_, rfl⟩) (fun _ _ => trivial) ran)⟩

end Zipc
