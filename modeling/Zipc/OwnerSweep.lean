import Zipc.Controls
import Zipc.Session

/-! # What an owner recovery frees

`zipc_pool_recover_owner` takes every live slot aside in turn, and puts it back or frees it.
The sweep is described for any memory: which slots it frees, what it leaves of them, what it
reports and counts, and where a failure of page protection stops it.
-/

namespace Zipc

open Atomic Program

/-! ## The counters of a recovery -/

/-- The recovery counters of the pool and of a component. -/
def Mem.tally (m : Mem) (component : Nat) : Nat × Nat :=
  (m.counters .recovery, (m.components component).recoveredSlots)

/-- One more recovery, on 64-bit counters. -/
def bumped (t : Nat × Nat) : Nat × Nat := ((t.1 + 1) % (u32 * u32), (t.2 + 1) % (u32 * u32))

/-- Run alone from a memory with tally `t` and payload access `w` at slot `i`, the program ends
with `Q` of its tally and that access. -/
def Tallies (component i : Nat) {α : Type} (p : Prog α) (Q : α → Nat × Nat → Bool → Prop)
    (t : Nat × Nat) (w : Bool) : Prop :=
  ∀ m : Mem, m.tally component = t → m.access i = w →
    p.wp (fun a m' => Q a (m'.tally component) (m'.access i)) m

section Tallies

variable {component i : Nat} {α β : Type} {Q : α → Nat × Nat → Bool → Prop} {t : Nat × Nat}
  {w : Bool}

theorem tallies_done {a : α} (holds : Q a t w) : Tallies component i (.done a) Q t w := by
  intro m same access
  rw [wp_done, same, access]
  exact holds

/-- An action that leaves the counters and the access alone. -/
theorem tallies_act {action : Act β} {next : β → Prog α}
    (keeps : ∀ e m, (action.exec e m).2.tally component = m.tally component ∧
      (action.exec e m).2.access = m.access)
    (rest : ∀ b, Tallies component i (next b) Q t w) :
    Tallies component i (.act action next) Q t w := by
  intro m same access e
  apply rest
  · exact (keeps e m).1.trans same
  · rw [exec_eq, (keeps e m).2, access]

/-- A refused protection call leaves the access as it was. -/
theorem tallies_protectSlot {pool : Pool} {readWrite : Bool} {next : Status → Prog α}
    (refused : ∀ status, status ≠ .ok → Tallies component i (next status) Q t w)
    (granted : ∀ w', Tallies component i (next .ok) Q t w') :
    Tallies component i (protectSlot pool i readWrite >>= next) Q t w := by
  unfold protectSlot
  split
  · exact granted _
  split
  · exact refused _ (by decide)
  · intro m same access e
    simp only [exec_eq, Act.exec]
    split
    · rename_i ok
      rw [ok]
      exact granted readWrite _ same (Function.update_self _ _ _)
    · rename_i failed
      exact refused _ failed _ same access

theorem tallies_writeAll {k : Nat} (ws : List SlotWrite) {next : Unit → Prog α}
    (rest : Tallies component i (next ()) Q t w) :
    Tallies component i (writeAll k ws >>= next) Q t w := by
  induction ws with
  | nil => exact rest
  | cons w ws ih => exact tallies_act (fun _ _ => ⟨rfl, rfl⟩) fun _ => ih

theorem tallies_recovered {next : Unit → Prog α}
    (rest : Tallies component i (next ()) Q (bumped t) w) :
    Tallies component i
      (.act (.count .recovery) fun _ => .act (.addRecoveredSlot component) next) Q t w := by
  intro m same access e e'
  refine rest _ ?_ access
  subst same
  simp only [exec_eq, Act.exec, Mem.tally, Mem.setComponent, Function.update_self, bumped]

/-- A probed slot is counted exactly when it is freed, and its payload access changes only
then. -/
theorem recoverProbed_tallies {pool : Pool} {deadEpoch minimumAgeNs time : Nat}
    {state : SlotState} :
    Tallies component i (recoverProbed pool component deadEpoch minimumAgeNs time i state)
      (fun result t' w' => (result = .ok none ∧ t' = bumped t) ∨
        (result ≠ .ok none ∧ t' = t ∧ w' = w)) t w := by
  have back {result : Except Status (Option Bool)} (put : result ≠ .ok none) :
      Tallies component i (.act (.storeState i state) fun _ => .done result)
        (fun result t' w' => (result = .ok none ∧ t' = bumped t) ∨
          (result ≠ .ok none ∧ t' = t ∧ w' = w)) t w :=
    tallies_act (fun _ _ => ⟨rfl, rfl⟩) fun _ => tallies_done (.inr ⟨put, rfl, rfl⟩)
  simp only [recoverProbed, lift_bind]
  refine tallies_act (fun _ _ => ⟨rfl, rfl⟩) fun owner => ?_
  split
  · exact back (by simp)
  refine tallies_act (fun _ _ => ⟨rfl, rfl⟩) fun epoch => ?_
  split
  · exact back (by simp)
  refine tallies_act (fun _ _ => ⟨rfl, rfl⟩) fun acquired => ?_
  split
  · exact back (by simp)
  refine tallies_protectSlot (fun status failed => ?_) fun w' => ?_
  · rw [if_pos failed]
    exact back (by simp)
  rw [if_neg (not_not_intro rfl)]
  simp only [traceSlot, lift_bind, act_bind]
  -- the trace, the two counts of the slot, and its fields
  iterate 10 refine tallies_act (fun _ _ => ⟨rfl, rfl⟩) fun _ => ?_
  refine tallies_writeAll _ (tallies_act (fun _ _ => ⟨rfl, rfl⟩) fun _ => ?_)
  exact tallies_recovered (tallies_done (.inl ⟨rfl, rfl⟩))

end Tallies

/-! ## One slot -/

/-- The slot belongs to the terminated runtime and is old enough. A clock that is behind the
acquisition makes no age. -/
def Due (component deadEpoch minimumAgeNs time : Nat) (s : SlotControl) : Prop :=
  (s.state = .owned ∨ s.state = .transfer) ∧ s.ownerId = component ∧ s.ownerEpoch = deadEpoch ∧
    (minimumAgeNs = 0 ∨ s.acquiredNs ≤ time ∧ minimumAgeNs ≤ time - s.acquiredNs)

instance (component deadEpoch minimumAgeNs time : Nat) (s : SlotControl) :
    Decidable (Due component deadEpoch minimumAgeNs time s) :=
  inferInstanceAs (Decidable (_ ∧ _ ∧ _ ∧ _))

/-- The control of a slot that the sweep freed. -/
def SlotControl.reclaimed (s : SlotControl) (time component : Nat) : SlotControl :=
  { s.traced time component .recover with
    recoveryCount := (s.recoveryCount + 1) % u32
    errorFlags := s.errorFlags ||| 1
    ownerId := invalidComponentId
    nextOwnerId := invalidComponentId
    region := ⟨0, 0⟩
    state := .free }

section Slot

variable {pool : Pool} {m₀ : Mem} {i : Nat} {s : SlotControl}
  {component deadEpoch minimumAgeNs : Nat}

/-- A slot taken aside is put back, unless it is due and page protection is granted. -/
theorem recoverProbed_alone (live : s.state = .owned ∨ s.state = .transfer) :
    Alone m₀ i (fun _ => True)
      (recoverProbed pool component deadEpoch minimumAgeNs m₀.clock i s.state)
      (fun result s' =>
        ((∃ newer, result = .ok (some newer)) ∧
          ¬ Due component deadEpoch minimumAgeNs m₀.clock s ∧ s' = s) ∨
        (∃ status, result = .error status ∧ status ≠ .ok ∧ pool.strict = true ∧
          Due component deadEpoch minimumAgeNs m₀.clock s ∧ s' = s) ∨
        (result = .ok none ∧ Due component deadEpoch minimumAgeNs m₀.clock s ∧
          s' = s.reclaimed m₀.clock component)) { s with state := .error } := by
  have back : { s with state := s.state } = s := rfl
  simp only [recoverProbed, lift_bind]
  apply alone_read trivial
  split
  · rename_i other
    exact alone_storeState trivial (alone_done trivial
      (.inl ⟨⟨_, rfl⟩, fun due => other due.2.1, rfl⟩))
  rename_i owner
  apply alone_read trivial
  split
  · rename_i other
    exact alone_storeState trivial (alone_done trivial
      (.inl ⟨⟨_, rfl⟩, fun due => other due.2.2.1, rfl⟩))
  rename_i epoch
  apply alone_read trivial
  split
  · rename_i young
    refine alone_storeState trivial (alone_done trivial (.inl ⟨⟨_, rfl⟩, fun due => ?_, rfl⟩))
    have old := due.2.2.2
    dsimp only at young
    omega
  rename_i old
  have due : Due component deadEpoch minimumAgeNs m₀.clock s := by
    refine ⟨live, not_not.mp owner, not_not.mp epoch, ?_⟩
    dsimp only at old
    omega
  apply alone_protectSlot trivial
  · intro strict status failed
    rw [if_pos failed]
    exact alone_storeState trivial (alone_done trivial
      (.inr (.inl ⟨status, rfl, failed, strict, due, rfl⟩)))
  · rw [if_neg (not_not_intro rfl)]
    refine alone_traceSlot trivial trivial trivial (alone_read trivial (alone_write trivial ?_))
    refine alone_read trivial (alone_write trivial ?_)
    simp only [writeAll, lift_bind, act_bind, pure_eq, done_bind]
    refine alone_write trivial (alone_write trivial (alone_write trivial (alone_write trivial ?_)))
    refine alone_storeState trivial (alone_count trivial ?_)
    refine alone_any trivial (fun e m single => ?_) fun _ =>
      alone_done trivial (.inr (.inr ⟨rfl, due, rfl⟩))
    have spares : (Act.addRecoveredSlot component).spares i := trivial
    have spared := spares.spared e m
    exact ⟨single.slots, fun j other => (spared.access j other).trans (single.access j other),
      spared.payload.trans single.payload,
      fun k => (spared.lifecycle k).trans (single.lifecycle k), spared.clock.trans single.clock⟩

end Slot

/-! ## The sweep -/

/-- How many due slots of a former state stand among `len` slots from `i` on. -/
def Mem.dueCount (m : Mem) (component deadEpoch minimumAgeNs : Nat) (former : SlotState)
    (i len : Nat) : Nat :=
  (List.range' i len).countP fun j =>
    decide (Due component deadEpoch minimumAgeNs m.clock (m.slots j) ∧ (m.slots j).state = former)

/-- A sweep over `len` slots from `i` on: it frees the due ones, counts them by their former
state, and leaves everything else alone. -/
structure Reclaims (component deadEpoch minimumAgeNs : Nat) (m : Mem) (i len : Nat)
    (owned transfer : Nat) (m' : Mem) : Prop where
  freed : ∀ j, i ≤ j → j < i + len → Due component deadEpoch minimumAgeNs m.clock (m.slots j) →
    m'.slots j = (m.slots j).reclaimed m.clock component
  kept : ∀ j, ¬ (i ≤ j ∧ j < i + len ∧
      Due component deadEpoch minimumAgeNs m.clock (m.slots j)) →
    m'.slots j = m.slots j ∧ m'.access j = m.access j
  ownedCount : owned = m.dueCount component deadEpoch minimumAgeNs .owned i len
  transferCount : transfer = m.dueCount component deadEpoch minimumAgeNs .transfer i len
  tally : m'.tally component = bumped^[owned + transfer] (m.tally component)
  payload : m'.payload = m.payload
  lifecycle : ∀ k, (m'.components k).lifecycle = (m.components k).lifecycle
  clock : m'.clock = m.clock

section Sweep

variable {pool : Pool} {component deadEpoch minimumAgeNs : Nat} {m mid m' : Mem} {i : Nat}

theorem Reclaims.nil : Reclaims component deadEpoch minimumAgeNs m i 0 0 0 m where
  freed _ low high := absurd high (Nat.not_lt.mpr low)
  kept _ _ := ⟨rfl, rfl⟩
  ownedCount := rfl
  transferCount := rfl
  tally := rfl
  payload := rfl
  lifecycle _ := rfl
  clock := rfl

/-- Slots that a turn has not reached count the same after it. -/
theorem Reclaims.dueCount_later {owned transfer : Nat}
    (turn : Reclaims component deadEpoch minimumAgeNs m i 1 owned transfer mid) (former : SlotState)
    (len : Nat) : mid.dueCount component deadEpoch minimumAgeNs former (i + 1) len =
      m.dueCount component deadEpoch minimumAgeNs former (i + 1) len := by
  apply List.countP_congr
  intro j later
  have beyond : i + 1 ≤ j := (List.mem_range'_1.mp later).1
  rw [(turn.kept j fun reached => by omega).1, turn.clock]

/-- One turn, then the rest of the sweep. -/
theorem Reclaims.cons {owned owned' transfer transfer' len : Nat}
    (turn : Reclaims component deadEpoch minimumAgeNs m i 1 owned transfer mid)
    (rest : Reclaims component deadEpoch minimumAgeNs mid (i + 1) len owned' transfer' m') :
    Reclaims component deadEpoch minimumAgeNs m i (len + 1) (owned + owned') (transfer + transfer')
      m' where
  freed j low high due := by
    by_cases here : j = i
    · rw [(rest.kept j fun later => by omega).1]
      exact turn.freed j low (by omega) due
    · have same := (turn.kept j fun reached => by omega).1
      rw [rest.freed j (by omega) (by omega) (by rwa [same, turn.clock]), same, turn.clock]
  kept j out := by
    by_cases here : j = i
    · obtain ⟨slots, access⟩ := turn.kept j fun reached => out ⟨by omega, by omega, reached.2.2⟩
      obtain ⟨slots', access'⟩ := rest.kept j fun later => by omega
      exact ⟨slots'.trans slots, access'.trans access⟩
    · obtain ⟨slots, access⟩ := turn.kept j fun reached => by omega
      obtain ⟨slots', access'⟩ := rest.kept j fun later =>
        out ⟨by omega, by omega, by rw [← slots, ← turn.clock]; exact later.2.2⟩
      exact ⟨slots'.trans slots, access'.trans access⟩
  ownedCount := by
    rw [turn.ownedCount, rest.ownedCount, turn.dueCount_later]
    simp only [Mem.dueCount, List.range'_succ, List.countP_cons, List.range'_zero,
      List.countP_nil]
    omega
  transferCount := by
    rw [turn.transferCount, rest.transferCount, turn.dueCount_later]
    simp only [Mem.dueCount, List.range'_succ, List.countP_cons, List.range'_zero,
      List.countP_nil]
    omega
  tally := by
    rw [rest.tally, turn.tally, ← Function.iterate_add_apply]
    congr 1
    omega
  payload := rest.payload.trans turn.payload
  lifecycle k := (rest.lifecycle k).trans (turn.lifecycle k)
  clock := rest.clock.trans turn.clock

/-- A turn at a slot that is not due. -/
theorem swept_passed (early : ¬ Due component deadEpoch minimumAgeNs m.clock (m.slots i))
    (slots : mid.slots = m.slots) (access : mid.access = m.access)
    (tally : mid.tally component = m.tally component) (payload : mid.payload = m.payload)
    (lifecycle : ∀ k, (mid.components k).lifecycle = (m.components k).lifecycle)
    (clock : mid.clock = m.clock) : Reclaims component deadEpoch minimumAgeNs m i 1 0 0 mid where
  freed j low high due := by
    have here : j = i := by omega
    subst here
    exact absurd due early
  kept j _ := by rw [slots, access]; exact ⟨rfl, rfl⟩
  ownedCount := by simp [Mem.dueCount, early]
  transferCount := by simp [Mem.dueCount, early]
  tally := tally
  payload := payload
  lifecycle := lifecycle
  clock := clock

/-- A turn that frees its slot. -/
theorem swept_freed (due : Due component deadEpoch minimumAgeNs m.clock (m.slots i))
    (single : Singled m i ((m.slots i).reclaimed m.clock component) mid)
    (tally : mid.tally component = bumped (m.tally component)) :
    Reclaims component deadEpoch minimumAgeNs m i 1 (if (m.slots i).state = .owned then 1 else 0)
      (if (m.slots i).state = .owned then 0 else 1) mid where
  freed j low high _ := by
    have here : j = i := by omega
    subst here
    exact single.at_slot
  kept j out := by
    have other : j ≠ i := fun here => out ⟨by omega, by omega, here ▸ due⟩
    exact ⟨single.other other, single.access j other⟩
  ownedCount := by simp [Mem.dueCount, due]
  transferCount := by
    have live := due.1
    rcases live with state | state <;> simp [Mem.dueCount, due, state]
  tally := by
    rw [tally]
    split <;> rfl
  payload := single.payload
  lifecycle := single.lifecycle
  clock := single.clock

/-- Where a sweep ends: at the last slot, or at a due slot whose page protection failed. -/
def SweepEnds (pool : Pool) (component deadEpoch minimumAgeNs : Nat) (m : Mem) (i left : Nat)
    (status : Status) (len : Nat) : Prop :=
  (status = .ok ∧ len = left) ∨
  (status ≠ .ok ∧ pool.strict = true ∧ len < left ∧
    Due component deadEpoch minimumAgeNs m.clock (m.slots (i + len)))

/-- What one probe does to the memory. -/
theorem recoverProbed_probes {result : Except Status (Option Bool)} {s : SlotControl}
    (live : s.state = .owned ∨ s.state = .transfer) (here : m.slots i = s)
    (run : Completes (recoverProbed pool component deadEpoch minimumAgeNs m.clock i s.state)
      (m.setSlot i { s with state := .error }) result mid) :
    ((∃ newer, result = .ok (some newer)) ∧ Reclaims component deadEpoch minimumAgeNs m i 1 0 0 mid) ∨
    (∃ status, result = .error status ∧ status ≠ .ok ∧ pool.strict = true ∧
      Due component deadEpoch minimumAgeNs m.clock s ∧
      Reclaims component deadEpoch minimumAgeNs m i 0 0 0 mid) ∨
    (result = .ok none ∧ Reclaims component deadEpoch minimumAgeNs m i 1
      (if s.state = .owned then 1 else 0) (if s.state = .owned then 0 else 1) mid) := by
  subst here
  have started : Singled m i { m.slots i with state := .error }
      (m.setSlot i { m.slots i with state := .error }) := (Singled.refl m i).store _
  obtain ⟨s', single, ends⟩ := run.sound (recoverProbed_alone live _ started).wp
  have counted := run.sound (recoverProbed_tallies _ rfl rfl)
  have tally : (m.setSlot i { m.slots i with state := .error }).tally component =
    m.tally component := rfl
  have access : (m.setSlot i { m.slots i with state := .error }).access i = m.access i := rfl
  rw [tally, access] at counted
  have same (at' : mid.access i = m.access i) : mid.access = m.access := by
    funext j
    by_cases other : j = i
    · rw [other, at']
    · exact single.access j other
  rcases ends with ⟨⟨newer, rfl⟩, early, rfl⟩ | ⟨status, rfl, failed, strict, due, rfl⟩ | ⟨rfl, due, rfl⟩
  · obtain ⟨-, tally', access'⟩ := counted.resolve_left (by simp)
    exact .inl ⟨⟨newer, rfl⟩, swept_passed early single.unchanged (same access') tally'
      single.payload single.lifecycle single.clock⟩
  · obtain ⟨-, tally', access'⟩ := counted.resolve_left (by simp)
    refine .inr (.inl ⟨status, rfl, failed, strict, due, ?_⟩)
    exact ⟨fun _ low high => absurd high (Nat.not_lt.mpr low),
      fun j _ => ⟨congrFun single.unchanged j, congrFun (same access') j⟩, rfl, rfl, tally',
      single.payload, single.lifecycle, single.clock⟩
  · obtain ⟨-, tally'⟩ := counted.resolve_right (by simp)
    exact .inr (.inr ⟨rfl, swept_freed due single tally'⟩)

/-- The sweep over the slots from `i` on, from any memory. -/
theorem recoverOwnerScan_swept {status : Status} {result result' : RecoveryResult} {left : Nat}
    (run : Completes (recoverOwnerScan pool component deadEpoch minimumAgeNs m.clock left i result)
      m (status, result') m') :
    ∃ len owned transfer, Reclaims component deadEpoch minimumAgeNs m i len owned transfer m' ∧
      SweepEnds pool component deadEpoch minimumAgeNs m i left status len ∧
      result'.recoveredOwned = result.recoveredOwned + owned ∧
      result'.recoveredTransfer = result.recoveredTransfer + transfer := by
  induction left generalizing i m result with
  | zero =>
      cases run
      exact ⟨0, 0, 0, .nil, .inl ⟨rfl, rfl⟩, rfl, rfl⟩
  | succ left ih =>
      -- a turn that leaves the sweep going
      have goes {next : RecoveryResult} {owned transfer : Nat} {mid : Mem}
          (turn : Reclaims component deadEpoch minimumAgeNs m i 1 owned transfer mid)
          (rest : Completes (recoverOwnerScan pool component deadEpoch minimumAgeNs m.clock left
            (i + 1) next) mid (status, result') m')
          (owned_eq : next.recoveredOwned = result.recoveredOwned + owned)
          (transfer_eq : next.recoveredTransfer = result.recoveredTransfer + transfer) :
          ∃ len owned transfer, Reclaims component deadEpoch minimumAgeNs m i len owned transfer m' ∧
            SweepEnds pool component deadEpoch minimumAgeNs m i (left + 1) status len ∧
            result'.recoveredOwned = result.recoveredOwned + owned ∧
            result'.recoveredTransfer = result.recoveredTransfer + transfer := by
        rw [← turn.clock] at rest
        obtain ⟨len, owned', transfer', swept, ends, counts⟩ := ih rest
        refine ⟨len + 1, _, _, turn.cons swept, ?_, by omega, by omega⟩
        rcases ends with ⟨ok, all⟩ | ⟨failed, strict, short, due⟩
        · exact .inl ⟨ok, by omega⟩
        · have there := (turn.kept (i + 1 + len) fun reached => by omega).1
          refine .inr ⟨failed, strict, by omega, ?_⟩
          rwa [there, turn.clock, Nat.add_assoc, Nat.add_comm 1 len] at due
      simp only [recoverOwnerScan, lift_bind] at run
      cases run with
      | act e run =>
          beta_reduce at run
          split at run
          · rename_i idle
            simp only [exec_eq, Act.exec] at run idle
            refine goes (swept_passed (fun due => ?_) rfl rfl rfl rfl (fun _ => rfl) rfl) run rfl rfl
            rcases due.1 with state | state
            · exact idle.1 state
            · exact idle.2 state
          rename_i idle
          simp only [exec_eq, Act.exec] at run idle
          have live : (m.slots i).state = .owned ∨ (m.slots i).state = .transfer := by
            by_cases owned : (m.slots i).state = .owned
            · exact .inl owned
            · exact .inr (not_not.mp fun other => idle ⟨owned, other⟩)
          cases run with
          | act e run =>
              simp only [exec_eq, Act.exec, if_true, Bool.true_eq_false, if_false] at run
              obtain ⟨probed, mid, first, rest⟩ := run.bind
              rcases recoverProbed_probes live rfl first with
                ⟨⟨newer, rfl⟩, turn⟩ | ⟨stop, rfl, failed, strict, due, still⟩ | ⟨rfl, turn⟩
              · dsimp only at rest
                refine goes turn rest ?_ ?_ <;> split <;> rfl
              · cases rest
                exact ⟨0, 0, 0, still, .inr ⟨failed, strict, Nat.succ_pos left, due⟩, rfl, rfl⟩
              · dsimp only at rest
                refine goes turn rest ?_ ?_ <;> rcases live with state | state <;> simp [state]

/-- The component runs as the epoch that is said to be dead. -/
def Running (m : Mem) (component deadEpoch : Nat) : Prop :=
  componentLifecycleState (m.components component).lifecycle ≠ ComponentState.inactive.toNat ∧
    componentLifecycleEpoch (m.components component).lifecycle = deadEpoch

/-- After a sweep of the whole pool nothing is due. -/
theorem Reclaims.settled {len owned transfer : Nat}
    (swept : Reclaims component deadEpoch minimumAgeNs m 0 len owned transfer m') {j : Nat}
    (inside : j < len) : ¬ Due component deadEpoch minimumAgeNs m'.clock (m'.slots j) := by
  intro due
  by_cases before : Due component deadEpoch minimumAgeNs m.clock (m.slots j)
  · rw [swept.freed j (Nat.zero_le j) (by omega) before] at due
    rcases due.1 with state | state <;> cases state
  · rw [(swept.kept j fun reached => before reached.2.2).1, swept.clock] at due
    exact before due

/-- A sweep over slots that are not due changes none and counts none. -/
theorem Reclaims.idle {len owned transfer : Nat}
    (swept : Reclaims component deadEpoch minimumAgeNs m 0 len owned transfer m')
    (early : ∀ j, j < len → ¬ Due component deadEpoch minimumAgeNs m.clock (m.slots j)) :
    m'.slots = m.slots ∧ owned = 0 ∧ transfer = 0 := by
  have none (former : SlotState) :
      m.dueCount component deadEpoch minimumAgeNs former 0 len = 0 := by
    apply List.countP_eq_zero.mpr
    intro j inside
    have below := (List.mem_range'_1.mp inside).2
    simp [early j (by omega)]
  refine ⟨?_, swept.ownedCount.trans (none .owned), swept.transferCount.trans (none .transfer)⟩
  funext j
  exact (swept.kept j fun reached => early j (by omega) reached.2.2).1

theorem poolRecoverOwner_swept {status : Status} {result : RecoveryResult}
    (valid : componentIdValid component = true) (nonzero : deadEpoch ≠ 0)
    (run : Completes (poolRecoverOwner pool component deadEpoch minimumAgeNs) m (status, result) m') :
    (Running m component deadEpoch ∧ status = .componentStale ∧ result = ⟨0, 0, 0⟩ ∧ m' = m) ∨
    (¬ Running m component deadEpoch ∧ ∃ len,
      Reclaims component deadEpoch minimumAgeNs m 0 len result.recoveredOwned result.recoveredTransfer
        m' ∧ SweepEnds pool component deadEpoch minimumAgeNs m 0 pool.slotCount status len) := by
  unfold poolRecoverOwner at run
  rw [if_neg (by simp [valid, nonzero]), loadLifecycle, lift_bind] at run
  cases run with
  | act e run =>
      beta_reduce at run
      split at run
      · rename_i running
        cases run
        exact .inl ⟨running, rfl, rfl, rfl⟩
      · rename_i running
        cases run with
        | act e run =>
            obtain ⟨len, owned, transfer, swept, ends, owned_eq, transfer_eq⟩ :=
              recoverOwnerScan_swept run
            simp only [Nat.zero_add] at owned_eq transfer_eq
            subst owned_eq transfer_eq
            exact .inr ⟨running, len, swept, ends⟩

end Sweep

/-- An owner recovery asks for a valid component and an epoch, and refuses while the component
runs as that epoch. Otherwise it frees the due slots in index order, all of them or those before
one whose page protection failed, reports and counts exactly these, and touches no other slot;
once it has succeeded, another recovery at the same time frees nothing. -/
theorem recover_owner_frees_exactly {pool : Pool} {component deadEpoch minimumAgeNs : Nat}
    {m m' : Mem} {status : Status} {result : RecoveryResult}
    (run : Completes (poolRecoverOwner pool component deadEpoch minimumAgeNs) m (status, result) m') :
    (componentIdValid component = false ∨ deadEpoch = 0 →
      status = .invalidArgument ∧ result = ⟨0, 0, 0⟩ ∧ m' = m) ∧
    (componentIdValid component = true → deadEpoch ≠ 0 → Running m component deadEpoch →
      status = .componentStale ∧ result = ⟨0, 0, 0⟩ ∧ m' = m) ∧
    (componentIdValid component = true → deadEpoch ≠ 0 → ¬ Running m component deadEpoch →
      ∃ len, Reclaims component deadEpoch minimumAgeNs m 0 len result.recoveredOwned
          result.recoveredTransfer m' ∧
        SweepEnds pool component deadEpoch minimumAgeNs m 0 pool.slotCount status len ∧
        (status = .ok → ∀ status' result' m'',
          Completes (poolRecoverOwner pool component deadEpoch minimumAgeNs) m'
            (status', result') m'' →
          status' = .ok ∧ result'.recoveredOwned = 0 ∧ result'.recoveredTransfer = 0 ∧
            m''.slots = m'.slots)) := by
  refine ⟨fun bad => ?_, fun valid nonzero running => ?_, fun valid nonzero running => ?_⟩
  · unfold poolRecoverOwner at run
    rw [if_pos bad] at run
    cases run
    exact ⟨rfl, rfl, rfl⟩
  · rcases poolRecoverOwner_swept valid nonzero run with ⟨-, stale⟩ | ⟨idle, -⟩
    · exact stale
    · exact absurd running idle
  · rcases poolRecoverOwner_swept valid nonzero run with ⟨stale, -⟩ | ⟨-, len, swept, ends⟩
    · exact absurd stale running
    refine ⟨len, swept, ends, ?_⟩
    intro ok status' result' m'' again
    have whole : len = pool.slotCount := by
      rcases ends with ⟨-, all⟩ | ⟨failed, -⟩
      · exact all
      · exact absurd ok failed
    subst whole
    rcases poolRecoverOwner_swept valid nonzero again with ⟨stale, -⟩ | ⟨-, len', swept', ends'⟩
    · rw [Running, swept.lifecycle] at stale
      exact absurd stale running
    · rcases ends' with ⟨ok', whole'⟩ | ⟨-, -, short, due⟩
      · subst whole'
        obtain ⟨slots, owned, transfer⟩ := swept'.idle fun j inside => swept.settled inside
        exact ⟨ok', owned, transfer, slots⟩
      · rw [Nat.zero_add] at due
        exact absurd due (swept.settled short)

/-- Component 1 left with a buffer in its hands. -/
def abandonedMem : Mem := (allocatedSession.run smallPool (.life (.unregister 1 1 1))).mem

/-- The recovery of its one slot. -/
def abandonedSweep : (Status × RecoveryResult) × Mem :=
  (poolRecoverOwner smallPool 1 1 0).runWith default abandonedMem

theorem recover_owner_frees_exactly_abandoned :
    abandonedSweep.1.1 = .ok ∧ abandonedSweep.1.2.recoveredOwned = 1 ∧
      ∃ len, Reclaims 1 1 0 abandonedMem 0 len abandonedSweep.1.2.recoveredOwned
        abandonedSweep.1.2.recoveredTransfer abandonedSweep.2 := by
  refine ⟨by decide, by decide, ?_⟩
  have stopped : ¬ Running abandonedMem 1 1 := fun running => absurd running.1 (by decide)
  obtain ⟨len, swept, -⟩ := (recover_owner_frees_exactly
    (runWith_completes default (poolRecoverOwner smallPool 1 1 0) abandonedMem)).2.2 (by decide)
    (by decide) stopped
  exact ⟨len, swept⟩

/-- Component 1 allocates without having been registered: its slot has owner epoch 0. -/
def unregisteredSession : Session := attached.run smallPool (.allocate 1 0)

theorem unregistered_reached : unregisteredSession.Reached smallPool anyStep := by
  refine ⟨attached, attached_starts, ?_⟩
  exact .tail .refl ⟨Session.run_step ⟨⟩ (by decide), trivial⟩

/-- The slot of a component that never registered is not freed: a dead epoch of 0 is refused. -/
theorem unregistered_owner_not_recovered :
    unregisteredSession.Reached smallPool anyStep ∧
    (∀ i, i < smallPool.slotCount → (unregisteredSession.mem.slots i).claimToken = 0) ∧
    ¬ Running unregisteredSession.mem 1 0 ∧
    Due 1 0 0 unregisteredSession.mem.clock (unregisteredSession.mem.slots 0) ∧
    ∃ status result m', Completes (poolRecoverOwner smallPool 1 0 0) unregisteredSession.mem
      (status, result) m' ∧ status = .invalidArgument ∧ (m'.slots 0).state = .owned := by
  refine ⟨unregistered_reached, by decide, ?_, by decide, ?_⟩
  · intro running
    exact absurd running.1 (by decide)
  · exact ⟨_, _, _, runWith_completes default _ _, by decide, by decide⟩

end Zipc
