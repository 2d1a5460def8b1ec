import Zipc.Repairs
import Zipc.Epochs

/-! # Complete calls

What every call of the API does to a pool when it runs alone to its end: the slots live
on, at most one of them gets a new generation, and epochs only grow. Transports and
lifecycles are outside the slots, so these parts of a call leave the slots alone.
-/

namespace Zipc

open Atomic Program

/-! ## What happens beside the slots -/

/-- The slots, the lifecycles, the clock and the rings that are not `used` are as before,
    and no transfer was recorded. -/
structure Aside (used : Nat → Prop) (m m' : Mem) : Prop where
  cores : ∀ j, m'.core j = m.core j
  hooked : ∃ log, Quiet log ∧ m'.hooked = m.hooked ++ log
  lifecycle : ∀ k, (m'.components k).lifecycle = (m.components k).lifecycle
  clock : m'.clock = m.clock
  rings : ∀ r, ¬used r → m'.rings r = m.rings r

theorem Aside.refl (used : Nat → Prop) (m : Mem) : Aside used m m :=
  ⟨fun _ => rfl, ⟨[], Quiet.nil, by simp⟩, fun _ => rfl, rfl, fun _ _ => rfl⟩

theorem Aside.settles {pool : Pool} {reach : Reach} {used : Nat → Prop} {m m' : Mem}
    (aside : Aside used m m') (within : ∀ r, used r → reach.ring r) :
    Settles pool reach m m' := by
  obtain ⟨log, quiet, hooked⟩ := aside.hooked
  refine Relation.ReflTransGen.single
    ⟨⟨.still aside.cores hooked quiet, fun k => ?_, fun r far => ?_⟩, fun j => ?_⟩
  · rw [aside.lifecycle k]
  · exact aside.rings r fun near => far (within r near)
  · rw [aside.cores j]

/-- The actions that leave slots and lifecycles alone, and rings that are not `used`. -/
def asidePermits (used : Nat → Prop) {β : Type} : Act β → Prop
  | .loadState _ | .loadToken _ | .loadGeneration _ | .read _ _ | .loadLifecycle _ | .loadCursor
  | .loadProducer _ | .loadConsumer _ | .readDepth _ | .readEntry _ _ | .eventWrite _
  | .eventRead _ | .pollExpired | .externalSend _ | .externalReceive | .now | .count _ => True
  | .storeProducer r _ | .storeConsumer r _ | .writeEntry r _ _ => used r
  | .hook record => record.event ≠ .send ∧ record.event ≠ .receive
  | _ => False

def asideDiscipline (used : Nat → Prop) : Discipline Act Unit Unit where
  start _ := ()
  permits _ _ action := asidePermits used action
  next _ _ _ _ := ()

/-- The program leaves slots, lifecycles and rings that are not `used` alone. -/
def StaysAside (used : Nat → Prop) {α : Type} (p : Prog α) : Prop :=
  p.Follows (asideDiscipline used) () (fun _ _ => True) ()

section Aside

variable {used : Nat → Prop}

theorem Aside.act {m m' : Mem} (aside : Aside used m m') {β : Type} {action : Act β}
    (permits : asidePermits used action) (e : Env) : Aside used m (action.exec e m').2 := by
  obtain ⟨log, quiet, hooked⟩ := aside.hooked
  cases action with
  | hook record =>
      refine ⟨aside.cores, ⟨log ++ [record], quiet.snoc permits, ?_⟩, aside.lifecycle, aside.clock,
        aside.rings⟩
      simp [Act.exec, hooked]
  | eventWrite r =>
      simp only [Act.exec]
      split
      · exact ⟨aside.cores, ⟨log, quiet, hooked⟩, aside.lifecycle, aside.clock, aside.rings⟩
      · exact aside
  | eventRead r =>
      simp only [Act.exec]
      split
      · exact aside
      split
      · exact aside
      · exact ⟨aside.cores, ⟨log, quiet, hooked⟩, aside.lifecycle, aside.clock, aside.rings⟩
  | count k => exact ⟨aside.cores, ⟨log, quiet, hooked⟩, aside.lifecycle, aside.clock, aside.rings⟩
  | storeProducer q | storeConsumer q | writeEntry q =>
      refine ⟨aside.cores, ⟨log, quiet, hooked⟩, aside.lifecycle, aside.clock, fun r far => ?_⟩
      have other : r ≠ q := fun same => far (same ▸ permits)
      simpa [Act.exec, Mem.setRing, other] using aside.rings r far
  | loadState | loadToken | loadGeneration | read | loadLifecycle | loadCursor | loadProducer
  | loadConsumer | readDepth | readEntry | pollExpired | externalSend | externalReceive | now =>
      exact aside
  | _ => cases permits

theorem guarded_of_aside (pool : Pool) {β : Type} {action : Act β} (permits : asidePermits used action)
    (m : Mem) : Guarded pool action m := by
  cases action with
  | storeState | casState => cases permits
  | _ => trivial

theorem StaysAside.runs {α : Type} {p : Prog α} (stays : StaysAside used p) (pool : Pool)
    (m : Mem) : p.wps (Guarded pool) (fun _ m' => Aside used m m') m := by
  refine wps_mono (Follows.safe (R := Aside used) stays ?_ (.refl used m)) fun _ _ ends => ends.1
  intro s s' _ β action aside permits
  exact ⟨guarded_of_aside pool permits s', fun e => aside.act permits e⟩

theorem StaysAside.bind {α β : Type} {p : Prog α} {f : α → Prog β} (first : StaysAside used p)
    (rest : ∀ a, StaysAside used (f a)) : StaysAside used (p >>= f) := by
  rw [StaysAside, follows_bind]
  exact follows_mono first fun _ a _ => rest a

theorem stays_done {α : Type} (a : α) : StaysAside used (.done a) := trivial

theorem stays_act {α β : Type} {action : Act β} {next : β → Prog α}
    (permits : asidePermits used action) (rest : ∀ b, StaysAside used (next b)) :
    StaysAside used (.act action next) :=
  ⟨permits, rest⟩

end Aside

section Rings

variable {used : Nat → Prop} {r : Nat}

theorem ringScan_aside (message : Message) (depth left : Nat) : ∀ position,
    StaysAside used (ringScan r message depth left position) := by
  induction left with
  | zero => exact fun position => stays_done false
  | succ left ih =>
      intro position
      simp only [ringScan, lift_bind]
      refine stays_act trivial fun queued => ?_
      split
      · exact stays_done true
      · exact ih _

theorem ringPush_aside (uses : used r) (message : Message) :
    StaysAside used (ringPush r message) := by
  simp only [ringPush, lift_bind]
  refine stays_act trivial fun depth => ?_
  split
  · exact stays_done _
  refine stays_act trivial fun p => stays_act trivial fun c => ?_
  split
  · exact stays_done _
  refine (ringScan_aside message depth _ _).bind fun pending => ?_
  split
  · exact stays_done _
  · exact stays_act uses fun _ => stays_act uses fun _ => stays_done _

theorem ringPeek_aside : StaysAside used (ringPeek r) := by
  simp only [ringPeek, lift_bind]
  refine stays_act trivial fun depth => ?_
  split
  · exact stays_done _
  refine stays_act trivial fun c => stays_act trivial fun p => ?_
  split
  · exact stays_done _
  · exact stays_act trivial fun message => stays_done _

theorem ringCommit_aside (uses : used r) (position : Nat) :
    StaysAside used (ringCommit r position) := by
  simp only [ringCommit, lift_bind]
  refine stays_act trivial fun depth => ?_
  split
  · exact stays_done _
  refine stays_act trivial fun c => ?_
  split
  · exact stays_done _
  · exact stays_act uses fun _ => stays_done _

theorem eventWait_aside (fuel : Nat) : StaysAside used (eventWait r fuel) := by
  induction fuel with
  | zero => exact stays_done none
  | succ fuel ih =>
      simp only [eventWait, lift_bind]
      refine stays_act trivial fun outcome => ?_
      cases outcome with
      | woken => exact stays_done _
      | failed => exact stays_done _
      | blocked => exact ih

theorem reconcileDrain_aside (uses : used r) (pool : Pool) (fuel : Nat) :
    StaysAside used (reconcileDrain pool r fuel) := by
  induction fuel with
  | zero => exact stays_done none
  | succ fuel ih =>
      simp only [reconcileDrain, lift_bind]
      refine stays_act trivial fun consumer => stays_act trivial fun producer => ?_
      split
      · exact stays_done _
      refine stays_act trivial fun depth => stays_act trivial fun message => ?_
      split
      · exact stays_act uses fun _ => ih
      refine stays_act trivial fun state => stays_act trivial fun generation => ?_
      split
      · exact stays_done _
      · exact stays_act uses fun _ => ih

end Rings

/-- The transport keeps its descriptors in ring `r`. -/
def Transport.Uses (t : Transport) (r : Nat) : Prop := t.ring = some r

section Transports

variable (t : Transport)

theorem transportSend_aside (message : Message) : StaysAside t.Uses (transportSend t message) := by
  cases t with
  | eventfd r =>
      have uses : (Transport.eventfd r).Uses r := rfl
      refine (ringPush_aside uses message).bind fun status => ?_
      split
      · exact stays_done _
      · exact stays_act trivial fun written => stays_done _
  | polling r timeout =>
      have uses : (Transport.polling r timeout).Uses r := rfl
      exact ringPush_aside uses message
  | external => exact stays_act trivial fun status => stays_done _

theorem receiveBegin_aside (used : Nat → Prop) (fuel : Nat) :
    StaysAside used (receiveBegin t fuel) := by
  induction fuel with
  | zero => exact stays_done none
  | succ fuel ih =>
      cases t with
      | eventfd r =>
          refine ringPeek_aside.bind fun peeked => ?_
          split
          · exact stays_done _
          · refine (eventWait_aside fuel).bind fun woken => ?_
            split
            · exact stays_done _
            · exact stays_done _
            · exact ih
          · exact stays_done _
      | polling r timeout =>
          refine ringPeek_aside.bind fun peeked => ?_
          split
          · exact stays_done _
          · split
            · refine stays_act trivial fun expired => ?_
              cases expired with
              | true => exact stays_done _
              | false => exact ih
            · exact ih
          · exact stays_done _
      | external =>
          refine stays_act trivial fun received => ?_
          cases received with
          | ok message => exact stays_done _
          | error status => exact stays_done _

theorem receiveCommit_aside (token : ReceiveToken) :
    StaysAside t.Uses (receiveCommit t token) := by
  simp only [receiveCommit]
  split
  · exact stays_done _
  · split
    · rename_i r ring
      exact ringCommit_aside ring _
    · exact stays_done _

end Transports

/-! ## Steps of a pool -/

section Steps

variable {pool : Pool} {reach : Reach} {m m' : Mem} {i : Nat} {c : SlotCore}
  {log : List TraceRecord}

/-- Run alone, a program in focus starts with the slot as it is. -/
theorem Focused.alone {α : Type} {p : Prog α} {Q : α → SlotCore → List TraceRecord → Prop}
    (run : Focused anyEnv pool m i p Q (m.core i) []) :
    p.wps (Guarded pool) (fun a m' => ∃ c log, Focus m i c log m' ∧ Q a c log) m :=
  (run m (.refl m i)).all fun _ => trivial

theorem Focus.advances (focus : Focus m i c log m') (inside : i < pool.slotCount)
    (reached : reach.slot i (m.core i)) (life : SlotLife pool m.retired i (m.core i) c log) :
    Advances pool reach m m' := by
  refine ⟨.life inside reached (focus.core ▸ life) focus.others focus.hooked, fun k => ?_, ?_⟩
  · rw [focus.lifecycle k]
  · intro r _
    rw [focus.rings]

theorem Focus.settles (focus : Focus m i c log m') (inside : i < pool.slotCount)
    (reached : reach.slot i (m.core i)) (life : SlotLife pool m.retired i (m.core i) c log)
    (same : c.generation = (m.core i).generation) : Settles pool reach m m' := by
  refine Relation.ReflTransGen.single ⟨focus.advances inside reached life, fun j => ?_⟩
  by_cases moved : j = i
  · subst moved
    rw [focus.core]
    exact same
  · rw [focus.others j moved]

theorem Focus.still (focus : Focus m i (m.core i) log m') (quiet : Quiet log) :
    Settles pool reach m m' := by
  have cores (j : Nat) : m'.core j = m.core j := by
    by_cases here : j = i
    · subst here
      exact focus.core
    · exact focus.others j here
  refine Relation.ReflTransGen.single ⟨⟨.still cores focus.hooked quiet, fun k => ?_, ?_⟩, ?_⟩
  · rw [focus.lifecycle k]
  · intro r _
    rw [focus.rings]
  · intro j
    rw [cores j]

end Steps

/-! ## Views -/

/-- What a buffer of the API says about its place forever. -/
structure ViewWell (pool : Pool) (v : View) : Prop where
  slot : v.slotId = handleSlotId v.handle
  inside : v.slotId < pool.slotCount
  capacity : v.capacity = pool.slotCapacity

/-- The buffer is valid: it passes `buffer_owned`. -/
def Valid (m : Mem) (v : View) : Prop := Owns m (m.core v.slotId) v

/-- A valid buffer of the pool. -/
structure Fresh (pool : Pool) (m : Mem) (v : View) : Prop where
  well : ViewWell pool v
  valid : Valid m v

/-! ## Tests -/

theorem registeredEpoch_alone (pool : Pool) (m : Mem) (component : Nat) :
    (registeredEpoch component).wps (Guarded pool)
      (fun epoch m' => m' = m ∧ epoch = m.epoch component) m := by
  simp only [registeredEpoch, Mem.epoch]
  split
  · exact ⟨trivial, fun _ => ⟨rfl, rfl⟩⟩
  · exact ⟨rfl, rfl⟩

theorem ownedBy_alone (pool : Pool) (m : Mem) (i owner epoch : Nat) :
    (ownedBy i owner epoch).wps (Guarded pool) (fun same m' => m' = m ∧
      (same = true ↔ (m.core i).ownerId = owner ∧ (m.core i).ownerEpoch = epoch)) m := by
  simp only [ownedBy, lift_bind]
  refine ⟨trivial, fun _ => ?_⟩
  refine wps_ite (fun other => ⟨rfl, (fun done => by cases done), fun same => absurd same.1 other⟩) (fun owner => ?_)
  · refine ⟨trivial, fun _ => ⟨rfl, ?_⟩⟩
    exact ⟨fun same => ⟨not_not.mp owner, of_decide_eq_true same⟩,
      fun same => decide_eq_true same.2⟩

theorem bufferOwned_alone (pool : Pool) (m : Mem) (v : View) :
    (bufferOwned (some v)).wps (Guarded pool)
      (fun owned m' => m' = m ∧ (owned = true ↔ Valid m v)) m := by
  simp only [bufferOwned, lift_bind]
  refine ⟨trivial, fun _ => ?_⟩
  refine wps_ite (fun other => ⟨rfl, (fun done => by cases done), fun valid => absurd valid.generation other⟩)
    (fun generation => ?_)
  refine ⟨trivial, fun _ => ?_⟩
  refine wps_ite (fun other => ⟨rfl, (fun done => by cases done), fun valid => absurd valid.state other⟩)
    (fun state => ?_)
  rw [wps_bind]
  refine wps_mono (ownedBy_alone pool m v.slotId v.owner v.ownerEpoch) ?_
  rintro same m' ⟨rfl, owned⟩
  split
  · rename_i other
    refine ⟨rfl, (fun done => by cases done), fun valid => ?_⟩
    rw [other] at owned
    exact absurd (owned.mpr ⟨valid.owner, valid.ownerEpoch⟩) Bool.false_ne_true
  rename_i held
  rw [Bool.not_eq_false] at held
  obtain ⟨owner, epoch⟩ := owned.mp held
  rw [wps_bind]
  refine wps_mono (registeredEpoch_alone pool m' v.owner) ?_
  rintro _ m'' ⟨rfl, rfl⟩
  refine ⟨rfl, ?_⟩
  rw [decide_eq_true_eq]
  exact ⟨fun current => ⟨not_not.mp generation, not_not.mp state, owner, epoch, current⟩,
    fun valid => valid.current⟩

theorem epochCurrent_alone (pool : Pool) (m : Mem) (component epoch : Nat) :
    (epochCurrent component epoch).wps (Guarded pool) (fun current m' => m' = m ∧
      (current = true → epoch ≠ 0 → m.epoch component = epoch)) m := by
  simp only [epochCurrent]
  refine wps_ite (fun given => ?_) (fun given => ⟨rfl, fun _ nonzero => absurd nonzero given⟩)
  simp only [componentEpochCurrent]
  refine wps_ite (fun _ => ⟨rfl, nofun⟩) (fun legal => ⟨trivial, fun _ => ⟨rfl, fun current _ => ?_⟩⟩)
  rw [not_or, Bool.not_eq_false] at legal
  have found : componentLifecycleEpoch (m.components component).lifecycle = epoch ∧
      componentLifecycleState (m.components component).lifecycle ≠
        ComponentState.inactive.toNat := of_decide_eq_true current
  rw [Mem.epoch, if_pos legal.1, epochOf, if_neg found.2]
  exact found.1

theorem epochRecovering_alone (pool : Pool) (m : Mem) (component epoch : Nat) :
    (componentEpochRecovering component epoch).wps (Guarded pool) (fun recovering m' => m' = m ∧
      (recovering = true → componentIdValid component = true ∧ epoch ≠ 0 ∧
        (m.components component).lifecycle = componentLifecycleMake epoch .recovering)) m := by
  simp only [componentEpochRecovering]
  refine wps_ite (fun _ => ⟨rfl, fun done => by cases done⟩) (fun legal => ⟨trivial, fun _ => ⟨rfl, fun recovering => ?_⟩⟩)
  rw [not_or, Bool.not_eq_false] at legal
  exact ⟨legal.1, legal.2, of_decide_eq_true recovering⟩

/-- The buffer names the slot, the generation and the owner that it finds there. -/
structure Placed (pool : Pool) (m : Mem) (v : View) : Prop where
  well : ViewWell pool v
  generation : (m.core v.slotId).generation = handleGeneration v.handle
  state : (m.core v.slotId).state = .owned
  owner : (m.core v.slotId).ownerId = v.owner
  ownerEpoch : (m.core v.slotId).ownerEpoch = v.ownerEpoch

theorem Placed.fresh {pool : Pool} {m : Mem} {v : View} (placed : Placed pool m v)
    (current : m.epoch v.owner = v.ownerEpoch) : Fresh pool m v :=
  ⟨placed.well, placed.generation, placed.state, placed.owner, placed.ownerEpoch, current⟩

theorem Focus.epoch {m m' : Mem} {i : Nat} {c : SlotCore} {log : List TraceRecord}
    (focus : Focus m i c log m') (component : Nat) : m'.epoch component = m.epoch component := by
  rw [Mem.epoch, Mem.epoch, focus.lifecycle component]

/-- The view of an owned slot in focus. -/
theorem Focus.placed {pool : Pool} {m m' : Mem} {i handle : Nat} {c : SlotCore}
    {log : List TraceRecord} (focus : Focus m i c log m') (inside : i < pool.slotCount)
    (slot : handleSlotId handle = i) (generation : handleGeneration handle = c.generation)
    (owned : c.state = .owned) : Placed pool m' (c.view pool i handle) := by
  have core : m'.core i = c := focus.core
  refine ⟨⟨slot.symm, inside, rfl⟩, ?_, ?_, ?_, ?_⟩
  · exact (congrArg SlotCore.generation core).trans generation.symm
  · exact (congrArg SlotCore.state core).trans owned
  · exact congrArg SlotCore.ownerId core
  · exact congrArg SlotCore.ownerEpoch core

/-! ## Allocation -/

/-- Allocation takes a free slot. -/
def freeReach : Reach := ⟨fun _ c => c.state = .free, fun _ => False⟩

/-- What a complete allocation does. -/
structure Allocates (pool : Pool) (a : AllocateArgs) (epoch : Nat) (m : Mem)
    (result : Status × Option View) (m' : Mem) : Prop where
  lives : Lives pool freeReach m m'
  epochs : ∀ k, m'.epoch k = m.epoch k
  made : ∀ v, result.2 = some v →
    result.1 = .ok ∧ Placed pool m' v ∧ v.owner = a.allocator ∧ v.ownerEpoch = epoch
  failed : result.2 = none → result.1 ≠ .ok

section Allocation

variable {pool : Pool} {a : AllocateArgs} {epoch : Nat} {m m' : Mem}

/-- A free slot carries no token, and its payload is not accessible. -/
theorem SlotWell.vacant {c : SlotCore} (well : SlotWell pool c) (free : c.state = .free) :
    c.claimToken = 0 ∧ c.Closed pool := by
  have closed : c.Closed pool := well.2.1 (by rw [free]; nofun)
  simp only [SlotWell, free] at well
  exact ⟨well.2.2.1, closed⟩

theorem AllocateEnds.allocates {i : Nat} {result : Status × Option View} {c : SlotCore}
    {log : List TraceRecord} (enabled : a.enablePayload = true) (inside : i < pool.slotCount)
    (free : (m.core i).state = .free) (ends : AllocateEnds anyEnv pool pool i (m.core i) a epoch result c log)
    (focus : Focus m i c log m') : Allocates pool a epoch m result m' := by
  obtain ⟨quiet, generation, made | ⟨status, rfl, failed, empty, closed, _⟩⟩ := ends
  · obtain ⟨rfl, owned, token, holds, next, sequence, hops, visited, owner, ownerEpoch, opened⟩ :=
      made
    have small : i < u32 := lt_trans inside pool.slotCount_lt
    have life : SlotLife pool m.retired i (m.core i) c log :=
      .allocate free owned generation token holds next sequence hops visited
        (fun strict => opened strict enabled) quiet
    refine ⟨(focus.advances inside free life).lives, focus.epoch, fun v same => ?_, nofun⟩
    cases same
    have fits : c.generation < u32 := generation ▸ nextGeneration_lt _
    exact ⟨rfl, focus.placed inside (handleSlotId_make small)
      (handleGeneration_make small fits) owned, owner, ownerEpoch⟩
  · have life : SlotLife pool m.retired i (m.core i) c log :=
      .refuse free empty closed generation quiet
    exact ⟨(focus.advances inside free life).lives, focus.epoch, nofun, fun _ => failed⟩

theorem allocateScan_alone {token start : Nat} (enabled : a.enablePayload = true)
    (valid : componentIdValid a.allocator = true)
    (within : (⟨a.offset, a.length⟩ : Region).Within pool.slotCapacity) (left : Nat) :
    left ≤ pool.slotCount → ∀ n (m : Mem), PoolWell pool m →
      (allocateScan pool a epoch token start left n).wps (Guarded pool)
        (Allocates pool a epoch m) m := by
  induction left with
  | zero =>
      intro _ n m well
      refine ⟨trivial, fun e => ⟨?_, fun _ => rfl, nofun, fun _ => nofun⟩⟩
      have focus : Focus m 0 (m.core 0) [] ((Act.count .allocationFailure).exec e m).2 :=
        (Focus.refl m 0).outside (fun _ => rfl) rfl (fun _ => rfl) rfl rfl
      exact (focus.still Quiet.nil).lives
  | succ left ih =>
      intro few n m well
      have inside : (start + n) % u32 % pool.slotCount < pool.slotCount :=
        Nat.mod_lt _ (by omega)
      simp only [allocateScan]
      rw [wps_bind]
      refine wps_mono (allocateTry_focused id valid within Quiet.nil (well _ inside).vacant).alone ?_
      rintro (_ | result) m' ⟨c, log, focus, ends⟩
      · obtain ⟨rfl, rfl, _⟩ := ends
        have settles : Settles pool freeReach m m' := focus.still Quiet.nil
        refine wps_mono (ih (by omega) (n + 1) m' (settles.well well)) fun result m'' done => ?_
        exact ⟨settles.then done.lives, fun k => (done.epochs k).trans (focus.epoch k), done.made,
          done.failed⟩
      · exact ends.2.allocates enabled inside ends.1 focus

/-- `buffer_allocate_internal` alone, at a given epoch or the registered one. -/
theorem allocateInternal_alone {ownerEpoch : Nat} (enabled : a.enablePayload = true)
    (well : PoolWell pool m) :
    (bufferAllocateInternal pool a ownerEpoch).wps (Guarded pool) (Allocates pool a
      (if ownerEpoch ≠ 0 then ownerEpoch else m.epoch a.allocator) m) m := by
  simp only [bufferAllocateInternal]
  refine wps_ite (fun _ => ?_) (fun legal => ?_)
  · exact ⟨(Settles.refl _ _ _).lives, fun _ => rfl, nofun, fun _ => nofun⟩
  simp only [not_or, Bool.not_eq_false] at legal
  have within : (⟨a.offset, a.length⟩ : Region).Within pool.slotCapacity := by
    simp only [Region.Within]
    omega
  have scan (epoch start : Nat) : (allocateScan pool a epoch
      (claimTokenMake .allocate a.allocator epoch) start pool.slotCount 0).wps (Guarded pool)
        (Allocates pool a epoch m) m :=
    allocateScan_alone enabled legal.1 within pool.slotCount le_rfl 0 m well
  rw [wps_bind]
  simp only [allocateEpoch]
  refine wps_ite (fun given => ?_) (fun missing => ?_)
  · rw [if_pos given]
    exact ⟨trivial, fun _ => scan _ _⟩
  · rw [if_neg missing]
    refine wps_mono (registeredEpoch_alone pool m a.allocator) ?_
    rintro _ m' ⟨rfl, rfl⟩
    exact ⟨trivial, fun _ => scan _ _⟩

end Allocation

/-- What a call leaves that may return a buffer: the pool lives on within reach, and the
    buffer is valid. -/
structure Gives (pool : Pool) (reach : Reach) (m : Mem) (result : Status × Option View)
    (m' : Mem) : Prop where
  lives : Lives pool reach m m'
  fresh : ∀ v, result.2 = some v → result.1 = .ok ∧ Fresh pool m' v

theorem Allocates.gives {pool : Pool} {a : AllocateArgs} {epoch : Nat} {m m' : Mem}
    {result : Status × Option View} (allocates : Allocates pool a epoch m result m')
    (current : m.epoch a.allocator = epoch) : Gives pool freeReach m result m' := by
  refine ⟨allocates.lives, fun v same => ?_⟩
  obtain ⟨ok, placed, owner, ownerEpoch⟩ := allocates.made v same
  exact ⟨ok, placed.fresh (by rw [owner, ownerEpoch, allocates.epochs, current])⟩

section Calls

variable {pool : Pool} {m : Mem}

theorem bufferAllocate_alone (allocator parentId : Nat) (well : PoolWell pool m) :
    (bufferAllocate pool allocator parentId).wps (Guarded pool) (Gives pool freeReach m) m :=
  wps_mono (allocateInternal_alone rfl well) fun _ _ allocates => allocates.gives rfl

theorem bufferAllocEx_alone (link : Link) (size headroom tailroom : Nat)
    (parent : Option (Option View)) (well : PoolWell pool m) :
    (bufferAllocEx pool link size headroom tailroom parent).wps (Guarded pool)
      (Gives pool freeReach m) m := by
  have refused (status : Status) : Gives pool freeReach m (status, none) m :=
    ⟨(Settles.refl _ _ _).lives, nofun⟩
  simp only [bufferAllocEx]
  refine wps_ite (fun _ => refused _) (fun _ => ?_)
  rw [wps_bind]
  refine wps_mono (epochCurrent_alone pool m _ _) ?_
  rintro current m ⟨rfl, holds⟩
  refine wps_ite (fun _ => refused _) (fun live => wps_ite (fun _ => refused _) (fun _ => ?_))
  rw [Bool.not_eq_false] at live
  have internal (id : Nat) : (bufferAllocateInternal pool
      { allocator := link.localComponent, parentId := id, offset := headroom, length := size,
        hopLimit := link.hopLimit, deadlineDurationNs := link.defaultDeadlineNs,
        enablePayload := true } link.localEpoch).wps (Guarded pool) (Gives pool freeReach m) m := by
    refine wps_mono (allocateInternal_alone rfl well) fun _ _ allocates => allocates.gives ?_
    split
    · rename_i given
      exact holds live given
    · rfl
  cases parent with
  | none => exact internal 0
  | some buffer =>
      cases buffer with
      | none => exact refused _
      | some v =>
          simp only
          rw [wps_bind]
          refine wps_mono (bufferOwned_alone pool m v) ?_
          rintro owned m ⟨rfl, _⟩
          cases owned with
          | false => exact refused _
          | true => exact ⟨trivial, fun _ => internal _⟩

/-! ## Release -/

/-- An owner works on its slots. -/
def ownerReach (owner : Nat) : Reach :=
  ⟨fun _ c => c.state = .owned ∧ c.ownerId = owner, fun _ => False⟩

theorem poolBufferRelease_alone (handle owner : Nat) (well : PoolWell pool m) :
    (poolBufferRelease pool handle owner).wps (Guarded pool)
      (fun _ m' => Settles pool (ownerReach owner) m m') m := by
  refine wps_mono (release_focused fun inside => well _ inside).alone ?_
  rintro status m' ⟨c, log, focus, quiet, ⟨_, rfl | ⟨inside, owned, own, rfl⟩⟩ | freed⟩
  · exact focus.still quiet
  · exact focus.settles inside ⟨owned, own⟩ (.save (by rw [owned]; nofun) quiet) rfl
  · obtain ⟨_, inside, owned, _, own, _, closed, access, rfl⟩ := freed
    exact focus.settles inside ⟨owned, own⟩ (.free ⟨rfl, rfl, rfl, rfl, rfl⟩ closed rfl quiet) rfl

/-- What a call leaves that works on the buffer `v`: the pool lives on within reach with
    its generations, and the buffer keeps its place. -/
structure Edits (pool : Pool) (reach : Reach) (v : View) (m : Mem) (result : Status × Option View)
    (m' : Mem) : Prop where
  settles : Settles pool reach m m'
  kept : ∀ v', result.2 = some v' → ∃ data length, v' = { v with data, length }

theorem View.keeps (v : View) : ∀ v', some v = some v' →
    ∃ data length, v' = { v with data, length } := by
  rintro v' ⟨⟩
  exact ⟨v.data, v.length, rfl⟩

/-- The call returns with nothing done. -/
theorem Edits.refl (reach : Reach) (v : View) (m : Mem) (status : Status) :
    Edits pool reach v m (status, some v) m :=
  ⟨.refl _ _ _, v.keeps⟩

theorem bufferRelease_alone (v : View) (well : PoolWell pool m) :
    (bufferRelease pool (some v)).wps (Guarded pool) (Edits pool (ownerReach v.owner) v m) m := by
  simp only [bufferRelease]
  rw [wps_bind]
  refine wps_mono (bufferOwned_alone pool m v) ?_
  rintro owned m ⟨rfl, _⟩
  cases owned with
  | false => exact .refl _ v m _
  | true =>
      simp only
      rw [wps_bind]
      refine wps_mono (poolBufferRelease_alone v.handle v.owner well) fun status m' settles => ?_
      refine ⟨settles, fun v' same => ?_⟩
      simp only at same
      split at same
      · cases same
      · exact v.keeps v' same

theorem bufferPut_alone (link : Link) (v : View) (well : PoolWell pool m) :
    (bufferPut pool link (some v)).wps (Guarded pool) (Edits pool (ownerReach v.owner) v m) m := by
  simp only [bufferPut]
  rw [wps_bind]
  refine wps_mono (bufferOwned_alone pool m v) ?_
  rintro owned m ⟨rfl, _⟩
  cases owned with
  | false => exact .refl _ v m _
  | true => exact wps_ite (fun _ => .refl _ v m _) (fun _ => bufferRelease_alone v well)

/-! ## Windows and limits -/

theorem SlotWell.region {c : SlotCore} (well : SlotWell pool c) :
    c.region.Within pool.slotCapacity := by
  obtain ⟨_, _, kept⟩ := well
  cases state : c.state with
  | free =>
      simp only [state] at kept
      rw [kept.2.2.2]
      exact ⟨Nat.zero_le _, Nat.zero_le _⟩
  | owned =>
      simp only [state] at kept
      exact kept.2.1.region
  | transfer =>
      simp only [state] at kept
      exact kept.2.1.region
  | claiming =>
      simp only [state] at kept
      exact kept.2.1.region
  | error => simp [state] at kept

/-- An operation on the window of a buffer, run alone. -/
theorem window_alone {v : View} {p : Prog (Status × Option View)} (placed : ViewWell pool v)
    (run : Focused anyEnv pool m v.slotId p (WindowEnds pool m (m.core v.slotId) v) (m.core v.slotId) []) :
    p.wps (Guarded pool) (Edits pool (ownerReach v.owner) v m) m := by
  refine wps_mono run.alone ?_
  rintro result m' ⟨c, log, focus, rfl, ⟨_, rfl, rfl⟩ | ⟨owns, ⟨data, length, kept⟩, moved⟩⟩
  · exact ⟨focus.still Quiet.nil, v.keeps⟩
  · obtain ⟨region, payload, within, rfl⟩ := moved
    refine ⟨?_, fun v' same => ⟨data, length, Option.some.inj (same.symm.trans kept)⟩⟩
    exact focus.settles placed.inside ⟨owns.state, owns.owner⟩
      (.window owns.state within Quiet.nil) rfl

theorem bufferSetLimits_alone {v : View} (hopLimit deadline : Nat) (placed : ViewWell pool v) :
    (bufferSetLimits (some v) hopLimit deadline).wps (Guarded pool)
      (fun _ m' => Settles pool (ownerReach v.owner) m m') m := by
  refine wps_mono (bufferSetLimits_focused rfl).alone ?_
  rintro status m' ⟨c, log, focus, rfl, ⟨_, _, rfl⟩ | ⟨owns, _, hops, until', rfl⟩⟩
  · exact focus.still Quiet.nil
  · exact focus.settles placed.inside ⟨owns.state, owns.owner⟩ (.limit owns.state Quiet.nil) rfl

/-- Reaches nothing. -/
def noReach : Reach := ⟨fun _ _ => False, fun _ => False⟩

theorem bufferFromHandle_alone (handle owner : Nat) (well : PoolWell pool m) :
    (bufferFromHandle pool handle owner).wps (Guarded pool)
      (fun result m' => Settles pool noReach m m' ∧ ∀ v, result = .ok v → Fresh pool m' v) m := by
  refine wps_mono (fromHandle_focused fun inside => well _ inside).alone ?_
  rintro result m' ⟨c, log, focus, rfl, rfl, ⟨status, rfl⟩ | ⟨rfl, inside, generation, ends⟩⟩
  · exact ⟨focus.still Quiet.nil, nofun⟩
  · obtain ⟨owned, own, current⟩ := ends
    refine ⟨focus.still Quiet.nil, fun v same => ?_⟩
    cases same
    refine (focus.placed inside rfl generation.symm owned).fresh ?_
    rw [focus.epoch]
    exact (own ▸ current).symm

/-! ## Transfer -/

theorem Mem.epoch_lt (m : Mem) (component : Nat) : m.epoch component < u32 := by
  rw [Mem.epoch, epochOf]
  split
  · split
    · decide
    · exact Nat.mod_lt _ (by decide)
  · decide

/-- How a complete preparation of a transfer ends. -/
def Prepares (pool : Pool) (owner handle : Nat) (m : Mem)
    (result : Except Status Message) (m' : Mem) : Prop :=
  Settles pool (ownerReach owner) m m' ∧ (∀ k, m'.epoch k = m.epoch k) ∧
    ∀ message, result = .ok message →
      handleSlotId handle < pool.slotCount ∧ message.handle = handle ∧
      (m'.core (handleSlotId handle)).ownerId = owner ∧
      (m'.core (handleSlotId handle)).ownerEpoch = m.epoch owner

theorem PrepareEnds.prepares {handle owner next linkId : Nat} {result : Except Status Message}
    {c : SlotCore} {log : List TraceRecord} {m' : Mem}
    (ends : PrepareEnds pool m (handleSlotId handle) (m.core (handleSlotId handle)) handle owner
      next linkId result c log) (focus : Focus m (handleSlotId handle) c log m') :
    Prepares pool owner handle m result m' := by
  rcases ends with ⟨status, rfl, _, quiet, rfl | ⟨inside, owned, own, rfl⟩⟩ | sent
  · exact ⟨focus.still quiet, focus.epoch, nofun⟩
  · exact ⟨focus.settles inside ⟨owned, own⟩ (.save (by rw [owned]; nofun) quiet) rfl, focus.epoch,
      nofun⟩
  · obtain ⟨inside, owned, _, rfl, current, valid, hops, ⟨access, hidden, rfl⟩, rfl, rfl⟩ := sent
    refine ⟨focus.settles inside ⟨owned, rfl⟩ (.send owned valid hops hidden) rfl, focus.epoch, ?_⟩
    intro message same
    cases same
    rw [focus.core]
    exact ⟨inside, rfl, rfl, current⟩

theorem prepare_alone (handle owner next linkId : Nat) (well : PoolWell pool m) :
    (bufferPrepareTransferInternal pool handle owner next linkId).wps (Guarded pool)
      (Prepares pool owner handle m) m := by
  refine wps_mono (prepare_focused fun inside => well _ inside).alone ?_
  rintro result m' ⟨c, log, focus, ends⟩
  exact ends.prepares focus

/-- A sender works on its slots and its ring. -/
def sendReach (link : Link) : Reach :=
  ⟨fun _ c => c.state ≠ .free ∧ c.ownerId = link.localComponent, link.transport.Uses⟩

theorem rollbackTransfer_alone {link : Link} {message : Message} {i : Nat}
    (inside : i < pool.slotCount) (well : PoolWell pool m)
    (own : (m.core i).ownerId = link.localComponent)
    (epoch : (m.core i).ownerEpoch = link.localEpoch) (small : link.localEpoch < u32) :
    (rollbackTransfer pool link i message).wps (Guarded pool)
      (fun _ m' => Settles pool (sendReach link) m m') m := by
  refine wps_mono (rollback_focused (well i inside)).alone ?_
  rintro status m' ⟨c, log, focus, rfl, ⟨_, rfl | ⟨sent, rfl⟩⟩ | ⟨sent, _, _, _, _, undone⟩⟩
  · exact focus.still Quiet.nil
  · have busy : (m.core i).state ≠ .free := by rw [sent]; nofun
    exact focus.settles inside ⟨busy, own⟩ (.save (by rw [sent]; nofun) Quiet.nil) rfl
  · have busy : (m.core i).state ≠ .free := by rw [sent]; nofun
    rcases undone with ⟨_, access, opened, rfl⟩ | ⟨_, strict, rfl⟩
    · exact focus.settles inside ⟨busy, own⟩ (.rollback sent opened Quiet.nil) rfl
    · rw [← epoch] at focus small
      exact focus.settles inside ⟨busy, own⟩ (.stick sent strict small Quiet.nil) rfl

theorem traceExternalEvent_aside (used : Nat → Prop) (handle sequence component : Nat)
    (event : TraceEvent) (plain : event ≠ .send ∧ event ≠ .receive) :
    StaysAside used (traceExternalEvent pool handle sequence component event) :=
  stays_act trivial fun _ => stays_act plain fun _ => stays_done _

theorem sendPrepared_alone {link : Link} {v : View} {message : Message}
    (inside : v.slotId < pool.slotCount) (well : PoolWell pool m)
    (own : (m.core v.slotId).ownerId = link.localComponent)
    (epoch : (m.core v.slotId).ownerEpoch = link.localEpoch) (small : link.localEpoch < u32) :
    (sendPrepared pool link v message).wps (Guarded pool) (Edits pool (sendReach link) v m) m := by
  have ended {a b : Mem} {status : Status} (settles : Settles pool (sendReach link) m a)
      (aside : Aside link.transport.Uses a b) :
      Edits pool (sendReach link) v m (status, none) b :=
    ⟨settles.trans (aside.settles fun _ uses => uses), nofun⟩
  simp only [sendPrepared]
  rw [wps_bind]
  refine wps_mono ((transportSend_aside link.transport message).runs pool m) ?_
  intro status a aside
  have first : Settles pool (sendReach link) m a := aside.settles fun _ uses => uses
  refine wps_ite (fun _ => ?_) (fun _ => wps_ite (fun _ => ?_) (fun _ => ⟨first, nofun⟩))
  · rw [wps_bind]
    refine wps_mono ((traceExternalEvent_aside link.transport.Uses _ _ _ .error
      ⟨nofun, nofun⟩).runs pool a) ?_
    exact fun _ b more => ended first more
  · rw [wps_bind]
    rw [← aside.cores] at own epoch
    refine wps_mono (rollbackTransfer_alone inside (first.well well) own epoch small) ?_
    intro undone b rolled
    refine wps_ite (fun _ => ?_) (fun _ => ⟨first.trans rolled, v.keeps⟩)
    rw [wps_bind]
    refine wps_mono ((traceExternalEvent_aside link.transport.Uses _ _ _ .error
      ⟨nofun, nofun⟩).runs pool b) ?_
    exact fun _ d more => ended (first.trans rolled) more

theorem send_alone (link : Link) {v : View} (placed : ViewWell pool v) (well : PoolWell pool m) :
    (send pool link (some v)).wps (Guarded pool) (Edits pool (sendReach link) v m) m := by
  simp only [send]
  rw [wps_bind]
  refine wps_mono (bufferOwned_alone pool m v) ?_
  rintro owned m ⟨rfl, valid⟩
  cases owned with
  | false => exact .refl _ v m _
  | true =>
      have valid := valid.mp rfl
      simp only
      rw [wps_bind]
      refine wps_mono (epochCurrent_alone pool m _ _) ?_
      rintro current m ⟨rfl, _⟩
      refine wps_ite (fun _ => .refl _ v m _) (fun same => ?_)
      refine wps_ite (fun _ => .refl _ v m _) (fun mine => ?_)
      rw [not_or, not_not] at same
      rw [not_not] at mine
      rw [wps_bind]
      refine wps_mono (prepare_alone v.handle link.localComponent link.remoteComponent
        link.linkId well) ?_
      rintro (status | message) a ⟨settles, epochs, sent⟩
      · have first : Settles pool (sendReach link) m a := settles.widen
          ⟨fun _ c own => ⟨by rw [own.1]; nofun, own.2⟩, fun _ => False.elim⟩
        exact ⟨first, v.keeps⟩
      · have first : Settles pool (sendReach link) m a := settles.widen
          ⟨fun _ c own => ⟨by rw [own.1]; nofun, own.2⟩, fun _ => False.elim⟩
        obtain ⟨_, _, own, epoch⟩ := sent message rfl
        have registered : m.epoch link.localComponent = link.localEpoch := by
          rw [← mine, ← same.2]
          exact valid.current
        rw [← placed.slot] at own epoch
        refine wps_mono (sendPrepared_alone placed.inside (first.well well) own
          (epoch.trans registered) (registered ▸ m.epoch_lt _)) fun result b edits => ?_
        exact ⟨first.trans edits.settles, edits.kept⟩

/-! ## Claim -/

/-- A receiver works on the transfers to it and on its ring. -/
def receiveReach (receiver : Nat) (used : Nat → Prop) : Reach :=
  ⟨fun _ c => c.state = .transfer ∧ c.nextOwnerId = receiver, used⟩

theorem claimVerdict_none {clock receiver : Nat} {c : SlotCore} {message : Message}
    (passed : claimVerdict pool clock c message receiver = none) :
    handleSlotId message.handle < pool.slotCount ∧ c.state = .transfer ∧
      c.generation = handleGeneration message.handle ∧ c.ownerId = message.sourceComponent ∧
      c.nextOwnerId = receiver ∧ c.transferSequence = message.transferSequence := by
  simp only [claimVerdict] at passed
  iterate 9 (split at passed; · cases passed)
  rename_i _ _ _ inside state generation parties sequence _
  simp only [not_or, not_not] at state generation parties sequence
  exact ⟨Nat.lt_of_not_le inside, state, generation, parties.1, parties.2, sequence⟩

theorem bufferClaim_alone (message : Message) (receiver : Nat) (used : Nat → Prop)
    (well : PoolWell pool m) :
    (bufferClaim pool message receiver).wps (Guarded pool) (fun result m' =>
      Settles pool (receiveReach receiver used) m m' ∧
      ∀ v, result.2 = some v → result.1 = .ok ∧ Fresh pool m' v ∧ v.owner = receiver) m := by
  refine wps_mono (claim_focused fun inside => well _ inside).alone ?_
  rintro result m' ⟨c, log, focus, ends⟩
  simp only [ClaimEnds] at ends
  cases verdict : claimVerdict pool m.clock (m.core (handleSlotId message.handle)) message
      receiver with
  | some status =>
      simp only [verdict] at ends
      obtain ⟨rfl, rfl, quiet⟩ := ends
      exact ⟨focus.still quiet, fun _ done => by cases done⟩
  | none =>
      simp only [verdict] at ends
      obtain ⟨inside, sent, generation, _, next, _⟩ := claimVerdict_none verdict
      rcases ends with ⟨rfl, ⟨access, opened, rfl⟩, rfl⟩ | ⟨status, rfl, _, _, empty, closed, same, quiet⟩
      · subst next
        refine ⟨focus.settles inside ⟨sent, rfl⟩ (.receive sent opened) rfl, fun v same => ?_⟩
        cases same
        refine ⟨rfl, (focus.placed inside rfl generation.symm rfl).fresh ?_, rfl⟩
        exact focus.epoch _
      · exact ⟨focus.settles inside ⟨sent, next⟩ (.free empty closed same quiet) same, fun _ done => by cases done⟩

theorem recordProtocolError_aside (used : Nat → Prop) (component : Nat) :
    StaysAside used (recordProtocolError pool component) :=
  stays_act trivial fun _ => stays_act trivial fun _ => stays_act ⟨nofun, nofun⟩ fun _ => stays_done _

/-- What a complete receive leaves: the pool lives on, and a buffer that it returns with
    OK is valid. -/
def Receives (pool : Pool) (link : Link) (m : Mem) (result : Status × Option View) (m' : Mem) :
    Prop :=
  Settles pool (receiveReach link.localComponent link.transport.Uses) m m' ∧
    ∀ v, result.2 = some v → result.1 = .ok ∧ Fresh pool m' v ∧ v.owner = link.localComponent

theorem Aside.epoch {used : Nat → Prop} {m m' : Mem} (aside : Aside used m m') (component : Nat) :
    m'.epoch component = m.epoch component := by
  rw [Mem.epoch, Mem.epoch, aside.lifecycle component]

theorem Aside.fresh {used : Nat → Prop} {m' : Mem} (aside : Aside used m m') {v : View}
    (fresh : Fresh pool m v) : Fresh pool m' v := by
  obtain ⟨well, generation, state, owner, ownerEpoch, current⟩ := fresh
  refine ⟨well, ?_⟩
  rw [Valid, aside.cores]
  exact ⟨generation, state, owner, ownerEpoch, (aside.epoch _).trans current⟩

theorem recvMessage_alone (link : Link) (message : Message) (token : ReceiveToken)
    (well : PoolWell pool m) :
    (recvMessage pool link message token).wps (Guarded pool) (fun ended m' => match ended with
      | some result => Receives pool link m result m'
      | none => Settles pool (receiveReach link.localComponent link.transport.Uses) m m') m := by
  simp only [recvMessage]
  refine wps_ite (fun _ => ?_) (fun _ => ?_)
  · rw [wps_bind]
    refine wps_mono ((recordProtocolError_aside link.transport.Uses _).runs pool m) ?_
    intro _ a first
    rw [wps_bind]
    refine wps_mono ((receiveCommit_aside link.transport token).runs pool a) ?_
    intro _ b second
    exact ⟨(first.settles fun _ uses => uses).trans (second.settles fun _ uses => uses), nofun⟩
  · rw [wps_bind]
    refine wps_mono (bufferClaim_alone message link.localComponent link.transport.Uses well) ?_
    rintro ⟨status, buffer⟩ a ⟨claimed, fresh⟩
    simp only
    rw [wps_bind]
    refine wps_mono ((receiveCommit_aside link.transport token).runs pool a) ?_
    intro committed b aside
    have settles : Settles pool (receiveReach link.localComponent link.transport.Uses) m b :=
      claimed.trans (aside.settles fun _ uses => uses)
    refine wps_ite (fun ok => wps_ite (fun _ => ⟨settles, nofun⟩) (fun _ => ⟨settles, ?_⟩))
      (fun _ => wps_ite (fun _ => settles) (fun _ => ⟨settles, ?_⟩))
    · intro v same
      obtain ⟨w, rfl, rfl⟩ := Option.map_eq_some_iff.mp same
      obtain ⟨_, valid, owner⟩ := fresh w rfl
      have here : { w with owner := link.localComponent } = w := by rw [← owner]
      rw [here]
      exact ⟨rfl, aside.fresh valid, owner⟩
    · intro v same
      obtain ⟨done, valid, owner⟩ := fresh v same
      exact ⟨done, aside.fresh valid, owner⟩

theorem recvLoop_alone (link : Link) (fuel : Nat) : ∀ m, PoolWell pool m →
    (recvLoop pool link fuel).wps (Guarded pool) (fun ended m' => match ended with
      | some result => Receives pool link m result m'
      | none => Settles pool (receiveReach link.localComponent link.transport.Uses) m m') m := by
  induction fuel with
  | zero => exact fun m _ => .refl _ _ _
  | succ fuel ih =>
      intro m well
      simp only [recvLoop]
      rw [wps_bind]
      refine wps_mono ((receiveBegin_aside link.transport link.transport.Uses fuel).runs pool m) ?_
      intro begun a aside
      have first : Settles pool (receiveReach link.localComponent link.transport.Uses) m a :=
        aside.settles fun _ uses => uses
      cases begun with
      | none => exact first
      | some begun =>
          cases begun with
          | error status => exact ⟨first, fun _ done => by cases done⟩
          | ok received =>
              obtain ⟨message, token⟩ := received
              simp only
              rw [wps_bind]
              refine wps_mono (recvMessage_alone link message token (first.well well)) ?_
              intro ended b more
              cases ended with
              | some result => exact ⟨first.trans more.1, more.2⟩
              | none =>
                  have second := first.trans more
                  refine wps_mono (ih b (second.well well)) fun final d rest => ?_
                  cases final with
                  | some result => exact ⟨second.trans rest.1, rest.2⟩
                  | none => exact second.trans rest

theorem recv_alone (link : Link) (fuel : Nat) (well : PoolWell pool m) :
    (recv pool link fuel).wps (Guarded pool) (fun ended m' => match ended with
      | some result => Receives pool link m result m'
      | none => Settles pool (receiveReach link.localComponent link.transport.Uses) m m') m := by
  simp only [recv]
  rw [wps_bind]
  refine wps_mono (epochCurrent_alone pool m _ _) ?_
  rintro current m ⟨rfl, _⟩
  exact wps_ite (fun _ => ⟨.refl _ _ _, nofun⟩) (fun _ => recvLoop_alone link fuel m well)

/-! ## Restart -/

/-- A restart works on the slots of its component. -/
def componentReach (component : Nat) (used : Nat → Prop) : Reach :=
  ⟨fun _ c => c.state ≠ .free ∧ c.ownerId = component, used⟩

/-- What `zipc_component_restart_begin` puts into a restart object. -/
structure RestartWell (restart : Restart) : Prop where
  valid : componentIdValid restart.component = true
  dead : restart.deadEpoch ≠ 0
  epoch : restart.epoch = restart.deadEpoch + 1
  small : restart.epoch < u32

/-- The restart is under way. -/
def Restarting (m : Mem) (restart : Restart) : Prop :=
  (m.components restart.component).lifecycle =
    componentLifecycleMake restart.epoch .recovering

theorem Restarting.retired {restart : Restart} (active : Restarting m restart)
    (sound : RestartWell restart) : m.retired restart.component restart.deadEpoch := by
  refine ⟨sound.dead, ?_⟩
  rw [active, componentLifecycleEpoch_make _ sound.small, sound.epoch]
  exact Nat.lt_succ_self _

theorem Restarting.epoch {restart : Restart} (active : Restarting m restart)
    (sound : RestartWell restart) : m.epoch restart.component = restart.epoch := by
  rw [Mem.epoch, if_pos sound.valid, epochOf, active, componentLifecycleState_make,
    if_neg (by decide), componentLifecycleEpoch_make _ sound.small]

theorem SlotCore.LeftByRollback.owner {c : SlotCore} {restart : Restart}
    (left : c.LeftByRollback pool) (holds : c.Holds pool) (own : restart.owns c.claimToken = true) :
    c.ownerId = restart.component ∧ c.ownerEpoch = restart.deadEpoch := by
  have small : c.ownerId < 65536 := by
    have valid := componentIdValid_iff.mp holds.owner
    omega
  rw [Restart.owns, left.token, Bool.and_eq_true, decide_eq_true_eq, decide_eq_true_eq,
    claimTokenComponent_make _ small, claimTokenEpoch_make _ small left.epoch] at own
  exact own

/-- How a complete round of the adoption scan ends. -/
def Rounds (pool : Pool) (restart : Restart) (m : Mem) (round : RestartRound) (m' : Mem) : Prop :=
  (∀ k, (m'.components k).lifecycle = (m.components k).lifecycle) ∧
    match round with
    | .adopt v => Lives pool (componentReach restart.component fun _ => False) m m' ∧
        Placed pool m' v ∧ v.owner = restart.component ∧ v.ownerEpoch = restart.epoch
    | _ => Settles pool (componentReach restart.component fun _ => False) m m'

section Restarts

variable {restart : Restart} {i : Nat} {m' : Mem} {round : RestartRound} {c : SlotCore}
  {log : List TraceRecord}

theorem AdoptEnds.rounds (sound : RestartWell restart) (active : Restarting m restart)
    (inside : i < pool.slotCount) (owned : (m.core i).state = .owned)
    (well : SlotWell pool (m.core i)) (ends : AdoptEnds anyEnv pool m i restart (m.core i) round c log)
    (focus : Focus m i c log m') : Rounds pool restart m round m' := by
  have small : i < u32 := lt_trans inside pool.slotCount_lt
  have busy : (m.core i).state ≠ .free := by rw [owned]; nofun
  refine ⟨focus.lifecycle, ?_⟩
  obtain ⟨quiet, ⟨rfl, rfl, _⟩ | ⟨own, dead, ends⟩⟩ := ends
  · exact focus.still quiet
  rcases ends with ⟨status, rfl, _, _, rfl⟩ | ⟨access, outside, _⟩ | ⟨access, _, opened, rfl, rfl⟩
  · exact focus.still quiet
  · exact absurd well.region outside
  · have gone : m.retired (m.core i).ownerId (m.core i).ownerEpoch := by
      rw [own, dead]
      exact active.retired sound
    have step : Advances pool (componentReach restart.component fun _ => False) m m' :=
      focus.advances inside ⟨busy, own⟩ (.adopt owned gone opened quiet)
    refine ⟨step.lives, ?_, own, rfl⟩
    exact focus.placed inside (handleSlotId_make small)
      (handleGeneration_make small (nextGeneration_lt _)) owned

/-- The same for a slot that an interrupted rollback left. -/
theorem AdoptEnds.retakes (inside : i < pool.slotCount) (claiming : (m.core i).state = .claiming)
    (well : SlotWell pool (m.core i)) (gone : m.retired (m.core i).ownerId (m.core i).ownerEpoch)
    (ours : (m.core i).ownerId = restart.component)
    (ends : AdoptEnds anyEnv pool m i restart (m.core i).repaired round c log)
    (focus : Focus m i c log m') : Rounds pool restart m round m' := by
  have small : i < u32 := lt_trans inside pool.slotCount_lt
  have busy : (m.core i).state ≠ .free := by rw [claiming]; nofun
  refine ⟨focus.lifecycle, ?_⟩
  obtain ⟨quiet, ⟨rfl, rfl, _⟩ | ⟨own, dead, ends⟩⟩ := ends
  · exact focus.settles inside ⟨busy, ours⟩ (.repair claiming gone quiet) rfl
  rcases ends with ⟨status, rfl, _, _, rfl⟩ | ⟨access, outside, _⟩ | ⟨access, _, opened, rfl, rfl⟩
  · exact focus.settles inside ⟨busy, ours⟩ (.repair claiming gone quiet) rfl
  · exact absurd well.region outside
  · have step : Advances pool (componentReach restart.component fun _ => False) m m' :=
      focus.advances inside ⟨busy, ours⟩ (.retake claiming gone opened quiet)
    refine ⟨step.lives, ?_, own, rfl⟩
    exact focus.placed inside (handleSlotId_make small)
      (handleGeneration_make small (nextGeneration_lt _)) rfl

theorem restartSlot_alone (sound : RestartWell restart) (active : Restarting m restart)
    (inside : i < pool.slotCount) (well : PoolWell pool m) :
    (restartSlot pool restart i).wps (Guarded pool) (Rounds pool restart m) m := by
  refine wps_mono (restartSlot_focused (well i inside).settled).alone ?_
  rintro round m' ⟨c, log, focus, ends⟩
  have slot := well i inside
  cases state : (m.core i).state with
  | free | transfer | error =>
      simp only [RestartEnds, state] at ends
      obtain ⟨rfl, rfl, rfl⟩ := ends
      exact ⟨focus.lifecycle, focus.still Quiet.nil⟩
  | owned =>
      simp only [RestartEnds, state] at ends
      exact ends.rounds sound active inside state slot focus
  | claiming =>
      simp only [RestartEnds, state] at ends
      have kept := slot.2.2
      simp only [state] at kept
      obtain ⟨left, holds, _⟩ := kept
      rcases ends with ⟨rfl, rfl, rfl, _⟩ | ⟨own, ends⟩
      · exact ⟨focus.lifecycle, focus.still Quiet.nil⟩
      · obtain ⟨owner, epoch⟩ := left.owner holds own
        have gone : m.retired (m.core i).ownerId (m.core i).ownerEpoch := by
          rw [owner, epoch]
          exact active.retired sound
        exact ends.retakes inside state slot gone owner focus

/-- What a complete `zipc_component_restart_next` leaves. -/
structure Adopts (pool : Pool) (restart : Restart) (m : Mem)
    (result : Status × Restart × Option View) (m' : Mem) : Prop where
  lives : Lives pool (componentReach restart.component fun _ => False) m m'
  fresh : ∀ v, result.2.2 = some v →
    result.1 = .ok ∧ Fresh pool m' v ∧ v.owner = restart.component
  kept : ∃ cursor scanComplete, result.2.1 = { restart with cursor, scanComplete }

theorem restartScan_alone (left : Nat) : ∀ (restart : Restart) (m : Mem), RestartWell restart →
    Restarting m restart → left ≤ pool.slotCount - restart.cursor → PoolWell pool m →
      (restartScan pool left restart).wps (Guarded pool) (Adopts pool restart m) m := by
  induction left with
  | zero =>
      intro restart m _ _ _ _
      exact ⟨(Settles.refl _ _ _).lives, nofun, _, _, rfl⟩
  | succ left ih =>
      intro restart m sound active below well
      simp only [restartScan]
      rw [wps_bind]
      have inside : restart.cursor < pool.slotCount := by omega
      refine wps_mono (restartSlot_alone sound active inside well) ?_
      rintro round a ⟨lifecycle, ends⟩
      have later : Restarting a restart := (lifecycle _).trans active
      cases round with
      | fail status => exact ⟨ends.lives, nofun, _, _, rfl⟩
      | adopt v =>
          obtain ⟨lives, placed, owner, epoch⟩ := ends
          refine ⟨lives, fun w same => ?_, _, _, rfl⟩
          cases same
          refine ⟨rfl, placed.fresh ?_, owner⟩
          rw [owner, epoch]
          exact later.epoch sound
      | skip | owned =>
          have next : RestartWell { restart with cursor := restart.cursor + 1 } :=
            ⟨sound.valid, sound.dead, sound.epoch, sound.small⟩
          refine wps_mono (ih { restart with cursor := restart.cursor + 1 } a next later
            (by simp only; omega) (ends.well well)) fun result b adopts => ?_
          exact ⟨ends.then adopts.lives, adopts.fresh, adopts.kept⟩

theorem componentRestartNext_alone (sound : RestartWell restart) (well : PoolWell pool m) :
    (componentRestartNext pool restart).wps (Guarded pool) (Adopts pool restart m) m := by
  simp only [componentRestartNext]
  rw [wps_bind]
  refine wps_mono (epochRecovering_alone pool m _ _) ?_
  rintro recovering m ⟨rfl, active⟩
  refine wps_ite (fun _ => ⟨(Settles.refl _ _ _).lives, nofun, _, _, rfl⟩) (fun going => ?_)
  rw [not_or, Bool.not_eq_false] at going
  exact restartScan_alone _ restart m sound (active going.1).2.2 le_rfl well

/-! ## Administrative recovery -/

theorem recoverOwnerScan_alone (component deadEpoch minimumAgeNs time left : Nat) :
    ∀ (i : Nat) (m : Mem) (result : RecoveryResult), left + i ≤ pool.slotCount → PoolWell pool m →
      (recoverOwnerScan pool component deadEpoch minimumAgeNs time left i result).wps (Guarded pool)
        (fun _ m' => Settles pool (componentReach component fun _ => False) m m') m := by
  induction left with
  | zero => exact fun _ m _ _ _ => .refl _ _ _
  | succ left ih =>
      intro i m result below well
      have inside : i < pool.slotCount := by omega
      have slot := well i inside
      have onward {m' : Mem} (settles : Settles pool (componentReach component fun _ => False) m m')
          (result : RecoveryResult) :
          (recoverOwnerScan pool component deadEpoch minimumAgeNs time left (i + 1) result).wps
            (Guarded pool) (fun _ m'' => Settles pool (componentReach component fun _ => False) m m'')
            m' :=
        wps_mono (ih (i + 1) m' result (by omega) (settles.well well)) fun _ _ rest =>
          settles.trans rest
      suffices run : FocusedOn anyEnv pool m i
          (recoverOwnerScan pool component deadEpoch minimumAgeNs time (left + 1) i result)
          (fun _ m' => Settles pool (componentReach component fun _ => False) m m') (m.core i) [] from
        (run m (.refl m i)).all fun _ => trivial
      simp only [recoverOwnerScan, lift_bind]
      refine focused_loadState ?_
      split
      · exact fun m' focus => (onward (focus.still Quiet.nil) result).within
      rename_i live
      have busy : (m.core i).state ≠ .free := by
        intro free
        simp [free] at live
      refine focused_casState (by decide) (fun _ => ?_) (fun lost => absurd rfl lost)
      rw [if_neg (by decide)]
      have hidden : (m.core i).state = .transfer → (m.core i).Closed pool := fun sent =>
        slot.2.1 (by rw [sent]; nofun)
      apply focused_bind
      refine (recoverProbed_focused id rfl hidden busy).mono ?_
      rintro probed c log ⟨quiet, ⟨rfl, ⟨newer, rfl⟩, _⟩ | ⟨status, rfl, _, _, rfl⟩ | freed⟩
      · exact fun m' focus => (onward (focus.still quiet) _).within
      · exact fun m' focus => focus.still quiet
      · obtain ⟨rfl, own, _, closed, access, rfl⟩ := freed
        have token : (m.core i).claimToken = 0 := by
          obtain ⟨_, _, kept⟩ := slot
          cases state : (m.core i).state <;> simp_all
        intro m' focus
        refine (onward (focus.settles inside ⟨busy, own⟩ (.free ?_ closed rfl quiet) rfl) _).within
        exact ⟨rfl, token, rfl, rfl, rfl⟩

theorem poolRecoverOwner_alone (component deadEpoch minimumAgeNs : Nat) (well : PoolWell pool m) :
    (poolRecoverOwner pool component deadEpoch minimumAgeNs).wps (Guarded pool)
      (fun _ m' => Settles pool (componentReach component fun _ => False) m m') m := by
  simp only [poolRecoverOwner, lift_bind]
  refine wps_ite (fun _ => .refl _ _ _) (fun _ => ⟨trivial, fun _ => ?_⟩)
  refine wps_ite (fun _ => .refl _ _ _) (fun _ => ⟨trivial, fun _ => ?_⟩)
  exact recoverOwnerScan_alone _ _ _ _ _ 0 m _ le_rfl well

/-- The sweep of abandoned claims works on every claim. -/
def claimingReach : Reach := ⟨fun _ c => c.state = .claiming, fun _ => False⟩

theorem recoverClaimingScan_alone (left : Nat) :
    ∀ (i : Nat) (m : Mem) (recovered : Nat), left + i ≤ pool.slotCount → PoolWell pool m →
      (recoverClaimingScan pool left i recovered).wps (Guarded pool)
        (fun _ m' => Settles pool claimingReach m m') m := by
  induction left with
  | zero => exact fun _ m _ _ _ => .refl _ _ _
  | succ left ih =>
      intro i m recovered below well
      have inside : i < pool.slotCount := by omega
      have onward {m' : Mem} (settles : Settles pool claimingReach m m') (recovered : Nat) :
          (recoverClaimingScan pool left (i + 1) recovered).wps (Guarded pool)
            (fun _ m'' => Settles pool claimingReach m m'') m' :=
        wps_mono (ih (i + 1) m' recovered (by omega) (settles.well well)) fun _ _ rest =>
          settles.trans rest
      suffices run : FocusedOn anyEnv pool m i (recoverClaimingScan pool (left + 1) i recovered)
          (fun _ m' => Settles pool claimingReach m m') (m.core i) [] from
        (run m (.refl m i)).all fun _ => trivial
      simp only [recoverClaimingScan, lift_bind]
      refine focused_loadState ?_
      split
      · exact fun m' focus => (onward (focus.still Quiet.nil) recovered).within
      rename_i claiming
      rw [not_not] at claiming
      have back : { m.core i with state := .claiming } = m.core i := by rw [← claiming]
      refine focused_casState (by decide) (fun _ => ?_) (fun lost => absurd claiming lost)
      rw [if_neg (by decide)]
      refine focused_protectSlot (fun status failed _ => ?_) (fun access closed => ?_)
      · rw [if_pos failed]
        refine focused_storeState (by simp) fun m' focus => ?_
        simp only [back] at focus
        exact focus.still Quiet.nil
      rw [if_neg (not_not_intro rfl)]
      refine focused_writeAll ?_
      simp only [SlotCore.applyAll, recoverClaimingFields, List.foldl_cons, List.foldl_nil,
        SlotWrite.applyCore]
      refine focused_storeToken (focused_storeState (fun _ => closed) (focused_count ?_))
      refine focused_now (focused_hook fun m' focus => ?_)
      refine (onward (focus.settles inside claiming (.free ?_ closed rfl ?_) rfl) _).within
      · exact ⟨rfl, rfl, rfl, rfl, rfl⟩
      · exact Quiet.nil.snoc ⟨by simp, by simp⟩

theorem poolRecoverClaiming_alone (well : PoolWell pool m) :
    (poolRecoverClaiming pool).wps (Guarded pool)
      (fun _ m' => Settles pool claimingReach m m') m :=
  recoverClaimingScan_alone _ 0 m 0 le_rfl well

/-! ## Reconciliation -/

/-- The rings that a link works on. -/
def Link.Rings (link : Link) (r : Nat) : Prop := link.transport.Uses r ∨ link.recoveryRing = some r

theorem reconcileTransfer_alone {link : Link} (inside : i < pool.slotCount) (well : PoolWell pool m)
    (sent : (m.core i).state = .transfer) :
    (reconcileTransfer pool link restart i).wps (Guarded pool) (fun _ m' =>
      Settles pool (componentReach restart.component link.Rings) m m' ∧
        ∀ k, (m'.components k).lifecycle = (m.components k).lifecycle) m := by
  have slot := well i inside
  have closed : (m.core i).Closed pool := slot.2.1 (by rw [sent]; simp)
  have token : (m.core i).claimToken = 0 := by
    simp only [SlotWell, sent] at slot
    exact slot.2.2.1
  simp only [reconcileTransfer]
  rw [wps_bind]
  refine wps_mono (reconcileProbe_focused sent token closed).alone ?_
  rintro probed a ⟨c, log, focus, rfl, rfl, _⟩
  have first : Settles pool (componentReach restart.component link.Rings) m a :=
    focus.still Quiet.nil
  cases probed with
  | none => exact ⟨first, focus.lifecycle⟩
  | some slot =>
      obtain ⟨generation, sequence⟩ := slot
      simp only
      rw [wps_bind]
      refine wps_mono ((transportSend_aside link.transport _).runs pool a) fun status b aside => ?_
      have ended : Settles pool (componentReach restart.component link.Rings) m b ∧
          ∀ k, (b.components k).lifecycle = (m.components k).lifecycle :=
        ⟨first.trans (aside.settles fun _ uses => .inl uses),
          fun k => (aside.lifecycle k).trans (focus.lifecycle k)⟩
      exact wps_ite (fun _ => ended) (fun _ => ended)

theorem reconcileSlot_alone {link : Link} (sound : RestartWell restart)
    (active : Restarting m restart) (inside : i < pool.slotCount) (well : PoolWell pool m) :
    (reconcileSlot pool link restart i).wps (Guarded pool) (fun _ m' =>
      Settles pool (componentReach restart.component link.Rings) m m' ∧
        ∀ k, (m'.components k).lifecycle = (m.components k).lifecycle) m := by
  have idle : Settles pool (componentReach restart.component link.Rings) m m ∧
      ∀ k, (m.components k).lifecycle = (m.components k).lifecycle := ⟨.refl _ _ _, fun _ => rfl⟩
  have slot := well i inside
  simp only [reconcileSlot, lift_bind]
  refine ⟨trivial, fun _ => ⟨trivial, fun _ => ?_⟩⟩
  refine wps_ite (fun abandoned => ?_) (fun _ => wps_ite (fun claiming => ?_) (fun _ => ?_))
  · -- a transfer between calls carries no token of a receive
    have sent : (m.core i).state = .transfer := abandoned.2.1
    have receive : claimTokenKind (m.core i).claimToken = ClaimKind.receive.toNat :=
      abandoned.2.2.1
    simp only [SlotWell, sent] at slot
    rw [slot.2.2.1] at receive
    exact absurd receive (by decide)
  · have claiming : (m.core i).state = .claiming := claiming
    have kept := slot.2.2
    simp only [claiming] at kept
    obtain ⟨left, holds, _⟩ := kept
    refine wps_mono (reconcileClaiming_focused claiming left).alone ?_
    rintro result m' ⟨c, log, focus, _, rfl, rfl | ⟨own, rfl⟩⟩
    · exact ⟨focus.still Quiet.nil, focus.lifecycle⟩
    · obtain ⟨owner, epoch⟩ := left.owner holds own
      have gone : m.retired (m.core i).ownerId (m.core i).ownerEpoch := by
        rw [owner, epoch]
        exact active.retired sound
      have busy : (m.core i).state ≠ .free := by rw [claiming]; simp
      exact ⟨focus.settles inside ⟨busy, owner⟩ (.repair claiming gone Quiet.nil) rfl,
        focus.lifecycle⟩
  · refine wps_ite (fun _ => idle) (fun sent => ?_)
    rw [not_or, not_not, not_not] at sent
    exact reconcileTransfer_alone inside well sent.2

theorem reconcileScan_alone {link : Link} (sound : RestartWell restart) (left : Nat) :
    ∀ (i recovered : Nat) (m : Mem), Restarting m restart → left + i ≤ pool.slotCount →
      PoolWell pool m → (reconcileScan pool link restart left i recovered).wps (Guarded pool)
        (fun _ m' => Settles pool (componentReach restart.component link.Rings) m m') m := by
  induction left with
  | zero => exact fun _ _ m _ _ _ => .refl _ _ _
  | succ left ih =>
      intro i recovered m active below well
      simp only [reconcileScan]
      rw [wps_bind]
      refine wps_mono (reconcileSlot_alone sound active (by omega) well) ?_
      rintro (status | again) a ⟨settles, lifecycle⟩
      · exact settles
      · refine wps_mono (ih (i + 1) _ a ((lifecycle _).trans active) (by omega)
          (settles.well well)) fun _ _ rest => ?_
        exact settles.trans rest

theorem linkReconcile_alone {link : Link} (fuel : Nat) (sound : RestartWell restart)
    (well : PoolWell pool m) :
    (linkReconcile pool link restart fuel).wps (Guarded pool)
      (fun _ m' => Settles pool (componentReach restart.component link.Rings) m m') m := by
  simp only [linkReconcile]
  rw [wps_bind]
  have refused : (reconcileRefused link restart).wps (Guarded pool) (fun refused m' => m' = m ∧
      (refused = none → Restarting m restart)) m := by
    simp only [reconcileRefused]
    refine wps_ite (fun _ => ⟨rfl, nofun⟩) (fun _ => ?_)
    rw [wps_bind]
    refine wps_mono (epochRecovering_alone pool m _ _) ?_
    rintro recovering m ⟨rfl, active⟩
    refine ⟨rfl, fun passed => ?_⟩
    split at passed
    · cases passed
    · rename_i going
      rw [Bool.not_eq_false] at going
      exact (active going).2.2
  refine wps_mono refused ?_
  rintro (_ | status) m ⟨rfl, active⟩
  · simp only
    rw [wps_bind]
    refine wps_mono (reconcileScan_alone sound _ 0 0 m (active rfl) le_rfl well) ?_
    rintro ⟨scanned, recovered⟩ a settles
    match scanned with
    | .error status => exact settles
    | .ok () =>
        simp only
        split
        · rename_i ring _ recovery
          rw [wps_bind]
          have uses : link.Rings ring := .inr recovery
          refine wps_mono ((reconcileDrain_aside uses pool fuel).runs pool a) fun _ b aside => ?_
          exact settles.trans (aside.settles fun _ uses => uses)
        · exact settles
  · exact .refl _ _ _

end Restarts

/-! ## Lifecycles -/

/-- Slots, records and rings are as before, and no epoch has decreased. -/
structure Renews (m m' : Mem) : Prop where
  cores : ∀ j, m'.core j = m.core j
  hooked : m'.hooked = m.hooked
  epochs : ∀ k, componentLifecycleEpoch (m.components k).lifecycle ≤
    componentLifecycleEpoch (m'.components k).lifecycle
  rings : m'.rings = m.rings

theorem Renews.refl (m : Mem) : Renews m m := ⟨fun _ => rfl, rfl, fun _ => le_rfl, rfl⟩

theorem Renews.settles {m' : Mem} (renews : Renews m m') : Settles pool noReach m m' := by
  have hooked : m'.hooked = m.hooked ++ [] := by rw [renews.hooked, List.append_nil]
  refine Relation.ReflTransGen.single
    ⟨⟨.still renews.cores hooked Quiet.nil, renews.epochs, ?_⟩, ?_⟩
  · intro r _
    rw [renews.rings]
  · intro j
    rw [renews.cores]

theorem Renews.act {l : LifeCall} {mode : LifeMode} {m' : Mem} (renews : Renews m m') {β : Type}
    {action : Act β} (permits : lifePermits l mode action) (e : Env) :
    Renews m (action.exec e m').2 := by
  cases action with
  | loadLifecycle | now => exact renews
  | storeHeartbeat component v =>
      refine ⟨renews.cores, renews.hooked, fun k => (renews.epochs k).trans (le_of_eq ?_), renews.rings⟩
      by_cases same : k = component
      · subst same
        simp [Act.exec, Mem.setComponent]
      · simp [Act.exec, Mem.setComponent, same]
  | casLifecycle weak component expected desired =>
      simp only [Act.exec]
      split
      · rename_i found
        refine ⟨renews.cores, renews.hooked, fun k => (renews.epochs k).trans ?_, renews.rings⟩
        by_cases same : k = component
        · subst same
          have grown := permits.2.2.epoch.1
          simp only [Mem.setComponent, Function.update_self, found.1]
          omega
        · simp [Mem.setComponent, same]
      · exact renews
  | _ => cases permits

/-- A registration, an unregistration or an end of a restart, run alone. -/
theorem lifeCall_alone (l : LifeCall) (pool : Pool) (m : Mem) :
    l.program.wps (Guarded pool) (fun result m' => Renews m m' ∧ ∃ mode, lifeEnds l mode result) m := by
  refine Follows.safe (R := Renews) (lifeSystem_disciplined l) ?_ (.refl m)
  intro s s' mode β action renews permits
  refine ⟨?_, fun e => renews.act permits e⟩
  cases action with
  | storeState | casState => cases permits
  | _ => trivial

theorem restartBeginLoop_sound (component deadEpoch : Nat)
    (valid : componentIdValid component = true) (dead : deadEpoch ≠ 0)
    (below : deadEpoch ≠ u32 - 1) (fuel : Nat) : ∀ (current : Nat) (m : Mem),
      (restartBeginLoop component deadEpoch fuel current).wps (Guarded pool)
        (fun result _ => ∀ restart, result = some (.ok restart) → RestartWell restart) m := by
  induction fuel with
  | zero => exact fun _ _ _ done => by cases done
  | succ fuel ih =>
      intro current m
      simp only [restartBeginLoop]
      refine wps_ite (fun _ _ done => by cases done) (fun dies => ⟨trivial, fun e => ?_⟩)
      simp only [not_or, not_not] at dies
      have small : deadEpoch < u32 := dies.1 ▸ Nat.mod_lt _ (by decide)
      refine wps_ite (fun _ => ⟨trivial, fun _ => ⟨trivial, fun _ => ?_⟩⟩) (fun _ => ih _ _)
      intro restart same
      cases same
      exact ⟨valid, dead, rfl, by simp only; omega⟩

/-- `zipc_component_restart_begin` makes sound restart objects. -/
theorem componentRestartBegin_sound (fuel component deadEpoch : Nat) :
    (componentRestartBegin fuel component deadEpoch).wps (Guarded pool)
      (fun result _ => ∀ restart, result = some (.ok restart) → RestartWell restart) m := by
  simp only [componentRestartBegin]
  refine wps_ite (fun _ _ done => by cases done) (fun legal => wps_ite (fun _ _ done => by cases done) (fun below => ?_))
  rw [not_or, Bool.not_eq_false] at legal
  exact ⟨trivial, fun _ => restartBeginLoop_sound component deadEpoch legal.1 legal.2 below _ _ _⟩

end Calls

end Zipc
