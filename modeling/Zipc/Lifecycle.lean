import Zipc.Slot
import Mathlib.Logic.Relation

/-! # The life of a slot

What a slot is for, one complete step at a time: it is allocated, its window and limits
change, it is sent, received or taken back, released, repaired, adopted or recovered.
`SlotWell` is the representation invariant of a slot between calls; every step of a life
keeps it. That the calls of the API perform only such steps is proved with the calls.
-/

namespace Zipc

open Atomic

/-- A slot without its bookkeeping (no counts, no flags and no trace), with its payload
    and the permission of this process for it. -/
structure SlotCore where
  state : SlotState
  generation : Nat
  ownerId : Nat
  nextOwnerId : Nat
  ownerEpoch : Nat
  hopCount : Nat
  hopLimit : Nat
  visited : VisitedSet
  identity : Identity
  region : Region
  transferSequence : Nat
  acquiredNs : Nat
  deadlineNs : Nat
  claimToken : Nat
  claimPreviousSequence : Nat
  claimPreviousRegion : Region
  claimPreviousOwner : Nat
  claimPreviousOwnerEpoch : Nat
  transferLinkId : Nat
  transferSourceId : Nat
  transferSourceEpoch : Nat
  transferHopCount : Nat
  transferAcquiredNs : Nat
  transferVisited : VisitedSet
  access : Bool
  payload : Nat → Nat
  deriving Inhabited

def SlotControl.core (s : SlotControl) (access : Bool) (payload : Nat → Nat) : SlotCore where
  state := s.state
  generation := s.generation
  ownerId := s.ownerId
  nextOwnerId := s.nextOwnerId
  ownerEpoch := s.ownerEpoch
  hopCount := s.hopCount
  hopLimit := s.hopLimit
  visited := s.visited
  identity := s.identity
  region := s.region
  transferSequence := s.transferSequence
  acquiredNs := s.acquiredNs
  deadlineNs := s.deadlineNs
  claimToken := s.claimToken
  claimPreviousSequence := s.claimPreviousSequence
  claimPreviousRegion := s.claimPreviousRegion
  claimPreviousOwner := s.claimPreviousOwner
  claimPreviousOwnerEpoch := s.claimPreviousOwnerEpoch
  transferLinkId := s.transferLinkId
  transferSourceId := s.transferSourceId
  transferSourceEpoch := s.transferSourceEpoch
  transferHopCount := s.transferHopCount
  transferAcquiredNs := s.transferAcquiredNs
  transferVisited := s.transferVisited
  access
  payload

/-- The core of slot `i`. -/
def Mem.core (m : Mem) (i : Nat) : SlotCore := (m.slots i).core (m.access i) (m.payload i)

/-- What a plain store does to the core. -/
def SlotWrite.applyCore (c : SlotCore) : SlotWrite → SlotCore
  | .generation v => { c with generation := v }
  | .ownerId v => { c with ownerId := v }
  | .nextOwnerId v => { c with nextOwnerId := v }
  | .ownerEpoch v => { c with ownerEpoch := v }
  | .hopCount v => { c with hopCount := v }
  | .hopLimit v => { c with hopLimit := v }
  | .visited v => { c with visited := v }
  | .identityId v => { c with identity := { c.identity with id := v } }
  | .identityParentId v => { c with identity := { c.identity with parentId := v } }
  | .regionOffset v => { c with region := { c.region with offset := v } }
  | .regionLength v => { c with region := { c.region with length := v } }
  | .transferSequence v => { c with transferSequence := v }
  | .acquiredNs v => { c with acquiredNs := v }
  | .deadlineNs v => { c with deadlineNs := v }
  | .claimPreviousSequence v => { c with claimPreviousSequence := v }
  | .claimPreviousRegionOffset v =>
      { c with claimPreviousRegion := { c.claimPreviousRegion with offset := v } }
  | .claimPreviousRegionLength v =>
      { c with claimPreviousRegion := { c.claimPreviousRegion with length := v } }
  | .claimPreviousOwner v => { c with claimPreviousOwner := v }
  | .claimPreviousOwnerEpoch v => { c with claimPreviousOwnerEpoch := v }
  | .transferLinkId v => { c with transferLinkId := v }
  | .transferSourceId v => { c with transferSourceId := v }
  | .transferSourceEpoch v => { c with transferSourceEpoch := v }
  | .transferHopCount v => { c with transferHopCount := v }
  | .transferAcquiredNs v => { c with transferAcquiredNs := v }
  | .transferVisited v => { c with transferVisited := v }
  | .payloadType _ | .flags _ | .errorFlags _ | .traceCount _ | .recoveryCount _
  | .traceEntry _ _ | .traceClear => c

theorem SlotWrite.core_apply (w : SlotWrite) (s : SlotControl) (access : Bool)
    (payload : Nat → Nat) :
    (w.apply s).core access payload = w.applyCore (s.core access payload) := by
  cases w <;> rfl

/-- Stores in order. -/
def SlotCore.applyAll (c : SlotCore) (ws : List SlotWrite) : SlotCore :=
  ws.foldl SlotWrite.applyCore c

/-! ## The invariant -/

def Region.Within (r : Region) (capacity : Nat) : Prop :=
  r.offset ≤ capacity ∧ r.length ≤ capacity - r.offset

/-- A slot that holds a buffer. -/
structure SlotCore.Holds (pool : Pool) (c : SlotCore) : Prop where
  owner : componentIdValid c.ownerId = true
  generation : c.generation ≠ 0
  identity : bufferIdValid c.identity.id = true
  visited : c.visited.test c.ownerId = true
  region : c.region.Within pool.slotCapacity

/-- The transfer fields repeat the sender's metadata. -/
structure SlotCore.Sends (c : SlotCore) : Prop where
  next : componentIdValid c.nextOwnerId = true
  source : c.transferSourceId = c.ownerId
  sourceEpoch : c.transferSourceEpoch = c.ownerEpoch
  hopCount : c.transferHopCount = c.hopCount
  acquired : c.transferAcquiredNs = c.acquiredNs
  visited : c.transferVisited = c.visited
  hops : c.hopLimit = hopLimitUnlimited ∨ c.hopCount < c.hopLimit

/-- A claim that a rollback left behind when it could not enable the payload again. -/
structure SlotCore.LeftByRollback (pool : Pool) (c : SlotCore) : Prop where
  strict : pool.strict = true
  token : c.claimToken = claimTokenMake .rollback c.ownerId c.ownerEpoch
  epoch : c.ownerEpoch < u32
  sequence : c.claimPreviousSequence = c.transferSequence

/-- In a strict pool the payload is not accessible. -/
def SlotCore.Closed (pool : Pool) (c : SlotCore) : Prop := pool.strict = true → c.access = false

/-- The representation invariant of a slot between calls. -/
def SlotWell (pool : Pool) (c : SlotCore) : Prop :=
  c.generation < u32 ∧ (c.state ≠ .owned → c.Closed pool) ∧
  match c.state with
  | .free => c.claimToken = 0 ∧ c.ownerId = invalidComponentId ∧
      c.nextOwnerId = invalidComponentId ∧ c.region = ⟨0, 0⟩
  | .owned => c.claimToken = 0 ∧ c.Holds pool ∧ c.nextOwnerId = invalidComponentId
  | .transfer => c.claimToken = 0 ∧ c.Holds pool ∧ c.Sends
  | .claiming => c.LeftByRollback pool ∧ c.Holds pool ∧ c.nextOwnerId = invalidComponentId
  | .error => False

/-! ## The steps -/

/-- No record of a send or a receive. -/
def Quiet (log : List TraceRecord) : Prop :=
  ∀ r, r ∈ log → r.event ≠ .send ∧ r.event ≠ .receive

/-- The record that the trace hook gets of a slot. -/
def SlotCore.record (pool : Pool) (i : Nat) (c : SlotCore) (component : Nat) (event : TraceEvent)
    (timestampNs : Nat) : TraceRecord where
  timestampNs
  bufferId := c.identity.id
  parentId := c.identity.parentId
  handle := handleMake i c.generation
  poolId := pool.poolId
  transferSequence := c.transferSequence
  componentId := component
  event

@[simp] theorem SlotCore.record_event (pool : Pool) (i : Nat) (c : SlotCore) (component : Nat)
    (event : TraceEvent) (timestampNs : Nat) :
    (c.record pool i component event timestampNs).event = event := rfl

namespace SlotCore

/-- Sent to `next`. -/
def prepared (c : SlotCore) (next linkId : Nat) : SlotCore :=
  { c with
    state := .transfer
    claimToken := 0
    claimPreviousSequence := c.transferSequence
    nextOwnerId := next
    transferLinkId := linkId
    transferSourceId := c.ownerId
    transferSourceEpoch := c.ownerEpoch
    transferHopCount := c.hopCount
    transferAcquiredNs := c.acquiredNs
    transferVisited := c.visited
    transferSequence := (c.transferSequence + 1) % u32 }

/-- Received by the next owner. -/
def received (c : SlotCore) (epoch time : Nat) : SlotCore :=
  { c with
    state := .owned
    claimToken := 0
    ownerId := c.nextOwnerId
    nextOwnerId := invalidComponentId
    ownerEpoch := epoch
    hopCount := (c.transferHopCount + 1) % u32
    visited := c.visited.add c.nextOwnerId
    acquiredNs := time }

/-- Taken back by the sender. -/
def rolledBack (c : SlotCore) : SlotCore :=
  { c with
    state := .owned
    claimToken := 0
    claimPreviousSequence := sub32 c.transferSequence 1
    nextOwnerId := invalidComponentId
    transferSequence := sub32 c.transferSequence 1 }

/-- Owned again after an interrupted rollback. -/
def repaired (c : SlotCore) : SlotCore :=
  { c with
    state := .owned
    claimToken := 0
    nextOwnerId := invalidComponentId
    transferSequence := c.claimPreviousSequence }

/-- Taken over by the next runtime of its owner. -/
def adopted (c : SlotCore) (epoch time : Nat) : SlotCore :=
  { c with
    generation := nextGeneration c.generation
    ownerEpoch := epoch
    acquiredNs := time }

/-- An empty slot. -/
structure Empty (c : SlotCore) : Prop where
  state : c.state = .free
  token : c.claimToken = 0
  owner : c.ownerId = invalidComponentId
  next : c.nextOwnerId = invalidComponentId
  region : c.region = ⟨0, 0⟩

end SlotCore

/-- One step in the life of slot `i`, with the records that it passes to the trace hook;
    `retired` tells the epochs of components that are over. -/
inductive SlotLife (pool : Pool) (retired : Nat → Nat → Prop) (i : Nat) (c : SlotCore) :
    SlotCore → List TraceRecord → Prop where
  /-- Only fields that are saved for recovery change. -/
  | save {sequence owner epoch : Nat} {region : Region} {log : List TraceRecord} :
      c.state ≠ .claiming → Quiet log →
      SlotLife pool retired i c { c with
        claimPreviousSequence := sequence, claimPreviousRegion := region,
        claimPreviousOwner := owner, claimPreviousOwnerEpoch := epoch } log
  | allocate {c' : SlotCore} {log : List TraceRecord} : c.state = .free → c'.state = .owned →
      c'.generation = nextGeneration c.generation → c'.claimToken = 0 → c'.Holds pool →
      c'.nextOwnerId = invalidComponentId → c'.transferSequence = 0 → c'.hopCount = 1 →
      c'.visited = VisitedSet.empty.add c'.ownerId → (pool.strict = true → c'.access = true) →
      Quiet log → SlotLife pool retired i c c' log
  /-- An allocation gave the slot a new generation and then failed. -/
  | refuse {c' : SlotCore} {log : List TraceRecord} : c.state = .free → c'.Empty →
      c'.Closed pool → c'.generation = nextGeneration c.generation → Quiet log →
      SlotLife pool retired i c c' log
  | window {region : Region} {payload : Nat → Nat} {log : List TraceRecord} : c.state = .owned →
      region.Within pool.slotCapacity → Quiet log → SlotLife pool retired i c { c with region, payload } log
  | limit {hopLimit deadlineNs : Nat} {log : List TraceRecord} : c.state = .owned → Quiet log →
      SlotLife pool retired i c { c with hopLimit, deadlineNs } log
  | send {next linkId time : Nat} {access : Bool} : c.state = .owned →
      componentIdValid next = true →
      (c.hopLimit = hopLimitUnlimited ∨ c.hopCount < c.hopLimit) →
      (pool.strict = true → access = false) →
      SlotLife pool retired i c { c.prepared next linkId with access }
        [(c.prepared next linkId).record pool i c.ownerId .send time]
  | receive {epoch time : Nat} {access : Bool} : c.state = .transfer →
      (pool.strict = true → access = true) →
      SlotLife pool retired i c { c.received epoch time with access }
        [(c.received epoch time).record pool i c.nextOwnerId .receive time]
  | rollback {access : Bool} {log : List TraceRecord} : c.state = .transfer →
      (pool.strict = true → access = true) → Quiet log →
      SlotLife pool retired i c { c.rolledBack with access } log
  /-- A rollback whose protection call fails keeps its claim. -/
  | stick {log : List TraceRecord} : c.state = .transfer → pool.strict = true →
      c.ownerEpoch < u32 → Quiet log → SlotLife pool retired i c { c.rolledBack with
        state := .claiming, claimToken := claimTokenMake .rollback c.ownerId c.ownerEpoch } log
  | repair {log : List TraceRecord} : c.state = .claiming → retired c.ownerId c.ownerEpoch →
      Quiet log → SlotLife pool retired i c c.repaired log
  | adopt {epoch time : Nat} {access : Bool} {log : List TraceRecord} : c.state = .owned →
      retired c.ownerId c.ownerEpoch → (pool.strict = true → access = true) →
      Quiet log → SlotLife pool retired i c { c.adopted epoch time with access } log
  /-- Owned again after an interrupted rollback, and at once taken over. -/
  | retake {epoch time : Nat} {access : Bool} {log : List TraceRecord} : c.state = .claiming →
      retired c.ownerId c.ownerEpoch → (pool.strict = true → access = true) →
      Quiet log → SlotLife pool retired i c { c.repaired.adopted epoch time with access } log
  /-- Released, dropped by a failed receive, or recovered. -/
  | free {c' : SlotCore} {log : List TraceRecord} : c'.Empty → c'.Closed pool →
      c'.generation = c.generation → Quiet log → SlotLife pool retired i c c' log

theorem nextGeneration_ne_zero (old : Nat) : nextGeneration old ≠ 0 := by
  rw [nextGeneration]
  split
  · exact Nat.one_ne_zero
  · assumption

theorem nextGeneration_lt (old : Nat) : nextGeneration old < u32 := by
  rw [nextGeneration]
  split
  · decide
  · exact Nat.mod_lt _ (by decide)

theorem SlotCore.Empty.well {pool : Pool} {c : SlotCore} (empty : c.Empty) (closed : c.Closed pool)
    (small : c.generation < u32) : SlotWell pool c := by
  rw [SlotWell, empty.state]
  exact ⟨small, fun _ => closed, empty.token, empty.owner, empty.next, empty.region⟩

theorem SlotCore.Holds.same {pool : Pool} {c c' : SlotCore} (holds : c.Holds pool)
    (same : c'.ownerId = c.ownerId ∧ c'.generation = c.generation ∧ c'.identity = c.identity ∧
      c'.visited = c.visited ∧ c'.region = c.region) : c'.Holds pool := by
  obtain ⟨owner, generation, identity, visited, region⟩ := same
  constructor
  · exact owner ▸ holds.owner
  · exact generation ▸ holds.generation
  · exact identity ▸ holds.identity
  · rw [visited, owner]
    exact holds.visited
  · exact region ▸ holds.region

/-- Every step of a life keeps the representation invariant. -/
theorem SlotLife.well {pool : Pool} {retired : Nat → Nat → Prop} {i : Nat} {c c' : SlotCore}
    {log : List TraceRecord} (life : SlotLife pool retired i c c' log) (well : SlotWell pool c) : SlotWell pool c' := by
  cases life with
  | save unclaimed _ =>
      obtain ⟨small, closed, kept⟩ := well
      refine ⟨small, closed, ?_⟩
      cases state : c.state with
      | claiming => exact absurd state unclaimed
      | free =>
          simp only [state] at kept ⊢
          exact kept
      | owned =>
          simp only [state] at kept ⊢
          exact ⟨kept.1, kept.2.1.same ⟨rfl, rfl, rfl, rfl, rfl⟩, kept.2.2⟩
      | transfer =>
          simp only [state] at kept ⊢
          obtain ⟨token, holds, sends⟩ := kept
          exact ⟨token, holds.same ⟨rfl, rfl, rfl, rfl, rfl⟩, ⟨sends.next, sends.source,
            sends.sourceEpoch, sends.hopCount, sends.acquired, sends.visited, sends.hops⟩⟩
      | error => simp [state] at kept
  | allocate _ owned generation token holds next _ _ _ _ _ =>
      rw [SlotWell, owned, generation]
      exact ⟨nextGeneration_lt _, absurd rfl, token, holds, next⟩
  | refuse _ empty closed generation _ =>
      exact empty.well closed (generation ▸ nextGeneration_lt _)
  | window owned within _ =>
      simp only [SlotWell, owned] at well ⊢
      obtain ⟨small, _, token, holds, next⟩ := well
      exact ⟨small, absurd rfl, token, ⟨holds.owner, holds.generation, holds.identity,
        holds.visited, within⟩, next⟩
  | limit owned _ =>
      simp only [SlotWell, owned] at well ⊢
      obtain ⟨small, _, token, holds, next⟩ := well
      exact ⟨small, absurd rfl, token, holds.same ⟨rfl, rfl, rfl, rfl, rfl⟩, next⟩
  | send owned next hops closed =>
      simp only [SlotWell, owned] at well
      obtain ⟨small, _, _, holds, _⟩ := well
      exact ⟨small, fun _ => closed, rfl, holds.same ⟨rfl, rfl, rfl, rfl, rfl⟩,
        ⟨next, rfl, rfl, rfl, rfl, rfl, hops⟩⟩
  | receive transfer _ =>
      simp only [SlotWell, transfer] at well
      obtain ⟨small, _, _, holds, sends⟩ := well
      refine ⟨small, absurd rfl, rfl, ⟨sends.next, holds.generation, holds.identity, ?_,
        holds.region⟩, rfl⟩
      exact (VisitedSet.test_add _ _ sends.next).mpr (.inl rfl)
  | rollback transfer _ _ =>
      simp only [SlotWell, transfer] at well
      obtain ⟨small, _, _, holds, _⟩ := well
      exact ⟨small, absurd rfl, rfl, holds.same ⟨rfl, rfl, rfl, rfl, rfl⟩, rfl⟩
  | stick transfer strict small' _ =>
      have closed := well.2.1 (by rw [transfer]; nofun)
      simp only [SlotWell, transfer] at well
      obtain ⟨small, _, _, holds, _⟩ := well
      exact ⟨small, fun _ => closed, ⟨strict, rfl, small', rfl⟩,
        holds.same ⟨rfl, rfl, rfl, rfl, rfl⟩, rfl⟩
  | repair claiming _ _ =>
      simp only [SlotWell, claiming] at well
      obtain ⟨small, _, _, holds, _⟩ := well
      exact ⟨small, absurd rfl, rfl, holds.same ⟨rfl, rfl, rfl, rfl, rfl⟩, rfl⟩
  | adopt owned _ _ _ =>
      simp only [SlotWell, SlotCore.adopted, owned] at well ⊢
      obtain ⟨_, _, token, holds, next⟩ := well
      exact ⟨nextGeneration_lt _, absurd rfl, token, ⟨holds.owner, nextGeneration_ne_zero _,
        holds.identity, holds.visited, holds.region⟩, next⟩
  | retake claiming _ _ _ =>
      simp only [SlotWell, claiming] at well
      obtain ⟨small, _, _, holds, _⟩ := well
      exact ⟨nextGeneration_lt _, absurd rfl, rfl, ⟨holds.owner, nextGeneration_ne_zero _,
        holds.identity, holds.visited, holds.region⟩, rfl⟩
  | free empty closed generation _ => exact empty.well closed (generation ▸ well.1)

/-! ## Pools -/

/-- The epoch of a component is over. -/
def Mem.retired (m : Mem) (component epoch : Nat) : Prop :=
  epoch ≠ 0 ∧ epoch < componentLifecycleEpoch (m.components component).lifecycle

/-- What a call may touch: slots, by their core before the step, and rings. -/
structure Reach where
  slot : Nat → SlotCore → Prop
  ring : Nat → Prop

/-- One step of a pool: nothing happens to its slots, or one slot within reach takes a
    step. -/
inductive PoolStep (pool : Pool) (reach : Reach) (m m' : Mem) : Prop where
  | still {log : List TraceRecord} : (∀ j, m'.core j = m.core j) →
      m'.hooked = m.hooked ++ log → Quiet log → PoolStep pool reach m m'
  | life {i : Nat} {log : List TraceRecord} : i < pool.slotCount → reach.slot i (m.core i) →
      SlotLife pool m.retired i (m.core i) (m'.core i) log →
      (∀ j, j ≠ i → m'.core j = m.core j) → m'.hooked = m.hooked ++ log →
      PoolStep pool reach m m'

/-- Every slot of the pool satisfies the representation invariant. -/
def PoolWell (pool : Pool) (m : Mem) : Prop :=
  ∀ i, i < pool.slotCount → SlotWell pool (m.core i)

section Steps

variable {pool : Pool} {reach wider : Reach} {m m' m'' : Mem}

theorem PoolStep.well (step : PoolStep pool reach m m') (well : PoolWell pool m) :
    PoolWell pool m' := by
  intro j small
  cases step with
  | still same _ _ =>
      rw [same j]
      exact well j small
  | @life i log _ _ life others _ =>
      by_cases moved : j = i
      · subst moved
        exact life.well (well j small)
      · rw [others j moved]
        exact well j small

/-- One step of a pool, in which no epoch of a component decreases and rings out of reach
    stay as they are. -/
structure Advances (pool : Pool) (reach : Reach) (m m' : Mem) : Prop where
  step : PoolStep pool reach m m'
  epochs : ∀ k, componentLifecycleEpoch (m.components k).lifecycle ≤
    componentLifecycleEpoch (m'.components k).lifecycle
  rings : ∀ r, ¬reach.ring r → m'.rings r = m.rings r

/-- Steps that leave every generation alone. -/
def Settles (pool : Pool) (reach : Reach) : Mem → Mem → Prop :=
  Relation.ReflTransGen fun m m' =>
    Advances pool reach m m' ∧ ∀ i, (m'.core i).generation = (m.core i).generation

/-- What one complete call does to a pool: steps of which at most one renews a generation. -/
def Lives (pool : Pool) (reach : Reach) (m m' : Mem) : Prop :=
  ∃ a b, Settles pool reach m a ∧ (a = b ∨ Advances pool reach a b) ∧ Settles pool reach b m'

/-- The second reach covers the first. -/
structure Reach.Within (reach wider : Reach) : Prop where
  slot : ∀ i c, reach.slot i c → wider.slot i c
  ring : ∀ r, reach.ring r → wider.ring r

theorem PoolStep.widen (step : PoolStep pool reach m m') (within : reach.Within wider) :
    PoolStep pool wider m m' := by
  cases step with
  | still same hooked quiet => exact .still same hooked quiet
  | life inside reached life others hooked =>
      exact .life inside (within.slot _ _ reached) life others hooked

theorem Advances.widen (step : Advances pool reach m m') (within : reach.Within wider) :
    Advances pool wider m m' :=
  ⟨step.step.widen within, step.epochs, fun r far => step.rings r fun near => far (within.ring r near)⟩

theorem Settles.widen (settles : Settles pool reach m m') (within : reach.Within wider) :
    Settles pool wider m m' := by
  induction settles with
  | refl => exact .refl
  | tail _ step ih => exact ih.tail ⟨step.1.widen within, step.2⟩

theorem Lives.widen (lives : Lives pool reach m m') (within : reach.Within wider) :
    Lives pool wider m m' := by
  obtain ⟨a, b, before, step, after⟩ := lives
  exact ⟨a, b, before.widen within, step.imp id (·.widen within), after.widen within⟩

theorem Settles.refl (pool : Pool) (reach : Reach) (m : Mem) : Settles pool reach m m :=
  Relation.ReflTransGen.refl

theorem Settles.trans (first : Settles pool reach m m') (second : Settles pool reach m' m'') :
    Settles pool reach m m'' :=
  Relation.ReflTransGen.trans first second

theorem Settles.lives (settles : Settles pool reach m m') : Lives pool reach m m' :=
  ⟨m', m', settles, .inl rfl, .refl _ _ _⟩

theorem Advances.lives (step : Advances pool reach m m') : Lives pool reach m m' :=
  ⟨m, m', .refl _ _ _, .inr step, .refl _ _ _⟩

theorem Settles.then (first : Settles pool reach m m') (second : Lives pool reach m' m'') :
    Lives pool reach m m'' := by
  obtain ⟨a, b, before, step, after⟩ := second
  exact ⟨a, b, first.trans before, step, after⟩

theorem Lives.then (first : Lives pool reach m m') (second : Settles pool reach m' m'') :
    Lives pool reach m m'' := by
  obtain ⟨a, b, before, step, after⟩ := first
  exact ⟨a, b, before, step, after.trans second⟩

/-- What every step of a pool preserves, a complete call preserves. -/
theorem Lives.preserve {P : Mem → Prop} (lives : Lives pool reach m m')
    (step : ∀ a b, Advances pool reach a b → P a → P b) (holds : P m) : P m' := by
  have settled {a b : Mem} (settles : Settles pool reach a b) (before : P a) : P b := by
    induction settles with
    | refl => exact before
    | tail _ last ih => exact step _ _ last.1 ih
  obtain ⟨a, b, before, turn, after⟩ := lives
  refine settled after ?_
  rcases turn with rfl | turn
  · exact settled before holds
  · exact step a b turn (settled before holds)

theorem Lives.well (lives : Lives pool reach m m') (well : PoolWell pool m) : PoolWell pool m' :=
  lives.preserve (fun _ _ step => step.step.well) well

theorem Settles.well (settles : Settles pool reach m m') (well : PoolWell pool m) :
    PoolWell pool m' :=
  settles.lives.well well

end Steps

end Zipc
