import Zipc.Fence

/-! # Claims at most once

The trace hook gets a `SEND` record of every prepared transfer and a `RECEIVE` record of
every successful claim, each with the slot, the generation, the sequence and the identity
of the buffer. In a run in which neither a generation nor a sequence wraps, the pairs of
generation and sequence that were received lie behind the current pair of their slot:
strictly while the slot is in `TRANSFER`. So no transfer is received twice, and what is
received is what was sent.
-/

namespace Zipc

open Atomic Program

/-- The slot, the generation and the sequence of a transfer. -/
structure TransferKey where
  slotId : Nat
  generation : Nat
  sequence : Nat
  deriving Repr, DecidableEq

def TraceRecord.key (r : TraceRecord) : TransferKey :=
  ⟨handleSlotId r.handle, handleGeneration r.handle, r.transferSequence⟩

def Message.key (message : Message) : TransferKey :=
  ⟨handleSlotId message.handle, handleGeneration message.handle, message.transferSequence⟩

/-- The `RECEIVE` records in order. -/
def received (log : List TraceRecord) : List TraceRecord := log.filter (·.event = .receive)

/-- No sequence has wrapped: a send that wraps records sequence 0. -/
def SequencesUnwrapped (m : Mem) : Prop :=
  ∀ r, r ∈ m.hooked → r.event = .send → r.transferSequence ≠ 0

/-- A received pair of generation and sequence lies behind the slot. -/
def Behind (c : SlotCore) (generation sequence : Nat) : Prop :=
  generation < c.generation ∨ generation = c.generation ∧
    (c.state = .free ∨ sequence ≤ c.transferSequence) ∧
    (c.state = .transfer → sequence < c.transferSequence)

/-- The record names the transfer of the buffer in the slot. -/
def Names (i : Nat) (c : SlotCore) (r : TraceRecord) : Prop :=
  r.key = ⟨i, c.generation, c.transferSequence⟩ ∧ r.bufferId = c.identity.id ∧
    r.parentId = c.identity.parentId

/-- Every receive follows the send of the same transfer of the same buffer. -/
def Prepared (records : List TraceRecord) : Prop :=
  ∀ before r after, records = before ++ r :: after → r.event = .receive →
    ∃ x, x ∈ before ∧ x.event = .send ∧ x.key = r.key ∧ x.bufferId = r.bufferId ∧
      x.parentId = r.parentId

/-- What the records say about the slots. -/
structure Ledger (pool : Pool) (m : Mem) : Prop where
  small : ∀ i, i < pool.slotCount → (m.core i).state ≠ .free → (m.core i).transferSequence < u32
  sent : ∀ i, i < pool.slotCount → (m.core i).state = .transfer →
    (m.core i).transferSequence ≠ 0 ∧ ∃ r, r ∈ m.hooked ∧ r.event = .send ∧ Names i (m.core i) r
  behind : ∀ r, r ∈ received m.hooked → handleSlotId r.handle < pool.slotCount ∧
    Behind (m.core (handleSlotId r.handle)) (handleGeneration r.handle) r.transferSequence
  once : ((received m.hooked).map TraceRecord.key).Nodup
  prepared : Prepared m.hooked

/-! ## One step of a slot -/

section Slots

variable {pool : Pool} {retired : Nat → Nat → Prop} {i : Nat} {c c' : SlotCore}
  {log : List TraceRecord}

theorem Behind.le {g q : Nat} (behind : Behind c g q) : g ≤ c.generation := by
  rcases behind with less | ⟨same, _⟩ <;> omega

/-- A slot with a new generation is ahead of everything that was received. -/
theorem Behind.renewed {g q : Nat} (behind : Behind c g q) (small : c.generation < u32)
    (next : c'.generation = nextGeneration c.generation) (grows : c.generation ≤ c'.generation) :
    Behind c' g q := by
  have other := nextGeneration_ne small
  have le := behind.le
  exact .inl (by omega)

theorem sub32_one {n : Nat} (small : n < u32) (positive : n ≠ 0) : sub32 n 1 = n - 1 := by
  unfold sub32
  unfold u32 at *
  omega

theorem next_sequence {n : Nat} (small : n < u32) (unwrapped : (n + 1) % u32 ≠ 0) :
    (n + 1) % u32 = n + 1 := by
  unfold u32 at *
  omega

theorem SlotLife.small (life : SlotLife pool retired i c c' log) (well : SlotWell pool c)
    (small : c.state ≠ .free → c.transferSequence < u32) :
    c'.state ≠ .free → c'.transferSequence < u32 := by
  have busy {state : SlotState} (same : c.state = state) (live : state ≠ .free) :
      c.transferSequence < u32 := small (same ▸ live)
  cases life with
  | save => exact small
  | allocate _ _ _ _ _ _ sequence =>
      intro _
      rw [sequence]
      decide
  | refuse _ empty => exact fun live => absurd empty.state live
  | window owned => exact fun _ => busy owned nofun
  | limit owned => exact fun _ => busy owned nofun
  | send => exact fun _ => Nat.mod_lt _ (by decide)
  | receive transfer => exact fun _ => busy transfer nofun
  | rollback | stick => exact fun _ => sub32_lt _ _
  | repair claiming | retake claiming =>
      have left := well.2.2
      simp only [claiming] at left
      have saved : c.claimPreviousSequence < u32 := by
        rw [left.1.sequence]
        exact busy claiming nofun
      exact fun _ => saved
  | adopt owned => exact fun _ => busy owned nofun
  | free empty => exact fun live => absurd empty.state live

/-- What lay behind the slot lies behind it after the step. -/
theorem SlotLife.behind (life : SlotLife pool retired i c c' log) (well : SlotWell pool c)
    (small : c.state ≠ .free → c.transferSequence < u32)
    (positive : c.state = .transfer → c.transferSequence ≠ 0)
    (grows : c.generation ≤ c'.generation)
    (unwrapped : ∀ r, r ∈ log → r.event = .send → r.transferSequence ≠ 0) {g q : Nat}
    (behind : Behind c g q) : Behind c' g q := by
  cases life with
  | save => exact behind
  | window | limit => exact behind
  | allocate _ _ next => exact behind.renewed well.1 next grows
  | refuse _ _ _ next => exact behind.renewed well.1 next grows
  | adopt => exact behind.renewed well.1 rfl grows
  | retake => exact behind.renewed well.1 rfl grows
  | @send next linkId time access owned =>
      have fits := small (by rw [owned]; simp)
      have ahead := next_sequence fits (unwrapped _ (List.mem_singleton.mpr rfl) rfl)
      rcases behind with less | ⟨same, held, _⟩
      · exact .inl less
      · have le : q ≤ c.transferSequence := by
          rcases held with free | le
          · rw [owned] at free
            cases free
          · exact le
        refine .inr ⟨same, .inr ?_, fun _ => ?_⟩
        · simp only [SlotCore.prepared, ahead]
          omega
        · simp only [SlotCore.prepared, ahead]
          omega
  | receive transfer =>
      rcases behind with less | ⟨same, _, strict⟩
      · exact .inl less
      · exact .inr ⟨same, .inr (strict transfer).le, fun done => by cases done⟩
  | rollback transfer | stick transfer =>
      have back := sub32_one (small (by rw [transfer]; simp)) (positive transfer)
      rcases behind with less | ⟨same, _, strict⟩
      · exact .inl less
      · have below := strict transfer
        refine .inr ⟨same, .inr ?_, fun done => by cases done⟩
        simp only [SlotCore.rolledBack, back]
        omega
  | repair claiming =>
      have left := well.2.2
      simp only [claiming] at left
      rcases behind with less | ⟨same, held, _⟩
      · exact .inl less
      · refine .inr ⟨same, .inr ?_, fun done => by cases done⟩
        rw [SlotCore.repaired, left.1.sequence]
        rcases held with free | le
        · rw [claiming] at free
          cases free
        · exact le
  | free empty _ kept =>
      rcases behind with less | ⟨same, _, _⟩
      · exact .inl (kept ▸ less)
      · refine .inr ⟨same.trans kept.symm, .inl empty.state, fun sent => ?_⟩
        rw [empty.state] at sent
        cases sent

theorem record_key {component time : Nat} {event : TraceEvent} (inside : i < u32)
    (fits : c.generation < u32) :
    (c.record pool i component event time).key = ⟨i, c.generation, c.transferSequence⟩ := by
  simp only [TraceRecord.key, SlotCore.record]
  rw [handleSlotId_make inside, handleGeneration_make inside fits]

/-- A slot in `TRANSFER` was there before, or the step sent it. -/
theorem SlotLife.sent (life : SlotLife pool retired i c c' log) (inside : i < u32)
    (fits : c.generation < u32) (sent : c'.state = .transfer) :
    (c.state = .transfer ∧ c'.generation = c.generation ∧ c'.identity = c.identity ∧
      c'.transferSequence = c.transferSequence) ∨
    ∃ r, r ∈ log ∧ r.event = .send ∧ Names i c' r ∧ r.transferSequence = c'.transferSequence := by
  cases life with
  | save => exact .inl ⟨sent, rfl, rfl, rfl⟩
  | window owned => exact absurd (owned.symm.trans sent) (by decide)
  | limit owned => exact absurd (owned.symm.trans sent) (by decide)
  | adopt owned => exact absurd (owned.symm.trans sent) (by decide)
  | allocate _ owned => exact absurd (owned.symm.trans sent) (by decide)
  | refuse _ empty => exact absurd (empty.state.symm.trans sent) (by decide)
  | free empty => exact absurd (empty.state.symm.trans sent) (by decide)
  | receive | rollback | stick | repair | retake => cases sent
  | @send next linkId time access =>
      refine .inr ⟨_, List.mem_singleton.mpr rfl, rfl, ⟨?_, rfl, rfl⟩, rfl⟩
      exact record_key inside fits

/-- A step that records a receive takes a transfer over. -/
theorem SlotLife.receives (life : SlotLife pool retired i c c' log) :
    received log = [] ∨ c.state = .transfer ∧ c'.generation = c.generation ∧
      c'.identity = c.identity ∧ c'.transferSequence = c.transferSequence ∧
      c'.state = .owned ∧ ∃ component time,
        log = [c'.record pool i component .receive time] := by
  have silent (quiet : Quiet log) : received log = [] := by
    rw [received, List.filter_eq_nil_iff]
    intro r member
    simpa using (quiet r member).2
  cases life with
  | save _ quiet | window _ _ quiet | limit _ quiet | refuse _ _ _ _ quiet | rollback _ _ quiet
  | stick _ _ _ quiet | repair _ _ quiet | adopt _ _ _ quiet | retake _ _ _ quiet
  | free _ _ _ quiet => exact .inl (silent quiet)
  | allocate _ _ _ _ _ _ _ _ _ _ quiet => exact .inl (silent quiet)
  | send => exact .inl rfl
  | receive transfer => exact .inr ⟨transfer, rfl, rfl, rfl, rfl, _, _, rfl⟩

end Slots

/-! ## One step of a pool -/

section Pools

variable {pool : Pool} {reach : Reach} {m m' : Mem} {i : Nat} {log : List TraceRecord}

theorem received_append (before log : List TraceRecord) :
    received (before ++ log) = received before ++ received log := List.filter_append ..

theorem mem_received {r : TraceRecord} {records : List TraceRecord} :
    r ∈ received records ↔ r ∈ records ∧ r.event = .receive := by
  simp [received]

theorem Prepared.append {records log : List TraceRecord} (prepared : Prepared records)
    (new : ∀ r, r ∈ log → r.event = .receive → ∃ x, x ∈ records ∧ x.event = .send ∧
      x.key = r.key ∧ x.bufferId = r.bufferId ∧ x.parentId = r.parentId) :
    Prepared (records ++ log) := by
  intro before r after split received
  rcases List.append_eq_append_iff.mp split with ⟨between, rfl, rest⟩ | ⟨between, rfl, rest⟩
  · have member : r ∈ log := by
      rw [rest]
      exact List.mem_append_right _ List.mem_cons_self
    obtain ⟨x, found, same⟩ := new r member received
    exact ⟨x, List.mem_append_left _ found, same⟩
  · cases between with
    | nil =>
        have member : r ∈ log := by
          rw [List.nil_append] at rest
          rw [← rest]
          exact List.mem_cons_self
        obtain ⟨x, found, same⟩ := new r member received
        exact ⟨x, by simpa using found, same⟩
    | cons head tail =>
        cases rest
        exact prepared before r tail rfl received

/-- Records that report no receive leave the ledger of an unchanged pool as it is. -/
theorem Ledger.still (ledger : Ledger pool m) (cores : ∀ j, m'.core j = m.core j)
    (hooked : m'.hooked = m.hooked ++ log) (quiet : Quiet log) : Ledger pool m' := by
  have none : received log = [] := by
    rw [received, List.filter_eq_nil_iff]
    intro r member
    simpa using (quiet r member).2
  have same : received m'.hooked = received m.hooked := by
    rw [hooked, received_append, none, List.append_nil]
  refine ⟨fun j inside => ?_, fun j inside sent => ?_, fun r member => ?_, ?_, ?_⟩
  · rw [cores j]
    exact ledger.small j inside
  · rw [cores j] at sent ⊢
    obtain ⟨positive, r, member, rest⟩ := ledger.sent j inside sent
    exact ⟨positive, r, hooked ▸ List.mem_append_left _ member, rest⟩
  · rw [same] at member
    rw [cores]
    exact ledger.behind r member
  · rw [same]
    exact ledger.once
  · rw [hooked]
    exact ledger.prepared.append fun r member received => absurd received (quiet r member).2

/-- A step of slot `i` keeps the ledger. -/
theorem Ledger.life (ledger : Ledger pool m) (well : PoolWell pool m) (inside : i < pool.slotCount)
    (life : SlotLife pool m.retired i (m.core i) (m'.core i) log)
    (others : ∀ j, j ≠ i → m'.core j = m.core j) (hooked : m'.hooked = m.hooked ++ log)
    (grows : (m.core i).generation ≤ (m'.core i).generation) (unwrapped : SequencesUnwrapped m') :
    Ledger pool m' := by
  have small : i < u32 := lt_trans inside pool.slotCount_lt
  have slot := well i inside
  have positive : (m.core i).state = .transfer → (m.core i).transferSequence ≠ 0 := fun sent =>
    (ledger.sent i inside sent).1
  have new (r : TraceRecord) (member : r ∈ log) (sends : r.event = .send) :
      r.transferSequence ≠ 0 :=
    unwrapped r (hooked ▸ List.mem_append_right _ member) sends
  have behind {g q : Nat} (before : Behind (m.core i) g q) : Behind (m'.core i) g q :=
    life.behind slot (ledger.small i inside) positive grows new before
  have older (r : TraceRecord) (member : r ∈ received m.hooked) :
      handleSlotId r.handle < pool.slotCount ∧
        Behind (m'.core (handleSlotId r.handle)) (handleGeneration r.handle) r.transferSequence := by
    obtain ⟨place, before⟩ := ledger.behind r member
    refine ⟨place, ?_⟩
    by_cases here : handleSlotId r.handle = i
    · rw [here] at before ⊢
      exact behind before
    · rw [others _ here]
      exact before
  have sent (j : Nat) (within : j < pool.slotCount) (sent : (m'.core j).state = .transfer) :
      (m'.core j).transferSequence ≠ 0 ∧
        ∃ r, r ∈ m'.hooked ∧ r.event = .send ∧ Names j (m'.core j) r := by
    rw [hooked]
    by_cases here : j = i
    · subst here
      rcases life.sent small slot.1 sent with ⟨before, generation, identity, sequence⟩ | ⟨r, member, sends, names, same⟩
      · obtain ⟨nonzero, r, member, sends, names⟩ := ledger.sent j within before
        rw [sequence]
        refine ⟨nonzero, r, List.mem_append_left _ member, sends, ?_⟩
        rw [Names, generation, identity, sequence]
        exact names
      · exact ⟨same ▸ new r member sends, r, List.mem_append_right _ member, sends, names⟩
    · rw [others j here] at sent ⊢
      obtain ⟨nonzero, r, member, rest⟩ := ledger.sent j within sent
      exact ⟨nonzero, r, List.mem_append_left _ member, rest⟩
  have fits (j : Nat) (within : j < pool.slotCount) :
      (m'.core j).state ≠ .free → (m'.core j).transferSequence < u32 := by
    by_cases here : j = i
    · subst here
      exact life.small slot (ledger.small j within)
    · rw [others j here]
      exact ledger.small j within
  rcases life.receives with silent | ⟨transfer, generation, identity, sequence, owned, component, time, rfl⟩
  · have same : received m'.hooked = received m.hooked := by
      rw [hooked, received_append, silent, List.append_nil]
    refine ⟨fits, sent, fun r member => older r (same ▸ member), same ▸ ledger.once, ?_⟩
    rw [hooked]
    refine ledger.prepared.append fun r member receives => ?_
    have found : r ∈ received log := mem_received.mpr ⟨member, receives⟩
    rw [silent] at found
    cases found
  · have key : ((m'.core i).record pool i component .receive time).key =
        ⟨i, (m.core i).generation, (m.core i).transferSequence⟩ := by
      rw [record_key small (generation ▸ slot.1), generation, sequence]
    have same : received m'.hooked =
        received m.hooked ++ [(m'.core i).record pool i component .receive time] := by
      rw [hooked, received_append]
      rfl
    refine ⟨fits, sent, fun r member => ?_, ?_, ?_⟩
    · rw [same] at member
      rcases List.mem_append.mp member with old | last
      · exact older r old
      · rw [List.mem_singleton.mp last]
        injection key with place age count
        rw [place, age, count]
        refine ⟨inside, .inr ⟨generation.symm, .inr (le_of_eq sequence.symm), fun sent => ?_⟩⟩
        rw [owned] at sent
        cases sent
    · -- the slot was in `TRANSFER`, so everything received before lies strictly behind
      have fresh (r : TraceRecord) (member : r ∈ received m.hooked) :
          r.key ≠ ⟨i, (m.core i).generation, (m.core i).transferSequence⟩ := by
        intro equal
        injection equal with place age count
        obtain ⟨_, before⟩ := ledger.behind r member
        rw [place, age, count] at before
        rcases before with less | ⟨_, _, strict⟩
        · exact absurd less (lt_irrefl _)
        · exact absurd (strict transfer) (lt_irrefl _)
      rw [same, List.map_append, List.nodup_append]
      refine ⟨ledger.once, List.nodup_singleton _, ?_⟩
      intro a old b last
      obtain ⟨r, member, rfl⟩ := List.mem_map.mp old
      rw [List.mem_singleton.mp last, key]
      exact fresh r member
    · rw [hooked]
      refine ledger.prepared.append fun r member _ => ?_
      rw [List.mem_singleton.mp member]
      obtain ⟨_, x, found, sends, names, id, parent⟩ := ledger.sent i inside transfer
      refine ⟨x, found, sends, names.trans key.symm, id.trans ?_, parent.trans ?_⟩
      · rw [← identity]
        rfl
      · rw [← identity]
        rfl

theorem Ledger.advances (ledger : Ledger pool m) (well : PoolWell pool m)
    (step : Advances pool reach m m')
    (grows : ∀ i, i < pool.slotCount → (m.core i).generation ≤ (m'.core i).generation)
    (unwrapped : SequencesUnwrapped m') : Ledger pool m' := by
  cases step.step with
  | still cores hooked quiet => exact ledger.still cores hooked quiet
  | life inside _ life others hooked =>
      exact ledger.life well inside life others hooked (grows _ inside) unwrapped

/-- The records of a step follow those before it. -/
theorem Advances.hooked (step : Advances pool reach m m') : ∃ log, m'.hooked = m.hooked ++ log := by
  cases step.step with
  | still _ hooked _ => exact ⟨_, hooked⟩
  | life _ _ _ _ hooked => exact ⟨_, hooked⟩

theorem SequencesUnwrapped.before (unwrapped : SequencesUnwrapped m')
    (step : Advances pool reach m m') : SequencesUnwrapped m := by
  obtain ⟨log, hooked⟩ := step.hooked
  exact fun r member => unwrapped r (hooked ▸ List.mem_append_left _ member)

/-- In a call in which no generation wraps, none wraps in any of its steps. -/
theorem Lives.preserve_growing {P : Mem → Prop} (lives : Lives pool reach m m')
    (grows : ∀ i, i < pool.slotCount → (m.core i).generation ≤ (m'.core i).generation)
    (step : ∀ a b, Advances pool reach a b →
      (∀ i, i < pool.slotCount → (a.core i).generation ≤ (b.core i).generation) → P a → P b)
    (holds : P m) : P m' := by
  have settled {a b : Mem} (settles : Settles pool reach a b) (before : P a) : P b := by
    induction settles with
    | refl => exact before
    | tail _ last ih => exact step _ _ last.1 (fun i _ => (last.2 i).ge) ih
  obtain ⟨a, b, before, turn, after⟩ := lives
  refine settled after ?_
  rcases turn with rfl | turn
  · exact settled before holds
  · refine step a b turn (fun i inside => ?_) (settled before holds)
    rw [before.generation i, ← after.generation i]
    exact grows i inside

theorem Ledger.lives (ledger : Ledger pool m) (well : PoolWell pool m)
    (lives : Lives pool reach m m')
    (grows : ∀ i, i < pool.slotCount → (m.core i).generation ≤ (m'.core i).generation)
    (unwrapped : SequencesUnwrapped m') : Ledger pool m' := by
  have kept := lives.preserve_growing (P := fun a => PoolWell pool a ∧
      (SequencesUnwrapped a → Ledger pool a)) grows (fun a b step growing before => by
    refine ⟨step.step.well before.1, fun later => ?_⟩
    exact (before.2 (later.before step)).advances before.1 step growing later)
    ⟨well, fun _ => ledger⟩
  exact kept.2 unwrapped

end Pools

/-! ## Runs -/

section Runs

variable {pool : Pool} {s s' : Session}

/-- Neither a generation nor a sequence wraps in the step. -/
def NothingWraps (pool : Pool) (s s' : Session) : Prop :=
  Unwrapped pool s s' ∧ SequencesUnwrapped s'.mem

theorem Session.Starts.ledger (starts : s.Starts pool) : Ledger pool s.mem := by
  obtain ⟨formatted, _, hooked, _⟩ := starts
  have free (i : Nat) (inside : i < pool.slotCount) : (s.mem.core i).state = .free := by
    rw [Mem.core, formatted.slots inside]
    rfl
  refine ⟨fun i inside live => absurd (free i inside) live, fun i inside sent => ?_, ?_, ?_, ?_⟩
  · rw [free i inside] at sent
    cases sent
  · rw [hooked]
    intro r member
    cases member
  · rw [hooked]
    exact List.nodup_nil
  · rw [hooked]
    intro before r after nothing
    simp at nothing

theorem Session.Reached.ledger (reached : s.Reached pool (NothingWraps pool)) :
    Ledger pool s.mem := by
  refine reached.invariant (I := fun s => Ledger pool s.mem) (fun s starts => starts.ledger) ?_
  intro s s' well step unwrapped ledger
  obtain ⟨reach, lives⟩ := step.lives well
  exact ledger.lives well.slots lives unwrapped.1 unwrapped.2

/-- A prepared message names the transfer that the hook is told of. -/
theorem prepare_records (well : PoolWell pool s.mem) {handle owner next linkId : Nat}
    {message : Message} {m : Mem}
    (run : Completes (bufferPrepareTransferInternal pool handle owner next linkId) s.mem
      (.ok message) m) :
    ∃ r, m.hooked = s.mem.hooked ++ [r] ∧ r.event = .send ∧ r.key = message.key ∧
      (m.core (handleSlotId message.handle)).identity = ⟨r.bufferId, r.parentId⟩ := by
  obtain ⟨c, log, focus, ends⟩ := run.sound (prepare_focused fun inside => well _ inside).alone.wp
  rcases ends with ⟨status, wrong, _⟩ | sent
  · cases wrong
  obtain ⟨inside, _, generation, _, _, _, _, ⟨access, _, rfl⟩, rfl, same⟩ := sent
  cases same
  have small : handleSlotId handle < u32 := lt_trans inside pool.slotCount_lt
  refine ⟨_, focus.hooked, rfl, ?_, ?_⟩
  · rw [record_key small (generation ▸ Nat.mod_lt _ (by decide))]
    simp only [Message.key, SlotCore.prepared]
    rw [generation]
  · rw [focus.core]
    rfl

/-- A claim that succeeds takes over the transfer that its message names. -/
theorem claim_records (well : PoolWell pool s.mem) {message : Message} {receiver : Nat} {v : View}
    {m : Mem} (run : Completes (bufferClaim pool message receiver) s.mem (.ok, some v) m) :
    handleSlotId message.handle < pool.slotCount ∧
    (s.mem.core (handleSlotId message.handle)).state = .transfer ∧
    message.key = ⟨handleSlotId message.handle,
      (s.mem.core (handleSlotId message.handle)).generation,
      (s.mem.core (handleSlotId message.handle)).transferSequence⟩ ∧
    v.slotId = handleSlotId message.handle ∧ v.handle = message.handle ∧
    (m.core (handleSlotId message.handle)).identity =
      (s.mem.core (handleSlotId message.handle)).identity ∧
    ∃ r, m.hooked = s.mem.hooked ++ [r] ∧ r.event = .receive ∧ r.key = message.key := by
  obtain ⟨c, log, focus, ends⟩ := run.sound (claim_focused fun inside => well _ inside).alone.wp
  simp only [ClaimEnds] at ends
  cases verdict : claimVerdict pool s.mem.clock (s.mem.core (handleSlotId message.handle)) message
      receiver with
  | some status =>
      simp only [verdict] at ends
      cases ends.1
  | none =>
      simp only [verdict] at ends
      obtain ⟨inside, sent, generation, _, _, sequence⟩ := claimVerdict_none verdict
      have small : handleSlotId message.handle < u32 := lt_trans inside pool.slotCount_lt
      have key : message.key = ⟨handleSlotId message.handle,
          (s.mem.core (handleSlotId message.handle)).generation,
          (s.mem.core (handleSlotId message.handle)).transferSequence⟩ := by
        rw [Message.key, generation, sequence]
      rcases ends with ⟨same, ⟨access, _, rfl⟩, rfl⟩ | ⟨status, wrong, _⟩
      · cases same
        refine ⟨inside, sent, key, rfl, rfl, ?_, _, focus.hooked, rfl, ?_⟩
        · rw [focus.core]
          rfl
        · rw [record_key small (generation ▸ Nat.mod_lt _ (by decide)), key]
          rfl
      · cases wrong

/-- In a run without wraps no transfer is received twice and each was sent before; a
    message that a claim accepts was not received before, and the claim returns the
    buffer that the message was prepared for. -/
theorem claims_at_most_once (reached : s.Reached pool (NothingWraps pool)) :
    ((received s.mem.hooked).map TraceRecord.key).Nodup ∧ Prepared s.mem.hooked ∧
    (∀ handle owner next linkId message m,
      Completes (bufferPrepareTransferInternal pool handle owner next linkId) s.mem
        (.ok message) m →
      ∃ r, m.hooked = s.mem.hooked ++ [r] ∧ r.event = .send ∧ r.key = message.key ∧
        (m.core (handleSlotId message.handle)).identity = ⟨r.bufferId, r.parentId⟩) ∧
    (∀ message receiver v m,
      Completes (bufferClaim pool message receiver) s.mem (.ok, some v) m →
      (∀ r, r ∈ received s.mem.hooked → r.key ≠ message.key) ∧
      v.slotId = handleSlotId message.handle ∧ v.handle = message.handle ∧
      ∃ r x, m.hooked = s.mem.hooked ++ [r] ∧ r.event = .receive ∧ r.key = message.key ∧
        x ∈ s.mem.hooked ∧ x.event = .send ∧ x.key = message.key ∧
        (m.core v.slotId).identity = ⟨x.bufferId, x.parentId⟩) := by
  have ledger := reached.ledger
  have well := reached.well.slots
  refine ⟨ledger.once, ledger.prepared, fun _ _ _ _ _ _ run => prepare_records well run,
    fun message receiver v m run => ?_⟩
  obtain ⟨inside, sent, key, slot, handle, identity, r, hooked, receives, same⟩ :=
    claim_records well run
  obtain ⟨_, x, member, sends, names, id, parent⟩ := ledger.sent _ inside sent
  refine ⟨fun older found equal => ?_, slot, handle, r, x, hooked, receives, same, member, sends,
    names.trans key.symm, ?_⟩
  · obtain ⟨_, behind⟩ := ledger.behind older found
    have place := congrArg TransferKey.slotId equal
    have age := congrArg TransferKey.generation (equal.trans key)
    have count := congrArg TransferKey.sequence (equal.trans key)
    simp only [TraceRecord.key, Message.key] at place age count
    rw [place, age, count] at behind
    rcases behind with less | ⟨_, _, strict⟩
    · exact absurd less (lt_irrefl _)
    · exact absurd (strict sent) (lt_irrefl _)
  · rw [slot, identity, id, parent]

/-- Component 1 has prepared the transfer of its buffer to component 2. -/
def preparedSession : Session :=
  allocatedSession.run smallPool (.prepareTransfer (handleMake 0 1) 1 2)

/-- Component 2 has claimed it. -/
def claimedSession : Session :=
  preparedSession.run smallPool (.claim ⟨handleMake 0 1, 7, 1, 2, 1, 0⟩ 2)

theorem claims_at_most_once_claimed : (received claimedSession.mem.hooked).length = 1 ∧
    Prepared claimedSession.mem.hooked := by
  have prepares : allocatedSession.Step smallPool preparedSession :=
    Session.run_step trivial (by decide)
  have claims : preparedSession.Step smallPool claimedSession :=
    Session.run_step trivial (by decide)
  have first : attached.Leads smallPool (NothingWraps smallPool) registeredSession :=
    .single ⟨registered_step, by unfold NothingWraps Unwrapped SequencesUnwrapped; decide⟩
  have second := first.tail
    ⟨allocated_step, by unfold NothingWraps Unwrapped SequencesUnwrapped; decide⟩
  have third := second.tail
    ⟨prepares, by unfold NothingWraps Unwrapped SequencesUnwrapped; decide⟩
  have fourth := third.tail
    ⟨claims, by unfold NothingWraps Unwrapped SequencesUnwrapped; decide⟩
  exact ⟨by decide, (claims_at_most_once ⟨attached, attached_starts, fourth⟩).2.1⟩

end Runs

end Zipc
