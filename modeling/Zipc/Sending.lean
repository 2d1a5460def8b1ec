import Zipc.Strict
import Zipc.EndToEnd
import Zipc.Controls

/-! # How a send ends

`zipc_send` hands a slot over completely or leaves it as it was. The one exception is a
rollback that the platform does not let finish: then the slot keeps the claim of the rollback.
-/

namespace Zipc

open Atomic Program

/-! ## Sequence numbers -/

/-- The transfer sequence of a slot in use is a 32-bit number. -/
def Sequenced (c : SlotCore) : Prop := c.state ≠ .free → c.transferSequence < u32

/-- The rollback undoes the increment, also where it wrapped around. -/
theorem sub32_undo {sequence : Nat} (small : sequence < u32) :
    sub32 ((sequence + 1) % u32) 1 = sequence := by
  unfold sub32
  unfold u32 at *
  omega

section Sequences

variable {pool : Pool}

theorem SlotLife.sequenced {retired : Nat → Nat → Prop} {i : Nat} {c c' : SlotCore}
    {log : List TraceRecord} (life : SlotLife pool retired i c c' log) (well : SlotWell pool c)
    (before : Sequenced c) : Sequenced c' := by
  have busy {state : SlotState} (known : c.state = state) (used : state ≠ .free) :
      c.transferSequence < u32 := before (known ▸ used)
  -- a claim that a rollback left saved the sequence that it had restored
  have saved (claiming : c.state = .claiming) : c.claimPreviousSequence < u32 := by
    have left := well.2.2
    simp only [claiming] at left
    rw [left.1.sequence]
    exact busy claiming nofun
  cases life with
  | save => exact before
  | allocate _ _ _ _ _ _ zero =>
      intro _
      rw [zero]
      decide
  | refuse _ empty | free empty => exact fun used => absurd empty.state used
  | window owned | limit owned => exact before
  | send => exact fun _ => Nat.mod_lt _ (by decide)
  | receive sent => exact fun _ => busy sent nofun
  | rollback | stick => exact fun _ => sub32_lt _ _
  | repair claiming => exact fun _ => saved claiming
  | adopt owned => exact fun _ => busy owned nofun
  | retake claiming => exact fun _ => saved claiming

theorem Advances.sequenced {reach : Reach} {m m' : Mem} (step : Advances pool reach m m')
    (well : PoolWell pool m) {i : Nat} (inside : i < pool.slotCount) (before : Sequenced (m.core i)) :
    Sequenced (m'.core i) := by
  cases step.step with
  | still same => rwa [same i]
  | @life j log _ _ life others =>
      by_cases here : i = j
      · subst here
        exact life.sequenced (well i inside) before
      · rwa [others i here]

theorem Session.Reached.sequenced {ok : Session → Session → Prop} {s : Session}
    (reached : s.Reached pool ok) {i : Nat} (inside : i < pool.slotCount) :
    Sequenced (s.mem.core i) := by
  refine reached.invariant (I := fun s => Sequenced (s.mem.core i)) (fun s starts used => ?_)
    (fun s s' well step _ before => ?_)
  · rw [Mem.core, starts.1.slots inside] at used
    exact absurd rfl used
  · obtain ⟨reach, lives⟩ := step.lives well
    have kept := lives.preserve (P := fun m => PoolWell pool m ∧ Sequenced (m.core i))
      (fun a b turn held => ⟨turn.step.well held.1, turn.sequenced held.1 inside held.2⟩)
      ⟨well.slots, before⟩
    exact kept.2

end Sequences

/-! ## The rollback -/

/-- A complete run with this end in which the platform answered `status` to a request for access
to slot `i`. -/
inductive Answered (i : Nat) (readWrite : Bool) (status : Status) {α : Type} :
    Prog α → Mem → α → Mem → Prop where
  | here {next : Status → Prog α} {m m' : Mem} {a : α} (e : Env) : e.protect = status →
      Completes (next status) ((Act.protect i readWrite).exec e m).2 a m' →
      Answered i readWrite status (.act (.protect i readWrite) next) m a m'
  | later {β : Type} {action : Act β} {next : β → Prog α} {m m' : Mem} {a : α} (e : Env) :
      Answered i readWrite status (next (action.exec e m).1) (action.exec e m).2 a m' →
      Answered i readWrite status (.act action next) m a m'

section Answered

variable {i : Nat} {readWrite : Bool} {status : Status} {α β : Type} {p : Prog α} {f : α → Prog β}
  {m mid m' : Mem} {a : α} {b : β}

theorem Answered.first (asked : Answered i readWrite status p m a mid)
    (rest : Completes (f a) mid b m') : Answered i readWrite status (p >>= f) m b m' := by
  induction asked with
  | here e answer run => exact .here e answer (run.append rest)
  | later e _ ih => exact .later e (ih rest)

theorem Answered.second (run : Completes p m a mid) (asked : Answered i readWrite status (f a) mid b m') :
    Answered i readWrite status (p >>= f) m b m' := by
  induction run with
  | done a m => exact asked
  | act e _ ih => exact .later e (ih asked)

end Answered

/-- Run alone from a memory in focus, the program ends in focus with `Q`, and a status other
than OK is the platform's answer to a request for access. -/
def Blames (m₀ : Mem) (i : Nat) (p : Prog Status) (Q : Status → SlotCore → Prop) (c : SlotCore) :
    Prop :=
  ∀ m, Focus m₀ i c [] m → ∀ status m', Completes p m status m' →
    (∃ c', Focus m₀ i c' [] m' ∧ Q status c') ∧
    (status ≠ .ok → Answered i true status p m status m')

section Blames

variable {β : Type} {pool : Pool} {m₀ : Mem} {i : Nat} {c : SlotCore} {Q : Status → SlotCore → Prop}

theorem blames_ok (holds : Q .ok c) : Blames m₀ i (.done .ok) Q c := by
  intro m focus status m' run
  cases run
  exact ⟨⟨c, focus, holds⟩, fun failed => absurd rfl failed⟩

theorem blames_act {action : Act β} {next : β → Prog Status} {b : β} {c' : SlotCore}
    (step : ∀ e m, Focus m₀ i c [] m →
      (action.exec e m).1 = b ∧ Focus m₀ i c' [] (action.exec e m).2)
    (rest : Blames m₀ i (next b) Q c') : Blames m₀ i (.act action next) Q c := by
  intro m focus status m' run
  cases run with
  | act e run =>
      obtain ⟨answer, after⟩ := step e m focus
      rw [exec_eq, answer] at run
      obtain ⟨ends, asked⟩ := rest _ after status m' run
      refine ⟨ends, fun failed => .later e ?_⟩
      rw [answer]
      exact asked failed

theorem blames_loadState {next : SlotState → Prog Status} (rest : Blames m₀ i (next c.state) Q c) :
    Blames m₀ i (.act (.loadState i) next) Q c :=
  blames_act (fun _ _ focus => ⟨focus.core ▸ rfl, focus⟩) rest

theorem blames_loadGeneration {next : Nat → Prog Status}
    (rest : Blames m₀ i (next c.generation) Q c) :
    Blames m₀ i (.act (.loadGeneration i) next) Q c :=
  blames_act (fun _ _ focus => ⟨focus.core ▸ rfl, focus⟩) rest

theorem blames_read {τ : Type} {field : SlotControl → τ} {next : τ → Prog Status} (g : SlotCore → τ)
    (known : ∀ s access payload, field s = g (s.core access payload))
    (rest : Blames m₀ i (next (g c)) Q c) : Blames m₀ i (.act (.read i field) next) Q c :=
  blames_act (fun _ _ focus => ⟨(known _ _ _).trans (congrArg g focus.core), focus⟩) rest

theorem blames_write {w : SlotWrite} {next : Unit → Prog Status}
    (rest : Blames m₀ i (next ()) Q (w.applyCore c)) :
    Blames m₀ i (.act (.write i w) next) Q c := by
  refine blames_act (fun e m focus => ⟨rfl, focus.store ?_⟩) rest
  rw [w.core_apply, ← focus.core]
  rfl

theorem blames_casToken {expected desired : Nat} {next : Nat → Prog Status}
    (found : c.claimToken = expected)
    (rest : Blames m₀ i (next expected) Q { c with claimToken := desired }) :
    Blames m₀ i (.act (.casToken i expected desired) next) Q c := by
  refine blames_act (fun e m focus => ?_) rest
  have token : (m.slots i).claimToken = c.claimToken := focus.core ▸ rfl
  simp only [Act.exec, token.trans found, if_true, true_and]
  refine focus.store ?_
  rw [← focus.core]
  rfl

theorem blames_storeState {state : SlotState} {next : Unit → Prog Status}
    (rest : Blames m₀ i (next ()) Q { c with state := state }) :
    Blames m₀ i (.act (.storeState i state) next) Q c := by
  refine blames_act (fun e m focus => ⟨rfl, focus.store ?_⟩) rest
  rw [← focus.core]
  rfl

theorem blames_publish {state : SlotState} {claim : Nat} {next : Unit → Prog Status}
    (token : c.claimToken = claim)
    (rest : Blames m₀ i (next ()) Q { c with state := state, claimToken := 0 }) :
    Blames m₀ i (publish i state claim >>= next) Q c := by
  exact blames_storeState (blames_casToken token rest)

/-- A request for access whose refusal ends the program. -/
theorem blames_protectSlot {next : Prog Status} (inside : i < pool.slotCount)
    (failed : ∀ status, status ≠ .ok → pool.strict = true → Q status c)
    (done : ∀ access, (pool.strict = true → access = true) → Blames m₀ i next Q { c with access }) :
    Blames m₀ i (protectSlot pool i true >>= fun status =>
      if status ≠ .ok then pure status else next) Q c := by
  unfold protectSlot
  split
  · rename_i lax
    refine done c.access fun strict => ?_
    rw [lax] at strict
    cases strict
  rename_i strict
  rw [Bool.not_eq_false] at strict
  rw [if_neg (Nat.not_le.mpr inside)]
  intro m focus status m' run
  cases run with
  | act e run =>
      by_cases works : e.protect = .ok
      · simp only [exec_eq, Act.exec, works] at run
        obtain ⟨ends, asked⟩ := done true (fun _ => rfl) _ (focus.reach true) status m' run
        refine ⟨ends, fun bad => .later e ?_⟩
        simp only [Act.exec, works]
        exact asked bad
      · simp only [exec_eq, Act.exec, if_neg works] at run
        have stop : Completes (.done e.protect : Prog Status) m status m' := by
          have same : (if e.protect ≠ .ok then .done e.protect else next : Prog Status) =
            .done e.protect := if_pos works
          rw [← same]
          exact run
        cases stop
        refine ⟨⟨c, focus, failed _ works strict⟩, fun _ => .here e rfl ?_⟩
        have stays : ((Act.protect i true).exec e m).2 = m := if_neg works
        rw [stays]
        exact run

end Blames

/-- A rollback of the transfer that was just prepared ends only as the platform lets it. -/
theorem rollbackTransfer_blames {pool : Pool} {m₀ : Mem} {i : Nat} {c : SlotCore} {link : Link}
    {message : Message} (inside : i < pool.slotCount) (state : c.state = .transfer)
    (token : c.claimToken = 0) (generation : c.generation = handleGeneration message.handle)
    (owner : c.ownerId = link.localComponent) (next : c.nextOwnerId = link.remoteComponent)
    (sequence : c.transferSequence = message.transferSequence) :
    Blames m₀ i (rollbackTransfer pool link i message)
      (fun status c' =>
        (status = .ok ∧ ∃ access, (pool.strict = true → access = true) ∧
          c' = { c.rolledBack with access }) ∨
        (status ≠ .ok ∧ pool.strict = true ∧ c' = { c.rolledBack with
          state := .claiming
          claimToken := claimTokenMake .rollback c.ownerId link.localEpoch })) c := by
  simp only [rollbackTransfer, rollbackClaimed, rollbackMatches, lift_bind]
  generalize known : sub32 message.transferSequence 1 = previous
  apply blames_loadState
  rw [if_neg (not_not_intro state)]
  apply blames_write
  simp only [SlotWrite.applyCore]
  refine blames_casToken token ?_
  rw [if_neg (not_not_intro rfl)]
  refine blames_act (fun e _ focus => focus.casState state e) ?_
  simp only [Bool.true_eq_false, if_false, act_bind]
  -- the held slot is the one that was sent
  apply blames_loadGeneration
  rw [if_neg (not_not_intro (by exact generation)), act_bind]
  apply blames_read (·.ownerId) fun _ _ _ => rfl
  rw [if_neg (not_not_intro (by exact owner)), act_bind]
  apply blames_read (·.nextOwnerId) fun _ _ _ => rfl
  rw [if_neg (not_not_intro (by exact next)), act_bind]
  apply blames_read (·.transferSequence) fun _ _ _ => rfl
  rw [pure_eq, done_bind, if_neg (by simp [sequence])]
  refine blames_write (blames_write (blames_write ?_))
  have back : c.rolledBack = _ :=
    SlotCore.rolledBack_eq ((congrArg (sub32 · 1) sequence).trans known)
  refine blames_protectSlot inside (fun status failed strict => ?_) fun access opened => ?_
  · refine .inr ⟨failed, strict, ?_⟩
    rw [back]
    simp only [SlotWrite.applyCore, generation, owner]
  · refine blames_publish rfl (blames_ok (.inl ⟨rfl, access, opened, ?_⟩))
    rw [back]
    simp only [SlotWrite.applyCore, generation, owner]

/-! ## Frames -/

section Frames

variable {pool : Pool} {i : Nat}

theorem registeredEpoch_only (component : Nat) : Only i (registeredEpoch component) := by
  unfold registeredEpoch
  split
  · exact only_act trivial fun _ => trivial
  · trivial

theorem recordProtocolError_only (component : Nat) : Only i (recordProtocolError pool component) :=
  only_act trivial fun _ => only_act trivial fun _ => only_act trivial fun _ => trivial

theorem recordSlotError_only (component : Nat) : Only i (recordSlotError pool i component) :=
  only_act trivial fun _ => traceSlot_only component .error

theorem limitsExceeded_only : Only i (limitsExceeded i) := by
  simp only [limitsExceeded, lift_bind]
  refine only_act trivial fun time => only_act trivial fun deadline => ?_
  split
  · trivial
  refine only_act trivial fun limit => ?_
  split
  · trivial
  · exact only_act trivial fun _ => trivial

theorem prepareTransfer_only (handle owner next linkId claim : Nat) :
    Only i (prepareTransfer pool handle i owner next linkId claim) := by
  simp only [prepareTransfer, lift_bind]
  refine only_act rfl fun _ => only_act rfl fun _ => only_act rfl fun _ => only_act trivial fun _ => ?_
  refine only_act rfl fun _ => only_act trivial fun _ => only_act rfl fun _ => ?_
  refine only_act trivial fun _ => only_act rfl fun _ => only_act trivial fun _ => ?_
  refine only_act rfl fun _ => only_act trivial fun _ => only_act rfl fun _ => ?_
  exact (traceSlot_only owner .send).bind fun _ => (publish_only .transfer claim).bind fun _ => trivial

theorem prepareClaimed_only (handle owner next linkId epoch claim : Nat) :
    Only i (prepareClaimed pool handle i owner next linkId epoch claim) := by
  simp only [prepareClaimed, lift_bind]
  refine only_act trivial fun generation => ?_
  split
  · exact (publish_only .owned claim).bind fun _ => (recordProtocolError_only owner).bind fun _ => trivial
  refine (ownedBy_only owner epoch).bind fun same => ?_
  split
  · exact (publish_only .owned claim).bind fun _ => (recordProtocolError_only owner).bind fun _ => trivial
  refine limitsExceeded_only.bind fun exceeded => ?_
  cases exceeded with
  | some status =>
      exact (recordSlotError_only owner).bind fun _ => (publish_only .owned claim).bind fun _ => trivial
  | none =>
      refine (protectSlot_only false).bind fun status => ?_
      split
      · exact (recordSlotError_only owner).bind fun _ => (publish_only .owned claim).bind fun _ => trivial
      · exact prepareTransfer_only handle owner next linkId claim

theorem prepare_only {handle : Nat} (owner next linkId : Nat) :
    Only (handleSlotId handle) (bufferPrepareTransferInternal pool handle owner next linkId) := by
  simp only [bufferPrepareTransferInternal, lift_bind]
  split
  · trivial
  split
  · exact (recordProtocolError_only owner).bind fun _ => trivial
  refine (registeredEpoch_only owner).bind fun epoch => only_act trivial fun state => ?_
  split
  · exact (recordProtocolError_only owner).bind fun _ => trivial
  refine only_act trivial fun generation => ?_
  split
  · exact (recordProtocolError_only owner).bind fun _ => trivial
  refine (ownedBy_only owner epoch).bind fun same => ?_
  split
  · exact (recordProtocolError_only owner).bind fun _ => trivial
  refine only_act trivial fun sequence => only_act rfl fun _ => only_act rfl fun observed => ?_
  split
  · trivial
  refine only_act rfl fun won => ?_
  split
  · exact only_act rfl fun _ => (recordProtocolError_only owner).bind fun _ => trivial
  · exact prepareClaimed_only handle owner next linkId epoch _

theorem rollbackTransfer_only (link : Link) (message : Message) :
    Only i (rollbackTransfer pool link i message) := by
  simp only [rollbackTransfer, lift_bind]
  refine only_act trivial fun state => ?_
  split
  · trivial
  refine only_act rfl fun _ => only_act rfl fun observed => ?_
  split
  · trivial
  refine only_act rfl fun won => ?_
  split
  · exact only_act rfl fun _ => trivial
  simp only [rollbackClaimed, lift_bind]
  have compares : Only i (rollbackMatches link message i) := by
    simp only [rollbackMatches, lift_bind]
    refine only_act trivial fun generation => ?_
    split
    · trivial
    refine only_act trivial fun owner => ?_
    split
    · trivial
    refine only_act trivial fun next => ?_
    split
    · trivial
    · exact only_act trivial fun _ => trivial
  refine compares.bind fun same => ?_
  split
  · exact (publish_only .transfer _).bind fun _ => trivial
  refine only_act rfl fun _ => only_act rfl fun _ => only_act rfl fun _ => ?_
  refine (protectSlot_only true).bind fun status => ?_
  split
  · trivial
  · exact (publish_only .owned _).bind fun _ => trivial

theorem ringScan_only {r : Nat} {message : Message} {depth : Nat} (left position : Nat) :
    Only i (ringScan r message depth left position) := by
  induction left generalizing position with
  | zero => trivial
  | succ left ih =>
      simp only [ringScan, lift_bind]
      refine only_act trivial fun queued => ?_
      split
      · trivial
      · exact ih _

theorem ringPush_only (r : Nat) (message : Message) : Only i (ringPush r message) := by
  simp only [ringPush, lift_bind]
  refine only_act trivial fun depth => ?_
  split
  · trivial
  refine only_act trivial fun producer => only_act trivial fun consumer => ?_
  split
  · trivial
  refine (ringScan_only _ _).bind fun pending => ?_
  split
  · trivial
  · exact only_act trivial fun _ => only_act trivial fun _ => trivial

theorem transportSend_only (t : Transport) (message : Message) : Only i (transportSend t message) := by
  cases t with
  | eventfd r =>
      simp only [transportSend, lift_bind]
      refine (ringPush_only r message).bind fun status => ?_
      split
      · trivial
      · exact only_act trivial fun _ => trivial
  | polling r timeout => exact ringPush_only r message
  | external => exact only_act trivial fun _ => trivial

theorem traceExternalEvent_only (handle sequence component : Nat) (event : TraceEvent) :
    Only i (traceExternalEvent pool handle sequence component event) :=
  only_act trivial fun _ => only_act trivial fun _ => trivial

theorem sendPrepared_only (link : Link) (v : View) (message : Message) :
    Only v.slotId (sendPrepared pool link v message) := by
  unfold sendPrepared
  refine (transportSend_only link.transport message).bind fun status => ?_
  split
  · exact (traceExternalEvent_only _ _ _ _).bind fun _ => trivial
  split
  · refine (rollbackTransfer_only link message).bind fun undone => ?_
    split
    · exact (traceExternalEvent_only _ _ _ _).bind fun _ => trivial
    · trivial
  · trivial

theorem bufferOwned_only {v : View} : Only v.slotId (bufferOwned (some v)) := by
  simp only [bufferOwned, lift_bind]
  refine only_act trivial fun generation => ?_
  split
  · trivial
  refine only_act trivial fun state => ?_
  split
  · trivial
  refine (ownedBy_only v.owner v.ownerEpoch).bind fun same => ?_
  split
  · trivial
  · exact (registeredEpoch_only v.owner).bind fun _ => trivial

theorem epochCurrent_only (component epoch : Nat) : Only i (epochCurrent component epoch) := by
  unfold epochCurrent componentEpochCurrent
  split
  · split
    · trivial
    · exact only_act trivial fun _ => trivial
  · trivial

theorem send_only (link : Link) {v : View} (slot : v.slotId = handleSlotId v.handle) :
    Only v.slotId (send pool link (some v)) := by
  unfold send
  refine bufferOwned_only.bind fun owned => ?_
  cases owned with
  | false => trivial
  | true =>
      refine (epochCurrent_only _ _).bind fun current => ?_
      split
      · trivial
      split
      · trivial
      have prepares : Only v.slotId (bufferPrepareTransferInternal pool v.handle
          link.localComponent link.remoteComponent link.linkId) := slot ▸ prepare_only _ _ _
      refine prepares.bind fun prepared => ?_
      cases prepared with
      | error status => trivial
      | ok message => exact sendPrepared_only link v message

end Frames

/-! ## Pools without page protection -/

/-- Actions that leave page protection alone. -/
def Act.mild {β : Type} : Act β → Prop
  | .protect _ _ => False
  | _ => True

/-- The program makes no page protection call. -/
def Mild {α : Type} : Prog α → Prop
  | .done _ => True
  | .act action next => action.mild ∧ ∀ b, Mild (next b)

section Mild

variable {α β : Type} {pool : Pool}

theorem mild_act {action : Act β} {next : β → Prog α} (gentle : action.mild)
    (rest : ∀ b, Mild (next b)) : Mild (.act action next) := ⟨gentle, rest⟩

theorem Mild.bind {p : Prog β} {f : β → Prog α} (first : Mild p) (rest : ∀ b, Mild (f b)) :
    Mild (p >>= f) := by
  induction p with
  | done b => exact rest b
  | act action next ih => exact ⟨first.1, fun b => ih b (first.2 b)⟩

theorem mild_ite {c : Prop} [Decidable c] {p q : Prog α} (pos : Mild p) (neg : Mild q) :
    Mild (if c then p else q) := by
  split
  · exact pos
  · exact neg

theorem Act.mild.access {action : Act β} (gentle : action.mild) (e : Env) (m : Mem) :
    (action.exec e m).2.access = m.access := by
  cases action
  case protect => exact gentle.elim
  all_goals
    simp only [Act.exec]
    try (repeat' split) <;> rfl

theorem Mild.access {p : Prog α} {m m' : Mem} {a : α} (gentle : Mild p)
    (run : Completes p m a m') : m'.access = m.access := by
  induction run with
  | done a m => rfl
  | act e _ ih => exact (ih (gentle.2 _)).trans (gentle.1.access e _)

theorem prepare_mild (lax : pool.strict = false) (handle owner next linkId : Nat) :
    Mild (bufferPrepareTransferInternal pool handle owner next linkId) := by
  simp only [bufferPrepareTransferInternal, prepareClaimed, limitsExceeded, protectSlot, lax,
    if_true, prepareTransfer, registeredEpoch, ownedBy, recordProtocolError, recordSlotError,
    traceSlot, publish, clearClaimToken, lift_bind, act_bind, pure_eq, done_bind]
  repeat' first
    | exact trivial | apply mild_ite | apply mild_act | apply Mild.bind | intro _ | split

theorem rollbackTransfer_mild (lax : pool.strict = false) (link : Link) (i : Nat)
    (message : Message) : Mild (rollbackTransfer pool link i message) := by
  simp only [rollbackTransfer, rollbackClaimed, rollbackMatches, protectSlot, lax, if_true, publish,
    clearClaimToken, lift_bind, act_bind, pure_eq, done_bind]
  repeat' first
    | exact trivial | apply mild_ite | apply mild_act | apply Mild.bind | intro _

theorem ringScan_mild {r : Nat} {message : Message} {depth : Nat} (left position : Nat) :
    Mild (ringScan r message depth left position) := by
  induction left generalizing position with
  | zero => trivial
  | succ left ih => exact mild_act trivial fun _ => mild_ite trivial (ih _)

theorem ringPush_mild (r : Nat) (message : Message) : Mild (ringPush r message) := by
  simp only [ringPush, lift_bind]
  refine mild_act trivial fun depth => mild_ite trivial ?_
  refine mild_act trivial fun producer => mild_act trivial fun consumer => mild_ite trivial ?_
  refine (ringScan_mild _ _).bind fun pending => mild_ite trivial ?_
  exact mild_act trivial fun _ => mild_act trivial fun _ => trivial

theorem transportSend_mild (t : Transport) (message : Message) : Mild (transportSend t message) := by
  cases t with
  | eventfd r =>
      simp only [transportSend, lift_bind]
      refine (ringPush_mild r message).bind fun status => mild_ite trivial ?_
      exact mild_act trivial fun _ => trivial
  | polling r timeout => exact ringPush_mild r message
  | external => exact mild_act trivial fun _ => trivial

theorem sendPrepared_mild (lax : pool.strict = false) (link : Link) (v : View) (message : Message) :
    Mild (sendPrepared pool link v message) := by
  have traced {f : Unit → Prog (Status × Option View)} (rest : ∀ b, Mild (f b)) :
      Mild (traceExternalEvent pool message.handle message.transferSequence link.localComponent
        .error >>= f) :=
    mild_act trivial fun _ => mild_act trivial rest
  unfold sendPrepared
  refine (transportSend_mild link.transport message).bind fun status => ?_
  refine mild_ite (traced fun _ => trivial) (mild_ite ?_ trivial)
  refine (rollbackTransfer_mild lax link v.slotId message).bind fun undone => ?_
  exact mild_ite (traced fun _ => trivial) trivial

end Mild

/-! ## The outcomes -/

/-- The slot is as it was, up to what is saved for recovery and the fields of the last transfer. -/
structure SlotCore.SameAs (c c' : SlotCore) : Prop where
  state : c'.state = c.state
  ownerId : c'.ownerId = c.ownerId
  ownerEpoch : c'.ownerEpoch = c.ownerEpoch
  nextOwnerId : c'.nextOwnerId = c.nextOwnerId
  generation : c'.generation = c.generation
  region : c'.region = c.region
  identity : c'.identity = c.identity
  hopCount : c'.hopCount = c.hopCount
  hopLimit : c'.hopLimit = c.hopLimit
  visited : c'.visited = c.visited
  transferSequence : c'.transferSequence = c.transferSequence
  deadlineNs : c'.deadlineNs = c.deadlineNs
  claimToken : c'.claimToken = c.claimToken
  access : c'.access = c.access
  payload : c'.payload = c.payload

theorem SlotCore.SameAs.refl (c : SlotCore) : c.SameAs c :=
  ⟨rfl, rfl, rfl, rfl, rfl, rfl, rfl, rfl, rfl, rfl, rfl, rfl, rfl, rfl, rfl⟩

/-- The slot is on its way to the remote component and the buffer is gone. -/
structure Delivered (link : Link) (v : View) (status : Status) (buffer : Option View) (m' : Mem) :
    Prop where
  status : status = .ok ∨ status = .transportPublished
  buffer : buffer = none
  state : (m'.core v.slotId).state = .transfer
  next : (m'.core v.slotId).nextOwnerId = link.remoteComponent
  token : (m'.core v.slotId).claimToken = 0

/-- The buffer is still valid and its slot as before. -/
structure KeptBack (v : View) (m : Mem) (status : Status) (buffer : Option View) (m' : Mem) :
    Prop where
  status : status ≠ .ok ∧ status ≠ .transportPublished
  buffer : buffer = some v
  valid : Valid m' v
  state : (m'.core v.slotId).state = .owned
  same : (m.core v.slotId).SameAs (m'.core v.slotId)

/-- The platform refused the rollback access to the slot, which keeps the rollback's claim. -/
structure LeftStuck (pool : Pool) (link : Link) (v : View) (m : Mem) (status : Status)
    (buffer : Option View) (m' : Mem) : Prop where
  refused : status ≠ .ok ∧
    Answered v.slotId true status (send pool link (some v)) m (status, buffer) m'
  strict : pool.strict = true
  buffer : buffer = none
  state : (m'.core v.slotId).state = .claiming
  token : (m'.core v.slotId).claimToken =
    claimTokenMake .rollback link.localComponent link.localEpoch

section Outcomes

variable {pool : Pool} {good : Env → Prop} {link : Link} {v : View} {m m' : Mem} {status : Status}
  {buffer : Option View}

theorem KeptBack.refl (valid : Valid m v) (bad : status ≠ .ok ∧ status ≠ .transportPublished) :
    KeptBack v m status (some v) m :=
  ⟨bad, rfl, valid, valid.state, .refl _⟩

/-- A buffer stays valid while its slot and the lifecycles do. -/
theorem SlotCore.SameAs.valid (same : (m.core v.slotId).SameAs (m'.core v.slotId))
    (lifecycle : ∀ k, (m'.components k).lifecycle = (m.components k).lifecycle)
    (valid : Valid m v) : Valid m' v := by
  have epoch : m'.epoch v.owner = m.epoch v.owner := by
    rw [Mem.epoch, Mem.epoch, lifecycle]
  exact ⟨same.generation.trans valid.generation, same.state.trans valid.state,
    same.ownerId.trans valid.owner, same.ownerEpoch.trans valid.ownerEpoch,
    epoch.trans valid.current⟩

/-- A refused status hands nothing over. -/
theorem not_handedOver (kept : handedOver status = false) :
    status ≠ .ok ∧ status ≠ .transportPublished := by
  simpa [handedOver] using kept

/-- The rollback restores the slot that was prepared. -/
theorem rolledBack_same {c : SlotCore} {next linkId : Nat} {closed opened : Bool}
    (small : c.transferSequence < u32) (owned : c.state = .owned) (token : c.claimToken = 0)
    (unsent : c.nextOwnerId = invalidComponentId) (access : opened = c.access) :
    c.SameAs { ({ c.prepared next linkId with access := closed } : SlotCore).rolledBack with
      access := opened } where
  state := owned.symm
  ownerId := rfl
  ownerEpoch := rfl
  nextOwnerId := unsent.symm
  generation := rfl
  region := rfl
  identity := rfl
  hopCount := rfl
  hopLimit := rfl
  visited := rfl
  transferSequence := sub32_undo small
  deadlineNs := rfl
  claimToken := token.symm
  access := access
  payload := rfl

/-- How the delivery of a prepared transfer ends. -/
theorem sendPrepared_ends {c : SlotCore} {message : Message} {closed : Bool}
    (inside : v.slotId < pool.slotCount) (well : SlotWell pool c) (valid : Owns m c v)
    (sequenced : Sequenced c) (opened : pool.strict = true → c.access = true)
    (untouched : pool.strict = false → closed = c.access) (mine : v.owner = link.localComponent)
    (prepared : m.core v.slotId =
      { c.prepared link.remoteComponent link.linkId with access := closed })
    (handle : message.handle = v.handle)
    (sequence : message.transferSequence = (c.transferSequence + 1) % u32)
    (run : Completes (sendPrepared pool link v message) m (status, buffer) m') :
    Delivered link v status buffer m' ∨
    ((status ≠ .ok ∧ status ≠ .transportPublished) ∧ buffer = some v ∧
      c.SameAs (m'.core v.slotId) ∧
      ∀ k, (m'.components k).lifecycle = (m.components k).lifecycle) ∨
    ((status ≠ .ok ∧ Answered v.slotId true status (sendPrepared pool link v message) m
        (status, buffer) m') ∧ pool.strict = true ∧ buffer = none ∧
      (m'.core v.slotId).state = .claiming ∧ (m'.core v.slotId).claimToken =
        claimTokenMake .rollback link.localComponent link.localEpoch) := by
  have owned : c.state = .owned := valid.state
  have kept := well.2.2
  simp only [owned] at kept
  have lax : pool.strict = false → (m'.core v.slotId).access = c.access := by
    intro lax
    have same : m'.access = m.access := (sendPrepared_mild lax link v message).access run
    have shut : (m.core v.slotId).access = closed := by rw [prepared]
    exact (congrFun same v.slotId).trans (shut.trans (untouched lax))
  unfold sendPrepared at run ⊢
  obtain ⟨sent, a, first, rest⟩ := run.bind
  have aside := first.sound ((transportSend_aside link.transport message).runs pool m).wp
  have there := (aside.cores v.slotId).trans prepared
  -- the descriptor is out
  have out {b : Mem} (same : ∀ j, b.core j = a.core j) {status : Status}
      (known : status = .ok ∨ status = .transportPublished) : Delivered link v status none b := by
    have core := (same v.slotId).trans there
    constructor
    · exact known
    · rfl
    all_goals rw [core]; rfl
  by_cases published : sent = .transportPublished
  · rw [if_pos published] at rest
    obtain ⟨_, b, traced, last⟩ := rest.bind
    have more := traced.sound ((traceExternalEvent_aside link.transport.Uses _ _ _ .error
      ⟨nofun, nofun⟩).runs pool a).wp
    cases last
    exact .inl (out more.cores (.inr published))
  rw [if_neg published] at rest
  by_cases fine : sent = .ok
  · rw [if_neg (not_not_intro fine)] at rest
    cases rest
    exact .inl (out (fun _ => rfl) (.inl rfl))
  rw [if_pos fine] at rest
  obtain ⟨undone, b, rolled, last⟩ := rest.bind
  have blames : Blames a v.slotId (rollbackTransfer pool link v.slotId message) _
      (a.core v.slotId) := rollbackTransfer_blames inside
    (by rw [there]; rfl) (by rw [there]; rfl) (by rw [there, handle]; exact valid.generation)
    (by rw [there]; exact valid.owner.trans mine) (by rw [there]; rfl)
    (by rw [there, sequence]; rfl)
  obtain ⟨⟨c', focus, ends⟩, asked⟩ := blames a (.refl a v.slotId) undone b rolled
  rcases ends with ⟨rfl, access, open', rfl⟩ | ⟨failed, strict, rfl⟩
  · rw [if_neg (not_not_intro rfl)] at last
    cases last
    refine .inr (.inl ⟨⟨fine, published⟩, rfl, ?_, fun k => ?_⟩)
    · have core := focus.core
      rw [there] at core
      have again : access = c.access := by
        cases strict : pool.strict with
        | false =>
            rw [← lax strict, core]
        | true => rw [open' strict, opened strict]
      rw [core]
      exact rolledBack_same (sequenced (by rw [owned]; nofun)) owned kept.1 kept.2.2 again
    · exact (focus.lifecycle k).trans (aside.lifecycle k)
  · rw [if_pos failed] at last
    obtain ⟨_, d, traced, last⟩ := last.bind
    have more := traced.sound ((traceExternalEvent_aside link.transport.Uses _ _ _ .error
      ⟨nofun, nofun⟩).runs pool b).wp
    cases last
    refine .inr (.inr ⟨⟨failed, ?_⟩, strict, rfl, ?_, ?_⟩)
    · refine Answered.second first ?_
      rw [if_neg published, if_pos fine]
      refine Answered.first (asked failed) ?_
      rw [if_pos failed]
      exact traced.append (.done _ _)
    · rw [more.cores, focus.core]
    · rw [more.cores, focus.core, there]
      exact congrArg (claimTokenMake .rollback · link.localEpoch) (valid.owner.trans mine)

/-- What a preparation leaves of the payload access in a pool without page protection. -/
theorem prepare_untouched {handle owner next linkId : Nat} {result : Except Status Message}
    (lax : pool.strict = false)
    (run : Completes (bufferPrepareTransferInternal pool handle owner next linkId) m result m')
    (i : Nat) : (m'.core i).access = (m.core i).access :=
  congrFun ((prepare_mild lax handle owner next linkId).access run) i

/-- The three outcomes, one of which every send of a valid buffer has. -/
theorem send_ends (unspoken : Unspoken good) (placed : ViewWell pool v) (well : PoolWell pool m)
    (sequenced : Sequenced (m.core v.slotId))
    (opened : pool.strict = true → (m.core v.slotId).access = true) (valid : Valid m v)
    (run : CompletesIn good (send pool link (some v)) m (status, buffer) m') :
    Delivered link v status buffer m' ∨ KeptBack v m status buffer m' ∨
      LeftStuck pool link v m status buffer m' := by
  unfold send at run
  obtain ⟨owned, m₁, first, going⟩ := run.bind
  obtain ⟨rfl, known⟩ := first.completes.sound (bufferOwned_alone pool m v).wp
  obtain rfl : owned = true := known.mpr valid
  obtain ⟨current, m₂, second, checked⟩ := going.bind
  obtain ⟨rfl, -⟩ := second.completes.sound (epochCurrent_alone pool _ _ _).wp
  by_cases stale : current = false ∨ v.ownerEpoch ≠ link.localEpoch
  · rw [if_pos stale] at checked
    cases checked
    exact .inr (.inl (.refl valid ⟨nofun, nofun⟩))
  rw [if_neg stale] at checked
  by_cases other : v.owner ≠ link.localComponent
  · rw [if_pos other] at checked
    cases checked
    exact .inr (.inl (.refl valid ⟨nofun, nofun⟩))
  rw [if_neg other] at checked
  obtain ⟨prepared, a, third, rest⟩ := checked.bind
  have slot := placed.slot
  have focused : Focused good pool m₂ (handleSlotId v.handle)
      (bufferPrepareTransferInternal pool v.handle link.localComponent link.remoteComponent
        link.linkId) _ _ _ := prepare_focused fun inside => well _ inside
  obtain ⟨c', log, focus, ends⟩ := third.sound (focused m₂ (.refl m₂ _))
  rw [← slot] at focus ends
  rcases ends with ⟨status', rfl, failed, -, same⟩ | sent
  · cases rest
    have kept := not_handedOver
      (third.sound (prepare_yields unspoken v.handle link.localComponent link.remoteComponent
        link.linkId m₂) status rfl)
    have as : (m₂.core v.slotId).SameAs (m'.core v.slotId) := by
      rw [focus.core]
      rcases same with rfl | ⟨-, -, -, rfl⟩
      · exact .refl _
      · exact ⟨rfl, rfl, rfl, rfl, rfl, rfl, rfl, rfl, rfl, rfl, rfl, rfl, rfl, rfl, rfl⟩
    exact .inr (.inl ⟨kept, rfl, as.valid focus.lifecycle valid,
      as.state.trans valid.state, as⟩)
  · obtain ⟨inside, -, -, -, -, -, -, ⟨closed, hidden, rfl⟩, -, rfl⟩ := sent
    have mine : v.owner = link.localComponent := not_not.mp other
    have untouched : pool.strict = false → closed = (m₂.core v.slotId).access := by
      intro lax
      have same := prepare_untouched lax third.completes v.slotId
      rwa [focus.core] at same
    have owns : Owns a (m₂.core v.slotId) v := by
      have epoch : a.epoch v.owner = m₂.epoch v.owner := by
        rw [Mem.epoch, Mem.epoch, focus.lifecycle]
      exact ⟨valid.generation, valid.state, valid.owner, valid.ownerEpoch, epoch.trans valid.current⟩
    rcases sendPrepared_ends inside (well _ inside) owns sequenced opened untouched mine focus.core
      rfl rfl rest.completes with delivered | ⟨bad, rfl, as, lifecycle⟩ |
        ⟨⟨failed, asked⟩, strict, rfl, state, token⟩
    · exact .inl delivered
    · have alive k := (lifecycle k).trans (focus.lifecycle k)
      exact .inr (.inl ⟨bad, rfl, as.valid alive valid, as.state.trans valid.state, as⟩)
    · refine .inr (.inr ⟨⟨failed, ?_⟩, strict, rfl, state, token⟩)
      unfold send
      refine Answered.second first.completes (Answered.second second.completes ?_)
      rw [if_neg stale, if_neg other]
      exact Answered.second third.completes asked

end Outcomes

/-- Exactly one of three. -/
def OneOf (a b c : Prop) : Prop := (a ∨ b ∨ c) ∧ ¬ (a ∧ b) ∧ ¬ (a ∧ c) ∧ ¬ (b ∧ c)

/-- A send of a valid buffer hands the slot over, or keeps it back as it was, or leaves it to
the rollback whose own protection call failed; it changes no other slot. -/
theorem send_all_or_nothing {pool : Pool} {s : Session} (reached : s.Reached pool anyStep)
    {good : Env → Prop} (unspoken : Unspoken good) {link : Link} {v : View} (known : v ∈ s.views)
    (valid : Valid s.mem v) {status : Status} {buffer : Option View} {m' : Mem}
    (run : CompletesIn good (send pool link (some v)) s.mem (status, buffer) m') :
    OneOf (Delivered link v status buffer m') (KeptBack v s.mem status buffer m')
      (LeftStuck pool link v s.mem status buffer m') ∧
    ∀ j, j ≠ v.slotId → m'.slots j = s.mem.slots j ∧ m'.access j = s.mem.access j ∧
      m'.payload j = s.mem.payload j := by
  have well := reached.well
  have placed : ViewWell pool v := well.views v known
  have opened (strict : pool.strict = true) : (s.mem.core v.slotId).access = true :=
    (reached.opened strict _ placed.inside valid.state).resolve_right valid.not_retired
  refine ⟨⟨?_, ?_, ?_, ?_⟩, fun j other => ?_⟩
  · exact send_ends unspoken placed well.slots (reached.sequenced placed.inside) opened valid run
  · rintro ⟨delivered, kept⟩
    cases delivered.state.symm.trans kept.state
  · rintro ⟨delivered, stuck⟩
    cases delivered.state.symm.trans stuck.state
  · rintro ⟨kept, stuck⟩
    cases kept.state.symm.trans stuck.state
  · have spared := (send_only link placed.slot).spared run.completes
    exact ⟨spared.slots j other, spared.access j other, congrFun spared.payload j⟩

/-- Page protection answers with OK or an error of its own. -/
def ordinary : Env → Prop := fun e => e.protect ≠ .transportPublished

/-- The send of component 1's buffer on a platform that refuses every protection call. -/
def refusedSend : (Status × Option View) × Mem :=
  (send smallPool sendingLink (some allocatedView)).runWith { protect := .platform }
    allocatedSession.mem

theorem send_all_or_nothing_refused :
    refusedSend.1.1 = .platform ∧
      KeptBack allocatedView allocatedSession.mem refusedSend.1.1 refusedSend.1.2 refusedSend.2 := by
  have allowed : ordinary { protect := .platform } := nofun
  have run : CompletesIn ordinary
      (send smallPool sendingLink (some allocatedView)) allocatedSession.mem
      (refusedSend.1.1, refusedSend.1.2) refusedSend.2 := runWith_completesIn allowed _ _
  have known : allocatedView ∈ allocatedSession.views := by decide
  have outcome := (send_all_or_nothing allocated_reached (fun _ safe => safe) known allocated_valid
    run).1.1
  have state : (refusedSend.2.core allocatedView.slotId).state = .owned := by decide
  refine ⟨by decide, ?_⟩
  rcases outcome with delivered | kept | stuck
  · cases state.symm.trans delivered.state
  · exact kept
  · cases state.symm.trans stuck.state

end Zipc
