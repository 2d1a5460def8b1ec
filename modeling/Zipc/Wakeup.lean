import Zipc.Fifo

/-! # Wakeups of the eventfd ring

A send pushes its descriptor and then writes to the eventfd; a receive looks at the ring
and reads the eventfd only when it saw the ring empty. Descriptor and event are separate
channels, and the counter merges several writes into one read. A consumer that waits is
still always woken: it saw the ring empty, so the first descriptor that came later is the
only one without an event, and its send, or the one that repeats it, has yet to write.
-/

namespace Zipc

open Atomic

inductive EventCall where
  | send (message : Message)
  | receive (fuel : Nat)
  deriving Repr, DecidableEq

def EventCall.sends : EventCall → Bool
  | .send _ => true
  | .receive _ => false

/-- The call sends the descriptor `queued` again. -/
def EventCall.repeats (queued : Message) : EventCall → Bool
  | .send message => queued.same message
  | .receive _ => false

inductive EventResult where
  | sent (status : Status)
  | received (result : Option (Except Status Message))

/-- `zipc_platform_transport_receive_begin`, and the commit of what it delivered. -/
def receiveMessage (t : Transport) (fuel : Nat) : Prog (Option (Except Status Message)) := do
  let begun ← receiveBegin t fuel
  match begun with
  | none => pure none
  | some (.error status) => pure (some (.error status))
  | some (.ok (message, token)) => do
      let status ← receiveCommit t token
      pure (some (if status = .ok then .ok message else .error status))

def EventCall.program (r : Nat) : EventCall → Prog EventResult
  | .send message => do
      let status ← transportSend (.eventfd r) message
      pure (.sent status)
  | .receive fuel => do
      let result ← receiveMessage (.eventfd r) fuel
      pure (.received result)

/-- How far a call has come, with the words it has read. -/
inductive EventMode where
  | start
  | sized (depth : Nat)
  | producer (depth p : Nat)
  /-- The ring is full. -/
  | refused
  /-- The search for a pending duplicate, with `left` entries to go. -/
  | scanning (depth p position left : Nat)
  | written (depth p : Nat)
  /-- The push returned OK. -/
  | pushed
  | notified
  | indexed (c : Nat)
  /-- The receive saw an empty ring. -/
  | waiting
  | filled
  deriving Repr, DecidableEq

def eventPermits (r : Nat) (l : EventCall) (m : EventMode) {β : Type} : Act β → Prop
  | .readDepth r' => r' = r ∧ (m = .start ∨ m = .filled ∧ l.sends = false)
  | .loadProducer r' => r' = r ∧ match m with
      | .sized _ => l.sends = true
      | .indexed _ => l.sends = false
      | _ => False
  | .loadConsumer r' => r' = r ∧ match m with
      | .sized _ | .filled => l.sends = false
      | .producer _ _ => l.sends = true
      | _ => False
  | .readEntry r' k => r' = r ∧ match m with
      | .scanning depth _ position left => l.sends = true ∧ 0 < left ∧ k = position % depth
      | .filled => l.sends = false
      | _ => False
  | .writeEntry r' k message => r' = r ∧ match m with
      | .scanning depth p _ left => left = 0 ∧ k = p % depth ∧ l = .send message
      | _ => False
  | .storeProducer r' v => r' = r ∧ match m with
      | .written _ p => v = (p + 1) % u32 ∧ l.sends = true
      | _ => False
  | .storeConsumer r' v => r' = r ∧ m = .filled ∧ v < u32 ∧ l.sends = false
  | .eventWrite r' => r' = r ∧ m = .pushed ∧ l.sends = true
  | .eventRead r' => r' = r ∧ m = .waiting ∧ l.sends = false
  | _ => False

def eventNext (l : EventCall) (m : EventMode) {β : Type} : Act β → β → EventMode
  | .readDepth _, depth => match m with
      | .start => .sized depth
      | _ => m
  | .loadProducer _, p => match m with
      | .sized depth => .producer depth p
      | .indexed c => if c = p then .waiting else .filled
      | _ => m
  | .loadConsumer _, c => match m with
      | .sized _ => .indexed c
      | .producer depth p =>
          if sub32 p c ≥ depth then .refused else .scanning depth p c (sub32 p c)
      | _ => m
  | .readEntry _ _, queued => match m with
      | .scanning depth p position left =>
          if EventCall.repeats queued l then .pushed
          else .scanning depth p ((position + 1) % u32) (left - 1)
      | _ => m
  | .writeEntry _ _ _, _ => match m with
      | .scanning depth p _ _ => .written depth p
      | _ => m
  | .storeProducer _ _, _ => .pushed
  | .eventWrite _, _ => .notified
  | .eventRead _, answer => match answer with
      | .woken => .start
      | .blocked => .waiting
      | .failed => .filled
  | _, _ => m

/-- The modes in which a call can return: a send that returns was refused, or has written
    to the eventfd. -/
def eventEnds (l : EventCall) (m : EventMode) (_ : EventResult) : Prop :=
  l.sends = true → m = .refused ∨ m = .notified ∨ ∃ depth, m = .sized depth ∧ depth < 2

def eventDiscipline (r : Nat) : Discipline Act EventCall EventMode where
  start _ := .start
  permits l m action := eventPermits r l m action
  next l m action answer := eventNext l m action answer

def eventSystem (r : Nat) : System Act EventCall EventMode EventResult :=
  ⟨EventCall.program r, eventDiscipline r⟩

abbrev EventConfig := Config Act Mem EventCall EventMode EventResult

section Discipline

open Program

variable {r : Nat}

@[simp] theorem eventDiscipline_permits {β : Type} (l : EventCall) (m : EventMode)
    (action : Act β) : (eventDiscipline r).permits l m action = eventPermits r l m action := rfl

@[simp] theorem eventDiscipline_next {β : Type} (l : EventCall) (m : EventMode) (action : Act β)
    (answer : β) : (eventDiscipline r).next l m action answer = eventNext l m action answer := rfl

theorem ringScan_searches (message : Message) {depth p : Nat}
    {Q : EventMode → Bool → Prop} (found : Q .pushed true)
    (absent : ∀ position, Q (.scanning depth p position 0) false) (left : Nat) :
    ∀ position, (ringScan r message depth left position).Follows (eventDiscipline r)
      (.send message) Q (.scanning depth p position left) := by
  induction left with
  | zero =>
      intro position
      exact absent position
  | succ left ih =>
      intro position
      simp only [ringScan, lift_bind, follows_act]
      refine ⟨⟨rfl, rfl, Nat.succ_pos left, rfl⟩, fun queued => ?_⟩
      simp only [eventDiscipline_next, eventNext, EventCall.repeats, Nat.add_sub_cancel]
      split
      · exact found
      · exact ih _

theorem send_disciplined (message : Message) :
    (EventCall.program r (.send message)).Follows (eventDiscipline r) (.send message)
      (eventEnds (.send message)) .start := by
  simp only [EventCall.program, transportSend, ringPush, lift_bind, act_bind, follows_act]
  refine ⟨⟨rfl, .inl rfl⟩, fun depth => ?_⟩
  simp only [eventDiscipline_next, eventNext]
  split
  · rename_i small
    exact fun _ => .inr (.inr ⟨depth, rfl, small⟩)
  simp only [act_bind, follows_act]
  refine ⟨⟨rfl, rfl⟩, fun p => ⟨⟨rfl, rfl⟩, fun c => ?_⟩⟩
  simp only [eventDiscipline_next, eventNext]
  split
  · exact fun _ => .inl rfl
  · rw [follows_bind, follows_bind, follows_bind]
    refine ringScan_searches message ?_ (fun position => ?_) _ _
    · exact ⟨⟨rfl, rfl, rfl⟩, fun _ => fun _ => .inr (.inl rfl)⟩
    · refine ⟨⟨rfl, rfl, rfl, rfl⟩, fun _ => ⟨⟨rfl, rfl, rfl⟩, fun _ => ?_⟩⟩
      exact ⟨⟨rfl, rfl, rfl⟩, fun _ => fun _ => .inr (.inl rfl)⟩

theorem eventWait_follows {l : EventCall} (receives : l.sends = false)
    {Q : EventMode → Option Bool → Prop} (woken : Q .start (some true))
    (failed : Q .filled (some false)) (waits : Q .waiting none) (fuel : Nat) :
    (eventWait r fuel).Follows (eventDiscipline r) l Q .waiting := by
  induction fuel with
  | zero => exact waits
  | succ fuel ih =>
      simp only [eventWait, lift_bind, follows_act]
      refine ⟨⟨rfl, rfl, receives⟩, fun outcome => ?_⟩
      cases outcome with
      | woken => exact woken
      | failed => exact failed
      | blocked => exact ih

theorem receiveBegin_follows {l : EventCall} (receives : l.sends = false)
    {Q : EventMode → Option (Except Status (Message × ReceiveToken)) → Prop}
    (quits : ∀ m, Q m none) (fails : ∀ m status, Q m (some (.error status)))
    (delivers : ∀ message position, Q .filled (some (.ok (message, ⟨some position⟩)))) (fuel : Nat) :
    (receiveBegin (.eventfd r) fuel).Follows (eventDiscipline r) l Q .start := by
  induction fuel with
  | zero => exact quits _
  | succ fuel ih =>
      simp only [receiveBegin, ringPeek, lift_bind, act_bind, follows_act]
      refine ⟨⟨rfl, .inl rfl⟩, fun depth => ?_⟩
      simp only [eventDiscipline_next, eventNext]
      split
      · exact fails _ _
      simp only [act_bind, follows_act]
      refine ⟨⟨rfl, receives⟩, fun c => ⟨⟨rfl, receives⟩, fun p => ?_⟩⟩
      simp only [eventDiscipline_next, eventNext]
      split
      · -- the ring is empty: wait, and look again after a wakeup
        simp only [pure_eq, done_bind]
        refine (follows_bind _ _ _ _).mpr (eventWait_follows receives ih ?_ ?_ fuel)
        · exact fails _ _
        · exact quits _
      · exact ⟨⟨rfl, receives⟩, fun message => delivers message c⟩

theorem receive_disciplined (fuel : Nat) :
    (EventCall.program r (.receive fuel)).Follows (eventDiscipline r) (.receive fuel)
      (eventEnds (.receive fuel)) .start := by
  simp only [EventCall.program, receiveMessage]
  rw [follows_bind, follows_bind]
  refine receiveBegin_follows rfl (fun _ => nofun) (fun _ _ => nofun) (fun message position => ?_) fuel
  simp only [receiveCommit, Transport.ring, ringCommit, lift_bind, act_bind, follows_act]
  refine ⟨⟨rfl, .inr ⟨rfl, rfl⟩⟩, fun depth => ?_⟩
  simp only [eventDiscipline_next, eventNext]
  split
  · exact nofun
  simp only [act_bind, follows_act]
  refine ⟨⟨rfl, rfl⟩, fun c => ?_⟩
  simp only [eventDiscipline_next, eventNext]
  split
  · exact nofun
  · exact ⟨⟨rfl, rfl, Nat.mod_lt _ (by decide), rfl⟩, fun _ => nofun⟩

theorem eventSystem_disciplined : (eventSystem r).Disciplined eventEnds := by
  intro l
  cases l with
  | send message => exact send_disciplined message
  | receive fuel => exact receive_disciplined fuel

end Discipline

/-! ## The environment of a ring -/

namespace EventConfig

/-- The send that started last. -/
def LastSend (c : EventConfig) (t : Nat) : Prop :=
  (∃ x, c.tasks t = some x ∧ x.label.sends = true) ∧
    ∀ u x, c.tasks u = some x → x.label.sends = true → u ≤ t

/-- Task `t` sends `message`, has pushed it, and has not yet written to the eventfd. -/
def Pushed (r : Nat) (c : EventConfig) (t : Nat) (message : Message) : Prop :=
  ∃ mode next, c.tasks t = some ⟨.send message, mode, .act (.eventWrite r) next⟩

/-- The ring holds no descriptor. -/
def RingEmpty (r : Nat) (c : EventConfig) : Prop :=
  (c.shared.rings r).producer = (c.shared.rings r).consumer

end EventConfig

/-- One producer and one consumer, with sends numbered in the order in which they start.
    Eventfd writes succeed. A send may die between its push and its write; the next one
    then repeats its descriptor. -/
def oneEventPair (r : Nat) (c : EventConfig) : Move Env EventCall → Prop
  | .start t (.send message) =>
      (∀ u x, c.tasks u = some x → x.label.sends = true → u < t) ∧
      ∀ u x, c.LastSend u → c.tasks u = some x → x.Running → c.Pushed r u message
  | .start _ (.receive _) => ∀ u x, c.tasks u = some x → x.label.sends = false → ¬x.Running
  | .act t e => ∀ x, c.tasks t = some x → x.label.sends = true →
      c.LastSend t ∧ e.eventOk = true

/-- A consumer that is blocked in the read of the eventfd has nothing to read, or is
    going to be woken. -/
def Wakes (r : Nat) (c : EventConfig) : Prop :=
  ∀ t l mode next, c.tasks t = some ⟨l, mode, .act (.eventRead r) next⟩ →
    c.RingEmpty r ∨ 0 < c.shared.events r ∨
    -- a producer is between its push and its write
    (∃ u message, c.LastSend u ∧ c.Pushed r u message) ∨
    -- a producer died there, and the one that repeats its descriptor is still at it
    (∃ u v message x, u < v ∧ c.Pushed r u message ∧ c.LastSend v ∧ c.tasks v = some x ∧
      x.label = .send message ∧ x.Running)

/-! ## The invariant -/

section Invariant

variable {r depth : Nat}

/-- What a send knows about the ring from the words it has read. -/
def SendFits (depth : Nat) (ring : Ring) (l : EventCall) : EventMode → Prop
  | .sized d => d = depth
  | .producer d p | .scanning d p _ _ => d = depth ∧ p = ring.producer
  | .written d p => d = depth ∧ p = ring.producer ∧ EventCall.repeats (ring.entries (p % d)) l = true
  | _ => True

/-- The modes of a send that repeats the only descriptor of the ring. -/
def Repeating (ring : Ring) : EventMode → Prop
  | .start | .sized _ | .producer _ _ | .pushed => True
  | .scanning _ _ position left => position = ring.consumer ∧ left = 1
  | _ => False

/-- The only descriptor of the ring came without an event: its send has yet to write,
    and so has every send that repeats it. -/
structure Unnotified (r depth : Nat) (c : EventConfig) : Prop where
  single : (c.shared.rings r).producer = ((c.shared.rings r).consumer + 1) % u32
  repeating : ∃ u x l, c.tasks u = some x ∧ x.label = l ∧ l.sends = true ∧ x.mode = .pushed ∧
    EventCall.repeats ((c.shared.rings r).entries ((c.shared.rings r).consumer % depth)) l = true ∧
    ∀ v y, u ≤ v → c.tasks v = some y → y.label.sends = true →
      y.label = l ∧ Repeating (c.shared.rings r) y.mode

structure WakeInv (r depth : Nat) (c : EventConfig) : Prop where
  depth_eq : (c.shared.rings r).depth = depth
  consumer_lt : (c.shared.rings r).consumer < u32
  /-- Some send started last. -/
  last : ∀ t x, c.tasks t = some x → x.label.sends = true → ∃ u, c.LastSend u
  sending : ∀ t x, c.LastSend t → c.tasks t = some x →
    SendFits depth (c.shared.rings r) x.label x.mode
  single : ∀ t u x y, c.tasks t = some x → c.tasks u = some y → x.label.sends = false →
    y.label.sends = false → x.Running → y.Running → t = u
  indexed : ∀ t x i, c.tasks t = some x → x.Running → x.mode = .indexed i →
    x.label.sends = false → i = (c.shared.rings r).consumer
  awaits : ∀ t x, c.tasks t = some x → x.Running → x.mode = .waiting → x.label.sends = false →
    c.RingEmpty r ∨ 0 < c.shared.events r ∨ Unnotified r depth c

theorem Message.same_self (message : Message) : message.same message = true := by
  simp [Message.same]

section Steps

variable {c : EventConfig} {t : Nat} {l : EventCall} {mode : EventMode} {β : Type}
  {action : Act β} {next : β → Prog EventResult} {e : Env}

theorem EventConfig.LastSend.unique {u : Nat} (first : c.LastSend t) (second : c.LastSend u) :
    t = u := by
  obtain ⟨⟨x, foundX, sendsX⟩, lastX⟩ := first
  obtain ⟨⟨y, foundY, sendsY⟩, lastY⟩ := second
  exact Nat.le_antisymm (lastY t x foundX sendsX) (lastX u y foundY sendsY)

/-- An action starts no send. -/
theorem lastSend_perform (task : c.tasks t = some ⟨l, mode, .act action next⟩) (u : Nat) :
    EventConfig.LastSend ((eventSystem r).perform c t l mode action next e) u ↔ c.LastSend u := by
  have labels (v : Nat) (P : EventCall → Prop) :
      (∃ x, ((eventSystem r).perform c t l mode action next e).tasks v = some x ∧ P x.label) ↔
        ∃ x, c.tasks v = some x ∧ P x.label := by
    by_cases same : v = t
    · subst same
      simp [System.perform, task]
    · simp [System.perform, same]
  refine and_congr (labels u (·.sends = true)) ?_
  constructor
  · intro last v x found sends
    obtain ⟨y, foundY, sendsY⟩ := (labels v (·.sends = true)).mpr ⟨x, found, sends⟩
    exact last v y foundY sendsY
  · intro last v x found sends
    obtain ⟨y, foundY, sendsY⟩ := (labels v (·.sends = true)).mp ⟨x, found, sends⟩
    exact last v y foundY sendsY

/-- What a waiting consumer can rely on. -/
def Covered (r depth : Nat) (c : EventConfig) : Prop :=
  c.RingEmpty r ∨ 0 < c.shared.events r ∨ Unnotified r depth c

/-- An action of the producer keeps the invariant when it leaves depth and consumer index
    alone, its own mode fits, and a waiting consumer is still covered. -/
theorem WakeInv.sendStep (inv : WakeInv r depth c) (last : c.LastSend t)
    (task : c.tasks t = some ⟨l, mode, .act action next⟩) (sends : l.sends = true)
    (depth_eq : ((action.exec e c.shared).2.rings r).depth = (c.shared.rings r).depth)
    (consumer_eq : ((action.exec e c.shared).2.rings r).consumer = (c.shared.rings r).consumer)
    (own : SendFits depth ((action.exec e c.shared).2.rings r) l
      (eventNext l mode action (action.exec e c.shared).1))
    (covered : Covered r depth c →
      Covered r depth ((eventSystem r).perform c t l mode action next e)) :
    WakeInv r depth ((eventSystem r).perform c t l mode action next e) where
  depth_eq := depth_eq.trans inv.depth_eq
  consumer_lt := consumer_eq.symm ▸ inv.consumer_lt
  last := fun _ _ _ _ => ⟨t, (lastSend_perform task t).mpr last⟩
  sending := by
    intro u x lastU found
    have same := ((lastSend_perform task u).mp lastU).unique last
    subst same
    rcases update_eq_some.mp found with ⟨_, rfl⟩ | ⟨other, _⟩
    · exact own
    · exact absurd rfl other
  single := by
    intro u v x y foundX foundY receivesX receivesY runX runY
    rcases update_eq_some.mp foundX with ⟨rfl, rfl⟩ | ⟨_, oldX⟩
    · rw [sends] at receivesX
      cases receivesX
    rcases update_eq_some.mp foundY with ⟨rfl, rfl⟩ | ⟨_, oldY⟩
    · rw [sends] at receivesY
      cases receivesY
    exact inv.single u v x y oldX oldY receivesX receivesY runX runY
  indexed := by
    intro u x i found runs mode receives
    rcases update_eq_some.mp found with ⟨rfl, rfl⟩ | ⟨_, old⟩
    · rw [sends] at receives
      cases receives
    · exact (inv.indexed u x i old runs mode receives).trans consumer_eq.symm
  awaits := by
    intro u x found runs mode receives
    rcases update_eq_some.mp found with ⟨rfl, rfl⟩ | ⟨_, old⟩
    · rw [sends] at receives
      cases receives
    · exact covered (inv.awaits u x old runs mode receives)

/-- An action of the consumer keeps the invariant when it leaves the producer's part of
    the ring alone and what its own mode says is true. -/
theorem WakeInv.receiveStep (inv : WakeInv r depth c)
    (task : c.tasks t = some ⟨l, mode, .act action next⟩) (receives : l.sends = false)
    (depth_eq : ((action.exec e c.shared).2.rings r).depth = (c.shared.rings r).depth)
    (producer_eq : ((action.exec e c.shared).2.rings r).producer = (c.shared.rings r).producer)
    (entries_eq : ((action.exec e c.shared).2.rings r).entries = (c.shared.rings r).entries)
    (consumer_lt : ((action.exec e c.shared).2.rings r).consumer < u32)
    (index : ∀ i, eventNext l mode action (action.exec e c.shared).1 = .indexed i →
      i = ((action.exec e c.shared).2.rings r).consumer)
    (covered : eventNext l mode action (action.exec e c.shared).1 = .waiting →
      Covered r depth ((eventSystem r).perform c t l mode action next e)) :
    WakeInv r depth ((eventSystem r).perform c t l mode action next e) := by
  have active : (⟨l, mode, .act action next⟩ : Task Act EventCall EventMode EventResult).Running := by
    intro a h
    cases h
  -- the consumer runs alone on its side
  have alone {u : Nat} {x : Task Act EventCall EventMode EventResult} (other : u ≠ t)
      (found : c.tasks u = some x) (also : x.label.sends = false) : ¬x.Running := fun runs =>
    other (inv.single u t x _ found task also receives runs active)
  constructor
  case depth_eq => exact depth_eq.trans inv.depth_eq
  case consumer_lt => exact consumer_lt
  case last =>
    intro u x found sends
    rcases update_eq_some.mp found with ⟨rfl, rfl⟩ | ⟨_, old⟩
    · rw [receives] at sends
      cases sends
    · obtain ⟨v, last⟩ := inv.last u x old sends
      exact ⟨v, (lastSend_perform task v).mpr last⟩
  case sending =>
    intro u x last found
    rcases update_eq_some.mp found with ⟨rfl, rfl⟩ | ⟨_, old⟩
    · obtain ⟨⟨y, foundY, sends⟩, _⟩ := (lastSend_perform task u).mp last
      rw [task, Option.some.injEq] at foundY
      subst foundY
      rw [receives] at sends
      cases sends
    · have fits := inv.sending u x ((lastSend_perform task u).mp last) old
      simp only [System.perform, exec_eq]
      cases held : x.mode <;> simp only [held, SendFits, producer_eq, entries_eq] at fits ⊢ <;>
        exact fits
  case single =>
    intro u v x y foundX foundY receivesX receivesY runX runY
    rcases update_eq_some.mp foundX with ⟨rfl, rfl⟩ | ⟨otherX, oldX⟩
    · rcases update_eq_some.mp foundY with ⟨rfl, rfl⟩ | ⟨otherY, oldY⟩
      · rfl
      · exact absurd runY (alone otherY oldY receivesY)
    · exact absurd runX (alone otherX oldX receivesX)
  case indexed =>
    intro u x i found runs mode also
    rcases update_eq_some.mp found with ⟨rfl, rfl⟩ | ⟨other, old⟩
    · exact index i mode
    · exact absurd runs (alone other old also)
  case awaits =>
    intro u x found runs mode also
    rcases update_eq_some.mp found with ⟨rfl, rfl⟩ | ⟨other, old⟩
    · exact covered mode
    · exact absurd runs (alone other old also)

/-- While a descriptor has no event, the last send repeats it. -/
theorem Unnotified.last_repeats (missing : Unnotified r depth c) (last : c.LastSend t)
    {x : Task Act EventCall EventMode EventResult} (task : c.tasks t = some x) :
    Repeating (c.shared.rings r) x.mode ∧ EventCall.repeats
      ((c.shared.rings r).entries ((c.shared.rings r).consumer % depth)) x.label = true := by
  obtain ⟨⟨y, found, sends⟩, later⟩ := last
  rw [task, Option.some.injEq] at found
  subst found
  obtain ⟨u, z, l, foundZ, labelZ, sendsZ, _, queued, repeats⟩ := missing.repeating
  have before := later u z foundZ (labelZ ▸ sendsZ)
  obtain ⟨label, repeating⟩ := repeats t x before task sends
  exact ⟨repeating, label ▸ queued⟩

/-- A step of the repeating send that leaves the ring alone. -/
theorem Unnotified.keep (missing : Unnotified r depth c)
    (task : c.tasks t = some ⟨l, mode, .act action next⟩)
    (ring_eq : (action.exec e c.shared).2.rings r = c.shared.rings r) (unsent : mode ≠ .pushed)
    (step : Repeating (c.shared.rings r) mode → Repeating (c.shared.rings r)
      (eventNext l mode action (action.exec e c.shared).1)) :
    Unnotified r depth ((eventSystem r).perform c t l mode action next e) := by
  have ring : ((eventSystem r).perform c t l mode action next e).shared.rings r =
      c.shared.rings r := ring_eq
  obtain ⟨u, x, l', found, label, sends, pushed, queued, repeats⟩ := missing.repeating
  have other : u ≠ t := by
    rintro rfl
    rw [task, Option.some.injEq] at found
    subst found
    exact unsent pushed
  refine ⟨by rw [ring]; exact missing.single, u, x, l', ?_, label, sends, pushed, ?_, ?_⟩
  · exact update_eq_some.mpr (.inr ⟨other, found⟩)
  · rw [ring]
    exact queued
  · intro v y later foundY sendsY
    rw [ring]
    rcases update_eq_some.mp foundY with ⟨rfl, rfl⟩ | ⟨_, old⟩
    · obtain ⟨same, repeating⟩ := repeats v _ later task sendsY
      exact ⟨same, step repeating⟩
    · exact repeats v y later old sendsY

/-- A load or a search step of the producer. -/
theorem WakeInv.sendLooks (inv : WakeInv r depth c) (last : c.LastSend t)
    (task : c.tasks t = some ⟨l, mode, .act action next⟩) (sends : l.sends = true)
    (same : (action.exec e c.shared).2 = c.shared) (unsent : mode ≠ .pushed)
    (own : SendFits depth (c.shared.rings r) l (eventNext l mode action (action.exec e c.shared).1))
    (step : Unnotified r depth c → Repeating (c.shared.rings r) mode →
      Repeating (c.shared.rings r) (eventNext l mode action (action.exec e c.shared).1)) :
    WakeInv r depth ((eventSystem r).perform c t l mode action next e) := by
  refine inv.sendStep last task sends ?_ ?_ ?_ ?_
  · rw [same]
  · rw [same]
  · rw [same]
    exact own
  · rintro (empty | event | missing)
    · refine .inl ?_
      simp only [EventConfig.RingEmpty, System.perform, exec_eq, same]
      exact empty
    · refine .inr (.inl ?_)
      simp only [System.perform, exec_eq, same]
      exact event
    · exact .inr (.inr (missing.keep task (by rw [same]) unsent (step missing)))

theorem WakeInv.writeEntry {d p position k : Nat} {message : Message}
    {next : Unit → Prog EventResult} (inv : WakeInv r depth c) (last : c.LastSend t)
    (task : c.tasks t = some ⟨.send message, .scanning d p position 0,
      .act (.writeEntry r k message) next⟩) (place : k = p % d) :
    WakeInv r depth ((eventSystem r).perform c t (.send message) (.scanning d p position 0)
      (.writeEntry r k message) next e) := by
  subst place
  obtain ⟨rfl, rfl⟩ := inv.sending t _ last task
  refine inv.sendStep last task rfl ?_ ?_ ?_ ?_
  · simp [Act.exec, Mem.setRing]
  · simp [Act.exec, Mem.setRing]
  · simp [Act.exec, Mem.setRing, eventNext, SendFits, EventCall.repeats, Message.same_self]
  · rintro (empty | event | missing)
    · refine .inl ?_
      simpa [EventConfig.RingEmpty, System.perform, Act.exec, Mem.setRing] using empty
    · exact .inr (.inl event)
    · -- the search would have found the descriptor
      obtain ⟨⟨_, none⟩, _⟩ := missing.last_repeats last task
      cases none

theorem WakeInv.storeProducer {d p v : Nat} {next : Unit → Prog EventResult}
    (inv : WakeInv r depth c) (last : c.LastSend t)
    (task : c.tasks t = some ⟨l, .written d p, .act (.storeProducer r v) next⟩)
    (sends : l.sends = true) (value : v = (p + 1) % u32) :
    WakeInv r depth ((eventSystem r).perform c t l (.written d p) (.storeProducer r v) next e) := by
  subst value
  obtain ⟨rfl, rfl, written⟩ := inv.sending t _ last task
  refine inv.sendStep last task sends ?_ ?_ trivial ?_
  · simp [Act.exec, Mem.setRing]
  · simp [Act.exec, Mem.setRing]
  · rintro (empty | event | missing)
    · -- the first descriptor in a ring that a consumer saw empty
      refine .inr (.inr ⟨?_, t, _, l, Function.update_self _ _ _, rfl, sends, rfl, ?_, ?_⟩)
      · simp only [System.perform, exec_eq, Act.exec, Mem.setRing, Function.update_self]
        rw [empty]
      · simp only [System.perform, exec_eq, Act.exec, Mem.setRing, Function.update_self]
        rw [← empty]
        exact written
      · intro u y later found sendsY
        rcases update_eq_some.mp found with ⟨rfl, rfl⟩ | ⟨other, old⟩
        · exact ⟨rfl, trivial⟩
        · exact absurd (Nat.le_antisymm (last.2 u y old sendsY) later) other
    · exact .inr (.inl event)
    · exact (missing.last_repeats last task).1.elim

theorem WakeInv.eventWrite {next : Bool → Prog EventResult} (inv : WakeInv r depth c)
    (last : c.LastSend t) (task : c.tasks t = some ⟨l, mode, .act (.eventWrite r) next⟩)
    (sends : l.sends = true) (works : e.eventOk = true) :
    WakeInv r depth ((eventSystem r).perform c t l mode (.eventWrite r) next e) := by
  refine inv.sendStep last task sends ?_ ?_ trivial ?_
  · simp [Act.exec, works]
  · simp [Act.exec, works]
  · intro _
    refine .inr (.inl ?_)
    simp [System.perform, Act.exec, works]

/-- One action of the producer. -/
theorem WakeInv.actSend (large : 2 ≤ depth) (inv : WakeInv r depth c) (last : c.LastSend t)
    (task : c.tasks t = some ⟨l, mode, .act action next⟩) (sends : l.sends = true)
    (permits : eventPermits r l mode action) (works : e.eventOk = true) :
    WakeInv r depth ((eventSystem r).perform c t l mode action next e) := by
  have fits := inv.sending t _ last task
  cases action with
  | readDepth r' =>
      obtain ⟨rfl, rfl | ⟨_, receives⟩⟩ := permits
      · exact inv.sendLooks last task sends rfl (by simp) inv.depth_eq (fun _ _ => trivial)
      · rw [sends] at receives
        cases receives
  | loadProducer r' =>
      obtain ⟨rfl, permits⟩ := permits
      cases mode with
      | sized d => exact inv.sendLooks last task sends rfl (by simp) ⟨fits, rfl⟩ (fun _ _ => trivial)
      | indexed i =>
          rw [sends] at permits
          cases permits
      | _ => cases permits
  | loadConsumer r' =>
      obtain ⟨rfl, permits⟩ := permits
      cases mode with
      | producer d p =>
          obtain ⟨rfl, rfl⟩ := fits
          refine inv.sendLooks last task sends rfl (by simp) ?_ ?_
          · simp only [eventNext]
            split
            · trivial
            · exact ⟨rfl, rfl⟩
          · intro missing _
            have one : sub32 (c.shared.rings r').producer (c.shared.rings r').consumer = 1 := by
              rw [missing.single]
              have small := inv.consumer_lt
              simp only [sub32, u32] at *
              omega
            simp only [eventNext, Act.exec, one, ge_iff_le, Nat.not_le.mpr large, if_false]
            exact ⟨rfl, rfl⟩
      | sized d | filled =>
          rw [sends] at permits
          cases permits
      | _ => cases permits
  | readEntry r' k =>
      obtain ⟨rfl, permits⟩ := permits
      cases mode with
      | scanning d p position left =>
          obtain ⟨_, _, rfl⟩ := permits
          refine inv.sendLooks last task sends rfl (by simp) ?_ ?_
          · simp only [eventNext]
            split
            · trivial
            · exact fits
          · intro missing repeating
            obtain ⟨_, queued⟩ := missing.last_repeats last task
            obtain ⟨rfl, rfl⟩ := repeating
            rw [← fits.1] at queued
            simp only [eventNext, Act.exec, queued, if_true]
            trivial
      | filled =>
          rw [sends] at permits
          cases permits
      | _ => cases permits
  | writeEntry r' k message =>
      obtain ⟨rfl, permits⟩ := permits
      cases mode with
      | scanning d p position left =>
          obtain ⟨rfl, place, rfl⟩ := permits
          exact inv.writeEntry last task place
      | _ => cases permits
  | storeProducer r' v =>
      obtain ⟨rfl, permits⟩ := permits
      cases mode with
      | written d p => exact inv.storeProducer last task sends permits.1
      | _ => cases permits
  | eventWrite r' =>
      obtain ⟨rfl, _⟩ := permits
      exact inv.eventWrite last task sends works
  | storeConsumer r' v => exact absurd (sends.symm.trans permits.2.2.2) (by simp)
  | eventRead r' => exact absurd (sends.symm.trans permits.2.2) (by simp)
  | _ => cases permits

/-- A load of the consumer. -/
theorem WakeInv.receiveLooks (inv : WakeInv r depth c)
    (task : c.tasks t = some ⟨l, mode, .act action next⟩) (receives : l.sends = false)
    (same : (action.exec e c.shared).2 = c.shared)
    (index : ∀ i, eventNext l mode action (action.exec e c.shared).1 = .indexed i →
      i = (c.shared.rings r).consumer)
    (covered : eventNext l mode action (action.exec e c.shared).1 = .waiting →
      Covered r depth ((eventSystem r).perform c t l mode action next e)) :
    WakeInv r depth ((eventSystem r).perform c t l mode action next e) := by
  refine inv.receiveStep task receives ?_ ?_ ?_ ?_ ?_ covered
  all_goals rw [same]
  · exact inv.consumer_lt
  · exact index

/-- One action of the consumer. -/
theorem WakeInv.actReceive (inv : WakeInv r depth c)
    (task : c.tasks t = some ⟨l, mode, .act action next⟩) (receives : l.sends = false)
    (permits : eventPermits r l mode action) :
    WakeInv r depth ((eventSystem r).perform c t l mode action next e) := by
  have active : (⟨l, mode, .act action next⟩ : Task Act EventCall EventMode EventResult).Running := by
    intro a h
    cases h
  cases action with
  | readDepth r' =>
      obtain ⟨rfl, rfl | ⟨rfl, _⟩⟩ := permits
      · exact inv.receiveLooks task receives rfl (fun _ same => by cases same) fun waits => by cases waits
      · exact inv.receiveLooks task receives rfl (fun _ same => by cases same) fun waits => by cases waits
  | loadConsumer r' =>
      obtain ⟨rfl, permits⟩ := permits
      cases mode with
      | sized d =>
          refine inv.receiveLooks task receives rfl (fun i same => ?_) fun waits => by cases waits
          injection same with same
          exact same.symm
      | filled => exact inv.receiveLooks task receives rfl (fun _ same => by cases same) fun waits => by cases waits
      | producer d p =>
          rw [receives] at permits
          cases permits
      | _ => cases permits
  | loadProducer r' =>
      obtain ⟨rfl, permits⟩ := permits
      cases mode with
      | indexed i =>
          have current := inv.indexed t _ i task active rfl receives
          refine inv.receiveLooks task receives rfl (fun j same => ?_) (fun waits => .inl ?_)
          · simp only [eventNext] at same
            split at same <;> cases same
          · simp only [eventNext] at waits
            split at waits
            · rename_i equal
              exact equal.symm.trans current
            · cases waits
      | sized d =>
          rw [receives] at permits
          cases permits
      | _ => cases permits
  | readEntry r' k =>
      obtain ⟨rfl, permits⟩ := permits
      cases mode with
      | filled => exact inv.receiveLooks task receives rfl (fun _ same => by cases same) fun waits => by cases waits
      | scanning d p position left =>
          rw [receives] at permits
          cases permits.1
      | _ => cases permits
  | storeConsumer r' v =>
      obtain ⟨rfl, rfl, small, _⟩ := permits
      refine inv.receiveStep task receives ?_ ?_ ?_ ?_ (fun _ same => by cases same)
        fun waits => by cases waits
      all_goals simp only [Act.exec, Mem.setRing, Function.update_self]
      exact small
  | eventRead r' =>
      obtain ⟨rfl, rfl, _⟩ := permits
      have covered : Covered r' depth c := inv.awaits t _ task active rfl receives
      by_cases fails : e.eventOk = false
      · have result : (Act.eventRead r').exec e c.shared = (.failed, c.shared) := by
          simp [Act.exec, fails]
        refine inv.receiveLooks task receives (by rw [result]) ?_ ?_ <;> rw [result]
        · intro i same
          cases same
        · intro waits
          cases waits
      by_cases zero : c.shared.events r' = 0
      · have result : (Act.eventRead r').exec e c.shared = (.blocked, c.shared) := by
          simp [Act.exec, fails, zero]
        refine inv.receiveLooks task receives (by rw [result]) (fun i same => ?_) fun _ => ?_
        · rw [result] at same
          cases same
        rcases covered with empty | event | missing
        · refine .inl ?_
          simp only [EventConfig.RingEmpty, System.perform, exec_eq, result]
          exact empty
        · exact absurd zero (Nat.ne_of_gt event)
        · refine .inr (.inr (missing.keep task (by rw [result]) (by simp) fun repeats => ?_))
          cases repeats
      · have result : (Act.eventRead r').exec e c.shared =
            (.woken, { c.shared with events := Function.update c.shared.events r' 0 }) := by
          simp [Act.exec, fails, zero]
        refine inv.receiveStep task receives ?_ ?_ ?_ ?_ ?_ ?_ <;> rw [result]
        · exact inv.consumer_lt
        · intro i same
          cases same
        · intro waits
          cases waits
  | writeEntry r' k message =>
      obtain ⟨rfl, permits⟩ := permits
      cases mode with
      | scanning d p position left =>
          obtain ⟨_, _, rfl⟩ := permits
          cases receives
      | _ => cases permits
  | storeProducer r' v =>
      obtain ⟨rfl, permits⟩ := permits
      cases mode with
      | written d p => exact absurd (receives.symm.trans permits.2) (by simp)
      | _ => cases permits
  | eventWrite r' => exact absurd (receives.symm.trans permits.2.2) (by simp)
  | _ => cases permits

end Steps

/-- A send that has returned repeats nothing. -/
theorem not_repeating_of_done (large : 2 ≤ depth) {ring : Ring} {l : EventCall} {mode : EventMode}
    {result : EventResult} (sends : l.sends = true) (ends : eventEnds l mode result)
    (fits : SendFits depth ring l mode) : ¬Repeating ring mode := by
  rcases ends sends with rfl | rfl | ⟨d, rfl, small⟩
  · exact id
  · exact id
  · obtain rfl : d = depth := fits
    omega

/-- A send starts: when a descriptor has no event yet, it is the one that is sent again. -/
theorem WakeInv.startSend (large : 2 ≤ depth) {c : EventConfig} {t : Nat} {message : Message}
    (inv : WakeInv r depth c)
    (follows : ∀ u x, c.tasks u = some x →
      x.rest.Follows (eventDiscipline r) x.label (eventEnds x.label) x.mode)
    (fresh : c.tasks t = none)
    (turn : oneEventPair r c (.start t (.send message))) :
    WakeInv r depth { c with
      tasks := Function.update c.tasks t (some ((eventSystem r).begin (.send message))) } := by
  obtain ⟨newest, repeats⟩ := turn
  have older {u : Nat} {x : Task Act EventCall EventMode EventResult} (found : c.tasks u = some x) :
      Function.update c.tasks t (some ((eventSystem r).begin (.send message))) u = some x := by
    refine update_eq_some.mpr (.inr ⟨?_, found⟩)
    rintro rfl
    rw [fresh] at found
    cases found
  constructor
  case depth_eq => exact inv.depth_eq
  case consumer_lt => exact inv.consumer_lt
  case last =>
    intro _ _ _ _
    refine ⟨t, ⟨_, Function.update_self _ _ _, rfl⟩, ?_⟩
    intro u x found sends
    rcases update_eq_some.mp found with ⟨rfl, _⟩ | ⟨_, old⟩
    · exact le_rfl
    · exact (newest u x old sends).le
  case sending =>
    intro u x last found
    rcases update_eq_some.mp found with ⟨_, rfl⟩ | ⟨other, old⟩
    · trivial
    · -- an older send is not the last one any more
      obtain ⟨⟨y, foundY, sends⟩, latest⟩ := last
      have same : y = x := Option.some.inj (foundY.symm.trans (older old))
      subst same
      have before := newest u y old sends
      exact absurd (latest t _ (Function.update_self _ _ _) rfl) (Nat.not_le.mpr before)
  case single =>
    intro u v x y foundX foundY receivesX receivesY runX runY
    rcases update_eq_some.mp foundX with ⟨_, rfl⟩ | ⟨_, oldX⟩
    · cases receivesX
    rcases update_eq_some.mp foundY with ⟨_, rfl⟩ | ⟨_, oldY⟩
    · cases receivesY
    exact inv.single u v x y oldX oldY receivesX receivesY runX runY
  case indexed =>
    intro u x i found runs mode receives
    rcases update_eq_some.mp found with ⟨_, rfl⟩ | ⟨_, old⟩
    · cases mode
    · exact inv.indexed u x i old runs mode receives
  case awaits =>
    intro u x found runs mode receives
    rcases update_eq_some.mp found with ⟨_, rfl⟩ | ⟨_, old⟩
    · cases mode
    rcases inv.awaits u x old runs mode receives with empty | event | missing
    · exact .inl empty
    · exact .inr (.inl event)
    refine .inr (.inr ⟨missing.single, ?_⟩)
    obtain ⟨w, z, l, foundZ, labelZ, sendsZ, pushed, queued, later⟩ := missing.repeating
    refine ⟨w, z, l, older foundZ, labelZ, sendsZ, pushed, queued, ?_⟩
    intro v y after found sends
    rcases update_eq_some.mp found with ⟨_, rfl⟩ | ⟨_, oldY⟩
    swap
    · exact later v y after oldY sends
    refine ⟨?_, trivial⟩
    obtain ⟨k, last⟩ := inv.last w z foundZ (labelZ ▸ sendsZ)
    obtain ⟨s, foundS, sendsS⟩ := last.1
    obtain ⟨labelS, repeating⟩ := later k s (last.2 w z foundZ (labelZ ▸ sendsZ)) foundS sendsS
    by_cases running : s.Running
    · obtain ⟨_, _, pending⟩ := repeats k s last foundS running
      rw [foundS, Option.some.injEq] at pending
      rw [← labelS, pending]
      rfl
    · simp only [Task.Running, not_forall, not_not] at running
      obtain ⟨result, done⟩ := running
      have ends := follows k s foundS
      rw [done] at ends
      exact absurd repeating (not_repeating_of_done large sendsS ends (inv.sending k s last foundS))

theorem WakeInv.startReceive {c : EventConfig} {t fuel : Nat} (inv : WakeInv r depth c)
    (fresh : c.tasks t = none) (turn : oneEventPair r c (.start t (.receive fuel))) :
    WakeInv r depth { c with
      tasks := Function.update c.tasks t (some ((eventSystem r).begin (.receive fuel))) } := by
  -- what is said of sends is said of the same tasks as before
  have sending {u : Nat} {x : Task Act EventCall EventMode EventResult} (sends : x.label.sends = true) :
      Function.update c.tasks t (some ((eventSystem r).begin (.receive fuel))) u = some x ↔
        c.tasks u = some x := by
    rw [update_eq_some]
    constructor
    · rintro (⟨_, rfl⟩ | ⟨_, old⟩)
      · cases sends
      · exact old
    · intro found
      refine .inr ⟨?_, found⟩
      rintro rfl
      rw [fresh] at found
      cases found
  have last (u : Nat) : EventConfig.LastSend { c with
      tasks := Function.update c.tasks t (some ((eventSystem r).begin (.receive fuel))) } u ↔
        c.LastSend u := by
    refine and_congr (exists_congr fun x => and_congr_left fun sends => sending sends) ?_
    exact forall_congr' fun v => forall_congr' fun x =>
      ⟨fun h found sends => h ((sending sends).mpr found) sends,
        fun h found sends => h ((sending sends).mp found) sends⟩
  constructor
  case depth_eq => exact inv.depth_eq
  case consumer_lt => exact inv.consumer_lt
  case last =>
    intro u x found sends
    obtain ⟨v, latest⟩ := inv.last u x ((sending sends).mp found) sends
    exact ⟨v, (last v).mpr latest⟩
  case sending =>
    intro u x latest found
    obtain ⟨y, foundY, sends⟩ := ((last u).mp latest).1
    have same : x = y := Option.some.inj (found.symm.trans ((sending sends).mpr foundY))
    subst same
    exact inv.sending u x ((last u).mp latest) foundY
  case single =>
    intro u v x y foundX foundY receivesX receivesY runX runY
    rcases update_eq_some.mp foundX with ⟨rfl, rfl⟩ | ⟨_, oldX⟩
    · rcases update_eq_some.mp foundY with ⟨rfl, rfl⟩ | ⟨_, oldY⟩
      · rfl
      · exact absurd runY (turn v y oldY receivesY)
    · exact absurd runX (turn u x oldX receivesX)
  case indexed =>
    intro u x i found runs mode receives
    rcases update_eq_some.mp found with ⟨_, rfl⟩ | ⟨_, old⟩
    · cases mode
    · exact inv.indexed u x i old runs mode receives
  case awaits =>
    intro u x found runs mode receives
    rcases update_eq_some.mp found with ⟨_, rfl⟩ | ⟨_, old⟩
    · cases mode
    · exact absurd runs (turn u x old receives)

/-- The ring of a run was initialized with a depth that it accepts. -/
theorem depth_large {c : EventConfig}
    (reach : (eventSystem r).Reachable (ringFresh r depth) (oneEventPair r) c) : 2 ≤ depth := by
  refine System.Reachable.invariant (I := fun _ => 2 ≤ depth) ?_ (fun _ _ _ large _ _ => large)
    (fun _ _ _ _ _ _ _ _ large _ _ => large) reach
  rintro s ⟨entries, made⟩
  rw [ringInitialize] at made
  split at made
  · cases made
  · omega

theorem wakeInv_reachable {c : EventConfig} (large : 2 ≤ depth)
    (reach : (eventSystem r).Reachable (ringFresh r depth) (oneEventPair r) c) :
    WakeInv r depth c := by
  -- the start of a send looks at the whole rest of the last one
  suffices both : WakeInv r depth c ∧ (eventSystem r).Reachable (ringFresh r depth) (oneEventPair r) c
    from both.1
  induction reach with
  | @start s fresh =>
      refine ⟨?_, .start fresh⟩
      obtain ⟨entries, made⟩ := fresh
      rw [ringInitialize, if_neg (Nat.not_lt.mpr large)] at made
      injection made with ring
      constructor
      case depth_eq => exact congrArg Ring.depth ring.symm
      case consumer_lt => exact (congrArg Ring.consumer ring.symm).trans_lt (show 0 < u32 by decide)
      case last | single | indexed | awaits => simp [System.initial]
      case sending =>
        intro t x last
        obtain ⟨⟨y, found, _⟩, _⟩ := last
        cases found
  | step reached turn moved ih =>
      refine ⟨?_, reached.step turn moved⟩
      have follows := reached.follows eventSystem_disciplined
      rcases System.move_cases moved with ⟨t, l, rfl, fresh, rfl⟩ |
        ⟨t, e, l, mode, β, action, next, rfl, found, rfl⟩
      · cases l with
        | send message => exact ih.1.startSend large follows fresh turn
        | receive fuel => exact ih.1.startReceive fresh turn
      · have permits := (follows t _ found).1
        cases sends : l.sends with
        | true =>
            obtain ⟨last, works⟩ := turn _ found sends
            exact ih.1.actSend large last found sends permits works
        | false => exact ih.1.actReceive found sends permits

/-- A send in the mode after its push has the write to the eventfd next. -/
theorem pushed_of_mode {c : EventConfig} {t : Nat} {message : Message}
    {x : Task Act EventCall EventMode EventResult}
    (follows : x.rest.Follows (eventDiscipline r) x.label (eventEnds x.label) x.mode)
    (found : c.tasks t = some x) (label : x.label = .send message) (mode : x.mode = .pushed) :
    c.Pushed r t message := by
  obtain ⟨l, m, rest⟩ := x
  subst label mode
  cases rest with
  | done result =>
      rcases follows rfl with same | same | ⟨_, same, _⟩ <;> cases same
  | act action next =>
      have permits := follows.1
      cases action with
      | eventWrite r' =>
          obtain ⟨rfl, _⟩ := permits
          exact ⟨_, next, found⟩
      | readDepth => rcases permits with ⟨_, same | ⟨same, _⟩⟩ <;> cases same
      | storeConsumer => cases permits.2.1
      | eventRead => cases permits.2.1
      | loadProducer | loadConsumer | readEntry | writeEntry | storeProducer => cases permits.2
      | _ => cases permits

end Invariant

/-- No wakeup is lost: in every run a consumer that blocks in the eventfd read sees an
    empty ring or is going to be woken. -/
theorem no_lost_wakeup {r depth : Nat} {c : EventConfig}
    (reach : (eventSystem r).Reachable (ringFresh r depth) (oneEventPair r) c) : Wakes r c := by
  intro t l mode next found
  have accepted := depth_large reach
  have inv := wakeInv_reachable accepted reach
  have follows := reach.follows eventSystem_disciplined
  obtain ⟨_, waits, receives⟩ := (follows t _ found).1
  have running : (⟨l, mode, .act (.eventRead r) next⟩ :
      Task Act EventCall EventMode EventResult).Running := by
    intro a h
    cases h
  rcases inv.awaits t _ found running waits receives with empty | event | missing
  · exact .inl empty
  · exact .inr (.inl event)
  · obtain ⟨u, x, label, foundU, same, sends, pushed, _, later⟩ := missing.repeating
    cases label with
    | receive fuel => cases sends
    | send message =>
        have pending := pushed_of_mode (follows u x foundU) foundU same pushed
        obtain ⟨v, last⟩ := inv.last u x foundU (same ▸ sends)
        have upto := last.2 u x foundU (same ▸ sends)
        rcases Nat.eq_or_lt_of_le upto with rfl | before
        · exact .inr (.inr (.inl ⟨u, message, last, pending⟩))
        · obtain ⟨y, foundV, sendsV⟩ := last.1
          obtain ⟨labelV, repeating⟩ := later v y upto foundV sendsV
          refine .inr (.inr (.inr ⟨u, v, message, y, before, pending, last, foundV, labelV, ?_⟩))
          intro result done
          have ends := follows v y foundV
          rw [done] at ends
          exact not_repeating_of_done accepted sendsV ends (inv.sending v y last foundV) repeating

/-- A receive on a fresh ring of four places, up to its eventfd read. -/
def blockedReceive : Option EventConfig :=
  (eventSystem 0).run
    (System.initial { (default : Mem) with rings := fun _ => ⟨0, 0, 4, fun _ => default⟩ })
    (.start 0 (.receive 2) :: List.replicate 3 (.act 0 default))

theorem no_lost_wakeup_blocked :
    (blockedReceive.bind (·.tasks 0)).any (fun x => x.mode = .waiting) = true ∧
      ∀ c, blockedReceive = some c → Wakes 0 c := by
  refine ⟨rfl, fun c ran => @no_lost_wakeup 0 4 c ?_⟩
  rw [blockedReceive, System.run, Option.bind_eq_some_iff] at ran
  obtain ⟨c₁, started, ran⟩ := ran
  rw [show List.replicate 3 (Move.act 0 (default : Env)) =
    (List.replicate 3 default).map (Move.act (L := EventCall) 0) from rfl] at ran
  -- only the receive runs, and nothing constrains its actions
  refine System.Reachable.along (I := fun c => ∀ u x, c.tasks u = some x → x.label.sends = false)
    ?_ ?_ (.step (.start ⟨_, rfl⟩) ?_ started) ?_ ran
  · intro c e _ receives x found sends
    exact absurd ((receives 0 x found).symm.trans sends) (by simp)
  · intro c e c' receives moved u x found
    obtain ⟨y, before, label⟩ := System.move_label moved found
    exact label ▸ receives u y before
  · intro u x found
    cases found
  · intro u x found
    simp only [System.move, System.initial, Option.some.injEq] at started
    subst started
    replace found : Function.update (fun _ => none) 0
      (some ((eventSystem 0).begin (.receive 2))) u = some x := found
    rcases update_eq_some.mp found with ⟨_, rfl⟩ | ⟨_, old⟩
    · rfl
    · cases old

end Zipc
