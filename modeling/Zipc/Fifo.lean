import Zipc.Transport

/-! # The descriptor ring as a queue

One producer pushes and one consumer pops, or peeks and commits, on a shared ring, in
any interleaving of their single accesses. The indices are free-running 32-bit words
that are reduced modulo the depth only at an entry access, so entry `k` of the queue
stays where it was written across the wrap exactly when the depth divides `2 ^ 32`.
-/

namespace Zipc

open Atomic

inductive RingCall where
  | push (message : Message)
  | pop
  | peekCommit
  deriving Repr, DecidableEq

def RingCall.produces : RingCall → Bool
  | .push _ => true
  | .pop => false
  | .peekCommit => false

/-- A peek whose descriptor is then committed. -/
def ringPeekCommit (r : Nat) : Prog (Except Status Message) := do
  let peeked ← ringPeek r
  match peeked with
  | .error status => pure (.error status)
  | .ok (message, position) => do
      let status ← ringCommit r position
      pure (if status = .ok then .ok message else .error status)

inductive RingResult where
  | pushed (status : Status)
  | popped (result : Except Status Message)

def RingCall.program (r : Nat) : RingCall → Prog RingResult
  | .push message => do
      let status ← ringPush r message
      pure (.pushed status)
  | .pop => do
      let result ← ringPop r
      pure (.popped result)
  | .peekCommit => do
      let result ← ringPeekCommit r
      pure (.popped result)

/-- How far a call has come, with the words it has read. -/
inductive RingMode where
  | start
  | sized (depth : Nat)
  | producer (depth p : Nat)
  | checked (depth p c : Nat)
  | written (depth p : Nat)
  | stored
  | consumer (depth c : Nat)
  | compared (depth c p : Nat)
  | taken (depth c : Nat) (message : Message)
  | gone (message : Message)
  deriving Repr, DecidableEq

def ringPermits (r : Nat) (l : RingCall) (m : RingMode) {β : Type} : Act β → Prop
  | .readDepth r' => r' = r ∧ match m with
      | .start | .taken _ _ _ => True
      | _ => False
  | .loadProducer r' => r' = r ∧ match m with
      | .sized _ => l.produces = true
      | .consumer _ _ => True
      | _ => False
  | .loadConsumer r' => r' = r ∧ match m with
      | .sized _ => l.produces = false
      | .producer _ _ | .taken _ _ _ => True
      | _ => False
  | .readEntry r' k => r' = r ∧ match m with
      | .checked depth p c => sub32 p c < depth
      | .compared depth c p => c ≠ p ∧ k = c % depth
      | _ => False
  | .writeEntry r' k message => r' = r ∧ match m with
      | .checked depth p c => sub32 p c < depth ∧ k = p % depth ∧ l = .push message
      | _ => False
  | .storeProducer r' v => r' = r ∧ match m with
      | .written _ p => v = (p + 1) % u32 ∧ l.produces = true
      | _ => False
  | .storeConsumer r' v => r' = r ∧ match m with
      | .taken _ c _ => v = (c + 1) % u32
      | _ => False
  | _ => False

def ringNext (m : RingMode) {β : Type} : Act β → β → RingMode
  | .readDepth _, depth => match m with
      | .start => .sized depth
      | _ => m
  | .loadProducer _, p => match m with
      | .sized depth => .producer depth p
      | .consumer depth c => .compared depth c p
      | _ => m
  | .loadConsumer _, c => match m with
      | .sized depth => .consumer depth c
      | .producer depth p => .checked depth p c
      | .taken depth _ message => .taken depth c message
      | _ => m
  | .readEntry _ _, message => match m with
      | .compared depth c _ => .taken depth c message
      | _ => m
  | .writeEntry _ _ _, _ => match m with
      | .checked depth p _ => .written depth p
      | _ => m
  | .storeProducer _ _, _ => .stored
  | .storeConsumer _ _, _ => match m with
      | .taken _ _ message => .gone message
      | _ => m
  | _, _ => m

/-- How a call can end: what it returns tells whether it moved its index. -/
def ringEnds (l : RingCall) (m : RingMode) (result : RingResult) : Prop :=
  match m, result with
  | .stored, .pushed status => status = .ok ∧ l.produces = true
  | .checked depth p c, .pushed status =>
      (status = .transport ∧ sub32 p c ≥ depth) ∨ (status = .ok ∧ sub32 p c < depth)
  | .checked _ _ _, _ => False
  | .gone message, .popped (.ok obtained) => obtained = message ∧ l.produces = false
  | .gone _, _ => False
  | .stored, _ => False
  | _, .pushed status => status ≠ .ok ∧ status ≠ .transport
  | _, .popped (.ok _) => False
  | _, .popped (.error _) => True

def ringDiscipline (r : Nat) : Discipline Act RingCall RingMode where
  start _ := .start
  permits l m action := ringPermits r l m action
  next _ m action answer := ringNext m action answer

def ringSystem (r : Nat) : System Act RingCall RingMode RingResult :=
  ⟨RingCall.program r, ringDiscipline r⟩

abbrev RingConfig := Config Act Mem RingCall RingMode RingResult
abbrev RingEvent := Event Act RingCall RingMode

section Discipline

open Program

variable {r : Nat} {l : RingCall}

@[simp] theorem ringDiscipline_permits {β : Type} (m : RingMode) (action : Act β) :
    (ringDiscipline r).permits l m action = ringPermits r l m action := rfl

@[simp] theorem ringDiscipline_next {β : Type} (m : RingMode) (action : Act β) (answer : β) :
    (ringDiscipline r).next l m action answer = ringNext m action answer := rfl

theorem ringScan_follows (message : Message) {depth p c : Nat} (room : sub32 p c < depth)
    {Q : RingMode → Bool → Prop} (found : ∀ b, Q (.checked depth p c) b) (left : Nat) :
    ∀ position, (ringScan r message depth left position).Follows (ringDiscipline r) l Q
      (.checked depth p c) := by
  induction left with
  | zero =>
      intro position
      exact found false
  | succ left ih =>
      intro position
      simp only [ringScan, lift_bind, follows_act]
      refine ⟨⟨rfl, room⟩, fun queued => ?_⟩
      simp only [ringDiscipline_next, ringNext]
      split
      · exact found true
      · exact ih _

theorem ringPush_follows (message : Message) :
    (RingCall.program r (.push message)).Follows (ringDiscipline r) (.push message)
      (ringEnds (.push message)) .start := by
  simp only [RingCall.program, ringPush, lift_bind, act_bind, follows_act]
  refine ⟨⟨rfl, trivial⟩, fun depth => ?_⟩
  simp only [ringDiscipline_next, ringNext]
  split
  · simp [ringEnds]
  simp only [act_bind, follows_act]
  refine ⟨⟨rfl, rfl⟩, fun p => ⟨⟨rfl, trivial⟩, fun c => ?_⟩⟩
  simp only [ringDiscipline_next, ringNext]
  split
  · rename_i full
    exact .inl ⟨rfl, full⟩
  · rename_i room
    rw [follows_bind, follows_bind]
    refine ringScan_follows message (by omega) (fun pending => ?_) _ _
    split
    · exact .inr ⟨rfl, by omega⟩
    · exact ⟨⟨rfl, by omega, rfl, rfl⟩, fun _ => ⟨⟨rfl, rfl, rfl⟩, fun _ => ⟨rfl, rfl⟩⟩⟩

theorem ringPop_follows :
    (RingCall.program r .pop).Follows (ringDiscipline r) .pop (ringEnds .pop) .start := by
  simp only [RingCall.program, ringPop, lift_bind, act_bind, follows_act]
  refine ⟨⟨rfl, trivial⟩, fun depth => ?_⟩
  simp only [ringDiscipline_next, ringNext]
  split
  · trivial
  simp only [act_bind, follows_act]
  refine ⟨⟨rfl, rfl⟩, fun c => ⟨⟨rfl, trivial⟩, fun p => ?_⟩⟩
  simp only [ringDiscipline_next, ringNext]
  split
  · trivial
  · rename_i different
    exact ⟨⟨rfl, different, rfl⟩, fun message => ⟨⟨rfl, rfl⟩, fun _ => ⟨rfl, rfl⟩⟩⟩

theorem ringPeekCommit_follows :
    (RingCall.program r .peekCommit).Follows (ringDiscipline r) .peekCommit
      (ringEnds .peekCommit) .start := by
  simp only [RingCall.program, ringPeekCommit, ringPeek, ringCommit, lift_bind, act_bind,
    follows_act]
  refine ⟨⟨rfl, trivial⟩, fun depth => ?_⟩
  simp only [ringDiscipline_next, ringNext]
  split
  · trivial
  simp only [act_bind, follows_act]
  refine ⟨⟨rfl, rfl⟩, fun c => ⟨⟨rfl, trivial⟩, fun p => ?_⟩⟩
  simp only [ringDiscipline_next, ringNext]
  split
  · trivial
  rename_i different
  simp only [act_bind]
  refine ⟨⟨rfl, different, rfl⟩, fun message => ⟨⟨rfl, trivial⟩, fun again => ?_⟩⟩
  simp only [ringDiscipline_next, ringNext]
  split
  · trivial
  simp only [act_bind]
  refine ⟨⟨rfl, trivial⟩, fun position => ?_⟩
  simp only [ringDiscipline_next, ringNext]
  split
  · trivial
  · rename_i same
    rw [not_not] at same
    subst position
    exact ⟨⟨rfl, rfl⟩, fun _ => ⟨rfl, rfl⟩⟩

theorem ringSystem_disciplined : (ringSystem r).Disciplined ringEnds := by
  intro l
  cases l with
  | push message => exact ringPush_follows message
  | pop => exact ringPop_follows
  | peekCommit => exact ringPeekCommit_follows

end Discipline

/-! ## Accepted and obtained descriptors -/

/-- The descriptor of a push that advances the producer index, with its call. -/
def RingEvent.accepted : RingEvent → Option (Nat × Message)
  | ⟨t, .push message, _, .storeProducer _ _, _⟩ => some (t, message)
  | _ => none

/-- The descriptor that a call takes out by advancing the consumer index. -/
def RingEvent.obtained : RingEvent → Option (Nat × Message)
  | ⟨t, _, .taken _ _ message, .storeConsumer _ _, _⟩ => some (t, message)
  | _ => none

namespace RingConfig

def accepted (c : RingConfig) : List (Nat × Message) := c.history.filterMap RingEvent.accepted

def obtained (c : RingConfig) : List (Nat × Message) := c.history.filterMap RingEvent.obtained

end RingConfig

/-- One producer and one consumer, each making one call after the other. -/
def oneEachSide : RingConfig → Move Env RingCall → Prop := System.TakeTurns RingCall.produces

/-- A ring that `zipc_transport_spsc_ring_initialize` just set up. -/
def ringFresh (r depth : Nat) (m : Mem) : Prop :=
  ∃ entries, ringInitialize depth entries = .ok (m.rings r)

/-- What a queue of `depth` places promises about the ring in one configuration. -/
structure Fifo (r depth : Nat) (c : RingConfig) : Prop where
  /-- No loss, duplication or reordering. -/
  order : c.obtained.map Prod.snd <+: c.accepted.map Prod.snd
  /-- No unread entry is overwritten. -/
  unread : ∀ k message, c.obtained.length ≤ k → (c.accepted.map Prod.snd)[k]? = some message →
    (c.shared.rings r).entries (k % u32 % depth) = message
  /-- `obtained` lists what the consumer's calls returned. -/
  returned : ∀ t message, (t, message) ∈ c.obtained ↔
    ∃ task, c.tasks t = some task ∧ task.rest = .done (.popped (.ok message))
  /-- `accepted` lists the pushes that returned OK without finding a pending duplicate. -/
  published : ∀ t message, (t, message) ∈ c.accepted ↔
    ∃ task, c.tasks t = some task ∧ task.label = .push message ∧
      task.rest = .done (.pushed .ok) ∧ task.mode = .stored
  /-- A push that is about to look at the consumer index reports a full ring exactly
      when `depth` descriptors are pending. -/
  full : ∀ t l mode next, c.tasks t = some ⟨l, mode, .act (.loadConsumer r) next⟩ →
    l.produces = true →
    (next (c.shared.rings r).consumer = .done (.pushed .transport) ↔
      c.accepted.length = c.obtained.length + depth)

/-! ## Depths that divide the index range -/

section Invariant

variable {r depth : Nat}

/-- The ring holds the accepted descriptors that were not obtained yet. -/
structure Queued (depth : Nat) (ring : Ring) (accepted obtained : List Message) : Prop where
  depth_eq : ring.depth = depth
  producer_eq : ring.producer = accepted.length % u32
  consumer_eq : ring.consumer = obtained.length % u32
  taken_le : obtained.length ≤ accepted.length
  pending_le : accepted.length ≤ obtained.length + depth
  order : obtained = accepted.take obtained.length
  unread : ∀ k message, obtained.length ≤ k → accepted[k]? = some message →
    ring.entries (k % depth) = message

/-- What a running call knows about the queue from the words it has read. -/
def RingFits (depth : Nat) (ring : Ring) (accepted obtained : List Message) (l : RingCall) :
    RingMode → Prop
  | .start => True
  | .sized d => d = depth
  | .producer d p => l.produces = true ∧ d = depth ∧ p = accepted.length % u32
  | .checked d p c => l.produces = true ∧ d = depth ∧ p = accepted.length % u32 ∧
      ∃ c₀, c = c₀ % u32 ∧ c₀ ≤ obtained.length ∧ accepted.length ≤ c₀ + depth
  | .written d p => d = depth ∧ p = accepted.length % u32 ∧
      accepted.length < obtained.length + depth ∧
      ∃ message, l = .push message ∧ ring.entries (accepted.length % depth) = message
  | .stored => True
  | .consumer d c => l.produces = false ∧ d = depth ∧ c = obtained.length % u32
  | .compared d c p => l.produces = false ∧ d = depth ∧ c = obtained.length % u32 ∧
      ∃ p₀, p = p₀ % u32 ∧ obtained.length ≤ p₀ ∧ p₀ ≤ accepted.length
  | .taken _ c message => l.produces = false ∧ c = obtained.length % u32 ∧
      accepted[obtained.length]? = some message
  | .gone _ => True

structure RingInv (r depth : Nat) (c : RingConfig) : Prop where
  queued : Queued depth (c.shared.rings r) (c.accepted.map Prod.snd) (c.obtained.map Prod.snd)
  modes : ∀ t x, c.tasks t = some x → x.Running →
    RingFits depth (c.shared.rings r) (c.accepted.map Prod.snd) (c.obtained.map Prod.snd)
      x.label x.mode

theorem sub32_eq {p c : Nat} (le : c ≤ p) (near : p - c < u32) :
    sub32 (p % u32) (c % u32) = p - c := by
  simp only [sub32, u32] at *
  omega

/-- Two queue positions less than `depth` apart use different places. -/
theorem place_ne {j k : Nat} (before : j < k) (near : k < j + depth) : j % depth ≠ k % depth := by
  intro same
  have divides : depth ∣ k - j := 
    Nat.dvd_of_mod_eq_zero (Nat.sub_mod_eq_zero_of_mod_eq same.symm)
  have large := Nat.le_of_dvd (by omega) divides
  omega

/-- The place of an index word is the place of the queue position it stands for. -/
theorem place_mod (divides : depth ∣ u32) (k : Nat) : k % u32 % depth = k % depth :=
  Nat.mod_mod_of_dvd k divides

/-- One action of a call keeps the invariant when it keeps the queue, its own mode fits,
    and what the other side knows stays true. -/
theorem RingInv.perform {c : RingConfig} (inv : RingInv r depth c)
    (alone : c.Exclusive RingCall.produces) {t : Nat} {l : RingCall}
    {mode : RingMode} {β : Type} {action : Act β} {next : β → Prog RingResult} {e : Env}
    (task : c.tasks t = some ⟨l, mode, .act action next⟩) {ring : Ring}
    {accepted obtained : List Message}
    (ring_eq : (action.exec e c.shared).2.rings r = ring)
    (accepted_eq : c.accepted.map Prod.snd ++
      (RingEvent.accepted ⟨t, l, mode, action, (action.exec e c.shared).1⟩).toList.map Prod.snd =
        accepted)
    (obtained_eq : c.obtained.map Prod.snd ++
      (RingEvent.obtained ⟨t, l, mode, action, (action.exec e c.shared).1⟩).toList.map Prod.snd =
        obtained)
    (queued : Queued depth ring accepted obtained)
    (own : RingFits depth ring accepted obtained l
      (ringNext mode action (action.exec e c.shared).1))
    (others : ∀ l' m', l'.produces ≠ l.produces →
      RingFits depth (c.shared.rings r) (c.accepted.map Prod.snd) (c.obtained.map Prod.snd) l' m' →
      RingFits depth ring accepted obtained l' m') :
    RingInv r depth ((ringSystem r).perform c t l mode action next e) := by
  have active : (⟨l, mode, .act action next⟩ : Task Act RingCall RingMode RingResult).Running := by
    intro a h
    cases h
  have pushed : RingConfig.accepted ((ringSystem r).perform c t l mode action next e) =
      c.accepted ++
        (RingEvent.accepted ⟨t, l, mode, action, (action.exec e c.shared).1⟩).toList :=
    System.perform_filterMap _ c t l mode action next e
  have popped : RingConfig.obtained ((ringSystem r).perform c t l mode action next e) =
      c.obtained ++
        (RingEvent.obtained ⟨t, l, mode, action, (action.exec e c.shared).1⟩).toList :=
    System.perform_filterMap _ c t l mode action next e
  refine ⟨?_, ?_⟩
  · rw [pushed, popped, List.map_append, List.map_append, accepted_eq, obtained_eq]
    exact ring_eq ▸ queued
  · intro u x hx runX
    rw [pushed, popped, List.map_append, List.map_append, accepted_eq, obtained_eq]
    rcases update_eq_some.mp hx with ⟨rfl, rfl⟩ | ⟨ut, hx⟩
    · exact ring_eq ▸ own
    · have other : x.label.produces ≠ l.produces := fun same =>
        ut (alone u t x _ hx task same runX active)
      exact ring_eq ▸ others _ _ other (inv.modes u x hx runX)

/-- An action that leaves the ring and both sequences alone. -/
theorem RingInv.observe {c : RingConfig} (inv : RingInv r depth c)
    (alone : c.Exclusive RingCall.produces) {t : Nat} {l : RingCall}
    {mode : RingMode} {β : Type} {action : Act β} {next : β → Prog RingResult} {e : Env}
    (task : c.tasks t = some ⟨l, mode, .act action next⟩)
    (ring_eq : (action.exec e c.shared).2.rings r = c.shared.rings r)
    (accepts : RingEvent.accepted ⟨t, l, mode, action, (action.exec e c.shared).1⟩ = none)
    (obtains : RingEvent.obtained ⟨t, l, mode, action, (action.exec e c.shared).1⟩ = none)
    (own : RingFits depth (c.shared.rings r) (c.accepted.map Prod.snd) (c.obtained.map Prod.snd) l
      (ringNext mode action (action.exec e c.shared).1)) :
    RingInv r depth ((ringSystem r).perform c t l mode action next e) :=
  inv.perform alone task ring_eq (by rw [accepts]; exact List.append_nil _)
    (by rw [obtains]; exact List.append_nil _) inv.queued own (fun _ _ _ fits => fits)

theorem Queued.write {ring : Ring} {accepted obtained : List Message}
    (queued : Queued depth ring accepted obtained)
    (room : accepted.length < obtained.length + depth) (message : Message) :
    Queued depth
      { ring with entries := Function.update ring.entries (accepted.length % depth) message }
      accepted obtained := by
  refine { queued with unread := ?_ }
  intro k other untaken present
  have pending : k < accepted.length := (List.getElem?_eq_some_iff.mp present).1
  have place : k % depth ≠ accepted.length % depth := place_ne pending (by omega)
  simp only [Function.update_of_ne place]
  exact queued.unread k other untaken present

theorem Queued.push {ring : Ring} {accepted obtained : List Message} {message : Message}
    (queued : Queued depth ring accepted obtained)
    (room : accepted.length < obtained.length + depth)
    (written : ring.entries (accepted.length % depth) = message) :
    Queued depth { ring with producer := (accepted.length % u32 + 1) % u32 }
      (accepted ++ [message]) obtained where
  depth_eq := queued.depth_eq
  producer_eq := by simp
  consumer_eq := queued.consumer_eq
  taken_le := by
    rw [List.length_append]
    exact queued.taken_le.trans (Nat.le_add_right _ _)
  pending_le := by
    simp only [List.length_append, List.length_singleton]
    omega
  order := by
    rw [List.take_append_of_le_length queued.taken_le]
    exact queued.order
  unread := by
    intro k other untaken present
    by_cases last : k = accepted.length
    · subst k
      simp only [List.getElem?_concat_length, Option.some.injEq] at present
      exact written.trans present
    · have inside : k < accepted.length := by
        have := (List.getElem?_eq_some_iff.mp present).1
        simp only [List.length_append, List.length_singleton] at this
        omega
      rw [List.getElem?_append_left inside] at present
      exact queued.unread k other untaken present

theorem Queued.pop {ring : Ring} {accepted obtained : List Message} {message : Message}
    (queued : Queued depth ring accepted obtained)
    (next : accepted[obtained.length]? = some message) :
    Queued depth { ring with consumer := (obtained.length % u32 + 1) % u32 }
      accepted (obtained ++ [message]) where
  depth_eq := queued.depth_eq
  producer_eq := queued.producer_eq
  consumer_eq := by simp
  taken_le := by
    rw [List.length_append, List.length_singleton]
    exact (List.getElem?_eq_some_iff.mp next).1
  pending_le := by
    have bound := queued.pending_le
    simp only [List.length_append, List.length_singleton]
    omega
  order := by
    rw [List.length_append, List.length_singleton, List.take_add_one, next, ← queued.order]
    rfl
  unread := by
    intro k other untaken present
    rw [List.length_append] at untaken
    exact queued.unread k other (by omega) present

/-- What the consumer knows does not depend on entries, and survives a push. -/
theorem RingFits.of_push {ring ring' : Ring} {accepted obtained : List Message} {l : RingCall}
    {m : RingMode} (consumes : l.produces = false) (more : List Message)
    (fits : RingFits depth ring accepted obtained l m) :
    RingFits depth ring' (accepted ++ more) obtained l m := by
  cases m with
  | compared d c p =>
      obtain ⟨_, d_eq, c_eq, p₀, p_eq, above, below⟩ := fits
      refine ⟨consumes, d_eq, c_eq, p₀, p_eq, above, below.trans ?_⟩
      rw [List.length_append]
      exact Nat.le_add_right _ _
  | taken d c message =>
      obtain ⟨_, c_eq, present⟩ := fits
      refine ⟨consumes, c_eq, ?_⟩
      rwa [List.getElem?_append_left (List.getElem?_eq_some_iff.mp present).1]
  | producer d p => simp [RingFits, consumes] at fits
  | checked d p c => simp [RingFits, consumes] at fits
  | written d p =>
      obtain ⟨_, _, _, message, rfl, _⟩ := fits
      cases consumes
  | start | sized | stored | consumer | gone => exact fits

/-- What the producer knows survives a pop. -/
theorem RingFits.of_pop {ring ring' : Ring} {accepted obtained : List Message} {l : RingCall}
    {m : RingMode} (produces : l.produces = true) (message : Message)
    (entries : ring'.entries = ring.entries)
    (fits : RingFits depth ring accepted obtained l m) :
    RingFits depth ring' accepted (obtained ++ [message]) l m := by
  cases m with
  | checked d p c =>
      obtain ⟨_, d_eq, p_eq, c₀, c_eq, before, near⟩ := fits
      refine ⟨produces, d_eq, p_eq, c₀, c_eq, before.trans ?_, near⟩
      rw [List.length_append]
      exact Nat.le_add_right _ _
  | written d p =>
      obtain ⟨d_eq, p_eq, room, pushed, l_eq, held⟩ := fits
      refine ⟨d_eq, p_eq, ?_, pushed, l_eq, by rw [entries]; exact held⟩
      rw [List.length_append]
      omega
  | consumer d c => simp [RingFits, produces] at fits
  | compared d c p => simp [RingFits, produces] at fits
  | taken d c other => simp [RingFits, produces] at fits
  | start | sized | stored | producer | gone => exact fits

/-- The producer writes into the place behind the pending descriptors. -/
theorem RingInv.writeEntry (divides : depth ∣ u32) (fits : depth < u32) {c : RingConfig}
    (inv : RingInv r depth c) (alone : c.Exclusive RingCall.produces) {t : Nat}
    {message : Message} {d p c₁ : Nat}
    {next : Unit → Prog RingResult} {e : Env}
    (task : c.tasks t =
      some ⟨.push message, .checked d p c₁, .act (.writeEntry r (p % d) message) next⟩)
    (room : sub32 p c₁ < d) :
    RingInv r depth ((ringSystem r).perform c t (.push message) (.checked d p c₁)
      (.writeEntry r (p % d) message) next e) := by
  have queued := inv.queued
  obtain ⟨_, rfl, rfl, c₀, rfl, c_le, p_le⟩ := inv.modes t _ task (by intro a h; cases h)
  have below : (c.accepted.map Prod.snd).length < (c.obtained.map Prod.snd).length + d := by
    rw [sub32_eq (c_le.trans queued.taken_le) (by omega)] at room
    omega
  have place : (c.accepted.map Prod.snd).length % u32 % d =
      (c.accepted.map Prod.snd).length % d := place_mod divides _
  refine inv.perform alone task rfl (List.append_nil _) (List.append_nil _) ?_ ?_ ?_
  · simp only [Act.exec, Mem.setRing, Function.update_self, place]
    exact queued.write below message
  · simp only [Act.exec, Mem.setRing, Function.update_self, place]
    exact ⟨rfl, rfl, below, message, rfl, Function.update_self _ _ _⟩
  · intro l m other known
    have consumes : l.produces = false := by simpa [RingCall.produces] using other
    simpa using known.of_push consumes []

theorem RingInv.storeProducer {c : RingConfig} (inv : RingInv r depth c)
    (alone : c.Exclusive RingCall.produces) {t : Nat} {l : RingCall}
    {d p : Nat} {next : Unit → Prog RingResult} {e : Env}
    (task : c.tasks t =
      some ⟨l, .written d p, .act (.storeProducer r ((p + 1) % u32)) next⟩) :
    RingInv r depth ((ringSystem r).perform c t l (.written d p)
      (.storeProducer r ((p + 1) % u32)) next e) := by
  obtain ⟨rfl, rfl, room, message, rfl, held⟩ := inv.modes t _ task (by intro a h; cases h)
  have accepts (m : RingMode) (v : Nat) : c.accepted.map Prod.snd ++ (RingEvent.accepted
      ⟨t, .push message, m, .storeProducer r v, ()⟩).toList.map Prod.snd =
      c.accepted.map Prod.snd ++ [message] := rfl
  refine inv.perform alone task rfl (accepts _ _) (List.append_nil _) ?_ trivial ?_
  · simp only [Act.exec, Mem.setRing, Function.update_self]
    exact inv.queued.push room held
  · intro l m other known
    have consumes : l.produces = false := by simpa [RingCall.produces] using other
    exact known.of_push consumes [message]

theorem RingInv.storeConsumer {c : RingConfig} (inv : RingInv r depth c)
    (alone : c.Exclusive RingCall.produces) {t : Nat} {l : RingCall}
    {d c₁ : Nat} {message : Message} {next : Unit → Prog RingResult} {e : Env}
    (task : c.tasks t =
      some ⟨l, .taken d c₁ message, .act (.storeConsumer r ((c₁ + 1) % u32)) next⟩) :
    RingInv r depth ((ringSystem r).perform c t l (.taken d c₁ message)
      (.storeConsumer r ((c₁ + 1) % u32)) next e) := by
  obtain ⟨consumes, rfl, present⟩ := inv.modes t _ task (by intro a h; cases h)
  have accepts (m : RingMode) (v : Nat) : c.accepted.map Prod.snd ++ (RingEvent.accepted
      ⟨t, l, m, .storeConsumer r v, ()⟩).toList.map Prod.snd = c.accepted.map Prod.snd := by
    cases l <;> exact List.append_nil _
  have obtains (v w : Nat) : c.obtained.map Prod.snd ++ (RingEvent.obtained ⟨t, l,
      .taken d w message, .storeConsumer r v, ()⟩).toList.map Prod.snd =
      c.obtained.map Prod.snd ++ [message] := rfl
  refine inv.perform alone task rfl (accepts _ _) (obtains _ _) ?_ trivial ?_
  · simp only [Act.exec, Mem.setRing, Function.update_self]
    exact inv.queued.pop present
  · intro l' m other known
    have produces : l'.produces = true := by
      simpa [show l.produces = false from consumes] using other
    refine known.of_pop produces message ?_
    simp only [Act.exec, Mem.setRing, Function.update_self]

/-- Every action of a call keeps the invariant. -/
theorem RingInv.act (divides : depth ∣ u32) (fits : depth < u32) {c : RingConfig}
    (inv : RingInv r depth c) (alone : c.Exclusive RingCall.produces) {t : Nat} {l : RingCall}
    {mode : RingMode} {β : Type} {action : Act β} {next : β → Prog RingResult} {e : Env}
    (task : c.tasks t = some ⟨l, mode, .act action next⟩)
    (permitted : ringPermits r l mode action) :
    RingInv r depth ((ringSystem r).perform c t l mode action next e) := by
  have queued := inv.queued
  have known := inv.modes t _ task (by intro a h; cases h)
  cases action with
  | readDepth r' =>
      obtain ⟨rfl, permitted⟩ := permitted
      cases mode with
      | start => exact inv.observe alone task rfl (by cases l <;> rfl) (by rfl) queued.depth_eq
      | taken d c₁ message => exact inv.observe alone task rfl (by cases l <;> rfl) (by rfl) known
      | _ => exact permitted.elim
  | loadProducer r' =>
      obtain ⟨rfl, permitted⟩ := permitted
      cases mode with
      | sized d =>
          exact inv.observe alone task rfl (by cases l <;> rfl) (by rfl)
            ⟨permitted, known, queued.producer_eq⟩
      | consumer d c₁ =>
          obtain ⟨consumes, d_eq, c_eq⟩ := known
          exact inv.observe alone task rfl (by cases l <;> rfl) (by rfl)
            ⟨consumes, d_eq, c_eq, _, queued.producer_eq, queued.taken_le, le_rfl⟩
      | _ => exact permitted.elim
  | loadConsumer r' =>
      obtain ⟨rfl, permitted⟩ := permitted
      cases mode with
      | sized d =>
          exact inv.observe alone task rfl (by cases l <;> rfl) (by rfl)
            ⟨permitted, known, queued.consumer_eq⟩
      | producer d p =>
          obtain ⟨produces, d_eq, p_eq⟩ := known
          exact inv.observe alone task rfl (by cases l <;> rfl) (by rfl)
            ⟨produces, d_eq, p_eq, _, queued.consumer_eq, le_rfl, queued.pending_le⟩
      | taken d c₁ message =>
          obtain ⟨consumes, _, present⟩ := known
          exact inv.observe alone task rfl (by cases l <;> rfl) (by rfl)
            ⟨consumes, queued.consumer_eq, present⟩
      | _ => exact permitted.elim
  | readEntry r' k =>
      obtain ⟨rfl, permitted⟩ := permitted
      cases mode with
      | checked d p c₁ => exact inv.observe alone task rfl (by cases l <;> rfl) (by rfl) known
      | compared d c₁ p =>
          obtain ⟨different, rfl⟩ := permitted
          obtain ⟨consumes, rfl, rfl, p₀, rfl, above, below⟩ := known
          have pending : (c.obtained.map Prod.snd).length < (c.accepted.map Prod.snd).length := by
            rcases Nat.lt_or_eq_of_le above with less | same
            · omega
            · exact absurd (by rw [same]) different
          refine inv.observe alone task rfl (by cases l <;> rfl) (by rfl) ⟨consumes, rfl, ?_⟩
          have held := queued.unread _ _ le_rfl (List.getElem?_eq_getElem pending)
          rw [List.getElem?_eq_getElem pending, ← held]
          simp [Act.exec, place_mod divides]
      | _ => exact permitted.elim
  | writeEntry r' k message =>
      obtain ⟨rfl, permitted⟩ := permitted
      cases mode with
      | checked d p c₁ =>
          obtain ⟨room, rfl, rfl⟩ := permitted
          exact inv.writeEntry divides fits alone task room
      | _ => exact permitted.elim
  | storeProducer r' v =>
      obtain ⟨rfl, permitted⟩ := permitted
      cases mode with
      | written d p =>
          obtain ⟨rfl, _⟩ := permitted
          exact inv.storeProducer alone task
      | _ => exact permitted.elim
  | storeConsumer r' v =>
      obtain ⟨rfl, permitted⟩ := permitted
      cases mode with
      | taken d c₁ message =>
          subst v
          exact inv.storeConsumer alone task
      | _ => exact permitted.elim
  | _ => exact permitted.elim

/-- The invariant of every run over a ring whose depth divides the index range. -/
theorem ringInv_reachable (divides : depth ∣ u32) (fits : depth < u32) {c : RingConfig}
    (reach : (ringSystem r).Reachable (ringFresh r depth) oneEachSide c) : RingInv r depth c := by
  refine System.Reachable.disciplinedInvariant ringSystem_disciplined ?_ ?_ ?_ reach
  · rintro s ⟨entries, fresh⟩
    simp only [ringInitialize] at fresh
    split at fresh
    · cases fresh
    · refine ⟨?_, ?_⟩
      · have ring : s.rings r = { producer := 0, consumer := 0, depth, entries } :=
          (Except.ok.inj fresh).symm
        simp only [System.initial, ring]
        exact ⟨rfl, rfl, rfl, Nat.le_refl _, Nat.zero_le _, rfl, fun k message _ h => by cases h⟩
      · intro t x hx
        cases hx
  · intro c t l inv _ _
    refine ⟨inv.queued, ?_⟩
    intro u x hx runX
    rcases update_eq_some.mp hx with ⟨rfl, rfl⟩ | ⟨_, hx⟩
    · trivial
    · exact inv.modes u x hx runX
  · intro c t e l mode β action next inv reached _ task follows
    exact inv.act divides fits (reached.exclusive fun _ _ turns => turns) task follows.1

end Invariant

/-! ## What the calls return -/

section Results

variable {r : Nat}

/-- The descriptor that a call in this mode has taken out. -/
def RingMode.taking (_ : RingCall) : RingMode → Option Message
  | .gone message => some message
  | _ => none

/-- The descriptor that a call in this mode has published. -/
def RingMode.publishing (l : RingCall) (m : RingMode) : Option Message :=
  match l, m with
  | .push message, .stored => some message
  | _, _ => none

theorem obtained_iff_taking {t u : Nat} {l : RingCall} {mode : RingMode} {β : Type}
    {action : Act β} {answer : β} (permitted : ringPermits r l mode action) (message : Message) :
    RingEvent.obtained ⟨t, l, mode, action, answer⟩ = some (u, message) ↔
      t = u ∧ RingMode.taking l (ringNext mode action answer) = some message := by
  cases action with
  | readDepth | loadProducer | loadConsumer | readEntry | writeEntry | storeProducer
  | storeConsumer =>
      cases mode <;> simp_all [ringPermits, ringNext, RingEvent.obtained, RingMode.taking]
  | _ => exact permitted.elim

theorem accepted_iff_publishing {t u : Nat} {l : RingCall} {mode : RingMode} {β : Type}
    {action : Act β} {answer : β} (permitted : ringPermits r l mode action) (message : Message) :
    RingEvent.accepted ⟨t, l, mode, action, answer⟩ = some (u, message) ↔
      t = u ∧ RingMode.publishing l (ringNext mode action answer) = some message := by
  cases action with
  | readDepth | loadProducer | loadConsumer | readEntry | writeEntry | storeProducer
  | storeConsumer =>
      cases mode <;> cases l <;>
        simp_all [ringPermits, ringNext, RingEvent.accepted, RingMode.publishing,
          RingCall.produces]
  | _ => exact permitted.elim

theorem not_marked_of_permits {l : RingCall} {mode : RingMode} {β : Type} {action : Act β}
    (permitted : ringPermits r l mode action) :
    RingMode.taking l mode = none ∧ RingMode.publishing l mode = none := by
  cases mode with
  | gone message => cases action <;> simp [ringPermits] at permitted
  | stored => cases action <;> simp [ringPermits] at permitted
  | _ => exact ⟨rfl, by cases l <;> rfl⟩

variable {init : Mem → Prop} {ok : RingConfig → Move Env RingCall → Prop} {c : RingConfig}

/-- A call in a mode that permits nothing has returned, and its result fits the mode. -/
theorem returned_of_marked (reach : (ringSystem r).Reachable init ok c) {t : Nat} {l : RingCall}
    {mode : RingMode} {rest : Prog RingResult} (found : c.tasks t = some ⟨l, mode, rest⟩)
    (marked : RingMode.taking l mode ≠ none ∨ RingMode.publishing l mode ≠ none) :
    ∃ result, rest = .done result ∧ ringEnds l mode result := by
  have follows := reach.follows ringSystem_disciplined t _ found
  cases rest with
  | done result => exact ⟨result, rfl, follows⟩
  | act action next =>
      obtain ⟨idle, silent⟩ := not_marked_of_permits follows.1
      rcases marked with took | published
      · exact absurd idle took
      · exact absurd silent published

/-- The calls that took a descriptor out are the ones that returned it. -/
theorem mem_obtained_iff (reach : (ringSystem r).Reachable init ok c) (t : Nat)
    (message : Message) : (t, message) ∈ c.obtained ↔
      ∃ task, c.tasks t = some task ∧ task.rest = .done (.popped (.ok message)) := by
  refine (reach.marked ringSystem_disciplined (fun _ => rfl)
    (fun _ _ _ _ _ _ _ _ permitted => obtained_iff_taking permitted _)
    (fun _ _ _ _ permitted => (not_marked_of_permits permitted).1) t message).trans ?_
  constructor
  · rintro ⟨⟨l, mode, rest⟩, found, taken⟩
    obtain ⟨result, rfl, ends⟩ := returned_of_marked reach found
      (.inl (by rw [taken]; exact Option.some_ne_none _))
    refine ⟨_, found, ?_⟩
    cases mode with
    | gone obtained =>
        cases taken
        rcases result with status | (status | other)
        · exact ends.elim
        · exact ends.elim
        · rw [ends.1]
    | _ => cases taken
  · rintro ⟨⟨l, mode, rest⟩, found, ended⟩
    cases ended
    refine ⟨_, found, ?_⟩
    have ends : ringEnds l mode (.popped (.ok message)) :=
      reach.follows ringSystem_disciplined t _ found
    cases mode with
    | gone obtained => exact congrArg some ends.1.symm
    | _ => exact ends.elim

/-- The pushes that published a descriptor are the ones that returned OK without
    finding a pending duplicate. -/
theorem mem_accepted_iff (reach : (ringSystem r).Reachable init ok c) (t : Nat)
    (message : Message) : (t, message) ∈ c.accepted ↔
      ∃ task, c.tasks t = some task ∧ task.label = .push message ∧
        task.rest = .done (.pushed .ok) ∧ task.mode = .stored := by
  refine (reach.marked ringSystem_disciplined (fun l => by cases l <;> rfl)
    (fun _ _ _ _ _ _ _ _ permitted => accepted_iff_publishing permitted _)
    (fun _ _ _ _ permitted => (not_marked_of_permits permitted).2) t message).trans ?_
  constructor
  · rintro ⟨⟨l, mode, rest⟩, found, published⟩
    obtain ⟨result, rfl, ends⟩ := returned_of_marked reach found
      (.inr (by rw [published]; exact Option.some_ne_none _))
    cases l with
    | push pushed =>
        cases mode with
        | stored =>
            cases published
            cases result with
            | pushed status => exact ⟨_, found, rfl, by rw [ends.1], rfl⟩
            | popped => exact ends.elim
        | _ => cases published
    | pop => cases published
    | peekCommit => cases published
  · rintro ⟨⟨l, mode, rest⟩, found, rfl, rfl, rfl⟩
    exact ⟨_, found, rfl⟩

end Results

/-- A ring whose depth divides the index range is a queue in every run. -/
theorem fifo_of_dvd {r depth : Nat} (divides : depth ∣ u32) (fits : depth < u32)
    {c : RingConfig} (reach : (ringSystem r).Reachable (ringFresh r depth) oneEachSide c) :
    Fifo r depth c := by
  have inv := ringInv_reachable divides fits reach
  have queued := inv.queued
  refine ⟨?_, ?_, mem_obtained_iff reach, mem_accepted_iff reach, ?_⟩
  · rw [queued.order]
    exact List.take_prefix _ _
  · intro k message untaken present
    rw [place_mod divides]
    exact queued.unread k message (by rwa [List.length_map]) present
  · intro t l mode next found produces
    have follows := reach.follows ringSystem_disciplined t _ found
    have known := inv.modes t _ found (by intro a h; cases h)
    obtain ⟨⟨_, permitted⟩, after⟩ := follows
    cases mode with
    | producer d p =>
        obtain ⟨_, rfl, rfl⟩ := known
        have loaded := after (c.shared.rings r).consumer
        have distance : sub32 ((c.accepted.map Prod.snd).length % u32)
            (c.shared.rings r).consumer = c.accepted.length - c.obtained.length := by
          have bound := queued.pending_le
          rw [queued.consumer_eq, sub32_eq queued.taken_le (by omega), List.length_map,
            List.length_map]
        have taken := queued.taken_le
        have pending := queued.pending_le
        simp only [List.length_map] at taken pending distance
        generalize next (c.shared.rings r).consumer = rest at loaded ⊢
        cases rest with
        | act action further =>
            have room : sub32 (c.accepted.length % u32) (c.shared.rings r).consumer < d := by
              have allowed := loaded.1
              cases action <;> simp_all [ringSystem, ringPermits, ringNext]
            constructor
            · intro ended
              cases ended
            · intro whole
              omega
        | done result =>
            cases result with
            | popped => exact loaded.elim
            | pushed status =>
                simp only [Program.done.injEq, RingResult.pushed.injEq]
                rcases loaded with ⟨rfl, fullNow⟩ | ⟨rfl, roomNow⟩
                · simp only [List.length_map] at fullNow
                  exact ⟨fun _ => by omega, fun _ => rfl⟩
                · simp only [List.length_map] at roomNow
                  exact ⟨fun h => (nomatch h), fun _ => by omega⟩
    | sized d =>
        rw [produces] at permitted
        cases permitted
    | taken d c₁ message =>
        rw [show l.produces = false from known.1] at produces
        cases produces
    | _ => exact permitted.elim

/-! ## Other depths -/

section Overwrite

open Program

variable {r depth : Nat}

/-- The duplicate search reads on to its end when no pending entry matches. -/
theorem ringScan_solo (t : Nat) {message : Message} {m : Mem} {p c : Nat}
    {Q : Bool → RingMode → Mem → List RingEvent → Prop} (left : Nat)
    (ends : ∀ events, events.filterMap RingEvent.accepted = [] →
      events.filterMap RingEvent.obtained = [] → Q false (.checked depth p c) m events) :
    ∀ position, position < u32 → (∀ j, j < left →
      ((m.rings r).entries ((position + j) % u32 % depth)).same message = false) →
    System.Solo (ringDiscipline r) t (.push message) (ringScan r message depth left position) Q
      (.checked depth p c) m := by
  induction left generalizing Q with
  | zero =>
      intro position _ _
      exact ends [] rfl rfl
  | succ left ih =>
      intro position small different
      have here := different 0 (Nat.succ_pos left)
      rw [Nat.add_zero, Nat.mod_eq_of_lt small] at here
      simp only [ringScan, lift_bind, System.solo_act]
      refine ⟨default, ?_⟩
      simp only [exec_eq, Act.exec, here, ringDiscipline_next, ringNext]
      refine ih ?_ _ (Nat.mod_lt _ (by decide)) ?_
      · intro events noneAccepted noneObtained
        exact ends _ noneAccepted noneObtained
      · intro j before
        have later := different (j + 1) (Nat.succ_lt_succ before)
        rw [Nat.add_comm j 1, ← Nat.add_assoc] at later
        rwa [Nat.mod_add_mod]

/-- A push into a ring with room and without a pending duplicate. -/
theorem ringPush_solo (t : Nat) (message : Message) {m : Mem} {p q : Nat}
    {entries : Nat → Message} (ring : m.rings r = ⟨p, q, depth, entries⟩) (large : 2 ≤ depth)
    (small : q < u32) (room : sub32 p q < depth)
    (different : ∀ j, j < sub32 p q → (entries ((q + j) % u32 % depth)).same message = false) :
    System.Solo (ringDiscipline r) t (.push message) (RingCall.program r (.push message))
      (fun _ _ m' events =>
        m'.rings r = ⟨(p + 1) % u32, q, depth, Function.update entries (p % depth) message⟩ ∧
        (events.filterMap RingEvent.accepted).map Prod.snd = [message] ∧
        (events.filterMap RingEvent.obtained).map Prod.snd = []) .start m := by
  simp only [RingCall.program, ringPush, lift_bind, act_bind]
  refine ⟨default, ?_⟩
  simp only [exec_eq, Act.exec, ring, show ¬depth < 2 by omega, if_false, act_bind,
    ringDiscipline_next, ringNext]
  refine ⟨default, default, ?_⟩
  simp only [exec_eq, Act.exec, ring, show ¬sub32 p q ≥ depth by omega, if_false,
    ringDiscipline_next, ringNext]
  refine System.Solo.bind (System.Solo.bind (ringScan_solo t _ ?_ q small (by rwa [ring])))
  intro events noneAccepted noneObtained
  refine ⟨default, default, ?_⟩
  simp only [exec_eq, Act.exec, Mem.setRing, ring, Function.update_self, ringDiscipline_next,
    ringNext]
  refine ⟨Function.update_self _ _ _, ?_, ?_⟩
  · simp only [List.filterMap_cons, List.filterMap_append, List.filterMap_nil, noneAccepted,
      RingEvent.accepted, List.nil_append, List.append_nil, List.map_cons, List.map_nil]
  · simp only [List.filterMap_cons, List.filterMap_append, List.filterMap_nil, noneObtained,
      RingEvent.obtained, List.append_nil, List.map_nil]

/-- A pop from a ring that is not empty. -/
theorem ringPop_solo (t : Nat) {m : Mem} {p q : Nat} {entries : Nat → Message}
    (ring : m.rings r = ⟨p, q, depth, entries⟩) (large : 2 ≤ depth) (pending : q ≠ p) :
    System.Solo (ringDiscipline r) t .pop (RingCall.program r .pop)
      (fun _ _ m' events => m'.rings r = ⟨p, (q + 1) % u32, depth, entries⟩ ∧
        (events.filterMap RingEvent.accepted).map Prod.snd = [] ∧
        (events.filterMap RingEvent.obtained).map Prod.snd = [entries (q % depth)]) .start m := by
  simp only [RingCall.program, ringPop, lift_bind, act_bind]
  refine ⟨default, ?_⟩
  simp only [exec_eq, Act.exec, ring, show ¬depth < 2 by omega, if_false, act_bind,
    ringDiscipline_next, ringNext]
  refine ⟨default, default, ?_⟩
  simp only [exec_eq, Act.exec, ring, pending, if_false, act_bind, ringDiscipline_next, ringNext]
  refine ⟨default, default, ?_⟩
  simp only [exec_eq, Act.exec, Mem.setRing, ring, ringDiscipline_next, ringNext]
  refine ⟨Function.update_self _ _ _, ?_, ?_⟩
  · simp only [List.filterMap_cons, List.filterMap_nil, RingEvent.accepted, List.map_nil]
  · simp only [List.filterMap_cons, List.filterMap_nil, RingEvent.obtained, List.map_cons,
      List.map_nil]

/-- A reachable configuration between calls, with its ring and both sequences. -/
structure Between (r depth : Nat) (c : RingConfig) (used p q : Nat) (entries : Nat → Message)
    (accepted obtained : List Message) : Prop where
  reach : (ringSystem r).Reachable (ringFresh r depth) oneEachSide c
  fresh : ∀ t, used ≤ t → c.tasks t = none
  idle : ∀ t task, c.tasks t = some task → ¬task.Running
  ring : c.shared.rings r = ⟨p, q, depth, entries⟩
  accepted_eq : c.accepted.map Prod.snd = accepted
  obtained_eq : c.obtained.map Prod.snd = obtained

/-- One more call, made when no call is running. -/
theorem Between.call {c : RingConfig} {used p q p' q' : Nat} {entries entries' : Nat → Message}
    {accepted obtained pushed popped : List Message}
    (now : Between r depth c used p q entries accepted obtained) (l : RingCall)
    (run : System.Solo (ringDiscipline r) used l (RingCall.program r l)
      (fun _ _ m' events => m'.rings r = ⟨p', q', depth, entries'⟩ ∧
        (events.filterMap RingEvent.accepted).map Prod.snd = pushed ∧
        (events.filterMap RingEvent.obtained).map Prod.snd = popped) .start c.shared) :
    ∃ c', Between r depth c' (used + 1) p' q' entries' (accepted ++ pushed)
      (obtained ++ popped) := by
  obtain ⟨a, mode, m', events, ⟨ring, accepts, obtains⟩, reach⟩ :=
    now.reach.call (now.fresh used le_rfl)
      (fun u task found _ => now.idle u task found) (fun _ _ => trivial) run
  refine ⟨_, reach, ?_, ?_, ring, ?_, ?_⟩
  · intro t later
    exact (Function.update_of_ne (by omega) _ _).trans (now.fresh t (by omega))
  · intro t task found
    rcases update_eq_some.mp found with ⟨rfl, rfl⟩ | ⟨_, old⟩
    · exact fun running => running a rfl
    · exact now.idle t task old
  · rw [← now.accepted_eq, ← accepts]
    simp only [RingConfig.accepted, List.filterMap_append, List.map_append]
  · rw [← now.obtained_eq, ← obtains]
    simp only [RingConfig.obtained, List.filterMap_append, List.map_append]

theorem Between.push {c : RingConfig} {used p q : Nat} {entries : Nat → Message}
    {accepted obtained : List Message}
    (now : Between r depth c used p q entries accepted obtained) (message : Message)
    (large : 2 ≤ depth) (small : q < u32) (room : sub32 p q < depth)
    (different : ∀ j, j < sub32 p q → (entries ((q + j) % u32 % depth)).same message = false) :
    ∃ c', Between r depth c' (used + 1) ((p + 1) % u32) q
      (Function.update entries (p % depth) message) (accepted ++ [message]) obtained := by
  have run := now.call _ (ringPush_solo used message now.ring large small room different)
  simpa only [List.append_nil] using run

theorem Between.pop {c : RingConfig} {used p q : Nat} {entries : Nat → Message}
    {accepted obtained : List Message}
    (now : Between r depth c used p q entries accepted obtained)
    (large : 2 ≤ depth) (pending : q ≠ p) :
    ∃ c', Between r depth c' (used + 1) p ((q + 1) % u32) entries accepted
      (obtained ++ [entries (q % depth)]) := by
  have run := now.call _ (ringPop_solo used now.ring large pending)
  simpa only [List.append_nil] using run

/-- Every index is reached with an empty ring. -/
theorem between_empty (large : 2 ≤ depth) (n : Nat) (below : n < u32) :
    ∃ c used entries sequence, Between r depth c used n n entries sequence sequence ∧
      sequence.length = n := by
  induction n with
  | zero =>
      let m : Mem := { (default : Mem) with rings := fun _ => ⟨0, 0, depth, fun _ => default⟩ }
      have fresh : ringFresh r depth m :=
        ⟨fun _ => default, by simp only [ringInitialize, show ¬depth < 2 by omega, if_false, m]⟩
      refine ⟨System.initial m, 0, _, [], ⟨.start fresh, fun _ _ => rfl, ?_, rfl, rfl, rfl⟩, rfl⟩
      intro t task found
      cases found
  | succ n ih =>
      obtain ⟨c, used, entries, sequence, now, count⟩ := ih (by omega)
      have empty : sub32 n n = 0 := by
        simp only [sub32, u32] at *
        omega
      obtain ⟨c₁, after⟩ := now.push default large (by omega) (by omega)
        (fun j before => by omega)
      rw [Nat.mod_eq_of_lt below] at after
      obtain ⟨c₂, final⟩ := after.pop large (by omega)
      rw [Nat.mod_eq_of_lt below, Function.update_self] at final
      exact ⟨c₂, used + 1 + 1, _, sequence ++ [default], final, by simp [count]⟩

/-- Descriptors that differ in their handle. -/
def numbered (k : Nat) : Message := { (default : Message) with handle := k }

theorem numbered_same {j k : Nat} (different : j ≠ k) :
    (numbered j).same (numbered k) = false := by
  simp [numbered, Message.same, different]

/-- Behind the wrap the places start over from the first one. -/
theorem place_wrap {k : Nat} (below : k < depth) (fits : depth < u32) :
    (u32 - 1 + (k + 1)) % u32 % depth = k := by
  have wrapped : (u32 - 1 + (k + 1)) % u32 = k := by
    simp only [u32] at *
    omega
  rw [wrapped, Nat.mod_eq_of_lt below]

/-- The places of the pushes around the wrap differ up to the one that meets the first. -/
theorem place_wrap_ne {j k : Nat} (before : j < k) (below : k ≤ (u32 - 1) % depth)
    (large : 2 ≤ depth) (fits : depth < u32) :
    (u32 - 1 + j) % u32 % depth ≠ (u32 - 1 + k) % u32 % depth := by
  have short : (u32 - 1) % depth < depth := Nat.mod_lt _ (by omega)
  obtain ⟨k, rfl⟩ : ∃ k', k = k' + 1 := ⟨k - 1, by omega⟩
  rw [place_wrap (by omega) fits]
  cases j with
  | zero =>
      rw [Nat.add_zero, Nat.mod_eq_of_lt (show u32 - 1 < u32 by decide)]
      omega
  | succ j =>
      rw [place_wrap (by omega) fits]
      omega

/-- Pushes from the last index before the wrap, up to the place of the first of them. -/
theorem between_wrap (large : 2 ≤ depth) (fits : depth < u32) (k : Nat)
    (below : k ≤ (u32 - 1) % depth + 1) (room : (u32 - 1) % depth + 1 < depth) :
    ∃ c used entries sequence, Between r depth c used ((u32 - 1 + k) % u32) (u32 - 1) entries
        (sequence ++ (List.range k).map numbered) sequence ∧ sequence.length = u32 - 1 ∧
      ∀ j, j < k → entries ((u32 - 1 + j) % u32 % depth) = numbered j := by
  induction k with
  | zero =>
      obtain ⟨c, used, entries, sequence, now, count⟩ :=
        between_empty (r := r) large (u32 - 1) (by decide)
      refine ⟨c, used, entries, sequence, ?_, count, fun j before => by omega⟩
      simpa using now
  | succ k ih =>
      obtain ⟨c, used, entries, sequence, now, count, stored⟩ := ih (by omega)
      have pending : sub32 ((u32 - 1 + k) % u32) (u32 - 1) = k := by
        simp only [sub32, u32] at *
        omega
      obtain ⟨c₁, after⟩ := now.push (numbered k) large (by decide) (by omega) (by
        intro j before
        rw [pending] at before
        rw [stored j before]
        exact numbered_same (by omega))
      rw [Nat.mod_add_mod, List.append_assoc] at after
      rw [List.range_succ, List.map_append]
      refine ⟨c₁, used + 1, _, sequence, after, count, ?_⟩
      intro j before
      rcases Nat.lt_or_eq_of_le (Nat.le_of_lt_succ before) with earlier | rfl
      · rw [Function.update_of_ne (place_wrap_ne earlier (by omega) large fits)]
        exact stored j earlier
      · exact Function.update_self _ _ _

/-- A depth that does not divide the index range loses an unread descriptor: behind the
    wrap the producer meets the place of the first pending one before the ring is full. -/
theorem overwritten_of_not_dvd (large : 2 ≤ depth) (fits : depth < u32)
    (divides : ¬depth ∣ u32) :
    ∃ c : RingConfig, (ringSystem r).Reachable (ringFresh r depth) oneEachSide c ∧
      ¬c.obtained.map Prod.snd <+: c.accepted.map Prod.snd := by
  have short : (u32 - 1) % depth < depth := Nat.mod_lt _ (by omega)
  have room : (u32 - 1) % depth + 1 < depth := by
    rcases Nat.lt_or_eq_of_le (Nat.succ_le_of_lt short) with less | full
    · exact less
    · have whole : u32 = depth * ((u32 - 1) / depth + 1) := by
        have split := Nat.div_add_mod (u32 - 1) depth
        rw [Nat.mul_add, Nat.mul_one]
        simp only [u32] at *
        omega
      exact absurd (Dvd.intro _ whole.symm) divides
  obtain ⟨c, used, entries, sequence, now, count, stored⟩ :=
    between_wrap (r := r) large fits ((u32 - 1) % depth + 1) le_rfl room
  have producer : (u32 - 1 + ((u32 - 1) % depth + 1)) % u32 = (u32 - 1) % depth := by
    simp only [u32] at *
    omega
  have pending : sub32 ((u32 - 1) % depth) (u32 - 1) = (u32 - 1) % depth + 1 := by
    simp only [sub32, u32] at *
    omega
  rw [producer] at now
  obtain ⟨c₁, pushed⟩ := now.push (numbered ((u32 - 1) % depth + 1)) large (by decide)
    (by omega) (by
      intro j before
      rw [pending] at before
      rw [stored j before]
      exact numbered_same (by omega))
  obtain ⟨c₂, popped⟩ := pushed.pop large (by simp only [u32] at *; omega)
  refine ⟨c₂, popped.reach, ?_⟩
  rw [popped.accepted_eq, popped.obtained_eq, Nat.mod_mod, Function.update_self,
    List.append_assoc, List.prefix_append_right_inj, List.range_succ_eq_map]
  intro lost
  obtain ⟨rest, same⟩ := lost
  have heads := congrArg (fun l => l.head?.map Message.handle) same
  simp [numbered] at heads

end Overwrite

/-- For a depth that the ring accepts, every run is that of a queue exactly when the depth
    divides `2 ^ 32`. -/
theorem fifo_iff_dvd (r depth : Nat) (accepted : 2 ≤ depth) (fits : depth < u32) :
    (∀ c, (ringSystem r).Reachable (ringFresh r depth) oneEachSide c → Fifo r depth c) ↔
      depth ∣ u32 := by
  constructor
  · intro always
    by_contra other
    obtain ⟨c, reach, lost⟩ := overwritten_of_not_dvd (r := r) accepted fits other
    exact lost (always c reach).order
  · intro divides c reach
    exact fifo_of_dvd divides fits reach

theorem fifo_iff_dvd_four : 2 ≤ 4 ∧ (4 : Nat) < u32 ∧
    ((∀ c, (ringSystem 0).Reachable (ringFresh 0 4) oneEachSide c → Fifo 0 4 c) ↔ 4 ∣ u32) :=
  ⟨by decide, by decide, fifo_iff_dvd 0 4 (by decide) (by decide)⟩

/-- With three places a consumer gets a descriptor out of order. -/
theorem three_places_lose_order : ¬∀ c : RingConfig,
    (ringSystem 0).Reachable (ringFresh 0 3) oneEachSide c →
    c.obtained.map Prod.snd <+: c.accepted.map Prod.snd := by
  intro always
  obtain ⟨c, reach, lost⟩ := overwritten_of_not_dvd (r := 0) (show 2 ≤ 3 by decide) (by decide)
    (by decide)
  exact lost (always c reach)

end Zipc
