import Zipc.Stranding
import Zipc.Adoption
import Zipc.Fifo

/-! # Delivery from end to end

Two links over one ring carry buffers from a sender to a receiver, while other calls work on
other slots and links. The descriptors between the consumer and the producer index name the
slots that are in transit: each of them stays in `TRANSFER` until its descriptor is
consumed, so that no other descriptor can name it and nobody else can change it. What was
sent is therefore what was received, followed by what is in transit.
-/

namespace Zipc

open Atomic Program

/-- What a buffer carries: its identity, that of its parent, and its logical data. -/
structure Parcel where
  id : Nat
  parentId : Nat
  bytes : List Nat
  deriving Repr, DecidableEq

def SlotCore.parcel (c : SlotCore) : Parcel where
  id := c.identity.id
  parentId := c.identity.parentId
  bytes := (List.range c.region.length).map fun k => c.payload (c.region.offset + k)

/-- The two links are the ends of one ring. -/
structure Joined (tx rx : Link) (r : Nat) : Prop where
  outward : tx.transport.ring = some r
  inward : rx.transport.ring = some r
  source : rx.remoteComponent = tx.localComponent
  destination : tx.remoteComponent = rx.localComponent

/-- Slot `i` is named by a descriptor between the two indices of the ring. -/
def Ring.Carries (ring : Ring) (i : Nat) : Prop :=
  ∃ k, k < sub32 ring.producer ring.consumer ∧
    handleSlotId (ring.entries ((ring.consumer + k) % u32 % ring.depth)).handle = i

/-- The call leaves the slots in transit on ring `r` alone. -/
def Elsewhere (r : Nat) (m m' : Mem) : Prop := ∀ i, (m.rings r).Carries i → m'.core i = m.core i

/-- The calls beside the two links: sends on `tx` are of buffers without a deadline, other
    links use other rings, and what the sender and the receiver do on other links is about
    other slots. There is no restart and no recovery. -/
def ApiCall.Orderly (tx rx : Link) (r : Nat) (m m' : Mem) : ApiCall → Prop
  | .send link buffer =>
      if link = tx then ∀ v, buffer = some v → (m.core v.slotId).deadlineNs = deadlineNone
      else link.transport.ring ≠ some r ∧
        (link.localComponent = tx.localComponent → Elsewhere r m m')
  | .recv link _ =>
      link = rx ∨ link.transport.ring ≠ some r ∧
        (link.localComponent = rx.localComponent → Elsewhere r m m')
  | .claim _ receiver => receiver = rx.localComponent → Elsewhere r m m'
  | .restartNext _ | .recoverOwner _ _ _ | .recoverClaiming | .reconcile _ _ _ => False
  | _ => True

/-- What a call hands over on `tx`. -/
def sentBy (accepts : Status → Bool) (tx : Link) (m : Mem) (call : ApiCall) (outcome : Outcome) :
    List Parcel :=
  match call with
  | .send link (some v) =>
      if link = tx ∧ accepts outcome.status = true then [(m.core v.slotId).parcel] else []
  | _ => []

/-- What a call returns from `rx`. -/
def receivedBy (rx : Link) (m : Mem) (call : ApiCall) (outcome : Outcome) : List Parcel :=
  match call, outcome.buffer with
  | .recv link _, some v =>
      if link = rx ∧ outcome.status = .ok then [(m.core v.slotId).parcel] else []
  | _, _ => []

/-- A run of complete calls, with what it sent on `tx` and what it received from `rx`. -/
inductive Traffic (accepts : Status → Bool) (pool : Pool) (tx rx : Link) (r : Nat) :
    Session → List Parcel → List Parcel → Prop where
  | start {s : Session} {depth : Nat} {entries : Nat → Message} : s.Starts pool →
      ringInitialize depth entries = .ok (s.mem.rings r) → Traffic accepts pool tx rx r s [] []
  | call {s : Session} {out got : List Parcel} {call : ApiCall} {outcome : Outcome} {m : Mem} :
      Traffic accepts pool tx rx r s out got → call.Legal s → call.Orderly tx rx r s.mem m →
      CompletesIn sheltered (call.program pool) s.mem (some outcome) m →
      Traffic accepts pool tx rx r (s.after outcome m) (out ++ sentBy accepts tx s.mem call outcome)
        (got ++ receivedBy rx m call outcome)
  | fill {s : Session} {out got : List Parcel} {v : View} (bytes : Nat → Nat) :
      Traffic accepts pool tx rx r s out got → v ∈ s.views → Valid s.mem v →
      Traffic accepts pool tx rx r { s with mem := s.mem.fill v bytes } out got
  | tick {s : Session} {out got : List Parcel} (clock : Nat) : Traffic accepts pool tx rx r s out got →
      Traffic accepts pool tx rx r { s with mem := { s.mem with clock } } out got

/-! ## What is in transit -/

/-- The transfer of a descriptor is live, addressed to `rx` and without a deadline. -/
structure InTransit (pool : Pool) (rx : Link) (m : Mem) (message : Message) : Prop where
  live : Live pool rx ⟨message, m⟩
  home : message.poolId = pool.poolId
  source : message.sourceComponent = rx.remoteComponent
  destination : message.destinationComponent = rx.localComponent
  deadline : (m.core (handleSlotId message.handle)).deadlineNs = deadlineNone

/-- What the descriptors of the ring carry. -/
def Mem.parcels (m : Mem) (messages : List Message) : List Parcel :=
  messages.map fun message => (m.core (handleSlotId message.handle)).parcel

/-- The ring holds the descriptors `messages`, and what was sent is what was received
    followed by what they carry. -/
structure Carried (pool : Pool) (rx : Link) (r : Nat) (m : Mem) (messages : List Message)
    (out got : List Parcel) : Prop where
  deep : 2 ≤ (m.rings r).depth
  producer : (m.rings r).producer = out.length
  consumer : (m.rings r).consumer = got.length
  room : messages.length ≤ (m.rings r).depth
  entries : ∀ k (inside : k < messages.length),
    (m.rings r).entries ((got.length + k) % (m.rings r).depth) = messages[k]
  transit : ∀ message, message ∈ messages → InTransit pool rx m message
  apart : (messages.map fun message => handleSlotId message.handle).Nodup
  total : out = got ++ m.parcels messages

theorem InTransit.same {pool : Pool} {rx : Link} {m m' : Mem} {message : Message}
    (transit : InTransit pool rx m message)
    (core : m'.core (handleSlotId message.handle) = m.core (handleSlotId message.handle)) :
    InTransit pool rx m' message := by
  obtain ⟨⟨inside, state, generation, owner, next, sequence⟩, home, source, destination, deadline⟩ :=
    transit
  refine ⟨⟨inside, ?_, ?_, ?_, ?_, ?_⟩, home, source, destination, core ▸ deadline⟩
  all_goals
    dsimp only
    rw [core]
    assumption

section Carried

variable {pool : Pool} {rx : Link} {r : Nat} {m m' : Mem} {messages : List Message}
  {out got : List Parcel}

theorem Carried.length (carried : Carried pool rx r m messages out got) :
    out.length = got.length + messages.length := by
  rw [carried.total, Mem.parcels, List.length_append, List.length_map]

theorem Carried.count (carried : Carried pool rx r m messages out got) (few : out.length < u32) :
    sub32 (m.rings r).producer (m.rings r).consumer = messages.length := by
  have length := carried.length
  rw [carried.producer, carried.consumer]
  unfold sub32
  unfold u32 at *
  omega

/-- The slots in transit are those of the descriptors. -/
theorem Carried.carries (carried : Carried pool rx r m messages out got) (few : out.length < u32)
    {message : Message} (here : message ∈ messages) :
    (m.rings r).Carries (handleSlotId message.handle) := by
  have length := carried.length
  obtain ⟨k, inside, rfl⟩ := List.getElem_of_mem here
  refine ⟨k, carried.count few ▸ inside, ?_⟩
  have small : got.length + k < u32 := by omega
  rw [carried.consumer, Nat.mod_eq_of_lt small, carried.entries k inside]

/-- Only the ring and the slots of its descriptors matter. -/
theorem Carried.same (carried : Carried pool rx r m messages out got)
    (ring : m'.rings r = m.rings r) (cores : ∀ message, message ∈ messages →
      m'.core (handleSlotId message.handle) = m.core (handleSlotId message.handle)) :
    Carried pool rx r m' messages out got := by
  obtain ⟨deep, producer, consumer, room, entries, transit, apart, total⟩ := carried
  refine ⟨ring ▸ deep, ring ▸ producer, ring ▸ consumer, ring ▸ room, ?_, ?_, apart, ?_⟩
  · rw [ring]
    exact entries
  · exact fun message here => (transit message here).same (cores message here)
  · rw [total]
    congr 1
    exact List.map_congr_left fun message here => by rw [cores message here]

/-- A step that leaves the ring and the slots in transit alone. -/
theorem Carried.frame (carried : Carried pool rx r m messages out got) (few : out.length < u32)
    (ring : m'.rings r = m.rings r) (elsewhere : Elsewhere r m m') :
    Carried pool rx r m' messages out got :=
  carried.same ring fun _ here => elsewhere _ (carried.carries few here)

/-- A descriptor is appended to the ring. -/
theorem Carried.push {message : Message} (carried : Carried pool rx r m messages out got)
    (space : messages.length < (m.rings r).depth) (cores : ∀ i, m'.core i = m.core i)
    (ring : m'.rings r = { m.rings r with
      producer := out.length + 1
      entries := Function.update (m.rings r).entries (out.length % (m.rings r).depth) message })
    (transit : InTransit pool rx m message)
    (fresh : ∀ old, old ∈ messages → handleSlotId old.handle ≠ handleSlotId message.handle) :
    Carried pool rx r m' (messages ++ [message])
      (out ++ [(m.core (handleSlotId message.handle)).parcel]) got := by
  have length := carried.length
  obtain ⟨deep, producer, consumer, room, entries, moving, apart, total⟩ := carried
  have same : m'.parcels (messages ++ [message]) = m.parcels (messages ++ [message]) := by
    refine List.map_congr_left fun old _ => ?_
    rw [cores]
  refine ⟨?_, ?_, ?_, ?_, ?_, ?_, ?_, ?_⟩
  · rw [ring]
    exact deep
  · rw [ring, List.length_append]
    rfl
  · rw [ring]
    exact consumer
  · rw [ring, List.length_append]
    exact space
  · intro k inside
    rw [List.length_append, List.length_singleton] at inside
    rw [ring]
    dsimp only
    by_cases last : k = messages.length
    · subst last
      rw [← length, Function.update_self]
      simp
    · have before : k < messages.length := by omega
      have other : (got.length + k) % (m.rings r).depth ≠ out.length % (m.rings r).depth :=
        place_ne (by omega) (by omega)
      rw [Function.update_of_ne other, entries k before, List.getElem_append_left before]
  · intro old here
    refine InTransit.same ?_ (cores _)
    rcases List.mem_append.mp here with before | new
    · exact moving old before
    · rw [List.mem_singleton.mp new]
      exact transit
  · rw [List.map_append, List.nodup_append]
    refine ⟨apart, List.nodup_singleton _, ?_⟩
    intro i before j new
    obtain ⟨old, here, rfl⟩ := List.mem_map.mp before
    rw [List.map_singleton, List.mem_singleton] at new
    subst new
    exact fresh old here
  · rw [same, total, Mem.parcels, Mem.parcels, List.map_append, List.map_singleton,
      List.append_assoc]

/-- The descriptor at the head of the ring is consumed and its slot received. -/
theorem Carried.pop {message : Message}
    (carried : Carried pool rx r m (message :: messages) out got)
    (others : ∀ i, i ≠ handleSlotId message.handle → m'.core i = m.core i)
    (parcel : (m'.core (handleSlotId message.handle)).parcel =
      (m.core (handleSlotId message.handle)).parcel)
    (ring : m'.rings r = { m.rings r with consumer := got.length + 1 }) :
    Carried pool rx r m' messages out
      (got ++ [(m'.core (handleSlotId message.handle)).parcel]) := by
  obtain ⟨deep, producer, consumer, room, entries, moving, apart, total⟩ := carried
  rw [List.map_cons, List.nodup_cons] at apart
  have cores : ∀ old, old ∈ messages →
      m'.core (handleSlotId old.handle) = m.core (handleSlotId old.handle) := by
    intro old here
    refine others _ fun same => apart.1 ?_
    rw [← same]
    exact List.mem_map_of_mem here
  refine ⟨?_, ?_, ?_, ?_, ?_, ?_, apart.2, ?_⟩
  · rw [ring]
    exact deep
  · rw [ring]
    exact producer
  · rw [ring, List.length_append]
    rfl
  · rw [ring]
    exact (Nat.le_succ _).trans room
  · intro k inside
    have next := entries (k + 1) (Nat.succ_lt_succ inside)
    rw [List.getElem_cons_succ] at next
    rw [ring, List.length_append, List.length_singleton, Nat.add_assoc, Nat.add_comm 1 k]
    exact next
  · exact fun old here => (moving old (List.mem_cons_of_mem _ here)).same (cores old here)
  · have rest : m'.parcels messages = m.parcels messages :=
      List.map_congr_left fun old here => by rw [cores old here]
    rw [total, rest, parcel, List.append_assoc]
    rfl

end Carried

/-! ## The ring -/

section Rings

variable {pool : Pool} {rx : Link} {r : Nat} {m : Mem} {messages : List Message}
  {out got : List Parcel}

/-- The search for a duplicate finds none. -/
theorem ringScan_fresh (message : Message) (depth left : Nat) : ∀ position,
    (∀ k, k < left →
      ((m.rings r).entries ((position + k) % u32 % depth)).handle ≠ message.handle) →
    position < u32 →
    (ringScan r message depth left position).wps (Guarded pool)
      (fun pending m' => pending = false ∧ m' = m) m := by
  induction left with
  | zero => exact fun position fresh small => ⟨rfl, rfl⟩
  | succ left ih =>
      intro position fresh small
      simp only [ringScan, lift_bind]
      refine ⟨trivial, fun e => ?_⟩
      have here := fresh 0 (Nat.succ_pos left)
      rw [Nat.add_zero, Nat.mod_eq_of_lt small] at here
      refine wps_ite (fun same => ?_) (fun _ => ?_)
      · simp only [Message.same, exec_eq, Act.exec, Bool.and_eq_true] at same
        exact absurd (of_decide_eq_true same.1.1.1.1) here
      · refine ih _ (fun k inside => ?_) (Nat.mod_lt _ (by decide))
        have later := fresh (k + 1) (Nat.succ_lt_succ inside)
        rwa [Nat.mod_add_mod, Nat.add_assoc, Nat.add_comm 1 k]

/-- A push of a descriptor whose slot is not in transit is refused by a full ring, or
    appends the descriptor: it is never taken for a duplicate. -/
theorem ringPush_carried {message : Message} (carried : Carried pool rx r m messages out got)
    (few : out.length < u32)
    (fresh : ∀ old, old ∈ messages → handleSlotId old.handle ≠ handleSlotId message.handle) :
    (ringPush r message).wps (Guarded pool) (fun status m' =>
      (status = .transport ∧ m' = m) ∨
      (status = .ok ∧ messages.length < (m.rings r).depth ∧ m'.rings r = { m.rings r with
        producer := (out.length + 1) % u32
        entries := Function.update (m.rings r).entries (out.length % (m.rings r).depth) message }))
      m := by
  have length := carried.length
  have count := carried.count few
  simp only [ringPush, lift_bind]
  refine ⟨trivial, fun _ => wps_ite (fun shallow => ?_) (fun _ => ⟨trivial, fun _ => ?_⟩)⟩
  · exact absurd carried.deep (Nat.not_le.mpr shallow)
  refine ⟨trivial, fun _ => wps_ite (fun _ => .inl ⟨rfl, rfl⟩) (fun space => ?_)⟩
  simp only [exec_eq, Act.exec, count] at space ⊢
  rw [wps_bind]
  refine wps_mono (ringScan_fresh message _ _ _ ?_ ?_) ?_
  · intro k inside same
    have small : got.length + k < u32 := by omega
    rw [carried.consumer, Nat.mod_eq_of_lt small, carried.entries k inside] at same
    exact fresh _ (List.getElem_mem inside) (congrArg handleSlotId same)
  · rw [carried.consumer]
    omega
  · rintro pending m ⟨rfl, rfl⟩
    refine ⟨trivial, fun _ => ⟨trivial, fun _ => .inr ⟨rfl, Nat.lt_of_not_le space, ?_⟩⟩⟩
    simp [Act.exec, Mem.setRing, carried.producer]

/-- A send over the ring appends the descriptor, or leaves the ring alone and fails. -/
theorem transportSend_carried {t : Transport} {message : Message} (through : t.ring = some r)
    (carried : Carried pool rx r m messages out got) (few : out.length < u32)
    (fresh : ∀ old, old ∈ messages → handleSlotId old.handle ≠ handleSlotId message.handle) :
    (transportSend t message).wps (Guarded pool) (fun status m' =>
      (status = .transport ∧ m' = m) ∨
      ((status = .ok ∨ status = .transportPublished) ∧ messages.length < (m.rings r).depth ∧
        (∀ i, m'.core i = m.core i) ∧ m'.rings r = { m.rings r with
          producer := (out.length + 1) % u32
          entries := Function.update (m.rings r).entries (out.length % (m.rings r).depth) message }))
      m := by
  have pushes := wps_and (ringPush_carried carried few fresh)
    ((ringPush_aside (rfl : r = r) message).runs pool m)
  cases t with
  | external => cases through
  | polling q timeout =>
      cases through
      refine wps_mono pushes ?_
      rintro status m' ⟨⟨rfl, rfl⟩ | ⟨rfl, space, ring⟩, aside⟩
      · exact .inl ⟨rfl, rfl⟩
      · exact .inr ⟨.inl rfl, space, aside.cores, ring⟩
  | eventfd q =>
      cases through
      simp only [transportSend]
      rw [wps_bind]
      refine wps_mono pushes ?_
      rintro status m' ⟨⟨rfl, rfl⟩ | ⟨rfl, space, ring⟩, aside⟩
      · exact .inl ⟨rfl, rfl⟩
      · refine ⟨trivial, fun e => .inr ?_⟩
        -- the eventfd is beside the ring and the slots
        cases works : e.eventOk with
        | true =>
            simp only [exec_eq, Act.exec, works, if_true]
            exact ⟨.inl trivial, space, aside.cores, ring⟩
        | false =>
            simp only [exec_eq, Act.exec, works, Bool.false_eq_true, if_false]
            exact ⟨.inr trivial, space, aside.cores, ring⟩

end Rings

/-! ## Statuses of a send -/

/-- The descriptor of the sent buffer is in the ring: the send succeeded, or only its
    notification failed. -/
def handedOver (status : Status) : Bool := status = .ok || status = .transportPublished

section Statuses

variable {pool : Pool} {good : Env → Prop}

/-- Page protection never answers with the status of a transport. -/
def Unspoken (good : Env → Prop) : Prop := ∀ e, good e → e.protect ≠ .transportPublished

theorem unspoken_sheltered : Unspoken sheltered := by
  intro e works
  rw [works]
  nofun

theorem protectSlot_yields (unspoken : Unspoken good) (i : Nat) (readWrite : Bool) :
    Yields good (fun status => status = .ok ∨ handedOver status = false)
      (protectSlot pool i readWrite) := by
  unfold protectSlot
  refine yields_ite (fun _ => yields_done (.inl rfl)) fun _ => ?_
  refine yields_ite (fun _ => yields_done (.inr rfl)) fun _ => ?_
  refine yields_act fun e m allowed => yields_done ?_
  by_cases works : e.protect = .ok
  · exact .inl works
  · exact .inr (by simp [exec_eq, Act.exec, handedOver, works, unspoken e allowed])

theorem limitsExceeded_yields (i : Nat) :
    Yields good (fun exceeded => ∀ status, exceeded = some status → handedOver status = false)
      (limitsExceeded i) := by
  simp only [limitsExceeded, lift_bind]
  refine yields_act fun _ _ _ => yields_act fun _ _ _ => yields_ite (fun _ => yields_done ?_) ?_
  · rintro status ⟨⟩
    rfl
  refine fun _ => yields_act fun _ _ _ => yields_ite (fun _ => yields_done ?_) ?_
  · rintro status ⟨⟩
  refine fun _ => yields_act fun _ _ _ => yields_done fun status same => ?_
  split at same
  · cases same
    rfl
  · cases same

/-- A refused preparation hands nothing over. -/
theorem prepare_yields (unspoken : Unspoken good) (handle owner next linkId : Nat) :
    Yields good (fun result => ∀ status, result = .error status → handedOver status = false)
      (bufferPrepareTransferInternal pool handle owner next linkId) := by
  have fails {status : Status} {p : Prog Unit} (kept : handedOver status = false) :
      Yields good (fun result => ∀ status, result = .error status → handedOver status = false)
        (p >>= fun _ => (pure (.error status) : Prog (Except Status Message))) := by
    refine (yields_true p).bind fun _ _ => yields_done ?_
    rintro status ⟨⟩
    exact kept
  have refuses {status : Status} (kept : handedOver status = false) :
      Yields good (fun result => ∀ status, result = .error status → handedOver status = false)
        (pure (.error status) : Prog (Except Status Message)) := by
    refine yields_done ?_
    rintro status ⟨⟩
    exact kept
  unfold bufferPrepareTransferInternal
  refine yields_ite (fun _ => refuses rfl) fun _ => yields_ite (fun _ => fails rfl) fun _ => ?_
  refine (yields_true _).bind fun epoch _ => (yields_true _).bind fun state _ => ?_
  refine yields_ite (fun _ => fails rfl) fun _ => (yields_true _).bind fun generation _ => ?_
  refine yields_ite (fun _ => fails rfl) fun _ => (yields_true _).bind fun same _ => ?_
  refine yields_ite (fun _ => fails rfl) fun _ => (yields_true _).bind fun sequence _ => ?_
  refine (yields_true _).bind fun _ _ => (yields_true _).bind fun observed _ => ?_
  refine yields_ite (fun _ => refuses rfl) fun _ => (yields_true _).bind fun won _ => ?_
  refine yields_ite (fun _ => (yields_true _).bind fun _ _ => fails rfl) fun _ => ?_
  unfold prepareClaimed
  refine (yields_true _).bind fun generation _ => yields_ite (fun _ => ?_) fun _ => ?_
  · exact (yields_true _).bind fun _ _ => fails rfl
  refine (yields_true _).bind fun same _ => yields_ite (fun _ => ?_) fun _ => ?_
  · exact (yields_true _).bind fun _ _ => fails rfl
  refine (limitsExceeded_yields _).bind fun exceeded kept => ?_
  cases exceeded with
  | some status => exact (yields_true _).bind fun _ _ => fails (kept status rfl)
  | none =>
      refine (protectSlot_yields unspoken _ _).bind fun status answers => yields_ite (fun failed => ?_) ?_
      · exact (yields_true _).bind fun _ _ => fails (answers.resolve_left failed)
      · intro _
        unfold prepareTransfer
        iterate 15 refine (yields_true _).bind fun _ _ => ?_
        exact yields_done fun status same => by cases same

/-- A failed rollback hands nothing over. -/
theorem rollback_yields (unspoken : Unspoken good) (link : Link) (i : Nat) (message : Message) :
    Yields good (fun status => status ≠ .ok → handedOver status = false)
      (rollbackTransfer pool link i message) := by
  unfold rollbackTransfer
  refine (yields_true _).bind fun _ _ => yields_ite (fun _ => yields_done fun _ => rfl) fun _ => ?_
  refine (yields_true _).bind fun _ _ => (yields_true _).bind fun _ _ => ?_
  refine yields_ite (fun _ => yields_done fun _ => rfl) fun _ => (yields_true _).bind fun _ _ => ?_
  refine yields_ite (fun _ => (yields_true _).bind fun _ _ => yields_done fun _ => rfl) fun _ => ?_
  unfold rollbackClaimed
  refine (yields_true _).bind fun _ _ => yields_ite (fun _ => ?_) fun _ => ?_
  · exact (yields_true _).bind fun _ _ => yields_done fun _ => rfl
  refine (yields_true _).bind fun _ _ => (yields_true _).bind fun _ _ => ?_
  refine (yields_true _).bind fun _ _ => (protectSlot_yields unspoken _ _).bind fun status answers => ?_
  refine yields_ite (fun failed => yields_done fun _ => ?_) fun _ => ?_
  · exact answers.resolve_left failed
  · exact (yields_true _).bind fun _ _ => yields_done fun failed => absurd rfl failed

end Statuses

/-! ## The two calls -/

section Ends

variable {pool : Pool} {tx rx : Link} {r : Nat} {m m' : Mem} {messages : List Message}
  {out got : List Parcel}

/-- A slot that is not in `TRANSFER` is not in transit. -/
theorem Carried.apart_from (carried : Carried pool rx r m messages out got) {i : Nat}
    (busy : (m.core i).state ≠ .transfer) {message : Message} (here : message ∈ messages) :
    handleSlotId message.handle ≠ i := by
  rintro rfl
  exact busy (carried.transit message here).live.state

/-- A step on a slot that is not in transit. -/
theorem Carried.focus (carried : Carried pool rx r m messages out got) {i : Nat} {c : SlotCore}
    {log : List TraceRecord} (focus : Focus m i c log m')
    (other : ∀ message, message ∈ messages → handleSlotId message.handle ≠ i) :
    Carried pool rx r m' messages out got :=
  carried.same (congrFun focus.rings r) fun message here => focus.others _ (other message here)

/-- What the two links carry after a send of `parcel` on `tx`. -/
def SendCarries (pool : Pool) (rx : Link) (r : Nat) (parcel : Parcel) (out got : List Parcel)
    (status : Status) (m : Mem) : Prop :=
  ∀ out', out' = out ++ (if handedOver status = true then [parcel] else []) → out'.length < u32 →
    ∃ messages, Carried pool rx r m messages out' got

theorem SendCarries.kept {parcel : Parcel} {status : Status} (carried : Carried pool rx r m messages out got)
    (refused : handedOver status = false) : SendCarries pool rx r parcel out got status m := by
  rintro out' rfl _
  rw [refused, if_neg Bool.false_ne_true, List.append_nil]
  exact ⟨messages, carried⟩

/-- The delivery of a prepared transfer. -/
theorem sendPrepared_carried {v : View} {message : Message} (joined : Joined tx rx r)
    (well : PoolWell pool m) (inside : v.slotId < pool.slotCount)
    (carried : Carried pool rx r m messages out got) (few : out.length < u32)
    (slot : handleSlotId message.handle = v.slotId) (transit : InTransit pool rx m message)
    (fresh : ∀ old, old ∈ messages → handleSlotId old.handle ≠ v.slotId) :
    (sendPrepared pool tx v message).wpsIn sheltered (Guarded pool) (fun result m' =>
      SendCarries pool rx r (m.core v.slotId).parcel out got result.1 m') m := by
  have new : ∀ old, old ∈ messages → handleSlotId old.handle ≠ handleSlotId message.handle := by
    rw [slot]
    exact fresh
  simp only [sendPrepared]
  rw [wpsIn_bind]
  refine wpsIn_mono (wps.within (transportSend_carried joined.outward carried few new)) ?_
  rintro status a (⟨rfl, rfl⟩ | ⟨accepted, space, cores, ring⟩)
  · -- The ring is full: the rollback works on the slot of the buffer alone.
    refine wpsIn_ite (by simp) fun _ => wpsIn_ite (fun _ => ?_) fun ok => absurd (by simp) ok
    rw [wpsIn_bind]
    have yields : Yields sheltered (fun status => status ≠ .ok → handedOver status = false)
        (rollbackTransfer pool tx v.slotId message) := rollback_yields unspoken_sheltered tx v.slotId message
    refine wpsIn_mono (wpsIn_and (rollback_focused (well _ inside) a (.refl a v.slotId))
      (yields a)) ?_
    rintro undone b ⟨⟨c, log, focus, _⟩, kept⟩
    have after := carried.focus focus fresh
    refine wpsIn_ite (fun failed => ?_) fun _ => .kept after rfl
    rw [wpsIn_bind]
    have traces : StaysAside (fun _ => False) (traceExternalEvent pool message.handle
      message.transferSequence tx.localComponent .error) :=
      traceExternalEvent_aside _ _ _ _ _ ⟨by simp, by simp⟩
    refine wpsIn_mono (wps.within (traces.runs pool b)) ?_
    intro _ d aside
    exact .kept (after.same (aside.rings r fun used => used) fun _ _ => aside.cores _) (kept failed)
  · have pushed : ∀ m', (∀ i, m'.core i = m.core i) → m'.rings r = a.rings r → ∀ status,
        handedOver status = true →
        SendCarries pool rx r (m.core v.slotId).parcel out got status m' := by
      rintro m' same here status yes out' rfl small
      rw [yes, if_pos rfl] at small ⊢
      rw [List.length_append, List.length_singleton] at small
      rw [← slot]
      refine ⟨_, carried.push space same ?_ transit new⟩
      rw [here, ring, Nat.mod_eq_of_lt small]
    rcases accepted with rfl | rfl
    · refine wpsIn_ite (by simp) fun _ => wpsIn_ite (fun failed => absurd rfl failed) fun _ => ?_
      exact pushed a cores rfl _ rfl
    · refine wpsIn_ite (fun _ => ?_) fun other => absurd rfl other
      rw [wpsIn_bind]
      have traces : StaysAside (fun _ => False) (traceExternalEvent pool message.handle
        message.transferSequence tx.localComponent .error) :=
        traceExternalEvent_aside _ _ _ _ _ ⟨by simp, by simp⟩
      refine wpsIn_mono (wps.within (traces.runs pool a)) ?_
      intro _ d aside
      exact pushed d (fun i => (aside.cores i).trans (cores i))
        (aside.rings r fun used => used) _ rfl

/-- A send on `tx`. -/
theorem send_carried {v : View} (joined : Joined tx rx r) (placed : ViewWell pool v)
    (well : PoolWell pool m) (carried : Carried pool rx r m messages out got)
    (few : out.length < u32) (unlimited : (m.core v.slotId).deadlineNs = deadlineNone) :
    (send pool tx (some v)).wpsIn sheltered (Guarded pool) (fun result m' =>
      SendCarries pool rx r (m.core v.slotId).parcel out got result.1 m') m := by
  simp only [send]
  rw [wpsIn_bind]
  refine wpsIn_mono (wps.within (bufferOwned_alone pool m v)) ?_
  rintro owned m ⟨rfl, valid⟩
  cases owned with
  | false => exact .kept carried rfl
  | true =>
      have valid := valid.mp rfl
      have fresh : ∀ old, old ∈ messages → handleSlotId old.handle ≠ v.slotId := by
        refine fun old here => carried.apart_from ?_ here
        rw [valid.state]
        intro done
        cases done
      simp only
      rw [wpsIn_bind]
      refine wpsIn_mono (wps.within (epochCurrent_alone pool m _ _)) ?_
      rintro current m ⟨rfl, _⟩
      refine wpsIn_ite (fun _ => .kept carried rfl) fun same => ?_
      refine wpsIn_ite (fun _ => .kept carried rfl) fun mine => ?_
      rw [wpsIn_bind]
      have slot : handleSlotId v.handle = v.slotId := placed.slot.symm
      have prepares : (bufferPrepareTransferInternal pool v.handle tx.localComponent
          tx.remoteComponent tx.linkId).wpsIn sheltered (Guarded pool) _ m :=
        prepare_focused (fun inside => well _ inside) m (.refl m (handleSlotId v.handle))
      have yields : Yields sheltered (fun result => ∀ status, result = .error status →
          handedOver status = false) (bufferPrepareTransferInternal pool v.handle
            tx.localComponent tx.remoteComponent tx.linkId) :=
          prepare_yields unspoken_sheltered _ _ _ _
      refine wpsIn_mono (wpsIn_and prepares (yields m)) ?_
      rintro (status | message) a ⟨⟨c, log, focus, ends⟩, kept⟩
      · rw [slot] at focus
        exact .kept (carried.focus focus fresh) (kept status rfl)
      have settles := (ends.prepares focus).1.well well
      rw [slot] at focus ends
      obtain ⟨_, failed, _⟩ | sent := ends
      · cases failed
      obtain ⟨inside, _, generation, own, _, _, _, ⟨access, _, rfl⟩, _, result⟩ := sent
      cases result
      have core := focus.core
      have parcel : (a.core v.slotId).parcel = (m.core v.slotId).parcel := by
        rw [core]
        rfl
      rw [← parcel]
      refine sendPrepared_carried joined settles placed.inside (carried.focus focus fresh) few slot
        ?_ fresh
      refine ⟨⟨?_, ?_, ?_, ?_, ?_, ?_⟩, rfl, joined.source.symm, joined.destination, ?_⟩
      all_goals simp only [slot, core]
      · exact inside
      · rfl
      · exact generation
      · exact own
      · exact joined.destination
      · rfl
      · exact unlimited

/-! A receive on `rx`. -/

theorem receiveCommit_carried {t : Transport} {token : ReceiveToken} (through : t.ring = some r)
    (deep : 2 ≤ (m.rings r).depth) (position : token.position = some (m.rings r).consumer) :
    (receiveCommit t token).wps (Guarded pool) (fun status m' => status = .ok ∧
      m' = m.setRing r { m.rings r with consumer := ((m.rings r).consumer + 1) % u32 }) m := by
  simp only [receiveCommit, position, through, ringCommit, lift_bind]
  refine ⟨trivial, fun _ => wps_ite (fun shallow => ?_) fun _ => ⟨trivial, fun _ => ?_⟩⟩
  · exact absurd deep (Nat.not_le.mpr shallow)
  · exact wps_ite (fun moved => absurd rfl moved) fun _ => ⟨trivial, fun _ => ⟨rfl, rfl⟩⟩

theorem recvMessage_carried {message : Message} {token : ReceiveToken}
    (valid : componentIdValid rx.localComponent = true) (through : rx.transport.ring = some r)
    (well : PoolWell pool m) (carried : Carried pool rx r m (message :: messages) out got)
    (few : out.length < u32) (position : token.position = some (m.rings r).consumer) :
    (recvMessage pool rx message token).wpsIn sheltered (Guarded pool) (fun ended m' =>
      ∃ v, ended = some (.ok, some v) ∧
        Carried pool rx r m' messages out (got ++ [(m'.core v.slotId).parcel])) m := by
  have length := carried.length
  have transit := carried.transit message List.mem_cons_self
  have deliverable : Deliverable pool rx ⟨message, m⟩ :=
    ⟨transit.source, transit.home, transit.destination, .inl transit.deadline⟩
  simp only [recvMessage]
  refine wpsIn_ite (fun foreign => absurd transit.source foreign) fun _ => ?_
  rw [wpsIn_bind]
  have claims : (bufferClaim pool message rx.localComponent).wpsIn sheltered (Guarded pool) _ m :=
    claim_focusedIn (fun inside => well _ inside) m (.refl m _)
  refine wpsIn_mono claims ?_
  rintro ⟨status, buffer⟩ a ⟨c, log, focus, ends⟩
  have verdict : claimVerdict pool m.clock (m.core (handleSlotId message.handle)) message
      rx.localComponent = none := by
    rcases transit.live.verdict valid transit.source with ⟨_, _, refused, _⟩ | ⟨passed, _⟩
    · exact absurd deliverable refused
    · exact passed
  simp only [ClaimEndsIn, verdict] at ends
  rcases ends with ⟨same, ⟨access, _, rfl⟩, _⟩ | ⟨_, _, _, ⟨_, unprotected⟩, _⟩
  · cases same
    simp only
    rw [wpsIn_bind]
    have ring : a.rings r = m.rings r := congrFun focus.rings r
    have ready : token.position = some (a.rings r).consumer := by rw [ring, position]
    refine wpsIn_mono (wps.within (receiveCommit_carried through (ring ▸ carried.deep) ready)) ?_
    rintro committed b ⟨rfl, rfl⟩
    rw [if_pos trivial, if_neg (not_not.mpr rfl)]
    refine ⟨_, rfl, carried.pop (fun i other => focus.others i other) ?_ ?_⟩
    · have beside (ring : Ring) : (a.setRing r ring).core (handleSlotId message.handle) =
          a.core (handleSlotId message.handle) := rfl
      rw [beside, focus.core]
      rfl
    · have small : got.length + 1 < u32 := by
        rw [List.length_cons] at length
        omega
      simp only [Mem.setRing, Function.update_self, ring, carried.consumer, Nat.mod_eq_of_lt small]
  · rcases unprotected with outside | ⟨e, works, fails⟩
    · exact absurd transit.live.inside (Nat.not_lt.mpr outside)
    · exact absurd works fails

/-- What the two links carry after a receive on `rx`. -/
def RecvCarries (pool : Pool) (rx : Link) (r : Nat) (out got : List Parcel)
    (ended : Option (Status × Option View)) (m : Mem) : Prop :=
  ∀ status buffer, ended = some (status, buffer) → ∃ messages, match buffer with
    | none => Carried pool rx r m messages out got
    | some v => status = .ok ∧
        Carried pool rx r m messages out (got ++ [(m.core v.slotId).parcel])

theorem recv_carried (valid : componentIdValid rx.localComponent = true)
    (through : rx.transport.ring = some r) (well : PoolWell pool m)
    (carried : Carried pool rx r m messages out got) (few : out.length < u32) (fuel : Nat) :
    (recv pool rx fuel).wpsIn sheltered (Guarded pool) (RecvCarries pool rx r out got) m := by
  have idle {a : Mem} (still : Carried pool rx r a messages out got) (status : Status) :
      RecvCarries pool rx r out got (some (status, none)) a := by
    rintro _ _ ⟨⟩
    exact ⟨messages, still⟩
  simp only [recv]
  rw [wpsIn_bind]
  refine wpsIn_mono (wps.within (epochCurrent_alone pool m _ _)) ?_
  rintro current m ⟨rfl, _⟩
  refine wpsIn_ite (fun _ => idle carried _) fun _ => ?_
  cases fuel with
  | zero => exact fun _ _ done => by cases done
  | succ fuel =>
      simp only [recvLoop]
      rw [wpsIn_bind]
      refine wpsIn_mono (wps.within (wps_and (receiveBegin_peeks pool rx.transport fuel m)
        ((receiveBegin_aside rx.transport (fun _ => False) fuel).runs pool m))) ?_
      rintro begun a ⟨peeks, aside⟩
      have ring : a.rings r = m.rings r := aside.rings r fun used => used
      have still := carried.same ring fun _ _ => aside.cores _
      cases begun with
      | none => exact fun _ _ done => by cases done
      | some begun =>
          cases begun with
          | error status => exact idle still status
          | ok received =>
              obtain ⟨message, token⟩ := received
              have peeked := peeks message token rfl
              simp only [Peeked, through] at peeked
              obtain ⟨_, position, pending, next⟩ := peeked
              cases messages with
              | nil =>
                  have length := still.length
                  rw [still.consumer, still.producer] at pending
                  exact absurd length.symm pending
              | cons head rest =>
                  have first := still.entries 0 (Nat.succ_pos _)
                  rw [Nat.add_zero, ← still.consumer, ← next] at first
                  subst first
                  simp only
                  rw [wpsIn_bind]
                  have settles : Settles pool noReach m a := aside.settles fun _ used => used
                  refine wpsIn_mono (recvMessage_carried valid through (settles.well well) still few
                    position) ?_
                  rintro ended b ⟨v, rfl, received⟩
                  rintro status buffer ⟨⟩
                  exact ⟨rest, rfl, received⟩

end Ends

/-! ## The other calls -/

section Others

variable {pool : Pool} {tx rx : Link} {r : Nat} {m m' : Mem} {messages : List Message}
  {out got : List Parcel} {reach : Reach}

/-- A slot out of reach stays as it is. -/
theorem Lives.outside (lives : Lives pool reach m m') {i : Nat}
    (far : ¬reach.slot i (m.core i)) : m'.core i = m.core i := by
  refine lives.preserve (P := fun a => a.core i = m.core i) (fun a b step same => ?_) rfl
  cases step.step with
  | still cores _ _ => rw [cores, same]
  | @life j log _ reached _ others _ =>
      by_cases here : i = j
      · subst here
        rw [same] at reached
        exact absurd reached far
      · rw [others i here, same]

theorem Lives.ring (lives : Lives pool reach m m') (far : ¬reach.ring r) :
    m'.rings r = m.rings r :=
  lives.preserve (P := fun a => a.rings r = m.rings r)
    (fun _ _ step same => (step.rings r far).trans same) rfl

/-- A call whose reach excludes the ring and the transfers from the sender to the receiver. -/
theorem Carried.bystands (carried : Carried pool rx r m messages out got)
    (lives : Lives pool reach m m') (ring : ¬reach.ring r)
    (far : ∀ i c, c.state = .transfer → c.ownerId = rx.remoteComponent →
      c.nextOwnerId = rx.localComponent → ¬reach.slot i c) :
    Carried pool rx r m' messages out got := by
  refine carried.same (lives.ring ring) fun message here => lives.outside ?_
  have transit := carried.transit message here
  exact far _ _ transit.live.state (transit.live.owner.trans transit.source) transit.live.next

theorem Traffic.reached {accepts : Status → Bool} {s : Session}
    (traffic : Traffic accepts pool tx rx r s out got) : s.Reached pool anyStep := by
  induction traffic with
  | start starts _ => exact ⟨_, starts, .refl⟩
  | call _ legal _ run ih =>
      obtain ⟨first, starts, leads⟩ := ih
      exact ⟨first, starts, leads.tail ⟨.call legal run.completes, trivial⟩⟩
  | fill bytes _ known valid ih =>
      obtain ⟨first, starts, leads⟩ := ih
      exact ⟨first, starts, leads.tail ⟨.fill bytes known valid, trivial⟩⟩
  | tick clock _ ih =>
      obtain ⟨first, starts, leads⟩ := ih
      exact ⟨first, starts, leads.tail ⟨.tick clock, trivial⟩⟩

/-- A call that is neither a send on `tx` nor a receive on `rx`. -/
theorem Carried.beside {s : Session} {call : ApiCall} {outcome : Outcome} (joined : Joined tx rx r)
    (reached : s.Reached pool anyStep) (carried : Carried pool rx r s.mem messages out got)
    (few : out.length < u32) (legal : call.Legal s) (orderly : call.Orderly tx rx r s.mem m)
    (run : Completes (call.program pool) s.mem (some outcome) m)
    (sends : ∀ buffer, call ≠ .send tx buffer) (receives : ∀ fuel, call ≠ .recv rx fuel) :
    Carried pool rx r m messages out got := by
  have lives := (run.sound (ApiCall.delivers reached.well legal).wp).lives
  have owner {v : View} (reach : call.reach = ownerReach v.owner) :
      Carried pool rx r m messages out got := by
    rw [reach] at lives
    exact carried.bystands lives id fun i c sent _ _ own => by cases sent.symm.trans own.1
  have optional {buffer : Option View}
      (reach : call.reach = buffer.elim noReach fun v => ownerReach v.owner) :
      Carried pool rx r m messages out got := by
    cases buffer with
    | none =>
        rw [reach] at lives
        exact carried.bystands lives id fun i c _ _ _ => id
    | some v => exact owner reach
  cases call with
  | life | heartbeat | linkCreate | fromHandle =>
      exact carried.bystands lives id fun i c _ _ _ => id
  | allocate | allocEx =>
      exact carried.bystands lives id fun i c sent _ _ free => by cases sent.symm.trans free
  | setRegion buffer | append buffer | prepend buffer | trimFront buffer | trimBack buffer
  | resize buffer | setLimits buffer | release buffer | put link buffer =>
      exact optional rfl
  | prepareTransfer | poolRelease =>
      exact carried.bystands lives id fun i c sent _ _ own => by cases sent.symm.trans own.1
  | send link buffer =>
      simp only [ApiCall.Orderly] at orderly
      split at orderly
      · rename_i same
        exact absurd (same ▸ rfl) (sends buffer)
      · by_cases same : link.localComponent = tx.localComponent
        · exact carried.frame few (lives.ring orderly.1) (orderly.2 same)
        · refine carried.bystands lives orderly.1 fun i c _ own _ touched => same ?_
          rw [← touched.2, own, joined.source]
  | recv link fuel =>
      rcases orderly with same | ⟨other, elsewhere⟩
      · exact absurd (same ▸ rfl) (receives fuel)
      · by_cases same : link.localComponent = rx.localComponent
        · exact carried.frame few (lives.ring other) (elsewhere same)
        · refine carried.bystands lives other fun i c _ _ next touched => same ?_
          rw [← touched.2, next]
  | claim message receiver =>
      by_cases same : receiver = rx.localComponent
      · exact carried.frame few (lives.ring id) (orderly same)
      · refine carried.bystands lives id fun i c _ _ next touched => same ?_
        rw [← touched.2, next]
  | restartNext | recoverOwner | recoverClaiming | reconcile => cases orderly

end Others

/-! ## The whole run -/

section Runs

variable {pool : Pool} {tx rx : Link} {r : Nat} {out got : List Parcel} {s : Session}

theorem Traffic.carried (joined : Joined tx rx r)
    (traffic : Traffic handedOver pool tx rx r s out got) :
    out.length < u32 → ∃ messages, Carried pool rx r s.mem messages out got := by
  induction traffic with
  | @start s depth entries starts initialized =>
      intro _
      simp only [ringInitialize] at initialized
      split at initialized
      · cases initialized
      · rename_i deep
        injection initialized with ring
        refine ⟨[], ?_, ?_, ?_, ?_, ?_, ?_, List.nodup_nil, rfl⟩
        · rw [← ring]
          exact Nat.le_of_not_lt deep
        · rw [← ring]
          rfl
        · rw [← ring]
          rfl
        · exact Nat.zero_le _
        · intro k inside
          cases inside
        · intro message here
          cases here
  | @call s out got call outcome m before legal orderly run ih =>
      intro few
      have less : out.length < u32 := by
        rw [List.length_append] at few
        omega
      obtain ⟨messages, carried⟩ := ih less
      have well := before.reached.well
      by_cases sends : ∃ buffer, call = .send tx buffer
      · obtain ⟨buffer, rfl⟩ := sends
        have unreceived : receivedBy rx m (.send tx buffer) outcome = [] := rfl
        rw [unreceived, List.append_nil]
        cases buffer with
        | none =>
            have same : outcome = { status := .invalidBuffer } ∧ m = s.mem := by
              cases run
              exact ⟨rfl, rfl⟩
            obtain ⟨rfl, rfl⟩ := same
            have nothing : sentBy handedOver tx s.mem (.send tx none) { status := .invalidBuffer } =
              [] := rfl
            rw [nothing, List.append_nil]
            exact ⟨messages, carried⟩
        | some v =>
            simp only [ApiCall.Orderly, if_true] at orderly
            have carries := send_carried joined (well.views v (legal.2 v rfl)) well.slots carried less
              (orderly v rfl)
            have ends : (bufferOutcome (send pool tx (some v))).wpsIn sheltered (Guarded pool)
                (fun result m' => ∀ outcome, result = some outcome →
                  SendCarries pool rx r (s.mem.core v.slotId).parcel out got outcome.status m')
                s.mem := by
              simp only [bufferOutcome]
              rw [wpsIn_bind]
              refine wpsIn_mono carries ?_
              rintro ⟨status, buffer⟩ m' kept outcome ⟨⟩
              exact kept
            refine run.sound ends outcome rfl _ ?_ few
            simp only [sentBy, true_and]
      by_cases receives : ∃ fuel, call = .recv rx fuel
      · obtain ⟨fuel, rfl⟩ := receives
        have unsent : sentBy handedOver tx s.mem (.recv rx fuel) outcome = [] := rfl
        rw [unsent, List.append_nil]
        have carries := recv_carried (before.reached.links legal) joined.inward well.slots carried less
          fuel
        have ends : ((ApiCall.recv rx fuel).program pool).wpsIn sheltered (Guarded pool)
            (fun result m' => ∀ outcome, result = some outcome → ∃ messages,
              Carried pool rx r m' messages out (got ++ receivedBy rx m' (.recv rx fuel) outcome))
            s.mem := by
          simp only [ApiCall.program]
          rw [wpsIn_bind]
          refine wpsIn_mono carries ?_
          rintro result m' kept outcome same
          obtain ⟨⟨status, buffer⟩, rfl, rfl⟩ := Option.map_eq_some_iff.mp same
          obtain ⟨messages, carried⟩ := kept status buffer rfl
          refine ⟨messages, ?_⟩
          cases buffer with
          | none => simpa [receivedBy] using carried
          | some v =>
              obtain ⟨rfl, carried⟩ := carried
              simpa [receivedBy] using carried
        exact run.sound ends outcome rfl
      · have sentNone : sentBy handedOver tx s.mem call outcome = [] := by
          unfold sentBy
          split
          · exact if_neg fun both => sends ⟨_, by rw [both.1]⟩
          · rfl
        have receivedNone : receivedBy rx m call outcome = [] := by
          unfold receivedBy
          split
          · exact if_neg fun both => receives ⟨_, by rw [both.1]⟩
          · rfl
        rw [sentNone, receivedNone, List.append_nil, List.append_nil]
        exact ⟨messages, carried.beside joined before.reached less legal orderly run.completes
          (fun buffer same => sends ⟨buffer, same⟩) fun fuel same => receives ⟨fuel, same⟩⟩
  | @fill s out got v bytes before known valid ih =>
      intro few
      obtain ⟨messages, carried⟩ := ih few
      have well := before.reached.well
      have lives := (fill_settles (well.views v known) well.slots valid bytes).lives
      exact ⟨messages, carried.bystands lives id fun i c sent _ _ own => by
        cases sent.symm.trans own.1⟩
  | tick clock _ ih =>
      intro few
      obtain ⟨messages, carried⟩ := ih few
      exact ⟨messages, carried.same rfl fun _ _ => rfl⟩

end Runs

/-! ## A notification that fails -/

/-- A call in which the environment gives every action the input `e`. -/
theorem Traffic.runs {accepts : Status → Bool} {pool : Pool} {tx rx : Link} {r : Nat} {s : Session}
    {out got : List Parcel} {e : Env} {m : Mem} (traffic : Traffic accepts pool tx rx r s out got)
    (call : ApiCall) (outcome : Outcome) (legal : call.Legal s)
    (orderly : call.Orderly tx rx r s.mem m) (works : e.protect = .ok)
    (run : (call.program pool).runWith e s.mem = (some outcome, m)) :
    Traffic accepts pool tx rx r (s.after outcome m) (out ++ sentBy accepts tx s.mem call outcome)
      (got ++ receivedBy rx m call outcome) := by
  have allowed : sheltered e := works
  have completes := runWith_completesIn allowed (call.program pool) s.mem
  rw [run] at completes
  exact traffic.call legal orderly completes

/-- A call of `Session.run` that neither sends nor receives. -/
theorem Traffic.silent {accepts : Status → Bool} {pool : Pool} {tx rx : Link} {r : Nat}
    {s : Session} {out got : List Parcel} (traffic : Traffic accepts pool tx rx r s out got)
    (call : ApiCall) (legal : call.Legal s) (orderly : ∀ m, call.Orderly tx rx r s.mem m)
    (ends : ((call.program pool).runWith default s.mem).1.isSome = true)
    (sends : ∀ outcome, sentBy accepts tx s.mem call outcome = [])
    (receives : ∀ m outcome, receivedBy rx m call outcome = []) :
    Traffic accepts pool tx rx r (s.run pool call) out got := by
  cases run : (call.program pool).runWith default s.mem with
  | mk result m =>
      cases result with
      | none =>
          rw [run] at ends
          cases ends
      | some outcome =>
          have next := traffic.runs call outcome legal (orderly m) rfl run
          rw [sends, receives, List.append_nil, List.append_nil] at next
          simpa only [Session.run, run] using next

/-- The ends of a ring with an eventfd. -/
def notifyingLink : Link := { sendingLink with transport := .eventfd 0 }

/-- Components 1 and 2 have opened the two ends and component 1 has a buffer. -/
def listening : Session :=
  [.life (.register 1 1), .life (.register 1 2),
    .linkCreate { sendingConfig with transport := .eventfd 0 } .ok,
    .linkCreate { receivingConfig with transport := .eventfd 0 } .ok,
    .allocate 1 0].foldl (Session.run smallPool) ringed

/-- Component 1 sends its buffer while the eventfd refuses the notification. -/
def refusing : Env := { eventOk := false }

def publishing : Option Outcome × Mem :=
  ((ApiCall.send notifyingLink (some allocatedView)).program smallPool).runWith refusing
    listening.mem

def published : Session := listening.after { status := .transportPublished } publishing.2

end Zipc
