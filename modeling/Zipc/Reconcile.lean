import Zipc.Lib.Queue
import Zipc.Republish
import Zipc.Interrupted

/-! # What a reconciliation leaves

`zipc_link_reconcile` repairs one end of a link after its component was terminated. The
producer's end undoes sends that were cut off and publishes every transfer of the terminated
runtime again; the consumer's end puts back claims that were cut off and drops the descriptors
in front of the ring that name no transfer. Both are described for any memory that a death may
have left, with the ring read as the queue of its descriptors.
-/

namespace Zipc

open Atomic Program

/-! ## The ring as a queue -/

/-- The descriptors that wait in the ring, in order. -/
def Ring.queue (ring : Ring) : List Message :=
  (List.range (sub32 ring.producer ring.consumer)).map fun n =>
    ring.entries ((ring.consumer + n) % u32 % ring.depth)

/-- A ring whose depth divides the index range, wherever its counters are. -/
structure RingRound (ring : Ring) : Prop extends RingSound ring where
  divides : ring.depth ∣ u32

/-- The ring behind its first descriptor. -/
def Ring.popped (ring : Ring) : Ring := { ring with consumer := (ring.consumer + 1) % u32 }

section Queue

variable {ring : Ring} {r : Nat} {m : Mem} {message : Message}

/-- The entries from a position on, the first one apart. -/
theorem entries_range {entries : Nat → Message} {depth position : Nat} (small : position < u32)
    (left : Nat) :
    (List.range (left + 1)).map (fun n => entries ((position + n) % u32 % depth)) =
      entries (position % depth) ::
        (List.range left).map fun n => entries (((position + 1) % u32 + n) % u32 % depth) := by
  rw [List.range_succ_eq_map, List.map_cons, List.map_map, Nat.add_zero, Nat.mod_eq_of_lt small]
  congr 1
  apply List.map_congr_left
  intro n _
  rw [Function.comp_apply, Nat.mod_add_mod, Nat.add_assoc, Nat.succ_eq_add_one, Nat.add_comm n 1]

@[simp] theorem Ring.queue_length (ring : Ring) :
    ring.queue.length = sub32 ring.producer ring.consumer := by
  simp [Ring.queue]

theorem RingSound.queue_le (sound : RingSound ring) : ring.queue.length ≤ ring.depth := by
  rw [Ring.queue_length]
  exact sound.full

theorem RingRound.pushed (round : RingRound ring) (room : ring.queue.length < ring.depth) :
    RingRound (ring.pushed message) where
  toRingSound := (round.toRingSound.pushed (by simpa using room)).1
  divides := round.divides

/-- A push appends. -/
theorem RingRound.queue_pushed (round : RingRound ring) (room : ring.queue.length < ring.depth)
    (message : Message) : (ring.pushed message).queue = ring.queue ++ [message] := by
  rw [Ring.queue_length] at room
  have words := round.counters
  have fits := round.fits
  have next : sub32 ((ring.producer + 1) % u32) ring.consumer =
      sub32 ring.producer ring.consumer + 1 := by
    unfold sub32 at *
    unfold u32 at *
    omega
  have last : ring.producer % ring.depth =
      (ring.consumer + sub32 ring.producer ring.consumer) % ring.depth := by
    have whole : (ring.consumer + sub32 ring.producer ring.consumer) % u32 = ring.producer := by
      unfold sub32 at *
      unfold u32 at *
      omega
    rw [← place_mod round.divides (ring.consumer + _), whole]
  unfold Ring.queue
  simp only [Ring.pushed, next, List.range_succ, List.map_append, List.map_singleton]
  congr 1
  · apply List.map_congr_left
    intro n inside
    have before := List.mem_range.mp inside
    apply Function.update_of_ne
    rw [place_mod round.divides, last]
    exact place_ne (by omega) (by omega)
  · rw [place_mod round.divides, ← last, Function.update_self]

theorem Ring.queue_nil_iff (words : ring.producer < u32 ∧ ring.consumer < u32) :
    ring.queue = [] ↔ ring.consumer = ring.producer := by
  rw [← List.length_eq_zero_iff, Ring.queue_length]
  unfold sub32
  unfold u32 at *
  omega

/-- The descriptor at the consumer index is the first of the queue. -/
theorem Ring.queue_cons (words : ring.producer < u32 ∧ ring.consumer < u32)
    (waits : ring.consumer ≠ ring.producer) :
    ring.queue = ring.entries (ring.consumer % ring.depth) :: ring.popped.queue := by
  have fewer : sub32 ring.producer ring.consumer =
      sub32 ring.producer ((ring.consumer + 1) % u32) + 1 := by
    unfold sub32
    unfold u32 at *
    omega
  unfold Ring.queue
  rw [fewer, entries_range words.2]
  rfl

/-- The search for a pending duplicate goes through the queue. -/
theorem ringScan_queue (message : Message) (depth left : Nat) : ∀ position, position < u32 →
    Looks m (ringScan r message depth left position) (.done (((List.range left).map fun n =>
      (m.rings r).entries ((position + n) % u32 % depth)).any (·.same message))) := by
  induction left with
  | zero => exact fun _ _ => .here _
  | succ left ih =>
      intro position small
      have rest := ih ((position + 1) % u32) (Nat.mod_lt _ (by decide))
      simp only [ringScan, lift_bind]
      rw [entries_range small, List.any_cons]
      refine .act _ (fun _ => rfl) ?_
      by_cases here : ((m.rings r).entries (position % depth)).same message = true
      · rw [if_pos here, here, Bool.true_or]
        exact .here _
      · rw [if_neg here, Bool.eq_false_iff.mpr here, Bool.false_or]
        exact rest

/-- With room, a push appends a descriptor that is missing. -/
theorem ringPush_queue (round : RingRound (m.rings r))
    (room : (m.rings r).queue.length < (m.rings r).depth) (message : Message) :
    Goes m (ringPush r message)
      (if (m.rings r).queue.any (·.same message) then m
        else m.setRing r ((m.rings r).pushed message)) (.done .ok) := by
  refine (ringPush_looks round.deep).goes.trans ?_
  rw [Ring.queue_length] at room
  rw [if_neg (Nat.not_le.mpr room)]
  refine (ringScan_queue message _ _ _ round.counters.2).goes.bind ?_
  change Goes m (if (m.rings r).queue.any (·.same message) then _ else _) _ _
  split
  · exact .here _ _
  · refine .act () (fun _ => rfl) (.act () (fun _ => ?_) (.here _ _))
    simp [Act.exec, Mem.setRing, Ring.pushed]

end Queue

/-! ## The producer's end -/

instance (restart : Restart) (token : Nat) : Decidable (Abandoned restart token) :=
  inferInstanceAs (Decidable (_ ∧ _))

instance (link : Link) (restart : Restart) (m : Mem) (i : Nat) :
    Decidable (Reissues link restart m i) :=
  inferInstanceAs (Decidable (_ ∧ _))

/-- What the producer's end leaves of a slot. -/
def SlotControl.republished (restart : Restart) (s : SlotControl) : SlotControl :=
  if s.state = .claiming ∧ Abandoned restart s.claimToken then s.recalled
  else if s.state = .transfer then s.probed restart
  else s

/-- The descriptors of the transfers over the link among `len` slots from `i` on. -/
def Mem.descriptors (m : Mem) (pool : Pool) (link : Link) (restart : Restart) (i len : Nat) :
    List Message :=
  ((List.range' i len).filter fun j => decide (Reissues link restart m j)).map fun j =>
    reissue pool link restart j (m.slots j)

/-- The producer's end over `len` slots from `i` on: the slots are repaired, and the ring is
    offered the descriptors of the transfers. -/
structure Republishes (pool : Pool) (link : Link) (restart : Restart) (r : Nat) (m : Mem)
    (i len : Nat) (m' : Mem) : Prop where
  slots : ∀ j, m'.slots j =
    if i ≤ j ∧ j < i + len then (m.slots j).republished restart else m.slots j
  queue : (m'.rings r).queue =
    (m.descriptors pool link restart i len).foldl (appendMissing Message.same) (m.rings r).queue
  round : RingRound (m'.rings r)
  depth : (m'.rings r).depth = (m.rings r).depth
  others : ∀ r', r' ≠ r → m'.rings r' = m.rings r'
  rest : m' = { m with slots := m'.slots, rings := m'.rings, events := m'.events }

section Producer

variable {pool : Pool} {link : Link} {restart : Restart} {r i len : Nat} {m mid m' : Mem}
  {message : Message}

/-- A send is a push, followed by a notification. -/
theorem transportSend_pushes {t : Transport} (through : t.ring = some r) {Q : Status → Mem → Prop}
    (push : (ringPush r message).wp (fun status m' => (status ≠ .ok → Q status m') ∧
      (status = .ok → ∀ status' events, Published status' → Q status' { m' with events })) m) :
    (transportSend t message).wp Q m := by
  cases t with
  | eventfd ring =>
      cases through
      simp only [transportSend]
      rw [wp_bind]
      refine wp_mono push fun status m' ends => ?_
      by_cases ok : status = .ok
      · rw [if_neg (not_not_intro ok)]
        intro e
        simp only [exec_eq, Act.exec]
        cases e.eventOk with
        | true => exact ends.2 ok _ _ (.inl rfl)
        | false => exact ends.2 ok _ m'.events (.inr rfl)
      · rw [if_pos ok]
        exact ends.1 ok
  | polling ring timeout =>
      cases through
      refine wp_mono push fun status m' ends => ?_
      by_cases ok : status = .ok
      · exact ends.2 ok status m'.events (.inl ok)
      · exact ends.1 ok
  | external => cases through

/-- A full ring refuses a descriptor; otherwise the ring has it afterwards. -/
theorem transportSend_offers {t : Transport} (through : t.ring = some r)
    (round : RingRound (m.rings r)) (message : Message) :
    (transportSend t message).wp (fun status m' =>
      ((m.rings r).queue.length = (m.rings r).depth ∧ status = .transport ∧ m' = m) ∨
      (Published status ∧ ∃ ring events, m' = { m.setRing r ring with events } ∧ RingRound ring ∧
        ring.depth = (m.rings r).depth ∧
        ring.queue = appendMissing Message.same (m.rings r).queue message)) m := by
  have most := round.queue_le
  refine transportSend_pushes through ?_
  by_cases room : (m.rings r).queue.length < (m.rings r).depth
  swap
  · have full : (m.rings r).queue.length = (m.rings r).depth := by omega
    have words : sub32 (m.rings r).producer (m.rings r).consumer ≥ (m.rings r).depth := by
      rw [← full, Ring.queue_length]
    refine (ringPush_full round.deep words).wp ⟨fun _ => .inl ⟨full, rfl, rfl⟩, fun ok => ?_⟩
    cases ok
  refine (ringPush_queue round room message).wp ⟨fun bad => absurd rfl bad, ?_⟩
  intro _ status events published
  refine .inr ⟨published, ?_⟩
  cases there : (m.rings r).queue.any (·.same message) with
  | true =>
      rw [appendMissing_of_any there, if_pos rfl]
      exact ⟨m.rings r, events, by simp [Mem.setRing], round, rfl, rfl⟩
  | false =>
      rw [appendMissing_of_not_any there, if_neg (by decide)]
      exact ⟨_, events, rfl, round.pushed room, rfl, round.queue_pushed room message⟩

theorem Republishes.nil (round : RingRound (m.rings r)) :
    Republishes pool link restart r m i 0 m where
  slots j := by rw [if_neg (by omega)]
  queue := rfl
  round := round
  depth := rfl
  others _ _ := rfl
  rest := rfl

/-- What is to be published at slots that were not reached yet. -/
theorem Republishes.ahead (turn : Republishes pool link restart r m i 1 mid) (len : Nat) :
    mid.descriptors pool link restart (i + 1) len =
      m.descriptors pool link restart (i + 1) len := by
  have same (j : Nat) (inside : j ∈ List.range' (i + 1) len) : mid.slots j = m.slots j := by
    rw [turn.slots, if_neg (by have := List.mem_range'_1.mp inside; omega)]
  have kept : ∀ j ∈ List.range' (i + 1) len, decide (Reissues link restart mid j) =
      decide (Reissues link restart m j) := by
    intro j inside
    apply decide_eq_decide.mpr
    unfold Reissues
    rw [same j inside]
  unfold Mem.descriptors
  rw [List.filter_congr kept]
  apply List.map_congr_left
  intro j inside
  rw [same j (List.mem_of_mem_filter inside)]

theorem descriptors_succ (m : Mem) (pool : Pool) (link : Link) (restart : Restart) (i len : Nat) :
    m.descriptors pool link restart i (len + 1) =
      m.descriptors pool link restart i 1 ++ m.descriptors pool link restart (i + 1) len := by
  unfold Mem.descriptors
  rw [← List.map_append, ← List.filter_append, List.range'_append_1, Nat.add_comm 1 len]

/-- One slot, then the others. -/
theorem Republishes.cons (turn : Republishes pool link restart r m i 1 mid)
    (later : Republishes pool link restart r mid (i + 1) len m') :
    Republishes pool link restart r m i (len + 1) m' where
  slots j := by
    rw [later.slots, turn.slots]
    split_ifs <;> first | rfl | omega
  queue := by
    rw [descriptors_succ m pool link restart i len, List.foldl_append, later.queue, turn.queue,
      turn.ahead]
  round := later.round
  depth := later.depth.trans turn.depth
  others r' other := (later.others r' other).trans (turn.others r' other)
  rest := by
    rw [later.rest, turn.rest]

theorem descriptors_one (m : Mem) (pool : Pool) (link : Link) (restart : Restart) (i : Nat) :
    m.descriptors pool link restart i 1 =
      if Reissues link restart m i then [reissue pool link restart i (m.slots i)] else [] := by
  unfold Mem.descriptors
  rw [List.range'_one]
  split
  · rename_i owed
    rw [List.filter_cons_of_pos (by simpa using owed)]
    rfl
  · rename_i other
    rw [List.filter_cons_of_neg (by simpa using other)]
    rfl

theorem republished_slots (m : Mem) (i : Nat) (s : SlotControl) (j : Nat) :
    (m.setSlot i s).slots j = if i ≤ j ∧ j < i + 1 then s else m.slots j := by
  rw [Mem.slots_setSlot]
  by_cases here : j = i
  · subst here
    rw [Function.update_self, if_pos (by omega)]
  · rw [Function.update_of_ne here, if_neg (by omega)]

/-- A slot with nothing to publish. -/
theorem Republishes.repaired (round : RingRound (m.rings r))
    (nothing : ¬Reissues link restart m i) :
    Republishes pool link restart r m i 1 (m.setSlot i ((m.slots i).republished restart)) where
  slots j := by
    rw [republished_slots]
    split
    · rename_i here
      rw [show j = i by omega]
    · rfl
  queue := by
    rw [descriptors_one, if_neg nothing]
    rfl
  round := round
  depth := rfl
  others _ _ := rfl
  rest := rfl

/-- A slot whose descriptor the ring has afterwards. -/
theorem Republishes.published {ring : Ring} {events : Nat → Nat} (owed : Reissues link restart m i)
    (round : RingRound ring) (depth : ring.depth = (m.rings r).depth)
    (queue : ring.queue = appendMissing Message.same (m.rings r).queue
      (reissue pool link restart i (m.slots i))) :
    Republishes pool link restart r m i 1
      { (m.setSlot i ((m.slots i).republished restart)).setRing r ring with events } where
  slots j := by
    change (m.setSlot i _).slots j = _
    rw [republished_slots]
    split
    · rename_i here
      rw [show j = i by omega]
    · rfl
  queue := by
    rw [descriptors_one, if_pos owed]
    simpa [Mem.setRing] using queue
  round := by simpa [Mem.setRing] using round
  depth := by simpa [Mem.setRing] using depth
  others r' other := by simp [Mem.setRing, Mem.setSlot, other]
  rest := rfl

/-- One slot of the producer's end. A transfer whose descriptor finds the ring full has lost a
    leftover token all the same. -/
theorem reconcileSlot_republishes (role : link.role = .producer)
    (through : link.transport.ring = some r) (round : RingRound (m.rings r)) :
    (reconcileSlot pool link restart i).wp (fun result m' =>
      (result = .ok (decide (Reissues link restart m i)) ∧
        Republishes pool link restart r m i 1 m') ∨
      (result = .error .transport ∧ Reissues link restart m i ∧
        (m.rings r).queue.length = (m.rings r).depth ∧
        m' = m.setSlot i ((m.slots i).probed restart))) m := by
  have start : m.setSlot i (m.slots i) = m := Mem.setSlot_self m i
  by_cases state : (m.slots i).state = .transfer
  · have probed : (m.slots i).republished restart = (m.slots i).probed restart := by
      unfold SlotControl.republished
      rw [if_neg (by rw [state]; simp), if_pos state]
    have goes : Goes (m.setSlot i (m.slots i)) (reconcileSlot pool link restart i) _ _ :=
      reconcileSlot_transfers role state
    rw [start] at goes
    refine goes.wp ?_
    by_cases owed : Owed link restart (m.slots i)
    · have again : Reissues link restart m i := ⟨state, owed⟩
      rw [if_pos owed, wp_bind]
      have offered := transportSend_offers (m := m.setSlot i ((m.slots i).probed restart)) through
        round (reissue pool link restart i (m.slots i))
      refine wp_mono offered ?_
      rintro status m' (⟨full, rfl, rfl⟩ | ⟨published, ring, events, rfl, after, depth, queue⟩)
      · exact .inr ⟨rfl, again, full, rfl⟩
      · rw [if_neg (by rcases published with rfl | rfl <;> simp)]
        refine .inl ⟨by rw [decide_eq_true again], ?_⟩
        rw [← probed]
        exact .published again after depth queue
    · have nothing : ¬Reissues link restart m i := fun again => owed again.2
      rw [if_neg owed]
      refine .inl ⟨by rw [decide_eq_false nothing], ?_⟩
      rw [← probed]
      exact .repaired round nothing
  have nothing : ¬Reissues link restart m i := fun again => state again.1
  have repaired : Republishes pool link restart r m i 1 _ := .repaired round nothing
  rw [decide_eq_false nothing]
  by_cases claimed : (m.slots i).state = .claiming ∧ Abandoned restart (m.slots i).claimToken
  · have goes : Goes (m.setSlot i (m.slots i)) (reconcileSlot pool link restart i) _ _ :=
      reconcileSlot_recalls role claimed.1 claimed.2
    rw [start] at goes
    unfold SlotControl.republished at repaired
    rw [if_pos claimed] at repaired
    exact goes.wp (.inl ⟨rfl, repaired⟩)
  · have goes : Goes (m.setSlot i (m.slots i)) (reconcileSlot pool link restart i) _ _ :=
      reconcileSlot_passes role state fun claiming abandoned => claimed ⟨claiming, abandoned⟩
    unfold SlotControl.republished at repaired
    rw [if_neg claimed, if_neg state] at repaired
    rw [start] at goes repaired
    exact goes.wp (.inl ⟨rfl, repaired⟩)

/-- Where the producer's end stops, and how many transfers it has published: at the last slot,
    or at a transfer whose descriptor finds the ring full. -/
inductive RepublishEnds (pool : Pool) (link : Link) (restart : Restart) (r : Nat) (m : Mem)
    (i left : Nat) : Except Status Unit → Nat → Mem → Prop where
  | done {m' : Mem} : Republishes pool link restart r m i left m' →
      RepublishEnds pool link restart r m i left (.ok ())
        (m.descriptors pool link restart i left).length m'
  | full {len : Nat} {mid : Mem} : len < left → Republishes pool link restart r m i len mid →
      Reissues link restart m (i + len) → (mid.rings r).queue.length = (mid.rings r).depth →
      RepublishEnds pool link restart r m i left (.error .transport)
        (m.descriptors pool link restart i len).length
        (mid.setSlot (i + len) ((m.slots (i + len)).probed restart))

/-- One slot, then a scan of the others. -/
theorem RepublishEnds.cons {left count : Nat} {ended : Except Status Unit}
    (turn : Republishes pool link restart r m i 1 mid)
    (ends : RepublishEnds pool link restart r mid (i + 1) left ended count m') :
    RepublishEnds pool link restart r m i (left + 1) ended
      ((m.descriptors pool link restart i 1).length + count) m' := by
  cases ends with
  | done later =>
      rw [turn.ahead, ← List.length_append, ← descriptors_succ]
      exact .done (turn.cons later)
  | @full len mid' short later owed full =>
      have there : mid.slots (i + 1 + len) = m.slots (i + 1 + len) := by
        rw [turn.slots, if_neg (by omega)]
      unfold Reissues at owed
      rw [there] at owed ⊢
      rw [turn.ahead, ← List.length_append, ← descriptors_succ]
      rw [show i + 1 + len = i + (len + 1) by omega] at owed ⊢
      exact .full (by omega) (turn.cons later) owed full

/-- The whole scan, by induction on the slots that are left. -/
theorem reconcileScan_republishes (role : link.role = .producer)
    (through : link.transport.ring = some r) (left : Nat) : ∀ {i recovered : Nat} {m : Mem},
    RingRound (m.rings r) →
    (reconcileScan pool link restart left i recovered).wp (fun result m' => ∃ count,
      result.2 = recovered + count ∧
        RepublishEnds pool link restart r m i left result.1 count m') m := by
  induction left with
  | zero =>
      intro i recovered m round
      exact ⟨0, rfl, .done (.nil round)⟩
  | succ left ih =>
      intro i recovered m round
      simp only [reconcileScan]
      rw [wp_bind]
      refine wp_mono (reconcileSlot_republishes role through round) ?_
      rintro _ mid (⟨rfl, turn⟩ | ⟨rfl, owed, full, rfl⟩)
      · refine wp_mono (ih turn.round) ?_
        rintro result m' ⟨count, counted, ends⟩
        refine ⟨_, ?_, ends.cons turn⟩
        rw [counted, descriptors_one]
        by_cases owed : Reissues link restart m i
        · rw [if_pos owed, if_pos (decide_eq_true owed), List.length_singleton, Nat.add_assoc]
        · rw [if_neg owed, if_neg (by simpa using owed), List.length_nil, Nat.zero_add]
      · exact ⟨0, rfl, .full (Nat.succ_pos left) (.nil round) owed full⟩

end Producer

/-! ## The consumer's end -/

/-- The terminated runtime left the claim of a receive. -/
def LeftReceive (restart : Restart) (token : Nat) : Prop :=
  claimTokenKind token = ClaimKind.receive.toNat ∧ restart.owns token = true

instance (restart : Restart) (token : Nat) : Decidable (LeftReceive restart token) :=
  inferInstanceAs (Decidable (_ ∧ _))

/-- The terminated runtime was claiming the slot. -/
def Cut (restart : Restart) (s : SlotControl) : Prop :=
  s.state = .claiming ∧ LeftReceive restart s.claimToken

instance (restart : Restart) (s : SlotControl) : Decidable (Cut restart s) :=
  inferInstanceAs (Decidable (_ ∧ _))

/-- What the consumer's end leaves of a slot. -/
def SlotControl.putBack (restart : Restart) (s : SlotControl) : SlotControl :=
  if Cut restart s then s.restored restart.component
  else if s.state = .transfer ∧ LeftReceive restart s.claimToken then { s with claimToken := 0 }
  else s

/-- The consumer's end over `len` slots from `i` on. -/
structure PutsBack (pool : Pool) (restart : Restart) (m : Mem) (i len : Nat) (m' : Mem) : Prop where
  slots : ∀ j, m'.slots j =
    if i ≤ j ∧ j < i + len then (m.slots j).putBack restart else m.slots j
  access : ∀ j, m'.access j =
    if (i ≤ j ∧ j < i + len) ∧ Cut restart (m.slots j) ∧ pool.strict = true then false
    else m.access j
  rest : m' = { m with slots := m'.slots, access := m'.access }

/-- Where the consumer's end stops: at the last slot, or at a claim whose payload page
    protection does not take away. -/
inductive PutBackEnds (pool : Pool) (restart : Restart) (m : Mem) (i left : Nat) :
    Except Status Unit → Mem → Prop where
  | done {m' : Mem} : PutsBack pool restart m i left m' →
      PutBackEnds pool restart m i left (.ok ()) m'
  | unprotected {len : Nat} {status : Status} {m' : Mem} : len < left →
      PutsBack pool restart m i len m' → Cut restart (m.slots (i + len)) → pool.strict = true →
      status ≠ .ok → PutBackEnds pool restart m i left (.error status) m'

section Consumer

variable {pool : Pool} {link : Link} {restart : Restart} {i len : Nat} {m mid m' : Mem}
  {s : SlotControl}

theorem PutsBack.nil : PutsBack pool restart m i 0 m where
  slots j := by rw [if_neg (by omega)]
  access j := by rw [if_neg (by omega)]
  rest := rfl

/-- One slot, then the others. -/
theorem PutsBack.cons (turn : PutsBack pool restart m i 1 mid)
    (later : PutsBack pool restart mid (i + 1) len m') :
    PutsBack pool restart m i (len + 1) m' where
  slots j := by
    rw [later.slots, turn.slots]
    split_ifs <;> first | rfl | omega
  access j := by
    rw [later.access, turn.access, turn.slots]
    grind
  rest := by
    rw [later.rest, turn.rest]

/-- A slot that page protection has nothing to do with. -/
theorem PutsBack.plain (uncut : ¬Cut restart (m.slots i)) :
    PutsBack pool restart m i 1 (m.setSlot i ((m.slots i).putBack restart)) where
  slots j := by
    rw [republished_slots]
    split
    · rename_i here
      rw [show j = i by omega]
    · rfl
  access j := by
    rw [if_neg]
    · rfl
    · rintro ⟨here, cut, _⟩
      rw [show j = i by omega] at cut
      exact uncut cut
  rest := rfl

theorem restoreTransfer_goes (component : Nat) :
    Goes (m.setSlot i { s with state := .error }) (restoreTransfer i component)
      (m.setSlot i (s.restored component)) (.done ()) := by
  simp only [restoreTransfer, lift_bind]
  refine goes_read (goes_write (goes_write (goes_read (goes_write (goes_read (goes_write ?_))))))
  refine goes_read (goes_write (goes_read (goes_write (goes_storeToken (goes_storeState ?_)))))
  exact .here _ _

/-- A claim that is put back, after page protection took the payload away. -/
theorem PutsBack.restored (cut : Cut restart (m.slots i)) {access : Nat → Bool}
    (taken : ∀ j, access j = if j = i ∧ pool.strict = true then false else m.access j) :
    PutsBack pool restart m i 1
      { m.setSlot i ((m.slots i).restored restart.component) with access } where
  slots j := by
    change (m.setSlot i _).slots j = _
    rw [republished_slots]
    split
    · rename_i here
      rw [show j = i by omega, SlotControl.putBack, if_pos cut]
    · rfl
  access j := by
    change access j = _
    rw [taken]
    grind
  rest := rfl

/-- The repair of a claim. -/
theorem reconcileClaiming_putsBack (consumer : link.role ≠ .producer)
    (cut : Cut restart (m.slots i)) :
    (reconcileClaiming pool link restart i (m.slots i).claimToken).wp (fun result m' =>
      (result = .ok false ∧ PutsBack pool restart m i 1 m') ∨
      (∃ status, status ≠ .ok ∧ result = .error status ∧ pool.strict = true ∧ m' = m)) m := by
  obtain ⟨claiming, kind, mine⟩ := cut
  have cut : Cut restart (m.slots i) := ⟨claiming, kind, mine⟩
  have start : m.setSlot i (m.slots i) = m := Mem.setSlot_self m i
  have back : { m.slots i with state := SlotState.claiming } = m.slots i := by rw [← claiming]
  unfold reconcileClaiming
  simp only [if_neg consumer]
  rw [if_neg (by rw [mine]; simp [kind])]
  have taken : Goes m (casState i .claiming .error) (m.setSlot i { m.slots i with state := .error })
      (.done true) := by
    have goes : Goes (m.setSlot i (m.slots i)) (casState i .claiming .error) _ _ :=
      goes_casState claiming (.here _ _)
    rwa [start] at goes
  refine (taken.bind (.here _ _)).wp ?_
  rw [if_neg (by decide)]
  -- the payload is taken away, or the claim stays
  have refused (status : Status) (bad : status ≠ .ok) (strict : pool.strict = true) :
      (do storeState i .claiming; pure (.error status) : Prog (Except Status Bool)).wp
        (fun result m' => (result = .ok false ∧ PutsBack pool restart m i 1 m') ∨
          (∃ status, status ≠ .ok ∧ result = .error status ∧ pool.strict = true ∧ m' = m))
        (m.setSlot i { m.slots i with state := .error }) := by
    refine (goes_storeState (.here _ _)).wp ?_
    rw [back, start]
    exact .inr ⟨status, bad, rfl, strict, rfl⟩
  have granted (access : Nat → Bool)
      (taken : ∀ j, access j = if j = i ∧ pool.strict = true then false else m.access j) :
      (do restoreTransfer i restart.component; pure (.ok false) : Prog (Except Status Bool)).wp
        (fun result m' => (result = .ok false ∧ PutsBack pool restart m i 1 m') ∨
          (∃ status, status ≠ .ok ∧ result = .error status ∧ pool.strict = true ∧ m' = m))
        ({ m with access }.setSlot i { m.slots i with state := .error }) := by
    refine ((restoreTransfer_goes restart.component).bind (.here _ _)).wp ?_
    exact .inl ⟨rfl, .restored cut taken⟩
  unfold protectSlot
  rw [wp_bind]
  split
  · rename_i lax
    rw [pure_eq, wp_done, if_neg (by decide)]
    exact granted m.access (by simp [lax])
  rename_i strict
  rw [Bool.not_eq_false] at strict
  split
  · rw [pure_eq, wp_done, if_pos (by decide)]
    exact refused .invalidHandle (by decide) strict
  · intro e
    simp only [exec_eq, Act.exec]
    split
    · rename_i ok
      rw [ok, pure_eq, wp_done, if_neg (by decide)]
      refine granted (Function.update m.access i false) fun j => ?_
      by_cases here : j = i
      · rw [here, Function.update_self, if_pos ⟨rfl, strict⟩]
      · rw [Function.update_of_ne here, if_neg (by tauto)]
    · rename_i failed
      rw [pure_eq, wp_done, if_pos failed]
      exact refused e.protect failed strict

/-- One slot of the consumer's end. -/
theorem reconcileSlot_putsBack (role : link.role = .consumer) :
    (reconcileSlot pool link restart i).wp (fun result m' =>
      (result = .ok false ∧ PutsBack pool restart m i 1 m') ∨
      (∃ status, status ≠ .ok ∧ result = .error status ∧ Cut restart (m.slots i) ∧
        pool.strict = true ∧ m' = m)) m := by
  have consumer : link.role ≠ .producer := by rw [role]; decide
  have start : m.setSlot i (m.slots i) = m := Mem.setSlot_self m i
  simp only [reconcileSlot, lift_bind]
  refine (Goes.act (m.slots i).state (fun _ => rfl)
    (.act (m.slots i).claimToken (fun _ => rfl) (.here _ _))).wp ?_
  by_cases leftover : link.role = .consumer ∧ (m.slots i).state = .transfer ∧
      claimTokenKind (m.slots i).claimToken = ClaimKind.receive.toNat ∧
      restart.owns (m.slots i).claimToken = true
  · rw [if_pos leftover]
    obtain ⟨-, transfer, received⟩ := leftover
    have uncut : ¬Cut restart (m.slots i) := by
      rintro ⟨claiming, _⟩
      rw [transfer] at claiming
      cases claiming
    have plain : PutsBack pool restart m i 1 _ := .plain uncut
    rw [SlotControl.putBack, if_neg uncut, if_pos ⟨transfer, received⟩] at plain
    have goes : Goes (m.setSlot i (m.slots i)) (clearClaimToken i (m.slots i).claimToken) _ _ :=
      goes_casToken (.here _ _)
    rw [start] at goes
    exact (goes.bind (.here _ _)).wp (.inl ⟨rfl, plain⟩)
  rw [if_neg leftover]
  have same (uncut : ¬Cut restart (m.slots i)) : PutsBack pool restart m i 1 m := by
    have unheld : ¬((m.slots i).state = .transfer ∧ LeftReceive restart (m.slots i).claimToken) :=
      fun both => leftover ⟨role, both⟩
    have plain : PutsBack pool restart m i 1 _ := .plain uncut
    rw [SlotControl.putBack, if_neg uncut, if_neg unheld, start] at plain
    exact plain
  by_cases claiming : (m.slots i).state = .claiming
  · rw [if_pos claiming]
    by_cases received : LeftReceive restart (m.slots i).claimToken
    · refine wp_mono (reconcileClaiming_putsBack consumer ⟨claiming, received⟩) ?_
      rintro result m' (done | ⟨status, bad, failed, strict, rfl⟩)
      · exact .inl done
      · exact .inr ⟨status, bad, failed, ⟨claiming, received⟩, strict, rfl⟩
    · unfold reconcileClaiming
      simp only [if_neg consumer]
      rw [if_pos (by unfold LeftReceive at received; rw [← Bool.not_eq_true]; tauto)]
      exact .inl ⟨rfl, same fun cut => received cut.2⟩
  · rw [if_neg claiming, if_pos (.inl consumer)]
    exact .inl ⟨rfl, same fun cut => claiming cut.1⟩

/-- The whole scan. It never counts a transfer. -/
theorem reconcileScan_putsBack (role : link.role = .consumer) (left : Nat) :
    ∀ {i recovered : Nat} {m : Mem},
    (reconcileScan pool link restart left i recovered).wp (fun result m' =>
      result.2 = recovered ∧ PutBackEnds pool restart m i left result.1 m') m := by
  induction left with
  | zero => exact ⟨rfl, .done .nil⟩
  | succ left ih =>
      intro i recovered m
      simp only [reconcileScan]
      rw [wp_bind]
      refine wp_mono (reconcileSlot_putsBack role) ?_
      rintro _ mid (⟨rfl, turn⟩ | ⟨status, bad, rfl, cut, strict, rfl⟩)
      · refine wp_mono ih ?_
        rintro ⟨ended, total⟩ m' ⟨counted, ends⟩
        refine ⟨counted, ?_⟩
        cases ends with
        | done later => exact .done (turn.cons later)
        | @unprotected len status _ short later cut strict bad =>
            rw [turn.slots, if_neg (by omega), show i + 1 + len = i + (len + 1) by omega] at cut
            exact .unprotected (by omega) (turn.cons later) cut strict bad
      · exact ⟨rfl, .unprotected (Nat.succ_pos left) .nil cut strict bad⟩

end Consumer

/-! ## Dropping descriptors -/

/-- The descriptor names no transfer. -/
def Mem.drops (m : Mem) (pool : Pool) (message : Message) : Bool :=
  pool.slotCount ≤ handleSlotId message.handle ||
    !((m.slots (handleSlotId message.handle)).state = .transfer &&
      (m.slots (handleSlotId message.handle)).generation = handleGeneration message.handle)

/-- The consumer index of the ring moves on. -/
def Ring.advanced (ring : Ring) (n : Nat) : Ring :=
  { ring with consumer := (ring.consumer + n) % u32 }

section Drain

variable {pool : Pool} {r : Nat} {m : Mem} {ring : Ring}

theorem Ring.advanced_zero (small : ring.consumer < u32) : ring.advanced 0 = ring := by
  unfold Ring.advanced
  rw [Nat.add_zero, Nat.mod_eq_of_lt small]

theorem Ring.popped_advanced (n : Nat) : ring.popped.advanced n = ring.advanced (n + 1) := by
  unfold Ring.advanced Ring.popped
  simp only
  rw [Nat.mod_add_mod, Nat.add_assoc, Nat.add_comm 1 n]

/-- Moving the consumer index drops from the front. -/
theorem Ring.queue_advanced (words : ring.producer < u32 ∧ ring.consumer < u32) {n : Nat}
    (waits : n ≤ ring.queue.length) : (ring.advanced n).queue = ring.queue.drop n := by
  induction n generalizing ring with
  | zero => rw [Ring.advanced_zero words.2, List.drop_zero]
  | succ n ih =>
      have some : ring.consumer ≠ ring.producer := by
        intro none
        rw [(Ring.queue_nil_iff words).mpr none] at waits
        exact absurd waits (by simp)
      rw [Ring.queue_cons words some, List.length_cons] at waits
      rw [← Ring.popped_advanced, Ring.queue_cons words some, List.drop_succ_cons]
      exact ih ⟨words.1, Nat.mod_lt _ (by decide)⟩ (by omega)

/-- The loop drops the descriptors in front that name no transfer, as far as its fuel goes. -/
theorem reconcileDrain_goes (fuel : Nat) : ∀ {m : Mem},
    ((m.rings r).producer < u32 ∧ (m.rings r).consumer < u32) →
    Goes m (reconcileDrain pool r fuel)
      (m.setRing r ((m.rings r).advanced
        (min fuel ((m.rings r).queue.takeWhile (m.drops pool)).length)))
      (.done (if fuel ≤ ((m.rings r).queue.takeWhile (m.drops pool)).length then none
        else some ())) := by
  induction fuel with
  | zero =>
      intro m words
      rw [Nat.zero_min, Ring.advanced_zero words.2, if_pos (Nat.zero_le _)]
      have same : m.setRing r (m.rings r) = m := by simp [Mem.setRing]
      rw [same]
      exact .here _ _
  | succ fuel ih =>
      intro m words
      have same : m.setRing r (m.rings r) = m := by simp [Mem.setRing]
      simp only [reconcileDrain, lift_bind]
      refine .act _ (fun _ => rfl) (.act _ (fun _ => rfl) ?_)
      by_cases empty : (m.rings r).consumer = (m.rings r).producer
      · rw [if_pos empty, (Ring.queue_nil_iff words).mpr empty, List.takeWhile_nil, List.length_nil,
          Nat.min_zero, Ring.advanced_zero words.2, same, if_neg (by omega)]
        exact .here _ _
      rw [if_neg empty]
      refine .act _ (fun _ => rfl) (.act _ (fun _ => rfl) ?_)
      have cons := Ring.queue_cons words empty
      generalize head : (m.rings r).entries ((m.rings r).consumer % (m.rings r).depth) = message
        at cons ⊢
      -- the descriptor is dropped
      have drop (dropped : m.drops pool message = true) :
          Goes m (.act (.storeConsumer r (((m.rings r).consumer + 1) % u32))
              fun _ => reconcileDrain pool r fuel)
            (m.setRing r ((m.rings r).advanced
              (min (fuel + 1) ((m.rings r).queue.takeWhile (m.drops pool)).length)))
            (.done (if fuel + 1 ≤ ((m.rings r).queue.takeWhile (m.drops pool)).length then none
              else some ())) := by
        have rest := ih (m := m.setRing r (m.rings r).popped) (by
          simp only [Mem.setRing, Function.update_self]
          exact ⟨words.1, Nat.mod_lt _ (by decide)⟩)
        have slots : (m.setRing r (m.rings r).popped).drops pool = m.drops pool := rfl
        have here : (m.setRing r (m.rings r).popped).rings r = (m.rings r).popped :=
          Function.update_self _ _ _
        have twice (ring : Ring) : (m.setRing r (m.rings r).popped).setRing r ring =
            m.setRing r ring := by simp [Mem.setRing]
        rw [slots, here, twice, Ring.popped_advanced] at rest
        rw [cons, List.takeWhile_cons_of_pos dropped, List.length_cons, Nat.succ_min_succ]
        simp only [Nat.add_le_add_iff_right]
        exact .act () (fun _ => rfl) rest
      have keep (kept : m.drops pool message = false) :
          m.setRing r ((m.rings r).advanced
              (min (fuel + 1) ((m.rings r).queue.takeWhile (m.drops pool)).length)) = m ∧
            ¬fuel + 1 ≤ ((m.rings r).queue.takeWhile (m.drops pool)).length := by
        rw [cons, List.takeWhile_cons_of_neg (by simp [kept]), List.length_nil, Nat.min_zero,
          Ring.advanced_zero words.2]
        exact ⟨same, by omega⟩
      by_cases outside : pool.slotCount ≤ handleSlotId message.handle
      · rw [if_pos outside]
        exact drop (by simp [Mem.drops, outside])
      rw [if_neg outside]
      refine .act _ (fun _ => rfl) (.act _ (fun _ => rfl) ?_)
      by_cases live : (m.slots (handleSlotId message.handle)).state = .transfer ∧
          (m.slots (handleSlotId message.handle)).generation = handleGeneration message.handle
      · obtain ⟨stays, enough⟩ := keep (by simp [Mem.drops, outside, live])
        rw [if_pos live, stays, if_neg enough]
        exact .here _ _
      · rw [if_neg live]
        refine drop ?_
        simp only [Mem.drops, Bool.or_eq_true, Bool.not_eq_true', Bool.and_eq_false_iff,
          decide_eq_false_iff_not, decide_eq_true_eq]
        tauto

end Drain

/-! ## The whole reconciliation -/

/-- The tests at the head of a reconciliation, for a link over a ring that was supplied. -/
structure Admits (link : Link) (restart : Restart) (m : Mem) : Prop where
  component : link.localComponent = restart.component
  epoch : link.localEpoch = restart.epoch
  linkId : link.linkId ≠ 0
  next : restart.epoch = (restart.deadEpoch + 1) % u32
  valid : componentIdValid restart.component = true
  given : restart.epoch ≠ 0
  recovering : (m.components restart.component).lifecycle =
    componentLifecycleMake restart.epoch .recovering
  role : link.role ≠ .unspecified

/-- How a reconciliation of a link over ring `r` ends. -/
inductive ReconcileLeaves (pool : Pool) (link : Link) (restart : Restart) (r fuel : Nat) (m : Mem) :
    Option (Status × Nat) → Mem → Prop where
  | refused : ¬Admits link restart m →
      ReconcileLeaves pool link restart r fuel m (some (.invalidArgument, 0)) m
  /-- The producer's end: the descriptors that were missing are appended, in the order of the
      slots. -/
  | published {m' : Mem} : Admits link restart m → link.role = .producer →
      Republishes pool link restart r m 0 pool.slotCount m' →
      (m'.rings r).queue = (m.rings r).queue ++
        (m.descriptors pool link restart 0 pool.slotCount).filter
          (fun d => !(m.rings r).queue.any (·.same d)) →
      ReconcileLeaves pool link restart r fuel m
        (some (.ok, (m.descriptors pool link restart 0 pool.slotCount).length)) m'
  /-- It stops at the first transfer that finds the ring full. -/
  | full {len : Nat} {mid : Mem} : Admits link restart m → link.role = .producer →
      len < pool.slotCount → Republishes pool link restart r m 0 len mid →
      (mid.rings r).queue = (m.rings r).queue ++
        (m.descriptors pool link restart 0 len).filter
          (fun d => !(m.rings r).queue.any (·.same d)) →
      Reissues link restart m len → (mid.rings r).queue.length = (mid.rings r).depth →
      ReconcileLeaves pool link restart r fuel m
        (some (.transport, (m.descriptors pool link restart 0 len).length))
        (mid.setSlot len ((m.slots len).probed restart))
  /-- The consumer's end: what is left of the queue begins with the descriptor of a transfer. -/
  | drained {mid : Mem} {n : Nat} : Admits link restart m → link.role = .consumer →
      PutsBack pool restart m 0 pool.slotCount mid →
      n = ((m.rings r).queue.takeWhile (mid.drops pool)).length → n < fuel →
      ((m.rings r).advanced n).queue = (m.rings r).queue.dropWhile (mid.drops pool) →
      ReconcileLeaves pool link restart r fuel m (some (.ok, 0))
        (mid.setRing r ((m.rings r).advanced n))
  /-- It stops at the first claim whose payload page protection does not take away. -/
  | unprotected {len : Nat} {status : Status} {m' : Mem} : Admits link restart m →
      link.role = .consumer → len < pool.slotCount → PutsBack pool restart m 0 len m' →
      Cut restart (m.slots len) → pool.strict = true → status ≠ .ok →
      ReconcileLeaves pool link restart r fuel m (some (status, 0)) m'
  /-- The loop over the ring runs out of fuel. -/
  | waiting {mid : Mem} : Admits link restart m → link.role = .consumer →
      PutsBack pool restart m 0 pool.slotCount mid →
      fuel ≤ ((m.rings r).queue.takeWhile (mid.drops pool)).length →
      ReconcileLeaves pool link restart r fuel m none (mid.setRing r ((m.rings r).advanced fuel))

section Whole

variable {pool : Pool} {link : Link} {restart : Restart} {r fuel len : Nat} {m m' : Mem}

theorem reconcileRefused_admits (through : link.transport.ring = some r)
    (supplied : link.recoveryRing = some r) :
    Admits link restart m ∧ Looks m (reconcileRefused link restart) (.done none) ∨
      ¬Admits link restart m ∧
        Looks m (reconcileRefused link restart) (.done (some .invalidArgument)) := by
  unfold reconcileRefused
  split
  · rename_i mismatch
    refine .inr ⟨fun admits => ?_, .here _⟩
    have := admits.component
    have := admits.epoch
    have := admits.linkId
    have := admits.next
    tauto
  rename_i agree
  simp only [not_or, not_not] at agree
  obtain ⟨component, epoch, linkId, next⟩ := agree
  unfold componentEpochRecovering
  split
  · rename_i bad
    refine .inr ⟨fun admits => ?_, .here _⟩
    rcases bad with invalid | none
    · rw [admits.valid] at invalid
      cases invalid
    · exact admits.given none
  rename_i good
  simp only [not_or, Bool.not_eq_false] at good
  simp only [lift_bind, act_bind, pure_eq, done_bind, through, supplied, reduceCtorEq, if_false]
  by_cases recovering : (m.components restart.component).lifecycle =
      componentLifecycleMake restart.epoch .recovering
  swap
  · refine .inr ⟨fun admits => recovering admits.recovering, .act _ (fun _ => rfl) ?_⟩
    rw [if_pos (decide_eq_false recovering)]
    exact .here _
  by_cases role : link.role = .unspecified
  · refine .inr ⟨fun admits => admits.role role, .act _ (fun _ => rfl) ?_⟩
    rw [if_neg (by simp [recovering]), if_pos role]
    exact .here _
  · refine .inl ⟨⟨component, epoch, linkId, next, good.1, good.2, recovering, role⟩,
      .act _ (fun _ => rfl) ?_⟩
    rw [if_neg (by simp [recovering]), if_neg role]
    exact .here _

/-- Descriptors of different slots are different. -/
theorem descriptors_apart (within : len ≤ pool.slotCount) :
    (m.descriptors pool link restart 0 len).Pairwise fun x y => x.same y = false := by
  unfold Mem.descriptors
  rw [List.pairwise_map]
  have distinct : (List.range' 0 len).Pairwise (· < ·) := List.pairwise_lt_range'
  refine (distinct.imp_of_mem ?_).sublist List.filter_sublist
  intro i j first second before
  have small := pool.slotCount_lt
  have low := List.mem_range'_1.mp first
  have high := List.mem_range'_1.mp second
  have apart : handleMake i (m.slots i).generation ≠ handleMake j (m.slots j).generation := by
    intro same
    have ids := congrArg handleSlotId same
    rw [handleSlotId_make (by omega), handleSlotId_make (by omega)] at ids
    omega
  simp [Message.same, reissue, apart]

/-- The queue grows by the descriptors that were missing. -/
theorem Republishes.appends (within : len ≤ pool.slotCount)
    (publishes : Republishes pool link restart r m 0 len m') :
    (m'.rings r).queue = (m.rings r).queue ++
      (m.descriptors pool link restart 0 len).filter
        (fun d => !(m.rings r).queue.any (·.same d)) := by
  rw [publishes.queue, foldl_appendMissing (descriptors_apart within)]

/-- What a reconciliation does to any memory that a death may have left. -/
theorem reconcile_exact (through : link.transport.ring = some r)
    (supplied : link.recoveryRing = some r) (round : RingRound (m.rings r))
    {result : Option (Status × Nat)}
    (run : Completes (linkReconcile pool link restart fuel) m result m') :
    ReconcileLeaves pool link restart r fuel m result m' := by
  refine run.sound ?_
  unfold linkReconcile
  rw [wp_bind]
  rcases reconcileRefused_admits through supplied with ⟨admits, looks⟩ | ⟨refused, looks⟩
  swap
  · exact looks.goes.wp (.refused refused)
  refine looks.goes.wp ?_
  change (reconcileScan pool link restart pool.slotCount 0 0 >>= _ : Prog _).wp _ m
  rw [wp_bind]
  cases role : link.role with
  | unspecified => exact absurd role admits.role
  | producer =>
      refine wp_mono (reconcileScan_republishes role through pool.slotCount round) ?_
      rintro ⟨ended, total⟩ m' ⟨count, counted, ends⟩
      rw [Nat.zero_add] at counted
      dsimp only at counted ends
      subst counted
      cases ends with
      | done publishes => exact .published admits role publishes (publishes.appends le_rfl)
      | @full len mid short publishes owed full =>
          rw [Nat.zero_add] at owed ⊢
          exact .full admits role short publishes (publishes.appends short.le) owed full
  | consumer =>
      refine wp_mono (reconcileScan_putsBack role pool.slotCount) ?_
      rintro ⟨ended, total⟩ mid ⟨rfl, ends⟩
      dsimp only at ends
      cases ends with
      | unprotected short puts cut strict bad =>
          rw [Nat.zero_add] at cut
          exact .unprotected admits role short puts cut strict bad
      | done puts =>
          have rings : mid.rings = m.rings := by rw [puts.rest]
          have goes : Goes mid (reconcileDrain pool r fuel) _ _ :=
            reconcileDrain_goes fuel (by rw [rings]; exact round.counters)
          rw [rings] at goes
          simp only [supplied]
          rw [wp_bind]
          refine goes.wp ?_
          split
          · rename_i short
            rw [min_eq_left short]
            exact .waiting admits role puts short
          · rename_i enough
            rw [min_eq_right (by omega)]
            refine .drained admits role puts rfl (by omega) ?_
            have short : ((m.rings r).queue.takeWhile (mid.drops pool)).length ≤
                (m.rings r).queue.length := (List.takeWhile_sublist _).length_le
            rw [Ring.queue_advanced round.counters short, drop_length_takeWhile]

/-- Both slots are in transfer over the link, and their descriptors fit in the ring. -/
theorem reconcile_exact_redone : ReconcileLeaves redoPool redoLink redoRestart 0 0
    (redoMem .transfer .transfer) (some (.ok, 2)) (redoneMem .transfer .transfer) := by
  have round : RingRound ((redoMem .transfer .transfer).rings 0) :=
    ⟨(redoMem_well .transfer .transfer).sound, by simp [redoMem, u32]⟩
  have ok : ((linkReconcile redoPool redoLink redoRestart 0).runWith default
      (redoMem .transfer .transfer)).1 = some (.ok, 2) := by decide +kernel
  rw [← ok]
  exact reconcile_exact rfl rfl round (runWith_completes default _ _)

end Whole

end Zipc
