import Zipc.Fence

/-! # Descriptors that a receive consumes

`zipc_recv` commits a descriptor whatever `zipc_buffer_claim` answers. A live transfer
whose claim is refused is put back into `TRANSFER`, and its descriptor is gone. The claim
of a live transfer is refused exactly when the descriptor does not name this link, this
pool and this receiver, or when the buffer's deadline has passed.
-/

namespace Zipc

open Atomic Program

/-- A descriptor that a receive handles, and the memory in which it takes it up. -/
structure Delivery where
  message : Message
  before : Mem

/-- A complete run of the loop of `zipc_recv`, with the descriptors that it consumes. -/
inductive RecvRun (pool : Pool) (link : Link) : Nat → Mem → List Delivery →
    Option (Status × Option View) → Mem → Prop where
  | out (m : Mem) : RecvRun pool link 0 m [] none m
  | waiting {fuel : Nat} {m a : Mem} : Completes (receiveBegin link.transport fuel) m none a →
      RecvRun pool link (fuel + 1) m [] none a
  | failed {fuel : Nat} {m a : Mem} {status : Status} :
      Completes (receiveBegin link.transport fuel) m (some (.error status)) a →
      RecvRun pool link (fuel + 1) m [] (some (status, none)) a
  | last {fuel : Nat} {m a b : Mem} {message : Message} {token : ReceiveToken}
      {result : Status × Option View} :
      Completes (receiveBegin link.transport fuel) m (some (.ok (message, token))) a →
      Completes (recvMessage pool link message token) a (some result) b →
      RecvRun pool link (fuel + 1) m [⟨message, a⟩] (some result) b
  | next {fuel : Nat} {m a b m' : Mem} {message : Message} {token : ReceiveToken}
      {handled : List Delivery} {result : Option (Status × Option View)} :
      Completes (receiveBegin link.transport fuel) m (some (.ok (message, token))) a →
      Completes (recvMessage pool link message token) a none b →
      RecvRun pool link fuel b handled result m' →
      RecvRun pool link (fuel + 1) m (⟨message, a⟩ :: handled) result m'

/-- The descriptor's transfer is live and addressed to the link's local component. -/
structure Live (pool : Pool) (link : Link) (d : Delivery) : Prop where
  inside : handleSlotId d.message.handle < pool.slotCount
  state : (d.before.core (handleSlotId d.message.handle)).state = .transfer
  generation :
    (d.before.core (handleSlotId d.message.handle)).generation = handleGeneration d.message.handle
  owner : (d.before.core (handleSlotId d.message.handle)).ownerId = d.message.sourceComponent
  next : (d.before.core (handleSlotId d.message.handle)).nextOwnerId = link.localComponent
  sequence :
    (d.before.core (handleSlotId d.message.handle)).transferSequence = d.message.transferSequence

/-- The slot is free, or owned by the receiver with a valid buffer in the caller's hands. -/
def Served (link : Link) (message : Message) (result : Option (Status × Option View)) (m : Mem) :
    Prop :=
  (m.core (handleSlotId message.handle)).state = .free ∨
    (m.core (handleSlotId message.handle)).state = .owned ∧
    (m.core (handleSlotId message.handle)).ownerId = link.localComponent ∧
    ∃ v, result = some (.ok, some v) ∧ v.slotId = handleSlotId message.handle ∧ Valid m v

/-- The descriptor names this link, this pool and this receiver, and the deadline of its
    buffer has not passed. -/
def Deliverable (pool : Pool) (link : Link) (d : Delivery) : Prop :=
  d.message.sourceComponent = link.remoteComponent ∧ d.message.poolId = pool.poolId ∧
    d.message.destinationComponent = link.localComponent ∧
    ((d.before.core (handleSlotId d.message.handle)).deadlineNs = deadlineNone ∨
      d.before.clock ≤ (d.before.core (handleSlotId d.message.handle)).deadlineNs)

/-! ## Peek and commit -/

/-- A commit of the token succeeds. -/
def Committable (t : Transport) (token : ReceiveToken) (m : Mem) : Prop :=
  ∀ p, token.position = some p → ∃ r, t.ring = some r ∧ 2 ≤ (m.rings r).depth ∧
    (m.rings r).consumer = p

section Ring

variable {pool : Pool} {m : Mem}

theorem ringPeek_alone (r : Nat) :
    (ringPeek r).wps (Guarded pool) (fun peeked m' => m' = m ∧ ∀ message p,
      peeked = .ok (message, p) → 2 ≤ (m.rings r).depth ∧ (m.rings r).consumer = p ∧
        p ≠ (m.rings r).producer ∧ message = (m.rings r).entries (p % (m.rings r).depth)) m := by
  simp only [ringPeek, lift_bind]
  refine ⟨trivial, fun _ => wps_ite (fun _ => ⟨rfl, fun _ _ done => by cases done⟩) (fun deep => ?_)⟩
  refine ⟨trivial, fun _ => ⟨trivial, fun _ => wps_ite (fun _ => ⟨rfl, fun _ _ done => by cases done⟩) (fun pending => ?_)⟩⟩
  refine ⟨trivial, fun _ => ⟨rfl, ?_⟩⟩
  rintro message p ⟨⟩
  exact ⟨Nat.le_of_not_lt deep, rfl, pending, rfl⟩

/-- The descriptor and its position are those at the head of the ring, when there is one. -/
def Peeked (t : Transport) (message : Message) (token : ReceiveToken) (m : Mem) : Prop :=
  match t.ring with
  | none => token.position = none
  | some r => 2 ≤ (m.rings r).depth ∧ token.position = some (m.rings r).consumer ∧
      (m.rings r).consumer ≠ (m.rings r).producer ∧
      message = (m.rings r).entries ((m.rings r).consumer % (m.rings r).depth)

theorem receiveBegin_peeks (pool : Pool) (t : Transport) (fuel : Nat) : ∀ m,
    (receiveBegin t fuel).wps (Guarded pool) (fun begun m' => ∀ message token,
      begun = some (.ok (message, token)) → Peeked t message token m') m := by
  induction fuel with
  | zero => exact fun m => nofun
  | succ fuel ih =>
      intro m
      cases t with
      | eventfd r =>
          simp only [receiveBegin]
          rw [wps_bind]
          refine wps_mono (ringPeek_alone r) ?_
          rintro peeked m ⟨rfl, found⟩
          split
          · obtain ⟨deep, rfl, pending, next⟩ := found _ _ rfl
            rintro _ _ ⟨⟩
            exact ⟨deep, rfl, pending, next⟩
          · have waiting : StaysAside (fun _ => False) (eventWait r fuel) := eventWait_aside fuel
            rw [wps_bind]
            refine wps_mono (waiting.runs pool m) ?_
            intro woken a _
            split
            · nofun
            · nofun
            · exact ih a
          · nofun
      | polling r timeout =>
          simp only [receiveBegin]
          rw [wps_bind]
          refine wps_mono (ringPeek_alone r) ?_
          rintro peeked m ⟨rfl, found⟩
          split
          · obtain ⟨deep, rfl, pending, next⟩ := found _ _ rfl
            rintro _ _ ⟨⟩
            exact ⟨deep, rfl, pending, next⟩
          · refine wps_ite (fun _ => ⟨trivial, fun _ => ?_⟩) (fun _ => ih m)
            exact wps_ite (fun _ => nofun) (fun _ => ih m)
          · nofun
      | external =>
          simp only [receiveBegin, lift_bind]
          refine ⟨trivial, fun e => ?_⟩
          simp only
          split
          · rintro _ _ ⟨⟩
            exact rfl
          · nofun

theorem Peeked.committable {t : Transport} {message : Message} {token : ReceiveToken}
    (peeked : Peeked t message token m) : Committable t token m := by
  intro p position
  unfold Peeked at peeked
  cases ring : t.ring with
  | none =>
      simp only [ring, position] at peeked
      cases peeked
  | some r =>
      simp only [ring, position, Option.some.injEq] at peeked
      exact ⟨r, rfl, peeked.1, peeked.2.1.symm⟩

theorem receiveCommit_ok {t : Transport} {token : ReceiveToken} (ready : Committable t token m) :
    (receiveCommit t token).wps (Guarded pool) (fun status m' => status = .ok ∧ Aside t.Uses m m')
      m := by
  have aside := (receiveCommit_aside t token).runs pool m
  refine wps_mono (wps_and ?_ aside) fun status m' both => both
  simp only [receiveCommit]
  split
  · trivial
  · rename_i p position
    obtain ⟨r, ring, deep, here⟩ := ready p position
    simp only [ring, ringCommit, lift_bind]
    refine ⟨trivial, fun _ => wps_ite (fun shallow => ?_) (fun _ => ⟨trivial, fun _ => ?_⟩)⟩
    · exact absurd shallow (Nat.not_lt.mpr deep)
    · exact wps_ite (fun moved => absurd here moved) (fun _ => ⟨trivial, fun _ => rfl⟩)

end Ring

/-! ## The fate of a live transfer -/

section Fate

variable {pool : Pool} {link : Link} {d : Delivery} {token : ReceiveToken} {fuel : Nat}
  {m m' : Mem} {handled : List Delivery} {result : Option (Status × Option View)}

/-- The only tests of a claim that a live transfer can fail. -/
theorem Live.verdict (live : Live pool link d) (valid : componentIdValid link.localComponent = true)
    (source : d.message.sourceComponent = link.remoteComponent) :
    (∃ status, claimVerdict pool d.before.clock (d.before.core (handleSlotId d.message.handle))
        d.message link.localComponent = some status ∧ ¬Deliverable pool link d ∧
        (status = .invalidHandle ∨ status = .invalidReceiver ∨ status = .deadline)) ∨
      claimVerdict pool d.before.clock (d.before.core (handleSlotId d.message.handle))
        d.message link.localComponent = none ∧ Deliverable pool link d := by
  have inside := Nat.not_le.mpr live.inside
  have kept : ¬((d.before.core (handleSlotId d.message.handle)).ownerId ≠ d.message.sourceComponent ∨
      (d.before.core (handleSlotId d.message.handle)).nextOwnerId ≠ link.localComponent) := by
    simp [live.owner, live.next]
  simp only [claimVerdict, valid, Bool.true_eq_false, if_false, inside, live.state, ne_eq,
    not_true_eq_false, live.generation, live.sequence]
  rw [if_neg (c := _ ∨ _) kept]
  by_cases same : d.message.poolId = pool.poolId
  · by_cases addressed : d.message.destinationComponent = link.localComponent
    · simp only [same, addressed, not_true_eq_false, if_false]
      split
      · rename_i expired
        refine .inl ⟨_, rfl, fun deliverable => ?_, .inr (.inr rfl)⟩
        rcases deliverable.2.2.2 with unlimited | early
        · exact expired.1 unlimited
        · exact absurd expired.2 (Nat.not_lt.mpr early)
      · rename_i timely
        refine .inr ⟨rfl, source, same, addressed, ?_⟩
        by_contra late
        rw [not_or] at late
        exact timely ⟨late.1, Nat.lt_of_not_le late.2⟩
    · refine .inl ⟨.invalidReceiver, by simp [same, addressed], ?_, .inr (.inl rfl)⟩
      exact fun deliverable => addressed deliverable.2.2.1
  · exact .inl ⟨.invalidHandle, by simp [same], fun deliverable => same deliverable.2.1, .inl rfl⟩

/-- A slot in `TRANSFER` is served by nobody. -/
theorem not_served {message : Message}
    (sent : (m.core (handleSlotId message.handle)).state = .transfer) :
    ¬Served link message result m := by
  rintro (free | ⟨owned, _⟩)
  · rw [sent] at free
    cases free
  · rw [sent] at owned
    cases owned

/-- What becomes of a live transfer when its descriptor is handled; only a slot that it
    freed lets the receive go on. -/
theorem recvMessage_live (live : Live pool link d)
    (valid : componentIdValid link.localComponent = true) (well : PoolWell pool d.before)
    (ready : Committable link.transport token d.before) :
    (recvMessage pool link d.message token).wps (Guarded pool) (fun ended m' =>
      (Served link d.message ended m' ↔ Deliverable pool link d) ∧
        (ended = none → (m'.core (handleSlotId d.message.handle)).state = .free)) d.before := by
  simp only [recvMessage]
  refine wps_ite (fun foreign => ?_) (fun source => ?_)
  · -- The link answers INVALID_RECEIVER and consumes the descriptor of another sender.
    rw [wps_bind]
    refine wps_mono ((recordProtocolError_aside (fun _ => False) _).runs pool d.before) ?_
    intro _ a first
    rw [wps_bind]
    refine wps_mono ((receiveCommit_aside link.transport token).runs pool a) ?_
    intro _ b second
    have sent : (b.core (handleSlotId d.message.handle)).state = .transfer := by
      rw [second.cores, first.cores]
      exact live.state
    exact ⟨iff_of_false (not_served sent) fun deliverable => foreign deliverable.1, fun done => by cases done⟩
  · rw [ne_eq, not_not] at source
    rw [wps_bind]
    refine wps_mono (claim_focused fun inside => well _ inside).alone ?_
    rintro ⟨status, buffer⟩ a ⟨c, log, focus, ends⟩
    have still : Committable link.transport token a := by
      intro p position
      rw [focus.rings]
      exact ready p position
    simp only
    rw [wps_bind]
    refine wps_mono (receiveCommit_ok still) ?_
    rintro committed b ⟨rfl, aside⟩
    have core : b.core (handleSlotId d.message.handle) = c := by rw [aside.cores, focus.core]
    simp only [ClaimEnds] at ends
    obtain ⟨refused, verdict, undeliverable, which⟩ | ⟨verdict, deliverable⟩ :=
      live.verdict valid source
    · simp only [verdict] at ends
      obtain ⟨same, rfl, _⟩ := ends
      cases same
      have sent : (b.core (handleSlotId d.message.handle)).state = .transfer := by
        rw [core]
        exact live.state
      have final : status ≠ .ok ∧ ¬(status = .invalidState ∨ status = .staleHandle ∨
          status = .sequenceMismatch) := by
        rcases which with rfl | rfl | rfl <;> decide
      rw [if_neg final.1, if_neg final.2]
      exact ⟨iff_of_false (not_served sent) undeliverable, fun done => by cases done⟩
    · simp only [verdict] at ends
      rcases ends with ⟨same, ⟨access, opened, rfl⟩, rfl⟩ |
        ⟨failure, same, failed, _, empty, _, _, _⟩
      · cases same
        rw [if_pos rfl, if_neg (not_not.mpr rfl)]
        refine ⟨iff_of_true (.inr ?_) deliverable, fun done => by cases done⟩
        rw [core]
        refine ⟨rfl, live.next, _, rfl, rfl, ?_⟩
        rw [Valid, SlotCore.view, core]
        exact ⟨live.generation, rfl, live.next, rfl, (aside.epoch _).trans (focus.epoch _)⟩
      · cases same
        rw [if_neg failed]
        have free : (b.core (handleSlotId d.message.handle)).state = .free := core ▸ empty.state
        split
        · exact ⟨iff_of_true (.inl free) deliverable, fun _ => free⟩
        · exact ⟨iff_of_true (.inl free) deliverable, fun done => by cases done⟩

theorem receiveBegin_settles {begun : Option (Except Status (Message × ReceiveToken))}
    (begins : Completes (receiveBegin link.transport fuel) m begun m') :
    Settles pool (receiveReach link.localComponent link.transport.Uses) m m' := by
  have aside := (receiveBegin_aside link.transport link.transport.Uses fuel).runs pool m
  exact (begins.sound aside.wp).settles fun _ uses => uses

theorem receiveBegin_ready {message : Message}
    (begins : Completes (receiveBegin link.transport fuel) m (some (.ok (message, token))) m') :
    Committable link.transport token m' := by
  have peeks := receiveBegin_peeks smallPool link.transport fuel m
  exact (begins.sound peeks.wp message token rfl).committable

theorem RecvRun.settles (run : RecvRun pool link fuel m handled result m')
    (well : PoolWell pool m) :
    Settles pool (receiveReach link.localComponent link.transport.Uses) m m' := by
  induction run with
  | out => exact .refl _ _ _
  | waiting begins => exact receiveBegin_settles begins
  | failed begins => exact receiveBegin_settles begins
  | last begins ended =>
      have first : Settles pool _ _ _ := receiveBegin_settles begins
      exact first.trans (ended.sound (recvMessage_alone link _ _ (first.well well)).wp).1
  | next begins ended _ ih =>
      have first : Settles pool _ _ _ := receiveBegin_settles begins
      have second := first.trans (ended.sound (recvMessage_alone link _ _ (first.well well)).wp)
      exact second.trans (ih (second.well well))

/-- What becomes of the live transfers whose descriptors a receive consumes. -/
theorem RecvRun.served (valid : componentIdValid link.localComponent = true)
    (run : RecvRun pool link fuel m handled result m') (well : PoolWell pool m) (here : d ∈ handled)
    (live : Live pool link d) : Served link d.message result m' ↔ Deliverable pool link d := by
  induction run with
  | out | waiting | failed => cases here
  | last begins ended =>
      have first : Settles pool _ _ _ := receiveBegin_settles begins
      cases List.mem_singleton.mp here
      have fate := recvMessage_live live valid (first.well well) (receiveBegin_ready begins)
      exact (ended.sound fate.wp).1
  | next begins ended rest ih =>
      have first : Settles pool _ _ _ := receiveBegin_settles begins
      have middle := ended.sound (recvMessage_alone link _ _ (first.well well)).wp
      have after := (first.trans middle).well well
      rcases List.mem_cons.mp here with rfl | later
      · -- The slot was freed: no later descriptor of this call finds it in `TRANSFER`.
        have handled := recvMessage_live live valid (first.well well) (receiveBegin_ready begins)
        obtain ⟨fate, freed⟩ := ended.sound handled.wp
        have free := freed rfl
        have stays := (rest.settles after).free_stays (after _ live.inside).1 free
        exact iff_of_true (.inl stays) (fate.mp (.inl free))
      · exact ih after later

/-- Every complete run of the loop consumes some descriptors. -/
theorem recvLoop_runs : ∀ {m : Mem}, Completes (recvLoop pool link fuel) m result m' →
    ∃ handled, RecvRun pool link fuel m handled result m' := by
  induction fuel with
  | zero =>
      intro m run
      cases run
      exact ⟨[], .out _⟩
  | succ fuel ih =>
      intro m run
      obtain ⟨begun, a, begins, rest⟩ := Completes.bind run
      match begun with
      | none =>
          cases rest
          exact ⟨[], .waiting begins⟩
      | some (.error status) =>
          cases rest
          exact ⟨[], .failed begins⟩
      | some (.ok (message, token)) =>
          obtain ⟨ended, b, handles, rest⟩ := Completes.bind rest
          match ended with
          | some final =>
              cases rest
              exact ⟨[⟨message, a⟩], .last begins handles⟩
          | none =>
              obtain ⟨handled, more⟩ := ih rest
              exact ⟨⟨message, a⟩ :: handled, .next begins handles more⟩

end Fate

/-! ## The links of a session -/

section Links

variable {pool : Pool} {s : Session} {ok : Session → Session → Prop}

theorem linkCreate_valid (config : LinkConfig) (opened : Status) (m : Mem) :
    (Zipc.linkCreate config opened).wp
      (fun result _ => ∀ l, result = .ok l → componentIdValid l.localComponent = true) m := by
  simp only [Zipc.linkCreate]
  split
  · intro link done
    cases done
  · rename_i valid
    rw [not_or, Bool.not_eq_false] at valid
    rw [wp_bind]
    refine wp_mono (wp_true _ _) fun current a _ => ?_
    split
    · intro link done
      cases done
    · rw [wp_bind]
      refine wp_mono (wp_true _ _) fun epoch b _ => ?_
      split
      · intro link done
        cases done
      · rintro l ⟨⟩
        exact valid.1

/-- A program whose outcomes name no link. -/
theorem no_links {α : Type} {p : Prog α} {f : α → Option Outcome} (m : Mem)
    (plain : ∀ a outcome, f a = some outcome → outcome.link = none) :
    (p >>= fun a => pure (f a)).wp (fun result _ => ∀ outcome l, result = some outcome →
      outcome.link = some l → componentIdValid l.localComponent = true) m := by
  rw [wp_bind]
  refine wp_mono (wp_true p m) fun a _ _ => ?_
  intro outcome l same has
  rw [plain a outcome same] at has
  cases has

theorem LifeResult.outcome_link {result : LifeResult} {outcome : Outcome}
    (same : result.outcome = some outcome) : outcome.link = none := by
  rcases result with (_ | status | epoch) | (_ | status) | (_ | status | restart) | status
  all_goals cases same
  all_goals rfl

/-- A link that a call returns has a valid local component. -/
theorem ApiCall.links (call : ApiCall) (m : Mem) :
    (call.program pool).wp (fun result _ => ∀ outcome l, result = some outcome →
      outcome.link = some l → componentIdValid l.localComponent = true) m := by
  cases call with
  | linkCreate config opened =>
      simp only [ApiCall.program]
      rw [wp_bind]
      refine wp_mono (linkCreate_valid config opened m) ?_
      rintro (status | link) a valid
      · rintro outcome l ⟨⟩ ⟨⟩
      · rintro outcome l ⟨⟩ ⟨⟩
        exact valid _ rfl
  | life call => exact no_links m fun _ _ same => LifeResult.outcome_link same
  | recv | reconcile =>
      refine no_links m fun _ outcome same => ?_
      obtain ⟨_, _, rfl⟩ := Option.map_eq_some_iff.mp same
      rfl
  | fromHandle | prepareTransfer =>
      refine no_links m ?_
      rintro (_ | _) outcome ⟨⟩ <;> rfl
  | _ =>
      refine no_links m ?_
      rintro _ outcome ⟨⟩
      rfl

theorem Session.Reached.links (reached : s.Reached pool ok) {link : Link} (known : link ∈ s.links) :
    componentIdValid link.localComponent = true := by
  refine reached.invariant (I := fun s => ∀ l, l ∈ s.links → componentIdValid l.localComponent = true)
    (fun s starts l here => ?_) (fun s s' _ step _ before => ?_) link known
  · obtain ⟨_, _, _, _, none, _⟩ := starts
    rw [none] at here
    cases here
  · cases step with
    | @call call outcome m legal run =>
        intro l here
        rcases List.mem_append.mp here with new | old
        · exact run.sound (call.links s.mem) outcome l rfl (Option.mem_toList.mp new)
        · exact before l old
    | fill => exact before
    | tick => exact before

end Links

/-- Between complete calls every receive consumes its descriptors one after the other, and
    a live transfer among them is received or freed exactly when its descriptor is
    deliverable; the others stay in `TRANSFER`. -/
theorem recv_strands_iff {pool : Pool} {s : Session} (reached : s.Reached pool anyStep)
    {link : Link} (known : link ∈ s.links) {fuel : Nat} {result : Option (Status × Option View)}
    {m' : Mem} :
    (Completes (recv pool link fuel) s.mem result m' →
      (∃ handled, RecvRun pool link fuel s.mem handled result m') ∨
        result = some (.componentStale, none) ∧ m' = s.mem) ∧
    ∀ handled d, RecvRun pool link fuel s.mem handled result m' → d ∈ handled → Live pool link d →
      (Served link d.message result m' ↔ Deliverable pool link d) := by
  constructor
  · intro run
    obtain ⟨current, a, first, rest⟩ := Completes.bind run
    obtain ⟨rfl, _⟩ := first.sound (epochCurrent_alone pool s.mem _ _).wp
    split at rest
    · cases rest
      exact .inr ⟨rfl, rfl⟩
    · exact .inl (recvLoop_runs rest)
  · intro handled d run here live
    exact run.served (reached.links known) reached.well.slots here live

/-! ## A late receive -/

/-- A receive on a ring whose next descriptor it handles to the end. -/
theorem recvRun_last {pool : Pool} {link : Link} {r timeout p : Nat} {m : Mem}
    {result : Status × Option View} {message : Message}
    (transport : link.transport = .polling r timeout) (deep : 2 ≤ (m.rings r).depth)
    (position : (m.rings r).consumer = p) (pending : p ≠ (m.rings r).producer)
    (next : (m.rings r).entries (p % (m.rings r).depth) = message)
    (ended : ((recvMessage pool link message ⟨some p⟩).runWith default m).1 = some result) :
    RecvRun pool link 2 m [⟨message, m⟩] (some result)
      ((recvMessage pool link message ⟨some p⟩).runWith default m).2 := by
  have begins : Completes (receiveBegin link.transport 1) m (some (.ok (message, ⟨some p⟩))) m := by
    have begun : (receiveBegin (.polling r timeout) 1).runWith default m =
        (some (.ok (message, ⟨some p⟩)), m) := by
      subst position next
      have known : ¬(m.rings r).depth < 2 := Nat.not_lt.mpr deep
      simp only [receiveBegin, ringPeek, lift_bind, act_bind, pure_eq, runWith, exec_eq, Act.exec,
        known, pending, if_false, done_bind]
    rw [transport]
    have run := runWith_completes default (receiveBegin (.polling r timeout) 1) m
    rw [begun] at run
    exact run
  have handles := runWith_completes default (recvMessage pool link message ⟨some p⟩) m
  rw [ended] at handles
  exact .last begins handles

/-- A formatted pool beside rings of four entries. -/
def ringed : Session :=
  ⟨poolFormat smallPool { (default : Mem) with rings := fun _ => ⟨0, 0, 4, fun _ => default⟩ },
    [], [], []⟩

/-- The two ends of a ring from component 1 to component 2. -/
def sendingConfig : LinkConfig :=
  { localComponent := 1, remoteComponent := 2, linkId := 9, localEpoch := 0, role := .producer,
    transport := .polling 0 0, supplied := true, hopLimit := 0,
    defaultDeadlineNs := deadlineNone, timeoutTicks := 0 }

def receivingConfig : LinkConfig :=
  { sendingConfig with localComponent := 2, remoteComponent := 1, role := .consumer }

def sendingLink : Link :=
  { localComponent := 1, remoteComponent := 2, linkId := 9, localEpoch := 1, role := .producer,
    transport := .polling 0 0, recoveryRing := some 0, hopLimit := hopLimitUnlimited,
    defaultDeadlineNs := deadlineNone, timeoutTicks := 0 }

def receivingLink : Link :=
  { sendingLink with localComponent := 2, remoteComponent := 1, role := .consumer }

/-- Components 1 and 2 have opened the two ends and component 1 has a buffer. -/
def wired : Session :=
  [.life (.register 1 1), .life (.register 1 2), .linkCreate sendingConfig .ok,
    .linkCreate receivingConfig .ok, .allocate 1 0].foldl (Session.run smallPool) ringed

/-- Component 1 has set the deadline of its buffer to 5 and sent it. -/
def timed : Session := wired.run smallPool (.setLimits (some allocatedView) 4 5)

def sent : Session := timed.run smallPool (.send sendingLink (some allocatedView))

/-- Time has passed the deadline. -/
def late : Session := { sent with mem := { sent.mem with clock := 6 } }

theorem ringed_starts : ringed.Starts smallPool :=
  ⟨⟨_, rfl⟩, fun _ _ => rfl, rfl, rfl, rfl, rfl⟩

theorem wired_reached : wired.Reached smallPool anyStep := by
  have plain {s : Session} {call : ApiCall} (legal : call.Legal s)
      (ends : ((call.program smallPool).runWith default s.mem).1.isSome = true)
      (before : s.Reached smallPool anyStep) : (s.run smallPool call).Reached smallPool anyStep := by
    obtain ⟨start, starts, leads⟩ := before
    exact ⟨start, starts, leads.tail ⟨Session.run_step legal ends, trivial⟩⟩
  have begins : ringed.Reached smallPool anyStep := ⟨ringed, ringed_starts, .refl⟩
  simp only [wired, List.foldl_cons, List.foldl_nil]
  iterate 5 refine plain trivial (by decide) ?_
  exact begins

theorem sent_reached : sent.Reached smallPool anyStep := by
  have known : wired.Has (some allocatedView) := by
    rintro v ⟨⟩
    decide
  have again : timed.Has (some allocatedView) := by
    rintro v ⟨⟩
    decide
  obtain ⟨start, starts, leads⟩ := wired_reached
  have limits : wired.Step smallPool timed := Session.run_step known (by decide)
  have sends : timed.Step smallPool sent := Session.run_step ⟨by decide, again⟩ (by decide +kernel)
  exact ⟨start, starts, (leads.tail ⟨limits, trivial⟩).tail ⟨sends, trivial⟩⟩

theorem late_reached : late.Reached smallPool anyStep := by
  obtain ⟨start, starts, leads⟩ := sent_reached
  exact ⟨start, starts, leads.tail ⟨.tick 6, trivial⟩⟩

/-- The descriptor that component 1 has sent. -/
def sentMessage : Message := ⟨handleMake 0 1, 7, 1, 2, 1, 0⟩

theorem sent_run : RecvRun smallPool receivingLink 2 sent.mem [⟨sentMessage, sent.mem⟩]
    (some (.ok, some { allocatedView with owner := 2 }))
    ((recvMessage smallPool receivingLink sentMessage ⟨some 0⟩).runWith default sent.mem).2 :=
  recvRun_last rfl (by decide +kernel) (by decide +kernel) (by decide +kernel) (by decide +kernel)
    (by decide +kernel)

theorem late_run : RecvRun smallPool receivingLink 2 late.mem [⟨sentMessage, late.mem⟩]
    (some (.deadline, none))
    ((recvMessage smallPool receivingLink sentMessage ⟨some 0⟩).runWith default late.mem).2 :=
  recvRun_last rfl (by decide +kernel) (by decide +kernel) (by decide +kernel) (by decide +kernel)
    (by decide +kernel)

/-- In time, the live transfer is received. -/
theorem recv_strands_iff_in_time :
    Served receivingLink sentMessage (some (.ok, some { allocatedView with owner := 2 }))
      ((recvMessage smallPool receivingLink sentMessage ⟨some 0⟩).runWith default sent.mem).2 := by
  have live : Live smallPool receivingLink ⟨sentMessage, sent.mem⟩ :=
    ⟨by decide, by decide +kernel, by decide +kernel, by decide +kernel, by decide +kernel,
      by decide +kernel⟩
  have known : receivingLink ∈ sent.links := by decide +kernel
  refine ((recv_strands_iff sent_reached known).2 _ _ sent_run (List.mem_singleton.mpr rfl)
    live).mpr ?_
  exact ⟨rfl, rfl, rfl, .inr (by decide +kernel)⟩

/-- Past its deadline the live transfer is left in `TRANSFER` without a descriptor. -/
theorem late_receive_strands :
    ¬∀ (pool : Pool) (s : Session) (link : Link) (fuel : Nat) (handled : List Delivery)
      (result : Option (Status × Option View)) (m' : Mem) (d : Delivery),
      s.Reached pool anyStep → link ∈ s.links → RecvRun pool link fuel s.mem handled result m' →
      d ∈ handled → Live pool link d → Served link d.message result m' := by
  intro claim
  have live : Live smallPool receivingLink ⟨sentMessage, late.mem⟩ :=
    ⟨by decide, by decide +kernel, by decide +kernel, by decide +kernel, by decide +kernel,
      by decide +kernel⟩
  refine not_served ?_ (claim smallPool late receivingLink 2 _ _ _ _ late_reached (by decide +kernel)
    late_run (List.mem_singleton.mpr rfl) live)
  decide +kernel

end Zipc
