import Zipc.Drain

/-! # No buffer is lost

Every slot in use is named by a buffer that some call returned: by its slot, its generation,
its owner and the epoch of its owner. So the owner of a buffer can always release it, whatever
calls of the API came before and however often page protection, entropy or a transport failed.
-/

namespace Zipc

open Atomic Program

/-- What tells one tenure of a slot from another. -/
structure SlotKey where
  generation : Nat
  owner : Nat
  ownerEpoch : Nat
  deriving Repr, DecidableEq

def SlotCore.key (c : SlotCore) : SlotKey := ⟨c.generation, c.ownerId, c.ownerEpoch⟩

/-- The buffer names slot `i` with this content. -/
structure View.Names (v : View) (i : Nat) (c : SlotCore) : Prop where
  slot : v.slotId = i
  key : c.key = ⟨handleGeneration v.handle, v.owner, v.ownerEpoch⟩

/-- A slot in use afterwards was in use before in the same tenure, or `buffer` names it. -/
def Accounts (pool : Pool) (m : Mem) (buffer : Option View) (m' : Mem) : Prop :=
  ∀ i, i < pool.slotCount → (m'.core i).state ≠ .free →
    ((m.core i).state ≠ .free ∧ (m'.core i).key = (m.core i).key) ∨
      ∃ v, buffer = some v ∧ v.Names i (m'.core i)

/-- Every slot in use is named by a known buffer. -/
def Mem.Finds (m : Mem) (pool : Pool) (known : View → Prop) : Prop :=
  ∀ i, i < pool.slotCount → (m.core i).state ≠ .free → ∃ v, known v ∧ v.Names i (m.core i)

section Accounts

variable {pool : Pool} {m m' m'' : Mem} {buffer : Option View}

theorem Accounts.refl (m : Mem) : Accounts pool m none m := fun _ _ busy => .inl ⟨busy, rfl⟩

theorem Accounts.same (cores : ∀ i, m'.core i = m.core i) : Accounts pool m buffer m' := by
  intro i _ busy
  rw [cores] at busy ⊢
  exact .inl ⟨busy, rfl⟩

theorem Accounts.trans (first : Accounts pool m none m') (second : Accounts pool m' buffer m'') :
    Accounts pool m buffer m'' := by
  intro i inside busy
  rcases second i inside busy with ⟨before, same⟩ | named
  · rcases first i inside before with ⟨start, key⟩ | ⟨v, done, _⟩
    · exact .inl ⟨start, same.trans key⟩
    · cases done
  · exact .inr named

/-- A call that accounts for nothing new accounts for any buffer. -/
theorem Accounts.widen (accounts : Accounts pool m none m') : Accounts pool m buffer m' := by
  intro i inside busy
  rcases accounts i inside busy with same | ⟨v, done, _⟩
  · exact .inl same
  · cases done

theorem Accounts.finds {known known' : View → Prop} (accounts : Accounts pool m buffer m')
    (finds : m.Finds pool known) (keeps : ∀ v, known v → known' v)
    (returned : ∀ v, buffer = some v → known' v) : m'.Finds pool known' := by
  intro i inside busy
  rcases accounts i inside busy with ⟨before, key⟩ | ⟨v, same, names⟩
  · obtain ⟨v, has, names⟩ := finds i inside before
    exact ⟨v, keeps v has, names.slot, key.trans names.key⟩
  · exact ⟨v, returned v same, names⟩

/-- A call that works on one slot, which ends empty or in the same tenure. -/
theorem Focus.accounts {i : Nat} {c : SlotCore} {log : List TraceRecord}
    (focus : Focus m i c log m')
    (here : c.state ≠ .free → (m.core i).state ≠ .free ∧ c.key = (m.core i).key) :
    Accounts pool m none m' := by
  intro j _ busy
  by_cases same : j = i
  · subst same
    rw [focus.core] at busy ⊢
    exact .inl (here busy)
  · rw [focus.others j same] at busy ⊢
    exact .inl ⟨busy, rfl⟩

/-- A call that works on one slot, which the returned buffer names. -/
theorem Focus.accounts_named {i : Nat} {c : SlotCore} {log : List TraceRecord} {v : View}
    (focus : Focus m i c log m') (names : v.Names i c) : Accounts pool m (some v) m' := by
  intro j _ busy
  by_cases same : j = i
  · subst same
    rw [focus.core]
    exact .inr ⟨v, rfl, names⟩
  · rw [focus.others j same] at busy ⊢
    exact .inl ⟨busy, rfl⟩

end Accounts

/-! ## Steps that keep the generation -/

section Steps

variable {pool : Pool} {reach : Reach} {retired : Nat → Nat → Prop} {i : Nat} {c c' : SlotCore}
  {log : List TraceRecord} {m m' : Mem}

/-- A step that keeps the generation and receives nothing keeps the tenure, or ends it. -/
theorem SlotLife.tenure (life : SlotLife pool retired i c c' log) (small : c.generation < u32)
    (same : c'.generation = c.generation) (deaf : c.state ≠ .transfer ∨ received log = [])
    (busy : c'.state ≠ .free) : c.state ≠ .free ∧ c'.key = c.key := by
  have renewed (next : c'.generation = nextGeneration c.generation) : False :=
    nextGeneration_ne small (next.symm.trans same)
  cases life with
  | save | window | limit => exact ⟨busy, rfl⟩
  | allocate _ _ next => exact (renewed next).elim
  | refuse _ empty => exact absurd empty.state busy
  | free empty => exact absurd empty.state busy
  | adopt => exact (renewed rfl).elim
  | retake => exact (renewed rfl).elim
  | receive sent =>
      rcases deaf with unsent | none
      · exact absurd sent unsent
      · simp [received] at none
  | send state | rollback state | stick state | repair state =>
      refine ⟨?_, rfl⟩
      rw [state]
      decide

theorem PoolStep.accounts (step : PoolStep pool reach m m') (well : PoolWell pool m)
    (same : ∀ i, (m'.core i).generation = (m.core i).generation)
    (deaf : (∀ i c, reach.slot i c → c.state ≠ .transfer) ∨ received m'.hooked = received m.hooked) :
    Accounts pool m none m' := by
  cases step with
  | still cores => exact .same cores
  | @life j log inside near life others hooked =>
      intro i _ busy
      by_cases here : i = j
      · subst here
        refine .inl (life.tenure (well i inside).1 (same i) ?_ busy)
        rcases deaf with unsent | none
        · exact .inl (unsent _ _ near)
        · rw [hooked, received_append] at none
          exact .inr (List.append_cancel_left (none.trans (List.append_nil _).symm))
      · rw [others i here] at busy ⊢
        exact .inl ⟨busy, rfl⟩

/-- A call that touches no transfer. -/
theorem Settles.accounts (settles : Settles pool reach m m') (well : PoolWell pool m)
    (unsent : ∀ i c, reach.slot i c → c.state ≠ .transfer) : Accounts pool m none m' := by
  suffices ends : PoolWell pool m' ∧ Accounts pool m none m' from ends.2
  induction settles with
  | refl => exact ⟨well, .refl m⟩
  | tail _ step ih =>
      exact ⟨step.1.step.well ih.1, ih.2.trans (step.1.step.accounts ih.1 step.2 (.inl unsent))⟩

/-- A call that records no receive. -/
theorem Settles.accounts_deaf (settles : Settles pool reach m m') (well : PoolWell pool m)
    (deaf : received m'.hooked = received m.hooked) : Accounts pool m none m' := by
  have ends : PoolWell pool m' ∧ ∃ log, m'.hooked = m.hooked ++ log ∧
      (received log = [] → Accounts pool m none m') := by
    clear deaf
    induction settles with
    | refl => exact ⟨well, [], (List.append_nil _).symm, fun _ => .refl m⟩
    | tail _ step ih =>
        obtain ⟨sound, log, hooked, kept⟩ := ih
        obtain ⟨more, next⟩ := step.1.hooked
        refine ⟨step.1.step.well sound, log ++ more, by rw [next, hooked, List.append_assoc],
          fun none => ?_⟩
        rw [received_append, List.append_eq_nil_iff] at none
        refine (kept none.1).trans (step.1.step.accounts sound step.2 (.inr ?_))
        rw [next, received_append, none.2, List.append_nil]
  obtain ⟨_, log, hooked, kept⟩ := ends
  refine kept ?_
  rw [hooked, received_append] at deaf
  exact List.append_cancel_left (deaf.trans (List.append_nil _).symm)

end Steps

/-! ## Calls that record no receive -/

/-- Actions that pass no record of a receive to the trace hook. -/
def Act.deaf {β : Type} : Act β → Prop
  | .hookSlot _ _ _ event _ => event ≠ .receive
  | .hook record => record.event ≠ .receive
  | _ => True

/-- The program records no receive. -/
def Deaf {α : Type} (p : Prog α) : Prop := Every Act.deaf p

section Deaf

variable {α β : Type} {pool : Pool} {m m' : Mem}

theorem Act.deaf.hears {action : Act β} (deaf : action.deaf) (e : Env) (m : Mem) :
    received (action.exec e m).2.hooked = received m.hooked := by
  have dropped {record : TraceRecord} (other : record.event ≠ .receive) :
      received (m.hooked ++ [record]) = received m.hooked := by
    rw [received_append]
    simp [received, other]
  cases action
  case hookSlot => exact dropped deaf
  case hook => exact dropped deaf
  case casState | casToken | casLifecycle | eventWrite | protect =>
    simp only [Act.exec]
    split <;> rfl
  case eventRead =>
    simp only [Act.exec]
    split
    · rfl
    · split <;> rfl
  all_goals rfl

theorem Deaf.hears {p : Prog α} {a : α} (deaf : Deaf p) (run : Completes p m a m') :
    received m'.hooked = received m.hooked :=
  Every.preserves (P := fun a => received a.hooked = received m.hooked) deaf
    (fun _ e a ok same => (ok.hears e a).trans same) run rfl

theorem ringScan_deaf {r : Nat} {message : Message} {depth : Nat} (left position : Nat) :
    Deaf (ringScan r message depth left position) := by
  induction left generalizing position with
  | zero => trivial
  | succ left ih => exact every_act trivial fun _ => every_ite trivial (ih _)

theorem transportSend_deaf (t : Transport) (message : Message) :
    Deaf (transportSend t message) := by
  have pushes (r : Nat) : Deaf (ringPush r message) := by
    simp only [ringPush, lift_bind]
    refine every_act trivial fun depth => every_ite trivial ?_
    refine every_act trivial fun producer => every_act trivial fun consumer => ?_
    refine every_ite trivial (Every.bind (ringScan_deaf _ _) fun pending => ?_)
    exact every_ite trivial (every_act trivial fun _ => every_act trivial fun _ => trivial)
  cases t with
  | eventfd r =>
      refine Every.bind (pushes r) fun status => every_ite trivial ?_
      exact every_act trivial fun _ => trivial
  | polling r timeout => exact pushes r
  | external => exact every_act trivial fun _ => trivial

theorem protectSlot_deaf (i : Nat) (readWrite : Bool) : Deaf (protectSlot pool i readWrite) := by
  unfold protectSlot
  exact every_ite trivial (every_ite trivial (every_act trivial fun _ => trivial))

theorem traceSlot_deaf {event : TraceEvent} (i component : Nat) (other : event ≠ .receive) :
    Deaf (traceSlot pool i component event) := by
  simp only [Deaf, traceSlot, lift_bind]
  refine every_act trivial fun _ => every_act trivial fun _ => every_act trivial fun _ => ?_
  exact every_act trivial fun _ => every_act trivial fun _ => every_act other fun _ => trivial

theorem recordProtocolError_deaf (component : Nat) : Deaf (recordProtocolError pool component) := by
  have other : TraceEvent.error ≠ .receive := by decide
  exact every_act trivial fun _ => every_act trivial fun _ => every_act other fun _ => trivial

/-- A program that traces another event, and goes on. -/
theorem Deaf.traced {event : TraceEvent} {i component : Nat} {f : Unit → Prog α}
    (other : event ≠ .receive) (rest : ∀ b, Deaf (f b)) :
    Deaf (traceSlot pool i component event >>= f) := Every.bind (traceSlot_deaf i component other) rest

theorem prepare_deaf (handle owner next linkId : Nat) :
    Deaf (bufferPrepareTransferInternal pool handle owner next linkId) := by
  simp only [Deaf, bufferPrepareTransferInternal, prepareClaimed, limitsExceeded, prepareTransfer,
    registeredEpoch, ownedBy, recordSlotError, publish, clearClaimToken, lift_bind, act_bind,
    pure_eq, done_bind]
  repeat' first
    | exact trivial | exact protectSlot_deaf _ _ | exact recordProtocolError_deaf _
    | exact traceSlot_deaf _ _ (by decide) | refine Deaf.traced (by decide) fun _ => ?_
    | apply every_ite | apply every_act | apply Every.bind | intro _ | split

theorem rollbackTransfer_deaf (link : Link) (i : Nat) (message : Message) :
    Deaf (rollbackTransfer pool link i message) := by
  simp only [Deaf, rollbackTransfer, rollbackClaimed, rollbackMatches, publish, clearClaimToken,
    lift_bind, act_bind, pure_eq, done_bind]
  repeat' first
    | exact trivial | exact protectSlot_deaf _ _ | apply every_ite | apply every_act
    | apply Every.bind | intro _

theorem epochCurrent_deaf (component epoch : Nat) : Deaf (epochCurrent component epoch) := by
  simp only [epochCurrent, componentEpochCurrent, lift_bind]
  exact every_ite (every_ite trivial (every_act trivial fun _ => trivial)) trivial

theorem send_deaf (link : Link) (v : View) : Deaf (send pool link (some v)) := by
  have traces {f : Unit → Prog (Status × Option View)} {handle sequence component : Nat}
      (rest : ∀ b, Deaf (f b)) :
      Deaf (traceExternalEvent pool handle sequence component .error >>= f) :=
    have other : TraceEvent.error ≠ .receive := by decide
    every_act trivial fun _ => every_act other rest
  have owns : Deaf (bufferOwned (some v)) := by
    simp only [Deaf, bufferOwned, ownedBy, registeredEpoch, lift_bind, act_bind, pure_eq]
    repeat' first
      | exact trivial | apply every_ite | apply every_act | apply Every.bind | intro _
  unfold send
  refine Every.bind owns fun owned => ?_
  cases owned with
  | false => trivial
  | true =>
      refine Every.bind (epochCurrent_deaf _ _) fun current =>
        every_ite trivial (every_ite trivial ?_)
      refine Every.bind (prepare_deaf _ _ _ _) fun prepared => ?_
      cases prepared with
      | error status => trivial
      | ok message =>
          unfold sendPrepared
          refine Every.bind (transportSend_deaf _ _) fun status => ?_
          refine every_ite (traces fun _ => trivial) (every_ite ?_ trivial)
          refine Every.bind (rollbackTransfer_deaf _ _ _) fun undone => ?_
          exact every_ite (traces fun _ => trivial) trivial

theorem poolRecoverOwner_deaf (component deadEpoch minimumAgeNs : Nat) :
    Deaf (poolRecoverOwner pool component deadEpoch minimumAgeNs) := by
  have probes (time i : Nat) (state : SlotState) :
      Deaf (recoverProbed pool component deadEpoch minimumAgeNs time i state) := by
    simp only [Deaf, recoverProbed, writeAll, lift_bind, act_bind, pure_eq, done_bind]
    repeat' first
      | exact trivial | exact protectSlot_deaf _ _ | refine Deaf.traced (by decide) fun _ => ?_
      | apply every_ite | apply every_act | apply Every.bind | intro _
  have scans (time left i : Nat) (result : RecoveryResult) :
      Deaf (recoverOwnerScan pool component deadEpoch minimumAgeNs time left i result) := by
    induction left generalizing i result with
    | zero => trivial
    | succ left ih =>
        refine every_act trivial fun state => every_ite (ih _ _) ?_
        refine every_act trivial fun won => every_ite (ih _ _) ?_
        refine Every.bind (probes _ _ _) fun probed => ?_
        split
        · trivial
        · exact ih _ _
        · exact ih _ _
  refine every_ite trivial (every_act trivial fun _ => every_ite trivial ?_)
  exact every_act trivial fun _ => scans _ _ _ _

theorem linkReconcile_deaf (link : Link) (restart : Restart) (fuel : Nat) :
    Deaf (linkReconcile pool link restart fuel) := by
  have slots (i : Nat) : Deaf (reconcileSlot pool link restart i) := by
    simp only [Deaf, reconcileSlot, reconcileClaiming, reconcileTransfer, reconcileProbe,
      reconcileMatches, clearRollback, clearClaimToken, restoreTransfer, restoreSequence, lift_bind,
      act_bind, pure_eq, done_bind]
    repeat' first
      | exact trivial | exact protectSlot_deaf _ _ | exact transportSend_deaf _ _
      | apply every_ite | apply every_act | apply Every.bind | intro _ | split
  have scans (left i recovered : Nat) : Deaf (reconcileScan pool link restart left i recovered) := by
    induction left generalizing i recovered with
    | zero => trivial
    | succ left ih =>
        refine Every.bind (slots i) fun slot => ?_
        split
        · trivial
        · exact ih _ _
  have drains (ring fuel : Nat) : Deaf (reconcileDrain pool ring fuel) := by
    induction fuel with
    | zero => trivial
    | succ fuel ih =>
        refine every_act trivial fun _ => every_act trivial fun _ => every_ite trivial ?_
        refine every_act trivial fun _ => every_act trivial fun _ => ?_
        refine every_ite (every_act trivial fun _ => ih) ?_
        refine every_act trivial fun _ => every_act trivial fun _ => every_ite trivial ?_
        exact every_act trivial fun _ => ih
  have refuses : Deaf (reconcileRefused link restart) := by
    refine every_ite trivial (Every.bind ?_ fun _ => trivial)
    exact every_ite trivial (every_act trivial fun _ => trivial)
  refine Every.bind refuses fun refused => ?_
  split
  · trivial
  · refine Every.bind (scans _ _ _) fun scanned => ?_
    split
    split
    · trivial
    · split
      · exact Every.bind (drains _ _) fun _ => trivial
      · trivial

end Deaf

/-! ## Calls that return a buffer -/

section Returning

variable {pool : Pool} {m m' : Mem} {a : AllocateArgs} {restart : Restart}

theorem Owns.names {c : SlotCore} {v : View} (owns : Owns m c v) : v.Names v.slotId c := by
  refine ⟨rfl, ?_⟩
  rw [SlotCore.key, owns.generation, owns.owner, owns.ownerEpoch]

theorem allocateInternal_accounts {ownerEpoch : Nat}
    (current : ownerEpoch ≠ 0 → m.epoch a.allocator = ownerEpoch) :
    (bufferAllocateInternal pool a ownerEpoch).wpsIn anyEnv (Guarded pool.lax)
      (fun result m' => Accounts pool m result.2 m') m := by
  by_cases legal : a.Legal pool
  swap
  · rw [allocateInternal_refuses legal]
    exact .refl m
  have scanned : (bufferAllocateInternal pool a ownerEpoch).wpsIn anyEnv (Guarded pool.lax)
      (Scanned pool (Taken pool a m) (m.allocationCursor % pool.slotCount) pool.slotCount 0 m) m :=
    allocateInternal_scanned legal fun epoch token i same inside available => by
      refine allocateTry_taken legal ?_ inside available
      rw [same]
      split
      · rename_i given
        exact current given
      · rfl
  refine wpsIn_mono scanned ?_
  rintro result m' (⟨rfl, same, _⟩ | ⟨k, _, _, _, taken⟩)
  · exact .same same
  intro j _ busy
  by_cases here : j = scanIndex pool.slotCount (m.allocationCursor % pool.slotCount) (0 + k)
  · subst here
    by_cases ok : result.1 = .ok
    · obtain ⟨v, same, slot, synced, _⟩ := taken.made ok
      exact .inr ⟨v, same, slot ▸ synced.valid.names⟩
    · exact absurd (taken.refused ok).2 busy
  · rw [taken.others j here] at busy ⊢
    exact .inl ⟨busy, rfl⟩

theorem bufferAllocEx_accounts (link : Link) (size headroom tailroom : Nat)
    (parent : Option (Option View)) :
    (bufferAllocEx pool link size headroom tailroom parent).wpsIn anyEnv (Guarded pool.lax)
      (fun result m' => Accounts pool m result.2 m') m := by
  simp only [bufferAllocEx]
  refine wpsIn_ite (fun _ => .refl m) fun _ => ?_
  rw [wpsIn_bind]
  refine wpsIn_mono (wps.within (epochCurrent_alone pool.lax m _ _)) ?_
  rintro current m ⟨rfl, known⟩
  refine wpsIn_ite (fun _ => .refl m) fun live => wpsIn_ite (fun _ => .refl m) fun _ => ?_
  rw [Bool.not_eq_false] at live
  cases parent with
  | none => exact allocateInternal_accounts (known live)
  | some buffer =>
      cases buffer with
      | none => exact .refl m
      | some v =>
          simp only
          rw [wpsIn_bind]
          refine wpsIn_mono (wps.within (bufferOwned_alone pool.lax m v)) ?_
          rintro owned m ⟨rfl, _⟩
          cases owned with
          | false => exact .refl m
          | true => exact ⟨trivial, fun _ _ => allocateInternal_accounts (known live)⟩

/-- A claim that fails leaves the slot as it is or empty. -/
theorem bufferClaim_accounts (message : Message) (receiver : Nat) (well : PoolWell pool m) :
    (bufferClaim pool message receiver).wps (Guarded pool) (fun result m' =>
      Accounts pool m result.2 m' ∧ ∀ v, result.2 = some v → result.1 = .ok ∧ v.owner = receiver)
      m := by
  refine wps_mono (wps_and (claim_focused fun inside => well _ inside).alone
    (bufferClaim_alone message receiver (fun _ => False) well)) ?_
  rintro result m' ⟨⟨c, log, focus, ends⟩, _, fresh⟩
  refine ⟨?_, fun v same => ⟨(fresh v same).1, (fresh v same).2.2⟩⟩
  simp only [ClaimEnds] at ends
  split at ends
  · obtain ⟨rfl, rfl, _⟩ := ends
    exact focus.accounts fun busy => ⟨busy, rfl⟩
  · rcases ends with ⟨rfl, _, _⟩ | ⟨status, rfl, _, _, empty, _⟩
    · have names := (fresh _ rfl).2.1.valid.names
      change View.Names _ _ (m'.core (handleSlotId message.handle)) at names
      rw [focus.core] at names
      exact focus.accounts_named names
    · exact focus.accounts fun busy => absurd empty.state busy

theorem recvMessage_accounts {link : Link} {token : ReceiveToken} (message : Message)
    (ready : Committable link.transport token m) (well : PoolWell pool m) :
    (recvMessage pool link message token).wps (Guarded pool) (fun ended m' =>
      Accounts pool m (ended.bind (·.2)) m') m := by
  simp only [recvMessage]
  refine wps_ite (fun _ => ?_) fun _ => ?_
  · rw [wps_bind]
    refine wps_mono ((recordProtocolError_aside link.transport.Uses _).runs pool m) ?_
    intro _ a first
    rw [wps_bind]
    refine wps_mono ((receiveCommit_aside link.transport token).runs pool a) ?_
    intro _ b second
    exact .same fun i => (second.cores i).trans (first.cores i)
  · rw [wps_bind]
    refine wps_mono (wps_and (claim_focused fun inside => well _ inside).alone
      (bufferClaim_accounts message link.localComponent well)) ?_
    rintro ⟨status, buffer⟩ a ⟨⟨_, _, focus, _⟩, accounts, owned⟩
    have still : Committable link.transport token a := by
      intro p position
      rw [focus.rings]
      exact ready p position
    simp only
    rw [wps_bind]
    refine wps_mono (receiveCommit_ok still) ?_
    rintro committed b ⟨rfl, aside⟩
    have later {buffer : Option View} (accounts : Accounts pool m buffer a) :
        Accounts pool m buffer b := by
      intro i inside busy
      rw [aside.cores] at busy ⊢
      exact accounts i inside busy
    by_cases ok : status = .ok
    · rw [if_pos ok, if_neg (not_not_intro rfl)]
      cases buffer with
      | none => exact later accounts
      | some v =>
          have owner : { v with owner := link.localComponent } = v := by
            rw [← (owned v rfl).2]
          have taken := later accounts
          rwa [← owner] at taken
    · have none : buffer = none := by
        cases buffer with
        | none => rfl
        | some v => exact absurd (owned v rfl).1 ok
      subst none
      rw [if_neg ok]
      exact wps_ite (fun _ => later accounts) fun _ => later accounts

theorem recvLoop_accounts (link : Link) (fuel : Nat) : ∀ m, PoolWell pool m →
    (recvLoop pool link fuel).wps (Guarded pool) (fun ended m' =>
      Accounts pool m (ended.bind (·.2)) m') m := by
  induction fuel with
  | zero => exact fun m _ => .refl m
  | succ fuel ih =>
      intro m well
      simp only [recvLoop]
      rw [wps_bind]
      refine wps_mono (wps_and (receiveBegin_peeks pool link.transport fuel m)
        ((receiveBegin_aside link.transport link.transport.Uses fuel).runs pool m)) ?_
      rintro begun a ⟨peeks, aside⟩
      have first {buffer : Option View} : Accounts pool m buffer a := .same aside.cores
      have settles : Settles pool (receiveReach link.localComponent link.transport.Uses) m a :=
        aside.settles fun _ uses => uses
      have sound := settles.well well
      split
      · exact first
      · exact first
      · rename_i message token
        rw [wps_bind]
        refine wps_mono (wps_and (recvMessage_accounts message (peeks message token rfl).committable
          sound) (recvMessage_alone link message token sound)) ?_
        rintro ended b ⟨second, more⟩
        cases ended with
        | some result => exact Accounts.trans first second
        | none => exact wps_mono (ih b (more.well sound)) fun _ _ rest =>
            Accounts.trans first (second.trans rest)

theorem recv_accounts (link : Link) (fuel : Nat) (well : PoolWell pool m) :
    (recv pool link fuel).wps (Guarded pool) (fun ended m' =>
      Accounts pool m (ended.bind (·.2)) m') m := by
  simp only [recv]
  rw [wps_bind]
  refine wps_mono (epochCurrent_alone pool m _ _) ?_
  rintro current m ⟨rfl, _⟩
  exact wps_ite (fun _ => .refl m) fun _ => recvLoop_accounts link fuel m well

/-- The buffer of a round that adopts a slot. -/
def RestartRound.buffer : RestartRound → Option View
  | .adopt v => some v
  | _ => none

theorem AdoptEnds.accounts {i : Nat} {c c' : SlotCore} {round : RestartRound}
    {log : List TraceRecord} (inside : i < pool.slotCount)
    (ends : AdoptEnds anyEnv pool m i restart c round c' log) (focus : Focus m i c' log m')
    (busy : (m.core i).state ≠ .free) (key : c.key = (m.core i).key) :
    Accounts pool m round.buffer m' := by
  have small : i < u32 := lt_trans inside pool.slotCount_lt
  obtain ⟨_, ⟨rfl, rfl, _⟩ | ⟨_, _, ends⟩⟩ := ends
  · exact focus.accounts fun _ => ⟨busy, key⟩
  rcases ends with ⟨status, rfl, _, _, rfl⟩ | ⟨access, _, rfl, rfl⟩ | ⟨access, _, _, rfl, rfl⟩
  · exact focus.accounts fun _ => ⟨busy, key⟩
  · exact focus.accounts fun _ => ⟨busy, key⟩
  · refine focus.accounts_named ⟨rfl, ?_⟩
    simp [SlotCore.view, SlotCore.key, handleGeneration_make small (nextGeneration_lt _),
      SlotCore.adopted]

theorem restartSlot_accounts {i : Nat} (inside : i < pool.slotCount) (well : PoolWell pool m) :
    (restartSlot pool restart i).wps (Guarded pool) (fun round m' =>
      Accounts pool m round.buffer m') m := by
  refine wps_mono (restartSlot_focused (well i inside).settled).alone ?_
  rintro round m' ⟨c, log, focus, ends⟩
  cases state : (m.core i).state with
  | free | transfer | error =>
      simp only [RestartEnds, state] at ends
      obtain ⟨rfl, rfl, rfl⟩ := ends
      exact focus.accounts fun busy => ⟨busy, rfl⟩
  | owned =>
      simp only [RestartEnds, state] at ends
      exact ends.accounts inside focus (by simp [state]) rfl
  | claiming =>
      simp only [RestartEnds, state] at ends
      rcases ends with ⟨rfl, rfl, rfl, _⟩ | ⟨_, ends⟩
      · exact focus.accounts fun busy => ⟨busy, rfl⟩
      · exact ends.accounts inside focus (by simp [state]) rfl

theorem restartScan_accounts (left : Nat) : ∀ (restart : Restart) (m : Mem), RestartWell restart →
    Restarting m restart → left ≤ pool.slotCount - restart.cursor → PoolWell pool m →
      (restartScan pool left restart).wps (Guarded pool) (fun result m' =>
        Accounts pool m result.2.2 m') m := by
  induction left with
  | zero => exact fun restart m _ _ _ _ => .refl m
  | succ left ih =>
      intro restart m sound active below well
      have inside : restart.cursor < pool.slotCount := by omega
      simp only [restartScan]
      rw [wps_bind]
      refine wps_mono (wps_and (restartSlot_accounts inside well)
        (restartSlot_alone sound active inside well)) ?_
      rintro round a ⟨first, lifecycle, ends⟩
      cases round with
      | fail status => exact first
      | adopt v => exact first
      | skip | owned =>
          have next : RestartWell { restart with cursor := restart.cursor + 1 } :=
            ⟨sound.valid, sound.dead, sound.epoch, sound.small⟩
          refine wps_mono (ih { restart with cursor := restart.cursor + 1 } a next
            ((lifecycle _).trans active) (by simp only; omega) (ends.well well)) ?_
          exact fun _ _ rest => Accounts.trans first rest

theorem componentRestartNext_accounts (sound : RestartWell restart) (well : PoolWell pool m) :
    (componentRestartNext pool restart).wps (Guarded pool) (fun result m' =>
      Accounts pool m result.2.2 m') m := by
  simp only [componentRestartNext]
  rw [wps_bind]
  refine wps_mono (epochRecovering_alone pool m _ _) ?_
  rintro recovering m ⟨rfl, active⟩
  refine wps_ite (fun _ => .refl m) fun going => ?_
  rw [not_or, Bool.not_eq_false] at going
  exact restartScan_accounts _ restart m sound (active going.1).2.2 le_rfl well

end Returning

/-! ## Whole runs -/

section Runs

variable {pool : Pool} {s s' : Session} {call : ApiCall} {outcome : Outcome} {m : Mem}

theorem ownerReach_unsent (owner i : Nat) (c : SlotCore) (near : (ownerReach owner).slot i c) :
    c.state ≠ .transfer := by
  rw [near.1]
  decide

theorem Edits.accounts {owner : Nat} {v : View} {result : Status × Option View} {m' : Mem}
    (edits : Edits pool (ownerReach owner) v m result m') (well : PoolWell pool m) :
    Accounts pool m none m' := edits.settles.accounts well (ownerReach_unsent owner)

theorem bufferOutcome_accounts {p : Prog (Status × Option View)}
    (run : Completes (bufferOutcome p) s.mem (some outcome) m)
    (accounts : ∀ result m', Completes p s.mem result m' → Accounts pool s.mem result.2 m') :
    Accounts pool s.mem outcome.buffer m := by
  obtain ⟨result, a, first, rest⟩ := run.bind
  cases rest
  exact accounts result _ first

/-- An operation on the window of a buffer. -/
theorem window_accounts {buffer : Option View} (op : Option View → Prog (Status × Option View))
    (well : SessionWell pool s) (has : s.Has buffer)
    (run : Completes (bufferOutcome (op buffer)) s.mem (some outcome) m)
    (idle : op none = pure (.invalidBuffer, none))
    (focused : ∀ v, v.capacity = pool.slotCapacity →
      (s.mem.core v.slotId).region.Within pool.slotCapacity →
      Focused anyEnv pool s.mem v.slotId (op (some v))
        (WindowEnds pool s.mem (s.mem.core v.slotId) v) (s.mem.core v.slotId) []) :
    Accounts pool s.mem outcome.buffer m := by
  refine bufferOutcome_accounts run fun result m' run => ?_
  cases buffer with
  | none =>
      rw [idle] at run
      cases run
      exact .refl _
  | some v =>
      have placed := well.views v (has v rfl)
      have edits := run.sound (window_alone placed
        (focused v placed.capacity (well.slots _ placed.inside).region)).wp
      exact (edits.accounts well.slots).widen

/-- A slot in use after a call was in use before, or the call returns its buffer. -/
theorem ApiCall.accounts (well : SessionWell pool s) (legal : call.Legal s)
    (run : Completes (call.program pool) s.mem (some outcome) m) :
    Accounts pool s.mem outcome.buffer m := by
  have slots := well.slots
  have nowhere {a : Mem} (settles : Settles pool noReach s.mem a) : Accounts pool s.mem none a :=
    settles.accounts slots fun _ _ near => near.elim
  have anywhere (e : Env) : anyEnv e := trivial
  cases call with
  | life call =>
      obtain ⟨result, a, first, rest⟩ := run.bind
      have renews := (first.sound (lifeCall_alone call pool s.mem).wp).1
      generalize result.outcome = ended at rest
      cases rest
      exact (nowhere renews.settles).widen
  | heartbeat component epoch =>
      obtain ⟨status, a, first, rest⟩ := run.bind
      cases rest
      exact nowhere (first.sound (heartbeat_alone pool s.mem component epoch).wp)
  | linkCreate config opened =>
      obtain ⟨result, a, first, rest⟩ := run.bind
      cases rest
      obtain rfl := first.sound (linkCreate_alone pool s.mem config opened).wp
      exact (Accounts.refl _).widen
  | allocate allocator parentId =>
      refine bufferOutcome_accounts run fun result a run => ?_
      exact run.sound ((allocateInternal_accounts fun given => absurd rfl given).all anywhere).wp
  | allocEx link size headroom tailroom parent =>
      refine bufferOutcome_accounts run fun result a run => ?_
      exact run.sound ((bufferAllocEx_accounts link size headroom tailroom parent).all anywhere).wp
  | fromHandle handle owner =>
      obtain ⟨result, a, first, rest⟩ := run.bind
      cases rest
      exact (nowhere (first.sound (bufferFromHandle_alone handle owner slots).wp).1).widen
  | setRegion buffer offset length =>
      exact window_accounts (fun buffer => bufferSetRegion buffer offset length) well legal run rfl
        fun _ fits within => bufferSetRegion_focused rfl fits within
  | append buffer bytes =>
      exact window_accounts (fun buffer => bufferAppend buffer bytes) well legal run rfl
        fun _ fits within => bufferAppend_focused rfl fits within
  | prepend buffer bytes =>
      exact window_accounts (fun buffer => bufferPrepend buffer bytes) well legal run rfl
        fun _ fits within => bufferPrepend_focused rfl fits within
  | trimFront buffer length =>
      exact window_accounts (fun buffer => bufferTrimFront buffer length) well legal run rfl
        fun _ fits within => bufferTrimFront_focused rfl fits within
  | trimBack buffer length =>
      exact window_accounts (fun buffer => bufferTrimBack buffer length) well legal run rfl
        fun _ fits within => bufferTrimBack_focused rfl fits within
  | resize buffer size =>
      exact window_accounts (fun buffer => bufferResize buffer size) well legal run rfl
        fun _ fits within => bufferResize_focused rfl fits within
  | setLimits buffer hopLimit deadline =>
      obtain ⟨status, a, first, rest⟩ := run.bind
      cases rest
      cases buffer with
      | none =>
          cases first
          exact .refl _
      | some v =>
          have placed := well.views v (legal v rfl)
          have settles := first.sound (bufferSetLimits_alone hopLimit deadline placed).wp
          exact (settles.accounts slots (ownerReach_unsent _)).widen
  | prepareTransfer handle owner next =>
      obtain ⟨result, a, first, rest⟩ := run.bind
      cases rest
      have prepares := first.sound (prepare_alone handle owner next 0 slots).wp
      exact (prepares.1.accounts slots (ownerReach_unsent owner)).widen
  | send link buffer =>
      refine bufferOutcome_accounts run fun result a run => ?_
      cases buffer with
      | none =>
          cases run
          exact .refl _
      | some v =>
          have edits := run.sound (send_alone link (well.views v (legal.2 v rfl)) slots).wp
          exact (edits.settles.accounts_deaf slots ((send_deaf link v).hears run)).widen
  | claim message receiver =>
      refine bufferOutcome_accounts run fun result a run => ?_
      exact (run.sound (bufferClaim_accounts message receiver slots).wp).1
  | recv link fuel =>
      obtain ⟨result, a, first, rest⟩ := run.bind
      cases result with
      | none => cases rest
      | some result =>
          cases rest
          exact first.sound (recv_accounts link fuel slots).wp
  | poolRelease handle owner =>
      obtain ⟨status, a, first, rest⟩ := run.bind
      cases rest
      have settles := first.sound (poolBufferRelease_alone handle owner slots).wp
      exact settles.accounts slots (ownerReach_unsent owner)
  | release buffer =>
      refine bufferOutcome_accounts run fun result a run => ?_
      cases buffer with
      | none =>
          cases run
          exact .refl _
      | some v => exact ((run.sound (bufferRelease_alone v slots).wp).accounts slots).widen
  | put link buffer =>
      refine bufferOutcome_accounts run fun result a run => ?_
      cases buffer with
      | none =>
          cases run
          exact .refl _
      | some v => exact ((run.sound (bufferPut_alone link v slots).wp).accounts slots).widen
  | restartNext restart =>
      obtain ⟨⟨status, restart', buffer⟩, a, first, rest⟩ := run.bind
      cases rest
      exact first.sound (componentRestartNext_accounts (well.restarts restart legal) slots).wp
  | recoverOwner component deadEpoch minimumAgeNs =>
      obtain ⟨result, a, first, rest⟩ := run.bind
      cases rest
      have settles := first.sound (poolRecoverOwner_alone component deadEpoch minimumAgeNs slots).wp
      exact settles.accounts_deaf slots
        ((poolRecoverOwner_deaf component deadEpoch minimumAgeNs).hears first)
  | recoverClaiming =>
      obtain ⟨result, a, first, rest⟩ := run.bind
      cases rest
      have settles := first.sound (poolRecoverClaiming_alone slots).wp
      refine settles.accounts slots fun i c near => ?_
      rw [show c.state = .claiming from near]
      decide
  | reconcile link restart fuel =>
      obtain ⟨result, a, first, rest⟩ := run.bind
      have sound := well.restarts restart legal.2
      have settles := first.sound (linkReconcile_alone fuel sound slots).wp
      have same := (linkReconcile_deaf link restart fuel).hears first
      cases result with
      | none => cases rest
      | some result =>
          cases rest
          exact settles.accounts_deaf slots same

/-- Every slot in use is named by a buffer of the session. -/
theorem Session.Step.finds (step : s.Step pool s') (well : SessionWell pool s)
    (finds : s.mem.Finds pool (· ∈ s.views)) : s'.mem.Finds pool (· ∈ s'.views) := by
  cases step with
  | call legal run =>
      refine (ApiCall.accounts well legal run).finds finds
        (fun v known => List.mem_append_right _ known) fun v same => ?_
      simp [Session.after, same]
  | @fill v bytes known valid =>
      have settles := fill_settles (well.views v known) well.slots valid bytes
      exact (settles.accounts well.slots (ownerReach_unsent _)).finds finds (fun _ => id)
        fun _ done => by cases done
  | tick clock => exact finds

theorem Session.Reached.finds {ok : Session → Session → Prop} (reached : s.Reached pool ok) :
    s.mem.Finds pool (· ∈ s.views) := by
  refine reached.invariant (I := fun s => s.mem.Finds pool (· ∈ s.views)) ?_
    fun s s' well step _ finds => step.finds well finds
  intro s starts i inside busy
  rw [Mem.core, starts.1.slots inside] at busy
  exact absurd rfl busy

/-- In every reached session a slot in use is named by a buffer that some call returned, and
    while the epoch of its owner is registered a slot that is owned can be released through
    that buffer. -/
theorem no_buffer_lost {i : Nat} (reached : s.Reached pool anyStep) (inside : i < pool.slotCount)
    (busy : (s.mem.core i).state ≠ .free) :
    ∃ v, v ∈ s.views ∧ v.Names i (s.mem.core i) ∧
      ((s.mem.core i).state = .owned → s.mem.epoch v.owner = v.ownerEpoch →
        Valid s.mem v ∧ ∀ good result m', ¬Unprotected good pool i →
          CompletesIn good (bufferRelease pool (some v)) s.mem result m' →
          result = (.ok, none) ∧ (m'.core i).state = .free) := by
  obtain ⟨v, known, names⟩ := reached.finds i inside busy
  refine ⟨v, known, names, fun owned current => ?_⟩
  have well := reached.well
  obtain ⟨rfl, key⟩ := names
  simp only [SlotCore.key, SlotKey.mk.injEq] at key
  have valid : Valid s.mem v := ⟨key.1, owned, key.2.1, key.2.2, current⟩
  refine ⟨valid, fun good result m' calm run => ?_⟩
  obtain ⟨same, freed, _⟩ :=
    run.sound (bufferRelease_frees calm (well.views v known) well.slots valid)
  exact ⟨same, freed⟩

/-- The buffer that component 1 allocated. -/
theorem no_buffer_lost_allocated : ∃ v, v ∈ allocatedSession.views ∧ v.Names 0
    (allocatedSession.mem.core 0) := by
  obtain ⟨v, known, names, _⟩ := no_buffer_lost (i := 0) allocated_reached (by decide) (by decide)
  exact ⟨v, known, names⟩

end Runs

end Zipc
