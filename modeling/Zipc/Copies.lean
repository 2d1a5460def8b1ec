import Zipc.Room
import Zipc.Isolation

/-! # Messages by copy

`zipc_send_copy` allocates a buffer, copies a message into it and sends it;
`zipc_recv_copy` receives a buffer, copies the message out and releases it. Neither leaves
a buffer behind, and over one ring the messages that are copied out are the messages that
were copied in, in order.
-/

namespace Zipc

open Atomic Program

/-! ## The allocation -/

section Allocating

variable {guard pool : Pool} {a : AllocateArgs} {epoch token i : Nat} {m m₀ : Mem} {c : SlotCore}
  {log : List TraceRecord}

/-- The default deadline of a link that sets none. -/
def Timeless (duration : Nat) : Prop := duration = 0 ∨ deadlineNone ≤ duration

/-- A buffer that is returned has no deadline if none was asked for. -/
def Undated (a : AllocateArgs) (result : Status × Option View) (c : SlotCore)
    (_ : List TraceRecord) : Prop :=
  Timeless a.deadlineDurationNs → result.2.isSome = true → c.deadlineNs = deadlineNone

theorem allocateAbort_undated {revoke : Bool} {status : Status}
    (lax : guard.strict = true → pool.strict = true) (closed : c.Closed guard) :
    Focused anyEnv guard m₀ i (allocateAbort pool a.allocator i revoke status) (Undated a)
      c log := by
  simp only [allocateAbort]
  refine focused_traceSlot ?_
  split
  · refine focused_protectSlot (fun _ _ _ => ?_) (fun access hidden => ?_)
    · exact focused_freeClaimingSlot closed (focused_count (focused_done (by simp [Undated])))
    · have shut : { c with access }.Closed guard := fun strict => hidden (lax strict)
      exact focused_freeClaimingSlot shut (focused_count (focused_done (by simp [Undated])))
  · exact focused_freeClaimingSlot closed (focused_count (focused_done (by simp [Undated])))

theorem allocateClaimed_undated (lax : guard.strict = true → pool.strict = true)
    (valid : componentIdValid a.allocator = true)
    (within : (⟨a.offset, a.length⟩ : Region).Within pool.slotCapacity)
    (held : c.claimToken = token) (closed : c.Closed guard) :
    Focused anyEnv guard m₀ i (allocateClaimed pool a epoch token i) (Undated a) c log := by
  simp only [allocateClaimed, lift_bind]
  refine focused_loadGeneration (focused_write (focused_writeAll ?_))
  refine focused_now (focused_write (focused_write (focused_writeAll ?_)))
  simp only [SlotCore.applyAll, allocateFields, allocateResets, List.foldl_cons, List.foldl_nil,
    SlotWrite.applyCore]
  refine focused_generateBufferId valid fun fresh _ _ => ?_
  cases fresh with
  | error status => exact allocateAbort_undated lax closed
  | ok id =>
      refine focused_write ?_
      simp only [SlotWrite.applyCore]
      refine focused_enablePayload (fun status failed _ => ?_) (fun access _ => ?_)
      · rw [if_pos failed]
        exact allocateAbort_undated lax closed
      rw [if_neg (not_not_intro rfl)]
      refine focused_makeView within ?_
      refine focused_traceSlot (focused_publish (by simp) ?_ ?_)
      · exact held
      · refine focused_storeCursor (focused_count (focused_done fun timeless _ => ?_))
        rcases timeless with zero | none
        · simp [deadlineAfter, zero]
        · have past : a.deadlineDurationNs ≥ deadlineNone - m₀.clock := by omega
          simp [deadlineAfter, past]

theorem allocateTry_undated (lax : guard.strict = true → pool.strict = true)
    (valid : componentIdValid a.allocator = true)
    (within : (⟨a.offset, a.length⟩ : Region).Within pool.slotCapacity) (free : c.state = .free)
    (zero : c.claimToken = 0) (closed : c.Closed guard) :
    Focused anyEnv guard m₀ i (allocateTry pool a epoch token i) (fun tried c' log' =>
      ∀ result, tried = some result → Undated a result c' log') c log := by
  simp only [allocateTry, lift_bind]
  refine focused_loadState ?_
  rw [if_neg (not_not_intro free)]
  refine focused_casToken (fun _ => ?_) (fun missed => absurd zero missed)
  rw [if_neg (not_not_intro rfl)]
  refine focused_casState (by decide) (fun _ => ?_) (fun lost => absurd free lost)
  rw [if_neg (by decide)]
  have claimed : Focused anyEnv guard m₀ i (allocateClaimed pool a epoch token i) (Undated a)
      { c with claimToken := token, state := .claiming } log :=
    allocateClaimed_undated lax valid within rfl closed
  apply focused_bind
  refine claimed.mono fun result c' log' holds => focused_done fun other same => ?_
  cases same
  exact holds

/-- What an allocation leaves in the slot that it takes. -/
structure Taken (pool : Pool) (a : AllocateArgs) (m : Mem) (i : Nat)
    (result : Status × Option View) (m' : Mem) : Prop where
  others : ∀ j, j ≠ i → m'.core j = m.core j
  made : result.1 = .ok → ∃ v, result.2 = some v ∧ v.slotId = i ∧ Synced pool m' v ∧
    v.data = a.offset ∧ v.length = a.length ∧ v.owner = a.allocator ∧
    (Timeless a.deadlineDurationNs → (m'.core i).deadlineNs = deadlineNone)
  refused : result.1 ≠ .ok → result.2 = none ∧ (m'.core i).state = .free

/-- An allocation takes an available slot, or leaves it empty. -/
theorem allocateTry_taken (legal : a.Legal pool) (current : m.epoch a.allocator = epoch)
    (inside : i < pool.slotCount) (available : Available m i) :
    (allocateTry pool a epoch token i).wpsIn anyEnv (Guarded pool.lax)
      (fun tried m' => ∃ result, tried = some result ∧ Taken pool a m i result m') m := by
  have vacant : (m.core i).state = .free → (m.core i).claimToken = 0 ∧ (m.core i).Closed pool.lax :=
    fun _ => ⟨available.2, pool.lax_guards⟩
  have ends : Focused anyEnv pool.lax m i (allocateTry pool a epoch token i) _ (m.core i) [] :=
    allocateTry_focused pool.lax_guards legal.1 legal.2.2 Quiet.nil vacant
  have undated : Focused anyEnv pool.lax m i (allocateTry pool a epoch token i) _ (m.core i) [] :=
    allocateTry_undated pool.lax_guards legal.1 legal.2.2 available.1 available.2 pool.lax_guards
  refine wpsIn_mono (wpsIn_and (allocateTry_windowed legal current inside available)
    (wpsIn_and (ends m (.refl m i)) (undated m (.refl m i)))) ?_
  rintro _ m' ⟨⟨result, rfl, windowed⟩, ⟨c, log, focus, ends⟩, c', log', focus', undated⟩
  refine ⟨result, rfl, focus.others, fun ok => ?_, fun bad => ?_⟩
  · obtain ⟨v, same, synced, data, length⟩ := windowed ok
    obtain ⟨_, _, _, made | ⟨status, rfl, failed, _⟩⟩ := ends
    · obtain ⟨rfl, owned, _, _, _, _, _, _, owner, _⟩ := made
      cases same
      refine ⟨_, rfl, rfl, synced, data, length, owner, fun timeless => ?_⟩
      rw [focus'.core]
      exact undated _ rfl timeless rfl
    · exact absurd ok failed
  · obtain ⟨_, _, _, ⟨rfl, _⟩ | ⟨status, rfl, failed, empty, _⟩⟩ := ends
    · exact absurd rfl bad
    · rw [focus.core]
      exact ⟨rfl, empty.state⟩

/-- Slots in use stay as they are, and no other slot is in use afterwards. -/
def Idles (m m' : Mem) : Prop :=
  ∀ j, m'.core j = m.core j ∨ (m.core j).state = .free ∧ (m'.core j).state = .free

theorem Idles.refl (m : Mem) : Idles m m := fun _ => .inl rfl

/-- A buffer of `length` bytes for the sender of a link, in a slot that was free. -/
structure Readied (pool : Pool) (link : Link) (length : Nat) (m : Mem) (v : View) (m' : Mem) :
    Prop where
  empty : (m.core v.slotId).state = .free
  others : ∀ j, j ≠ v.slotId → m'.core j = m.core j
  synced : Synced pool m' v
  data : v.data = 0
  length : v.length = length
  owner : v.owner = link.localComponent
  deadline : Timeless link.defaultDeadlineNs → (m'.core v.slotId).deadlineNs = deadlineNone

/-- `zipc_buffer_alloc` without a parent. -/
theorem bufferAlloc_readies (link : Link) (length : Nat) :
    (bufferAlloc pool link length none).wpsIn anyEnv (Guarded pool.lax) (fun result m' =>
      (result.2 = none ∧ result.1 ≠ .ok ∧ Idles m m') ∨
      ∃ v, result = (.ok, some v) ∧ Readied pool link length m v m') m := by
  have fails {status : Status} (bad : status ≠ .ok) :
      ((status, (none : Option View)).2 = none ∧ (status, (none : Option View)).1 ≠ .ok ∧
        Idles m m) ∨ ∃ v, (status, (none : Option View)) = (.ok, some v) ∧
          Readied pool link length m v m := .inl ⟨rfl, bad, .refl m⟩
  simp only [bufferAlloc, bufferAllocEx]
  refine wpsIn_ite (fun _ => fails (by decide)) fun _ => ?_
  rw [wpsIn_bind]
  refine wpsIn_mono (wps.within (epochCurrent_alone pool.lax m _ _)) ?_
  rintro current m ⟨rfl, known⟩
  refine wpsIn_ite (fun _ => fails (by decide)) fun live => ?_
  refine wpsIn_ite (fun _ => fails (by decide)) fun _ => ?_
  rw [Bool.not_eq_false] at live
  let args : AllocateArgs := ⟨link.localComponent, 0, 0, length, link.hopLimit,
    link.defaultDeadlineNs, true⟩
  by_cases legal : args.Legal pool
  swap
  · rw [show bufferAllocateInternal pool _ link.localEpoch = pure (.invalidArgument, none) from
      allocateInternal_refuses legal]
    exact fails (by decide)
  have scanned : (bufferAllocateInternal pool args link.localEpoch).wpsIn anyEnv
      (Guarded pool.lax) (Scanned pool (Taken pool args m) (m.allocationCursor % pool.slotCount)
        pool.slotCount 0 m) m :=
    allocateInternal_scanned legal fun epoch token i same inside available => by
      refine allocateTry_taken legal ?_ inside available
      rw [same]
      split
      · rename_i given
        exact known live given
      · rfl
  refine wpsIn_mono scanned ?_
  rintro result m' (⟨rfl, same, _⟩ | ⟨k, _, available, _, taken⟩)
  · exact .inl ⟨rfl, by decide, fun j => .inl (same j)⟩
  by_cases ok : result.1 = .ok
  · obtain ⟨v, same, slot, synced, data, size, owner, deadline⟩ := taken.made ok
    refine .inr ⟨v, Prod.ext ok same, ?_, ?_, synced, data, size, owner, ?_⟩
    · rw [slot]
      exact available.1
    · rw [slot]
      exact taken.others
    · rw [slot]
      exact deadline
  · obtain ⟨none, free⟩ := taken.refused ok
    refine .inl ⟨none, ok, fun j => ?_⟩
    by_cases here : j = scanIndex pool.slotCount (m.allocationCursor % pool.slotCount) (0 + k)
    · subst here
      exact .inr ⟨available.1, free⟩
    · exact .inl (taken.others j here)

end Allocating

/-! ## The release -/

section Releasing

variable {good : Env → Prop} {pool : Pool} {m m₀ : Mem} {i : Nat} {c : SlotCore}
  {log : List TraceRecord} {v : View}

/-- The part of a release that holds the slot of its caller. -/
theorem releaseClaimed_succeeds {owner epoch claim : Nat} (calm : ¬Unprotected good pool i)
    (own : c.ownerId = owner ∧ c.ownerEpoch = epoch) (token : c.claimToken = claim) :
    Focused good pool m₀ i (releaseClaimed pool i owner epoch claim)
      (fun status _ _ => status = .ok) c log := by
  simp only [releaseClaimed]
  refine focused_ownedBy ?_
  rw [if_neg (by simp [own])]
  refine focused_protectSlot (fun status _ fails => absurd fails calm) fun access hidden => ?_
  rw [if_neg (not_not_intro rfl)]
  refine focused_traceSlot (focused_writeAll
    (focused_publish (fun _ => hidden) ?_ (focused_count (focused_done rfl))))
  exact token

/-- A valid buffer can be released. -/
theorem poolBufferRelease_succeeds (calm : ¬Unprotected good pool v.slotId)
    (placed : ViewWell pool v) (well : PoolWell pool m) (valid : Valid m v) :
    Focused good pool m v.slotId (poolBufferRelease pool v.handle v.owner)
      (fun status _ _ => status = .ok) (m.core v.slotId) [] := by
  have inside := placed.inside
  have owned := valid.state
  have slot := (well _ inside).2.2
  simp only [owned] at slot
  have owner : componentIdValid v.owner = true := valid.owner ▸ slot.2.1.owner
  simp only [poolBufferRelease]
  rw [if_neg (by simp [owner]), if_neg (by rw [← placed.slot]; omega), ← placed.slot]
  simp only [lift_bind]
  refine focused_loadGeneration ?_
  rw [if_neg (not_not_intro valid.generation)]
  refine focused_registeredEpoch (focused_loadState ?_)
  rw [if_neg (not_not_intro owned)]
  refine focused_ownedBy ?_
  have same : (m.core v.slotId).ownerId = v.owner ∧
      (m.core v.slotId).ownerEpoch = m.epoch v.owner :=
    ⟨valid.owner, valid.ownerEpoch.trans valid.current.symm⟩
  rw [if_neg (by simp [same])]
  refine focused_read (·.region.offset) (fun _ _ _ => rfl) (focused_write ?_)
  refine focused_read (·.region.length) (fun _ _ _ => rfl) (focused_write ?_)
  refine focused_read (·.ownerId) (fun _ _ _ => rfl) (focused_write ?_)
  refine focused_read (·.ownerEpoch) (fun _ _ _ => rfl) (focused_write ?_)
  simp only [SlotWrite.applyCore]
  refine focused_casToken (fun _ => ?_) (fun missed => absurd slot.1 missed)
  rw [if_neg (not_not_intro rfl)]
  refine focused_casState (by decide) (fun _ => ?_) (fun lost => absurd owned lost)
  exact releaseClaimed_succeeds calm same rfl

/-- The release of a valid buffer empties its slot and no other. -/
theorem bufferRelease_frees (calm : ¬Unprotected good pool v.slotId) (placed : ViewWell pool v)
    (well : PoolWell pool m) (valid : Valid m v) :
    (bufferRelease pool (some v)).wpsIn good (Guarded pool) (fun result m' =>
      result = (.ok, none) ∧ (m'.core v.slotId).state = .free ∧
        ∀ j, j ≠ v.slotId → m'.core j = m.core j) m := by
  simp only [bufferRelease]
  rw [wpsIn_bind]
  refine wpsIn_mono (wps.within (bufferOwned_alone pool m v)) ?_
  rintro owned m ⟨rfl, known⟩
  obtain rfl : owned = true := known.mpr valid
  simp only
  rw [wpsIn_bind]
  have ends : Focused good pool m (handleSlotId v.handle)
      (poolBufferRelease pool v.handle v.owner) _ (m.core (handleSlotId v.handle)) [] :=
    release_focused fun inside => well _ inside
  rw [← placed.slot] at ends
  refine wpsIn_mono (wpsIn_and (ends m (.refl m _))
    (poolBufferRelease_succeeds calm placed well valid m (.refl m _))) ?_
  rintro status m' ⟨⟨c, log, focus, ends⟩, _, _, _, rfl⟩
  refine ⟨rfl, ?_, focus.others⟩
  rcases ends.2 with ⟨failed, _⟩ | ⟨_, _, _, _, _, _, _, access, rfl⟩
  · exact absurd rfl failed
  · rw [focus.core]
    rfl

end Releasing

/-! ## The send -/

section Sending

variable {good : Env → Prop} {pool : Pool} {m m₀ : Mem} {i : Nat} {c : SlotCore}
  {log : List TraceRecord} {v : View} {link : Link} {message : Message}

/-- The rollback of the transfer that the slot is in. -/
theorem rollbackTransfer_succeeds (calm : ¬Unprotected good pool i) (state : c.state = .transfer)
    (token : c.claimToken = 0)
    (same : c.generation = handleGeneration message.handle ∧ c.ownerId = link.localComponent ∧
      c.nextOwnerId = link.remoteComponent ∧ c.transferSequence = message.transferSequence) :
    Focused good pool m₀ i (rollbackTransfer pool link i message) (fun status _ _ => status = .ok)
      c log := by
  simp only [rollbackTransfer, lift_bind]
  refine focused_loadState ?_
  rw [if_neg (not_not_intro state)]
  refine focused_write ?_
  simp only [SlotWrite.applyCore]
  refine focused_casToken (fun _ => ?_) (fun missed => absurd token missed)
  rw [if_neg (not_not_intro rfl)]
  refine focused_casState (by decide) (fun _ => ?_) (fun lost => absurd state lost)
  rw [if_neg (by decide)]
  simp only [rollbackClaimed, lift_bind]
  refine rollbackMatches_focused ?_
  rw [if_neg (by simp [same])]
  refine focused_write (focused_write (focused_write ?_))
  refine focused_protectSlot (fun status _ fails => absurd fails calm) fun access _ => ?_
  rw [if_neg (not_not_intro rfl)]
  exact focused_publish (by simp) rfl (focused_done rfl)

/-- A delivery that keeps no buffer has handed its slot over. -/
theorem sendPrepared_returns (calm : ¬Unprotected good pool v.slotId)
    (state : (m.core v.slotId).state = .transfer) (token : (m.core v.slotId).claimToken = 0)
    (same : (m.core v.slotId).generation = handleGeneration message.handle ∧
      (m.core v.slotId).ownerId = link.localComponent ∧
      (m.core v.slotId).nextOwnerId = link.remoteComponent ∧
      (m.core v.slotId).transferSequence = message.transferSequence) :
    (sendPrepared pool link v message).wpsIn good (Guarded pool) (fun result m' =>
      result.2 = none → handedOver result.1 = true ∧ (m'.core v.slotId).state = .transfer) m := by
  simp only [sendPrepared]
  rw [wpsIn_bind]
  refine wpsIn_mono (wps.within ((transportSend_aside link.transport message).runs pool m)) ?_
  intro status a aside
  have core := aside.cores v.slotId
  refine wpsIn_ite (fun published => ?_) fun _ => wpsIn_ite (fun _ => ?_) fun fine => ?_
  · rw [wpsIn_bind]
    refine wpsIn_mono (wps.within ((traceExternalEvent_aside (fun _ => False) _ _ _ .error
      ⟨by simp, by simp⟩).runs pool a)) fun _ b traced _ => ⟨?_, ?_⟩
    · rw [published]
      rfl
    · rw [traced.cores, core]
      exact state
  · rw [wpsIn_bind]
    have rolls : Focused good pool a v.slotId (rollbackTransfer pool link v.slotId message) _
        (a.core v.slotId) [] :=
      rollbackTransfer_succeeds calm (core ▸ state) (core ▸ token) (core ▸ same)
    refine wpsIn_mono (rolls a (.refl a v.slotId)) ?_
    rintro _ b ⟨_, _, _, rfl⟩
    exact wpsIn_ite (fun failed => absurd rfl failed) fun _ done => by cases done
  · rw [not_not] at fine
    subst fine
    exact fun _ => ⟨rfl, core ▸ state⟩

/-- A send without a failing page protection that keeps no buffer has handed its slot over. -/
theorem send_returns (calm : ¬Unprotected good pool v.slotId) (placed : ViewWell pool v)
    (well : PoolWell pool m) : (send pool link (some v)).wpsIn good (Guarded pool)
      (fun result m' => result.2 = none →
        handedOver result.1 = true ∧ (m'.core v.slotId).state = .transfer) m := by
  simp only [send]
  rw [wpsIn_bind]
  refine wpsIn_mono (wps.within (bufferOwned_alone pool m v)) ?_
  rintro owned m ⟨rfl, _⟩
  cases owned with
  | false => exact fun done => by cases done
  | true =>
      simp only
      rw [wpsIn_bind]
      refine wpsIn_mono (wps.within (epochCurrent_alone pool m _ _)) ?_
      rintro current m ⟨rfl, _⟩
      refine wpsIn_ite (fun _ done => by cases done) fun _ => ?_
      refine wpsIn_ite (fun _ done => by cases done) fun _ => ?_
      rw [wpsIn_bind]
      have slot : handleSlotId v.handle = v.slotId := placed.slot.symm
      have prepares : (bufferPrepareTransferInternal pool v.handle link.localComponent
          link.remoteComponent link.linkId).wpsIn good (Guarded pool) _ m :=
        prepare_focused (fun inside => well _ inside) m (.refl m (handleSlotId v.handle))
      refine wpsIn_mono prepares ?_
      rintro (status | message) a ⟨c, log, focus, ends⟩
      · exact fun done => by cases done
      rw [slot] at focus ends
      obtain ⟨_, failed, _⟩ | sent := ends
      · cases failed
      obtain ⟨_, _, generation, own, _, _, _, ⟨access, _, rfl⟩, _, result⟩ := sent
      cases result
      have core := focus.core
      refine sendPrepared_returns calm ?_ ?_ ⟨?_, ?_, ?_, ?_⟩
      all_goals rw [core]
      · rfl
      · rfl
      · exact generation
      · exact own
      · rfl
      · rfl

end Sending

/-! ## Statuses of an allocation -/

section Statuses

variable {good : Env → Prop} {pool : Pool} {a : AllocateArgs}

/-- An answer that is no success is no status of a transport either. -/
def Plain (result : Status × Option View) : Prop := result.1 ≠ .ok → handedOver result.1 = false

theorem allocateAbort_yields {i : Nat} {revoke : Bool} {status : Status}
    (kept : handedOver status = false) :
    Yields good Plain (allocateAbort pool a.allocator i revoke status) := by
  simp only [allocateAbort]
  refine (yields_true _).bind fun _ _ => yields_ite (fun _ => ?_) fun _ => ?_
  · iterate 3 refine (yields_true _).bind fun _ _ => ?_
    exact yields_done fun _ => kept
  · iterate 2 refine (yields_true _).bind fun _ _ => ?_
    exact yields_done fun _ => kept

theorem makeView_yields (i handle : Nat) : Yields good
    (fun result => ∀ status, result = .error status → handedOver status = false)
    (makeView pool i handle) := by
  simp only [makeView]
  refine (yields_true _).bind fun _ _ => (yields_true _).bind fun _ _ => ?_
  refine yields_ite (fun _ => yields_done ?_) fun _ => ?_
  · rintro status ⟨⟩
    rfl
  · iterate 2 refine (yields_true _).bind fun _ _ => ?_
    exact yields_done fun status same => by cases same

theorem allocateClaimed_yields (unspoken : Unspoken good) (epoch token i : Nat) :
    Yields good Plain (allocateClaimed pool a epoch token i) := by
  have fresh : Yields good (fun answer => ∀ status, answer = .error status →
      handedOver status = false)
      (.lift (.generateBufferId a.allocator) : Prog (Except Status Nat)) := by
    refine yields_act fun e m _ => yields_done fun status same => ?_
    simp only [exec_eq, Act.exec] at same
    split at same
    · cases same
    · cases same
      rfl
  unfold allocateClaimed
  iterate 7 refine (yields_true _).bind fun _ _ => ?_
  refine fresh.bind fun answer kept => ?_
  cases answer with
  | error status => exact allocateAbort_yields (kept status rfl)
  | ok id =>
      refine (yields_true _).bind fun _ _ => ?_
      have enables : Yields good (fun status => status = .ok ∨ handedOver status = false)
          (enablePayload pool a i) :=
        yields_ite (fun _ => protectSlot_yields unspoken i true) fun _ => yields_done (.inl rfl)
      refine enables.bind fun status answers => yields_ite (fun failed => ?_) fun _ => ?_
      · exact allocateAbort_yields (answers.resolve_left failed)
      refine (makeView_yields _ _).bind fun view kept => ?_
      cases view with
      | error status => exact allocateAbort_yields (kept status rfl)
      | ok v =>
          iterate 4 refine (yields_true _).bind fun _ _ => ?_
          exact yields_done fun failed => absurd rfl failed

theorem allocateScan_yields (unspoken : Unspoken good) (epoch token start left n : Nat) :
    Yields good Plain (allocateScan pool a epoch token start left n) := by
  induction left generalizing n with
  | zero => exact (yields_true _).bind fun _ _ => yields_done fun _ => rfl
  | succ left ih =>
      have tries (i : Nat) : Yields good (fun tried => ∀ result, tried = some result → Plain result)
          (allocateTry pool a epoch token i) := by
        simp only [allocateTry]
        refine (yields_true _).bind fun _ _ => yields_ite (fun _ => yields_done ?_) fun _ => ?_
        · exact fun _ same => by cases same
        refine (yields_true _).bind fun _ _ => yields_ite (fun _ => yields_done ?_) fun _ => ?_
        · exact fun _ same => by cases same
        refine (yields_true _).bind fun _ _ => yields_ite (fun _ => ?_) fun _ => ?_
        · exact (yields_true _).bind fun _ _ => yields_done fun _ same => by cases same
        refine (allocateClaimed_yields unspoken _ _ _).bind fun result plain => yields_done ?_
        rintro _ ⟨⟩
        exact plain
      simp only [allocateScan]
      refine (tries _).bind fun tried plain => ?_
      cases tried with
      | none => exact ih _
      | some result => exact yields_done (plain result rfl)

theorem bufferAlloc_yields (unspoken : Unspoken good) (link : Link) (length : Nat) :
    Yields good Plain (bufferAlloc pool link length none) := by
  simp only [bufferAlloc, bufferAllocEx, bufferAllocateInternal]
  refine yields_ite (fun _ => yields_done fun _ => rfl) fun _ => (yields_true _).bind fun _ _ => ?_
  refine yields_ite (fun _ => yields_done fun _ => rfl) fun _ => ?_
  refine yields_ite (fun _ => yields_done fun _ => rfl) fun _ => ?_
  refine yields_ite (fun _ => yields_done fun _ => rfl) fun _ => (yields_true _).bind fun _ _ => ?_
  exact (yields_true _).bind fun _ _ => allocateScan_yields unspoken _ _ _ _ _

end Statuses

/-! ## `zipc_send_copy` -/

section SendCopy

variable {good : Env → Prop} {pool : Pool} {s : Session} {link : Link} {bytes : List Nat}
  {m m' : Mem} {v : View} {result : Option Status}

theorem outcome_run {p : Prog (Status × Option View)} {status : Status}
    {buffer : Option View} (run : CompletesIn good p m (status, buffer) m') :
    CompletesIn good (bufferOutcome p) m (some { status, buffer }) m' :=
  run.append (.done _ _)

theorem anywhere_sound {α : Type} {p : Prog α} {a : α} {Q : α → Mem → Prop}
    (run : CompletesIn good p m a m') (sound : p.wpsIn anyEnv (Guarded pool) Q m) : Q a m' :=
  run.completes.sound (sound.all fun _ => trivial).wp

theorem Mem.copied_nil (m : Mem) (v : View) (start : Nat) : m.copied v start [] = m := by
  have same : (m.copied v start []).payload = m.payload := by
    funext j
    by_cases here : j = v.slotId
    · funext k
      rw [here, Mem.payload_copied, if_neg (by simp)]
    · exact Mem.payload_copied_other _ _ _ _ here
  exact congrArg (fun payload => { m with payload }) same

/-- The copy into a valid buffer never meets a null pointer. -/
theorem copyPayload_copies {copied : Bool} (valid : Valid m v)
    (run : CompletesIn good (copyPayload (some v) bytes) m copied m') :
    copied = true ∧ m' = m.copied v v.data bytes := by
  unfold copyPayload at run
  split at run
  · rename_i empty
    cases run
    rw [empty, Mem.copied_nil]
    exact ⟨rfl, rfl⟩
  · obtain ⟨pointer, a, looked, rest⟩ := run.bind
    have looks : Looks m (bufferData (some v)) (.done (some v.data)) :=
      (bufferOwned_looks valid).bind (.here _)
    cases looks.completes looked.completes
    cases rest with
    | act e _ last =>
        cases last
        exact ⟨rfl, rfl⟩

/-- How `zipc_send_copy` ends. -/
inductive SendCopied (good : Env → Prop) (pool : Pool) (link : Link) (bytes : List Nat) (m : Mem) :
    Status → Mem → Prop where
  /-- There is no buffer. -/
  | refused {status : Status} {m' : Mem} : status ≠ .ok →
      CompletesIn good (bufferAlloc pool link bytes.length none) m (status, none) m' →
      SendCopied good pool link bytes m status m'
  /-- The send does not give the buffer back. -/
  | sent {v : View} {a m' : Mem} {status : Status} :
      CompletesIn good (bufferAlloc pool link bytes.length none) m (.ok, some v) a →
      CompletesIn good (send pool link (some v)) (a.copied v 0 bytes) (status, none) m' →
      SendCopied good pool link bytes m status m'
  /-- The send gives the buffer back, and it is released. -/
  | returned {v : View} {a b m' : Mem} {status : Status} {ended : Status × Option View} :
      CompletesIn good (bufferAlloc pool link bytes.length none) m (.ok, some v) a →
      CompletesIn good (send pool link (some v)) (a.copied v 0 bytes) (status, some v) b →
      CompletesIn good (bufferRelease pool (some v)) b ended m' →
      SendCopied good pool link bytes m status m'

/-- The sender has got a buffer and has filled it. -/
def Session.filled (s : Session) (v : View) (bytes : List Nat) (a : Mem) : Session where
  mem := a.copied v 0 bytes
  views := v :: s.views
  links := s.links
  restarts := s.restarts

theorem Session.filled_reached (reached : s.Reached pool anyStep) (known : link ∈ s.links)
    (opens : Completes (bufferAlloc pool link bytes.length none) s.mem (.ok, some v) m)
    (valid : Valid m v) : (s.filled v bytes m).Reached pool anyStep := by
  obtain ⟨start, starts, leads⟩ := reached
  have legal : (ApiCall.allocEx link bytes.length 0 0 none).Legal s :=
    ⟨known, fun _ same => by cases same⟩
  have run : Completes ((ApiCall.allocEx link bytes.length 0 0 none).program pool) s.mem
      (some { status := .ok, buffer := some v }) m := opens.append (.done _ _)
  have allocates := leads.tail ⟨.call legal run, trivial⟩
  exact ⟨start, starts, allocates.tail ⟨.fill _ List.mem_cons_self valid, trivial⟩⟩

theorem Mem.copied_valid (valid : Valid m v) (start : Nat) (bytes : List Nat) :
    Valid (m.copied v start bytes) v :=
  ⟨valid.generation, valid.state, valid.owner, valid.ownerEpoch, valid.current⟩

/-- What a send of a reached session leaves, whatever the platform does. -/
theorem Session.Reached.send_ends {status : Status} {buffer : Option View}
    (reached : s.Reached pool anyStep) (unspoken : Unspoken good) (known : v ∈ s.views)
    (valid : Valid s.mem v)
    (run : CompletesIn good (send pool link (some v)) s.mem (status, buffer) m') :
    Delivered link v status buffer m' ∨ KeptBack v s.mem status buffer m' ∨
      LeftStuck pool link v s.mem status buffer m' := by
  have well := reached.well
  have placed : ViewWell pool v := well.views v known
  have opened (strict : pool.strict = true) : (s.mem.core v.slotId).access = true :=
    (reached.opened strict _ placed.inside valid.state).resolve_right valid.not_retired
  exact Zipc.send_ends unspoken placed well.slots (reached.sequenced placed.inside) opened valid run

theorem sendCopy_copied (reached : s.Reached pool anyStep) (known : link ∈ s.links)
    (unspoken : Unspoken good)
    (run : CompletesIn good (sendCopy pool link bytes) s.mem result m') :
    ∃ status, result = some status ∧ SendCopied good pool link bytes s.mem status m' := by
  unfold sendCopy at run
  obtain ⟨⟨status, buffer⟩, a, opens, rest⟩ := run.bind
  rcases anywhere_sound opens (bufferAlloc_readies link bytes.length) with
    ⟨none, failed, _⟩ | ⟨v, same, readied⟩
  · simp only at none failed rest
    subst none
    rw [if_pos failed] at rest
    cases rest
    exact ⟨status, rfl, .refused failed opens⟩
  cases same
  simp only [if_neg (not_not_intro rfl)] at rest
  have valid := readied.synced.valid
  obtain ⟨copied, b, copies, rest⟩ := rest.bind
  obtain ⟨rfl, rfl⟩ := copyPayload_copies valid copies
  rw [if_neg (by decide), readied.data] at rest
  obtain ⟨⟨status, buffer⟩, c, sends, rest⟩ := rest.bind
  have filled : (s.filled v bytes a).Reached pool anyStep :=
    Session.filled_reached reached known opens.completes valid
  have ends := filled.send_ends unspoken List.mem_cons_self (Mem.copied_valid valid 0 bytes) sends
  have finishes (none : buffer = none) : result = some status ∧ c = m' := by
    subst none
    by_cases fine : status = .ok
    · simp only [if_pos fine] at rest
      cases rest
      exact ⟨rfl, rfl⟩
    · simp only [if_neg fine] at rest
      cases rest
      exact ⟨rfl, rfl⟩
  rcases ends with delivered | kept | stuck
  · obtain ⟨rfl, rfl⟩ := finishes delivered.buffer
    obtain rfl := delivered.buffer
    exact ⟨status, rfl, .sent opens sends⟩
  · obtain rfl := kept.buffer
    simp only [if_neg kept.status.1] at rest
    obtain ⟨owned, d, looked, rest⟩ := rest.bind
    cases (bufferOwned_looks kept.valid).completes looked.completes
    simp only [if_true] at rest
    obtain ⟨ended, d, releases, rest⟩ := rest.bind
    cases rest
    exact ⟨status, rfl, .returned opens sends releases⟩
  · obtain ⟨rfl, rfl⟩ := finishes stuck.buffer
    obtain rfl := stuck.buffer
    exact ⟨status, rfl, .sent opens sends⟩

theorem send_others {status : Status} {buffer : Option View} (placed : ViewWell pool v)
    (run : Completes (send pool link (some v)) m (status, buffer) m') {j : Nat}
    (other : j ≠ v.slotId) : m'.core j = m.core j := by
  have spared := (send_only link placed.slot).spared run
  rw [Mem.core, Mem.core, spared.slots j other, spared.access j other, spared.payload]

/-- The slot carries the message to the remote component. -/
structure Carries (link : Link) (bytes : List Nat) (i : Nat) (m m' : Mem) : Prop where
  empty : (m.core i).state = .free
  state : (m'.core i).state = .transfer
  next : (m'.core i).nextOwnerId = link.remoteComponent
  bytes : (m'.core i).parcel.bytes = bytes
  others : ∀ j, j ≠ i → m'.core j = m.core j

/-- A slot that was sent carries the bytes that were copied into it. -/
theorem sent_carries {a : Mem} {status : Status} {buffer : Option View}
    (readied : Readied pool link bytes.length m v a) (placed : ViewWell pool v)
    (run : Completes (send pool link (some v)) (a.copied v 0 bytes) (status, buffer) m')
    (delivered : Delivered link v status buffer m') : Carries link bytes v.slotId m m' := by
  have focus := a.copied_focus v 0 bytes
  refine ⟨readied.empty, delivered.state, delivered.next, ?_, fun j other => ?_⟩
  · obtain ⟨regions, payload⟩ := (send_unmoving link v).keeps run
    have region : (m'.core v.slotId).region = ⟨0, bytes.length⟩ := by
      rw [← readied.data, ← readied.length, ← readied.synced.region]
      exact (regions v.slotId).trans (congrArg SlotCore.region focus.core)
    have copied := a.bytes_copied v 0 bytes
    rw [SlotCore.parcel, region]
    refine Eq.trans ?_ copied
    rw [Mem.bytes, ← payload]
    rfl
  · rw [send_others placed run other, focus.others j other, readied.others j other]

/-- The buffer that a send copy works on. -/
theorem sendCopy_filled {a : Mem} (reached : s.Reached pool anyStep) (known : link ∈ s.links)
    (opens : CompletesIn good (bufferAlloc pool link bytes.length none) s.mem (.ok, some v) a) :
    Readied pool link bytes.length s.mem v a ∧ (s.filled v bytes a).Reached pool anyStep := by
  rcases anywhere_sound opens (bufferAlloc_readies link bytes.length) with
    ⟨none, _⟩ | ⟨w, same, readied⟩
  · cases none
  · cases same
    exact ⟨readied, Session.filled_reached reached known opens.completes readied.synced.valid⟩

/-- With a page protection that does not fail, `zipc_send_copy` hands over a slot that was
    free before, with the message in it, or leaves no slot in use that was not before. -/
theorem sendCopy_all_or_nothing (reached : s.Reached pool anyStep) (known : link ∈ s.links)
    (unspoken : Unspoken good) (calm : pool.strict = true → ∀ e, good e → e.protect = .ok)
    (run : CompletesIn good (sendCopy pool link bytes) s.mem result m') :
    ∃ status, result = some status ∧
      ((handedOver status = true ∧ ∃ i, Carries link bytes i s.mem m') ∨
        (handedOver status = false ∧ Idles s.mem m')) := by
  obtain ⟨status, rfl, ends⟩ := sendCopy_copied reached known unspoken run
  refine ⟨status, rfl, ?_⟩
  have calmly {v : View} (inside : v.slotId < pool.slotCount) :
      ¬Unprotected good pool v.slotId := by
    rintro ⟨strict, outside | ⟨e, allowed, fails⟩⟩
    · omega
    · exact fails (calm strict e allowed)
  cases ends with
  | refused failed opens =>
      have plain := opens.sound (bufferAlloc_yields unspoken link bytes.length s.mem) failed
      rcases anywhere_sound opens (bufferAlloc_readies link bytes.length) with
        ⟨_, _, idles⟩ | ⟨v, same, _⟩
      · exact .inr ⟨plain, idles⟩
      · cases same
  | @sent v a _ _ opens sends =>
      obtain ⟨readied, filled⟩ := sendCopy_filled reached known opens
      have placed := readied.synced.placed
      have valid := Mem.copied_valid readied.synced.valid 0 bytes
      obtain ⟨handed, state⟩ := sends.sound (send_returns (calmly placed.inside) placed
        filled.well.slots) rfl
      rcases filled.send_ends unspoken List.mem_cons_self valid sends with
        delivered | kept | stuck
      · exact .inl ⟨handed, v.slotId, sent_carries readied placed sends.completes delivered⟩
      · cases kept.buffer
      · cases stuck.state.symm.trans state
  | @returned v a b _ _ ended opens sends releases =>
      obtain ⟨readied, filled⟩ := sendCopy_filled reached known opens
      have placed := readied.synced.placed
      have valid := Mem.copied_valid readied.synced.valid 0 bytes
      rcases filled.send_ends unspoken List.mem_cons_self valid sends with
        delivered | kept | stuck
      · cases delivered.buffer
      · refine .inr ⟨by simp [handedOver, kept.status], fun j => ?_⟩
        have left := (sends.completes.sound (send_alone link placed filled.well.slots).wp).settles
        obtain ⟨_, freed, others⟩ := releases.sound (bufferRelease_frees (calmly placed.inside)
          placed (left.well filled.well.slots) kept.valid)
        by_cases here : j = v.slotId
        · rw [here]
          exact .inr ⟨readied.empty, freed⟩
        · refine .inl ?_
          rw [others j here, send_others placed sends.completes here,
            (a.copied_focus v 0 bytes).others j here, readied.others j here]
      · cases stuck.buffer

/-- Component 1 has sent two bytes by copy, beside the buffer that it holds. -/
def copyingResult : Option Status × Mem :=
  (sendCopy smallPool sendingLink [5, 6]).runWith default wired.mem

theorem sendCopy_all_or_nothing_wired : copyingResult.1 = some .ok ∧
    ∃ i, Carries sendingLink [5, 6] i wired.mem copyingResult.2 := by
  have works : sheltered default := rfl
  obtain ⟨status, same, ⟨_, carries⟩ | ⟨failed, _⟩⟩ := sendCopy_all_or_nothing wired_reached
    (by decide) unspoken_sheltered (fun _ _ safe => safe)
    (runWith_completesIn works (sendCopy smallPool sendingLink [5, 6]) wired.mem)
  · exact ⟨by decide +kernel, carries⟩
  · have sends : copyingResult.1 = some .ok := by decide +kernel
    cases same.symm.trans sends
    cases failed

end SendCopy

end Zipc
