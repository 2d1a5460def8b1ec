import Zipc.Copies

/-! # Messages from end to end

`zipc_recv_copy` and the traffic of messages over one ring. A receiver whose memory is too
small for a message loses it, and learns its size.
-/

namespace Zipc

open Atomic Program

/-- How far `zipc_recv_copy` gets before it copies. -/
inductive RecvCopyStep where
  /-- It is still waiting as its fuel runs out. -/
  | waiting
  | stopped (status : Status) (actual : Option Nat)
  /-- It copies through a null pointer. -/
  | crashed
  /-- It copies `size` bytes from the source, and releases the buffer. -/
  | ready (buffer : Option View) (source : Option Nat) (size : Nat)
  deriving DecidableEq

/-- `zipc_recv_copy` until it copies; `capacity` is the room for the message. -/
def recvCopyHead (pool : Pool) (link : Link) (capacity fuel : Nat) : Prog RecvCopyStep := do
  let received ← recv pool link fuel
  match received with
  | none => pure .waiting
  | some (status, buffer) =>
      if status ≠ .ok then pure (.stopped status none)
      else do
        let size ← bufferSize buffer
        if size > capacity then do
          let _ ← bufferRelease pool buffer
          pure (.stopped .bufferTooSmall (some size))
        else if size = 0 then pure (.ready buffer none 0)
        else do
          let pointer ← bufferData buffer
          match pointer with
          | none => pure .crashed
          | some offset => pure (.ready buffer (some offset) size)

/-- What `zipc_recv_copy` answers: its status, `*actual_size` where it sets it, and the bytes
    that it copies. -/
structure RecvCopyResult where
  status : Status
  actual : Option Nat
  bytes : List Nat
  deriving Repr, DecidableEq

/-- The bytes that are copied out of a buffer. -/
def Mem.copyOut (m : Mem) (buffer : Option View) (source : Option Nat) (size : Nat) : List Nat :=
  match buffer, source with
  | some v, some offset => m.bytes v.slotId offset size
  | _, _ => []

/-- `zipc_recv_copy`: between its two halves it reads the payload. -/
inductive RecvCopied (good : Env → Prop) (pool : Pool) (link : Link) (capacity fuel : Nat)
    (m : Mem) : RecvCopyResult → Mem → Prop where
  | stopped {status : Status} {actual : Option Nat} {m' : Mem} :
      CompletesIn good (recvCopyHead pool link capacity fuel) m (.stopped status actual) m' →
      RecvCopied good pool link capacity fuel m ⟨status, actual, []⟩ m'
  | copied {buffer : Option View} {source : Option Nat} {size : Nat} {a m' : Mem}
      {ended : Status × Option View} :
      CompletesIn good (recvCopyHead pool link capacity fuel) m (.ready buffer source size) a →
      CompletesIn good (bufferRelease pool buffer) a ended m' →
      RecvCopied good pool link capacity fuel m
        ⟨ended.1, some size, a.copyOut buffer source size⟩ m'

/-! ## `zipc_recv_copy` -/

section RecvCopy

variable {good : Env → Prop} {pool : Pool} {link : Link} {m m' : Mem} {capacity fuel : Nat}
  {result : RecvCopyResult}

theorem bufferSize_looks {v : View} (valid : Valid m v) :
    Looks m (bufferSize (some v)) (.done v.length) :=
  (bufferOwned_looks valid).bind (.here _)

theorem bufferData_looks {v : View} (valid : Valid m v) :
    Looks m (bufferData (some v)) (.done (some v.data)) :=
  (bufferOwned_looks valid).bind (.here _)

/-- How `zipc_recv_copy` ends, in terms of the receive and the release that it makes. -/
inductive RecvCopyEnds (good : Env → Prop) (pool : Pool) (link : Link) (capacity fuel : Nat)
    (m : Mem) : RecvCopyResult → Mem → Prop where
  /-- There is no message. -/
  | failed {status : Status} {buffer : Option View} {m' : Mem} : status ≠ .ok →
      CompletesIn good (recv pool link fuel) m (some (status, buffer)) m' →
      RecvCopyEnds good pool link capacity fuel m ⟨status, none, []⟩ m'
  /-- A receive that succeeded without a buffer. -/
  | empty {status : Status} {m' : Mem} : status ≠ .ok → status ≠ .bufferTooSmall →
      CompletesIn good (recv pool link fuel) m (some (.ok, none)) m' →
      RecvCopyEnds good pool link capacity fuel m ⟨status, some 0, []⟩ m'
  | tooSmall {v : View} {a m' : Mem} {ended : Status × Option View} : capacity < v.length →
      CompletesIn good (recv pool link fuel) m (some (.ok, some v)) a →
      CompletesIn good (bufferRelease pool (some v)) a ended m' →
      RecvCopyEnds good pool link capacity fuel m ⟨.bufferTooSmall, some v.length, []⟩ m'
  | copied {v : View} {a m' : Mem} {ended : Status × Option View} : v.length ≤ capacity →
      CompletesIn good (recv pool link fuel) m (some (.ok, some v)) a →
      CompletesIn good (bufferRelease pool (some v)) a ended m' →
      RecvCopyEnds good pool link capacity fuel m
        ⟨ended.1, some v.length, a.bytes v.slotId v.data v.length⟩ m'

/-- A buffer that a receive returns is valid, and the region of its slot is its window. -/
theorem recv_synced {v : View} {status : Status} (well : PoolWell pool m)
    (run : Completes (recv pool link fuel) m (some (status, some v)) m') :
    PoolWell pool m' ∧ Synced pool m' v := by
  obtain ⟨settles, fresh⟩ := run.sound (recv_alone link fuel well).wp
  obtain ⟨_, syncs⟩ := run.sound (recv_arrives link fuel well).wp
  obtain ⟨_, fresh, _⟩ := fresh v rfl
  exact ⟨settles.well well, fresh.synced (settles.well well) (syncs _ rfl v rfl).1⟩

/-- How the head of `zipc_recv_copy` ends; it never meets a null pointer. -/
inductive HeadEnds (good : Env → Prop) (pool : Pool) (link : Link) (capacity fuel : Nat)
    (m : Mem) : RecvCopyStep → Mem → Prop where
  | waiting {m' : Mem} : CompletesIn good (recv pool link fuel) m none m' →
      HeadEnds good pool link capacity fuel m .waiting m'
  | failed {status : Status} {buffer : Option View} {m' : Mem} : status ≠ .ok →
      CompletesIn good (recv pool link fuel) m (some (status, buffer)) m' →
      HeadEnds good pool link capacity fuel m (.stopped status none) m'
  | empty {m' : Mem} : CompletesIn good (recv pool link fuel) m (some (.ok, none)) m' →
      HeadEnds good pool link capacity fuel m (.ready none none 0) m'
  | tooSmall {v : View} {a m' : Mem} {ended : Status × Option View} : capacity < v.length →
      CompletesIn good (recv pool link fuel) m (some (.ok, some v)) a →
      CompletesIn good (bufferRelease pool (some v)) a ended m' →
      HeadEnds good pool link capacity fuel m (.stopped .bufferTooSmall (some v.length)) m'
  | ready {v : View} {source : Option Nat} {m' : Mem} : v.length ≤ capacity →
      CompletesIn good (recv pool link fuel) m (some (.ok, some v)) m' →
      m'.copyOut (some v) source v.length = m'.bytes v.slotId v.data v.length →
      HeadEnds good pool link capacity fuel m (.ready (some v) source v.length) m'

theorem recvCopyHead_ends {step : RecvCopyStep} (well : PoolWell pool m)
    (head : CompletesIn good (recvCopyHead pool link capacity fuel) m step m') :
    HeadEnds good pool link capacity fuel m step m' := by
  unfold recvCopyHead at head
  obtain ⟨received, a, receives, rest⟩ := head.bind
  rcases received with _ | ⟨status, buffer⟩
  · cases rest
    exact .waiting receives
  by_cases ok : status = .ok
  swap
  · simp only [if_pos ok] at rest
    cases rest
    exact .failed ok receives
  subst ok
  simp only [if_neg (not_not_intro rfl)] at rest
  obtain ⟨size, b, sizes, rest⟩ := rest.bind
  cases buffer with
  | none =>
      cases sizes
      rw [if_neg (by omega), if_pos rfl] at rest
      cases rest
      exact .empty receives
  | some v =>
      have valid := (recv_synced well receives.completes).2.valid
      cases (bufferSize_looks valid).completes sizes.completes
      by_cases small : capacity < v.length
      · rw [if_pos small] at rest
        obtain ⟨ended, c, releases, rest⟩ := rest.bind
        cases rest
        exact .tooSmall small receives releases
      rw [if_neg small] at rest
      by_cases zero : v.length = 0
      · rw [if_pos zero] at rest
        cases rest
        have nothing : m'.copyOut (some v) none v.length = m'.bytes v.slotId v.data v.length := by
          rw [zero]
          rfl
        have ends : HeadEnds good pool link capacity fuel m (.ready (some v) none v.length) m' :=
          .ready (Nat.le_of_not_lt small) receives nothing
        rwa [zero] at ends
      · rw [if_neg zero] at rest
        obtain ⟨pointer, c, looked, rest⟩ := rest.bind
        cases (bufferData_looks valid).completes looked.completes
        cases rest
        exact .ready (Nat.le_of_not_lt small) receives rfl

theorem recvCopied_ends (well : PoolWell pool m)
    (run : RecvCopied good pool link capacity fuel m result m') :
    RecvCopyEnds good pool link capacity fuel m result m' := by
  cases run with
  | stopped head =>
      cases recvCopyHead_ends well head with
      | failed bad receives => exact .failed bad receives
      | tooSmall small receives releases => exact .tooSmall small receives releases
  | copied head releases =>
      cases recvCopyHead_ends well head with
      | empty receives =>
          cases releases
          exact .empty (by decide) (by decide) receives
      | ready fits receives bytes =>
          rw [bytes]
          exact .copied fits receives releases

end RecvCopy

/-! ## Steps of the traffic -/

/-- The second session has the memory of the first, and its objects among others. -/
structure Session.Extends (s t : Session) : Prop where
  mem : t.mem = s.mem
  views : ∀ v, v ∈ s.views → v ∈ t.views
  links : ∀ l, l ∈ s.links → l ∈ t.links
  restarts : ∀ r, r ∈ s.restarts → r ∈ t.restarts

section Extends

variable {s t : Session} {call : ApiCall}

theorem Session.Extends.refl (s : Session) : s.Extends s :=
  ⟨rfl, fun _ => id, fun _ => id, fun _ => id⟩

theorem Session.Extends.has (more : s.Extends t) {buffer : Option View} (has : s.Has buffer) :
    t.Has buffer := fun v same => more.views v (has v same)

theorem Session.Extends.after (more : s.Extends t) (outcome : Outcome) (m : Mem) :
    (s.after outcome m).Extends (t.after outcome m) := by
  refine ⟨rfl, fun v known => ?_, fun l known => ?_, fun r known => ?_⟩
  · exact (List.mem_append.mp known).elim (List.mem_append_left _) fun old =>
      List.mem_append_right _ (more.views v old)
  · exact (List.mem_append.mp known).elim (List.mem_append_left _) fun old =>
      List.mem_append_right _ (more.links l old)
  · exact (List.mem_append.mp known).elim (List.mem_append_left _) fun old =>
      List.mem_append_right _ (more.restarts r old)

/-- What a caller may do with the objects of a session it may do with more. -/
theorem ApiCall.Legal.extend (legal : call.Legal s) (more : s.Extends t) : call.Legal t := by
  cases call with
  | life call =>
      cases call with
      | restartFinish restart => exact more.restarts _ legal
      | register | unregister | restartBegin => trivial
  | allocEx => exact ⟨more.links _ legal.1, fun buffer same => more.has (legal.2 buffer same)⟩
  | setRegion | append | prepend | trimFront | trimBack | resize | setLimits | release =>
      exact more.has legal
  | send | put => exact ⟨more.links _ legal.1, more.has legal.2⟩
  | recv => exact more.links _ legal
  | restartNext => exact more.restarts _ legal
  | reconcile => exact ⟨more.links _ legal.1, more.restarts _ legal.2⟩
  | _ => trivial

end Extends

section Steps

variable {pool : Pool} {tx rx : Link} {r : Nat} {s : Session} {out got : List Parcel} {m m' : Mem}

/-- A call that is about no descriptor of the ring. -/
theorem Traffic.beside {call : ApiCall} {outcome : Outcome}
    (traffic : Traffic handedOver pool tx rx r s out got) (legal : call.Legal s)
    (orderly : call.Orderly tx rx r s.mem m)
    (run : CompletesIn sheltered (call.program pool) s.mem (some outcome) m)
    (sends : ∀ buffer, call ≠ .send tx buffer) (receives : ∀ fuel, call ≠ .recv rx fuel) :
    Traffic handedOver pool tx rx r (s.after outcome m) out got := by
  have next := traffic.call legal orderly run
  have unsent : sentBy handedOver tx s.mem call outcome = [] := by
    unfold sentBy
    split
    · exact if_neg fun both => sends _ (by rw [both.1])
    · rfl
  have unreceived : receivedBy rx m call outcome = [] := by
    unfold receivedBy
    split
    · exact if_neg fun both => receives _ (by rw [both.1])
    · rfl
  rwa [unsent, unreceived, List.append_nil, List.append_nil] at next

/-- The release of a buffer of the session. -/
theorem Traffic.release {v : View} {ended : Status × Option View}
    (traffic : Traffic handedOver pool tx rx r s out got) (known : v ∈ s.views)
    (run : CompletesIn sheltered (bufferRelease pool (some v)) s.mem ended m') :
    Traffic handedOver pool tx rx r (s.after { status := ended.1, buffer := ended.2 } m') out
      got := by
  have legal : (ApiCall.release (some v)).Legal s := by
    rintro w ⟨⟩
    exact known
  exact traffic.beside legal trivial (outcome_run run) (fun _ same => by cases same)
    (fun _ same => by cases same)

/-- A send copy over `tx` puts its message into the ring, or nothing. -/
theorem Traffic.sendCopy {bytes : List Nat} {result : Option Status}
    (traffic : Traffic handedOver pool tx rx r s out got) (known : tx ∈ s.links)
    (timeless : Timeless tx.defaultDeadlineNs)
    (run : CompletesIn sheltered (sendCopy pool tx bytes) s.mem result m') :
    ∃ status t more, result = some status ∧ t.mem = m' ∧
      ({ s with mem := m' } : Session).Extends t ∧
      Traffic handedOver pool tx rx r t (out ++ more) got ∧
      more.map Parcel.bytes = if handedOver status = true then [bytes] else [] := by
  obtain ⟨status, rfl, ends⟩ := sendCopy_copied traffic.reached known unspoken_sheltered run
  have legal : (ApiCall.allocEx tx bytes.length 0 0 none).Legal s :=
    ⟨known, fun _ same => by cases same⟩
  have opening {result : Status × Option View} {a : Mem}
      (opens : CompletesIn sheltered (bufferAlloc pool tx bytes.length none) s.mem result a) :
      Traffic handedOver pool tx rx r (s.after { status := result.1, buffer := result.2 } a)
        out got :=
    traffic.beside legal trivial (outcome_run opens) (fun _ same => by cases same)
      (fun _ same => by cases same)
  -- the buffer is allocated, filled and sent
  have sending {v : View} {a b : Mem} {status : Status} {buffer : Option View}
      (opens : CompletesIn sheltered (bufferAlloc pool tx bytes.length none) s.mem (.ok, some v) a)
      (sends : CompletesIn sheltered (send pool tx (some v)) (a.copied v 0 bytes)
        (status, buffer) b) :
      ∃ more, Traffic handedOver pool tx rx r ((s.filled v bytes a).after { status, buffer } b)
          (out ++ more) got ∧
        more.map Parcel.bytes = if handedOver status = true then [bytes] else [] := by
    obtain ⟨readied, _⟩ := sendCopy_filled traffic.reached known opens
    have fills : Traffic handedOver pool tx rx r (s.filled v bytes a) out got :=
      (opening opens).fill _ List.mem_cons_self readied.synced.valid
    have core := (a.copied_focus v 0 bytes).core
    have undated : (ApiCall.send tx (some v)).Orderly tx rx r (s.filled v bytes a).mem b := by
      simp only [ApiCall.Orderly, if_true]
      rintro w ⟨⟩
      exact (congrArg SlotCore.deadlineNs core).trans (readied.deadline timeless)
    have mine : (ApiCall.send tx (some v)).Legal (s.filled v bytes a) := by
      refine ⟨known, ?_⟩
      rintro w ⟨⟩
      exact List.mem_cons_self
    have next := fills.call mine undated (outcome_run sends)
    rw [show receivedBy rx b (.send tx (some v)) { status, buffer } = [] from rfl,
      List.append_nil] at next
    refine ⟨_, next, ?_⟩
    have region : ((a.copied v 0 bytes).core v.slotId).region = ⟨0, bytes.length⟩ := by
      refine (congrArg SlotCore.region core).trans (readied.synced.region.trans ?_)
      rw [readied.data, readied.length]
    have parcel : ((a.copied v 0 bytes).core v.slotId).parcel.bytes = bytes := by
      rw [SlotCore.parcel, region]
      exact a.bytes_copied v 0 bytes
    simp only [sentBy, true_and]
    split
    · exact congrArg (· :: []) parcel
    · rfl
  cases ends with
  | refused failed opens =>
      have plain := opens.sound (bufferAlloc_yields unspoken_sheltered tx bytes.length s.mem) failed
      refine ⟨status, s.after { status, buffer := none } m', [], rfl, rfl, ?_, ?_, ?_⟩
      · exact ⟨rfl, fun _ => id, fun _ => id, fun _ => id⟩
      · rw [List.append_nil]
        exact opening opens
      · rw [plain]
        rfl
  | @sent v a _ _ opens sends =>
      obtain ⟨more, next, same⟩ := sending opens sends
      refine ⟨status, (s.filled v bytes a).after { status, buffer := none } m', more, rfl, rfl,
        ⟨rfl, fun _ => List.mem_cons_of_mem v, fun _ => id, fun _ => id⟩, next, same⟩
  | @returned v a b _ _ ended opens sends releases =>
      obtain ⟨more, next, same⟩ := sending opens sends
      have kept : v ∈ ((s.filled v bytes a).after { status, buffer := some v } b).views :=
        List.mem_cons_self
      refine ⟨status, _, more, rfl, ?_, ?_, next.release kept releases, same⟩
      · rfl
      · refine ⟨rfl, fun w old => List.mem_append_right _ ?_, fun _ => id, fun _ => id⟩
        exact List.mem_cons_of_mem _ (List.mem_cons_of_mem _ old)

/-- What a receiver gets of a message. -/
inductive Received where
  | message (actual : Nat) (bytes : List Nat)
  /-- The message was too large for it. -/
  | dropped (actual : Nat)
  deriving Repr, DecidableEq

/-- What one `zipc_recv_copy` with room for `capacity` bytes gets. -/
def RecvCopyResult.received (result : RecvCopyResult) (capacity : Nat) : List Received :=
  match result.actual with
  | none => []
  | some actual =>
      if result.status = .ok then [.message actual result.bytes]
      else if capacity < actual then [.dropped actual] else []

/-- The receiver got this message, or learned its size. -/
def Received.Matches : Received → List Nat → Prop
  | .message actual bytes, sent => bytes = sent ∧ actual = sent.length
  | .dropped actual, sent => actual = sent.length

/-- What a receiver with room for `capacity` bytes gets of a message. -/
def receivedWithin (capacity : Nat) (bytes : List Nat) : Received :=
  if capacity < bytes.length then .dropped bytes.length else .message bytes.length bytes

theorem receivedWithin_matches (capacity : Nat) (bytes : List Nat) :
    (receivedWithin capacity bytes).Matches bytes := by
  unfold receivedWithin
  split
  · rfl
  · exact ⟨rfl, rfl⟩

theorem receivedWithin_forall (capacity : Nat) (sent : List (List Nat)) :
    List.Forall₂ Received.Matches (sent.map (receivedWithin capacity)) sent := by
  rw [List.forall₂_map_left_iff, List.forall₂_same]
  exact fun bytes _ => receivedWithin_matches capacity bytes

theorem Synced.parcel {v : View} (synced : Synced pool m v) :
    (m.core v.slotId).parcel.bytes = m.bytes v.slotId v.data v.length := by
  rw [SlotCore.parcel, synced.region]
  rfl

/-- A receive copy from `rx` takes one message out of the ring, or nothing. -/
theorem Traffic.recvCopy {capacity fuel : Nat} {result : RecvCopyResult}
    (traffic : Traffic handedOver pool tx rx r s out got) (known : rx ∈ s.links)
    (run : RecvCopied sheltered pool rx capacity fuel s.mem result m') :
    ∃ t more, t.mem = m' ∧ ({ s with mem := m' } : Session).Extends t ∧
      Traffic handedOver pool tx rx r t out (got ++ more) ∧
      (more.length = 1 ∨ more = [] ∧ ∃ ended a,
        CompletesIn sheltered (recv pool rx fuel) s.mem (some ended) a ∧
          ∀ v, ended ≠ (.ok, some v)) ∧
      result.received capacity = (more.map Parcel.bytes).map (receivedWithin capacity) := by
  have well := traffic.reached.well.slots
  have legal (fuel : Nat) : (ApiCall.recv rx fuel).Legal s := known
  have receiving {status : Status} {buffer : Option View} {a : Mem}
      (receives : CompletesIn sheltered (recv pool rx fuel) s.mem (some (status, buffer)) a) :
      Traffic handedOver pool tx rx r (s.after { status, buffer } a) out
        (got ++ receivedBy rx a (.recv rx fuel) { status, buffer }) := by
    have next := traffic.call (legal fuel) (.inl rfl) (receives.append (.done _ _))
    rwa [show sentBy handedOver tx s.mem (.recv rx fuel) _ = [] from rfl,
      List.append_nil] at next
  -- the buffer is received and released
  have taking {v : View} {a : Mem} {ended : Status × Option View}
      (receives : CompletesIn sheltered (recv pool rx fuel) s.mem (some (.ok, some v)) a)
      (releases : CompletesIn sheltered (bufferRelease pool (some v)) a ended m') :
      ended.1 = .ok ∧ ∃ t more, t.mem = m' ∧ ({ s with mem := m' } : Session).Extends t ∧
        Traffic handedOver pool tx rx r t out (got ++ more) ∧
        more.map Parcel.bytes = [a.bytes v.slotId v.data v.length] := by
    obtain ⟨left, synced⟩ := recv_synced well receives.completes
    have calm := not_unprotected synced.placed.inside
    obtain ⟨rfl, _⟩ := releases.sound (bufferRelease_frees calm synced.placed left synced.valid)
    have next := receiving receives
    have released := next.release List.mem_cons_self releases
    refine ⟨rfl, (s.after { status := .ok, buffer := some v } a).after
      { status := .ok, buffer := none } m', _, rfl, ?_, released, ?_⟩
    · exact ⟨rfl, fun _ => List.mem_cons_of_mem v, fun _ => id, fun _ => id⟩
    · simp [receivedBy, synced.parcel]
  cases recvCopied_ends well run with
  | @failed status buffer _ bad receives =>
      have next := receiving receives
      have none : receivedBy rx m' (.recv rx fuel) { status, buffer } = [] := by
        cases buffer with
        | none => rfl
        | some v => simp [receivedBy, bad]
      rw [none] at next
      have unmet : ∀ v, (status, buffer) ≠ (.ok, some v) := by
        rintro v ⟨⟩
        exact bad rfl
      exact ⟨s.after { status, buffer } m', [], rfl, ⟨rfl, fun _ => List.mem_append_right _,
        fun _ => id, fun _ => id⟩, next, .inr ⟨rfl, _, _, receives, unmet⟩, rfl⟩
  | @empty status _ bad _ receives =>
      have next := receiving receives
      refine ⟨s.after { status := .ok, buffer := none } m', [], rfl,
        ⟨rfl, fun _ => id, fun _ => id, fun _ => id⟩, next,
        .inr ⟨rfl, _, _, receives, fun v done => by cases done⟩, ?_⟩
      simp [RecvCopyResult.received, bad]
  | tooSmall small receives releases =>
      obtain ⟨_, t, more, memory, extends', next, taken⟩ := taking receives releases
      refine ⟨t, more, memory, extends', next, .inl ?_, ?_⟩
      · rw [← List.length_map (f := Parcel.bytes), taken, List.length_singleton]
      rw [taken]
      simp [RecvCopyResult.received, receivedWithin, small, Mem.length_bytes]
  | copied fits receives releases =>
      obtain ⟨ok, t, more, memory, extends', next, taken⟩ := taking receives releases
      refine ⟨t, more, memory, extends', next, .inl ?_, ?_⟩
      · rw [← List.length_map (f := Parcel.bytes), taken, List.length_singleton]
      rw [taken]
      simp [RecvCopyResult.received, receivedWithin, ok, Nat.not_lt.mpr fits, Mem.length_bytes]

end Steps

/-! ## The whole run -/

/-- A run in which the two ends of the ring only send and receive by copy, while other calls
    go on; with the messages that were handed over and what the receiver got. -/
inductive MessageTraffic (pool : Pool) (tx rx : Link) (r : Nat) :
    Session → List (List Nat) → List Received → Prop where
  | start {s : Session} {depth : Nat} {entries : Nat → Message} : s.Starts pool →
      ringInitialize depth entries = .ok (s.mem.rings r) → MessageTraffic pool tx rx r s [] []
  | sendCopy {s : Session} {sent : List (List Nat)} {got : List Received} {bytes : List Nat}
      {status : Status} {m : Mem} : MessageTraffic pool tx rx r s sent got → tx ∈ s.links →
      CompletesIn sheltered (sendCopy pool tx bytes) s.mem (some status) m →
      MessageTraffic pool tx rx r { s with mem := m }
        (sent ++ if handedOver status = true then [bytes] else []) got
  | recvCopy {s : Session} {sent : List (List Nat)} {got : List Received} {capacity fuel : Nat}
      {result : RecvCopyResult} {m : Mem} : MessageTraffic pool tx rx r s sent got →
      rx ∈ s.links → RecvCopied sheltered pool rx capacity fuel s.mem result m →
      MessageTraffic pool tx rx r { s with mem := m } sent (got ++ result.received capacity)
  | call {s : Session} {sent : List (List Nat)} {got : List Received} {call : ApiCall}
      {outcome : Outcome} {m : Mem} : MessageTraffic pool tx rx r s sent got → call.Legal s →
      call.Orderly tx rx r s.mem m → (∀ buffer, call ≠ .send tx buffer) →
      (∀ fuel, call ≠ .recv rx fuel) →
      CompletesIn sheltered (call.program pool) s.mem (some outcome) m →
      MessageTraffic pool tx rx r (s.after outcome m) sent got
  | fill {s : Session} {sent : List (List Nat)} {got : List Received} {v : View}
      (bytes : Nat → Nat) : MessageTraffic pool tx rx r s sent got → v ∈ s.views →
      Valid s.mem v → MessageTraffic pool tx rx r { s with mem := s.mem.fill v bytes } sent got
  | tick {s : Session} {sent : List (List Nat)} {got : List Received} (clock : Nat) :
      MessageTraffic pool tx rx r s sent got →
      MessageTraffic pool tx rx r { s with mem := { s.mem with clock } } sent got

section Runs

variable {pool : Pool} {tx rx : Link} {r : Nat} {s : Session} {sent : List (List Nat)}
  {got : List Received}

/-- Messages are buffers under way: the run is one of sends and receives. -/
theorem MessageTraffic.traffic (timeless : Timeless tx.defaultDeadlineNs)
    (messages : MessageTraffic pool tx rx r s sent got) :
    ∃ t out parcels, s.Extends t ∧ Traffic handedOver pool tx rx r t out parcels ∧
      out.map Parcel.bytes = sent ∧
      List.Forall₂ Received.Matches got (parcels.map Parcel.bytes) := by
  induction messages with
  | start starts initialized =>
      exact ⟨_, [], [], .refl _, .start starts initialized, rfl, .nil⟩
  | @sendCopy s sent got bytes status m _ known run ih =>
      obtain ⟨t, out, parcels, more, traffic, same, gets⟩ := ih
      rw [← more.mem] at run
      obtain ⟨status', u, new, answer, memory, further, traffic, sends⟩ :=
        traffic.sendCopy (more.links _ known) timeless run
      cases answer
      refine ⟨u, out ++ new, parcels, ⟨memory, fun v old => further.views v (more.views v old),
        fun l old => further.links l (more.links l old),
        fun r old => further.restarts r (more.restarts r old)⟩, traffic, ?_, gets⟩
      rw [List.map_append, same, sends]
  | @recvCopy s sent got capacity fuel result m _ known run ih =>
      obtain ⟨t, out, parcels, more, traffic, same, gets⟩ := ih
      rw [← more.mem] at run
      obtain ⟨u, new, memory, further, traffic, _, takes⟩ :=
        traffic.recvCopy (more.links _ known) run
      refine ⟨u, out, parcels ++ new, ⟨memory, fun v old => further.views v (more.views v old),
        fun l old => further.links l (more.links l old),
        fun r old => further.restarts r (more.restarts r old)⟩, traffic, same, ?_⟩
      rw [List.map_append, takes]
      exact List.rel_append gets (receivedWithin_forall capacity _)
  | @call s sent got call outcome m _ legal orderly sends receives run ih =>
      obtain ⟨t, out, parcels, more, traffic, same, gets⟩ := ih
      rw [← more.mem] at orderly run
      exact ⟨_, out, parcels, more.after outcome m,
        traffic.beside (legal.extend more) orderly run sends receives, same, gets⟩
  | @fill s sent got v bytes _ known valid ih =>
      obtain ⟨t, out, parcels, more, traffic, same, gets⟩ := ih
      rw [← more.mem] at valid
      have filled : t.mem.fill v bytes = s.mem.fill v bytes := by rw [more.mem]
      exact ⟨{ t with mem := t.mem.fill v bytes }, out, parcels,
        ⟨filled, more.views, more.links, more.restarts⟩,
        traffic.fill bytes (more.views v known) valid, same, gets⟩
  | @tick s sent got clock _ ih =>
      obtain ⟨t, out, parcels, more, traffic, same, gets⟩ := ih
      have ticked : { t.mem with clock } = { s.mem with clock } := by rw [more.mem]
      exact ⟨{ t with mem := { t.mem with clock } }, out, parcels,
        ⟨ticked, more.views, more.links, more.restarts⟩, traffic.tick clock, same, gets⟩

/-- A call of `Session.run` beside the messages. -/
theorem MessageTraffic.runs (messages : MessageTraffic pool tx rx r s sent got) (call : ApiCall)
    (legal : call.Legal s) (orderly : ∀ m, call.Orderly tx rx r s.mem m)
    (sends : ∀ buffer, call ≠ .send tx buffer) (receives : ∀ fuel, call ≠ .recv rx fuel)
    (ends : ((call.program pool).runWith default s.mem).1.isSome = true) :
    MessageTraffic pool tx rx r (s.run pool call) sent got := by
  have works : sheltered default := rfl
  have completes := runWith_completesIn works (call.program pool) s.mem
  cases run : (call.program pool).runWith default s.mem with
  | mk result m =>
      rw [run] at ends completes
      obtain ⟨outcome, rfl⟩ := Option.isSome_iff_exists.mp ends
      rw [show s.run pool call = s.after outcome m by simp only [Session.run, run]]
      exact messages.call legal (orderly m) sends receives completes

end Runs

/-- Components 1 and 2 have opened the two ends of the ring. -/
def opened : Session :=
  [.life (.register 1 1), .life (.register 1 2), .linkCreate sendingConfig .ok,
    .linkCreate receivingConfig .ok].foldl (Session.run smallPool) ringed

end Zipc
