import Zipc.Messages

/-! # Draining a ring

Everything that was handed over can be received: from any state of the traffic, as many calls
of `zipc_recv_copy` as there are messages under way return, and return all of them.
-/

namespace Zipc

open Atomic Program

/-! ## The receive of a message that is there -/

section Receive

variable {pool : Pool} {rx : Link} {r : Nat} {m m' : Mem} {message : Message}
  {messages : List Message} {out got : List Parcel}

theorem ringPeek_looks (deep : 2 ≤ (m.rings r).depth)
    (pending : (m.rings r).consumer ≠ (m.rings r).producer) :
    Looks m (ringPeek r) (.done (.ok ((m.rings r).entries
      ((m.rings r).consumer % (m.rings r).depth), (m.rings r).consumer))) := by
  simp only [ringPeek, lift_bind]
  refine .act _ (fun _ => rfl) ?_
  rw [if_neg (Nat.not_lt.mpr deep)]
  refine .act _ (fun _ => rfl) (.act _ (fun _ => rfl) ?_)
  rw [if_neg pending]
  exact .act _ (fun _ => rfl) (.here _)

/-- A ring that is not empty is read at once, whatever the transport waits for otherwise. -/
theorem receiveBegin_looks {t : Transport} (fuel : Nat) (through : t.ring = some r)
    (deep : 2 ≤ (m.rings r).depth) (pending : (m.rings r).consumer ≠ (m.rings r).producer) :
    Looks m (receiveBegin t (fuel + 1)) (.done (some (.ok ((m.rings r).entries
      ((m.rings r).consumer % (m.rings r).depth), ⟨some (m.rings r).consumer⟩)))) := by
  cases t with
  | eventfd q =>
      cases through
      exact (ringPeek_looks deep pending).bind (.here _)
  | polling q timeoutNs =>
      cases through
      exact (ringPeek_looks deep pending).bind (.here _)
  | external => cases through

/-- The first waiting message is the next that a live link receives. -/
theorem recv_delivers (valid : componentIdValid rx.localComponent = true)
    (through : rx.transport.ring = some r) (live : LinkLive m rx) (well : PoolWell pool m)
    (carried : Carried pool rx r m (message :: messages) out got) (few : out.length < u32)
    {fuel : Nat} {ended : Option (Status × Option View)}
    (run : CompletesIn sheltered (recv pool rx (fuel + 2)) m ended m') :
    ∃ v, ended = some (.ok, some v) := by
  have length := carried.length
  have pending : (m.rings r).consumer ≠ (m.rings r).producer := by
    rw [carried.consumer, carried.producer, length, List.length_cons]
    omega
  have head : (m.rings r).entries ((m.rings r).consumer % (m.rings r).depth) = message := by
    rw [carried.consumer]
    exact carried.entries 0 (Nat.succ_pos _)
  have begins := receiveBegin_looks fuel through carried.deep pending
  rw [head] at begins
  have looks := ((linkCurrent_looks live).bind (begins.bind (.here _))).completesIn run
  obtain ⟨result, a, receives, rest⟩ := looks.bind
  obtain ⟨v, rfl, _⟩ := receives.sound
    (recvMessage_carried valid through well carried few rfl)
  cases rest
  exact ⟨v, rfl⟩

end Receive

/-! ## Lifecycles -/

section Lifecycle

variable {pool : Pool} {rx : Link} {m m' : Mem} {message : Message}

/-- The lifecycles are as before. -/
def SameLives (m m' : Mem) : Prop := ∀ k, (m'.components k).lifecycle = (m.components k).lifecycle

theorem SameLives.trans {m'' : Mem} (first : SameLives m m') (second : SameLives m' m'') :
    SameLives m m'' := fun k => (second k).trans (first k)

theorem LinkLive.same (live : LinkLive m rx) (same : SameLives m m') : LinkLive m' rx := by
  intro given
  rw [same]
  exact live given

end Lifecycle

/-! ## The whole ring -/

section Ring

variable {pool : Pool} {tx rx : Link} {r : Nat} {s : Session} {sent : List (List Nat)}
  {got : List Received} {capacity fuel : Nat}

theorem MessageTraffic.well (timeless : Timeless tx.defaultDeadlineNs)
    (messages : MessageTraffic pool tx rx r s sent got) : PoolWell pool s.mem := by
  obtain ⟨t, out, parcels, more, traffic, _⟩ := messages.traffic timeless
  exact more.mem ▸ traffic.reached.well.slots

/-- A live receiver gets the next message under way. -/
theorem MessageTraffic.delivers (messages : MessageTraffic pool tx rx r s sent got)
    (capacity fuel : Nat) (joined : Joined tx rx r) (timeless : Timeless tx.defaultDeadlineNs)
    (few : sent.length < u32) (known : rx ∈ s.links) (live : LinkLive s.mem rx)
    (pending : got.length < sent.length) :
    (∀ step m', CompletesIn sheltered (recvCopyHead pool rx capacity (fuel + 2)) s.mem step m' →
      step ≠ .waiting ∧ step ≠ .crashed) ∧
    ∀ result m', RecvCopied sheltered pool rx capacity (fuel + 2) s.mem result m' →
      ∃ bytes, sent.drop got.length = bytes :: sent.drop (got.length + 1) ∧
        result.received capacity = [receivedWithin capacity bytes] := by
  obtain ⟨t, out, parcels, more, traffic, same, gets⟩ := messages.traffic timeless
  rw [← more.mem] at live ⊢
  have fewer : out.length < u32 := by
    rw [← same, List.length_map] at few
    exact few
  have length : got.length = parcels.length := by
    rw [gets.length_eq, List.length_map]
  obtain ⟨waiting, carried⟩ := traffic.carried joined fewer
  have well := traffic.reached.well.slots
  have valid := traffic.reached.links (more.links rx known)
  have delivered {ended : Option (Status × Option View)} {a : Mem}
      (receives : CompletesIn sheltered (recv pool rx (fuel + 2)) t.mem ended a) :
      ∃ v, ended = some (.ok, some v) := by
    cases waiting with
    | nil =>
        have total := carried.length
        rw [← same, length, List.length_map, total, List.length_nil] at pending
        omega
    | cons message rest => exact recv_delivers valid joined.inward live well carried fewer receives
  constructor
  · intro step m' head
    cases recvCopyHead_ends well head with
    | waiting receives =>
        obtain ⟨_, done⟩ := delivered receives
        cases done
    | failed | empty | tooSmall | ready => simp
  · intro result m' run
    obtain ⟨u, new, memory, further, next, one, takes⟩ :=
      traffic.recvCopy (more.links rx known) run
    rcases one with one | ⟨_, ended, a, receives, unmet⟩
    swap
    · obtain ⟨v, done⟩ := delivered receives
      cases done
      exact absurd rfl (unmet v)
    obtain ⟨parcel, rfl⟩ := List.length_eq_one_iff.mp one
    obtain ⟨rest, after⟩ := next.carried joined fewer
    have total : sent = parcels.map Parcel.bytes ++
        parcel.bytes :: (u.mem.parcels rest).map Parcel.bytes := by
      rw [← same, after.total, List.map_append, List.map_append, List.append_assoc]
      rfl
    have taken : got.length = (parcels.map Parcel.bytes).length := gets.length_eq
    refine ⟨parcel.bytes, ?_, takes⟩
    rw [total, taken, List.drop_left, ← List.drop_drop, List.drop_left, List.drop_one]
    rfl

/-- `n` calls of `zipc_recv_copy`, one after the other, all return, and what they get and the
    memory that they leave satisfy `post`. -/
def Drains (pool : Pool) (rx : Link) (capacity fuel : Nat) :
    Nat → (List Received → Mem → Prop) → Mem → Prop
  | 0, post, m => post [] m
  | n + 1, post, m =>
      (∀ step m', CompletesIn sheltered (recvCopyHead pool rx capacity fuel) m step m' →
        step ≠ .waiting ∧ step ≠ .crashed) ∧
      ∀ result m', RecvCopied sheltered pool rx capacity fuel m result m' →
        Drains pool rx capacity fuel n (fun more => post (result.received capacity ++ more)) m'

theorem Drains.mono {post post' : List Received → Mem → Prop}
    (weaker : ∀ more m, post more m → post' more m) {n : Nat} {m : Mem}
    (drains : Drains pool rx capacity fuel n post m) :
    Drains pool rx capacity fuel n post' m := by
  induction n generalizing post post' m with
  | zero => exact weaker [] m drains
  | succ n ih =>
      exact ⟨drains.1, fun result m' run =>
        ih (fun more => weaker (result.received capacity ++ more)) (drains.2 result m' run)⟩

end Ring

end Zipc
