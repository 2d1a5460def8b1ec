import Zipc.Complete

/-! # Runs of complete calls

A session starts from a formatted pool and runs complete calls of the API one at a time,
with any arguments and with any outcome of entropy, transports and page protection. Its
buffers, links and restart objects are those that earlier calls returned; a buffer stays
in the session after a call has invalidated it, as a copy of it may. Between calls time
passes, and the owner of a valid buffer writes to the payload.
-/

namespace Zipc

open Atomic Program

inductive ApiCall where
  | life (call : LifeCall)
  | heartbeat (component epoch : Nat)
  | linkCreate (config : LinkConfig) (opened : Status)
  | allocate (allocator parentId : Nat)
  | allocEx (link : Link) (size headroom tailroom : Nat) (parent : Option (Option View))
  | fromHandle (handle owner : Nat)
  | setRegion (buffer : Option View) (offset length : Nat)
  | append (buffer : Option View) (bytes : List Nat)
  | prepend (buffer : Option View) (bytes : List Nat)
  | trimFront (buffer : Option View) (length : Nat)
  | trimBack (buffer : Option View) (length : Nat)
  | resize (buffer : Option View) (size : Nat)
  | setLimits (buffer : Option View) (hopLimit deadline : Nat)
  | prepareTransfer (handle currentOwner nextOwner : Nat)
  | send (link : Link) (buffer : Option View)
  | claim (message : Message) (receiver : Nat)
  | recv (link : Link) (fuel : Nat)
  | poolRelease (handle owner : Nat)
  | release (buffer : Option View)
  | put (link : Link) (buffer : Option View)
  | restartNext (restart : Restart)
  | recoverOwner (component deadEpoch minimumAgeNs : Nat)
  | recoverClaiming
  | reconcile (link : Link) (restart : Restart) (fuel : Nat)

/-- What a call returns: its status and the objects that it makes or changes. -/
structure Outcome where
  status : Status
  buffer : Option View := none
  message : Option Message := none
  link : Option Link := none
  restart : Option Restart := none
  deriving Repr, DecidableEq, Inhabited

def Outcome.ofExcept {α : Type} (made : α → Outcome) : Except Status α → Outcome
  | .ok a => made a
  | .error status => { status }

def LifeResult.outcome : LifeResult → Option Outcome
  | .registered result => result.map (Outcome.ofExcept fun _ => { status := .ok })
  | .unregistered result => result.map fun status => { status }
  | .begun result => result.map (Outcome.ofExcept fun r => { status := .ok, restart := some r })
  | .finished status => some { status }

/-- The program of a call that answers a status and its buffer. -/
def bufferOutcome (p : Prog (Status × Option View)) : Prog (Option Outcome) := do
  let (status, buffer) ← p
  pure (some { status, buffer })

/-- The program of a call; `none` when it is still waiting as its fuel runs out. -/
def ApiCall.program (pool : Pool) : ApiCall → Prog (Option Outcome)
  | .life call => do
      let result ← call.program
      pure result.outcome
  | .heartbeat component epoch => do
      let status ← componentHeartbeat component epoch
      pure (some { status })
  | .linkCreate config opened => do
      let result ← Zipc.linkCreate config opened
      pure (some (Outcome.ofExcept (fun l => { status := .ok, link := some l }) result))
  | .allocate allocator parentId => bufferOutcome (bufferAllocate pool allocator parentId)
  | .allocEx link size headroom tailroom parent =>
      bufferOutcome (bufferAllocEx pool link size headroom tailroom parent)
  | .fromHandle handle owner => do
      let result ← bufferFromHandle pool handle owner
      pure (some (Outcome.ofExcept (fun v => { status := .ok, buffer := some v }) result))
  | .setRegion buffer offset length => bufferOutcome (bufferSetRegion buffer offset length)
  | .append buffer bytes => bufferOutcome (bufferAppend buffer bytes)
  | .prepend buffer bytes => bufferOutcome (bufferPrepend buffer bytes)
  | .trimFront buffer length => bufferOutcome (bufferTrimFront buffer length)
  | .trimBack buffer length => bufferOutcome (bufferTrimBack buffer length)
  | .resize buffer size => bufferOutcome (bufferResize buffer size)
  | .setLimits buffer hopLimit deadline => do
      let status ← bufferSetLimits buffer hopLimit deadline
      pure (some { status, buffer })
  | .prepareTransfer handle currentOwner nextOwner => do
      let result ← bufferPrepareTransfer pool handle currentOwner nextOwner
      pure (some (Outcome.ofExcept (fun x => { status := .ok, message := some x }) result))
  | .send link buffer => bufferOutcome (Zipc.send pool link buffer)
  | .claim message receiver => bufferOutcome (bufferClaim pool message receiver)
  | .recv link fuel => do
      let result ← Zipc.recv pool link fuel
      pure (result.map fun (status, buffer) => { status, buffer })
  | .poolRelease handle owner => do
      let status ← poolBufferRelease pool handle owner
      pure (some { status })
  | .release buffer => bufferOutcome (bufferRelease pool buffer)
  | .put link buffer => bufferOutcome (bufferPut pool link buffer)
  | .restartNext restart => do
      let (status, restart, buffer) ← componentRestartNext pool restart
      pure (some { status, buffer, restart := some restart })
  | .recoverOwner component deadEpoch minimumAgeNs => do
      let (status, _) ← poolRecoverOwner pool component deadEpoch minimumAgeNs
      pure (some { status })
  | .recoverClaiming => do
      let (status, _) ← poolRecoverClaiming pool
      pure (some { status })
  | .reconcile link restart fuel => do
      let result ← linkReconcile pool link restart fuel
      pure (result.map fun (status, _) => { status })

structure Session where
  mem : Mem
  views : List View
  links : List Link
  restarts : List Restart
  deriving Inhabited

/-- The buffer is an invalidated one, or one of the session's. -/
def Session.Has (s : Session) (buffer : Option View) : Prop := ∀ v, buffer = some v → v ∈ s.views

/-- The objects that a call is given come from the API. -/
def ApiCall.Legal (s : Session) : ApiCall → Prop
  | .life (.restartFinish restart) => restart ∈ s.restarts
  | .allocEx link _ _ _ parent => link ∈ s.links ∧ ∀ buffer, parent = some buffer → s.Has buffer
  | .setRegion buffer _ _ | .append buffer _ | .prepend buffer _ | .trimFront buffer _
  | .trimBack buffer _ | .resize buffer _ | .setLimits buffer _ _ | .release buffer => s.Has buffer
  | .send link buffer | .put link buffer => link ∈ s.links ∧ s.Has buffer
  | .recv link _ => link ∈ s.links
  | .restartNext restart => restart ∈ s.restarts
  | .reconcile link restart _ => link ∈ s.links ∧ restart ∈ s.restarts
  | _ => True

/-- The session after a call. -/
def Session.after (s : Session) (outcome : Outcome) (m : Mem) : Session where
  mem := m
  views := outcome.buffer.toList ++ s.views
  links := outcome.link.toList ++ s.links
  restarts := outcome.restart.toList ++ s.restarts

/-- The owner of a valid buffer writes to its payload. -/
def Mem.fill (m : Mem) (v : View) (bytes : Nat → Nat) : Mem :=
  { m with payload := Function.update m.payload v.slotId bytes }

inductive Session.Step (pool : Pool) : Session → Session → Prop where
  | call {s : Session} {call : ApiCall} {outcome : Outcome} {m : Mem} : call.Legal s →
      Completes (call.program pool) s.mem (some outcome) m → Session.Step pool s (s.after outcome m)
  | fill {s : Session} {v : View} (bytes : Nat → Nat) : v ∈ s.views → Valid s.mem v →
      Session.Step pool s { s with mem := s.mem.fill v bytes }
  | tick {s : Session} (clock : Nat) : Session.Step pool s { s with mem := { s.mem with clock } }

/-- A formatted pool that this process has just attached, with no objects yet. -/
def Session.Starts (pool : Pool) (s : Session) : Prop :=
  Formatted pool s.mem ∧ (pool.strict = true → ∀ i, s.mem.access i = false) ∧
    s.mem.hooked = [] ∧ s.views = [] ∧ s.links = [] ∧ s.restarts = []

/-- Steps that satisfy `ok` lead from one session to another. -/
def Session.Leads (pool : Pool) (ok : Session → Session → Prop) : Session → Session → Prop :=
  Relation.ReflTransGen fun s s' => s.Step pool s' ∧ ok s s'

/-- Steps that satisfy `ok` lead to the session from a formatted pool. -/
def Session.Reached (pool : Pool) (ok : Session → Session → Prop) (s : Session) : Prop :=
  ∃ start : Session, start.Starts pool ∧ start.Leads pool ok s

/-- Any step. -/
def anyStep : Session → Session → Prop := fun _ _ => True

/-! ## What a call does -/

/-- What a call may touch. -/
def ApiCall.reach : ApiCall → Reach
  | .life _ | .heartbeat _ _ | .linkCreate _ _ | .fromHandle _ _ => noReach
  | .allocate _ _ | .allocEx _ _ _ _ _ => freeReach
  | .setRegion buffer _ _ | .append buffer _ | .prepend buffer _ | .trimFront buffer _
  | .trimBack buffer _ | .resize buffer _ | .setLimits buffer _ _ | .release buffer
  | .put _ buffer => buffer.elim noReach fun v => ownerReach v.owner
  | .prepareTransfer _ owner _ | .poolRelease _ owner => ownerReach owner
  | .send link _ => sendReach link
  | .claim _ receiver => receiveReach receiver fun _ => False
  | .recv link _ => receiveReach link.localComponent link.transport.Uses
  | .restartNext restart => componentReach restart.component fun _ => False
  | .recoverOwner component _ _ => componentReach component fun _ => False
  | .recoverClaiming => claimingReach
  | .reconcile link restart _ => componentReach restart.component link.Rings

/-- The objects of a session are sound. -/
structure SessionWell (pool : Pool) (s : Session) : Prop where
  slots : PoolWell pool s.mem
  views : ∀ v, v ∈ s.views → ViewWell pool v
  restarts : ∀ r, r ∈ s.restarts → RestartWell r

/-- A buffer that a call returns is one of the session's, up to its window, or valid. -/
def Returns (pool : Pool) (s : Session) (m : Mem) (v : View) : Prop :=
  (∃ w, w ∈ s.views ∧ ∃ data length, v = { w with data, length }) ∨ Fresh pool m v

/-- What a call leaves. -/
structure Delivers (pool : Pool) (s : Session) (call : ApiCall) (result : Option Outcome)
    (m : Mem) : Prop where
  lives : Lives pool call.reach s.mem m
  views : ∀ outcome v, result = some outcome → outcome.buffer = some v → Returns pool s m v
  restarts : ∀ outcome r, result = some outcome → outcome.restart = some r → RestartWell r

section Delivery

variable {pool : Pool} {s : Session} {call : ApiCall}

/-- A call that returns no object. -/
theorem Delivers.plain {result : Option Outcome} {m : Mem} (lives : Lives pool call.reach s.mem m)
    (plain : ∀ outcome, result = some outcome → outcome.buffer = none ∧ outcome.restart = none) :
    Delivers pool s call result m := by
  refine ⟨lives, fun outcome v same has => ?_, fun outcome r same has => ?_⟩
  · rw [(plain outcome same).1] at has
    cases has
  · rw [(plain outcome same).2] at has
    cases has

theorem bufferOutcome_delivers {p : Prog (Status × Option View)}
    (run : p.wps (Guarded pool) (fun result m => Lives pool call.reach s.mem m ∧
      ∀ v, result.2 = some v → Returns pool s m v) s.mem) :
    (bufferOutcome p).wps (Guarded pool) (Delivers pool s call) s.mem := by
  simp only [bufferOutcome]
  rw [wps_bind]
  refine wps_mono run ?_
  rintro ⟨status, buffer⟩ m ⟨lives, returns⟩
  refine ⟨lives, fun outcome v same has => ?_, fun outcome r same has => ?_⟩
  · cases same
    exact returns v has
  · cases same
    cases has

theorem gives_delivers {p : Prog (Status × Option View)} (free : call.reach = freeReach)
    (run : p.wps (Guarded pool) (Gives pool freeReach s.mem) s.mem) :
    (bufferOutcome p).wps (Guarded pool) (Delivers pool s call) s.mem := by
  refine bufferOutcome_delivers (wps_mono run fun result m gives => ?_)
  rw [free]
  exact ⟨gives.lives, fun v has => .inr (gives.fresh v has).2⟩

/-- A call on a buffer of the session. -/
theorem edits_delivers {p : Prog (Status × Option View)} {v : View} (known : v ∈ s.views)
    (run : p.wps (Guarded pool) (Edits pool call.reach v s.mem) s.mem) :
    (bufferOutcome p).wps (Guarded pool) (Delivers pool s call) s.mem := by
  refine bufferOutcome_delivers (wps_mono run fun result m edits => ?_)
  exact ⟨edits.settles.lives, fun w has => .inl ⟨v, known, edits.kept w has⟩⟩

/-- A call on an invalidated buffer. -/
theorem nothing_delivers {p : Prog (Status × Option View)}
    (run : p.wps (Guarded pool) (fun result m => result.2 = none ∧ m = s.mem) s.mem) :
    (bufferOutcome p).wps (Guarded pool) (Delivers pool s call) s.mem := by
  refine bufferOutcome_delivers (wps_mono run ?_)
  rintro result _ ⟨none, rfl⟩
  refine ⟨(Settles.refl _ _ _).lives, fun v has => ?_⟩
  rw [none] at has
  cases has

/-- An operation on the window of a buffer. -/
theorem window_delivers {buffer : Option View} (op : Option View → Prog (Status × Option View))
    (well : SessionWell pool s) (has : s.Has buffer)
    (reached : ∀ v, buffer = some v → call.reach = ownerReach v.owner)
    (idle : (op none).wps (Guarded pool) (fun result m => result.2 = none ∧ m = s.mem) s.mem)
    (run : ∀ v, v.capacity = pool.slotCapacity →
      (s.mem.core v.slotId).region.Within pool.slotCapacity →
      Focused anyEnv pool s.mem v.slotId (op (some v))
        (WindowEnds pool s.mem (s.mem.core v.slotId) v) (s.mem.core v.slotId) []) :
    (bufferOutcome (op buffer)).wps (Guarded pool) (Delivers pool s call) s.mem := by
  cases buffer with
  | none => exact nothing_delivers idle
  | some v =>
      have known := has v rfl
      have placed := well.views v known
      refine edits_delivers known ?_
      rw [reached v rfl]
      exact window_alone placed (run v placed.capacity (well.slots _ placed.inside).region)

theorem heartbeat_alone (pool : Pool) (m : Mem) (component epoch : Nat) :
    (componentHeartbeat component epoch).wps (Guarded pool)
      (fun _ m' => Settles pool noReach m m') m := by
  simp only [componentHeartbeat, lift_bind]
  refine wps_ite (fun _ => .refl _ _ _) (fun _ => ⟨trivial, fun _ => ?_⟩)
  refine wps_ite (fun _ => .refl _ _ _) (fun _ => ⟨trivial, fun _ => ⟨trivial, fun e => ?_⟩⟩)
  have permits : lifePermits (.register 0 0) .pending (Act.storeHeartbeat component m.clock) := trivial
  exact ((Renews.refl m).act permits e).settles

theorem linkCreate_alone (pool : Pool) (m : Mem) (config : LinkConfig) (opened : Status) :
    (Zipc.linkCreate config opened).wps (Guarded pool) (fun _ m' => m' = m) m := by
  simp only [Zipc.linkCreate]
  refine wps_ite (fun _ => rfl) (fun _ => ?_)
  rw [wps_bind]
  refine wps_mono (epochCurrent_alone pool m _ _) ?_
  rintro current m ⟨rfl, _⟩
  refine wps_ite (fun _ => rfl) (fun _ => ?_)
  rw [wps_bind]
  simp only [linkEpoch]
  refine wps_ite (fun _ => wps_ite (fun _ => rfl) (fun _ => rfl)) (fun _ => ?_)
  refine wps_mono (registeredEpoch_alone pool m _) ?_
  rintro epoch m ⟨rfl, _⟩
  exact wps_ite (fun _ => rfl) (fun _ => rfl)

theorem LifeResult.outcome_plain {result : LifeResult} {outcome : Outcome}
    (same : result.outcome = some outcome) : outcome.buffer = none ∧
      ∀ r, outcome.restart = some r → result = .begun (some (.ok r)) := by
  rcases result with (_ | status | epoch) | (_ | status) | (_ | status | restart) | status
  all_goals cases same
  all_goals refine ⟨rfl, ?_⟩
  all_goals rintro r ⟨⟩
  rfl

/-- Only the begin of a restart makes a restart object. -/
theorem lifeCall_begun (l : LifeCall) (pool : Pool) (m : Mem) :
    l.program.wps (Guarded pool)
      (fun result _ => ∀ r, result = .begun (some (.ok r)) → RestartWell r) m := by
  have base := lifeCall_alone l pool m
  cases l with
  | restartBegin fuel component deadEpoch =>
      simp only [LifeCall.program]
      rw [wps_bind]
      refine wps_mono (componentRestartBegin_sound fuel component deadEpoch) ?_
      rintro result m' sound r ⟨⟩
      exact sound r rfl
  | register | unregister | restartFinish =>
      simp only [LifeCall.program] at base ⊢
      rw [wps_bind] at base ⊢
      exact wps_mono base fun _ _ _ _ same => by cases same

theorem life_delivers (l : LifeCall) :
    ((ApiCall.life l).program pool).wps (Guarded pool) (Delivers pool s (.life l)) s.mem := by
  simp only [ApiCall.program]
  rw [wps_bind]
  refine wps_mono (wps_and (lifeCall_alone l pool s.mem) (lifeCall_begun l pool s.mem)) ?_
  rintro result m ⟨⟨renews, _⟩, begun⟩
  refine ⟨renews.settles.lives, fun outcome v same has => ?_, fun outcome r same has => ?_⟩
  · rw [(LifeResult.outcome_plain same).1] at has
    cases has
  · exact begun r ((LifeResult.outcome_plain same).2 r has)

/-- Every legal call keeps within its reach and returns sound objects. -/
theorem ApiCall.delivers (well : SessionWell pool s) (legal : call.Legal s) :
    (call.program pool).wps (Guarded pool) (Delivers pool s call) s.mem := by
  cases call with
  | life call => exact life_delivers call
  | heartbeat component epoch =>
      simp only [ApiCall.program]
      rw [wps_bind]
      refine wps_mono (heartbeat_alone pool s.mem component epoch) fun status m settles => ?_
      refine .plain settles.lives ?_
      rintro outcome ⟨⟩
      exact ⟨rfl, rfl⟩
  | linkCreate config opened =>
      simp only [ApiCall.program]
      rw [wps_bind]
      refine wps_mono (linkCreate_alone pool s.mem config opened) ?_
      rintro (status | link) _ rfl
      · refine .plain (Settles.refl _ _ _).lives ?_
        rintro outcome ⟨⟩
        exact ⟨rfl, rfl⟩
      · refine .plain (Settles.refl _ _ _).lives ?_
        rintro outcome ⟨⟩
        exact ⟨rfl, rfl⟩
  | allocate allocator parentId =>
      exact gives_delivers rfl (bufferAllocate_alone allocator parentId well.slots)
  | allocEx link size headroom tailroom parent =>
      exact gives_delivers rfl (bufferAllocEx_alone link size headroom tailroom parent well.slots)
  | fromHandle handle owner =>
      simp only [ApiCall.program]
      rw [wps_bind]
      refine wps_mono (bufferFromHandle_alone handle owner well.slots) ?_
      rintro (status | v) m ⟨settles, fresh⟩
      · refine .plain settles.lives ?_
        rintro outcome ⟨⟩
        exact ⟨rfl, rfl⟩
      · refine ⟨settles.lives, ?_, ?_⟩
        · rintro outcome w ⟨⟩ ⟨⟩
          exact .inr (fresh v rfl)
        · rintro outcome r ⟨⟩ ⟨⟩
  | setRegion buffer offset length =>
      exact window_delivers (fun buffer => bufferSetRegion buffer offset length) well legal (fun _ same => by rw [same]; rfl)
        ⟨rfl, rfl⟩ fun _ fits within => bufferSetRegion_focused rfl fits within
  | append buffer bytes =>
      exact window_delivers (fun buffer => bufferAppend buffer bytes) well legal (fun _ same => by rw [same]; rfl)
        ⟨rfl, rfl⟩ fun _ fits within => bufferAppend_focused rfl fits within
  | prepend buffer bytes =>
      exact window_delivers (fun buffer => bufferPrepend buffer bytes) well legal (fun _ same => by rw [same]; rfl)
        ⟨rfl, rfl⟩ fun _ fits within => bufferPrepend_focused rfl fits within
  | trimFront buffer length =>
      exact window_delivers (fun buffer => bufferTrimFront buffer length) well legal (fun _ same => by rw [same]; rfl)
        ⟨rfl, rfl⟩ fun _ fits within => bufferTrimFront_focused rfl fits within
  | trimBack buffer length =>
      exact window_delivers (fun buffer => bufferTrimBack buffer length) well legal (fun _ same => by rw [same]; rfl)
        ⟨rfl, rfl⟩ fun _ fits within => bufferTrimBack_focused rfl fits within
  | resize buffer size =>
      exact window_delivers (fun buffer => bufferResize buffer size) well legal (fun _ same => by rw [same]; rfl)
        ⟨rfl, rfl⟩ fun _ fits within => bufferResize_focused rfl fits within
  | setLimits buffer hopLimit deadline =>
      simp only [ApiCall.program]
      rw [wps_bind]
      cases buffer with
      | none =>
          refine .plain (Settles.refl _ _ _).lives ?_
          rintro outcome ⟨⟩
          exact ⟨rfl, rfl⟩
      | some v =>
          have known := legal v rfl
          refine wps_mono (bufferSetLimits_alone hopLimit deadline (well.views v known)) ?_
          intro status m settles
          refine ⟨settles.lives, ?_, ?_⟩
          · rintro outcome w ⟨⟩ has
            exact .inl ⟨v, known, v.keeps w has⟩
          · rintro outcome r ⟨⟩ ⟨⟩
  | prepareTransfer handle owner next =>
      simp only [ApiCall.program]
      rw [wps_bind]
      refine wps_mono (prepare_alone handle owner next 0 well.slots) ?_
      rintro (status | message) m ⟨settles, _, _⟩
      · refine .plain settles.lives ?_
        rintro outcome ⟨⟩
        exact ⟨rfl, rfl⟩
      · refine .plain settles.lives ?_
        rintro outcome ⟨⟩
        exact ⟨rfl, rfl⟩
  | send link buffer =>
      cases buffer with
      | none => exact nothing_delivers ⟨rfl, rfl⟩
      | some v =>
          have known := legal.2 v rfl
          exact edits_delivers known (send_alone link (well.views v known) well.slots)
  | claim message receiver =>
      refine bufferOutcome_delivers (wps_mono (bufferClaim_alone message receiver (fun _ => False)
        well.slots) ?_)
      rintro result m ⟨settles, fresh⟩
      exact ⟨settles.lives, fun v has => .inr (fresh v has).2.1⟩
  | recv link fuel =>
      simp only [ApiCall.program]
      rw [wps_bind]
      refine wps_mono (recv_alone link fuel well.slots) ?_
      rintro (_ | ⟨status, buffer⟩) m ends
      · refine .plain ends.lives ?_
        rintro outcome ⟨⟩
      · refine ⟨ends.1.lives, ?_, ?_⟩
        · rintro outcome v ⟨⟩ has
          exact .inr (ends.2 v has).2.1
        · rintro outcome r ⟨⟩ ⟨⟩
  | poolRelease handle owner =>
      simp only [ApiCall.program]
      rw [wps_bind]
      refine wps_mono (poolBufferRelease_alone handle owner well.slots) fun status m settles => ?_
      refine .plain settles.lives ?_
      rintro outcome ⟨⟩
      exact ⟨rfl, rfl⟩
  | release buffer =>
      cases buffer with
      | none => exact nothing_delivers ⟨rfl, rfl⟩
      | some v => exact edits_delivers (legal v rfl) (bufferRelease_alone v well.slots)
  | put link buffer =>
      cases buffer with
      | none => exact nothing_delivers ⟨rfl, rfl⟩
      | some v => exact edits_delivers (legal.2 v rfl) (bufferPut_alone link v well.slots)
  | restartNext restart =>
      have sound := well.restarts restart legal
      simp only [ApiCall.program]
      rw [wps_bind]
      refine wps_mono (componentRestartNext_alone sound well.slots) ?_
      rintro ⟨status, restart', buffer⟩ m adopts
      refine ⟨adopts.lives, ?_, ?_⟩
      · rintro outcome v ⟨⟩ has
        exact .inr (adopts.fresh v has).2.1
      · rintro outcome r ⟨⟩ ⟨⟩
        obtain ⟨cursor, scanComplete, kept⟩ := adopts.kept
        simp only at kept
        rw [kept]
        exact ⟨sound.valid, sound.dead, sound.epoch, sound.small⟩
  | recoverOwner component deadEpoch minimumAgeNs =>
      simp only [ApiCall.program]
      rw [wps_bind]
      refine wps_mono (poolRecoverOwner_alone component deadEpoch minimumAgeNs well.slots) ?_
      intro result m settles
      refine .plain settles.lives ?_
      rintro outcome ⟨⟩
      exact ⟨rfl, rfl⟩
  | recoverClaiming =>
      simp only [ApiCall.program]
      rw [wps_bind]
      refine wps_mono (poolRecoverClaiming_alone well.slots) fun result m settles => ?_
      refine .plain settles.lives ?_
      rintro outcome ⟨⟩
      exact ⟨rfl, rfl⟩
  | reconcile link restart fuel =>
      have sound := well.restarts restart legal.2
      simp only [ApiCall.program]
      rw [wps_bind]
      refine wps_mono (linkReconcile_alone fuel sound well.slots) fun result m settles => ?_
      refine .plain settles.lives ?_
      intro outcome same
      obtain ⟨ended, _, rfl⟩ := Option.map_eq_some_iff.mp same
      exact ⟨rfl, rfl⟩

end Delivery

/-! ## Invariants of a session -/

section Invariants

variable {pool : Pool} {s s' : Session} {ok : Session → Session → Prop}

/-- Rewriting the payload of a valid buffer is a step in the life of its slot. -/
theorem fill_settles {v : View} (placed : ViewWell pool v) (well : PoolWell pool s.mem)
    (valid : Valid s.mem v) (bytes : Nat → Nat) :
    Settles pool (ownerReach v.owner) s.mem (s.mem.fill v bytes) := by
  have core : (s.mem.fill v bytes).core v.slotId =
      { s.mem.core v.slotId with payload := bytes } := by
    simp [Mem.core, Mem.fill, SlotControl.core]
  have focus : Focus s.mem v.slotId { s.mem.core v.slotId with payload := bytes } []
      (s.mem.fill v bytes) := by
    refine ⟨core, fun j other => ?_, by simp [Mem.fill], fun _ => rfl, rfl, rfl⟩
    simp [Mem.core, Mem.fill, other]
  exact focus.settles placed.inside ⟨valid.state, valid.owner⟩
    (.window valid.state (well _ placed.inside).region Quiet.nil) rfl

/-- What happens to the pool in one step of a session. -/
theorem Session.Step.lives (step : s.Step pool s') (well : SessionWell pool s) :
    ∃ reach, Lives pool reach s.mem s'.mem := by
  cases step with
  | call legal run => exact ⟨_, (run.sound (ApiCall.delivers well legal).wp).lives⟩
  | @fill v bytes known valid =>
      exact ⟨_, (fill_settles (well.views v known) well.slots valid bytes).lives⟩
  | tick clock =>
      have renews : Renews s.mem { s.mem with clock } := ⟨fun _ => rfl, rfl, fun _ => le_rfl, rfl⟩
      exact ⟨noReach, renews.settles.lives⟩

/-- A buffer of a session after a step was there before, up to its window, or is valid. -/
theorem Session.Step.returns (step : s.Step pool s') (well : SessionWell pool s) {v : View}
    (known : v ∈ s'.views) : Returns pool s s'.mem v := by
  have kept (old : v ∈ s.views) (m : Mem) : Returns pool s m v :=
    .inl ⟨v, old, v.data, v.length, rfl⟩
  cases step with
  | @call call outcome m legal run =>
      rcases List.mem_append.mp known with new | old
      · exact (run.sound (ApiCall.delivers well legal).wp).views outcome v rfl
          (Option.mem_toList.mp new)
      · exact kept old _
  | fill => exact kept known _
  | tick => exact kept known _

theorem Returns.well {v : View} {m : Mem} (returns : Returns pool s m v)
    (well : SessionWell pool s) : ViewWell pool v := by
  rcases returns with ⟨w, known, data, length, rfl⟩ | fresh
  · exact ⟨(well.views w known).slot, (well.views w known).inside, (well.views w known).capacity⟩
  · exact fresh.well

theorem SessionWell.step (well : SessionWell pool s) (step : s.Step pool s') :
    SessionWell pool s' := by
  obtain ⟨reach, lives⟩ := step.lives well
  refine ⟨lives.well well.slots, fun v known => (step.returns well known).well well, ?_⟩
  cases step with
  | @call call outcome m legal run =>
      intro r known
      rcases List.mem_append.mp known with new | old
      · exact (run.sound (ApiCall.delivers well legal).wp).restarts outcome r rfl
          (Option.mem_toList.mp new)
      · exact well.restarts r old
  | fill => exact well.restarts
  | tick => exact well.restarts

theorem Session.Starts.well (starts : s.Starts pool) : SessionWell pool s := by
  obtain ⟨formatted, closed, _, views, _, restarts⟩ := starts
  refine ⟨fun i inside => ?_, fun v known => ?_, fun r known => ?_⟩
  · have slot : (s.mem.core i) = formattedSlot.core (s.mem.access i) (s.mem.payload i) := by
      rw [Mem.core, formatted.slots inside]
    rw [slot]
    have zero : (0 : Nat) < u32 := by decide
    exact ⟨zero, fun _ strict => closed strict i, rfl, rfl, rfl, rfl⟩
  · rw [views] at known
    cases known
  · rw [restarts] at known
    cases known

theorem Session.Leads.well (leads : s.Leads pool ok s') (well : SessionWell pool s) :
    SessionWell pool s' := by
  induction leads with
  | refl => exact well
  | tail _ step ih => exact ih.step step.1

theorem Session.Reached.well (reached : s.Reached pool ok) : SessionWell pool s := by
  obtain ⟨start, starts, leads⟩ := reached
  exact leads.well starts.well

/-- What holds at the start and is kept by every step holds in every session reached. -/
theorem Session.Reached.invariant {I : Session → Prop} (reached : s.Reached pool ok)
    (init : ∀ s, s.Starts pool → I s)
    (step : ∀ s s', SessionWell pool s → s.Step pool s' → ok s s' → I s → I s') : I s := by
  obtain ⟨start, starts, leads⟩ := reached
  induction leads with
  | refl => exact init start starts
  | tail before last ih => exact step _ _ (Session.Leads.well before starts.well) last.1 last.2 ih

end Invariants

/-! ## Sessions to run -/

/-- The session after a call in which the environment gives every action its default. -/
def Session.run (pool : Pool) (s : Session) (call : ApiCall) : Session :=
  match (call.program pool).runWith default s.mem with
  | (some outcome, m) => s.after outcome m
  | (none, _) => s

/-- A call that ends completes with the session that `run` answers. -/
theorem Session.run_completes {pool : Pool} {s : Session} {call : ApiCall}
    (ends : ((call.program pool).runWith default s.mem).1.isSome = true) :
    ∃ outcome m, Completes (call.program pool) s.mem (some outcome) m ∧
      s.run pool call = s.after outcome m := by
  have completes := runWith_completes default (call.program pool) s.mem
  obtain ⟨outcome, result⟩ := Option.isSome_iff_exists.mp ends
  rw [result] at completes
  refine ⟨outcome, _, completes, ?_⟩
  simp only [Session.run]
  split
  · rename_i _ m same
    rw [same] at result ⊢
    cases result
    rfl
  · rename_i m same
    rw [same] at result
    cases result

theorem Session.run_step {pool : Pool} {s : Session} {call : ApiCall} (legal : call.Legal s)
    (ends : ((call.program pool).runWith default s.mem).1.isSome = true) :
    s.Step pool (s.run pool call) := by
  obtain ⟨outcome, m, completes, next⟩ := Session.run_completes ends
  rw [next]
  exact .call legal completes

/-- A formatted pool, just attached. -/
def attached : Session := ⟨poolFormat smallPool default, [], [], []⟩

theorem attached_starts : attached.Starts smallPool :=
  ⟨⟨default, rfl⟩, fun _ _ => rfl, rfl, rfl, rfl, rfl⟩

/-- Component 1 has registered. -/
def registeredSession : Session := attached.run smallPool (.life (.register 1 1))

/-- Component 1 has allocated the first slot. -/
def allocatedSession : Session := registeredSession.run smallPool (.allocate 1 0)

/-- The buffer that component 1 got. -/
def allocatedView : View :=
  { handle := handleMake 0 1, slotId := 0, data := 0, length := 0, capacity := 64, owner := 1,
    ownerEpoch := 1, poolId := 7 }

theorem registered_step : attached.Step smallPool registeredSession :=
  Session.run_step trivial (by decide)

theorem allocated_step : registeredSession.Step smallPool allocatedSession :=
  Session.run_step trivial (by decide)

theorem allocated_reached : allocatedSession.Reached smallPool anyStep := by
  have registered : attached.Leads smallPool anyStep registeredSession :=
    .single ⟨registered_step, trivial⟩
  exact ⟨attached, attached_starts, registered.tail ⟨allocated_step, trivial⟩⟩

theorem allocated_valid : Valid allocatedSession.mem allocatedView :=
  ⟨by decide, by decide, by decide, by decide, by decide⟩

end Zipc
