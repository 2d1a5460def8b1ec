import Zipc.Link

/-! # The typestate of a slot claim

Every call that changes the state of a slot goes through the same phases: it takes the
claim token, takes the state word into `CLAIMING`, works on the fields, stores the next
state and clears the token. The discipline below tracks these phases in any interleaving
of calls; that each call follows it is proved once, one call at a time.
-/

namespace Zipc

open Atomic

inductive SlotCall where
  | allocate (args : AllocateArgs) (ownerEpoch : Nat)
  | prepare (handle currentOwner nextOwner linkId : Nat)
  | claim (message : Message) (receiver : Nat)
  | release (handle currentOwner : Nat)
  | rollback (link : Link) (slotId : Nat) (message : Message)
  | register (fuel id : Nat)
  | unregister (fuel id epoch : Nat)
  /-- The clock moves on. -/
  | tick (clock : Nat)
  deriving DecidableEq

inductive SlotResult where
  | allocated (status : Status) (view : Option View)
  | prepared (result : Except Status Message)
  | claimed (status : Status) (view : Option View)
  | released (status : Status)
  | rolledBack (status : Status)
  | registered (result : Option (Except Status Nat))
  | unregistered (status : Option Status)
  | ticked

namespace SlotCall

def program (pool : Pool) : SlotCall → Prog SlotResult
  | .allocate args ownerEpoch => do
      let (status, view) ← bufferAllocateInternal pool args ownerEpoch
      pure (.allocated status view)
  | .prepare handle currentOwner nextOwner linkId => do
      let result ← bufferPrepareTransferInternal pool handle currentOwner nextOwner linkId
      pure (.prepared result)
  | .claim message receiver => do
      let (status, view) ← bufferClaim pool message receiver
      pure (.claimed status view)
  | .release handle currentOwner => do
      let status ← poolBufferRelease pool handle currentOwner
      pure (.released status)
  | .rollback link slotId message => do
      let status ← rollbackTransfer pool link slotId message
      pure (.rolledBack status)
  | .register fuel id => do
      let result ← componentRegister fuel id
      pure (.registered result)
  | .unregister fuel id epoch => do
      let status ← componentUnregister fuel id epoch
      pure (.unregistered status)
  | .tick clock => do
      .lift (.tick clock)
      pure .ticked

def kind : SlotCall → ClaimKind
  | .allocate _ _ => .allocate
  | .prepare _ _ _ _ => .send
  | .claim _ _ => .receive
  | .release _ _ => .release
  | .rollback _ _ _ => .rollback
  | .register _ _ | .unregister _ _ _ | .tick _ => .none

def component : SlotCall → Nat
  | .allocate args _ => args.allocator
  | .prepare _ currentOwner _ _ => currentOwner
  | .claim _ receiver => receiver
  | .release _ currentOwner => currentOwner
  | .rollback link _ _ => link.localComponent
  | .register _ id => id
  | .unregister _ id _ => id
  | .tick _ => 0

/-- The epoch that a call brings along; the others look it up. -/
def givenEpoch : SlotCall → Nat
  | .allocate _ ownerEpoch => ownerEpoch
  | .rollback link _ _ => link.localEpoch
  | _ => 0

/-- The claim token of a call at an epoch. -/
def token (l : SlotCall) (epoch : Nat) : Nat := claimTokenMake l.kind l.component epoch

/-- The generation that the handle of a release or a transfer names. -/
def generation : SlotCall → Option Nat
  | .prepare handle _ _ _ => some (handleGeneration handle)
  | .release handle _ => some (handleGeneration handle)
  | _ => none

def allocates : SlotCall → Bool
  | .allocate _ _ => true
  | _ => false

def releases : SlotCall → Bool
  | .release _ _ => true
  | _ => false

/-- The state that a call publishes only for the generation of its handle. -/
def guarded : SlotCall → Option SlotState
  | .prepare _ _ _ _ => some .transfer
  | .release _ _ => some .free
  | _ => none

end SlotCall

/-- The phase of a call, with the epoch of its token. -/
inductive SlotMode where
  /-- No token yet; `tested` is a slot whose generation was seen to match the handle. -/
  | outside (epoch : Nat) (tested : Option Nat)
  /-- The token of slot `i` is taken, its state not yet. -/
  | acquired (i epoch : Nat) (tested : Option Nat)
  /-- The state was lost to another call; the token is still to be cleared. -/
  | lost (i epoch : Nat)
  /-- Between winning the state into `CLAIMING` and the next store to it. -/
  | held (i epoch : Nat) (confirmed : Bool)
  /-- The next state is stored; the token is still to be cleared. -/
  | published (i epoch : Nat) (state : SlotState)
  deriving Repr, DecidableEq

def SlotMode.holds (i : Nat) : SlotMode → Bool
  | .held j _ _ => j = i
  | _ => false

/-- The fields that a call saves for recovery before it holds the slot. -/
def SlotWrite.saved : SlotWrite → Bool
  | .claimPreviousSequence _ | .claimPreviousRegionOffset _ | .claimPreviousRegionLength _
  | .claimPreviousOwner _ | .claimPreviousOwnerEpoch _ => true
  | _ => false

def SlotWrite.isGeneration : SlotWrite → Bool
  | .generation _ => true
  | _ => false

def slotPermits (l : SlotCall) (m : SlotMode) {β : Type} : Act β → Prop
  | .loadState _ | .loadToken _ | .loadGeneration _ | .read _ _ | .loadCursor | .storeCursor _
  | .count _ | .protect _ _ | .now | .generateBufferId _ | .hookSlot _ _ _ _ _ | .hook _ => True
  | .loadLifecycle component => match m with
      | .outside _ _ => component = l.component
      | _ => False
  | .write i w => w.saved = true ∨
      m.holds i = true ∧ (w.isGeneration = true → l.allocates = true)
  | .casToken i _ desired => match m with
      | .outside epoch _ => desired = l.token epoch ∧ l.kind ≠ .none
      | .lost j _ => j = i ∧ desired = 0
      | .published j _ _ => j = i ∧ desired = 0
      | _ => False
  | .casState i expected desired => match m with
      | .acquired j _ _ => j = i ∧ desired = .claiming ∧ expected ≠ .claiming ∧
          (l.allocates = true → expected = .free)
      | _ => False
  | .storeState i state => match m with
      | .held j _ confirmed => j = i ∧ state ≠ .claiming ∧
          (l.guarded = some state → confirmed = true)
      | _ => False
  | .tick _ | .casLifecycle _ _ _ _ | .storeHeartbeat _ _ => l.kind = .none
  | _ => False

def slotNext (l : SlotCall) (m : SlotMode) {β : Type} : Act β → β → SlotMode
  | .loadLifecycle _, lifecycle => match m with
      | .outside _ tested => .outside (epochOf lifecycle) tested
      | _ => m
  | .loadGeneration j, generation => match m with
      | .outside epoch _ =>
          .outside epoch (if l.generation = some generation then some j else none)
      | .held i epoch confirmed =>
          .held i epoch (confirmed || decide (j = i ∧ l.generation = some generation))
      | _ => m
  | .casToken i expected _, found => match m with
      | .outside epoch tested => if found = expected then .acquired i epoch tested else m
      | .lost _ epoch => .outside epoch none
      | _ => m
  | .casState _ _ _, won => match m with
      | .acquired i epoch tested =>
          if won then .held i epoch (l.releases && decide (tested = some i)) else .lost i epoch
      | _ => m
  | .storeState _ state, _ => match m with
      | .held i epoch _ => .published i epoch state
      | _ => m
  | _, _ => m

/-- A call that succeeded has published the state that it was called for. -/
def slotEnds (l : SlotCall) (m : SlotMode) : SlotResult → Prop
  | .allocated .ok (some v) => l.allocates = true ∧ ∃ epoch, m = .published v.slotId epoch .owned
  | .prepared (.ok message) => ∃ epoch, m = .published (handleSlotId message.handle) epoch .transfer
  | .released .ok => ∃ i epoch, m = .published i epoch .free
  | _ => True

def slotDiscipline : Discipline Act SlotCall SlotMode where
  start l := .outside l.givenEpoch none
  permits l m action := slotPermits l m action
  next l m action answer := slotNext l m action answer

def slotSystem (pool : Pool) : System Act SlotCall SlotMode SlotResult :=
  ⟨SlotCall.program pool, slotDiscipline⟩

abbrev SlotConfig := Config Act Mem SlotCall SlotMode SlotResult
abbrev SlotEvent := Event Act SlotCall SlotMode

section Follows

open Program

variable {l : SlotCall} {m : SlotMode} {α β : Type}

@[simp] theorem slotDiscipline_permits (m : SlotMode) (action : Act β) :
    slotDiscipline.permits l m action = slotPermits l m action := rfl

@[simp] theorem slotDiscipline_next (m : SlotMode) (action : Act β) (answer : β) :
    slotDiscipline.next l m action answer = slotNext l m action answer := rfl

/-! ## Steps that keep the phase -/

theorem write_follows {i : Nat} {w : SlotWrite} {next : Unit → Prog α} {Q : SlotMode → α → Prop}
    (permitted : w.saved = true ∨ m.holds i = true ∧ (w.isGeneration = true → l.allocates = true))
    (rest : (next ()).Follows slotDiscipline l Q m) :
    (Program.act (.write i w) next).Follows slotDiscipline l Q m :=
  ⟨permitted, fun _ => rest⟩

theorem read_follows {τ : Type} {i : Nat} {field : SlotControl → τ} {next : τ → Prog α}
    {Q : SlotMode → α → Prop} (rest : ∀ a, (next a).Follows slotDiscipline l Q m) :
    (Program.act (.read i field) next).Follows slotDiscipline l Q m :=
  ⟨trivial, rest⟩

theorem writeAll_stays {i : Nat} (holds : m.holds i = true) (ws : List SlotWrite)
    (plain : ∀ w, w ∈ ws → w.isGeneration = false) :
    (writeAll i ws).Stays slotDiscipline l m (fun _ => True) := by
  induction ws with
  | nil => exact ⟨rfl, trivial⟩
  | cons w ws ih =>
      simp only [writeAll, lift_bind]
      refine write_follows (.inr ⟨holds, ?_⟩) (ih ?_)
      · rw [plain w List.mem_cons_self]
        exact nofun
      · exact fun v member => plain v (List.mem_cons_of_mem w member)

theorem traceSlot_stays {pool : Pool} {i component : Nat} {event : TraceEvent}
    (holds : m.holds i = true) :
    (traceSlot pool i component event).Stays slotDiscipline l m (fun _ => True) := by
  refine ⟨trivial, fun _ => ⟨trivial, fun _ => ⟨trivial, fun _ => ?_⟩⟩⟩
  exact write_follows (.inr ⟨holds, fun done => by cases done⟩)
    (write_follows (.inr ⟨holds, fun done => by cases done⟩) ⟨trivial, fun _ => ⟨rfl, trivial⟩⟩)

theorem recordProtocolError_stays {pool : Pool} {component : Nat} :
    (recordProtocolError pool component).Stays slotDiscipline l m (fun _ => True) :=
  ⟨trivial, fun _ => ⟨trivial, fun _ => ⟨trivial, fun _ => ⟨rfl, trivial⟩⟩⟩⟩

theorem recordSlotError_stays {pool : Pool} {i component : Nat} (holds : m.holds i = true) :
    (recordSlotError pool i component).Stays slotDiscipline l m (fun _ => True) :=
  ⟨trivial, fun _ => traceSlot_stays holds⟩

theorem protectSlot_stays {pool : Pool} {i : Nat} {readWrite : Bool} :
    (protectSlot pool i readWrite).Stays slotDiscipline l m (fun _ => True) := by
  simp only [protectSlot]
  split
  · exact ⟨rfl, trivial⟩
  split
  · exact ⟨rfl, trivial⟩
  · exact ⟨trivial, fun _ => ⟨rfl, trivial⟩⟩

theorem ownedBy_stays {i owner epoch : Nat} :
    (ownedBy i owner epoch).Stays slotDiscipline l m (fun _ => True) := by
  simp only [ownedBy, lift_bind]
  refine ⟨trivial, fun id => ?_⟩
  simp only [slotDiscipline_next, slotNext]
  split
  · exact ⟨rfl, trivial⟩
  · exact ⟨trivial, fun _ => ⟨rfl, trivial⟩⟩

theorem makeView_stays {pool : Pool} {slotId handle : Nat} :
    (makeView pool slotId handle).Stays slotDiscipline l m
      (fun result => ∀ v, result = .ok v → v.slotId = slotId) := by
  simp only [makeView, lift_bind]
  refine ⟨trivial, fun offset => ⟨trivial, fun length => ?_⟩⟩
  simp only [slotDiscipline_next, slotNext]
  split
  · exact ⟨rfl, nofun⟩
  · refine ⟨trivial, fun owner => ⟨trivial, fun epoch => ⟨rfl, ?_⟩⟩⟩
    rintro v ⟨⟩
    rfl

theorem limitsExceeded_stays {i : Nat} :
    (limitsExceeded i).Stays slotDiscipline l m (fun _ => True) := by
  simp only [limitsExceeded, lift_bind]
  refine ⟨trivial, fun time => ⟨trivial, fun deadline => ?_⟩⟩
  simp only [slotDiscipline_next, slotNext]
  split
  · exact ⟨rfl, trivial⟩
  · refine ⟨trivial, fun limit => ?_⟩
    simp only [slotDiscipline_next, slotNext]
    split
    · exact ⟨rfl, trivial⟩
    · exact ⟨trivial, fun hops => ⟨rfl, trivial⟩⟩

/-! ## Phase changes -/

theorem registeredEpoch_follows {component : Nat} {next : Nat → Prog α}
    {Q : SlotMode → α → Prop} {epoch : Nat} {tested : Option Nat}
    (valid : componentIdValid component = true) (own : component = l.component)
    (rest : ∀ current, (next current).Follows slotDiscipline l Q (.outside current tested)) :
    (registeredEpoch component >>= next).Follows slotDiscipline l Q (.outside epoch tested) := by
  simp only [registeredEpoch, valid, if_true]
  exact ⟨own, fun lifecycle => rest (epochOf lifecycle)⟩

/-- Publishing a state of a held slot. -/
theorem publish_follows {i epoch claim : Nat} {confirmed : Bool} {state : SlotState}
    {next : Unit → Prog α} {Q : SlotMode → α → Prop} (proper : state ≠ .claiming)
    (guard : l.guarded = some state → confirmed = true)
    (rest : (next ()).Follows slotDiscipline l Q (.published i epoch state)) :
    (publish i state claim >>= next).Follows slotDiscipline l Q (.held i epoch confirmed) :=
  ⟨⟨rfl, proper, guard⟩, fun _ => ⟨⟨rfl, rfl⟩, fun _ => rest⟩⟩

theorem freeClaimingSlot_follows {i epoch : Nat} {confirmed : Bool} {next : Unit → Prog α}
    {Q : SlotMode → α → Prop} (guard : l.guarded ≠ some .free)
    (rest : (next ()).Follows slotDiscipline l Q (.published i epoch .free)) :
    (freeClaimingSlot i >>= next).Follows slotDiscipline l Q (.held i epoch confirmed) := by
  have holds : (SlotMode.held i epoch confirmed).holds i = true := by simp [SlotMode.holds]
  simp only [freeClaimingSlot, lift_bind, act_bind]
  refine ⟨trivial, fun token => ?_⟩
  simp only [slotDiscipline_next, slotNext]
  rw [follows_bind]
  refine (writeAll_stays holds _ (by simp [SlotWrite.isGeneration])).bind fun _ _ => ?_
  rw [← follows_bind]
  exact publish_follows nofun (fun free => absurd free guard) rest

/-! ## The calls -/

section Allocate

variable {pool : Pool} {args : AllocateArgs} {given slotId epoch : Nat} {confirmed : Bool}

/-- How an allocation ends: it has published the slot of its view, or has no view. -/
def allocateEnds (l : SlotCall) (m : SlotMode) (result : Status × Option View) : Prop :=
  slotEnds l m (.allocated result.1 result.2)

theorem enablePayload_stays :
    (enablePayload pool args slotId).Stays slotDiscipline l m (fun _ => True) := by
  simp only [enablePayload]
  split
  · exact protectSlot_stays
  · exact ⟨rfl, trivial⟩

theorem allocateEnds_none (m : SlotMode) (status : Status) : allocateEnds l m (status, none) := by
  cases status <;> trivial

theorem allocateAbort_follows {revoke : Bool} {status : Status} :
    (allocateAbort pool args.allocator slotId revoke status).Follows slotDiscipline
      (.allocate args given) (allocateEnds (.allocate args given)) (.held slotId epoch confirmed) := by
  have holds : (SlotMode.held slotId epoch confirmed).holds slotId = true := by
    simp [SlotMode.holds]
  simp only [allocateAbort]
  refine (traceSlot_stays holds).bind fun _ _ => ?_
  split
  · refine protectSlot_stays.bind fun _ _ => ?_
    exact freeClaimingSlot_follows nofun ⟨trivial, fun _ => allocateEnds_none _ _⟩
  · exact freeClaimingSlot_follows nofun ⟨trivial, fun _ => allocateEnds_none _ _⟩

theorem allocateClaimed_follows {token : Nat} :
    (allocateClaimed pool args epoch token slotId).Follows slotDiscipline
      (.allocate args given) (allocateEnds (.allocate args given)) (.held slotId epoch confirmed) := by
  have holds (c : Bool) : (SlotMode.held slotId epoch c).holds slotId = true := by
    simp [SlotMode.holds]
  simp only [allocateClaimed, lift_bind]
  refine ⟨trivial, fun old => ?_⟩
  simp only [slotDiscipline_next, slotNext]
  refine write_follows (.inr ⟨holds _, fun _ => rfl⟩) ?_
  refine (writeAll_stays (holds _) _ (by simp [allocateFields, SlotWrite.isGeneration])).bind
    fun _ _ => ?_
  refine ⟨trivial, fun acquired => ?_⟩
  refine write_follows (.inr ⟨holds _, nofun⟩) (write_follows (.inr ⟨holds _, nofun⟩) ?_)
  refine (writeAll_stays (holds _) _ (by simp [allocateResets, SlotWrite.isGeneration])).bind
    fun _ _ => ?_
  refine ⟨trivial, fun fresh => ?_⟩
  cases fresh with
  | error status => exact allocateAbort_follows
  | ok id =>
      refine write_follows (.inr ⟨holds _, nofun⟩) ?_
      refine enablePayload_stays.bind fun status _ => ?_
      split
      · exact allocateAbort_follows
      · refine makeView_stays.bind fun view slot => ?_
        cases view with
        | error failure => exact allocateAbort_follows
        | ok v =>
            refine (traceSlot_stays (holds _)).bind fun _ _ => ?_
            refine publish_follows nofun nofun ?_
            refine ⟨trivial, fun _ => ⟨trivial, fun _ => ⟨rfl, epoch, ?_⟩⟩⟩
            rw [slot v rfl]
            rfl

theorem allocateTry_follows {token : Nat} (own : token = (SlotCall.allocate args given).token epoch) :
    (allocateTry pool args epoch token slotId).Follows slotDiscipline (.allocate args given)
      (fun m result => match result with
        | some ended => allocateEnds (.allocate args given) m ended
        | none => m = .outside epoch none) (.outside epoch none) := by
  simp only [allocateTry, lift_bind]
  refine ⟨trivial, fun state => ?_⟩
  simp only [slotDiscipline_next, slotNext]
  split
  · rfl
  refine ⟨⟨own, nofun⟩, fun observed => ?_⟩
  simp only [slotDiscipline_next, slotNext]
  by_cases taken : observed = 0
  swap
  · rw [if_pos taken, if_neg taken]
    rfl
  rw [if_neg (not_not_intro taken), if_pos taken]
  refine ⟨⟨rfl, rfl, nofun, fun _ => rfl⟩, fun won => ?_⟩
  simp only [slotDiscipline_next, slotNext]
  cases won with
  | false => exact ⟨⟨rfl, rfl⟩, fun _ => rfl⟩
  | true =>
      rw [if_neg (by decide), follows_bind]
      exact follows_mono allocateClaimed_follows (fun _ _ ends => ends)

theorem allocateScan_follows {token start : Nat}
    (own : token = (SlotCall.allocate args given).token epoch) (left : Nat) : ∀ n,
    (allocateScan pool args epoch token start left n).Follows slotDiscipline
      (.allocate args given) (allocateEnds (.allocate args given)) (.outside epoch none) := by
  induction left with
  | zero =>
      intro n
      exact ⟨trivial, fun _ => trivial⟩
  | succ left ih =>
      intro n
      rw [allocateScan, follows_bind]
      refine follows_mono (allocateTry_follows own) ?_
      intro m tried ends
      cases tried with
      | some result => exact ends
      | none =>
          subst ends
          exact ih (n + 1)

theorem allocate_follows :
    (SlotCall.program pool (.allocate args given)).Follows slotDiscipline
      (.allocate args given) (slotEnds (.allocate args given)) (.outside given none) := by
  simp only [SlotCall.program]
  rw [follows_bind]
  simp only [bufferAllocateInternal]
  split
  · trivial
  rename_i legal
  simp only [not_or, Bool.not_eq_false] at legal
  simp only [allocateEpoch]
  split
  · exact ⟨trivial, fun cursor => allocateScan_follows rfl _ _⟩
  · exact registeredEpoch_follows legal.1 rfl
      (fun current => ⟨trivial, fun cursor => allocateScan_follows rfl _ _⟩)

end Allocate

section Prepare

variable {pool : Pool} {handle owner nextOwner linkId epoch : Nat}

def prepareEnds (l : SlotCall) (m : SlotMode) (result : Except Status Message) : Prop :=
  slotEnds l m (.prepared result)

theorem prepareTransfer_follows {claim : Nat} :
    (prepareTransfer pool handle (handleSlotId handle) owner nextOwner linkId claim).Follows
      slotDiscipline (.prepare handle owner nextOwner linkId)
      (prepareEnds (.prepare handle owner nextOwner linkId))
      (.held (handleSlotId handle) epoch true) := by
  have holds : (SlotMode.held (handleSlotId handle) epoch true).holds (handleSlotId handle) =
      true := by
    simp [SlotMode.holds]
  have plain {w : SlotWrite} (kept : w.isGeneration = false) : w.saved = true ∨
      (SlotMode.held (handleSlotId handle) epoch true).holds (handleSlotId handle) = true ∧
        (w.isGeneration = true →
          (SlotCall.prepare handle owner nextOwner linkId).allocates = true) := by
    refine .inr ⟨holds, fun impossible => ?_⟩
    rw [kept] at impossible
    cases impossible
  simp only [prepareTransfer, lift_bind]
  refine write_follows (plain rfl) (write_follows (plain rfl) (write_follows (plain rfl) ?_))
  refine read_follows fun _ => write_follows (plain rfl) ?_
  refine read_follows fun _ => write_follows (plain rfl) ?_
  refine read_follows fun _ => write_follows (plain rfl) ?_
  refine read_follows fun _ => write_follows (plain rfl) ?_
  refine read_follows fun _ => write_follows (plain rfl) ?_
  refine (traceSlot_stays holds).bind fun _ _ => ?_
  exact publish_follows nofun (fun _ => rfl) ⟨epoch, rfl⟩

theorem prepareClaimed_follows {ownerEpoch claim : Nat} :
    (prepareClaimed pool handle (handleSlotId handle) owner nextOwner linkId ownerEpoch
      claim).Follows slotDiscipline (.prepare handle owner nextOwner linkId)
      (prepareEnds (.prepare handle owner nextOwner linkId))
      (.held (handleSlotId handle) epoch false) := by
  simp only [prepareClaimed, lift_bind]
  refine ⟨trivial, fun generation => ?_⟩
  simp only [slotDiscipline_next, slotNext]
  split
  · refine publish_follows nofun nofun (recordProtocolError_stays.bind fun _ _ => trivial)
  rename_i same
  rw [not_not] at same
  have named : (SlotCall.prepare handle owner nextOwner linkId).generation = some generation := by
    rw [same]
    rfl
  simp only [named, and_self, decide_true, Bool.or_true]
  have holds : (SlotMode.held (handleSlotId handle) epoch true).holds (handleSlotId handle) =
      true := by
    simp [SlotMode.holds]
  refine ownedBy_stays.bind fun owned _ => ?_
  split
  · exact publish_follows nofun nofun (recordProtocolError_stays.bind fun _ _ => trivial)
  refine limitsExceeded_stays.bind fun exceeded _ => ?_
  cases exceeded with
  | some status =>
      exact (recordSlotError_stays holds).bind fun _ _ => publish_follows nofun nofun trivial
  | none =>
      refine protectSlot_stays.bind fun status _ => ?_
      split
      · exact (recordSlotError_stays holds).bind fun _ _ => publish_follows nofun nofun trivial
      · exact prepareTransfer_follows

theorem prepare_follows :
    (SlotCall.program pool (.prepare handle owner nextOwner linkId)).Follows slotDiscipline
      (.prepare handle owner nextOwner linkId)
      (slotEnds (.prepare handle owner nextOwner linkId)) (.outside epoch none) := by
  simp only [SlotCall.program]
  rw [follows_bind]
  simp only [bufferPrepareTransferInternal]
  split
  · trivial
  rename_i legal
  simp only [not_or, Bool.not_eq_false] at legal
  split
  · exact recordProtocolError_stays.bind fun _ _ => trivial
  refine registeredEpoch_follows legal.1 rfl fun current => ?_
  simp only [lift_bind]
  refine ⟨trivial, fun state => ?_⟩
  simp only [slotDiscipline_next, slotNext]
  split
  · exact recordProtocolError_stays.bind fun _ _ => trivial
  refine ⟨trivial, fun generation => ?_⟩
  simp only [slotDiscipline_next, slotNext]
  generalize (if (SlotCall.prepare handle owner nextOwner linkId).generation = some generation
    then some (handleSlotId handle) else none) = tested
  split
  · exact recordProtocolError_stays.bind fun _ _ => trivial
  refine ownedBy_stays.bind fun owned _ => ?_
  split
  · exact recordProtocolError_stays.bind fun _ _ => trivial
  refine read_follows fun sequence => write_follows (.inl rfl) ?_
  refine ⟨⟨rfl, nofun⟩, fun observed => ?_⟩
  simp only [slotDiscipline_next, slotNext]
  by_cases empty : observed = 0
  swap
  · rw [if_pos empty]
    trivial
  rw [if_neg (not_not_intro empty), if_pos empty]
  refine ⟨⟨rfl, rfl, nofun, nofun⟩, fun won => ?_⟩
  simp only [slotDiscipline_next, slotNext]
  cases won with
  | false => exact ⟨⟨rfl, rfl⟩, fun _ => recordProtocolError_stays.bind fun _ _ => trivial⟩
  | true => exact prepareClaimed_follows

end Prepare

section Claim

variable {pool : Pool} {message : Message} {receiver epoch : Nat} {confirmed : Bool}

theorem claimReject_follows {claim i : Nat} {status : Status} :
    (claimReject pool i receiver claim status).Follows slotDiscipline (.claim message receiver)
      (fun _ _ => True) (.held i epoch confirmed) :=
  publish_follows nofun nofun (recordProtocolError_stays.bind fun _ _ => trivial)

theorem claimAccept_follows {claim i receiverEpoch time : Nat} :
    (claimAccept pool message i receiver receiverEpoch time claim).Follows slotDiscipline
      (.claim message receiver) (fun _ _ => True) (.held i epoch confirmed) := by
  have holds : (SlotMode.held i epoch confirmed).holds i = true := by simp [SlotMode.holds]
  simp only [claimAccept, lift_bind]
  refine write_follows (.inr ⟨holds, nofun⟩) (write_follows (.inr ⟨holds, nofun⟩)
    (write_follows (.inr ⟨holds, nofun⟩) ?_))
  refine read_follows fun _ => write_follows (.inr ⟨holds, nofun⟩) ?_
  refine read_follows fun _ => write_follows (.inr ⟨holds, nofun⟩) ?_
  refine write_follows (.inr ⟨holds, nofun⟩) ?_
  refine protectSlot_stays.bind fun status _ => ?_
  split
  · refine (recordSlotError_stays holds).bind fun _ _ => ?_
    exact freeClaimingSlot_follows nofun trivial
  · refine makeView_stays.bind fun view _ => ?_
    cases view with
    | error failure =>
        refine (recordSlotError_stays holds).bind fun _ _ => ?_
        exact protectSlot_stays.bind fun _ _ => freeClaimingSlot_follows nofun trivial
    | ok v =>
        refine (traceSlot_stays holds).bind fun _ _ => ?_
        exact publish_follows nofun nofun trivial

theorem claimClaimed_follows {claim i receiverEpoch : Nat} :
    (claimClaimed pool message i receiver receiverEpoch claim).Follows slotDiscipline
      (.claim message receiver) (fun _ _ => True) (.held i epoch confirmed) := by
  simp only [claimClaimed, lift_bind]
  refine ⟨trivial, fun generation => ?_⟩
  simp only [slotDiscipline_next, slotNext]
  split
  · exact claimReject_follows
  refine read_follows fun owner => read_follows fun next => ?_
  split
  · exact claimReject_follows
  refine read_follows fun sequence => ?_
  split
  · exact claimReject_follows
  refine ⟨trivial, fun time => read_follows fun deadline => ?_⟩
  split
  · exact claimReject_follows
  refine read_follows fun limit => read_follows fun hops => ?_
  split
  · exact claimReject_follows
  · exact claimAccept_follows

theorem claimAcquire_follows {claim i : Nat} {tested : Option Nat}
    (own : claim = (SlotCall.claim message receiver).token epoch) :
    (claimAcquire i claim).Follows slotDiscipline (.claim message receiver)
      (fun m acquired => m = if acquired then .acquired i epoch tested else .outside epoch tested)
      (.outside epoch tested) := by
  simp only [claimAcquire, lift_bind]
  refine ⟨⟨own, nofun⟩, fun observed => ?_⟩
  simp only [slotDiscipline_next, slotNext]
  by_cases empty : observed = 0
  · rw [if_pos empty, if_pos empty]
    rfl
  rw [if_neg empty, if_neg empty]
  split
  · rfl
  refine ⟨trivial, fun state => ?_⟩
  simp only [slotDiscipline_next, slotNext]
  split
  · rfl
  refine ⟨⟨own, nofun⟩, fun found => ?_⟩
  simp only [slotDiscipline_next, slotNext]
  by_cases stolen : found = observed
  · simp [stolen, pure_eq]
  · simp [stolen, pure_eq]

theorem claim_follows :
    (SlotCall.program pool (.claim message receiver)).Follows slotDiscipline
      (.claim message receiver) (slotEnds (.claim message receiver)) (.outside epoch none) := by
  simp only [SlotCall.program]
  rw [follows_bind]
  refine follows_mono (R := _) (Q := fun _ _ => True) ?_ (fun _ _ _ => trivial)
  simp only [bufferClaim]
  split
  · trivial
  rename_i valid
  rw [Bool.not_eq_false] at valid
  split
  · exact recordProtocolError_stays.bind fun _ _ => trivial
  split
  · exact recordProtocolError_stays.bind fun _ _ => trivial
  split
  · exact recordProtocolError_stays.bind fun _ _ => trivial
  simp only [lift_bind]
  refine ⟨trivial, fun state => ?_⟩
  simp only [slotDiscipline_next, slotNext]
  split
  · exact recordProtocolError_stays.bind fun _ _ => trivial
  refine registeredEpoch_follows valid rfl fun current => ?_
  rw [follows_bind]
  refine follows_mono (claimAcquire_follows rfl) ?_
  rintro m acquired rfl
  cases acquired with
  | false => exact recordProtocolError_stays.bind fun _ _ => trivial
  | true =>
      refine ⟨⟨rfl, rfl, nofun, nofun⟩, fun won => ?_⟩
      cases won with
      | false => exact ⟨⟨rfl, rfl⟩, fun _ => recordProtocolError_stays.bind fun _ _ => trivial⟩
      | true => exact claimClaimed_follows

end Claim

section Release

variable {pool : Pool} {handle owner epoch : Nat}

theorem releaseClaimed_follows {ownerEpoch claim i : Nat} :
    (releaseClaimed pool i owner ownerEpoch claim).Follows slotDiscipline (.release handle owner)
      (fun m status => slotEnds (.release handle owner) m (.released status)) (.held i epoch true) := by
  have holds : (SlotMode.held i epoch true).holds i = true := by simp [SlotMode.holds]
  simp only [releaseClaimed]
  refine ownedBy_stays.bind fun same _ => ?_
  split
  · exact publish_follows nofun nofun trivial
  refine protectSlot_stays.bind fun status _ => ?_
  split
  · rename_i failed
    refine publish_follows nofun nofun ?_
    cases status <;> first | exact absurd rfl failed | trivial
  refine (traceSlot_stays holds).bind fun _ _ => ?_
  refine (writeAll_stays holds _ (by simp [SlotWrite.isGeneration])).bind fun _ _ => ?_
  exact publish_follows nofun (fun _ => rfl) ⟨trivial, fun _ => ⟨i, epoch, rfl⟩⟩

theorem release_follows :
    (SlotCall.program pool (.release handle owner)).Follows slotDiscipline
      (.release handle owner) (slotEnds (.release handle owner)) (.outside epoch none) := by
  simp only [SlotCall.program]
  rw [follows_bind]
  simp only [poolBufferRelease]
  split
  · trivial
  rename_i valid
  rw [Bool.not_eq_false] at valid
  split
  · trivial
  simp only [lift_bind]
  refine ⟨trivial, fun generation => ?_⟩
  simp only [slotDiscipline_next, slotNext]
  split
  · trivial
  rename_i same
  rw [not_not] at same
  have named : (SlotCall.release handle owner).generation = some generation := by
    rw [same]
    rfl
  rw [if_pos named]
  refine registeredEpoch_follows valid rfl fun current => ?_
  refine ⟨trivial, fun state => ?_⟩
  simp only [slotDiscipline_next, slotNext]
  split
  · trivial
  refine ownedBy_stays.bind fun owned _ => ?_
  split
  · trivial
  refine read_follows fun _ => write_follows (.inl rfl) ?_
  refine read_follows fun _ => write_follows (.inl rfl) ?_
  refine read_follows fun _ => write_follows (.inl rfl) ?_
  refine read_follows fun _ => write_follows (.inl rfl) ?_
  refine ⟨⟨rfl, nofun⟩, fun observed => ?_⟩
  simp only [slotDiscipline_next, slotNext]
  by_cases empty : observed = 0
  swap
  · rw [if_pos empty]
    trivial
  rw [if_neg (not_not_intro empty), if_pos empty]
  refine ⟨⟨rfl, rfl, nofun, nofun⟩, fun won => ?_⟩
  simp only [slotDiscipline_next, slotNext]
  cases won with
  | false => exact ⟨⟨rfl, rfl⟩, fun _ => trivial⟩
  | true => exact releaseClaimed_follows

end Release

section Rollback

variable {pool : Pool} {link : Link} {message : Message} {i epoch : Nat} {confirmed : Bool}

theorem rollbackMatches_stays :
    (rollbackMatches link message i).Stays slotDiscipline (.rollback link i message)
      (.held i epoch confirmed) (fun _ => True) := by
  simp only [rollbackMatches, lift_bind]
  refine ⟨trivial, fun generation => ?_⟩
  have unconfirmed : slotNext (.rollback link i message) (.held i epoch confirmed)
      (.loadGeneration i) generation = .held i epoch confirmed := by
    simp [slotNext, SlotCall.generation]
  simp only [slotDiscipline_next, unconfirmed]
  split
  · exact ⟨rfl, trivial⟩
  refine read_follows fun owner => ?_
  split
  · exact ⟨rfl, trivial⟩
  refine read_follows fun next => ?_
  split
  · exact ⟨rfl, trivial⟩
  · exact read_follows fun sequence => ⟨rfl, trivial⟩

theorem rollbackClaimed_follows {claim : Nat} :
    (rollbackClaimed pool link message i claim).Follows slotDiscipline
      (.rollback link i message) (fun _ _ => True) (.held i epoch confirmed) := by
  have holds : (SlotMode.held i epoch confirmed).holds i = true := by simp [SlotMode.holds]
  simp only [rollbackClaimed]
  refine rollbackMatches_stays.bind fun same _ => ?_
  split
  · exact publish_follows nofun nofun trivial
  refine write_follows (.inr ⟨holds, nofun⟩) (write_follows (.inr ⟨holds, nofun⟩)
    (write_follows (.inr ⟨holds, nofun⟩) ?_))
  refine protectSlot_stays.bind fun status _ => ?_
  split
  · trivial
  · exact publish_follows nofun nofun trivial

theorem rollback_follows :
    (SlotCall.program pool (.rollback link i message)).Follows slotDiscipline
      (.rollback link i message) (slotEnds (.rollback link i message)) (.outside link.localEpoch none) := by
  simp only [SlotCall.program]
  rw [follows_bind]
  refine follows_mono (R := _) (Q := fun _ _ => True) ?_ (fun _ _ _ => trivial)
  simp only [rollbackTransfer, lift_bind]
  refine ⟨trivial, fun state => ?_⟩
  simp only [slotDiscipline_next, slotNext]
  split
  · trivial
  refine write_follows (.inl rfl) ?_
  refine ⟨⟨rfl, nofun⟩, fun observed => ?_⟩
  simp only [slotDiscipline_next, slotNext]
  by_cases empty : observed = 0
  swap
  · rw [if_pos empty]
    trivial
  rw [if_neg (not_not_intro empty), if_pos empty]
  refine ⟨⟨rfl, rfl, nofun, nofun⟩, fun won => ?_⟩
  simp only [slotDiscipline_next, slotNext]
  cases won with
  | false => exact ⟨⟨rfl, rfl⟩, fun _ => trivial⟩
  | true => exact rollbackClaimed_follows

end Rollback

section Lifecycle

variable {id epoch : Nat} {tested : Option Nat}

theorem registerLoop_follows (used : l.kind = .none) (fuel : Nat) : ∀ current,
    (registerLoop id fuel current).Follows slotDiscipline l (fun _ _ => True)
      (.outside epoch tested) := by
  induction fuel with
  | zero =>
      intro current
      trivial
  | succ fuel ih =>
      intro current
      simp only [registerLoop]
      split
      · trivial
      · refine ⟨used, fun (won, found) => ?_⟩
        cases won with
        | true => exact ⟨trivial, fun _ => ⟨used, fun _ => trivial⟩⟩
        | false => exact ih found

theorem unregisterLoop_follows {dead : Nat} (used : l.kind = .none) (fuel : Nat) : ∀ current,
    (unregisterLoop id dead fuel current).Follows slotDiscipline l (fun _ _ => True)
      (.outside epoch tested) := by
  induction fuel with
  | zero =>
      intro current
      trivial
  | succ fuel ih =>
      intro current
      simp only [unregisterLoop]
      split
      · trivial
      · refine ⟨used, fun (won, found) => ?_⟩
        cases won with
        | true => trivial
        | false => exact ih found

theorem register_follows (pool : Pool) {fuel : Nat} :
    (SlotCall.program pool (.register fuel id)).Follows slotDiscipline (.register fuel id)
      (slotEnds (.register fuel id)) (.outside epoch none) := by
  simp only [SlotCall.program]
  rw [follows_bind]
  simp only [componentRegister]
  split
  · trivial
  · exact ⟨rfl, fun _ => registerLoop_follows rfl fuel _⟩

theorem unregister_follows (pool : Pool) {fuel dead : Nat} :
    (SlotCall.program pool (.unregister fuel id dead)).Follows slotDiscipline
      (.unregister fuel id dead) (slotEnds (.unregister fuel id dead)) (.outside epoch none) := by
  simp only [SlotCall.program]
  rw [follows_bind]
  simp only [componentUnregister]
  split
  · trivial
  · exact ⟨rfl, fun _ => unregisterLoop_follows rfl fuel _⟩

end Lifecycle

/-- Every call follows the claim typestate, whatever the other calls do. -/
theorem slotSystem_disciplined (pool : Pool) :
    (slotSystem pool).Disciplined slotEnds := by
  intro l
  cases l with
  | allocate args ownerEpoch => exact allocate_follows
  | prepare handle currentOwner nextOwner linkId => exact prepare_follows
  | claim message receiver => exact claim_follows
  | release handle currentOwner => exact release_follows
  | rollback link slotId message => exact rollback_follows
  | register fuel id => exact register_follows pool
  | unregister fuel id epoch => exact unregister_follows pool
  | tick clock => exact ⟨rfl, fun _ => trivial⟩

end Follows

/-! ## What a step can do -/

/-- The words of the claim protocol are the same in every slot. -/
def SameWords (s s' : Mem) : Prop :=
  ∀ i, (s'.slots i).state = (s.slots i).state ∧ (s'.slots i).claimToken = (s.slots i).claimToken ∧
    (s'.slots i).generation = (s.slots i).generation

theorem SameWords.refl (s : Mem) : SameWords s s := fun _ => ⟨rfl, rfl, rfl⟩

/-- The modes that a call can have before and after an action, and what the action
    leaves of the state, the token and the generation of the slots. -/
inductive SlotStep (l : SlotCall) (s : Mem) : SlotMode → SlotMode → Mem → Prop where
  | quiet {m : SlotMode} {s' : Mem} : SameWords s s' → SlotStep l s m m s'
  | epoch {old current : Nat} {tested : Option Nat} :
      SlotStep l s (.outside old tested) (.outside current tested) s
  | test {epoch j : Nat} {tested : Option Nat} :
      SlotStep l s (.outside epoch tested) (.outside epoch
        (if l.generation = some (s.slots j).generation then some j else none)) s
  | confirm {i epoch j : Nat} {confirmed : Bool} :
      SlotStep l s (.held i epoch confirmed) (.held i epoch (confirmed ||
        decide (j = i ∧ l.generation = some (s.slots j).generation))) s
  | renew {i epoch v : Nat} {confirmed : Bool} : l.allocates = true →
      SlotStep l s (.held i epoch confirmed) (.held i epoch confirmed)
        (s.setSlot i { s.slots i with generation := v })
  | acquire {i epoch : Nat} {tested : Option Nat} : l.kind ≠ .none →
      SlotStep l s (.outside epoch tested) (.acquired i epoch tested)
        (s.setSlot i { s.slots i with claimToken := l.token epoch })
  | win {i epoch : Nat} {tested : Option Nat} : (s.slots i).state ≠ .claiming →
      (l.allocates = true → (s.slots i).state = .free) →
      SlotStep l s (.acquired i epoch tested)
        (.held i epoch (l.releases && decide (tested = some i)))
        (s.setSlot i { s.slots i with state := .claiming })
  | lose {i epoch : Nat} {tested : Option Nat} :
      SlotStep l s (.acquired i epoch tested) (.lost i epoch) s
  | store {i epoch : Nat} {confirmed : Bool} {state : SlotState} : state ≠ .claiming →
      (l.guarded = some state → confirmed = true) →
      SlotStep l s (.held i epoch confirmed) (.published i epoch state)
        (s.setSlot i { s.slots i with state := state })
  | clearLost {i epoch : Nat} : SlotStep l s (.lost i epoch) (.outside epoch none)
      (s.setSlot i { s.slots i with claimToken := 0 })
  | keepLost {i epoch : Nat} : SlotStep l s (.lost i epoch) (.outside epoch none) s
  | clearPublished {i epoch : Nat} {state : SlotState} :
      SlotStep l s (.published i epoch state) (.published i epoch state)
        (s.setSlot i { s.slots i with claimToken := 0 })

theorem SlotWrite.apply_words (w : SlotWrite) (s : SlotControl) :
    (w.apply s).state = s.state ∧ (w.apply s).claimToken = s.claimToken ∧
      (w.isGeneration = false → (w.apply s).generation = s.generation) := by
  cases w <;> simp [SlotWrite.apply, SlotWrite.isGeneration]

theorem write_words {s : Mem} {i : Nat} {w : SlotWrite} (plain : w.isGeneration = false) :
    SameWords s (s.setSlot i (w.apply (s.slots i))) := by
  obtain ⟨state, token, generation⟩ := w.apply_words (s.slots i)
  intro j
  exact ⟨s.setSlot_proj (·.state) i state j, s.setSlot_proj (·.claimToken) i token j,
    s.setSlot_proj (·.generation) i (generation plain) j⟩

/-- Every permitted action is one of the steps. -/
theorem slotStep_of_permits {l : SlotCall} {m : SlotMode} {β : Type} {action : Act β} (s : Mem)
    (e : Env) (permitted : slotPermits l m action) :
    SlotStep l s m (slotNext l m action (action.exec e s).1) (action.exec e s).2 := by
  cases action with
  | loadLifecycle component =>
      cases m with
      | outside epoch tested => exact .epoch
      | _ => cases permitted
  | loadGeneration j =>
      cases m with
      | outside epoch tested => exact .test
      | held i epoch confirmed => exact .confirm
      | _ => exact .quiet (.refl s)
  | write i w =>
      cases renews : w.isGeneration with
      | false => exact .quiet (write_words renews)
      | true =>
          cases w with
          | generation v =>
              obtain impossible | ⟨holds, allocates⟩ := permitted
              · cases impossible
              · cases m with
                | held j epoch confirmed =>
                    have same : j = i := by simpa [SlotMode.holds] using holds
                    subst same
                    exact .renew (allocates rfl)
                | _ => cases holds
          | _ => cases renews
  | casToken i expected desired =>
      cases m with
      | outside epoch tested =>
          obtain ⟨rfl, proper⟩ := permitted
          by_cases found : (s.slots i).claimToken = expected
          · simp only [Act.exec, slotNext, found, if_true]
            exact .acquire proper
          · simp only [Act.exec, slotNext, found, if_false]
            exact .quiet (.refl s)
      | lost j epoch =>
          obtain ⟨rfl, rfl⟩ := permitted
          by_cases found : (s.slots j).claimToken = expected
          · simp only [Act.exec, slotNext, found, if_true]
            exact .clearLost
          · simp only [Act.exec, slotNext, found, if_false]
            exact .keepLost
      | published j epoch state =>
          obtain ⟨rfl, rfl⟩ := permitted
          by_cases found : (s.slots j).claimToken = expected
          · simp only [Act.exec, slotNext, found, if_true]
            exact .clearPublished
          · simp only [Act.exec, slotNext, found, if_false]
            exact .quiet (.refl s)
      | _ => cases permitted
  | casState i expected desired =>
      cases m with
      | acquired j epoch tested =>
          obtain ⟨rfl, rfl, proper, free⟩ := permitted
          by_cases found : (s.slots j).state = expected
          · simp only [Act.exec, slotNext, found, if_true]
            exact .win (found ▸ proper) (found ▸ free)
          · simp only [Act.exec, slotNext, found, if_false]
            exact .lose
      | _ => cases permitted
  | storeState i state =>
      cases m with
      | held j epoch confirmed =>
          obtain ⟨rfl, proper, guard⟩ := permitted
          exact .store proper guard
      | _ => cases permitted
  | protect i readWrite =>
      simp only [Act.exec]
      split
      · exact .quiet fun _ => ⟨rfl, rfl, rfl⟩
      · exact .quiet (.refl s)
  | casLifecycle weak component expected desired =>
      simp only [Act.exec]
      split
      · exact .quiet fun _ => ⟨rfl, rfl, rfl⟩
      · exact .quiet (.refl s)
  | loadState | loadToken | read | storeHeartbeat | loadCursor | storeCursor | count | now
  | generateBufferId | hookSlot | hook | tick => exact .quiet fun _ => ⟨rfl, rfl, rfl⟩
  | _ => cases permitted

end Zipc
