import Zipc.Link
import Zipc.Fifo

/-! # Publishing a descriptor again

`zipc_linux_common_ring_push` suppresses a descriptor that is already pending, so that a
producer that recovers can publish all its transfers again. A reconciliation that went through
leaves a memory that the next one finds nothing to do in. The push asks for room before it
looks for the duplicate, however: on a full ring it fails although the descriptor is there.
-/

namespace Zipc

open Atomic Program

/-! ## The ring -/

/-- A ring that was pushed to fewer than `2 ^ 32` times: no counter has wrapped. -/
structure RingWell (ring : Ring) : Prop where
  deep : 2 ≤ ring.depth
  fits : ring.depth < u32
  ordered : ring.consumer ≤ ring.producer
  small : ring.producer < u32
  full : ring.producer - ring.consumer ≤ ring.depth

/-- The descriptors that wait in the ring. -/
def Ring.waiting (ring : Ring) : Nat := ring.producer - ring.consumer

/-- A descriptor that the ring push takes for the message is waiting. -/
def Ring.Pending (ring : Ring) (message : Message) : Prop :=
  ∃ k, ring.consumer ≤ k ∧ k < ring.producer ∧ (ring.entries (k % ring.depth)).same message = true

/-- The ring behind one more descriptor. -/
def Ring.pushed (ring : Ring) (message : Message) : Ring :=
  { ring with
    producer := (ring.producer + 1) % u32
    entries := Function.update ring.entries (ring.producer % ring.depth) message }

section Ring

variable {r : Nat} {m : Mem} {message : Message}

theorem Message.same_refl (message : Message) : message.same message = true := by
  simp [Message.same]

theorem RingWell.sub (well : RingWell (m.rings r)) :
    sub32 (m.rings r).producer (m.rings r).consumer = (m.rings r).waiting :=
  sub32_of_le well.ordered well.small

/-- The search leaves the memory alone, and answers whether one of the entries matches as long
as the position does not wrap. -/
theorem ringScan_looks (r : Nat) (m : Mem) (message : Message) (depth left : Nat) :
    ∀ position, ∃ pending,
      (position + left < u32 → (pending = true ↔ ∃ k, position ≤ k ∧ k < position + left ∧
        ((m.rings r).entries (k % depth)).same message = true)) ∧
      Looks m (ringScan r message depth left position) (.done pending) := by
  induction left with
  | zero =>
    intro position
    refine ⟨false, fun _ => ⟨nofun, ?_⟩, .here _⟩
    rintro ⟨k, low, high, _⟩
    omega
  | succ left ih =>
    intro position
    simp only [ringScan, lift_bind]
    by_cases here : ((m.rings r).entries (position % depth)).same message = true
    · refine ⟨true, fun _ => ⟨fun _ => ⟨position, le_rfl, by omega, here⟩, fun _ => rfl⟩, ?_⟩
      refine .act _ (fun _ => rfl) ?_
      rw [if_pos here]
      exact .here _
    · obtain ⟨pending, found, looks⟩ := ih ((position + 1) % u32)
      refine ⟨pending, fun small => ?_, .act _ (fun _ => rfl) ?_⟩
      · rw [Nat.mod_eq_of_lt (show position + 1 < u32 by omega)] at found
        refine (found (by omega)).trans ⟨?_, ?_⟩
        · rintro ⟨k, low, high, same⟩
          exact ⟨k, by omega, by omega, same⟩
        · rintro ⟨k, low, high, same⟩
          refine ⟨k, ?_, by omega, same⟩
          by_contra first
          have : k = position := by omega
          exact here (this ▸ same)
      · rw [if_neg here]
        exact looks

/-- The search that a push makes. -/
theorem ringScan_pending (r : Nat) (m : Mem) (message : Message) :
    ∃ pending, (RingWell (m.rings r) → (pending = true ↔ (m.rings r).Pending message)) ∧
      Looks m (ringScan r message (m.rings r).depth
        (sub32 (m.rings r).producer (m.rings r).consumer) (m.rings r).consumer) (.done pending) := by
  obtain ⟨pending, found, looks⟩ := ringScan_looks r m message (m.rings r).depth
    (sub32 (m.rings r).producer (m.rings r).consumer) (m.rings r).consumer
  refine ⟨pending, fun well => ?_, looks⟩
  have ordered := well.ordered
  have small := well.small
  have upTo : (m.rings r).consumer + sub32 (m.rings r).producer (m.rings r).consumer =
      (m.rings r).producer := by
    rw [sub32_of_le ordered small]
    omega
  rw [upTo] at found
  exact found small

/-- The push gets as far as the room test. -/
theorem ringPush_looks (deep : 2 ≤ (m.rings r).depth) :
    Looks m (ringPush r message)
      (if sub32 (m.rings r).producer (m.rings r).consumer ≥ (m.rings r).depth then pure .transport
        else do
          let pending ← ringScan r message (m.rings r).depth
            (sub32 (m.rings r).producer (m.rings r).consumer) (m.rings r).consumer
          if pending then pure .ok
          else do
            .lift (.writeEntry r ((m.rings r).producer % (m.rings r).depth) message)
            .lift (.storeProducer r (((m.rings r).producer + 1) % u32))
            pure .ok) := by
  simp only [ringPush, lift_bind]
  refine .act _ (fun _ => rfl) ?_
  rw [if_neg (Nat.not_lt.mpr deep)]
  exact .act _ (fun _ => rfl) (.act _ (fun _ => rfl) (.here _))

/-- A full ring refuses every descriptor. -/
theorem ringPush_full (deep : 2 ≤ (m.rings r).depth)
    (full : sub32 (m.rings r).producer (m.rings r).consumer ≥ (m.rings r).depth) :
    Goes m (ringPush r message) m (.done .transport) := by
  refine (ringPush_looks deep).goes.trans ?_
  rw [if_pos full]
  exact .here _ _

/-- With room, the push goes by what the search answers. -/
theorem ringPush_room (deep : 2 ≤ (m.rings r).depth)
    (room : sub32 (m.rings r).producer (m.rings r).consumer < (m.rings r).depth)
    (message : Message) :
    ∃ pending, (RingWell (m.rings r) → (pending = true ↔ (m.rings r).Pending message)) ∧
      Goes m (ringPush r message)
        (if pending then m else m.setRing r ((m.rings r).pushed message)) (.done .ok) := by
  obtain ⟨pending, found, scan⟩ := ringScan_pending r m message
  refine ⟨pending, found, (ringPush_looks deep).goes.trans ?_⟩
  rw [if_neg (Nat.not_le.mpr room)]
  refine scan.goes.bind ?_
  cases pending with
  | true => exact .here _ _
  | false =>
    refine .act () (fun _ => rfl) (.act () (fun _ => ?_) (.here _ _))
    simp [Act.exec, Mem.setRing, Ring.pushed]

/-- With room, a pending descriptor is accepted and the ring is left alone. -/
theorem ringPush_pending (well : RingWell (m.rings r))
    (room : (m.rings r).waiting < (m.rings r).depth) (pending : (m.rings r).Pending message) :
    Goes m (ringPush r message) m (.done .ok) := by
  obtain ⟨found, iff, goes⟩ := ringPush_room well.deep (well.sub.trans_lt room) message
  rwa [if_pos ((iff well).mpr pending)] at goes

/-! ## What a push leaves -/

/-- The counters of a ring may have wrapped, but it holds no more than its depth. -/
structure RingSound (ring : Ring) : Prop where
  deep : 2 ≤ ring.depth
  fits : ring.depth < u32
  counters : ring.producer < u32 ∧ ring.consumer < u32
  full : sub32 ring.producer ring.consumer ≤ ring.depth

theorem RingWell.sound {ring : Ring} (well : RingWell ring) : RingSound ring where
  deep := well.deep
  fits := well.fits
  counters := ⟨well.small, lt_of_le_of_lt well.ordered well.small⟩
  full := by
    rw [sub32_of_le well.ordered well.small]
    exact well.full

theorem RingSound.well {ring : Ring} (sound : RingSound ring) (ordered : ring.consumer ≤ ring.producer) :
    RingWell ring where
  deep := sound.deep
  fits := sound.fits
  ordered := ordered
  small := sound.counters.1
  full := by
    have full := sound.full
    rwa [sub32_of_le ordered sound.counters.1] at full

/-- A descriptor that is appended is pending, with all that were. -/
theorem RingWell.pushed {ring : Ring} (well : RingWell ring) (room : ring.waiting < ring.depth)
    (ordered : (ring.pushed message).consumer ≤ (ring.pushed message).producer) :
    (ring.pushed message).Pending message ∧
      ∀ other, ring.Pending other → (ring.pushed message).Pending other := by
  have small := well.small
  have before := well.ordered
  simp only [Ring.pushed] at ordered
  have next : (ring.producer + 1) % u32 = ring.producer + 1 := by
    rcases Nat.lt_or_ge (ring.producer + 1) u32 with inside | outside
    · exact Nat.mod_eq_of_lt inside
    · have top : ring.producer + 1 = u32 := by omega
      rw [top, Nat.mod_self] at ordered
      have : ring.producer - ring.consumer < ring.depth := room
      have := well.fits
      omega
  constructor
  · refine ⟨ring.producer, before, ?_, ?_⟩
    · simp only [Ring.pushed, next]
      omega
    · simp only [Ring.pushed, Function.update_self, Message.same_refl]
  · rintro other ⟨k, low, high, same⟩
    refine ⟨k, low, ?_, ?_⟩
    · simp only [Ring.pushed, next]
      omega
    · have apart : k % ring.depth ≠ ring.producer % ring.depth :=
        place_ne high (by unfold Ring.waiting at room; omega)
      simp only [Ring.pushed, Function.update_of_ne apart, same]

/-- Wherever the counters are, a push keeps the ring sound, and a ring whose counters are in
order afterwards had them in order before. -/
theorem RingSound.pushed {ring : Ring} (sound : RingSound ring)
    (room : sub32 ring.producer ring.consumer < ring.depth) :
    RingSound (ring.pushed message) ∧
      ((ring.pushed message).consumer ≤ (ring.pushed message).producer →
        ring.consumer ≤ ring.producer) := by
  obtain ⟨deep, fits, ⟨small, below⟩, full⟩ := sound
  have next : sub32 ((ring.producer + 1) % u32) ring.consumer =
      sub32 ring.producer ring.consumer + 1 := by
    unfold sub32 at *
    unfold u32 at *
    omega
  refine ⟨⟨deep, fits, ⟨Nat.mod_lt _ (by decide), below⟩, ?_⟩, ?_⟩
  · simp only [Ring.pushed, next]
    omega
  · simp only [Ring.pushed]
    intro ordered
    unfold sub32 at *
    unfold u32 at *
    omega

/-- What a push that went through did to the ring. -/
structure Advanced (message : Message) (ring ring' : Ring) : Prop where
  sound : RingSound ring'
  ordered : ring'.consumer ≤ ring'.producer → ring.consumer ≤ ring.producer
  added : ring'.consumer ≤ ring'.producer → ring'.Pending message
  kept : ring'.consumer ≤ ring'.producer → ∀ other, ring.Pending other → ring'.Pending other

theorem ringPush_advances (sound : RingSound (m.rings r)) :
    (ringPush r message).wp (fun status m' => status = .transport ∧ m' = m ∨
      status = .ok ∧ ∃ ring, m' = m.setRing r ring ∧ Advanced message (m.rings r) ring) m := by
  by_cases room : sub32 (m.rings r).producer (m.rings r).consumer < (m.rings r).depth
  swap
  · exact (ringPush_full sound.deep (Nat.not_lt.mp room)).wp (.inl ⟨rfl, rfl⟩)
  obtain ⟨pending, found, goes⟩ := ringPush_room sound.deep room message
  refine goes.wp (.inr ⟨rfl, ?_⟩)
  cases pending with
  | true =>
    refine ⟨m.rings r, by simp [Mem.setRing], sound, id, fun ordered => ?_, fun _ _ old => old⟩
    exact (found (sound.well ordered)).mp rfl
  | false =>
    obtain ⟨after, before⟩ : RingSound ((m.rings r).pushed message) ∧ _ := sound.pushed room
    have well (ordered : ((m.rings r).pushed message).consumer ≤
        ((m.rings r).pushed message).producer) := sound.well (before ordered)
    have waits (ordered : ((m.rings r).pushed message).consumer ≤
        ((m.rings r).pushed message).producer) : (m.rings r).waiting < (m.rings r).depth :=
      (well ordered).sub ▸ room
    exact ⟨_, rfl, after, before,
      fun ordered => ((well ordered).pushed (waits ordered) ordered).1,
      fun ordered => ((well ordered).pushed (waits ordered) ordered).2⟩

end Ring

/-! ## Sending -/

/-- Nothing that a reconciliation looks at is changed. -/
structure Unmoved (m m' : Mem) : Prop where
  slots : m'.slots = m.slots
  rings : m'.rings = m.rings
  components : m'.components = m.components

theorem Unmoved.refl (m : Mem) : Unmoved m m := ⟨rfl, rfl, rfl⟩

theorem Unmoved.trans {m m' m'' : Mem} (first : Unmoved m m') (second : Unmoved m' m'') :
    Unmoved m m'' :=
  ⟨second.slots.trans first.slots, second.rings.trans first.rings,
    second.components.trans first.components⟩

/-- The statuses with which a descriptor was published. -/
def Published (status : Status) : Prop := status = .ok ∨ status = .transportPublished

section Send

variable {t : Transport} {r : Nat} {m : Mem} {message : Message}

/-- A send is a push, followed by a notification that touches neither slots nor rings. -/
theorem transportSend_ends (through : t.ring = some r) {Q : Status → Mem → Prop}
    (push : (ringPush r message).wp (fun status m' =>
      (status ≠ .ok → Q status m') ∧
        (status = .ok → ∀ status' m'', Published status' → Unmoved m' m'' → Q status' m'')) m) :
    (transportSend t message).wp Q m := by
  cases t with
  | eventfd ring =>
    cases through
    simp only [transportSend]
    rw [wp_bind]
    refine wp_mono push fun status m' ends => ?_
    by_cases ok : status = .ok
    · rw [if_neg (not_not_intro ok)]
      intro e
      apply ends.2 ok
      · split
        · exact .inl rfl
        · exact .inr rfl
      · simp only [exec_eq, Act.exec]
        split
        · exact ⟨rfl, rfl, rfl⟩
        · exact .refl m'
    · rw [if_pos ok]
      exact ends.1 ok
  | polling ring timeout =>
    cases through
    refine wp_mono push fun status m' ends => ?_
    by_cases ok : status = .ok
    · exact ends.2 ok status m' (.inl ok) (.refl m')
    · exact ends.1 ok
  | external => cases through

/-- A send that is published has its descriptor pending. -/
theorem transportSend_advances (through : t.ring = some r) (sound : RingSound (m.rings r)) :
    (transportSend t message).wp (fun status m' => m'.slots = m.slots ∧
      m'.components = m.components ∧
      (¬Published status ∨ Advanced message (m.rings r) (m'.rings r))) m := by
  refine transportSend_ends through (wp_mono (ringPush_advances sound) ?_)
  rintro status m' (⟨rfl, rfl⟩ | ⟨rfl, ring, rfl, advanced⟩)
  · exact ⟨fun _ => ⟨rfl, rfl, .inl nofun⟩, nofun⟩
  · refine ⟨fun bad => absurd rfl bad, fun _ status' m'' _ same => ?_⟩
    refine ⟨same.slots, same.components, .inr ?_⟩
    rw [same.rings]
    simpa [Mem.setRing] using advanced

/-- A full ring fails the send. -/
theorem transportSend_full (through : t.ring = some r) (well : RingWell (m.rings r))
    (full : (m.rings r).waiting = (m.rings r).depth) :
    (transportSend t message).wp (fun status _ => status = .transport) m := by
  refine transportSend_ends through ((ringPush_full well.deep (well.sub.trans full).ge).wp ?_)
  exact ⟨fun _ => rfl, nofun⟩

/-- With room, a pending descriptor is taken as published and nothing is disturbed. -/
theorem transportSend_pending (through : t.ring = some r) (well : RingWell (m.rings r))
    (room : (m.rings r).waiting < (m.rings r).depth) (pending : (m.rings r).Pending message) :
    (transportSend t message).wp (fun status m' => Published status ∧ Unmoved m m') m := by
  refine transportSend_ends through ((ringPush_pending well room pending).wp ?_)
  exact ⟨fun bad => absurd rfl bad, fun _ _ _ published same => ⟨published, same⟩⟩

end Send

/-! ## One slot -/

/-- The control after its leftover rollback token was cleared. -/
def SlotControl.probed (restart : Restart) (s : SlotControl) : SlotControl :=
  if claimTokenKind s.claimToken = ClaimKind.rollback.toNat ∧ restart.owns s.claimToken = true then
    { s with claimToken := 0 }
  else s

/-- The slot holds a transfer of the terminated runtime over the link. -/
def Owed (link : Link) (restart : Restart) (s : SlotControl) : Prop :=
  s.ownerId = restart.component ∧ s.ownerEpoch = restart.deadEpoch ∧
    s.nextOwnerId = link.remoteComponent ∧ s.transferLinkId = link.linkId

instance (link : Link) (restart : Restart) (s : SlotControl) : Decidable (Owed link restart s) :=
  inferInstanceAs (Decidable (_ ∧ _ ∧ _ ∧ _))

/-- The descriptor that a reconciliation publishes for the slot. -/
def reissue (pool : Pool) (link : Link) (restart : Restart) (i : Nat) (s : SlotControl) : Message :=
  { handle := handleMake i s.generation, poolId := pool.poolId,
    sourceComponent := restart.component, destinationComponent := link.remoteComponent,
    transferSequence := s.transferSequence, flags := 0 }

section Slot

variable {α : Type} {pool : Pool} {link : Link} {restart : Restart} {i r : Nat} {m m' : Mem}
  {s : SlotControl} {q : Prog α}

theorem slot_here (m : Mem) (i : Nat) (s : SlotControl) : (m.setSlot i s).slots i = s := by
  rw [Mem.slots_setSlot, Function.update_self]

theorem goes_read {τ : Type} {field : SlotControl → τ} {next : τ → Prog α}
    (rest : Goes (m.setSlot i s) (next (field s)) m' q) :
    Goes (m.setSlot i s) (.act (.read i field) next) m' q :=
  .act (field s) (fun _ => by rw [exec_eq, Act.exec, slot_here]) rest

theorem goes_loadGeneration {next : Nat → Prog α}
    (rest : Goes (m.setSlot i s) (next s.generation) m' q) :
    Goes (m.setSlot i s) (.act (.loadGeneration i) next) m' q :=
  .act s.generation (fun _ => by rw [exec_eq, Act.exec, slot_here]) rest

theorem goes_write {w : SlotWrite} {next : Unit → Prog α}
    (rest : Goes (m.setSlot i (w.apply s)) (next ()) m' q) :
    Goes (m.setSlot i s) (.act (.write i w) next) m' q :=
  .act () (fun _ => by rw [exec_eq, Act.exec, slot_here, Mem.setSlot_setSlot]) rest

theorem goes_storeState {state : SlotState} {next : Unit → Prog α}
    (rest : Goes (m.setSlot i { s with state }) (next ()) m' q) :
    Goes (m.setSlot i s) (.act (.storeState i state) next) m' q :=
  .act () (fun _ => by rw [exec_eq, Act.exec, slot_here, Mem.setSlot_setSlot]) rest

theorem goes_storeToken {token : Nat} {next : Unit → Prog α}
    (rest : Goes (m.setSlot i { s with claimToken := token }) (next ()) m' q) :
    Goes (m.setSlot i s) (.act (.storeToken i token) next) m' q :=
  .act () (fun _ => by rw [exec_eq, Act.exec, slot_here, Mem.setSlot_setSlot]) rest

/-- A compare-and-exchange that finds what it expects. -/
theorem goes_casState {expected desired : SlotState} {next : Bool → Prog α}
    (state : s.state = expected)
    (rest : Goes (m.setSlot i { s with state := desired }) (next true) m' q) :
    Goes (m.setSlot i s) (.act (.casState i expected desired) next) m' q :=
  .act true (fun _ => by rw [exec_eq, Act.exec, slot_here, if_pos state, Mem.setSlot_setSlot]) rest

theorem goes_casToken {desired : Nat} {next : Nat → Prog α}
    (rest : Goes (m.setSlot i { s with claimToken := desired }) (next s.claimToken) m' q) :
    Goes (m.setSlot i s) (.act (.casToken i s.claimToken desired) next) m' q :=
  .act s.claimToken (fun _ => by
    rw [exec_eq, Act.exec, slot_here, if_pos rfl, Mem.setSlot_setSlot]) rest

theorem reconcileMatches_goes :
    Goes (m.setSlot i s) (reconcileMatches link restart i) (m.setSlot i s)
      (.done (decide (Owed link restart s))) := by
  simp only [reconcileMatches, lift_bind]
  apply goes_read
  by_cases owner : s.ownerId = restart.component
  swap
  · rw [if_pos owner, decide_eq_false (fun owed : Owed link restart s => owner owed.1)]
    exact .here _ _
  rw [if_neg (not_not_intro owner)]
  apply goes_read
  by_cases epoch : s.ownerEpoch = restart.deadEpoch
  swap
  · rw [if_pos epoch, decide_eq_false (fun owed : Owed link restart s => epoch owed.2.1)]
    exact .here _ _
  rw [if_neg (not_not_intro epoch)]
  apply goes_read
  by_cases next : s.nextOwnerId = link.remoteComponent
  swap
  · rw [if_pos next, decide_eq_false (fun owed : Owed link restart s => next owed.2.2.1)]
    exact .here _ _
  rw [if_neg (not_not_intro next)]
  apply goes_read
  have same : s.transferLinkId = link.linkId ↔ Owed link restart s :=
    ⟨fun linkId => ⟨owner, epoch, next, linkId⟩, fun owed => owed.2.2.2⟩
  rw [← decide_eq_decide.mpr same]
  exact .here _ _

theorem clearRollback_goes :
    Goes (m.setSlot i s) (clearRollback restart i s.claimToken) (m.setSlot i (s.probed restart))
      (.done ()) := by
  unfold clearRollback SlotControl.probed
  split
  · exact goes_casToken (.here _ _)
  · exact .here _ _

/-- Clearing the token changes nothing else. -/
theorem probed_fields (restart : Restart) (s : SlotControl) :
    (s.probed restart).state = s.state ∧ (s.probed restart).generation = s.generation ∧
      (s.probed restart).transferSequence = s.transferSequence ∧
      (∀ link : Link, Owed link restart (s.probed restart) ↔ Owed link restart s) ∧
      ¬(claimTokenKind (s.probed restart).claimToken = ClaimKind.rollback.toNat ∧
        restart.owns (s.probed restart).claimToken = true) := by
  unfold SlotControl.probed
  split
  · have none : claimTokenKind 0 ≠ ClaimKind.rollback.toNat := by decide
    exact ⟨rfl, rfl, rfl, fun _ => Iff.rfl, fun both => none both.1⟩
  · rename_i other
    exact ⟨rfl, rfl, rfl, fun _ => Iff.rfl, other⟩

/-- The probe clears a leftover token and otherwise puts the slot back as it was. -/
theorem reconcileProbe_goes (state : s.state = .transfer) :
    Goes (m.setSlot i s) (reconcileProbe link restart i) (m.setSlot i (s.probed restart))
      (.done (if Owed link restart s then some (s.generation, s.transferSequence) else none)) := by
  obtain ⟨probed, generation, sequence, owes, _⟩ := probed_fields restart s
  have back : { (s.probed restart) with state := .transfer } = s.probed restart := by
    rw [← state, ← probed]
  have aside : Owed link restart { (s.probed restart) with state := .error } ↔ Owed link restart s :=
    owes link
  simp only [reconcileProbe, lift_bind]
  refine .act s.claimToken (fun _ => by rw [exec_eq, Act.exec, slot_here]) ?_
  refine clearRollback_goes.bind (goes_casState (probed.trans state) ?_)
  rw [if_neg (by decide)]
  refine reconcileMatches_goes.bind ?_
  rw [decide_eq_decide.mpr aside]
  by_cases owed : Owed link restart s
  · rw [decide_eq_true owed, if_neg (by decide), if_pos owed]
    refine goes_loadGeneration (goes_read (goes_storeState ?_))
    rw [back]
    simp only [generation, sequence]
    exact .here _ _
  · rw [decide_eq_false owed, if_pos rfl, if_neg owed]
    refine goes_storeState ?_
    rw [back]
    exact .here _ _

/-- The terminated runtime left the claim of a send or of a rollback. -/
def Abandoned (restart : Restart) (token : Nat) : Prop :=
  (claimTokenKind token = ClaimKind.send.toNat ∨ claimTokenKind token = ClaimKind.rollback.toNat) ∧
    restart.owns token = true

/-- The control after such a claim was undone. -/
def SlotControl.recalled (s : SlotControl) : SlotControl :=
  { s with
    transferSequence := s.claimPreviousSequence, nextOwnerId := invalidComponentId
    claimToken := 0, state := .owned }

/-- A producer's reconciliation looks at the state word first. -/
theorem reconcileSlot_goes (role : link.role = .producer) :
    Goes (m.setSlot i s) (reconcileSlot pool link restart i) (m.setSlot i s)
      (if s.state = .claiming then reconcileClaiming pool link restart i s.claimToken
        else if s.state ≠ .transfer then pure (.ok false)
        else reconcileTransfer pool link restart i) := by
  simp only [reconcileSlot, lift_bind]
  refine .act s.state (fun _ => by rw [exec_eq, Act.exec, slot_here]) ?_
  refine .act s.claimToken (fun _ => by rw [exec_eq, Act.exec, slot_here]) ?_
  rw [if_neg (by rw [role]; exact fun h => absurd h.1 (by simp))]
  simp only [role, ne_eq, not_true_eq_false, false_or]
  exact .here _ _

/-- A slot in any other state is passed over. -/
theorem reconcileSlot_passes (role : link.role = .producer) (other : s.state ≠ .transfer)
    (held : s.state = .claiming → ¬Abandoned restart s.claimToken) :
    Goes (m.setSlot i s) (reconcileSlot pool link restart i) (m.setSlot i s)
      (.done (.ok false)) := by
  refine (reconcileSlot_goes role).trans ?_
  by_cases claiming : s.state = .claiming
  · have foreign := held claiming
    rw [if_pos claiming, reconcileClaiming]
    simp only [role, if_true]
    rw [if_pos (by unfold Abandoned at foreign; rw [← Bool.not_eq_true]; tauto)]
    exact .here _ _
  · rw [if_neg claiming, if_pos other]
    exact .here _ _

/-- A claim that the terminated runtime left is undone. -/
theorem reconcileSlot_recalls (role : link.role = .producer) (claiming : s.state = .claiming)
    (abandoned : Abandoned restart s.claimToken) :
    Goes (m.setSlot i s) (reconcileSlot pool link restart i) (m.setSlot i s.recalled)
      (.done (.ok false)) := by
  refine (reconcileSlot_goes role).trans ?_
  rw [if_pos claiming, reconcileClaiming]
  simp only [role, if_true]
  rw [if_neg (by unfold Abandoned at abandoned; rw [← Bool.not_eq_true]; tauto)]
  simp only [restoreSequence, lift_bind, act_bind]
  refine goes_casState claiming ?_
  rw [if_neg (by decide)]
  refine goes_read (goes_write (goes_write (goes_storeToken (goes_storeState ?_))))
  exact .here _ _

/-- A transfer is probed, and published again when it is over this link. -/
theorem reconcileSlot_transfers (role : link.role = .producer) (state : s.state = .transfer) :
    Goes (m.setSlot i s) (reconcileSlot pool link restart i) (m.setSlot i (s.probed restart))
      (if Owed link restart s then do
          let status ← transportSend link.transport (reissue pool link restart i s)
          if status ≠ .ok ∧ status ≠ .transportPublished then pure (.error status)
          else pure (.ok true)
        else .done (.ok false)) := by
  refine (reconcileSlot_goes role).trans ?_
  rw [if_neg (by rw [state]; decide), if_neg (not_not_intro state), reconcileTransfer]
  refine (reconcileProbe_goes state).bind ?_
  by_cases owed : Owed link restart s
  · rw [if_pos owed, if_pos owed]
    exact .here _ _
  · rw [if_neg owed, if_neg owed]
    exact .here _ _

end Slot

/-! ## The first reconciliation -/

/-- The slot has been reconciled: no claim of the terminated runtime is left on it, and a
transfer over the link has its descriptor in the ring. -/
structure Reconciled (pool : Pool) (link : Link) (restart : Restart) (r : Nat) (m : Mem) (i : Nat) :
    Prop where
  claiming : (m.slots i).state = .claiming → ¬Abandoned restart (m.slots i).claimToken
  token : (m.slots i).state = .transfer →
    ¬(claimTokenKind (m.slots i).claimToken = ClaimKind.rollback.toNat ∧
      restart.owns (m.slots i).claimToken = true)
  pending : (m.slots i).state = .transfer → Owed link restart (m.slots i) →
    (m.rings r).Pending (reissue pool link restart i (m.slots i))

/-- What one round leaves, when the counters of the ring are in order afterwards. -/
structure Round (pool : Pool) (link : Link) (restart : Restart) (r : Nat) (visited : Nat → Prop)
    (m m' : Mem) : Prop where
  others : ∀ j, ¬visited j → m'.slots j = m.slots j
  components : m'.components = m.components
  sound : RingSound (m'.rings r)
  ordered : (m'.rings r).consumer ≤ (m'.rings r).producer →
    (m.rings r).consumer ≤ (m.rings r).producer
  kept : (m'.rings r).consumer ≤ (m'.rings r).producer →
    ∀ message, (m.rings r).Pending message → (m'.rings r).Pending message
  slots : (m'.rings r).consumer ≤ (m'.rings r).producer →
    ∀ j, visited j → Reconciled pool link restart r m' j

section First

variable {pool : Pool} {link : Link} {restart : Restart} {i r : Nat} {m m' m'' : Mem}
  {s : SlotControl}

/-- Rounds one after the other. -/
theorem Round.then {first second : Nat → Prop} (round : Round pool link restart r first m m')
    (apart : ∀ j, first j → ¬second j) (next : Round pool link restart r second m' m'') :
    Round pool link restart r (fun j => first j ∨ second j) m m'' where
  others j outside :=
    (next.others j fun h => outside (.inr h)).trans (round.others j fun h => outside (.inl h))
  components := next.components.trans round.components
  sound := next.sound
  ordered order := round.ordered (next.ordered order)
  kept order message pending := next.kept order message (round.kept (next.ordered order) message pending)
  slots order j member := by
    rcases member with early | late
    · have settled := round.slots (next.ordered order) j early
      have same := next.others j (apart j early)
      refine ⟨?_, ?_, ?_⟩
      · rw [same]
        exact settled.claiming
      · rw [same]
        exact settled.token
      · rw [same]
        exact fun state owed => next.kept order _ (settled.pending state owed)
    · exact next.slots order j late

/-- A round that leaves the ring alone. -/
theorem Round.local (sound : RingSound (m.rings r))
    (claiming : s.state = .claiming → ¬Abandoned restart s.claimToken)
    (free : s.state = .transfer → ¬(claimTokenKind s.claimToken = ClaimKind.rollback.toNat ∧
      restart.owns s.claimToken = true) ∧ ¬Owed link restart s) :
    Round pool link restart r (· = i) m (m.setSlot i s) where
  others j other := by rw [Mem.slots_setSlot, Function.update_of_ne other]
  components := rfl
  sound := sound
  ordered := id
  kept _ _ pending := pending
  slots _ j here := by
    subst here
    rw [← slot_here m j s] at claiming free
    exact ⟨claiming, fun state => (free state).1, fun state owed => absurd owed (free state).2⟩

theorem reconcileSlot_round (role : link.role = .producer) (through : link.transport.ring = some r)
    (sound : RingSound (m.rings r)) :
    (reconcileSlot pool link restart i).wp (fun result m' =>
      (∃ status, status ≠ .ok ∧ result = .error status) ∨
        (∃ again, result = .ok again) ∧ Round pool link restart r (· = i) m m') m := by
  obtain ⟨probed, generation, sequence, owes, cleared⟩ := probed_fields restart (m.slots i)
  have start : m.setSlot i (m.slots i) = m := Mem.setSlot_self m i
  by_cases state : (m.slots i).state = .transfer
  · have goes : Goes (m.setSlot i (m.slots i)) (reconcileSlot pool link restart i) _ _ :=
      reconcileSlot_transfers role state
    rw [start] at goes
    refine goes.wp ?_
    by_cases owed : Owed link restart (m.slots i)
    · rw [if_pos owed, wp_bind]
      refine wp_mono (transportSend_advances through sound) ?_
      rintro status m' ⟨slots, components, failed | advanced⟩
      · rw [if_pos ⟨fun ok => failed (.inl ok), fun published => failed (.inr published)⟩]
        exact .inl ⟨status, fun ok => failed (.inl ok), rfl⟩
      · have here : m'.slots i = (m.slots i).probed restart := by rw [slots, slot_here]
        have round : Round pool link restart r (· = i) m m' := by
          refine ⟨fun j other => ?_, components, advanced.sound, advanced.ordered, advanced.kept,
            fun order j member => ?_⟩
          · rw [slots, Mem.slots_setSlot, Function.update_of_ne other]
          · subst member
            refine ⟨?_, ?_, ?_⟩
            · rw [here, probed, state]
              exact nofun
            · rw [here]
              exact fun _ => cleared
            · rw [here]
              intro _ _
              have same : reissue pool link restart j ((m.slots j).probed restart) =
                  reissue pool link restart j (m.slots j) := by
                simp only [reissue, generation, sequence]
              rw [same]
              exact advanced.added order
        split
        · rename_i failed
          exact .inl ⟨status, failed.1, rfl⟩
        · exact .inr ⟨⟨_, rfl⟩, round⟩
    · rw [if_neg owed]
      refine .inr ⟨⟨_, rfl⟩, .local sound ?_ fun _ => ⟨cleared, fun still => owed ((owes link).mp still)⟩⟩
      rw [probed, state]
      exact nofun
  · by_cases claimed : (m.slots i).state = .claiming ∧ Abandoned restart (m.slots i).claimToken
    · have goes : Goes (m.setSlot i (m.slots i)) (reconcileSlot pool link restart i) _ _ :=
        reconcileSlot_recalls role claimed.1 claimed.2
      rw [start] at goes
      exact goes.wp (.inr ⟨⟨_, rfl⟩, .local sound nofun nofun⟩)
    · have free : (m.slots i).state = .claiming → ¬Abandoned restart (m.slots i).claimToken :=
        fun claiming abandoned => claimed ⟨claiming, abandoned⟩
      have goes : Goes (m.setSlot i (m.slots i)) (reconcileSlot pool link restart i) _ _ :=
        reconcileSlot_passes role state free
      have round : Round pool link restart r (· = i) m (m.setSlot i (m.slots i)) :=
        .local sound free fun moving => absurd moving state
      rw [start] at goes round
      exact goes.wp (.inr ⟨⟨_, rfl⟩, round⟩)

/-- The whole scan, by induction on the slots that are left. -/
theorem reconcileScan_rounds (role : link.role = .producer) (through : link.transport.ring = some r)
    (left : Nat) : ∀ {i recovered : Nat} {m : Mem}, RingSound (m.rings r) →
    (reconcileScan pool link restart left i recovered).wp (fun result m' =>
      (∃ status, status ≠ .ok ∧ result.1 = .error status) ∨
        result.1 = .ok () ∧ Round pool link restart r (fun j => i ≤ j ∧ j < i + left) m m') m := by
  induction left with
  | zero =>
    intro i recovered m sound
    refine .inr ⟨rfl, fun _ _ => rfl, rfl, sound, id, fun _ _ pending => pending, ?_⟩
    rintro _ j ⟨low, high⟩
    omega
  | succ left ih =>
    intro i recovered m sound
    simp only [reconcileScan]
    rw [wp_bind]
    refine wp_mono (reconcileSlot_round role through sound) ?_
    rintro _ m' (⟨status, bad, rfl⟩ | ⟨⟨again, rfl⟩, round⟩)
    · exact .inl ⟨status, bad, rfl⟩
    · refine wp_mono (ih round.sound) ?_
      rintro result m'' (failed | ⟨ok, rest⟩)
      · exact .inl failed
      · have both := round.then (fun j here inside => by omega) rest
        have range : (fun j => j = i ∨ (i + 1 ≤ j ∧ j < i + 1 + left)) =
            fun j => i ≤ j ∧ j < i + (left + 1) := by
          funext j
          exact propext (by omega)
        rw [range] at both
        exact .inr ⟨ok, both⟩

end First

/-! ## The second reconciliation -/

/-- A slot whose descriptor would be published again. -/
def Reissues (link : Link) (restart : Restart) (m : Mem) (i : Nat) : Prop :=
  (m.slots i).state = .transfer ∧ Owed link restart (m.slots i)

section Second

variable {pool : Pool} {link : Link} {restart : Restart} {i r : Nat} {m m' : Mem}

theorem Reconciled.unmoved (settled : Reconciled pool link restart r m i)
    (same : Unmoved m m') : Reconciled pool link restart r m' i := by
  have slots := same.slots
  have rings := same.rings
  refine ⟨?_, ?_, ?_⟩
  · rw [slots]
    exact settled.claiming
  · rw [slots]
    exact settled.token
  · rw [slots, rings]
    exact settled.pending

/-- A reconciled slot is probed without a change. -/
theorem Reconciled.goes (role : link.role = .producer)
    (settled : Reconciled pool link restart r m i) :
    Goes m (reconcileSlot pool link restart i) m
      (if (m.slots i).state = .transfer ∧ Owed link restart (m.slots i) then do
          let status ← transportSend link.transport (reissue pool link restart i (m.slots i))
          if status ≠ .ok ∧ status ≠ .transportPublished then pure (.error status)
          else pure (.ok true)
        else .done (.ok false)) := by
  have start : m.setSlot i (m.slots i) = m := Mem.setSlot_self m i
  by_cases state : (m.slots i).state = .transfer
  · have kept : (m.slots i).probed restart = m.slots i := if_neg (settled.token state)
    have goes : Goes (m.setSlot i (m.slots i)) (reconcileSlot pool link restart i) _ _ :=
      reconcileSlot_transfers role state
    rw [kept, start] at goes
    simpa only [state, true_and] using goes
  · rw [if_neg fun both => state both.1]
    have goes : Goes (m.setSlot i (m.slots i)) (reconcileSlot pool link restart i) _ _ :=
      reconcileSlot_passes role state settled.claiming
    rwa [start] at goes

/-- With room in the ring, or nothing to publish, a reconciled slot is left alone. -/
theorem Reconciled.again (role : link.role = .producer) (through : link.transport.ring = some r)
    (well : RingWell (m.rings r)) (settled : Reconciled pool link restart r m i)
    (quiet : (m.rings r).waiting < (m.rings r).depth ∨ ¬Reissues link restart m i) :
    (reconcileSlot pool link restart i).wp (fun result m' =>
      (∃ again, result = .ok again) ∧ Unmoved m m') m := by
  refine (settled.goes role).wp ?_
  by_cases owed : (m.slots i).state = .transfer ∧ Owed link restart (m.slots i)
  · have room := quiet.resolve_right (not_not_intro owed)
    rw [if_pos owed, wp_bind]
    refine wp_mono (transportSend_pending through well room (settled.pending owed.1 owed.2)) ?_
    rintro status m' ⟨published, same⟩
    rw [if_neg (by rcases published with rfl | rfl <;> simp)]
    exact ⟨⟨true, rfl⟩, same⟩
  · rw [if_neg owed]
    exact ⟨⟨false, rfl⟩, .refl m⟩

/-- On a full ring a reconciled slot with a descriptor fails. -/
theorem Reconciled.refused (role : link.role = .producer) (through : link.transport.ring = some r)
    (well : RingWell (m.rings r)) (settled : Reconciled pool link restart r m i)
    (full : (m.rings r).waiting = (m.rings r).depth) (owed : Reissues link restart m i) :
    (reconcileSlot pool link restart i).wp (fun result _ => result = .error .transport) m := by
  have here : (m.slots i).state = .transfer ∧ Owed link restart (m.slots i) := owed
  refine (settled.goes role).wp ?_
  rw [if_pos here, wp_bind]
  refine wp_mono (transportSend_full through well full) ?_
  rintro _ m' rfl
  exact rfl

/-- A scan over reconciled slots changes nothing. -/
theorem reconcileScan_again (role : link.role = .producer) (through : link.transport.ring = some r)
    (left : Nat) : ∀ {i recovered : Nat} {m : Mem}, RingWell (m.rings r) →
    (∀ j, i ≤ j → j < i + left → Reconciled pool link restart r m j) →
    ((m.rings r).waiting < (m.rings r).depth ∨
      ∀ j, i ≤ j → j < i + left → ¬Reissues link restart m j) →
    (reconcileScan pool link restart left i recovered).wp (fun result m' =>
      result.1 = .ok () ∧ Unmoved m m') m := by
  induction left with
  | zero => exact fun _ _ _ => ⟨rfl, .refl _⟩
  | succ left ih =>
    intro i recovered m well settled quiet
    simp only [reconcileScan]
    rw [wp_bind]
    have here := (settled i le_rfl (by omega)).again role through well
      (quiet.imp_right fun none => none i le_rfl (by omega))
    refine wp_mono here ?_
    rintro _ m' ⟨⟨again, rfl⟩, same⟩
    have rings := same.rings
    have slots := same.slots
    refine wp_mono (ih (by rwa [rings]) (fun j low high =>
      (settled j (by omega) (by omega)).unmoved same) ?_) ?_
    · rw [rings]
      refine quiet.imp_right fun none j low high => ?_
      unfold Reissues
      rw [slots]
      exact none j (by omega) (by omega)
    · rintro result m'' ⟨ok, rest⟩
      exact ⟨ok, same.trans rest⟩

/-- A scan of a full ring fails at the first descriptor that it publishes again. -/
theorem reconcileScan_refused (role : link.role = .producer) (through : link.transport.ring = some r)
    (left : Nat) : ∀ {i recovered : Nat} {m : Mem}, RingWell (m.rings r) →
    (∀ j, i ≤ j → j < i + left → Reconciled pool link restart r m j) →
    (m.rings r).waiting = (m.rings r).depth →
    (∃ j, i ≤ j ∧ j < i + left ∧ Reissues link restart m j) →
    (reconcileScan pool link restart left i recovered).wp (fun result _ =>
      result.1 = .error .transport) m := by
  induction left with
  | zero =>
    rintro i recovered m well settled full ⟨j, low, high, _⟩
    omega
  | succ left ih =>
    rintro i recovered m well settled full ⟨j, low, high, owed⟩
    simp only [reconcileScan]
    rw [wp_bind]
    by_cases first : Reissues link restart m i
    · refine wp_mono ((settled i le_rfl (by omega)).refused role through well full first) ?_
      rintro _ m' rfl
      exact rfl
    · refine wp_mono ((settled i le_rfl (by omega)).again role through well (.inr first)) ?_
      rintro _ m' ⟨⟨again, rfl⟩, same⟩
      have rings := same.rings
      have slots := same.slots
      have other : j ≠ i := fun here => first (here ▸ owed)
      refine ih (by rwa [rings]) (fun j low high =>
        (settled j (by omega) (by omega)).unmoved same) (by rwa [rings])
        ⟨j, by omega, by omega, ?_⟩
      unfold Reissues
      rwa [slots]

/-! ## One reconciliation after the other -/

/-- The tests at the head of a reconciliation read the lifecycle of the component alone. -/
theorem reconcileRefused_looks (link : Link) (restart : Restart) (m : Mem) :
    ∃ refused, refused ≠ some .ok ∧ ∀ m', m'.components = m.components →
      Looks m' (reconcileRefused link restart) (.done refused) := by
  unfold reconcileRefused
  split
  · exact ⟨some .invalidArgument, nofun, fun _ _ => .here _⟩
  · unfold componentEpochRecovering
    split
    · exact ⟨some .invalidArgument, nofun, fun _ _ => .here _⟩
    · refine ⟨_, ?_, fun m' same =>
        .act (m.components restart.component).lifecycle (fun _ => ?_) (.here _)⟩
      · split_ifs <;> exact nofun
      · rw [exec_eq, Act.exec, same]

/-- A reconciliation that went through has passed the tests, and has reconciled every slot. -/
theorem linkReconcile_settles (role : link.role = .producer) (through : link.transport.ring = some r)
    {fuel count : Nat} (before : RingWell (m.rings r)) (after : RingWell (m'.rings r))
    (run : Completes (linkReconcile pool link restart fuel) m (some (.ok, count)) m') :
    Looks m' (reconcileRefused link restart) (.done none) ∧
      ∀ i, i < pool.slotCount → Reconciled pool link restart r m' i := by
  obtain ⟨refused, bad, looks⟩ := reconcileRefused_looks link restart m
  unfold linkReconcile at run
  obtain ⟨refused', m₁, test, run⟩ := run.bind
  cases (looks m rfl).completes test
  cases refused with
  | some status =>
    cases run
    exact absurd rfl bad
  | none =>
    obtain ⟨⟨scanned, recovered⟩, m₂, scan, run⟩ := run.bind
    have scanned := scan.sound (reconcileScan_rounds role through pool.slotCount before.sound)
    rcases scanned with ⟨status, failed, same⟩ | ⟨same, round⟩
    · cases same
      cases run
      exact absurd rfl failed
    · cases same
      simp only [role] at run
      cases run
      refine ⟨looks m' round.components, fun i inside => ?_⟩
      exact round.slots after.ordered i ⟨Nat.zero_le i, by omega⟩

/-- What a producer's reconciliation does behind its tests. -/
theorem linkReconcile_scans (role : link.role = .producer) {fuel : Nat} {Q : Option (Status × Nat) → Mem → Prop}
    (passes : Looks m (reconcileRefused link restart) (.done none))
    (scan : (reconcileScan pool link restart pool.slotCount 0 0).wp (fun result m' =>
      (∀ status, result.1 = .error status → Q (some (status, result.2)) m') ∧
        (result.1 = .ok () → Q (some (.ok, result.2)) m')) m) :
    (linkReconcile pool link restart fuel).wp Q m := by
  unfold linkReconcile
  rw [wp_bind]
  refine passes.goes.wp ?_
  change (reconcileScan pool link restart pool.slotCount 0 0 >>= _ : Prog _).wp Q m
  rw [wp_bind]
  refine wp_mono scan ?_
  rintro ⟨status | ok, recovered⟩ m' ⟨failed, passed⟩
  · exact failed status rfl
  · simp only [role]
    exact passed rfl

/-- Behind a reconciliation that went through, the next one changes nothing when the ring has room
or there is nothing to publish. -/
theorem linkReconcile_again (role : link.role = .producer) (through : link.transport.ring = some r)
    {fuel : Nat} (well : RingWell (m.rings r))
    (passes : Looks m (reconcileRefused link restart) (.done none))
    (settled : ∀ i, i < pool.slotCount → Reconciled pool link restart r m i)
    (quiet : (m.rings r).waiting < (m.rings r).depth ∨
      ∀ i, i < pool.slotCount → ¬Reissues link restart m i) :
    (linkReconcile pool link restart fuel).wp (fun result m' =>
      (∃ count, result = some (.ok, count)) ∧ m'.slots = m.slots ∧ m'.rings = m.rings) m := by
  refine linkReconcile_scans role passes (wp_mono (reconcileScan_again role through pool.slotCount well
    (fun j _ inside => settled j (by omega)) (quiet.imp_right fun none j _ inside =>
      none j (by omega))) ?_)
  rintro result m' ⟨ok, same⟩
  refine ⟨fun status failed => ?_, fun _ => ⟨⟨_, rfl⟩, same.slots, same.rings⟩⟩
  rw [ok] at failed
  cases failed

/-- Otherwise it fails. -/
theorem linkReconcile_refused (role : link.role = .producer) (through : link.transport.ring = some r)
    {fuel : Nat} (well : RingWell (m.rings r))
    (passes : Looks m (reconcileRefused link restart) (.done none))
    (settled : ∀ i, i < pool.slotCount → Reconciled pool link restart r m i)
    (full : (m.rings r).waiting = (m.rings r).depth)
    (owed : ∃ i, i < pool.slotCount ∧ Reissues link restart m i) :
    (linkReconcile pool link restart fuel).wp (fun result _ =>
      ∃ count, result = some (.transport, count)) m := by
  obtain ⟨i, inside, owed⟩ := owed
  refine linkReconcile_scans role passes (wp_mono (reconcileScan_refused role through pool.slotCount
    well (fun j _ inside => settled j (by omega)) full ⟨i, Nat.zero_le i, by omega, owed⟩) ?_)
  rintro result m' failed
  rw [failed]
  refine ⟨fun status same => ?_, nofun⟩
  cases same
  exact ⟨_, rfl⟩

end Second

/-- Publishing a pending descriptor again changes nothing exactly when the ring is not full.
After a reconciliation of a producer's link that went through, the next one changes nothing
exactly when the ring is not full or no transfer of the link is left. -/
theorem republish_exact (r : Nat) :
    (∀ (message : Message) (m : Mem), RingWell (m.rings r) →
      (m.rings r).Pending message →
      ((∀ status m', Completes (ringPush r message) m status m' → status = .ok ∧ m' = m) ↔
        (m.rings r).waiting < (m.rings r).depth)) ∧
    ∀ (pool : Pool) (link : Link) (restart : Restart) (fuel fuel' count : Nat) (m m₁ : Mem),
      link.role = .producer → link.transport.ring = some r →
      RingWell (m.rings r) → RingWell (m₁.rings r) →
      Completes (linkReconcile pool link restart fuel) m (some (.ok, count)) m₁ →
      ((∀ result m₂, Completes (linkReconcile pool link restart fuel') m₁ result m₂ →
          (∃ count', result = some (.ok, count')) ∧ m₂.slots = m₁.slots ∧ m₂.rings = m₁.rings) ↔
        (m₁.rings r).waiting < (m₁.rings r).depth ∨
          ∀ i, i < pool.slotCount → ¬Reissues link restart m₁ i) := by
  constructor
  · intro message m well pending
    constructor
    · intro idempotent
      by_contra full
      have refused : Goes m (ringPush r message) m (.done .transport) :=
        ringPush_full well.deep (by rw [well.sub]; omega)
      have run := runWith_completes default (ringPush r message) m
      have failed : _ = Status.transport := run.sound (Q := fun status _ => status = .transport)
        (refused.wp rfl)
      rw [(idempotent _ _ run).1] at failed
      cases failed
    · intro room status m' run
      have goes : Goes m (ringPush r message) m (.done .ok) := ringPush_pending well room pending
      exact run.sound (Q := fun status m' => status = .ok ∧ m' = m) (goes.wp ⟨rfl, rfl⟩)
  · intro pool link restart fuel fuel' count m m₁ role through before after first
    obtain ⟨passes, settled⟩ := linkReconcile_settles role through before after first
    constructor
    · intro idempotent
      by_contra busy
      rw [not_or, Nat.not_lt] at busy
      obtain ⟨full, owed⟩ := busy
      push Not at owed
      have refused : (linkReconcile pool link restart fuel').wp _ m₁ := linkReconcile_refused role through after passes settled
        (le_antisymm after.full full) owed
      have run := runWith_completes default (linkReconcile pool link restart fuel') m₁
      obtain ⟨_, failed⟩ := run.sound refused
      obtain ⟨⟨_, ok⟩, -⟩ := idempotent _ _ run
      rw [ok] at failed
      cases failed
    · intro quiet result m₂ second
      exact second.sound (linkReconcile_again role through after passes settled quiet)

/-- Two slots, and a ring of depth two. -/
def redoPool : Pool := { smallPool with strict := false }

def redoLink : Link where
  localComponent := 1
  remoteComponent := 2
  linkId := 5
  localEpoch := 2
  role := .producer
  transport := .polling 0 0
  recoveryRing := some 0
  hopLimit := 0
  defaultDeadlineNs := 0
  timeoutTicks := 0

def redoRestart : Restart := ⟨1, 1, 2, 0, true⟩

/-- Component 1 published its transfer of slot 0, and died before it published that of slot 1. -/
def redoMem (first second : SlotState) : Mem :=
  let slot (state : SlotState) : SlotControl :=
    { (default : SlotControl) with
      state := state, generation := 1, ownerId := 1, ownerEpoch := 1, nextOwnerId := 2
      transferLinkId := 5 }
  { (default : Mem) with
    slots := fun i => if i = 0 then slot first else slot second
    components := fun _ => ⟨componentLifecycleMake 2 .recovering, 0, 0⟩
    rings := fun _ => ⟨1, 0, 2, fun _ => ⟨handleMake 0 1, 7, 1, 2, 0, 0⟩⟩ }

/-- After the first reconciliation. -/
def redoneMem (first second : SlotState) : Mem :=
  ((linkReconcile redoPool redoLink redoRestart 0).runWith default (redoMem first second)).2

theorem redoMem_well (first second : SlotState) : RingWell ((redoMem first second).rings 0) :=
  ⟨by simp [redoMem], by simp [redoMem, u32], by simp [redoMem], by simp [redoMem, u32],
    by simp [redoMem]⟩

theorem republish_exact_small :
    (∀ status m', Completes (ringPush 0 ⟨handleMake 0 1, 7, 1, 2, 0, 0⟩)
        (redoMem .transfer .owned) status m' → status = .ok ∧ m' = redoMem .transfer .owned) ∧
      ∀ result m₂, Completes (linkReconcile redoPool redoLink redoRestart 0)
          (redoneMem .transfer .owned) result m₂ →
        (∃ count, result = some (.ok, count)) ∧ m₂.slots = (redoneMem .transfer .owned).slots ∧
          m₂.rings = (redoneMem .transfer .owned).rings := by
  have pending : ((redoMem .transfer .owned).rings 0).Pending ⟨handleMake 0 1, 7, 1, 2, 0, 0⟩ :=
    ⟨0, by decide, by decide, by decide⟩
  have first : ((linkReconcile redoPool redoLink redoRestart 0).runWith default
      (redoMem .transfer .owned)).1 = some (.ok, 1) := by decide +kernel
  have run := runWith_completes default (linkReconcile redoPool redoLink redoRestart 0)
    (redoMem .transfer .owned)
  rw [first] at run
  have after : RingWell ((redoneMem .transfer .owned).rings 0) :=
    ⟨by decide +kernel, by decide +kernel, by decide +kernel, by decide +kernel, by decide +kernel⟩
  constructor
  · exact ((republish_exact 0).1 _ _ (redoMem_well _ _) pending).mpr (by decide)
  · exact ((republish_exact 0).2 redoPool redoLink redoRestart 0 0 1 _ _ rfl rfl (redoMem_well _ _)
      after run).mpr (.inl (by decide +kernel))

/-- With both slots in transfer the first reconciliation fills the ring. The push of a pending
descriptor fails then, and so does the second reconciliation. -/
theorem republish_refused :
    ¬((∀ (r : Nat) (message : Message) (m : Mem), RingWell (m.rings r) →
        (m.rings r).Pending message →
        ∀ status m', Completes (ringPush r message) m status m' → status = .ok ∧ m' = m) ∨
      ∀ (pool : Pool) (link : Link) (restart : Restart) (r fuel fuel' count : Nat) (m m₁ : Mem),
        link.role = .producer → link.transport.ring = some r →
        RingWell (m.rings r) → RingWell (m₁.rings r) →
        Completes (linkReconcile pool link restart fuel) m (some (.ok, count)) m₁ →
        ∀ result m₂, Completes (linkReconcile pool link restart fuel') m₁ result m₂ →
          (∃ count', result = some (.ok, count')) ∧ m₂.slots = m₁.slots ∧ m₂.rings = m₁.rings) := by
  have after : RingWell ((redoneMem .transfer .transfer).rings 0) :=
    ⟨by decide +kernel, by decide +kernel, by decide +kernel, by decide +kernel, by decide +kernel⟩
  rintro (push | reconcile)
  · have pending : ((redoneMem .transfer .transfer).rings 0).Pending
        ⟨handleMake 0 1, 7, 1, 2, 0, 0⟩ := ⟨0, by decide +kernel, by decide +kernel, by decide +kernel⟩
    have run := runWith_completes default (ringPush 0 ⟨handleMake 0 1, 7, 1, 2, 0, 0⟩)
      (redoneMem .transfer .transfer)
    exact absurd (push 0 _ _ after pending _ _ run).1 (by decide +kernel)
  · have first : ((linkReconcile redoPool redoLink redoRestart 0).runWith default
        (redoMem .transfer .transfer)).1 = some (.ok, 2) := by decide +kernel
    have run := runWith_completes default (linkReconcile redoPool redoLink redoRestart 0)
      (redoMem .transfer .transfer)
    rw [first] at run
    have again := runWith_completes default (linkReconcile redoPool redoLink redoRestart 0)
      (redoneMem .transfer .transfer)
    obtain ⟨⟨count, ok⟩, -⟩ := reconcile redoPool redoLink redoRestart 0 0 0 2 _ _ rfl rfl
      (redoMem_well _ _) after run _ _ again
    have failed : ((linkReconcile redoPool redoLink redoRestart 0).runWith default
        (redoneMem .transfer .transfer)).1 = some (.transport, 0) := by decide +kernel
    rw [failed] at ok
    cases ok

end Zipc
