import Zipc.Lib.Packed

/-! # Status codes and packed words

The enumerations of `zipc.h`, and the words that pack several fields: buffer handles,
buffer IDs, component lifecycles and claim tokens. Machine integers are natural
numbers, reduced where the C code can wrap.
-/

namespace Zipc

/-- `UINT32_MAX + 1`. -/
abbrev u32 : Nat := 4294967296

/-- The trace of a slot and the visited set are arrays of eight elements. -/
instance eight_neZero : NeZero 8 := ⟨by decide⟩

/-- `a - b` on `uint32_t`. -/
@[irreducible] def sub32 (a b : Nat) : Nat := (a + (u32 - b % u32)) % u32

theorem sub32_lt (a b : Nat) : sub32 a b < u32 := by
  unfold sub32
  exact Nat.mod_lt _ (by decide)

theorem sub32_of_le {a b : Nat} (le : b ≤ a) (small : a < u32) : sub32 a b = a - b := by
  unfold sub32
  unfold u32 at *
  omega

/-- `zipc_status_t`. -/
inductive Status where
  | ok | invalidArgument | invalidPool | noBuffer | invalidHandle | staleHandle
  | invalidState | notOwner | invalidReceiver | sequenceMismatch | regionOverflow
  | unsupportedMemory | transport | platform | timeout | hopLimit | deadline
  | componentStale | recoveryRequired | invalidBuffer | bufferTooSmall
  | entropyUnavailable | transportPublished | recoveryUnsupported
  deriving Repr, DecidableEq, Inhabited

/-- `zipc_slot_state_t`. -/
inductive SlotState where
  | free | claiming | owned | transfer | error
  deriving Repr, DecidableEq, Inhabited

/-- `zipc_component_state_t`; the values are the low half of a packed lifecycle. -/
inductive ComponentState where
  | inactive | recovering | active
  deriving Repr, DecidableEq, Inhabited

def ComponentState.toNat : ComponentState → Nat
  | .inactive => 0
  | .recovering => 1
  | .active => 2

/-- `zipc_claim_kind_t`; the values are the low byte of a claim token. -/
inductive ClaimKind where
  | none | allocate | send | receive | release | rollback
  deriving Repr, DecidableEq, Inhabited

def ClaimKind.toNat : ClaimKind → Nat
  | .none => 0
  | .allocate => 1
  | .send => 2
  | .receive => 3
  | .release => 4
  | .rollback => 5

/-- `zipc_trace_event_t`. -/
inductive TraceEvent where
  | allocate | send | receive | release | recover | error
  deriving Repr, DecidableEq, Inhabited

def hopLimitUnlimited : Nat := 4294967295

def deadlineNone : Nat := 18446744073709551615

def invalidComponentId : Nat := 65535

def componentIdValid (component : Nat) : Bool := 1 ≤ component && component ≤ 254

theorem componentIdValid_iff {c : Nat} : componentIdValid c = true ↔ 1 ≤ c ∧ c ≤ 254 := by
  simp [componentIdValid]

theorem not_valid_invalidComponentId : componentIdValid invalidComponentId = false := rfl

/-! ## Buffer handles -/

def handleMake (slotId generation : Nat) : Nat := generation <<< 32 ||| slotId

def handleSlotId (handle : Nat) : Nat := handle % u32

def handleGeneration (handle : Nat) : Nat := handle >>> 32 % u32

theorem handleSlotId_make {slotId generation : Nat} (small : slotId < u32) :
    handleSlotId (handleMake slotId generation) = slotId :=
  Packed.low (w := 32) small

theorem handleGeneration_make {slotId generation : Nat} (small : slotId < u32)
    (fits : generation < u32) : handleGeneration (handleMake slotId generation) = generation := by
  simp only [handleGeneration, handleMake]
  rw [Packed.high (w := 32) small, Nat.mod_eq_of_lt fits]

theorem handleMake_fields {handle : Nat} (fits : handle < u32 * u32) :
    handleMake (handleSlotId handle) (handleGeneration handle) = handle := by
  have small : handle % u32 < 2 ^ 32 := Nat.mod_lt _ (by decide)
  simp only [handleMake, handleSlotId, handleGeneration]
  rw [Packed.pack_eq small, Nat.shiftRight_eq_div_pow,
    Nat.mod_eq_of_lt (a := handle / 2 ^ 32) (by simp only [u32] at *; omega)]
  simp only [u32]
  omega

/-! ## Buffer IDs -/

def bufferIdMake (allocator session sequence : Nat) : Nat :=
  (allocator % 256) <<< 56 ||| (session % 16777216) <<< 32 ||| sequence

def bufferIdComponent (id : Nat) : Nat := id >>> 56

def bufferIdSession (id : Nat) : Nat := id >>> 32 % 16777216

def bufferIdSequence (id : Nat) : Nat := id % u32

def bufferIdValid (id : Nat) : Bool :=
  1 ≤ bufferIdComponent id && bufferIdComponent id ≤ 254 &&
    bufferIdSession id != 0 && bufferIdSequence id != 4294967295

/-- The low 56 bits of a buffer ID are the session above the sequence. -/
theorem bufferIdMake_eq (allocator session : Nat) {sequence : Nat} (fits : sequence < u32) :
    bufferIdMake allocator session sequence =
      ((allocator % 256) <<< 24 ||| session % 16777216) <<< 32 ||| sequence ∧
    session % 16777216 < 2 ^ 24 ∧ sequence < 2 ^ 32 := by
  refine ⟨?_, Nat.mod_lt _ (by decide), fits⟩
  simp only [bufferIdMake, Nat.shiftLeft_or_distrib, ← Nat.shiftLeft_add]

theorem bufferIdSequence_make (allocator session : Nat) {sequence : Nat} (fits : sequence < u32) :
    bufferIdSequence (bufferIdMake allocator session sequence) = sequence := by
  obtain ⟨shape, -, low⟩ := bufferIdMake_eq allocator session fits
  rw [shape]
  exact Packed.low low

theorem bufferIdSession_make (allocator : Nat) {session sequence : Nat} (fits : sequence < u32)
    (small : session < 16777216) :
    bufferIdSession (bufferIdMake allocator session sequence) = session := by
  obtain ⟨shape, mid, low⟩ := bufferIdMake_eq allocator session fits
  rw [shape, bufferIdSession, Packed.high low]
  exact (Packed.low mid).trans (Nat.mod_eq_of_lt small)

theorem bufferIdComponent_make {allocator session sequence : Nat} (fits : sequence < u32)
    (valid : allocator < 256) :
    bufferIdComponent (bufferIdMake allocator session sequence) = allocator := by
  obtain ⟨shape, mid, low⟩ := bufferIdMake_eq allocator session fits
  rw [shape, bufferIdComponent, show 56 = 32 + 24 from rfl, Nat.shiftRight_add, Packed.high low,
    Packed.high mid, Nat.mod_eq_of_lt valid]

theorem bufferIdValid_make {allocator session sequence : Nat}
    (valid : componentIdValid allocator = true) (session_pos : 0 < session)
    (small : session < 16777216) (fits : sequence < 4294967295) :
    bufferIdValid (bufferIdMake allocator session sequence) = true := by
  have wide : sequence < u32 := by simp only [u32]; omega
  rw [componentIdValid_iff] at valid
  simp only [bufferIdValid, bufferIdComponent_make wide (by omega : allocator < 256),
    bufferIdSession_make allocator wide small, bufferIdSequence_make allocator session wide]
  simp
  omega

/-! ## Component lifecycles -/

def componentLifecycleMake (epoch : Nat) (state : ComponentState) : Nat :=
  epoch <<< 32 ||| state.toNat

def componentLifecycleEpoch (lifecycle : Nat) : Nat := lifecycle >>> 32 % u32

/-- The low half of the word; compared with the values of `ComponentState`. -/
def componentLifecycleState (lifecycle : Nat) : Nat := lifecycle % u32

theorem ComponentState.toNat_lt (state : ComponentState) : state.toNat < 2 ^ 32 := by
  cases state <;> decide

theorem componentLifecycleEpoch_make {epoch : Nat} (state : ComponentState) (fits : epoch < u32) :
    componentLifecycleEpoch (componentLifecycleMake epoch state) = epoch := by
  rw [componentLifecycleEpoch, componentLifecycleMake, Packed.high state.toNat_lt,
    Nat.mod_eq_of_lt fits]

theorem componentLifecycleState_make (epoch : Nat) (state : ComponentState) :
    componentLifecycleState (componentLifecycleMake epoch state) = state.toNat :=
  Packed.low (w := 32) state.toNat_lt

/-! ## Claim tokens -/

def claimTokenMake (kind : ClaimKind) (component epoch : Nat) : Nat :=
  epoch <<< 32 ||| component <<< 8 ||| kind.toNat

/-- The low byte of the token; compared with the values of `ClaimKind`. -/
def claimTokenKind (token : Nat) : Nat := token % 256

def claimTokenComponent (token : Nat) : Nat := token >>> 8 % 65536

def claimTokenEpoch (token : Nat) : Nat := token >>> 32 % u32

theorem ClaimKind.toNat_lt (kind : ClaimKind) : kind.toNat < 2 ^ 8 := by cases kind <;> decide

theorem ClaimKind.toNat_injective {k k' : ClaimKind} (same : k.toNat = k'.toNat) : k = k' := by
  cases k <;> cases k' <;> first | rfl | exact absurd same (by decide)

theorem claimTokenMake_eq (kind : ClaimKind) (component epoch : Nat) :
    claimTokenMake kind component epoch =
      (epoch <<< 24 ||| component) <<< 8 ||| kind.toNat := by
  simp only [claimTokenMake, Nat.shiftLeft_or_distrib, ← Nat.shiftLeft_add]

theorem claimTokenKind_make (kind : ClaimKind) (component epoch : Nat) :
    claimTokenKind (claimTokenMake kind component epoch) = kind.toNat := by
  rw [claimTokenMake_eq]
  exact Packed.low kind.toNat_lt

theorem claimTokenComponent_make (kind : ClaimKind) {component epoch : Nat}
    (small : component < 65536) :
    claimTokenComponent (claimTokenMake kind component epoch) = component := by
  have inner : component < 2 ^ 24 := by omega
  rw [claimTokenMake_eq, claimTokenComponent, Packed.high kind.toNat_lt, Packed.pack_eq inner]
  omega

theorem claimTokenEpoch_make (kind : ClaimKind) {component epoch : Nat}
    (small : component < 65536) (fits : epoch < u32) :
    claimTokenEpoch (claimTokenMake kind component epoch) = epoch := by
  have inner : component < 2 ^ 24 := by omega
  rw [claimTokenMake_eq, claimTokenEpoch, show 32 = 8 + 24 from rfl, Nat.shiftRight_add,
    Packed.high kind.toNat_lt, Packed.high inner, Nat.mod_eq_of_lt fits]

theorem claimTokenMake_ne_zero {kind : ClaimKind} (used : kind ≠ .none) (component epoch : Nat) :
    claimTokenMake kind component epoch ≠ 0 := by
  intro zero
  have low := claimTokenKind_make kind component epoch
  rw [zero] at low
  exact used (ClaimKind.toNat_injective low.symm)

end Zipc
