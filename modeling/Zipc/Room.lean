import Zipc.Scan
import Zipc.Deque
import Zipc.Geometry

/-! # The room of a new buffer

`zipc_buffer_alloc_ex` adds headroom, size and tailroom as `size_t` values and tests the sums
for a wrap. With 64 bits no sum of three 32-bit values wraps. With 32 bits the test of the
second sum compares it with the size only, and some sums that wrapped pass.
-/

namespace Zipc

open Atomic Program Geometry

/-- The room test of `zipc_buffer_alloc_ex`. -/
def roomRefused (t : SizeT) (capacity size headroom tailroom : Nat) : Bool :=
  let front := (headroom + size) % 2 ^ t.bits
  let whole := (front + tailroom) % 2 ^ t.bits
  front < headroom || whole < size || whole > capacity

/-- `zipc_buffer_alloc_ex` behind its room test; `same` is whether the parent is the caller's
own buffer. -/
def allocWithParent (pool : Pool) (link : Link) (size headroom : Nat)
    (parent : Option (Option View)) (same : Bool) : Prog (Status × Option View) :=
  let args (parentId : Nat) : AllocateArgs :=
    { allocator := link.localComponent, parentId, offset := headroom, length := size,
      hopLimit := link.hopLimit, deadlineDurationNs := link.defaultDeadlineNs,
      enablePayload := true }
  if same then pure (.invalidArgument, none)
  else
    match parent with
    | none => bufferAllocateInternal pool (args 0) link.localEpoch
    | some buffer => do
        let owned ← bufferOwned buffer
        match buffer, owned with
        | some v, true => do
            let id ← read v.slotId (·.identity.id)
            bufferAllocateInternal pool (args id) link.localEpoch
        | _, _ => pure (.invalidBuffer, none)

/-- `zipc_buffer_alloc_ex` for a given width of `size_t`. -/
def bufferAllocExAt (t : SizeT) (pool : Pool) (link : Link) (size headroom tailroom : Nat)
    (parent : Option (Option View)) (same : Bool) : Prog (Status × Option View) :=
  if size ≥ u32 ∨ headroom ≥ u32 ∨ tailroom ≥ u32 then pure (.invalidArgument, none)
  else do
    let current ← linkCurrent link
    if current = false then pure (.componentStale, none)
    else if roomRefused t pool.slotCapacity size headroom tailroom then
      pure (.regionOverflow, none)
    else allocWithParent pool link size headroom parent same

/-- The local epoch of the link, when it has one, is registered and not inactive. -/
def LinkLive (m : Mem) (link : Link) : Prop :=
  link.localEpoch ≠ 0 → componentIdValid link.localComponent = true ∧
    componentLifecycleEpoch (m.components link.localComponent).lifecycle = link.localEpoch ∧
    componentLifecycleState (m.components link.localComponent).lifecycle ≠
      ComponentState.inactive.toNat

/-- The buffer has the room that was asked for. -/
structure HasRoom (m : Mem) (v : View) (size headroom tailroom : Nat) : Prop where
  headroom : Looks m (bufferHeadroom (some v)) (.done headroom)
  size : Looks m (bufferSize (some v)) (.done size)
  tailroom : ∃ room, tailroom ≤ room ∧ Looks m (bufferTailroom (some v)) (.done room)

/-- What an allocation with explicit room promises. -/
def HonoursRoom (t : SizeT) (pool : Pool) (link : Link) (size headroom tailroom : Nat)
    (parent : Option (Option View)) (same : Bool) (m : Mem) : Prop :=
  ∀ result m', Completes (bufferAllocExAt t pool link size headroom tailroom parent same) m
      result m' →
    (result.1 = .ok → headroom + size + tailroom ≤ pool.slotCapacity ∧
      ∃ v, result.2 = some v ∧ HasRoom m' v size headroom tailroom) ∧
    (size < u32 → headroom < u32 → tailroom < u32 →
      pool.slotCapacity < headroom + size + tailroom → result.1 = .regionOverflow)

/-- The sums that wrap and pass the test all the same. -/
def RoomSlips (t : SizeT) (capacity size headroom tailroom : Nat) : Prop :=
  t = .bits32 ∧ headroom + size < u32 ∧ u32 ≤ headroom + tailroom ∧
    headroom + size + tailroom ≤ u32 + capacity

/-! ## The test -/

theorem roomRefused_iff {t : SizeT} {capacity size headroom tailroom : Nat}
    (small : size < u32) (front : headroom < u32) (back : tailroom < u32)
    (fits : capacity < u32) : roomRefused t capacity size headroom tailroom = true ↔
      capacity < headroom + size + tailroom ∧ ¬RoomSlips t capacity size headroom tailroom := by
  unfold u32 at *
  simp only [roomRefused, RoomSlips, Bool.or_eq_true, decide_eq_true_eq, u32]
  cases t with
  | bits32 =>
    simp only [SizeT.bits, true_and]
    omega
  | bits64 =>
    simp only [SizeT.bits, reduceCtorEq, false_and, not_false_eq_true, and_true]
    omega

/-- With 64 bits the test is the one on natural numbers. -/
theorem bufferAllocExAt_bits64 (pool : Pool) (link : Link) (size headroom tailroom : Nat)
    (parent : Option (Option View)) :
    bufferAllocExAt .bits64 pool link size headroom tailroom parent false =
      bufferAllocEx pool link size headroom tailroom parent := by
  unfold bufferAllocExAt bufferAllocEx
  split
  · rfl
  rename_i small
  have exact : roomRefused .bits64 pool.slotCapacity size headroom tailroom = true ↔
      headroom + size + tailroom > pool.slotCapacity := by
    rw [roomRefused_iff (by omega) (by omega) (by omega) pool.slotCapacity_lt]
    simp [RoomSlips]
  congr 1
  funext current
  split
  · rfl
  · rw [if_congr exact rfl rfl]
    rfl

/-! ## The allocation behind the test -/

section Behind

variable {pool : Pool} {link : Link} {size headroom : Nat} {parent : Option (Option View)} {m : Mem}

/-- A buffer that the call returns has the window and the owner that it was asked for. -/
def Windowed (pool : Pool) (size headroom : Nat) (result : Status × Option View) (m' : Mem) : Prop :=
  result.1 = .ok → ∃ v, result.2 = some v ∧ Synced pool m' v ∧ v.data = headroom ∧ v.length = size

/-- An available slot, whatever the platform answers. -/
theorem allocateTry_windowed {a : AllocateArgs} {epoch token i : Nat} (legal : a.Legal pool)
    (current : m.epoch a.allocator = epoch) (inside : i < pool.slotCount)
    (available : Available m i) :
    (allocateTry pool a epoch token i).wpsIn anyEnv (Guarded pool.lax)
      (fun tried m' => ∃ result, tried = some result ∧ Windowed pool a.length a.offset result m')
      m := by
  have vacant : (m.core i).state = .free → (m.core i).claimToken = 0 ∧ (m.core i).Closed pool.lax :=
    fun _ => ⟨available.2, pool.lax_guards⟩
  have ends : Focused anyEnv pool.lax m i (allocateTry pool a epoch token i) _ (m.core i) [] :=
    allocateTry_focused pool.lax_guards legal.1 legal.2.2 Quiet.nil vacant
  have syncs : Focused anyEnv pool.lax m i (allocateTry pool a epoch token i) _ (m.core i) [] :=
    allocateTry_syncs pool.lax_guards legal.1 legal.2.2 vacant
  refine wpsIn_mono (wpsIn_and (ends m (.refl m i)) (syncs m (.refl m i))) ?_
  rintro (_ | result) m' ⟨⟨c, log, focus, ends⟩, c', log', focus', syncs⟩
  · exact absurd available.1 ends.2.2
  refine ⟨result, rfl, fun ok => ?_⟩
  obtain ⟨_, _, generation, made | ⟨status, rfl, failed, _⟩⟩ := ends
  · obtain ⟨rfl, owned, _, _, _, _, _, _, owner, ownerEpoch, _⟩ := made
    have small : i < u32 := lt_trans inside pool.slotCount_lt
    have fits : c.generation < u32 := generation ▸ nextGeneration_lt _
    have placed := focus.placed inside (handleSlotId_make small) (handleGeneration_make small fits)
      owned
    have fresh : Fresh pool m' (c.view pool i (handleMake i c.generation)) := by
      apply placed.fresh
      rw [focus.epoch]
      exact (congrArg m.epoch owner).trans (current.trans ownerEpoch.symm)
    obtain ⟨_, region, data, length⟩ := syncs _ rfl
    rw [← focus'.core] at region
    have within := legal.2.2
    refine ⟨_, rfl, ⟨fresh.well, fresh.valid, region, ?_⟩, data, length⟩
    rw [data, length]
    simp only [Region.Within] at within
    omega
  · exact absurd ok failed

theorem allocateInternal_windowed {a : AllocateArgs} {ownerEpoch : Nat}
    (current : ownerEpoch ≠ 0 → m.epoch a.allocator = ownerEpoch) :
    (bufferAllocateInternal pool a ownerEpoch).wpsIn anyEnv (Guarded pool.lax)
      (Windowed pool a.length a.offset) m := by
  by_cases legal : a.Legal pool
  swap
  · rw [allocateInternal_refuses legal]
    exact nofun
  refine wpsIn_mono (allocateInternal_scanned legal fun epoch token i same inside available =>
    allocateTry_windowed legal ?_ inside available) ?_
  · subst same
    by_cases given : ownerEpoch ≠ 0
    · rw [if_pos given, current given]
    · rw [if_neg given]
  · rintro result m' (⟨rfl, _⟩ | ⟨_, _, _, _, windowed⟩)
    · exact nofun
    · exact windowed

/-- With entropy and page protection, the call behind the test does not report an overflow. -/
theorem allocateInternal_plentiful {a : AllocateArgs} {ownerEpoch : Nat} :
    (bufferAllocateInternal pool a ownerEpoch).wpsIn plentiful (Guarded pool.lax)
      (fun result _ => result.1 ≠ .regionOverflow) m := by
  by_cases legal : a.Legal pool
  swap
  · rw [allocateInternal_refuses legal]
    exact nofun
  refine wpsIn_mono (allocateInternal_scanned legal fun _ _ _ _ inside available =>
    allocateTry_takes legal.1 legal.2.2 inside available) ?_
  rintro result m' (⟨rfl, _⟩ | ⟨_, _, _, _, takes⟩)
  · exact nofun
  · obtain ⟨v, rfl, _⟩ := takes.returned
    exact nofun

/-- The parent decides only the parent identity, or refuses the call. -/
theorem allocWithParent_ends {good : Env → Prop} {same : Bool}
    {R : Status × Option View → Mem → Prop}
    (refused : R (.invalidArgument, none) m ∧ R (.invalidBuffer, none) m)
    (inner : ∀ parentId, (bufferAllocateInternal pool
      ⟨link.localComponent, parentId, headroom, size, link.hopLimit, link.defaultDeadlineNs, true⟩
      link.localEpoch).wpsIn good (Guarded pool.lax) R m) :
    (allocWithParent pool link size headroom parent same).wpsIn good (Guarded pool.lax) R m := by
  unfold allocWithParent
  refine wpsIn_ite (fun _ => refused.1) fun _ => ?_
  rcases parent with _ | _ | v
  · exact inner 0
  · exact refused.2
  · rw [wpsIn_bind]
    refine wpsIn_mono (bufferOwned_alone pool.lax m v).within ?_
    rintro owned _ ⟨rfl, _⟩
    cases owned with
    | false => exact refused.2
    | true => exact ⟨trivial, fun _ _ => inner _⟩

end Behind

/-! ## The call -/

section Call

variable {t : SizeT} {pool : Pool} {link : Link} {size headroom tailroom : Nat}
  {parent : Option (Option View)} {same : Bool} {m : Mem}

theorem linkCurrent_looks (live : LinkLive m link) : Looks m (linkCurrent link) (.done true) := by
  unfold linkCurrent epochCurrent
  split
  · rename_i given
    obtain ⟨valid, epoch, state⟩ := live given
    unfold componentEpochCurrent
    rw [if_neg (by simp [valid, given])]
    refine .act _ (fun _ => rfl) ?_
    have both : decide (componentLifecycleEpoch (m.components link.localComponent).lifecycle =
        link.localEpoch ∧ componentLifecycleState (m.components link.localComponent).lifecycle ≠
          ComponentState.inactive.toNat) = true := decide_eq_true ⟨epoch, state⟩
    change Looks m (.done (decide _)) (.done true)
    rw [both]
    exact .here _
  · exact .here _

theorem LinkLive.current (live : LinkLive m link) (given : link.localEpoch ≠ 0) :
    m.epoch link.localComponent = link.localEpoch := by
  obtain ⟨valid, epoch, state⟩ := live given
  rw [Mem.epoch, if_pos valid, epochOf, if_neg state, epoch]

/-- A live link gets as far as the room test. -/
theorem bufferAllocExAt_looks (live : LinkLive m link) (small : size < u32) (front : headroom < u32)
    (back : tailroom < u32) :
    Looks m (bufferAllocExAt t pool link size headroom tailroom parent same)
      (if roomRefused t pool.slotCapacity size headroom tailroom then pure (.regionOverflow, none)
        else allocWithParent pool link size headroom parent same) := by
  unfold bufferAllocExAt
  rw [if_neg (by omega)]
  refine (linkCurrent_looks live).bind ?_
  rw [if_neg (by decide)]
  exact .here _

theorem Synced.hasRoom {v : View} (synced : Synced pool m v) (data : v.data = headroom)
    (length : v.length = size) (room : headroom + size + tailroom ≤ pool.slotCapacity) :
    HasRoom m v size headroom tailroom where
  headroom := by
    have looks := bufferHeadroom_looks synced.valid
    rwa [synced.offset, data] at looks
  size := by
    rw [← length]
    exact (bufferOwned_looks synced.valid).bind (.here _)
  tailroom := by
    have looks := bufferTailroom_looks synced.valid
    rw [synced.tailroom, data, length] at looks
    exact ⟨_, by omega, looks⟩

/-- An allocation keeps its promise unless the sum of the three wraps and passes the test. -/
theorem honoursRoom_of_exact (live : LinkLive m link)
    (clean : ¬RoomSlips t pool.slotCapacity size headroom tailroom) :
    HonoursRoom t pool link size headroom tailroom parent same m := by
  intro result m' run
  by_cases small : size < u32 ∧ headroom < u32 ∧ tailroom < u32
  swap
  · have refused : bufferAllocExAt t pool link size headroom tailroom parent same =
        pure (.invalidArgument, none) := if_pos (by omega)
    rw [refused] at run
    cases run
    exact ⟨nofun, fun a b c => absurd ⟨a, b, c⟩ small⟩
  obtain ⟨small, front, back⟩ := small
  have rest := (bufferAllocExAt_looks live small front back).completes run
  have test := roomRefused_iff (t := t) small front back pool.slotCapacity_lt
  split at rest
  · cases rest
    exact ⟨nofun, fun _ _ _ _ => rfl⟩
  · rename_i accepted
    rw [test] at accepted
    have room : headroom + size + tailroom ≤ pool.slotCapacity := by
      by_contra beyond
      exact accepted ⟨by omega, clean⟩
    have windowed : Windowed pool size headroom result m' := by
      refine rest.sound (wpsIn.all (allocWithParent_ends ⟨nofun, nofun⟩ fun parentId => ?_)
        fun _ => trivial).wp
      exact allocateInternal_windowed live.current
    refine ⟨fun ok => ⟨room, ?_⟩, fun _ _ _ beyond => absurd beyond (by omega)⟩
    obtain ⟨v, returned, synced, data, length⟩ := windowed ok
    exact ⟨v, returned, synced.hasRoom data length room⟩

/-- A wrapped sum that passes the test is not reported. -/
theorem not_honoursRoom (live : LinkLive m link) (small : size < u32) (front : headroom < u32)
    (back : tailroom < u32) (slips : RoomSlips t pool.slotCapacity size headroom tailroom) :
    ¬HonoursRoom t pool link size headroom tailroom parent same m := by
  intro honours
  have beyond : pool.slotCapacity < headroom + size + tailroom := by
    have := pool.slotCapacity_lt
    have := slips.2.2.1
    omega
  have run := runWith_completesIn (show plentiful default from ⟨rfl, nofun⟩)
    (allocWithParent pool link size headroom parent same) m
  have reported : ((allocWithParent pool link size headroom parent same).runWith default m).1.1 ≠
      .regionOverflow := run.sound (allocWithParent_ends ⟨nofun, nofun⟩
        fun _ => allocateInternal_plentiful)
  have looks : Looks m (bufferAllocExAt t pool link size headroom tailroom parent same) _ :=
    bufferAllocExAt_looks live small front back
  rw [if_neg (by rw [roomRefused_iff small front back pool.slotCapacity_lt]; tauto)] at looks
  exact reported ((honours _ _ (looks.runs run.completes)).2 small front back beyond)

/-- Allocation honours the requested room exactly when the target has no sum that wraps past
the test. -/
theorem alloc_room_exact (t : SizeT) (pool : Pool) (link : Link) (size headroom tailroom : Nat)
    (words : size < 2 ^ t.bits ∧ headroom < 2 ^ t.bits ∧ tailroom < 2 ^ t.bits)
    (parent : Option (Option View)) (same : Bool) (m : Mem) (live : LinkLive m link) :
    HonoursRoom t pool link size headroom tailroom parent same m ↔
      ¬(t = .bits32 ∧ headroom + size < u32 ∧ u32 ≤ headroom + tailroom ∧
        headroom + size + tailroom ≤ u32 + pool.slotCapacity) := by
  constructor
  · rintro honours ⟨rfl, slips⟩
    exact not_honoursRoom live words.1 words.2.1 words.2.2 ⟨rfl, slips⟩ honours
  · exact honoursRoom_of_exact live

/-- A link of component 1 in its registered epoch. -/
def registeredLink : Link := { (default : Link) with localComponent := 1, localEpoch := 1 }

theorem registeredLink_live : LinkLive registeredSession.mem registeredLink :=
  fun _ => ⟨by decide, by decide, by decide⟩

/-- On a 32-bit target, with sums that stay in range. -/
theorem alloc_room_exact_small :
    HonoursRoom .bits32 smallPool registeredLink 16 8 8 none false registeredSession.mem ↔
      ¬(SizeT.bits32 = .bits32 ∧ 8 + 16 < u32 ∧ u32 ≤ 8 + 8 ∧ 8 + 16 + 8 ≤ u32 + 64) :=
  alloc_room_exact .bits32 smallPool registeredLink 16 8 8 (by decide) none false _
    registeredLink_live

/-- On a 32-bit target a request for 16 bytes between a headroom of 16 and a tailroom of
4294967280 is granted from a slot of 64 bytes. -/
theorem alloc_room_slips :
    ((bufferAllocExAt .bits32 smallPool registeredLink 16 16 4294967280 none false).runWith default
      registeredSession.mem).1.1 = .ok ∧
      ¬HonoursRoom .bits32 smallPool registeredLink 16 16 4294967280 none false
        registeredSession.mem :=
  ⟨by decide +kernel, not_honoursRoom registeredLink_live (by decide) (by decide) (by decide)
    ⟨rfl, by decide, by decide, by decide⟩⟩

end Call

end Zipc
