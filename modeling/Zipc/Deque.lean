import Zipc.Windows
import Zipc.Sending
import Zipc.Lib.Deque

/-! # The window as a queue

The bytes in the window of a buffer are a list with room before and behind it. The edits of the
window are the operations of a bounded queue, and a buffer that is handed over to another
component arrives with the queue that was sent.
-/

namespace Zipc

open Atomic Program Bounded

/-! ## Bytes -/

/-- `length` bytes of slot `i` from `start` on. -/
def Mem.bytes (m : Mem) (i start length : Nat) : List Nat :=
  (List.range length).map fun k => m.payload i (start + k)

section Bytes

variable {m m' : Mem} {i start : Nat}

@[simp] theorem Mem.length_bytes (m : Mem) (i start length : Nat) :
    (m.bytes i start length).length = length := by
  simp [Mem.bytes]

theorem Mem.bytes_add (m : Mem) (i start a b : Nat) :
    m.bytes i start (a + b) = m.bytes i start a ++ m.bytes i (start + a) b := by
  simp [Mem.bytes, List.range_add, Function.comp_def, Nat.add_assoc]

theorem Mem.take_bytes {n length : Nat} (short : n ≤ length) :
    (m.bytes i start length).take n = m.bytes i start n := by
  obtain ⟨rest, rfl⟩ := Nat.exists_eq_add_of_le short
  rw [Mem.bytes_add, List.take_left' (by simp)]

theorem Mem.drop_bytes {n length : Nat} (short : n ≤ length) :
    (m.bytes i start length).drop n = m.bytes i (start + n) (length - n) := by
  obtain ⟨rest, rfl⟩ := Nat.exists_eq_add_of_le short
  rw [Mem.bytes_add, List.drop_left' (by simp), Nat.add_sub_cancel_left]

theorem Mem.bytes_congr {length : Nat}
    (same : ∀ k, k < length → m'.payload i (start + k) = m.payload i (start + k)) :
    m'.bytes i start length = m.bytes i start length := by
  apply List.map_congr_left
  intro k inside
  exact same k (List.mem_range.mp inside)

theorem Mem.payload_copied (m : Mem) (v : View) (start : Nat) (bytes : List Nat) (k : Nat) :
    (m.copied v start bytes).payload v.slotId k =
      if start ≤ k ∧ k < start + bytes.length then bytes.getD (k - start) 0
      else m.payload v.slotId k := by
  simp [Mem.copied, Act.exec]

theorem Mem.payload_copied_other (m : Mem) (v : View) (start : Nat) (bytes : List Nat) {j : Nat}
    (other : j ≠ v.slotId) : (m.copied v start bytes).payload j = m.payload j := by
  simp [Mem.copied, Act.exec, other]

/-- The bytes that were just copied. -/
theorem Mem.bytes_copied (m : Mem) (v : View) (start : Nat) (bytes : List Nat) :
    (m.copied v start bytes).bytes v.slotId start bytes.length = bytes := by
  apply List.ext_getElem (by simp)
  intro k _ inside
  simp only [Mem.bytes, List.getElem_map, List.getElem_range, Mem.payload_copied]
  rw [if_pos (by omega), Nat.add_sub_cancel_left]
  simp [inside]

/-- Bytes beside those that were just copied. -/
theorem Mem.bytes_beside (m : Mem) (v : View) (start : Nat) (bytes : List Nat) {first length : Nat}
    (beside : first + length ≤ start ∨ start + bytes.length ≤ first) :
    (m.copied v start bytes).bytes v.slotId first length = m.bytes v.slotId first length := by
  apply Mem.bytes_congr
  intro k short
  rw [Mem.payload_copied, if_neg (by omega)]

end Bytes

/-! ## One edit -/

/-- The queue in the window of the view. -/
def Mem.queue (pool : Pool) (m : Mem) (v : View) : Deque Nat :=
  ⟨v.data, m.bytes v.slotId v.data v.length, pool.slotCapacity - v.data - v.length⟩

/-- A valid view whose window is the region of its slot. -/
structure Synced (pool : Pool) (m : Mem) (v : View) : Prop where
  placed : ViewWell pool v
  valid : Valid m v
  region : (m.core v.slotId).region = ⟨v.data, v.length⟩
  within : v.data + v.length ≤ pool.slotCapacity

/-- The edit that performs the operation on the window of a buffer. -/
def edit : Op Nat → Edit
  | .append bytes => .append bytes
  | .prepend bytes => .prepend bytes
  | .dropFront n => .trimFront n
  | .dropBack n => .trimBack n
  | .keep n => .resize n

/-- The memory with another region in a slot. -/
def Mem.moved (m : Mem) (i : Nat) (region : Region) : Mem :=
  m.setSlot i { m.slots i with region }

section Edits

variable {pool : Pool} {m m' : Mem} {v : View} {status : Status} {buffer : Option View}

/-- A run of `zipc_buffer_set_region` with a region that fits. -/
theorem setRegion_moves (valid : Valid m v) {offset length : Nat} {region : Region}
    (place : v.place offset length = some region)
    (run : Completes (bufferSetRegion (some v) offset length) m (status, buffer) m') :
    status = .ok ∧ buffer = some { v with data := region.offset, length := region.length } ∧
      m' = m.moved v.slotId region := by
  have looks := setRegion_looks valid offset length
  rw [place] at looks
  have rest := looks.completes run
  cases rest with
  | act e rest =>
      cases rest with
      | act e' rest =>
          cases rest
          refine ⟨rfl, rfl, ?_⟩
          simp [exec_eq, Act.exec, Mem.moved, Mem.setSlot, SlotWrite.apply]

/-- What an edit that is not refused does: it moves the window, and writes only bytes that the
window newly covers. -/
structure Moves (pool : Pool) (m : Mem) (v : View) (m' : Mem) (v' : View) : Prop where
  synced : Synced pool m' v'
  handle : v'.handle = v.handle
  slot : v'.slotId = v.slotId
  payload : ∀ j k, ¬ (j = v.slotId ∧ (v'.data ≤ k ∧ k < v'.data + v'.length) ∧
    ¬ (v.data ≤ k ∧ k < v.data + v.length)) → m'.payload j k = m.payload j k
  slots : ∀ j, j ≠ v.slotId → m'.slots j = m.slots j
  access : m'.access = m.access

theorem Mem.moved_bytes (m : Mem) (i : Nat) (region : Region) (j start length : Nat) :
    (m.moved i region).bytes j start length = m.bytes j start length := rfl

/-- The window after a move, on a slot whose bytes may just have changed. -/
theorem Synced.moved (synced : Synced pool m v) {a : Mem} {region : Region}
    (slots : a.slots = m.slots) (components : a.components = m.components)
    (fits : region.offset + region.length ≤ pool.slotCapacity) :
    Synced pool (a.moved v.slotId region)
      { v with data := region.offset, length := region.length } where
  placed := ⟨synced.placed.slot, synced.placed.inside, synced.placed.capacity⟩
  valid := by
    have valid := synced.valid
    have core : (a.moved v.slotId region).core v.slotId =
        { m.core v.slotId with region, access := a.access v.slotId, payload := a.payload v.slotId } := by
      simp [Mem.core, Mem.moved, Mem.setSlot, SlotControl.core, slots]
    have epoch : (a.moved v.slotId region).epoch v.owner = m.epoch v.owner := by
      simp [Mem.epoch, Mem.moved, Mem.setSlot, components]
    constructor
    · rw [core]
      exact valid.generation
    · rw [core]
      exact valid.state
    · rw [core]
      exact valid.owner
    · rw [core]
      exact valid.ownerEpoch
    · exact epoch.trans valid.current
  region := by simp [Mem.core, Mem.moved, Mem.setSlot, SlotControl.core]
  within := fits

/-- A move that copies nothing. -/
theorem Synced.moves (synced : Synced pool m v) {region : Region}
    (fits : region.offset + region.length ≤ pool.slotCapacity) :
    Moves pool m v (m.moved v.slotId region)
      { v with data := region.offset, length := region.length } where
  synced := synced.moved rfl rfl fits
  handle := rfl
  slot := rfl
  payload _ _ _ := rfl
  slots j other := by simp [Mem.moved, Mem.setSlot, other]
  access := rfl

/-- A move after a copy into what the window newly covers. -/
theorem Synced.copies (synced : Synced pool m v) {start : Nat} {bytes : List Nat} {region : Region}
    (fits : region.offset + region.length ≤ pool.slotCapacity)
    (covers : ∀ k, start ≤ k → k < start + bytes.length →
      (region.offset ≤ k ∧ k < region.offset + region.length) ∧
        ¬ (v.data ≤ k ∧ k < v.data + v.length)) :
    Moves pool m v ((m.copied v start bytes).moved v.slotId region)
      { v with data := region.offset, length := region.length } where
  synced := synced.moved rfl rfl fits
  handle := rfl
  slot := rfl
  payload j k out := by
    by_cases here : j = v.slotId
    · subst here
      have apart : ¬ (start ≤ k ∧ k < start + bytes.length) :=
        fun inside => out ⟨rfl, covers k inside.1 inside.2⟩
      exact (m.payload_copied v start bytes k).trans (if_neg apart)
    · exact congrFun (m.payload_copied_other v start bytes here) k
  slots j other := by simp [Mem.moved, Mem.setSlot, Mem.copied, Act.exec, other]
  access := rfl

/-- How an operation of the queue ends on the window. -/
def OpEnds (pool : Pool) (m : Mem) (v : View) (op : Op Nat) (status : Status)
    (buffer : Option View) (m' : Mem) : Prop :=
  match (m.queue pool v).apply op with
  | none => status = .regionOverflow ∧ buffer = some v ∧ m' = m
  | some q => status = .ok ∧ ∃ v', buffer = some v' ∧ Moves pool m v m' v' ∧ m'.queue pool v' = q

theorem refused_ends {op : Op Nat} (none : (m.queue pool v).apply op = none)
    (looks : Looks m ((edit op).program v) (.done (.regionOverflow, some v)))
    (run : Completes ((edit op).program v) m (status, buffer) m') :
    OpEnds pool m v op status buffer m' := by
  have stop := looks.completes run
  cases stop
  rw [OpEnds, none]
  exact ⟨rfl, rfl, rfl⟩

theorem View.place_fits (placed : ViewWell pool v) {offset length : Nat}
    (fits : offset + length ≤ pool.slotCapacity) : v.place offset length = some ⟨offset, length⟩ := by
  rw [View.place, placed.capacity, if_neg (by omega)]

/-- An operation that sets the region at once. -/
theorem direct_ends {op : Op Nat} (synced : Synced pool m v) {offset length : Nat} {q : Deque Nat}
    (fits : offset + length ≤ pool.slotCapacity) (some' : (m.queue pool v).apply op = some q)
    (result : q = ⟨offset, m.bytes v.slotId offset length, pool.slotCapacity - offset - length⟩)
    (looks : Looks m ((edit op).program v) (bufferSetRegion (some v) offset length))
    (run : Completes ((edit op).program v) m (status, buffer) m') :
    OpEnds pool m v op status buffer m' := by
  obtain ⟨rfl, rfl, rfl⟩ := setRegion_moves synced.valid (View.place_fits synced.placed fits)
    (looks.completes run)
  rw [OpEnds, some']
  exact ⟨rfl, _, rfl, synced.moves fits, result.symm⟩

/-- An operation that copies and then sets the region. -/
theorem copy_ends {op : Op Nat} (synced : Synced pool m v) {offset length start : Nat}
    {bytes : List Nat} {next : Unit → Prog (Status × Option View)} {q : Deque Nat}
    (fits : offset + length ≤ pool.slotCapacity)
    (covers : ∀ k, start ≤ k → k < start + bytes.length →
      (offset ≤ k ∧ k < offset + length) ∧ ¬ (v.data ≤ k ∧ k < v.data + v.length))
    (some' : (m.queue pool v).apply op = some q)
    (result : q = ⟨offset, (m.copied v start bytes).bytes v.slotId offset length,
      pool.slotCapacity - offset - length⟩)
    (looks : Looks m ((edit op).program v) (.act (.copyIn v.slotId start bytes) next))
    (goes : Looks (m.copied v start bytes) (next ()) (bufferSetRegion (some v) offset length))
    (run : Completes ((edit op).program v) m (status, buffer) m') :
    OpEnds pool m v op status buffer m' := by
  have copying := looks.completes run
  cases copying with
  | act e rest =>
      have valid : Valid (m.copied v start bytes) v := synced.valid.copied start bytes
      have moving := goes.completes rest
      obtain ⟨rfl, rfl, rfl⟩ := setRegion_moves valid (View.place_fits synced.placed fits) moving
      rw [OpEnds, some']
      exact ⟨rfl, _, rfl, synced.copies fits covers, result.symm⟩

section Ops

variable (synced : Synced pool m v)
include synced

theorem Synced.offset : (m.core v.slotId).region.offset = v.data := by
  rw [synced.region]

theorem Synced.tailroom : v.tailroom (m.core v.slotId).region.offset =
    pool.slotCapacity - v.data - v.length := by
  have within := synced.within
  rw [synced.offset, View.tailroom, synced.placed.capacity, if_neg (by omega)]

theorem append_ends {bytes : List Nat}
    (run : Completes ((edit (.append bytes)).program v) m (status, buffer) m') :
    OpEnds pool m v (.append bytes) status buffer m' := by
  have within := synced.within
  have small := pool.slotCapacity_lt
  have room := synced.tailroom
  by_cases full : bytes.length > v.tailroom (m.core v.slotId).region.offset
  · refine refused_ends ?_ ?_ run
    · rw [room] at full
      exact if_neg (Nat.not_le.mpr full)
    · refine (bufferOwned_looks synced.valid).bind ((bufferTailroom_looks synced.valid).bind ?_)
      rw [if_pos full]
      exact .here _
  · have looks : Looks m (bufferAppend (some v) bytes)
        (.act (.copyIn v.slotId (v.data + v.length) bytes) fun _ => do
          let offset ← read v.slotId (·.region.offset)
          bufferSetRegion (some v) offset ((v.length + bytes.length) % u32)) := by
      refine (bufferOwned_looks synced.valid).bind ((bufferTailroom_looks synced.valid).bind ?_)
      rw [if_neg full]
      exact .here _
    rw [room] at full
    have sum : (v.length + bytes.length) % u32 = v.length + bytes.length :=
      Nat.mod_eq_of_lt (by omega)
    rw [sum] at looks
    have goes : Looks (m.copied v (v.data + v.length) bytes)
        (do
          let offset ← read v.slotId (·.region.offset)
          bufferSetRegion (some v) offset (v.length + bytes.length))
        (bufferSetRegion (some v) v.data (v.length + bytes.length)) :=
      .act v.data (fun _ => by rw [← synced.offset]; rfl) (.here _)
    refine copy_ends synced (by omega) (fun k low high => by omega) (if_pos (Nat.not_lt.mp full))
      ?_ looks goes run
    rw [Mem.bytes_add, Mem.bytes_copied, Mem.bytes_beside _ _ _ _ (.inl le_rfl), Deque.mk.injEq]
    exact ⟨rfl, rfl, by simp only [Mem.queue]; omega⟩

theorem prepend_ends {bytes : List Nat}
    (run : Completes ((edit (.prepend bytes)).program v) m (status, buffer) m') :
    OpEnds pool m v (.prepend bytes) status buffer m' := by
  have within := synced.within
  have small := pool.slotCapacity_lt
  have offset := synced.offset
  by_cases full : bytes.length > (m.core v.slotId).region.offset
  · refine refused_ends ?_ ?_ run
    · rw [offset] at full
      exact if_neg (Nat.not_le.mpr full)
    · refine (bufferOwned_looks synced.valid).bind ((bufferHeadroom_looks synced.valid).bind ?_)
      rw [if_pos full]
      exact .here _
  · have looks : Looks m (bufferPrepend (some v) bytes)
        (.act (.copyIn v.slotId (sub32 (m.core v.slotId).region.offset bytes.length) bytes)
          fun _ => bufferSetRegion (some v) (sub32 (m.core v.slotId).region.offset bytes.length)
            ((v.length + bytes.length) % u32)) := by
      refine (bufferOwned_looks synced.valid).bind ((bufferHeadroom_looks synced.valid).bind ?_)
      rw [if_neg full]
      exact .act _ (fun _ => rfl) (.here _)
    rw [offset] at full
    have shift : sub32 (m.core v.slotId).region.offset bytes.length = v.data - bytes.length := by
      rw [offset]
      exact sub32_of_le (Nat.not_lt.mp full) (by omega)
    have sum : (v.length + bytes.length) % u32 = bytes.length + v.length := by
      rw [Nat.mod_eq_of_lt (by omega), Nat.add_comm]
    rw [shift, sum] at looks
    refine copy_ends synced (by omega) (fun k low high => by omega) (if_pos (Nat.not_lt.mp full))
      ?_ looks (.here _) run
    have meets : v.data - bytes.length + bytes.length = v.data := Nat.sub_add_cancel (Nat.not_lt.mp full)
    rw [Mem.bytes_add, Mem.bytes_copied, meets, Mem.bytes_beside _ _ _ _ (.inr meets.le),
      Deque.mk.injEq]
    exact ⟨rfl, rfl, by simp only [Mem.queue]; omega⟩

theorem dropFront_ends {n : Nat}
    (run : Completes ((edit (.dropFront n)).program v) m (status, buffer) m') :
    OpEnds pool m v (.dropFront n) status buffer m' := by
  have within := synced.within
  have small := pool.slotCapacity_lt
  have length : (m.queue pool v).items.length = v.length := Mem.length_bytes _ _ _ _
  by_cases long : n > v.length
  · refine refused_ends (if_neg (by omega)) ((bufferOwned_looks synced.valid).bind ?_) run
    dsimp only
    rw [if_pos long]
    exact .here _
  · have sum : (v.data + n) % u32 = v.data + n := Nat.mod_eq_of_lt (by omega)
    have looks : Looks m (bufferTrimFront (some v) n)
        (bufferSetRegion (some v) (v.data + n) (v.length - n)) := by
      refine (bufferOwned_looks synced.valid).bind ?_
      dsimp only
      rw [if_neg long]
      have goes : Looks m (bufferSetRegion (some v) ((v.data + n) % u32) (v.length - n))
          (bufferSetRegion (some v) (v.data + n) (v.length - n)) := by
        rw [sum]
        exact .here _
      exact .act v.data (fun _ => by rw [← synced.offset]; rfl) goes
    refine direct_ends synced (by omega) (if_pos (by omega)) ?_ looks run
    rw [← Mem.drop_bytes (Nat.not_lt.mp long), Deque.mk.injEq]
    exact ⟨rfl, rfl, by simp only [Mem.queue]; omega⟩

theorem dropBack_ends {n : Nat}
    (run : Completes ((edit (.dropBack n)).program v) m (status, buffer) m') :
    OpEnds pool m v (.dropBack n) status buffer m' := by
  have within := synced.within
  have length : (m.queue pool v).items.length = v.length := Mem.length_bytes _ _ _ _
  by_cases long : n > v.length
  · refine refused_ends (if_neg (by omega)) ((bufferOwned_looks synced.valid).bind ?_) run
    dsimp only
    rw [if_pos long]
    exact .here _
  · have looks : Looks m (bufferTrimBack (some v) n)
        (bufferSetRegion (some v) v.data (v.length - n)) := by
      refine (bufferOwned_looks synced.valid).bind ?_
      dsimp only
      rw [if_neg long]
      exact .act v.data (fun _ => by rw [← synced.offset]; rfl) (.here _)
    refine direct_ends synced (by omega) (if_pos (by omega)) ?_ looks run
    rw [length, ← Mem.take_bytes (Nat.sub_le v.length n), Deque.mk.injEq]
    exact ⟨rfl, rfl, by simp only [Mem.queue]; omega⟩

theorem keep_ends {n : Nat} (shrinks : n ≤ v.length)
    (run : Completes ((edit (.keep n)).program v) m (status, buffer) m') :
    OpEnds pool m v (.keep n) status buffer m' := by
  have within := synced.within
  have small := pool.slotCapacity_lt
  have length : (m.queue pool v).items.length = v.length := Mem.length_bytes _ _ _ _
  have room := synced.tailroom
  have offset := synced.offset
  have after : sub32 v.capacity (m.core v.slotId).region.offset = pool.slotCapacity - v.data := by
    rw [offset, synced.placed.capacity]
    exact sub32_of_le (by omega) small
  have looks : Looks m (bufferResize (some v) n) (bufferSetRegion (some v) v.data n) := by
    refine (bufferOwned_looks synced.valid).bind ?_
    dsimp only
    rw [if_neg (by omega)]
    refine (bufferHeadroom_looks synced.valid).bind ((bufferTailroom_looks synced.valid).bind ?_)
    have all : (v.data + (pool.slotCapacity - v.data - v.length) + v.length) % u32 =
      pool.slotCapacity := by
      rw [Nat.mod_eq_of_lt (by omega)]
      omega
    rw [room, offset, all, if_neg (by omega)]
    have reads : Looks m (read v.slotId (·.region.offset)) (.done v.data) :=
      .act v.data (fun _ => by rw [← synced.offset]; rfl) (.here _)
    refine reads.bind ?_
    rw [← offset, after, if_neg (by omega)]
    exact .here _
  refine direct_ends synced (by omega) (if_pos (by omega)) ?_ looks run
  rw [length, ← Mem.take_bytes shrinks, Deque.mk.injEq]
  exact ⟨rfl, rfl, by simp only [Mem.queue]; omega⟩

/-- Every operation of the queue, on the window of a synced view. -/
theorem op_ends {op : Op Nat} (shrinks : ∀ n, op = .keep n → n ≤ v.length)
    (run : Completes ((edit op).program v) m (status, buffer) m') :
    OpEnds pool m v op status buffer m' := by
  cases op with
  | append bytes => exact append_ends synced run
  | prepend bytes => exact prepend_ends synced run
  | dropFront n => exact dropFront_ends synced run
  | dropBack n => exact dropBack_ends synced run
  | keep n => exact keep_ends synced (shrinks n rfl) run

end Ops

end Edits

/-! ## Handing over -/

/-- Actions that leave every region and every payload alone. -/
def Act.unmoving {β : Type} : Act β → Prop
  | .copyIn _ _ _ | .write _ (.regionOffset _) | .write _ (.regionLength _) => False
  | _ => True

/-- The program moves no window and copies no bytes. -/
def Unmoving {α : Type} : Prog α → Prop
  | .done _ => True
  | .act action next => action.unmoving ∧ ∀ b, Unmoving (next b)

section Unmoving

variable {α β : Type} {pool : Pool} {m m' : Mem}

theorem unmoving_act {action : Act β} {next : β → Prog α} (still : action.unmoving)
    (rest : ∀ b, Unmoving (next b)) : Unmoving (.act action next) := ⟨still, rest⟩

theorem Unmoving.bind {p : Prog β} {f : β → Prog α} (first : Unmoving p)
    (rest : ∀ b, Unmoving (f b)) : Unmoving (p >>= f) := by
  induction p with
  | done b => exact rest b
  | act action next ih => exact ⟨first.1, fun b => ih b (first.2 b)⟩

theorem unmoving_ite {c : Prop} [Decidable c] {p q : Prog α} (pos : Unmoving p) (neg : Unmoving q) :
    Unmoving (if c then p else q) := by
  split
  · exact pos
  · exact neg

theorem region_setSlot {i : Nat} {s : SlotControl} (same : s.region = (m.slots i).region) (j : Nat) :
    ((m.setSlot i s).slots j).region = (m.slots j).region := by
  by_cases here : j = i
  · rw [here, Mem.slots_setSlot, Function.update_self, same]
  · rw [Mem.slots_setSlot, Function.update_of_ne here]

theorem Act.unmoving.keeps {action : Act β} (still : action.unmoving) (e : Env) (m : Mem) :
    (∀ j, ((action.exec e m).2.slots j).region = (m.slots j).region) ∧
      (action.exec e m).2.payload = m.payload := by
  have same : (∀ j, (m.slots j).region = (m.slots j).region) ∧ m.payload = m.payload :=
    ⟨fun _ => rfl, rfl⟩
  cases action
  case copyIn => exact still.elim
  case write i w => exact ⟨region_setSlot (by cases w <;> first | rfl | exact still.elim), rfl⟩
  case storeState | storeToken => exact ⟨region_setSlot rfl, rfl⟩
  case casState =>
    simp only [Act.exec]
    split
    · exact ⟨region_setSlot rfl, rfl⟩
    · exact same
  case casToken =>
    simp only [Act.exec]
    split
    · exact ⟨region_setSlot rfl, rfl⟩
    · exact same
  case casLifecycle | eventWrite | protect =>
    simp only [Act.exec]
    split <;> exact same
  case eventRead =>
    simp only [Act.exec]
    split
    · exact same
    · split <;> exact same
  all_goals exact same

theorem Unmoving.keeps {p : Prog α} {a : α} (still : Unmoving p) (run : Completes p m a m') :
    (∀ j, (m'.slots j).region = (m.slots j).region) ∧ m'.payload = m.payload := by
  induction run with
  | done a m => exact ⟨fun _ => rfl, rfl⟩
  | act e _ ih =>
      obtain ⟨region, payload⟩ := ih (still.2 _)
      obtain ⟨region', payload'⟩ := still.1.keeps e _
      exact ⟨fun j => (region j).trans (region' j), payload.trans payload'⟩

theorem ringScan_unmoving {r : Nat} {message : Message} {depth : Nat} (left position : Nat) :
    Unmoving (ringScan r message depth left position) := by
  induction left generalizing position with
  | zero => trivial
  | succ left ih => exact unmoving_act trivial fun _ => unmoving_ite trivial (ih _)

theorem transportSend_unmoving (t : Transport) (message : Message) :
    Unmoving (transportSend t message) := by
  have pushes (r : Nat) : Unmoving (ringPush r message) := by
    simp only [ringPush, lift_bind]
    refine unmoving_act trivial fun depth => unmoving_ite trivial ?_
    refine unmoving_act trivial fun producer => unmoving_act trivial fun consumer => ?_
    refine unmoving_ite trivial ((ringScan_unmoving _ _).bind fun pending => ?_)
    exact unmoving_ite trivial (unmoving_act trivial fun _ => unmoving_act trivial fun _ => trivial)
  cases t with
  | eventfd r =>
      refine (pushes r).bind fun status => unmoving_ite trivial ?_
      exact unmoving_act trivial fun _ => trivial
  | polling r timeout => exact pushes r
  | external => exact unmoving_act trivial fun _ => trivial

/-- A send moves no window and copies no bytes. -/
theorem send_unmoving (link : Link) (v : View) : Unmoving (send pool link (some v)) := by
  have protects (i : Nat) (readWrite : Bool) : Unmoving (protectSlot pool i readWrite) := by
    unfold protectSlot
    exact unmoving_ite trivial (unmoving_ite trivial (unmoving_act trivial fun _ => trivial))
  have prepares (handle owner next linkId : Nat) :
      Unmoving (bufferPrepareTransferInternal pool handle owner next linkId) := by
    simp only [bufferPrepareTransferInternal, prepareClaimed, limitsExceeded, prepareTransfer,
      registeredEpoch, ownedBy, recordProtocolError, recordSlotError, traceSlot, publish,
      clearClaimToken, lift_bind, act_bind, pure_eq, done_bind]
    repeat' first
      | exact trivial | exact protects _ _ | apply unmoving_ite | apply unmoving_act
      | apply Unmoving.bind | intro _ | split
  have rolls (i : Nat) (message : Message) : Unmoving (rollbackTransfer pool link i message) := by
    simp only [rollbackTransfer, rollbackClaimed, rollbackMatches, publish, clearClaimToken,
      lift_bind, act_bind, pure_eq, done_bind]
    repeat' first
      | exact trivial | exact protects _ _ | apply unmoving_ite | apply unmoving_act
      | apply Unmoving.bind | intro _
  have traces {f : Unit → Prog (Status × Option View)} {handle sequence component : Nat}
      {event : TraceEvent} (rest : ∀ b, Unmoving (f b)) :
      Unmoving (traceExternalEvent pool handle sequence component event >>= f) :=
    unmoving_act trivial fun _ => unmoving_act trivial rest
  have owns : Unmoving (bufferOwned (some v)) := by
    simp only [bufferOwned, ownedBy, registeredEpoch, lift_bind, act_bind, pure_eq]
    repeat' first
      | exact trivial | apply unmoving_ite | apply unmoving_act | apply Unmoving.bind | intro _
  have current : Unmoving (linkCurrent link) := by
    simp only [linkCurrent, epochCurrent, componentEpochCurrent, lift_bind]
    exact unmoving_ite (unmoving_ite trivial (unmoving_act trivial fun _ => trivial)) trivial
  unfold send
  refine owns.bind fun owned => ?_
  cases owned with
  | false => trivial
  | true =>
      refine current.bind fun current => unmoving_ite trivial (unmoving_ite trivial ?_)
      refine (prepares _ _ _ _).bind fun prepared => ?_
      cases prepared with
      | error status => trivial
      | ok message =>
          unfold sendPrepared
          refine (transportSend_unmoving _ _).bind fun status => ?_
          refine unmoving_ite (traces fun _ => trivial) (unmoving_ite ?_ trivial)
          refine (rolls _ _).bind fun undone => ?_
          exact unmoving_ite (traces fun _ => trivial) trivial

end Unmoving

/-! ## Buffers that a call returns -/

/-- The buffer that a call returns has the region of its slot as its window. -/
def Syncs (window : View → Prop) (result : Status × Option View) (m : Mem) : Prop :=
  ∀ v, result.2 = some v → (m.core v.slotId).region = ⟨v.data, v.length⟩ ∧ window v

/-- As `Syncs`, for the core of the slot that the call works on. -/
def SyncsCore (window : View → Prop) (i : Nat) (result : Status × Option View) (c : SlotCore)
    (_ : List TraceRecord) : Prop :=
  ∀ v, result.2 = some v → v.slotId = i ∧ c.region = ⟨v.data, v.length⟩ ∧ window v

/-- The window that an allocation asks for. -/
def AllocateArgs.Window (a : AllocateArgs) (v : View) : Prop :=
  v.data = a.offset ∧ v.length = a.length

section Allocating

variable {guard pool : Pool} {a : AllocateArgs} {epoch token i : Nat} {m m₀ : Mem} {c : SlotCore}
  {log : List TraceRecord}

theorem SyncsCore.syncs {window : View → Prop} {result : Status × Option View}
    (syncs : SyncsCore window i result c log) (focus : Focus m₀ i c log m) :
    Syncs window result m := by
  intro v same
  obtain ⟨rfl, region, holds⟩ := syncs v same
  exact ⟨focus.core ▸ region, holds⟩

theorem syncs_none {window : View → Prop} {status : Status} : Syncs window (status, none) m :=
  fun _ done => by cases done

theorem syncsCore_none {window : View → Prop} {status : Status} :
    SyncsCore window i (status, none) c log :=
  fun _ done => by cases done

theorem allocateAbort_syncs {window : View → Prop} {revoke : Bool} {status : Status}
    (lax : guard.strict = true → pool.strict = true) (closed : c.Closed guard) :
    Focused anyEnv guard m₀ i (allocateAbort pool a.allocator i revoke status)
      (SyncsCore window i) c log := by
  simp only [allocateAbort]
  refine focused_traceSlot ?_
  split
  · refine focused_protectSlot (fun _ _ _ => ?_) (fun access hidden => ?_)
    · exact focused_freeClaimingSlot closed (focused_count (focused_done syncsCore_none))
    · have shut : { c with access }.Closed guard := fun strict => hidden (lax strict)
      exact focused_freeClaimingSlot shut (focused_count (focused_done syncsCore_none))
  · exact focused_freeClaimingSlot closed (focused_count (focused_done syncsCore_none))

theorem allocateClaimed_syncs (lax : guard.strict = true → pool.strict = true)
    (valid : componentIdValid a.allocator = true)
    (within : (⟨a.offset, a.length⟩ : Region).Within pool.slotCapacity)
    (held : c.claimToken = token) (closed : c.Closed guard) :
    Focused anyEnv guard m₀ i (allocateClaimed pool a epoch token i) (SyncsCore a.Window i) c log := by
  simp only [allocateClaimed, lift_bind]
  refine focused_loadGeneration (focused_write (focused_writeAll ?_))
  refine focused_now (focused_write (focused_write (focused_writeAll ?_)))
  simp only [SlotCore.applyAll, allocateFields, allocateResets, List.foldl_cons, List.foldl_nil,
    SlotWrite.applyCore]
  refine focused_generateBufferId valid fun fresh _ _ => ?_
  cases fresh with
  | error status => exact allocateAbort_syncs lax closed
  | ok id =>
      refine focused_write ?_
      simp only [SlotWrite.applyCore]
      refine focused_enablePayload (fun status failed _ => ?_) (fun access _ => ?_)
      · rw [if_pos failed]
        exact allocateAbort_syncs lax closed
      rw [if_neg (not_not_intro rfl)]
      refine focused_makeView within ?_
      refine focused_traceSlot (focused_publish (by simp) ?_ (focused_storeCursor (focused_count ?_)))
      · exact held
      refine focused_done ?_
      rintro v ⟨⟩
      exact ⟨rfl, rfl, rfl, rfl⟩

/-- One round of the scan: the slot is left alone, or the allocation ends with its window. -/
theorem allocateTry_syncs (lax : guard.strict = true → pool.strict = true)
    (valid : componentIdValid a.allocator = true)
    (within : (⟨a.offset, a.length⟩ : Region).Within pool.slotCapacity)
    (vacant : c.state = .free → c.claimToken = 0 ∧ c.Closed guard) :
    Focused anyEnv guard m₀ i (allocateTry pool a epoch token i) (fun tried c' log' => match tried with
      | none => c' = c ∧ log' = log
      | some result => SyncsCore a.Window i result c' log') c log := by
  simp only [allocateTry, lift_bind]
  refine focused_loadState ?_
  by_cases free : c.state = .free
  swap
  · rw [if_pos free]
    exact focused_done ⟨rfl, rfl⟩
  rw [if_neg (not_not_intro free)]
  obtain ⟨zero, closed⟩ := vacant free
  refine focused_casToken (fun _ => ?_) (fun missed => absurd zero missed)
  rw [if_neg (not_not_intro rfl)]
  refine focused_casState (by decide) (fun _ => ?_) (fun lost => absurd free lost)
  rw [if_neg (by decide)]
  have claimed : Focused anyEnv guard m₀ i (allocateClaimed pool a epoch token i)
      (SyncsCore a.Window i) { c with claimToken := token, state := .claiming } log :=
    allocateClaimed_syncs lax valid within rfl closed
  apply focused_bind
  refine claimed.mono ?_
  intro result c' log' syncs
  exact focused_done syncs

theorem allocateScan_syncs {start : Nat} (valid : componentIdValid a.allocator = true)
    (within : (⟨a.offset, a.length⟩ : Region).Within pool.slotCapacity) (left : Nat) :
    left ≤ pool.slotCount → ∀ n (m : Mem), PoolWell pool m →
      (allocateScan pool a epoch token start left n).wps (Guarded pool) (Syncs a.Window) m := by
  induction left with
  | zero =>
      intro _ n m _
      exact ⟨trivial, fun _ => nofun⟩
  | succ left ih =>
      intro few n m well
      have inside : (start + n) % u32 % pool.slotCount < pool.slotCount :=
        Nat.mod_lt _ (by omega)
      simp only [allocateScan]
      rw [wps_bind]
      refine wps_mono (allocateTry_syncs id valid within (well _ inside).vacant).alone ?_
      rintro (_ | result) m' ⟨c, log, focus, ends⟩
      · obtain ⟨rfl, rfl⟩ := ends
        have settles : Settles pool freeReach m m' := focus.still Quiet.nil
        exact ih (by omega) (n + 1) m' (settles.well well)
      · exact SyncsCore.syncs ends focus

theorem allocateInternal_syncs {ownerEpoch : Nat} (well : PoolWell pool m) :
    (bufferAllocateInternal pool a ownerEpoch).wps (Guarded pool) (Syncs a.Window) m := by
  simp only [bufferAllocateInternal]
  refine wps_ite (fun _ => syncs_none) (fun legal => ?_)
  simp only [not_or, Bool.not_eq_false] at legal
  have within : (⟨a.offset, a.length⟩ : Region).Within pool.slotCapacity := by
    simp only [Region.Within]
    omega
  have scan (epoch start : Nat) : (allocateScan pool a epoch
      (claimTokenMake .allocate a.allocator epoch) start pool.slotCount 0).wps (Guarded pool)
        (Syncs a.Window) m :=
    allocateScan_syncs legal.1 within pool.slotCount le_rfl 0 m well
  rw [wps_bind]
  simp only [allocateEpoch]
  refine wps_ite (fun given => ?_) (fun missing => ?_)
  · exact ⟨trivial, fun _ => scan _ _⟩
  · refine wps_mono (registeredEpoch_alone pool m a.allocator) ?_
    rintro _ m' ⟨rfl, rfl⟩
    exact ⟨trivial, fun _ => scan _ _⟩

theorem bufferAllocEx_syncs (link : Link) (size headroom tailroom : Nat)
    (parent : Option (Option View)) (well : PoolWell pool m) :
    (bufferAllocEx pool link size headroom tailroom parent).wps (Guarded pool)
      (Syncs fun v => v.data = headroom ∧ v.length = size) m := by
  simp only [bufferAllocEx]
  refine wps_ite (fun _ => syncs_none) (fun _ => ?_)
  rw [wps_bind]
  refine wps_mono (epochCurrent_alone pool m _ _) ?_
  rintro current m ⟨rfl, _⟩
  refine wps_ite (fun _ => syncs_none) (fun _ => wps_ite (fun _ => syncs_none) (fun _ => ?_))
  cases parent with
  | none => exact allocateInternal_syncs well
  | some buffer =>
      cases buffer with
      | none => exact syncs_none
      | some v =>
          simp only
          rw [wps_bind]
          refine wps_mono (bufferOwned_alone pool m v) ?_
          rintro owned m ⟨rfl, _⟩
          cases owned with
          | false => exact syncs_none
          | true => exact ⟨trivial, fun _ => allocateInternal_syncs well⟩

/-- A valid buffer of a well-formed pool, whose window is the region of its slot. -/
theorem Fresh.synced {v : View} (fresh : Fresh pool m v) (well : PoolWell pool m)
    (region : (m.core v.slotId).region = ⟨v.data, v.length⟩) : Synced pool m v := by
  have within := (well _ fresh.well.inside).region
  rw [region, Region.Within] at within
  exact ⟨fresh.well, fresh.valid, region, by dsimp only at within; omega⟩

/-- A buffer that `zipc_buffer_alloc_ex` returns has the window that it was asked for. -/
theorem allocEx_synced {link : Link} {size headroom tailroom : Nat} {parent : Option (Option View)}
    {status : Status} {v : View} {m' : Mem} (well : PoolWell pool m)
    (run : Completes (bufferAllocEx pool link size headroom tailroom parent) m (status, some v) m') :
    Synced pool m' v ∧ v.data = headroom ∧ v.length = size := by
  have gives := run.sound (bufferAllocEx_alone link size headroom tailroom parent well).wp
  obtain ⟨region, data, length⟩ :=
    run.sound (bufferAllocEx_syncs link size headroom tailroom parent well).wp v rfl
  exact ⟨(gives.fresh v rfl).2.synced (gives.lives.well well) region, data, length⟩

end Allocating

section Receiving

variable {α : Type} {pool : Pool} {m m' m'' : Mem}

/-- What receives do to the slots: only slots in transfer change, and each of them is freed or
keeps its region. -/
def Arrives (m m' : Mem) : Prop :=
  ∀ j, m'.core j = m.core j ∨ ((m.core j).state = .transfer ∧ (m'.core j).state ≠ .transfer ∧
    ((m'.core j).state = .free ∨ (m'.core j).region = (m.core j).region))

theorem Arrives.refl (m : Mem) : Arrives m m := fun _ => .inl rfl

theorem Arrives.trans (first : Arrives m m') (second : Arrives m' m'') : Arrives m m'' := by
  intro j
  rcases first j with same | ⟨sent, taken, kept⟩
  · have next := second j
    rw [same] at next
    exact next
  · rcases second j with same | ⟨again, _⟩
    · rw [same]
      exact .inr ⟨sent, taken, kept⟩
    · exact absurd again taken

theorem Aside.arrives {used : Nat → Prop} (aside : Aside used m m') : Arrives m m' :=
  fun j => .inl (aside.cores j)

theorem Focus.arrives {i : Nat} {c : SlotCore} {log : List TraceRecord} (focus : Focus m i c log m')
    (here : c = m.core i ∨ ((m.core i).state = .transfer ∧ c.state ≠ .transfer ∧
      (c.state = .free ∨ c.region = (m.core i).region))) : Arrives m m' := by
  intro j
  by_cases same : j = i
  · subst same
    rw [focus.core]
    exact here
  · exact .inl (focus.others j same)

theorem bufferClaim_arrives (message : Message) (receiver : Nat) (well : PoolWell pool m) :
    (bufferClaim pool message receiver).wps (Guarded pool)
      (fun result m' => Arrives m m' ∧ Syncs (fun _ => True) result m') m := by
  refine wps_mono (claim_focused fun inside => well _ inside).alone ?_
  rintro result m' ⟨c, log, focus, ends⟩
  simp only [ClaimEnds] at ends
  cases verdict : claimVerdict pool m.clock (m.core (handleSlotId message.handle)) message
      receiver with
  | some status =>
      simp only [verdict] at ends
      obtain ⟨rfl, rfl, quiet⟩ := ends
      exact ⟨focus.arrives (.inl rfl), syncs_none⟩
  | none =>
      simp only [verdict] at ends
      obtain ⟨_, sent, _⟩ := claimVerdict_none verdict
      rcases ends with ⟨rfl, ⟨access, opened, rfl⟩, rfl⟩ | ⟨status, rfl, _, _, empty, _⟩
      · refine ⟨focus.arrives (.inr ⟨sent, (fun done => by cases done), .inr rfl⟩), ?_⟩
        rintro v ⟨⟩
        exact ⟨congrArg SlotCore.region focus.core, trivial⟩
      · have free : c.state = .free := empty.1
        exact ⟨focus.arrives (.inr ⟨sent, by rw [free]; simp, .inl free⟩), syncs_none⟩

theorem recvMessage_arrives (link : Link) (message : Message) (token : ReceiveToken)
    (well : PoolWell pool m) :
    (recvMessage pool link message token).wps (Guarded pool) (fun ended m' => Arrives m m' ∧
      ∀ result, ended = some result → Syncs (fun _ => True) result m') m := by
  simp only [recvMessage]
  refine wps_ite (fun _ => ?_) (fun _ => ?_)
  · rw [wps_bind]
    refine wps_mono ((recordProtocolError_aside link.transport.Uses _).runs pool m) ?_
    intro _ a first
    rw [wps_bind]
    refine wps_mono ((receiveCommit_aside link.transport token).runs pool a) ?_
    intro _ b second
    refine ⟨first.arrives.trans second.arrives, ?_⟩
    rintro _ ⟨⟩
    exact syncs_none
  · rw [wps_bind]
    refine wps_mono (bufferClaim_arrives message link.localComponent well) ?_
    rintro ⟨status, buffer⟩ a ⟨claimed, syncs⟩
    simp only
    rw [wps_bind]
    refine wps_mono ((receiveCommit_aside link.transport token).runs pool a) ?_
    intro committed b aside
    have arrives : Arrives m b := claimed.trans aside.arrives
    refine wps_ite (fun ok => wps_ite (fun _ => ⟨arrives, ?_⟩) (fun _ => ⟨arrives, ?_⟩))
      (fun _ => wps_ite (fun _ => ⟨arrives, fun _ done => by cases done⟩) (fun _ => ⟨arrives, ?_⟩))
    · rintro _ ⟨⟩
      exact syncs_none
    · rintro _ ⟨⟩ v same
      obtain ⟨w, rfl, rfl⟩ := Option.map_eq_some_iff.mp same
      rw [aside.cores]
      exact syncs w rfl
    · rintro _ ⟨⟩ v same
      rw [aside.cores]
      exact syncs v same

theorem recvLoop_arrives (link : Link) (fuel : Nat) : ∀ m, PoolWell pool m →
    (recvLoop pool link fuel).wps (Guarded pool) (fun ended m' => Arrives m m' ∧
      ∀ result, ended = some result → Syncs (fun _ => True) result m') m := by
  induction fuel with
  | zero => exact fun m _ => ⟨.refl m, fun _ done => by cases done⟩
  | succ fuel ih =>
      intro m well
      simp only [recvLoop]
      rw [wps_bind]
      refine wps_mono ((receiveBegin_aside link.transport link.transport.Uses fuel).runs pool m) ?_
      intro begun a aside
      have first : Settles pool (receiveReach link.localComponent link.transport.Uses) m a :=
        aside.settles fun _ uses => uses
      cases begun with
      | none => exact ⟨aside.arrives, fun _ done => by cases done⟩
      | some begun =>
          cases begun with
          | error status =>
              refine ⟨aside.arrives, ?_⟩
              rintro _ ⟨⟩
              exact syncs_none
          | ok received =>
              obtain ⟨message, token⟩ := received
              simp only
              rw [wps_bind]
              have well := first.well well
              refine wps_mono (wps_and (recvMessage_alone link message token well)
                (recvMessage_arrives link message token well)) ?_
              rintro ended b ⟨lives, arrives, syncs⟩
              have second : Arrives m b := aside.arrives.trans arrives
              cases ended with
              | some result => exact ⟨second, syncs⟩
              | none =>
                  refine wps_mono (ih b (Settles.well lives well)) fun final d rest => ?_
                  exact ⟨second.trans rest.1, rest.2⟩

theorem recv_arrives (link : Link) (fuel : Nat) (well : PoolWell pool m) :
    (recv pool link fuel).wps (Guarded pool) (fun ended m' => Arrives m m' ∧
      ∀ result, ended = some result → Syncs (fun _ => True) result m') m := by
  simp only [recv]
  rw [wps_bind]
  refine wps_mono (epochCurrent_alone pool m _ _) ?_
  rintro current m ⟨rfl, _⟩
  refine wps_ite (fun _ => ⟨.refl m, ?_⟩) (fun _ => recvLoop_arrives link fuel m well)
  rintro _ ⟨⟩
  exact syncs_none

theorem Act.dry.payload {β : Type} {action : Act β} (plain : action.dry) (e : Env) (m : Mem) :
    (action.exec e m).2.payload = m.payload := by
  cases action
  case copyIn => exact plain.elim
  case casState | casToken | casLifecycle | eventWrite | protect =>
    simp only [Act.exec]
    split <;> rfl
  case eventRead =>
    simp only [Act.exec]
    split
    · rfl
    · split <;> rfl
  all_goals rfl

theorem Dry.payload {p : Prog α} {a : α} (dry : Dry p) (run : Completes p m a m') :
    m'.payload = m.payload := by
  induction run with
  | done a m => rfl
  | act e _ ih => exact (ih (dry.2 _)).trans (dry.1.payload e _)

theorem dry_ite {c : Prop} [Decidable c] {p q : Prog α} (pos : Dry p) (neg : Dry q) :
    Dry (if c then p else q) := by
  split
  · exact pos
  · exact neg

theorem receiveBegin_dry (t : Transport) (fuel : Nat) : Dry (receiveBegin t fuel) := by
  have waits (r fuel : Nat) : Dry (eventWait r fuel) := by
    induction fuel with
    | zero => trivial
    | succ fuel ih =>
        refine dry_act trivial fun outcome => ?_
        cases outcome with
        | woken => trivial
        | failed => trivial
        | blocked => exact ih
  have peeks (r : Nat) : Dry (ringPeek r) := by
    simp only [ringPeek, lift_bind]
    refine dry_act trivial fun depth => dry_ite trivial (dry_act trivial fun consumer => ?_)
    exact dry_act trivial fun producer => dry_ite trivial (dry_act trivial fun _ => trivial)
  induction fuel with
  | zero => trivial
  | succ fuel ih =>
      cases t with
      | eventfd r =>
          refine (peeks r).bind fun peeked => ?_
          split
          · trivial
          · refine (waits r fuel).bind fun woken => ?_
            split
            · trivial
            · trivial
            · exact ih
          · trivial
      | polling r timeoutNs =>
          refine (peeks r).bind fun peeked => ?_
          split
          · trivial
          · exact dry_ite (dry_act trivial fun expired => dry_ite trivial ih) ih
          · trivial
      | external =>
          refine dry_act trivial fun received => ?_
          cases received with
          | ok message => trivial
          | error status => trivial

theorem bufferClaim_dry (message : Message) (receiver : Nat) :
    Dry (bufferClaim pool message receiver) := by
  have protects (i : Nat) (readWrite : Bool) : Dry (protectSlot pool i readWrite) := by
    unfold protectSlot
    exact dry_ite trivial (dry_ite trivial (dry_act trivial fun _ => trivial))
  simp only [bufferClaim, claimAcquire, claimClaimed, claimReject, claimAccept, registeredEpoch,
    recordProtocolError, recordSlotError, traceSlot, publish, clearClaimToken, freeClaimingSlot,
    makeView, writeAll, lift_bind, act_bind, pure_eq, done_bind]
  repeat' first
    | exact trivial | exact protects _ _ | apply dry_ite | apply dry_act | apply Dry.bind
    | intro _ | split

theorem recv_dry (link : Link) (fuel : Nat) : Dry (recv pool link fuel) := by
  have commits (token : ReceiveToken) : Dry (receiveCommit link.transport token) := by
    unfold receiveCommit
    split
    · trivial
    · split
      · simp only [ringCommit, lift_bind]
        refine dry_act trivial fun depth => dry_ite trivial (dry_act trivial fun consumer => ?_)
        exact dry_ite trivial (dry_act trivial fun _ => trivial)
      · trivial
  have messages (message : Message) (token : ReceiveToken) :
      Dry (recvMessage pool link message token) := by
    unfold recvMessage
    refine dry_ite ?_ ?_
    · refine Dry.bind ?_ fun _ => (commits token).bind fun _ => trivial
      exact dry_act trivial fun _ => dry_act trivial fun _ => dry_act trivial fun _ => trivial
    · refine (bufferClaim_dry _ _).bind fun result => (commits token).bind fun committed => ?_
      exact dry_ite (dry_ite trivial trivial) (dry_ite trivial trivial)
  have loops (fuel : Nat) : Dry (recvLoop pool link fuel) := by
    induction fuel with
    | zero => trivial
    | succ fuel ih =>
        refine (receiveBegin_dry link.transport fuel).bind fun begun => ?_
        cases begun with
        | none => trivial
        | some begun =>
            cases begun with
            | error status => trivial
            | ok received =>
                obtain ⟨message, token⟩ := received
                refine (messages message token).bind fun ended => ?_
                cases ended with
                | none => exact ih
                | some result => trivial
  have current : Dry (linkCurrent link) := by
    simp only [linkCurrent, epochCurrent, componentEpochCurrent, lift_bind]
    exact dry_ite (dry_ite trivial (dry_act trivial fun _ => trivial)) trivial
  exact current.bind fun current => dry_ite trivial (loops fuel)

end Receiving

/-! ## Courses of a buffer -/

/-- While a buffer is under way, time passes and components receive other buffers. -/
inductive Waits (pool : Pool) : Mem → Mem → Prop where
  | recv {m m' : Mem} {link : Link} {fuel : Nat} {ended : Option (Status × Option View)} :
      Completes (recv pool link fuel) m ended m' → Waits pool m m'
  | tick {m : Mem} (clock : Nat) : Waits pool m { m with clock }

/-- The owner of the buffer sends it, and another component receives it in the end. -/
def HandOver (pool : Pool) (m : Mem) (v : View) (m' : Mem) (w : View) : Prop :=
  ∃ outward inward fuel a b, Completes (send pool outward (some v)) m (.ok, none) a ∧
    Relation.ReflTransGen (Waits pool) a b ∧
    Completes (recv pool inward fuel) b (some (.ok, some w)) m' ∧ w.handle = v.handle

/-- What happens to a buffer with a single view: operations on its window that grow it only where
they bring the bytes, and hand-overs. -/
inductive Course (pool : Pool) (m : Mem) (v : View) : List (Op Nat) → Mem → View → Prop where
  | start : Course pool m v [] m v
  | edit {ops : List (Op Nat)} {op : Op Nat} {a a' : Mem} {w w' : View} {status : Status} :
      Course pool m v ops a w → (∀ n, op = .keep n → n ≤ w.length) →
      Completes ((edit op).program w) a (status, some w') a' → Course pool m v (ops ++ [op]) a' w'
  | handOver {ops : List (Op Nat)} {a a' : Mem} {w w' : View} :
      Course pool m v ops a w → HandOver pool a w a' w' → Course pool m v ops a' w'
  | tick {ops : List (Op Nat)} {a : Mem} {w : View} (clock : Nat) :
      Course pool m v ops a w → Course pool m v ops { a with clock } w

section Courses

variable {pool : Pool} {m m' : Mem} {v w : View}

theorem Waits.kept (waits : Waits pool m m') (well : PoolWell pool m) :
    PoolWell pool m' ∧ Arrives m m' ∧ m'.payload = m.payload := by
  cases waits with
  | @recv _ link fuel ended run =>
      have arrives := (run.sound (recv_arrives link fuel well).wp).1
      refine ⟨?_, arrives, (recv_dry link fuel).payload run⟩
      have settles := run.sound (recv_alone link fuel well).wp
      cases ended with
      | none => exact Settles.well settles well
      | some result => exact settles.1.well well
  | tick clock => exact ⟨well, .refl m, rfl⟩

theorem waits_kept (waits : Relation.ReflTransGen (Waits pool) m m') (well : PoolWell pool m) :
    PoolWell pool m' ∧ Arrives m m' ∧ m'.payload = m.payload := by
  induction waits with
  | refl => exact ⟨well, .refl m, rfl⟩
  | tail _ last ih =>
      obtain ⟨before, arrived, same⟩ := ih
      obtain ⟨after, arrives, payload⟩ := last.kept before
      exact ⟨after, arrived.trans arrives, payload.trans same⟩

/-- The buffer arrives with the window that was sent, and no byte moves. -/
structure HandedOver (pool : Pool) (m : Mem) (v : View) (m' : Mem) (w : View) : Prop where
  well : PoolWell pool m'
  synced : Synced pool m' w
  slot : w.slotId = v.slotId
  data : w.data = v.data
  length : w.length = v.length
  payload : m'.payload = m.payload

theorem HandOver.handed (handing : HandOver pool m v m' w) (well : PoolWell pool m)
    (synced : Synced pool m v) : HandedOver pool m v m' w := by
  obtain ⟨outward, inward, fuel, a, b, sent, waits, got, handle⟩ := handing
  obtain ⟨regions, payload⟩ := (send_unmoving outward v).keeps sent
  have left := ((sent.sound (send_alone outward synced.placed well).wp).settles.well well)
  obtain ⟨waiting, arrived, same⟩ := waits_kept waits left
  obtain ⟨settles, fresh⟩ := got.sound (recv_alone inward fuel waiting).wp
  obtain ⟨arrives, syncs⟩ := got.sound (recv_arrives inward fuel waiting).wp
  obtain ⟨_, fresh, _⟩ := fresh w rfl
  obtain ⟨region, _⟩ := syncs _ rfl w rfl
  have arrives := arrived.trans arrives
  have slot : w.slotId = v.slotId := by rw [fresh.well.slot, handle, ← synced.placed.slot]
  have window : (m'.core w.slotId).region = ⟨v.data, v.length⟩ := by
    have before : (a.core v.slotId).region = ⟨v.data, v.length⟩ := (regions _).trans synced.region
    have owned := fresh.valid.state
    rw [slot] at owned ⊢
    rcases arrives v.slotId with same | ⟨_, _, free | same⟩
    · rw [same, before]
    · rw [free] at owned
      cases owned
    · rw [same, before]
  rw [region, Region.mk.injEq] at window
  exact ⟨settles.well waiting, fresh.synced (settles.well waiting) region, slot, window.1,
    window.2, ((recv_dry inward fuel).payload got).trans (same.trans payload)⟩

theorem edit_settles (synced : Synced pool m v) (well : PoolWell pool m) (op : Op Nat) :
    ((edit op).program v).wps (Guarded pool) (Edits pool (ownerReach v.owner) v m) m := by
  have within := (well _ synced.placed.inside).region
  have capacity := synced.placed.capacity
  apply window_alone synced.placed
  cases op with
  | append bytes => exact bufferAppend_focused rfl capacity within
  | prepend bytes => exact bufferPrepend_focused rfl capacity within
  | dropFront n => exact bufferTrimFront_focused rfl capacity within
  | dropBack n => exact bufferTrimBack_focused rfl capacity within
  | keep n => exact bufferResize_focused rfl capacity within

/-- The buffer at some point of its course. -/
structure Kept (pool : Pool) (q : Deque Nat) (i : Nat) (m : Mem) (v : View) : Prop where
  well : PoolWell pool m
  synced : Synced pool m v
  slot : v.slotId = i
  queue : m.queue pool v = q

theorem Kept.edit {q : Deque Nat} {i : Nat} {op : Op Nat} {status : Status} (kept : Kept pool q i m v)
    (shrinks : ∀ n, op = .keep n → n ≤ v.length)
    (run : Completes ((edit op).program v) m (status, some w) m') :
    Kept pool (q.step op) i m' w := by
  have well := (run.sound (edit_settles kept.synced kept.well op).wp).settles.well kept.well
  have ends := op_ends kept.synced shrinks run
  rw [OpEnds, kept.queue] at ends
  cases result : q.apply op with
  | none =>
      rw [result] at ends
      obtain ⟨_, ⟨⟩, rfl⟩ := ends
      rw [Deque.step, result]
      exact kept
  | some q' =>
      rw [result] at ends
      obtain ⟨_, v', ⟨⟩, moves, queue⟩ := ends
      rw [Deque.step, result]
      exact ⟨well, moves.synced, moves.slot.trans kept.slot, queue⟩

theorem Kept.handOver {q : Deque Nat} {i : Nat} (kept : Kept pool q i m v)
    (handing : HandOver pool m v m' w) : Kept pool q i m' w := by
  have handed := handing.handed kept.well kept.synced
  refine ⟨handed.well, handed.synced, handed.slot.trans kept.slot, ?_⟩
  rw [← kept.queue, Mem.queue, Mem.queue, handed.slot, handed.data, handed.length, Mem.bytes,
    handed.payload]
  rfl

theorem Course.kept {q : Deque Nat} {i : Nat} {ops : List (Op Nat)} (course : Course pool m v ops m' w)
    (kept : Kept pool q i m v) : Kept pool (ops.foldl Deque.step q) i m' w := by
  induction course with
  | start => exact kept
  | edit _ shrinks run ih =>
      rw [List.foldl_append]
      exact ih.edit shrinks run
  | handOver _ handing ih => exact ih.handOver handing
  | tick clock _ ih =>
      have synced := ih.synced
      have valid := synced.valid
      refine ⟨ih.well, ⟨synced.placed, ?_, synced.region, synced.within⟩, ih.slot, ih.queue⟩
      exact ⟨valid.generation, valid.state, valid.owner, valid.ownerEpoch, valid.current⟩

/-- The accessors of the buffer show the queue. -/
structure Shows (m : Mem) (v : View) (q : Deque Nat) : Prop where
  data : Looks m (bufferData (some v)) (.done (some q.headroom))
  size : Looks m (bufferSize (some v)) (.done q.items.length)
  headroom : Looks m (bufferHeadroom (some v)) (.done q.headroom)
  tailroom : Looks m (bufferTailroom (some v)) (.done q.tailroom)
  bytes : m.bytes v.slotId q.headroom q.items.length = q.items

theorem Kept.shows {q : Deque Nat} {i : Nat} (kept : Kept pool q i m v) : Shows m v q := by
  have synced := kept.synced
  have length : (m.queue pool v).items.length = v.length := Mem.length_bytes _ _ _ _
  rw [← kept.queue]
  constructor
  · exact (bufferOwned_looks synced.valid).bind (.here _)
  · rw [length]
    exact (bufferOwned_looks synced.valid).bind (.here _)
  · have looks := bufferHeadroom_looks synced.valid
    rw [synced.offset] at looks
    exact looks
  · have looks := bufferTailroom_looks synced.valid
    rw [synced.tailroom] at looks
    exact looks
  · rw [length]
    rfl

/-- An operation that takes bytes away leaves every byte of the payload where it is. -/
theorem OpEnds.still {op : Op Nat} {status : Status} {buffer : Option View}
    (ends : OpEnds pool m v op status buffer m')
    (drops : ∃ n, op = .dropFront n ∨ op = .dropBack n ∨ op = .keep n) :
    m'.payload = m.payload := by
  have length (m : Mem) (v : View) : (m.queue pool v).items.length = v.length :=
    Mem.length_bytes _ _ _ _
  unfold OpEnds at ends
  split at ends
  · rw [ends.2.2]
  · rename_i q applied
    obtain ⟨_, w, _, moves, queue⟩ := ends
    have inside : v.data ≤ w.data ∧ w.data + w.length ≤ v.data + v.length := by
      have data : w.data = q.headroom := congrArg Deque.headroom queue
      have size : w.length = q.items.length := by rw [← queue, length]
      have old := length m v
      have first : (m.queue pool v).headroom = v.data := rfl
      obtain ⟨n, rfl | rfl | rfl⟩ := drops
      all_goals
        simp only [Deque.apply, Option.ite_none_right_eq_some, Option.some.injEq] at applied
        obtain ⟨short, rfl⟩ := applied
        simp only [List.length_drop, List.length_take, old, first] at data size short
        omega
    funext j k
    exact moves.payload j k (by omega)

end Courses

/-- The window of a buffer is a bounded queue. From any reached session on, whatever operations
and hand-overs a new buffer has gone through, its accessors show the queue that the operations
make of the window that it was allocated with. Headroom, size and tailroom add up to the slot
capacity. The next operation is refused exactly where the queue has no result, and then changes
nothing; else it makes the queue of its window, writes nothing but what the window newly covers,
and moves no bytes when it takes some away. The next hand-over changes no bytes. -/
theorem window_is_deque {pool : Pool} {s : Session} (reached : s.Reached pool anyStep) {link : Link}
    {size headroom tailroom : Nat} {parent : Option (Option View)} {v : View} {m : Mem}
    (allocated : Completes (bufferAllocEx pool link size headroom tailroom parent) s.mem
      (.ok, some v) m)
    {ops : List (Op Nat)} {m' : Mem} {w : View} (course : Course pool m v ops m' w) :
    let q := ops.foldl Deque.step
      ⟨headroom, m.bytes v.slotId headroom size, pool.slotCapacity - headroom - size⟩
    Shows m' w q ∧ m'.queue pool w = q ∧ w.slotId = v.slotId ∧
    q.headroom + q.items.length + q.tailroom = pool.slotCapacity ∧
    (∀ op status buffer a, (∀ n, op = .keep n → n ≤ q.items.length) →
      Completes ((edit op).program w) m' (status, buffer) a →
      OpEnds pool m' w op status buffer a ∧
        ((∃ n, op = .dropFront n ∨ op = .dropBack n ∨ op = .keep n) → a.payload = m'.payload)) ∧
    (∀ a w', HandOver pool m' w a w' → a.payload = m'.payload) := by
  intro q
  have well := (allocated.sound (bufferAllocEx_alone link size headroom tailroom parent
    reached.well.slots).wp).lives.well reached.well.slots
  obtain ⟨synced, rfl, rfl⟩ := allocEx_synced reached.well.slots allocated
  have kept : Kept pool q v.slotId m' w := course.kept ⟨well, synced, rfl, rfl⟩
  have within := synced.within
  have length : q.items.length = w.length := by
    rw [← kept.queue]
    exact Mem.length_bytes _ _ _ _
  refine ⟨kept.shows, kept.queue, kept.slot, ?_, ?_, ?_⟩
  · refine (Deque.capacity_foldl ops _).trans ?_
    simp only [Deque.capacity, Mem.length_bytes]
    omega
  · intro op status buffer a shrinks run
    have ends := op_ends kept.synced (fun n same => length ▸ shrinks n same) run
    exact ⟨ends, ends.still⟩
  · intro a w' handing
    exact (handing.handed kept.well kept.synced).payload

/-- Component 1 allocates a second buffer with two bytes behind four of headroom. -/
def openedMem : Mem := ((bufferAllocEx smallPool sendingLink 2 4 0 none).runWith default wired.mem).2

def openedView : View :=
  { allocatedView with handle := handleMake 1 1, slotId := 1, data := 4, length := 2 }

/-- It appends two bytes, and sends the buffer. -/
def extendedMem : Mem :=
  (((edit (.append [7, 8])).program openedView).runWith default openedMem).2

def extendedView : View := { openedView with length := 4 }

def handedMem : Mem := ((send smallPool sendingLink (some extendedView)).runWith default extendedMem).2

/-- Component 2 receives it, and prepends a byte. -/
def receivedMem : Mem := ((recv smallPool receivingLink 2).runWith default handedMem).2

def receivedView : View := { extendedView with owner := 2 }

theorem window_is_deque_handed : ∃ m w, Course smallPool openedMem openedView
      [.append [7, 8], .prepend [9]] m w ∧ Shows m w ⟨3, [9, 0, 0, 7, 8], 56⟩ := by
  have answers {α : Type} {p : Prog α} {m : Mem} {a : α} (same : (p.runWith default m).1 = a) :
      Completes p m a (p.runWith default m).2 := same ▸ runWith_completes default p m
  have opens : Completes (bufferAllocEx smallPool sendingLink 2 4 0 none) wired.mem
      (.ok, some openedView) openedMem := answers (by decide +kernel)
  have appends : Completes ((edit (.append [7, 8])).program openedView) openedMem
      (.ok, some extendedView) extendedMem := answers (by decide +kernel)
  have sends : Completes (send smallPool sendingLink (some extendedView)) extendedMem (.ok, none)
      handedMem := answers (by decide +kernel)
  have receives : Completes (recv smallPool receivingLink 2) handedMem
      (some (.ok, some receivedView)) receivedMem := answers (by decide +kernel)
  have prepends : Completes ((edit (.prepend [9])).program receivedView) receivedMem
      (.ok, some { receivedView with data := 3, length := 5 })
      (((edit (.prepend [9])).program receivedView).runWith default receivedMem).2 :=
    answers (by decide +kernel)
  have handing : HandOver smallPool extendedMem extendedView receivedMem receivedView :=
    ⟨_, _, _, _, _, sends, .refl, receives, rfl⟩
  have begins : Course smallPool openedMem openedView [.append [7, 8]] extendedMem extendedView :=
    .edit .start (fun _ same => by cases same) appends
  have course : Course smallPool openedMem openedView [.append [7, 8], .prepend [9]] _ _ :=
    .edit (.handOver begins handing) (fun _ same => by cases same) prepends
  have shows := (window_is_deque wired_reached opens course).1
  have start : openedMem.bytes openedView.slotId 4 2 = [0, 0] := by decide +kernel
  rw [start] at shows
  exact ⟨_, _, course, shows⟩

end Zipc
