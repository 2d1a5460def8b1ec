import Zipc.Controls
import Zipc.Session

/-! # The trace history of a slot

`trace_slot` writes a ring of eight entries in the slot control, and `zipc_slot_trace_copy`
reads it back in chronological order. Writer and reader find the ring position on their own:
what they agree on is that entry `k` of the history lies at position `k % 8` until eight
later entries have been recorded.
-/

namespace Zipc

open Atomic Program

/-- `ZIPC_TRACE_DEPTH`. -/
abbrev traceDepth : Nat := 8

/-- The copy loop of `zipc_slot_trace_copy` after `n` turns. -/
def SlotControl.copyTrace (slot : SlotControl) (start : Nat) (entries : Nat → TraceEntry) :
    Nat → Nat → TraceEntry
  | 0 => entries
  | n + 1 =>
      Function.update (slot.copyTrace start entries n) n
        (slot.trace (Fin.ofNat traceDepth (start + n)))

/-- `zipc_slot_trace_copy`: the count it returns and the caller's array after the call. -/
def slotTraceCopy (slot : Option SlotControl) (entries : Option (Nat → TraceEntry))
    (capacity : Nat) : Nat × Option (Nat → TraceEntry) :=
  match slot, entries with
  | some slot, some entries =>
      if capacity = 0 then (0, some entries)
      else
        let count := if slot.traceCount < traceDepth then slot.traceCount else traceDepth
        let count := if capacity < count then capacity else count
        let start := if traceDepth < slot.traceCount then slot.traceCount % traceDepth else 0
        (count, some (slot.copyTrace start entries count))
  | _, entries => (0, entries)

/-- The entries recorded for a slot since its trace count was reset: by calls of `trace_slot`
that ran to their end, with anything in between that leaves the trace fields alone. -/
inductive Recorded (i : Nat) : Mem → List TraceEntry → Prop where
  | reset {m : Mem} (none : (m.slots i).traceCount = 0) : Recorded i m []
  | trace {m m' : Mem} {entries : List TraceEntry} {pool : Pool} {component : Nat}
      {event : TraceEvent} :
      Recorded i m entries → Completes (traceSlot pool i component event) m () m' →
      Recorded i m'
        (entries ++ [⟨m.clock, (m.slots i).transferSequence, component, event⟩])
  | other {m m' : Mem} {entries : List TraceEntry} :
      Recorded i m entries → (m'.slots i).trace = (m.slots i).trace →
      (m'.slots i).traceCount = (m.slots i).traceCount → Recorded i m' entries

/-- Entry `k` of the history is at position `k % 8` as long as it is one of the last eight. -/
structure Remembers (slot : SlotControl) (entries : List TraceEntry) : Prop where
  count : slot.traceCount = entries.length % u32
  recent : ∀ k, k < entries.length → entries.length ≤ k + traceDepth →
    entries[k]? = some (slot.trace (Fin.ofNat traceDepth k))

/-! ## The writer -/

theorem traceSlot_traces {pool : Pool} {i component : Nat} {event : TraceEvent} {m m' : Mem}
    (run : Completes (traceSlot pool i component event) m () m') :
    m'.slots i = (m.slots i).traced m.clock component event := by
  have ends : Alone m i (fun _ => True) (traceSlot pool i component event)
      (fun _ s' => s' = (m.slots i).traced m.clock component event) (m.slots i) := by
    simp only [traceSlot, lift_bind]
    refine alone_read trivial (alone_now trivial (alone_read trivial ?_))
    exact alone_write trivial
      (alone_write trivial (alone_hookSlot trivial (alone_done trivial rfl)))
  exact ends.completes run rfl

/-- One record: the new entry takes the place of the one that is eight entries older. -/
theorem Remembers.traced {slot : SlotControl} {entries : List TraceEntry}
    (before : Remembers slot entries) (time component : Nat) (event : TraceEvent) :
    Remembers (slot.traced time component event)
      (entries ++ [⟨time, slot.transferSequence, component, event⟩]) where
  count := by
    simp only [SlotControl.traced, before.count, List.length_append, List.length_singleton,
      Nat.mod_add_mod]
  recent := by
    intro k inside near
    rw [List.length_append, List.length_singleton] at inside near
    have place : slot.traceCount % traceDepth = entries.length % traceDepth := by
      rw [before.count]
      exact Nat.mod_mod_of_dvd _ (by decide)
    simp only [SlotControl.traced]
    by_cases last : k = entries.length
    · have same : Fin.ofNat traceDepth k = Fin.ofNat traceDepth slot.traceCount := by
        apply Fin.ext
        rw [Fin.val_ofNat, Fin.val_ofNat, place, last]
      rw [same, Function.update_self, last, List.getElem?_concat_length]
    · have apart : Fin.ofNat traceDepth k ≠ Fin.ofNat traceDepth slot.traceCount := by
        intro same
        have := congrArg Fin.val same
        rw [Fin.val_ofNat, Fin.val_ofNat, place] at this
        unfold traceDepth at *
        omega
      rw [Function.update_of_ne apart, List.getElem?_append_left (by omega)]
      exact before.recent k (by omega) (by omega)

/-- Over a whole history, by induction on it. -/
theorem Recorded.remembers {i : Nat} {m : Mem} {entries : List TraceEntry}
    (recorded : Recorded i m entries) : Remembers (m.slots i) entries := by
  induction recorded with
  | reset none => exact ⟨none, fun k inside => absurd inside (Nat.not_lt_zero k)⟩
  | trace _ run before =>
    rw [traceSlot_traces run]
    exact before.traced _ _ _
  | other _ sameTrace sameCount before =>
    refine ⟨sameCount.trans before.count, ?_⟩
    rw [sameTrace]
    exact before.recent

/-! ## The reader -/

theorem copyTrace_inside (slot : SlotControl) (start : Nat) (entries : Nat → TraceEntry)
    {n j : Nat} (inside : j < n) :
    slot.copyTrace start entries n j = slot.trace (Fin.ofNat traceDepth (start + j)) := by
  induction n with
  | zero => omega
  | succ n ih =>
    rw [SlotControl.copyTrace]
    by_cases last : j = n
    · rw [last, Function.update_self]
    · rw [Function.update_of_ne last, ih (by omega)]

theorem copyTrace_outside (slot : SlotControl) (start : Nat) (entries : Nat → TraceEntry)
    {n j : Nat} (outside : n ≤ j) : slot.copyTrace start entries n j = entries j := by
  induction n with
  | zero => rfl
  | succ n ih =>
    rw [SlotControl.copyTrace, Function.update_of_ne (by omega), ih (by omega)]

/-- The copy is the most recent window of the history, oldest entry first. -/
theorem trace_copy_window {i : Nat} {m : Mem} {history : List TraceEntry}
    (recorded : Recorded i m history) (few : history.length < u32)
    (entries : Nat → TraceEntry) {capacity : Nat} (room : 1 ≤ capacity) :
    ∃ filled,
      slotTraceCopy (some (m.slots i)) (some entries) capacity =
        (min (min history.length 8) capacity, some filled) ∧
      (∀ j, j < min (min history.length 8) capacity →
        history[history.length - 8 + j]? = some (filled j)) ∧
      ∀ j, min (min history.length 8) capacity ≤ j → filled j = entries j := by
  have remembers := recorded.remembers
  have count : (m.slots i).traceCount = history.length := by
    rw [remembers.count, Nat.mod_eq_of_lt few]
  simp only [slotTraceCopy, if_neg (show ¬capacity = 0 by omega), count]
  have copied : (if capacity < (if history.length < traceDepth then history.length else traceDepth)
        then capacity
      else if history.length < traceDepth then history.length else traceDepth) =
      min (min history.length 8) capacity := by
    unfold traceDepth
    split <;> split at * <;> omega
  refine ⟨_, by rw [copied], fun j inside => ?_, fun j outside => ?_⟩
  · rw [copyTrace_inside _ _ _ inside]
    -- the reader's start is the position of the oldest entry that is still there
    have place : Fin.ofNat traceDepth
        ((if traceDepth < history.length then history.length % traceDepth else 0) + j) =
        Fin.ofNat traceDepth (history.length - 8 + j) := by
      apply Fin.ext
      rw [Fin.val_ofNat, Fin.val_ofNat]
      unfold traceDepth
      split <;> omega
    rw [place]
    exact remembers.recent _ (by omega) (by unfold traceDepth; omega)
  · exact copyTrace_outside _ _ _ outside

/-- The memory after `n` records of slot 0, by the components 1 to `n`. -/
def tracedTimes : Nat → Mem
  | 0 => default
  | n + 1 => ((traceSlot smallPool 0 (n + 1) .send).runWith default (tracedTimes n)).2

theorem tracedTimes_recorded (n : Nat) : ∃ history, Recorded 0 (tracedTimes n) history ∧
    history.map TraceEntry.componentId = (List.range n).map (· + 1) := by
  induction n with
  | zero => exact ⟨[], .reset rfl, rfl⟩
  | succ n ih =>
    obtain ⟨history, recorded, components⟩ := ih
    refine ⟨_, .trace recorded (runWith_completes default _ _), ?_⟩
    rw [List.map_append, components, List.range_succ, List.map_append]
    rfl

/-- Nine records, one more than the ring holds, read into an array of three entries. -/
theorem trace_copy_window_nine :
    ∃ history, Recorded 0 (tracedTimes 9) history ∧ history.length = 9 ∧
      ∃ filled, slotTraceCopy (some ((tracedTimes 9).slots 0)) (some default) 3 =
          (3, some filled) ∧
        (∀ j, j < 3 → history[1 + j]? = some (filled j)) ∧
        ∀ j, 3 ≤ j → filled j = default := by
  obtain ⟨history, recorded, components⟩ := tracedTimes_recorded 9
  have nine : history.length = 9 := by
    have := congrArg List.length components
    simpa using this
  have window := trace_copy_window recorded (by rw [nine]; decide) default (by decide : 1 ≤ 3)
  rw [nine] at window
  exact ⟨history, recorded, nine, window⟩

end Zipc
