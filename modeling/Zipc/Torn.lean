import Zipc.Adoption

/-! # A window edit that is cut off

The region of a slot is two plain words, which the operations on a window write one after
the other. A component that dies between the two writes leaves the new offset with the old
length. Adoption takes such a region over when it happens to lie inside the slot, and
refuses it for ever when it does not.
-/

namespace Zipc

open Atomic Program

/-- An operation on the window of a buffer. -/
inductive Edit where
  | setRegion (offset length : Nat)
  | append (bytes : List Nat)
  | prepend (bytes : List Nat)
  | trimFront (length : Nat)
  | trimBack (length : Nat)
  | resize (size : Nat)
  deriving Repr, DecidableEq

def Edit.program (v : View) : Edit → Prog (Status × Option View)
  | .setRegion offset length => bufferSetRegion (some v) offset length
  | .append bytes => bufferAppend (some v) bytes
  | .prepend bytes => bufferPrepend (some v) bytes
  | .trimFront length => bufferTrimFront (some v) length
  | .trimBack length => bufferTrimBack (some v) length
  | .resize size => bufferResize (some v) size

/-- A region that lies inside the buffer. -/
def View.place (v : View) (offset length : Nat) : Option Region :=
  if offset > v.capacity ∨ length > v.capacity - offset then none else some ⟨offset, length⟩

/-- The room behind the data of the buffer. -/
def View.tailroom (v : View) (offset : Nat) : Nat :=
  if offset > v.capacity ∨ v.length > v.capacity - offset then 0 else v.capacity - offset - v.length

/-- The region that the operation asks for, unless it is refused. -/
def Edit.target (v : View) (offset : Nat) : Edit → Option Region
  | .setRegion offset length => v.place offset length
  | .append bytes => if bytes.length > v.tailroom offset then none
      else v.place offset ((v.length + bytes.length) % u32)
  | .prepend bytes => if bytes.length > offset then none
      else v.place (sub32 offset bytes.length) ((v.length + bytes.length) % u32)
  | .trimFront length => if length > v.length then none
      else v.place ((offset + length) % u32) (v.length - length)
  | .trimBack length => if length > v.length then none else v.place offset (v.length - length)
  | .resize size =>
      if size ≥ u32 ∨ size > (offset + v.tailroom offset + v.length) % u32 ∨
        size > sub32 v.capacity offset then none
      else v.place offset size

/-- The operation is refused, or keeps the offset or the length of the region. -/
def Edit.Whole (v : View) (region : Region) (edit : Edit) : Prop :=
  ∀ target, edit.target v region.offset = some target →
    target.offset = region.offset ∨ target.length = region.length

/-! ## Where an edit can be cut off -/

section Cuts

variable {v : View} {m m' : Mem}

theorem bufferOwned_looks (valid : Valid m v) : Looks m (bufferOwned (some v)) (.done true) := by
  have registered : Looks m (registeredEpoch v.owner) (.done v.ownerEpoch) := by
    have current := valid.current
    simp only [Mem.epoch] at current
    simp only [registeredEpoch]
    split
    · rename_i known
      rw [if_pos known] at current
      refine .act _ (fun _ => rfl) ?_
      rw [← current]
      exact .here _
    · rename_i unknown
      rw [if_neg unknown] at current
      rw [← current]
      exact .here _
  have owned : Looks m (ownedBy v.slotId v.owner v.ownerEpoch) (.done true) := by
    simp only [ownedBy, lift_bind]
    refine .act v.owner (fun _ => by rw [← valid.owner]; rfl) ?_
    rw [if_neg (not_not_intro rfl)]
    refine .act v.ownerEpoch (fun _ => by rw [← valid.ownerEpoch]; rfl) ?_
    simp only [decide_true]
    exact .here _
  simp only [bufferOwned, lift_bind]
  refine .act (handleGeneration v.handle) (fun _ => by rw [← valid.generation]; rfl) ?_
  rw [if_neg (not_not_intro rfl)]
  refine .act .owned (fun _ => by rw [← valid.state]; rfl) ?_
  rw [if_neg (not_not_intro rfl)]
  refine owned.bind ?_
  rw [if_neg (by decide)]
  refine registered.bind ?_
  simp only [decide_true]
  exact .here _

theorem bufferHeadroom_looks (valid : Valid m v) :
    Looks m (bufferHeadroom (some v)) (.done (m.core v.slotId).region.offset) := by
  refine (bufferOwned_looks valid).bind ?_
  exact .act _ (fun _ => rfl) (.here _)

theorem bufferTailroom_looks (valid : Valid m v) :
    Looks m (bufferTailroom (some v)) (.done (v.tailroom (m.core v.slotId).region.offset)) := by
  refine (bufferOwned_looks valid).bind ?_
  exact .act _ (fun _ => rfl) (.here _)

/-- The memory after bytes were copied into the buffer. -/
def Mem.copied (m : Mem) (v : View) (start : Nat) (bytes : List Nat) : Mem :=
  ((Act.copyIn v.slotId start bytes).exec default m).2

theorem Mem.copied_focus (m : Mem) (v : View) (start : Nat) (bytes : List Nat) :
    Focus m v.slotId { m.core v.slotId with payload := (m.copied v start bytes).payload v.slotId } []
      (m.copied v start bytes) := by
  refine ⟨rfl, fun j other => ?_, by simp [Mem.copied, Act.exec], fun _ => rfl, rfl, rfl⟩
  simp [Mem.copied, Act.exec, Mem.core, other]

theorem Valid.copied (valid : Valid m v) (start : Nat) (bytes : List Nat) :
    Valid (m.copied v start bytes) v :=
  ⟨valid.generation, valid.state, valid.owner, valid.ownerEpoch, valid.current⟩

/-- How an operation proceeds on a valid buffer: it is refused, or sets the region, or does
    so after a copy. -/
inductive Edit.Proceeds (v : View) (m : Mem) (edit : Edit) : Prop where
  | refused : edit.target v (m.core v.slotId).region.offset = none →
      Looks m (edit.program v) (.done (.regionOverflow, some v)) → Edit.Proceeds v m edit
  | direct {offset length : Nat} :
      edit.target v (m.core v.slotId).region.offset = v.place offset length →
      Looks m (edit.program v) (bufferSetRegion (some v) offset length) → Edit.Proceeds v m edit
  | copies {offset length start : Nat} {bytes : List Nat}
      {next : Unit → Prog (Status × Option View)} :
      edit.target v (m.core v.slotId).region.offset = v.place offset length →
      Looks m (edit.program v) (.act (.copyIn v.slotId start bytes) next) →
      Looks (m.copied v start bytes) (next ()) (bufferSetRegion (some v) offset length) →
      Edit.Proceeds v m edit

theorem Edit.proceeds (valid : Valid m v) (edit : Edit) : edit.Proceeds v m := by
  cases edit with
  | setRegion offset length => exact .direct rfl (.here _)
  | append bytes =>
      by_cases full : bytes.length > v.tailroom (m.core v.slotId).region.offset
      · refine .refused (by simp [Edit.target, full]) ((bufferOwned_looks valid).bind ?_)
        refine (bufferTailroom_looks valid).bind ?_
        rw [if_pos full]
        exact .here _
      · have looks : Looks m (bufferAppend (some v) bytes)
            (.act (.copyIn v.slotId (v.data + v.length) bytes) fun _ => do
              let offset ← read v.slotId (·.region.offset)
              bufferSetRegion (some v) offset ((v.length + bytes.length) % u32)) := by
          refine (bufferOwned_looks valid).bind ((bufferTailroom_looks valid).bind ?_)
          rw [if_neg full]
          exact .here _
        exact .copies (if_neg full) looks (.act _ (fun _ => rfl) (.here _))
  | prepend bytes =>
      by_cases full : bytes.length > (m.core v.slotId).region.offset
      · refine .refused (by simp [Edit.target, full]) ((bufferOwned_looks valid).bind ?_)
        refine (bufferHeadroom_looks valid).bind ?_
        rw [if_pos full]
        exact .here _
      · have looks : Looks m (bufferPrepend (some v) bytes)
            (.act (.copyIn v.slotId (sub32 (m.core v.slotId).region.offset bytes.length) bytes)
              fun _ => bufferSetRegion (some v) (sub32 (m.core v.slotId).region.offset bytes.length)
                ((v.length + bytes.length) % u32)) := by
          refine (bufferOwned_looks valid).bind ((bufferHeadroom_looks valid).bind ?_)
          rw [if_neg full]
          exact .act _ (fun _ => rfl) (.here _)
        exact .copies (if_neg full) looks (.here _)
  | trimFront length =>
      by_cases long : length > v.length
      · refine .refused (by simp [Edit.target, long]) ((bufferOwned_looks valid).bind ?_)
        dsimp only
        rw [if_pos long]
        exact .here _
      · refine .direct (if_neg long) ((bufferOwned_looks valid).bind ?_)
        dsimp only
        rw [if_neg long]
        exact .act _ (fun _ => rfl) (.here _)
  | trimBack length =>
      by_cases long : length > v.length
      · refine .refused (by simp [Edit.target, long]) ((bufferOwned_looks valid).bind ?_)
        dsimp only
        rw [if_pos long]
        exact .here _
      · refine .direct (if_neg long) ((bufferOwned_looks valid).bind ?_)
        dsimp only
        rw [if_neg long]
        exact .act _ (fun _ => rfl) (.here _)
  | resize size =>
      have looks : Looks m (bufferResize (some v) size)
          (if size ≥ u32 ∨ size > ((m.core v.slotId).region.offset +
              v.tailroom (m.core v.slotId).region.offset + v.length) % u32 ∨
            size > sub32 v.capacity (m.core v.slotId).region.offset then
              .done (.regionOverflow, some v)
          else bufferSetRegion (some v) (m.core v.slotId).region.offset size) := by
        refine (bufferOwned_looks valid).bind ?_
        dsimp only
        by_cases huge : size ≥ u32
        · rw [if_pos huge, if_pos (.inl huge)]
          exact .here _
        rw [if_neg huge]
        refine (bufferHeadroom_looks valid).bind ((bufferTailroom_looks valid).bind ?_)
        split
        · rename_i large
          rw [if_pos (.inr (.inl large))]
          exact .here _
        rename_i fits
        have offset : Looks m (read v.slotId (·.region.offset))
            (.done (m.core v.slotId).region.offset) := .act _ (fun _ => rfl) (.here _)
        refine offset.bind ?_
        by_cases late : size > sub32 v.capacity (m.core v.slotId).region.offset
        · rw [if_pos late, if_pos (.inr (.inr late))]
          exact .here _
        · rw [if_neg late, if_neg (by simp only [not_or]; exact ⟨huge, fits, late⟩)]
          exact .here _
      by_cases refused : size ≥ u32 ∨ size > ((m.core v.slotId).region.offset +
          v.tailroom (m.core v.slotId).region.offset + v.length) % u32 ∨
          size > sub32 v.capacity (m.core v.slotId).region.offset
      · rw [if_pos refused] at looks
        exact .refused (if_pos refused) looks
      · rw [if_neg refused] at looks
        exact .direct (if_neg refused) looks

theorem Focus.trans {m₀ : Mem} {i : Nat} {c c' : SlotCore} (first : Focus m₀ i c [] m)
    (second : Focus m i c' [] m') : Focus m₀ i c' [] m' where
  core := second.core
  others := fun j other => (second.others j other).trans (first.others j other)
  hooked := by rw [second.hooked, first.hooked]; simp
  lifecycle := fun k => (second.lifecycle k).trans (first.lifecycle k)
  rings := second.rings.trans first.rings
  clock := second.clock.trans first.clock

theorem Focus.written {m₀ : Mem} {i : Nat} {c : SlotCore} (focus : Focus m₀ i c [] m)
    (w : SlotWrite) (e : Env) : Focus m₀ i (w.applyCore c) [] ((Act.write i w).exec e m).2 := by
  refine focus.store ?_
  rw [w.core_apply, ← focus.core]
  rfl

/-- The regions that the writes of `zipc_buffer_set_region` go through. -/
def Passes (before : Region) (target : Option Region) (region : Region) : Prop :=
  region = before ∨ ∃ r, target = some r ∧ (region = ⟨r.offset, before.length⟩ ∨ region = r)

theorem setRegion_looks (valid : Valid m v) (offset length : Nat) :
    Looks m (bufferSetRegion (some v) offset length) (match v.place offset length with
      | none => .done (.regionOverflow, some v)
      | some r => .act (.write v.slotId (.regionOffset r.offset)) fun _ =>
          .act (.write v.slotId (.regionLength r.length)) fun _ =>
          .done (.ok, some { v with data := r.offset, length := r.length })) := by
  refine (bufferOwned_looks valid).bind ?_
  dsimp only [View.place]
  by_cases outside : offset > v.capacity ∨ length > v.capacity - offset
  · rw [if_pos outside, if_pos outside]
    exact .here _
  · rw [if_neg outside, if_neg outside]
    exact .here _

theorem setRegion_cut (valid : Valid m v) {offset length : Nat}
    (cut : Prefix (bufferSetRegion (some v) offset length) m m') :
    ∃ region, Focus m v.slotId { m.core v.slotId with region } [] m' ∧
      Passes (m.core v.slotId).region (v.place offset length) region := by
  have start : Focus m v.slotId (m.core v.slotId) [] m := .refl m v.slotId
  rcases (setRegion_looks valid offset length).cut cut with rfl | rest
  · exact ⟨_, start, .inl rfl⟩
  cases place : v.place offset length with
  | none =>
      rw [place] at rest
      cases rest
      exact ⟨_, start, .inl rfl⟩
  | some r =>
      rw [place] at rest
      cases rest with
      | here => exact ⟨_, start, .inl rfl⟩
      | act e rest =>
          have first := start.written (.regionOffset r.offset) e
          cases rest with
          | here => exact ⟨⟨r.offset, _⟩, first, .inr ⟨r, rfl, .inl rfl⟩⟩
          | act e rest =>
              have second := first.written (.regionLength r.length) e
              cases rest
              exact ⟨r, second, .inr ⟨r, rfl, .inr rfl⟩⟩

/-- Wherever an operation on a valid buffer is cut off, only its payload and region have
    changed. -/
theorem Edit.cut (valid : Valid m v) {edit : Edit} (cut : Prefix (edit.program v) m m') :
    ∃ region payload, Focus m v.slotId { m.core v.slotId with region, payload } [] m' ∧
      Passes (m.core v.slotId).region (edit.target v (m.core v.slotId).region.offset) region := by
  have start : Focus m v.slotId (m.core v.slotId) [] m := .refl m v.slotId
  cases edit.proceeds valid with
  | refused _ looks =>
      rcases looks.cut cut with rfl | rest
      · exact ⟨_, _, start, .inl rfl⟩
      · cases rest
        exact ⟨_, _, start, .inl rfl⟩
  | direct target looks =>
      rw [target]
      rcases looks.cut cut with rfl | rest
      · exact ⟨_, _, start, .inl rfl⟩
      · obtain ⟨region, focus, passes⟩ := setRegion_cut valid rest
        exact ⟨region, _, focus, passes⟩
  | @copies offset length first bytes next target looks goes =>
      rw [target]
      have copy := m.copied_focus v first bytes
      have copied : Valid (m.copied v first bytes) v := valid.copied first bytes
      rcases looks.cut cut with rfl | rest
      · exact ⟨_, _, start, .inl rfl⟩
      cases rest with
      | here => exact ⟨_, _, start, .inl rfl⟩
      | act e rest =>
          rcases goes.cut rest with rfl | rest
          · exact ⟨_, _, copy, .inl rfl⟩
          · obtain ⟨region, focus, passes⟩ := setRegion_cut copied rest
            exact ⟨region, _, copy.trans focus, passes⟩

theorem setRegion_tears (valid : Valid m v) {offset length : Nat} {target : Region}
    (wants : v.place offset length = some target) :
    ∃ m', Prefix (bufferSetRegion (some v) offset length) m m' ∧
      Focus m v.slotId { m.core v.slotId with
        region := ⟨target.offset, (m.core v.slotId).region.length⟩ } [] m' := by
  have looks := setRegion_looks valid offset length
  rw [wants] at looks
  have focus := (Focus.refl m v.slotId).written (.regionOffset target.offset) default
  exact ⟨_, looks.prefixed (.act default (.here _ _)), focus⟩

/-- An operation that asks for a region passes through its offset with the old length. -/
theorem Edit.tears (valid : Valid m v) {edit : Edit} {target : Region}
    (wants : edit.target v (m.core v.slotId).region.offset = some target) :
    ∃ m' payload, Prefix (edit.program v) m m' ∧
      Focus m v.slotId { m.core v.slotId with
        region := ⟨target.offset, (m.core v.slotId).region.length⟩, payload } [] m' := by
  cases edit.proceeds valid with
  | refused none _ =>
      rw [none] at wants
      cases wants
  | direct same looks =>
      obtain ⟨m', cut, focus⟩ := setRegion_tears valid (same.symm.trans wants)
      exact ⟨m', _, looks.prefixed cut, focus⟩
  | @copies offset length first bytes next same looks goes =>
      have copy := m.copied_focus v first bytes
      have copied : Valid (m.copied v first bytes) v := valid.copied first bytes
      obtain ⟨m', cut, focus⟩ := setRegion_tears copied (same.symm.trans wants)
      exact ⟨m', _, looks.prefixed (.act default (goes.prefixed cut)), copy.trans focus⟩

end Cuts

/-! ## Recovery -/

/-- After the death of the owner of a buffer in the memory `m`, its replacement adopts buffer
    after buffer and comes to an end, and gets this buffer back with the region from before or
    after the interrupted operation. -/
def Recovers (pool : Pool) (v : View) (before : Region) (target : Option Region) (m : Mem) : Prop :=
  ∀ fuel restart a, Completes (componentRestartBegin fuel v.owner v.ownerEpoch) m
      (some (.ok restart)) a →
    ∀ views r b, Adoptions pool restart a views r b →
      views.length ≤ pool.slotCount ∧
      (∀ status r' w d, CompletesIn sheltered (componentRestartNext pool r) b (status, r', w) d →
        (status = .ok ∧ w.isSome = true) ∨
          (status = .noBuffer ∧ ∀ finished e,
            Completes (componentRestartFinish r') d finished e → finished = .ok)) ∧
      ∀ w, w ∈ views → w.slotId = v.slotId →
        (⟨w.data, w.length⟩ = before ∨ some ⟨w.data, w.length⟩ = target) ∧
          (⟨w.data, w.length⟩ : Region).Within pool.slotCapacity

section Recovery

variable {pool : Pool} {v : View} {m m' : Mem} {before : Region} {target : Option Region}

theorem View.place_within {offset length : Nat} {r : Region} (fits : v.capacity = pool.slotCapacity)
    (placed : v.place offset length = some r) : r.Within pool.slotCapacity := by
  rw [View.place] at placed
  split at placed
  · cases placed
  · cases placed
    rename_i inside
    simp only [not_or, not_lt] at inside
    exact ⟨fits ▸ inside.1, fits ▸ inside.2⟩

theorem Edit.target_within {edit : Edit} {offset : Nat} {r : Region}
    (fits : v.capacity = pool.slotCapacity) (wants : edit.target v offset = some r) :
    r.Within pool.slotCapacity := by
  cases edit with
  | setRegion => exact View.place_within fits wants
  | append | prepend | trimFront | trimBack | resize =>
      simp only [Edit.target] at wants
      split at wants
      · cases wants
      · exact View.place_within fits wants

/-- An operation that is cut off leaves the tokens of all slots as they were. -/
theorem cut_settled {region : Region} {payload : Nat → Nat} (well : PoolWell pool m)
    (valid : Valid m v) (focus : Focus m v.slotId { m.core v.slotId with region, payload } [] m')
    (j : Nat) (low : j < pool.slotCount) : (m'.core j).Settled pool := by
  by_cases here : j = v.slotId
  · subst here
    have settled := (well _ low).settled
    simp only [SlotCore.Settled, valid.state] at settled
    rw [focus.core]
    simp only [SlotCore.Settled, valid.state]
    exact settled
  · rw [focus.others j here]
    exact (well _ low).settled

/-- A death that leaves every region inside its slot does not block recovery. -/
theorem recovers_of_whole {region : Region} {payload : Nat → Nat} (well : PoolWell pool m)
    (valid : Valid m v) (focus : Focus m v.slotId { m.core v.slotId with region, payload } [] m')
    (ends : region = before ∨ some region = target) (within : region.Within pool.slotCapacity) :
    Recovers pool v before target m' := by
  intro fuel restart a begun views r b adoptions
  obtain ⟨_, sound, owner, dead, zero, active, cores⟩ :=
    begun.sound (componentRestartBegin_begins pool fuel).wp restart rfl
  have settled (j : Nat) (low : j < pool.slotCount) : (a.core j).Settled pool :=
    cores j ▸ cut_settled well valid focus j low
  have regions (j : Nat) (low : j < pool.slotCount) : (a.core j).region.Within pool.slotCapacity := by
    rw [cores j]
    by_cases here : j = v.slotId
    · rw [here, focus.core]
      exact within
    · rw [focus.others j here]
      exact (well j low).region
  have progress := adoptions.progress zero sound active settled
  refine ⟨progress.count.trans progress.inside, fun status r' w d run => ?_, fun w known here => ?_⟩
  · obtain ⟨lifecycle, ends⟩ := progress.ends sound active settled run
    cases ends with
    | @finished _ cursor none =>
        refine .inr ⟨rfl, fun finished e finishes => ?_⟩
        have going := progress.sound sound
        have still : RestartWell { r with cursor, scanComplete := true } :=
          ⟨going.valid, going.dead, going.epoch, going.small⟩
        have under : Restarting d { r with cursor, scanComplete := true } :=
          (lifecycle _).trans (progress.active active)
        exact finishes.sound (componentRestartFinish_ok pool still under rfl).wp
    | adopted => exact .inl ⟨rfl, rfl⟩
    | stuck above low _ outside =>
        rw [progress.ahead _ above] at outside
        exact absurd (regions _ low) outside
  · obtain ⟨same, inside⟩ := progress.regions w known
    rw [same]
    refine ⟨?_, inside⟩
    rw [here, cores, focus.core]
    exact ends

/-- A scan that only adopts comes to an end. -/
theorem Adoptions.exhausted {restart r : Restart} {a b : Mem} {views : List View}
    (adoptions : Adoptions pool restart a views r b) (zero : restart.cursor = 0)
    (sound : RestartWell restart) (active : Restarting a restart)
    (settled : ∀ j, j < pool.slotCount → (a.core j).Settled pool)
    (goes : ∀ views r b status r' w d, Adoptions pool restart a views r b →
      CompletesIn sheltered (componentRestartNext pool r) b (status, r', w) d →
        (status = .ok ∧ w.isSome = true) ∨ status = .noBuffer) :
    ∃ views r b r' w d, Adoptions pool restart a views r b ∧
      CompletesIn sheltered (componentRestartNext pool r) b (.noBuffer, r', w) d := by
  -- Every adoption moves the cursor, so the slots that are left count the calls down.
  induction left : pool.slotCount - r.cursor using Nat.strong_induction_on generalizing views r b with
  | _ n ih =>
      have progress := adoptions.progress zero sound active settled
      have works : sheltered default := rfl
      have run := runWith_completesIn works (componentRestartNext pool r) b
      rcases result : ((componentRestartNext pool r).runWith default b).1 with ⟨status, r', w⟩
      rw [result] at run
      rcases goes _ _ _ _ _ _ _ adoptions run with ⟨rfl, some⟩ | rfl
      · obtain ⟨v, rfl⟩ := Option.isSome_iff_exists.mp some
        obtain ⟨_, ends⟩ := progress.ends sound active settled run
        cases ends with
        | adopted above low =>
            exact ih _ (by simp only; omega) (.next adoptions run) rfl
      · exact ⟨_, _, _, _, _, _, adoptions, run⟩

theorem recovers_ends {region : Region} {payload : Nat → Nat} (well : PoolWell pool m)
    (placed : ViewWell pool v) (valid : Valid m v) (can : Restartable m v.owner v.ownerEpoch)
    (focus : Focus m v.slotId { m.core v.slotId with region, payload } [] m')
    (recovers : Recovers pool v before target m') : region = before ∨ some region = target := by
  have again : Restartable m' v.owner v.ownerEpoch :=
    ⟨can.valid, can.dead, can.below, by rw [focus.lifecycle]; exact can.epoch,
      by rw [focus.lifecycle]; exact can.state⟩
  obtain ⟨restart, a, begun⟩ := again.begins
  obtain ⟨_, sound, owner, dead, zero, active, cores⟩ :=
    begun.sound (componentRestartBegin_begins pool 1).wp restart rfl
  have settled (j : Nat) (low : j < pool.slotCount) : (a.core j).Settled pool :=
    cores j ▸ cut_settled well valid focus j low
  have holds : restart.Holds (a.core v.slotId) := by
    rw [cores, focus.core]
    exact ⟨valid.state, valid.owner.trans owner.symm, valid.ownerEpoch.trans dead.symm⟩
  obtain ⟨views, r, b, r', w, d, adoptions, ends⟩ := Adoptions.none.exhausted zero sound active
    settled fun views r b status r' w d adoptions run =>
      ((recovers 1 restart a begun views r b adoptions).2.1 status r' w d run).imp id And.left
  have progress := adoptions.progress zero sound active settled
  have passed : v.slotId < r.cursor := by
    by_contra ahead
    obtain ⟨_, finished⟩ := progress.ends sound active settled ends
    cases finished with
    | finished none =>
        refine none v.slotId (Nat.le_of_not_lt ahead) placed.inside ?_
        rw [progress.ahead _ (Nat.le_of_not_lt ahead), progress.same]
        exact holds
  obtain ⟨u, known, here⟩ := progress.passed _ passed holds
  have found := ((recovers 1 restart a begun views r b adoptions).2.2 u known here).1
  rw [(progress.regions u known).1, here, cores, focus.core] at found
  exact found

end Recovery

/-- Death in the middle of an operation on a window never blocks recovery, and gives the
    region from before or after it, exactly when the operation is refused or keeps the offset
    or the length. -/
theorem edit_recovers_iff {pool : Pool} {s : Session} (reached : s.Reached pool anyStep) {v : View}
    (known : v ∈ s.views) (valid : Valid s.mem v)
    (dies : ∃ fuel restart a, Completes (componentRestartBegin fuel v.owner v.ownerEpoch) s.mem
      (some (.ok restart)) a) (edit : Edit) :
    (∀ m', Prefix (edit.program v) s.mem m' → Recovers pool v (s.mem.core v.slotId).region
      (edit.target v (s.mem.core v.slotId).region.offset) m') ↔
    edit.Whole v (s.mem.core v.slotId).region := by
  have placed := reached.well.views v known
  have well := reached.well.slots
  obtain ⟨fuel, restart, a, begun⟩ := dies
  obtain ⟨can, _⟩ := begun.sound (componentRestartBegin_begins pool fuel).wp restart rfl
  constructor
  · intro recovers target wants
    obtain ⟨m', payload, cut, focus⟩ := Edit.tears valid wants
    have ends := recovers_ends well placed valid can focus (recovers m' cut)
    rw [wants] at ends
    rcases ends with same | same
    · have offset := congrArg Region.offset same
      exact .inl offset
    · have length := congrArg Region.length (Option.some.inj same)
      exact .inr length.symm
  · intro whole m' cut
    obtain ⟨region, payload, focus, passes⟩ := Edit.cut valid cut
    have inside := (well _ placed.inside).region
    rcases passes with rfl | ⟨target, wants, torn⟩
    · exact recovers_of_whole well valid focus (.inl rfl) inside
    have fits : target.Within pool.slotCapacity := Edit.target_within placed.capacity wants
    have ends : region = (s.mem.core v.slotId).region ∨ region = target := by
      rcases torn with rfl | rfl
      · rcases whole target wants with offset | length
        · rw [offset]
          exact .inl rfl
        · rw [← length]
          exact .inr rfl
      · exact .inr rfl
    rcases ends with rfl | rfl
    · exact recovers_of_whole well valid focus (.inl rfl) inside
    · exact recovers_of_whole well valid focus (.inr wants.symm) fits

theorem allocated_dies : ∃ fuel restart a, Completes (componentRestartBegin fuel allocatedView.owner
    allocatedView.ownerEpoch) allocatedSession.mem (some (.ok restart)) a :=
  ⟨1, (Restartable.mk (by decide) (by decide) (by decide) (by decide) (by decide)).begins⟩

/-- An append keeps the offset. -/
theorem edit_recovers_iff_append : Recovers smallPool allocatedView ⟨0, 0⟩ (some ⟨0, 3⟩)
    ((Edit.program allocatedView (.append [1, 2, 3])).runSteps default 2 allocatedSession.mem) := by
  have whole : (Edit.append [1, 2, 3]).Whole allocatedView
      (allocatedSession.mem.core allocatedView.slotId).region := by
    intro target wants
    have appended : Edit.target allocatedView 0 (.append [1, 2, 3]) = some ⟨0, 3⟩ := by decide
    have same : some target = some ⟨0, 3⟩ := wants.symm.trans appended
    rw [Option.some.inj same]
    exact .inl (by decide)
  exact (edit_recovers_iff allocated_reached (by decide) allocated_valid allocated_dies _).mpr whole
    _ (runSteps_cut default 2 _ _)

/-- Component 1 has filled its buffer. -/
def filledSession : Session := allocatedSession.run smallPool (.setRegion (some allocatedView) 0 64)

def filledView : View := { allocatedView with length := 64 }

/-- A trim of the front of a full buffer by 60 bytes, cut off between its two writes, leaves
    the region of 64 bytes at offset 60. -/
theorem trim_front_blocks : ¬∀ (pool : Pool) (s : Session) (v : View) (edit : Edit) (m' : Mem),
    s.Reached pool anyStep → v ∈ s.views → Valid s.mem v →
    (∃ fuel restart a, Completes (componentRestartBegin fuel v.owner v.ownerEpoch) s.mem
      (some (.ok restart)) a) →
    Prefix (edit.program v) s.mem m' →
    Recovers pool v (s.mem.core v.slotId).region
      (edit.target v (s.mem.core v.slotId).region.offset) m' := by
  intro claim
  have fills : allocatedSession.Step smallPool filledSession := by
    refine Session.run_step ?_ (by decide)
    rintro v ⟨⟩
    decide
  have reached : filledSession.Reached smallPool anyStep := by
    obtain ⟨start, starts, leads⟩ := allocated_reached
    exact ⟨start, starts, leads.tail ⟨fills, trivial⟩⟩
  have known : filledView ∈ filledSession.views := by decide
  have valid : Valid filledSession.mem filledView :=
    ⟨by decide, by decide, by decide, by decide, by decide⟩
  have can : Restartable filledSession.mem filledView.owner filledView.ownerEpoch :=
    ⟨by decide, by decide, by decide, by decide, by decide⟩
  have wants : Edit.target filledView (filledSession.mem.core filledView.slotId).region.offset
      (.trimFront 60) = some ⟨60, 4⟩ := by decide
  obtain ⟨m', payload, cut, focus⟩ := Edit.tears valid wants
  have ends := recovers_ends reached.well.slots (reached.well.views _ known) valid can focus
    (claim smallPool filledSession filledView (.trimFront 60) m' reached known valid
      ⟨1, can.begins⟩ cut)
  rw [wants] at ends
  revert ends
  decide

end Zipc
