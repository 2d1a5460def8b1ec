import Zipc.Torn

/-! # Where edits of a buffer write

A view of a buffer keeps the address and the length of its window, and the slot control keeps
the region that all views share. `zipc_buffer_append` takes its room from the shared offset and
copies behind the window of its own view.
-/

namespace Zipc

open Atomic Program

/-! ## What programs answer -/

/-- Whatever its actions answer, the program answers what satisfies `P`. -/
def Makes {α : Type} (P : α → Prop) : Prog α → Prop
  | .done a => P a
  | .act _ next => ∀ b, Makes P (next b)

section Makes

variable {α β : Type} {P : α → Prop} {m m' : Mem}

theorem makes_act {action : Act β} {next : β → Prog α} (rest : ∀ b, Makes P (next b)) :
    Makes P (.act action next) := rest

theorem makes_true (p : Prog α) : Makes (fun _ => True) p := by
  induction p with
  | done a => trivial
  | act action next ih => exact ih

theorem Makes.bind {R : β → Prop} {p : Prog β} {f : β → Prog α} (first : Makes R p)
    (rest : ∀ b, R b → Makes P (f b)) : Makes P (p >>= f) := by
  induction p with
  | done b => exact rest b first
  | act action next ih => exact fun b => ih b (first b)

/-- Only the answer of the last part matters. -/
theorem makes_after {p : Prog β} {f : β → Prog α} (rest : ∀ b, Makes P (f b)) :
    Makes P (p >>= f) :=
  (makes_true p).bind fun b _ => rest b

theorem makes_ite {c : Prop} [Decidable c] {p q : Prog α} (pos : c → Makes P p)
    (neg : ¬c → Makes P q) : Makes P (if c then p else q) := by
  split
  · exact pos ‹c›
  · exact neg ‹¬c›

theorem Makes.sound {p : Prog α} {a : α} (makes : Makes P p) (run : Completes p m a m') : P a := by
  induction run with
  | done a m => exact makes
  | act e _ ih => exact ih (makes _)

end Makes

/-! ## Windows inside the slot -/

/-- The window of the view lies inside the slot. -/
structure View.Fits (pool : Pool) (v : View) : Prop where
  capacity : v.capacity = pool.slotCapacity
  window : v.data + v.length ≤ pool.slotCapacity

/-- The window of a buffer that is not invalidated lies inside its slot. -/
def BufferFits (pool : Pool) (buffer : Option View) : Prop := ∀ v, buffer = some v → v.Fits pool

/-- As `BufferFits`, for the answer of a call. -/
abbrev AnswerFits (pool : Pool) (result : Status × Option View) : Prop := BufferFits pool result.2

section Fits

variable {pool : Pool} {v : View} {buffer : Option View}

theorem fits_none : BufferFits pool none := nofun

theorem makeView_fits (i handle : Nat) :
    Makes (fun result => ∀ v, result = .ok v → v.Fits pool) (makeView pool i handle) := by
  simp only [makeView, lift_bind]
  refine makes_act fun offset => makes_act fun length => makes_ite (fun _ _ done => by cases done) fun inside => ?_
  refine makes_act fun owner => makes_act fun epoch => ?_
  rintro v ⟨⟩
  refine ⟨rfl, ?_⟩
  dsimp only
  omega

theorem setRegion_fits (fits : BufferFits pool buffer) (offset length : Nat) :
    Makes (AnswerFits pool) (bufferSetRegion buffer offset length) := by
  unfold bufferSetRegion
  refine makes_after fun owned => ?_
  cases buffer with
  | none => exact fits_none
  | some v =>
      cases owned with
      | false => exact fits
      | true =>
          refine makes_ite (fun _ => fits) fun inside => makes_act fun _ => makes_act fun _ => ?_
          have capacity := (fits v rfl).capacity
          rintro w ⟨⟩
          refine ⟨capacity, ?_⟩
          dsimp only
          omega

/-- An operation on the window that ends with a new region, if it is not refused. -/
theorem Edit.fits (fits : v.Fits pool) (edit : Edit) :
    Makes (AnswerFits pool) (edit.program v) := by
  have kept : BufferFits pool (some v) := by
    rintro w ⟨⟩
    exact fits
  have moves (offset length : Nat) := setRegion_fits kept offset length
  cases edit with
  | setRegion offset length => exact moves offset length
  | append bytes =>
      refine makes_after fun owned => ?_
      cases owned with
      | false => exact kept
      | true =>
          refine makes_after fun room => makes_ite (fun _ => kept) fun _ => ?_
          exact makes_after fun _ => makes_after fun _ => moves _ _
  | prepend bytes =>
      refine makes_after fun owned => ?_
      cases owned with
      | false => exact kept
      | true =>
          refine makes_after fun room => makes_ite (fun _ => kept) fun _ => ?_
          exact makes_after fun _ => makes_after fun _ => moves _ _
  | trimFront length =>
      refine makes_after fun owned => ?_
      cases owned with
      | false => exact kept
      | true => exact makes_ite (fun _ => kept) fun _ => makes_after fun _ => moves _ _
  | trimBack length =>
      refine makes_after fun owned => ?_
      cases owned with
      | false => exact kept
      | true => exact makes_ite (fun _ => kept) fun _ => makes_after fun _ => moves _ _
  | resize size =>
      refine makes_after fun owned => ?_
      cases owned with
      | false => exact kept
      | true =>
          refine makes_ite (fun _ => kept) fun _ => makes_after fun headroom => ?_
          refine makes_after fun tailroom => makes_ite (fun _ => kept) fun _ => ?_
          exact makes_after fun offset => makes_ite (fun _ => kept) fun _ => moves _ _

theorem allocate_fits (a : AllocateArgs) (ownerEpoch : Nat) :
    Makes (AnswerFits pool) (bufferAllocateInternal pool a ownerEpoch) := by
  have aborts (i : Nat) (revoke : Bool) (status : Status) :
      Makes (AnswerFits pool) (allocateAbort pool a.allocator i revoke status) := by
    refine makes_after fun _ => makes_ite (fun _ => ?_) fun _ => ?_
    · exact makes_after fun _ => makes_after fun _ => makes_after fun _ => fits_none
    · exact makes_after fun _ => makes_after fun _ => fits_none
  have claimed (epoch token i : Nat) :
      Makes (AnswerFits pool) (allocateClaimed pool a epoch token i) := by
    unfold allocateClaimed
    iterate 8 refine makes_after fun _ => ?_
    rename_i fresh
    cases fresh with
    | error status => exact aborts _ _ _
    | ok id =>
        refine makes_after fun _ => makes_after fun _ => makes_ite (fun _ => aborts _ _ _) fun _ => ?_
        refine (makeView_fits i _).bind fun view fits => ?_
        cases view with
        | error failure => exact aborts _ _ _
        | ok v =>
            iterate 4 refine makes_after fun _ => ?_
            rintro w ⟨⟩
            exact fits v rfl
  have scans (epoch token start left n : Nat) :
      Makes (AnswerFits pool) (allocateScan pool a epoch token start left n) := by
    induction left generalizing n with
    | zero => exact makes_after fun _ => fits_none
    | succ left ih =>
        have tries (i : Nat) : Makes (fun tried => ∀ result, tried = some result →
            AnswerFits pool result) (allocateTry pool a epoch token i) := by
          refine makes_after fun _ => makes_ite (fun _ => nofun) fun _ => makes_after fun _ => ?_
          refine makes_ite (fun _ => nofun) fun _ => makes_after fun _ => makes_ite (fun _ => ?_) ?_
          · exact makes_after fun _ => nofun
          · intro _
            refine (claimed epoch token i).bind fun result fits => ?_
            rintro _ ⟨⟩
            exact fits
        refine (tries _).bind fun tried fits => ?_
        cases tried with
        | none => exact ih _
        | some result => exact fits result rfl
  unfold bufferAllocateInternal
  refine makes_ite (fun _ => fits_none) fun _ => ?_
  exact makes_after fun _ => makes_after fun _ => scans _ _ _ _ _

theorem allocEx_fits (link : Link) (size headroom tailroom : Nat) (parent : Option (Option View)) :
    Makes (AnswerFits pool) (bufferAllocEx pool link size headroom tailroom parent) := by
  unfold bufferAllocEx
  refine makes_ite (fun _ => fits_none) fun _ => makes_after fun _ => ?_
  refine makes_ite (fun _ => fits_none) fun _ => makes_ite (fun _ => fits_none) fun _ => ?_
  cases parent with
  | none => exact allocate_fits _ _
  | some buffer =>
      refine makes_after fun owned => ?_
      cases buffer with
      | none => exact fits_none
      | some v =>
          cases owned with
          | false => exact fits_none
          | true => exact makes_after fun _ => allocate_fits _ _

theorem fromHandle_fits (handle owner : Nat) :
    Makes (fun result => ∀ v, result = .ok v → v.Fits pool)
      (bufferFromHandle pool handle owner) := by
  unfold bufferFromHandle
  refine makes_ite (fun _ => nofun) fun _ => makes_ite (fun _ => nofun) fun _ => ?_
  refine makes_after fun _ => makes_ite (fun _ => nofun) fun _ => ?_
  refine makes_after fun _ => makes_ite (fun _ => nofun) fun _ => ?_
  refine makes_after fun _ => makes_ite (fun _ => nofun) fun _ => ?_
  refine makes_after fun _ => makes_after fun _ => makes_ite (fun _ => nofun) fun _ => ?_
  exact makeView_fits _ _

theorem claim_fits (message : Message) (receiver : Nat) :
    Makes (AnswerFits pool) (bufferClaim pool message receiver) := by
  have rejects (i claim : Nat) (status : Status) :
      Makes (AnswerFits pool) (claimReject pool i receiver claim status) :=
    makes_after fun _ => makes_after fun _ => fits_none
  have accepts (i epoch time claim : Nat) :
      Makes (AnswerFits pool) (claimAccept pool message i receiver epoch time claim) := by
    unfold claimAccept
    iterate 9 refine makes_after fun _ => ?_
    refine makes_ite (fun _ => makes_after fun _ => makes_after fun _ => fits_none) fun _ => ?_
    refine (makeView_fits i _).bind fun view fits => ?_
    cases view with
    | error failure => exact makes_after fun _ => makes_after fun _ => makes_after fun _ => fits_none
    | ok v =>
        refine makes_after fun _ => makes_after fun _ => ?_
        rintro w ⟨⟩
        exact fits v rfl
  have refuses {p : Prog Unit} {status : Status} :
      Makes (AnswerFits pool) (p >>= fun _ => pure (status, none)) := makes_after fun _ => fits_none
  unfold bufferClaim
  refine makes_ite (fun _ => fits_none) fun _ => makes_ite (fun _ => refuses) fun _ => ?_
  refine makes_ite (fun _ => refuses) fun _ => makes_ite (fun _ => refuses) fun _ => ?_
  refine makes_after fun _ => makes_ite (fun _ => refuses) fun _ => makes_after fun epoch => ?_
  refine makes_after fun _ => makes_ite (fun _ => refuses) fun _ => makes_after fun _ => ?_
  refine makes_ite (fun _ => makes_after fun _ => refuses) fun _ => ?_
  unfold claimClaimed
  refine makes_after fun _ => makes_ite (fun _ => rejects _ _ _) fun _ => makes_after fun _ => ?_
  refine makes_after fun _ => makes_ite (fun _ => rejects _ _ _) fun _ => makes_after fun _ => ?_
  refine makes_ite (fun _ => rejects _ _ _) fun _ => makes_after fun _ => makes_after fun _ => ?_
  refine makes_ite (fun _ => rejects _ _ _) fun _ => makes_after fun _ => makes_after fun _ => ?_
  exact makes_ite (fun _ => rejects _ _ _) fun _ => accepts _ _ _ _

theorem recv_fits (link : Link) (fuel : Nat) :
    Makes (fun ended => ∀ result, ended = some result → AnswerFits pool result)
      (recv pool link fuel) := by
  have plain (status : Status) :
      ∀ result, some (status, (none : Option View)) = some result → AnswerFits pool result := by
    rintro _ ⟨⟩
    exact fits_none
  have loops (fuel : Nat) : Makes (fun ended => ∀ result, ended = some result →
      AnswerFits pool result) (recvLoop pool link fuel) := by
    induction fuel with
    | zero => exact nofun
    | succ fuel ih =>
        refine makes_after fun begun => ?_
        match begun with
        | none => exact nofun
        | some (.error status) => exact plain status
        | some (.ok (message, token)) =>
            have takes : Makes (fun ended => ∀ result, ended = some result →
                AnswerFits pool result) (recvMessage pool link message token) := by
              unfold recvMessage
              refine makes_ite (fun _ => ?_) fun _ => ?_
              · exact makes_after fun _ => makes_after fun _ => plain _
              refine (claim_fits message link.localComponent).bind fun claimed fits => ?_
              obtain ⟨status, buffer⟩ := claimed
              refine makes_after fun _ => makes_ite (fun _ => ?_) fun _ => ?_
              · refine makes_ite (fun _ => plain _) fun _ => ?_
                rintro _ ⟨⟩ w same
                obtain ⟨v, rfl, rfl⟩ := Option.map_eq_some_iff.mp same
                exact ⟨(fits v rfl).capacity, (fits v rfl).window⟩
              · refine makes_ite (fun _ => nofun) fun _ => ?_
                rintro _ ⟨⟩
                exact fits
            refine takes.bind fun ended fits => ?_
            cases ended with
            | none => exact ih
            | some result => exact fits
  unfold recv
  exact makes_after fun _ => makes_ite (fun _ => plain _) fun _ => loops fuel

theorem release_fits (fits : BufferFits pool buffer) :
    Makes (AnswerFits pool) (bufferRelease pool buffer) := by
  refine makes_after fun owned => ?_
  cases buffer with
  | none => exact fits
  | some v =>
      cases owned with
      | false => exact fits
      | true =>
          refine makes_after fun status => ?_
          rintro w same
          dsimp only at same
          split at same
          · cases same
          · exact fits w same

theorem put_fits (link : Link) (fits : BufferFits pool buffer) :
    Makes (AnswerFits pool) (bufferPut pool link buffer) := by
  refine makes_after fun owned => ?_
  cases buffer with
  | none => exact fits
  | some v =>
      cases owned with
      | false => exact fits
      | true => exact makes_ite (fun _ => fits) fun _ => release_fits fits

theorem send_fits (link : Link) (fits : BufferFits pool buffer) :
    Makes (AnswerFits pool) (send pool link buffer) := by
  refine makes_after fun owned => ?_
  cases buffer with
  | none => exact fits
  | some v =>
      cases owned with
      | false => exact fits
      | true =>
          refine makes_after fun _ => makes_ite (fun _ => fits) fun _ => ?_
          refine makes_ite (fun _ => fits) fun _ => makes_after fun prepared => ?_
          cases prepared with
          | error status => exact fits
          | ok message =>
              refine makes_after fun _ => makes_ite (fun _ => makes_after fun _ => fits_none) fun _ => ?_
              refine makes_ite (fun _ => makes_after fun _ => ?_) fun _ => fits_none
              exact makes_ite (fun _ => makes_after fun _ => fits_none) fun _ => fits

theorem restartNext_fits (restart : Restart) :
    Makes (fun result => BufferFits pool result.2.2) (componentRestartNext pool restart) := by
  have adopts (r : Restart) (i token : Nat) :
      Makes (fun round => ∀ v, round = .adopt v → v.Fits pool) (restartAdopt pool r i token) := by
    unfold restartAdopt
    refine makes_after fun _ => makes_after fun _ => makes_ite (fun _ => nofun) fun _ => ?_
    refine makes_after fun _ => makes_ite (fun _ => makes_after fun _ => nofun) fun _ => ?_
    refine makes_after fun _ => makes_ite (fun _ => makes_after fun _ => nofun) fun _ => ?_
    iterate 7 refine makes_after fun _ => ?_
    refine (makeView_fits i _).bind fun view fits => ?_
    cases view with
    | error failure => exact makes_after fun _ => makes_after fun _ => makes_after fun _ => nofun
    | ok v =>
        iterate 4 refine makes_after fun _ => ?_
        rintro w ⟨⟩
        exact fits v rfl
  have repairs (r : Restart) (i token : Nat) :
      Makes (fun round => ∀ v, round ≠ .adopt v) (restartRepair pool r i token) := by
    unfold restartRepair
    refine makes_ite (fun _ => nofun) fun _ => makes_after fun _ => makes_ite (fun _ => nofun) fun _ => ?_
    refine makes_ite (fun _ => makes_after fun _ => ?_) fun _ => ?_
    · exact makes_ite (fun _ => makes_after fun _ => nofun) fun _ => makes_after fun _ => nofun
    refine makes_ite (fun _ => makes_after fun _ => ?_) fun _ => ?_
    · exact makes_ite (fun _ => makes_after fun _ => nofun) fun _ => makes_after fun _ => nofun
    · iterate 4 refine makes_after fun _ => ?_
      exact nofun
  have rounds (r : Restart) (i : Nat) :
      Makes (fun round => ∀ v, round = .adopt v → v.Fits pool) (restartSlot pool r i) := by
    unfold restartSlot
    refine makes_after fun state => makes_after fun token => ?_
    refine makes_ite (fun _ => makes_after fun _ => nofun) fun _ => ?_
    refine makes_ite (fun _ => makes_after fun _ => nofun) fun _ => ?_
    refine makes_ite (fun _ => ?_) fun _ => makes_ite (fun _ => adopts _ _ _) fun _ => nofun
    refine (repairs r i token).bind fun round other => ?_
    cases round with
    | owned => exact adopts _ _ _
    | skip => exact nofun
    | fail status => exact nofun
    | adopt v => exact absurd rfl (other v)
  have scans (left : Nat) (r : Restart) :
      Makes (fun result => BufferFits pool result.2.2) (restartScan pool left r) := by
    induction left generalizing r with
    | zero => exact fits_none
    | succ left ih =>
        refine (rounds r r.cursor).bind fun round fits => ?_
        cases round with
        | fail status => exact fits_none
        | adopt v =>
            rintro w ⟨⟩
            exact fits v rfl
        | owned => exact ih _
        | skip => exact ih _
  unfold componentRestartNext
  exact makes_after fun _ => makes_ite (fun _ => fits_none) fun _ => scans _ _

end Fits

/-! ## Sessions -/

section Sessions

variable {pool : Pool} {s s' : Session}

/-- Every view of the session keeps its window inside its slot. -/
def Session.Fitting (pool : Pool) (s : Session) : Prop := ∀ v, v ∈ s.views → v.Fits pool

/-- The buffers that a call returns. -/
def OutcomeFits (pool : Pool) (result : Option Outcome) : Prop :=
  ∀ outcome, result = some outcome → BufferFits pool outcome.buffer

theorem outcome_fits {p : Prog (Status × Option View)} (fits : Makes (AnswerFits pool) p) :
    Makes (OutcomeFits pool) (bufferOutcome p) := by
  refine fits.bind fun result fits => ?_
  rintro _ ⟨⟩
  exact fits

theorem plain_fits {α : Type} {p : Prog α} {f : α → Option Outcome}
    (plain : ∀ a outcome, f a = some outcome → outcome.buffer = none) :
    Makes (OutcomeFits pool) (p >>= fun a => pure (f a)) := by
  refine makes_after fun a => ?_
  intro outcome same
  rw [plain a outcome same]
  exact fits_none

theorem ApiCall.fits {call : ApiCall} (fitting : s.Fitting pool) (legal : call.Legal s) :
    Makes (OutcomeFits pool) (call.program pool) := by
  have known {buffer : Option View} (has : s.Has buffer) : BufferFits pool buffer :=
    fun v same => fitting v (has v same)
  have window {buffer : Option View} (has : s.Has buffer)
      (op : Option View → Prog (Status × Option View)) (edit : Edit)
      (same : ∀ v, op (some v) = edit.program v) (null : op none = .done (.invalidBuffer, none)) :
      Makes (OutcomeFits pool) (bufferOutcome (op buffer)) := by
    refine outcome_fits ?_
    cases buffer with
    | none =>
        rw [null]
        exact fits_none
    | some v =>
        rw [same]
        exact Edit.fits (fitting v (has v rfl)) edit
  cases call with
  | life call => exact plain_fits fun _ _ same => (LifeResult.outcome_plain same).1
  | heartbeat | prepareTransfer | poolRelease | linkCreate | recoverOwner | recoverClaiming =>
      refine plain_fits fun result outcome same => ?_
      cases same
      first | rfl | cases result <;> rfl
  | reconcile =>
      refine plain_fits fun result outcome same => ?_
      obtain ⟨_, -, rfl⟩ := Option.map_eq_some_iff.mp same
      rfl
  | allocate allocator parentId => exact outcome_fits (allocate_fits _ _)
  | allocEx link size headroom tailroom parent => exact outcome_fits (allocEx_fits _ _ _ _ _)
  | fromHandle handle owner =>
      refine (fromHandle_fits handle owner).bind fun result fits => ?_
      rintro _ ⟨⟩ v same
      cases result with
      | error status => cases same
      | ok w =>
          cases same
          exact fits v rfl
  | setRegion buffer offset length =>
      exact window legal (bufferSetRegion · offset length) (.setRegion offset length)
        (fun _ => rfl) rfl
  | append buffer bytes =>
      exact window legal (bufferAppend · bytes) (.append bytes) (fun _ => rfl) rfl
  | prepend buffer bytes =>
      exact window legal (bufferPrepend · bytes) (.prepend bytes) (fun _ => rfl) rfl
  | trimFront buffer length =>
      exact window legal (bufferTrimFront · length) (.trimFront length) (fun _ => rfl) rfl
  | trimBack buffer length =>
      exact window legal (bufferTrimBack · length) (.trimBack length) (fun _ => rfl) rfl
  | resize buffer size =>
      exact window legal (bufferResize · size) (.resize size) (fun _ => rfl) rfl
  | setLimits buffer hopLimit deadline =>
      refine makes_after fun status => ?_
      rintro _ ⟨⟩
      exact known legal
  | send link buffer => exact outcome_fits (send_fits link (known legal.2))
  | claim message receiver => exact outcome_fits (claim_fits _ _)
  | recv link fuel =>
      refine (recv_fits link fuel).bind fun result fits => ?_
      intro outcome same
      obtain ⟨answer, rfl, rfl⟩ := Option.map_eq_some_iff.mp same
      exact fits answer rfl
  | release buffer => exact outcome_fits (release_fits (known legal))
  | put link buffer => exact outcome_fits (put_fits link (known legal.2))
  | restartNext restart =>
      refine (restartNext_fits restart).bind fun result fits => ?_
      rintro _ ⟨⟩
      exact fits

theorem Session.Fitting.step (fitting : s.Fitting pool) (step : s.Step pool s') :
    s'.Fitting pool := by
  cases step with
  | call legal completes =>
      have fits := (ApiCall.fits fitting legal).sound completes
      intro v known
      rcases List.mem_append.mp known with made | old
      · exact fits _ rfl v (Option.mem_toList.mp made)
      · exact fitting v old
  | fill => exact fitting
  | tick => exact fitting

theorem Session.Reached.fitting {ok : Session → Session → Prop} (reached : s.Reached pool ok) :
    s.Fitting pool := by
  refine reached.invariant (I := fun s => s.Fitting pool) (fun s starts v known => ?_)
    (fun s s' _ step _ fitting => fitting.step step)
  obtain ⟨-, -, -, none, -⟩ := starts
  rw [none] at known
  cases known

end Sessions

/-! ## Where the copies go -/

/-- A copy goes into slot `i`, byte for byte. -/
def CopiesInto (pool : Pool) (i : Nat) {β : Type} : Act β → Mem → Prop
  | .copyIn j start bytes, _ => j = i ∧ ∀ k, k < bytes.length → start + k < pool.slotCapacity
  | _, _ => True

/-- Every byte that the program copies, run alone from `m`, goes into slot `i`. -/
def Contained (pool : Pool) (i : Nat) {α : Type} (p : Prog α) (m : Mem) : Prop :=
  ∀ j start bytes m', Performs p m (Act.copyIn j start bytes) m' →
    j = i ∧ ∀ k, k < bytes.length → start + k < pool.slotCapacity

/-- Actions that copy no bytes. -/
def Act.dry {β : Type} : Act β → Prop
  | .copyIn _ _ _ => False
  | _ => True

/-- The program copies no bytes. -/
def Dry {α : Type} : Prog α → Prop
  | .done _ => True
  | .act action next => action.dry ∧ ∀ b, Dry (next b)

section Copies

variable {α β : Type} {pool : Pool} {i : Nat} {v : View} {m : Mem}

theorem dry_act {action : Act β} {next : β → Prog α} (plain : action.dry)
    (rest : ∀ b, Dry (next b)) : Dry (.act action next) := ⟨plain, rest⟩

theorem Dry.bind {p : Prog β} {f : β → Prog α} (first : Dry p) (rest : ∀ b, Dry (f b)) :
    Dry (p >>= f) := by
  induction p with
  | done b => exact rest b
  | act action next ih => exact ⟨first.1, fun b => ih b (first.2 b)⟩

theorem Act.dry.copies {action : Act β} (plain : action.dry) : CopiesInto pool i action m := by
  cases action
  case copyIn => exact plain.elim
  all_goals trivial

theorem Dry.wps {p : Prog α} (dry : Dry p) (m : Mem) :
    p.wps (CopiesInto pool i) (fun _ _ => True) m := by
  induction p generalizing m with
  | done a => trivial
  | act action next ih => exact ⟨dry.1.copies, fun e => ih _ (dry.2 _) _⟩

/-- A dry program that only looks around. -/
theorem looks_wps {p : Prog α} {a : α} (looks : Looks m p (.done a)) (dry : Dry p) :
    p.wps (CopiesInto pool i) (fun b m' => b = a ∧ m' = m) m := by
  generalize final : Program.done a = q at looks
  induction looks with
  | here p =>
      subst final
      exact ⟨rfl, rfl⟩
  | act b same _ ih =>
      refine ⟨dry.1.copies, fun e => ?_⟩
      rw [same e]
      exact ih (dry.2 _) final

theorem bufferOwned_dry (v : View) : Dry (bufferOwned (some v)) := by
  simp only [bufferOwned, ownedBy, registeredEpoch, lift_bind]
  refine dry_act trivial fun generation => ?_
  split
  · trivial
  refine dry_act trivial fun state => ?_
  split
  · trivial
  refine Dry.bind (dry_act trivial fun owner => ?_) fun same => ?_
  · split
    · trivial
    · exact dry_act trivial fun _ => trivial
  split
  · trivial
  refine Dry.bind ?_ fun _ => trivial
  split
  · exact dry_act trivial fun _ => trivial
  · trivial

theorem bufferHeadroom_dry (v : View) : Dry (bufferHeadroom (some v)) := by
  refine (bufferOwned_dry v).bind fun owned => ?_
  cases owned with
  | false => trivial
  | true => exact dry_act trivial fun _ => trivial

theorem bufferTailroom_dry (v : View) : Dry (bufferTailroom (some v)) := by
  refine (bufferOwned_dry v).bind fun owned => ?_
  cases owned with
  | false => trivial
  | true => exact dry_act trivial fun _ => trivial

theorem bufferSetRegion_dry (v : View) (offset length : Nat) :
    Dry (bufferSetRegion (some v) offset length) := by
  refine (bufferOwned_dry v).bind fun owned => ?_
  cases owned with
  | false => trivial
  | true =>
      dsimp only
      split
      · trivial
      · exact dry_act trivial fun _ => dry_act trivial fun _ => trivial

/-- An append writes behind the window of its view, into the room that the shared region
leaves. -/
theorem append_contained {bytes : List Nat} (valid : Valid m v)
    (inside : bytes.length ≤ v.tailroom (m.core v.slotId).region.offset →
      ∀ k, k < bytes.length → v.data + v.length + k < pool.slotCapacity) :
    Contained pool v.slotId (bufferAppend (some v) bytes) m := by
  have safe : (bufferAppend (some v) bytes).wps (CopiesInto pool v.slotId) (fun _ _ => True) m := by
    unfold bufferAppend
    rw [wps_bind]
    refine wps_mono (looks_wps (bufferOwned_looks valid) (bufferOwned_dry v)) ?_
    rintro _ _ ⟨rfl, rfl⟩
    dsimp only
    rw [wps_bind]
    refine wps_mono (looks_wps (bufferTailroom_looks valid) (bufferTailroom_dry v)) ?_
    rintro _ _ ⟨rfl, rfl⟩
    refine wps_ite (fun _ => trivial) fun room => ⟨⟨rfl, inside (Nat.not_lt.mp room)⟩, fun e => ?_⟩
    have rest : Dry (read v.slotId (·.region.offset) >>= fun offset =>
        bufferSetRegion (some v) offset ((v.length + bytes.length) % u32)) :=
      dry_act trivial fun _ => bufferSetRegion_dry v _ _
    exact rest.wps _
  intro j start copied m' performs
  have allowed : CopiesInto pool v.slotId (Act.copyIn j start copied) m' := performs.allowed safe
  exact allowed

/-- A prepend writes before the shared region. -/
theorem prepend_contained {bytes : List Nat} (valid : Valid m v)
    (within : (m.core v.slotId).region.offset ≤ pool.slotCapacity) :
    Contained pool v.slotId (bufferPrepend (some v) bytes) m := by
  have safe : (bufferPrepend (some v) bytes).wps (CopiesInto pool v.slotId) (fun _ _ => True) m := by
    unfold bufferPrepend
    rw [wps_bind]
    refine wps_mono (looks_wps (bufferOwned_looks valid) (bufferOwned_dry v)) ?_
    rintro _ _ ⟨rfl, rfl⟩
    dsimp only
    rw [wps_bind]
    refine wps_mono (looks_wps (bufferHeadroom_looks valid) (bufferHeadroom_dry v)) ?_
    rintro _ m ⟨rfl, rfl⟩
    refine wps_ite (fun _ => trivial) fun room => ⟨trivial, fun _ => ⟨⟨rfl, fun k short => ?_⟩, ?_⟩⟩
    · have small : (m.core v.slotId).region.offset < u32 :=
        lt_of_le_of_lt within pool.slotCapacity_lt
      have shift : sub32 (m.core v.slotId).region.offset bytes.length =
        (m.core v.slotId).region.offset - bytes.length := sub32_of_le (Nat.not_lt.mp room) small
      have start : sub32 (m.core v.slotId).region.offset bytes.length + k < pool.slotCapacity := by
        rw [shift]
        omega
      exact start
    · exact fun _ => (bufferSetRegion_dry v _ _).wps _
  intro j start copied m' performs
  have allowed : CopiesInto pool v.slotId (Act.copyIn j start copied) m' := performs.allowed safe
  exact allowed

/-- Appends through the view stay inside the slot, whatever they append, exactly when its window
does not start behind the shared region, or the shared region leaves it no room. -/
theorem appends_contained_iff (valid : Valid m v) (fits : v.Fits pool) :
    (∀ bytes, Contained pool v.slotId (bufferAppend (some v) bytes) m) ↔
      v.data ≤ (m.core v.slotId).region.offset ∨
        pool.slotCapacity ≤ (m.core v.slotId).region.offset + v.length := by
  have capacity := fits.capacity
  constructor
  · intro contained
    by_contra behind
    simp only [not_or, Nat.not_le] at behind
    -- as many bytes as the shared region leaves room for
    let bytes := List.replicate
      (pool.slotCapacity - (m.core v.slotId).region.offset - v.length) 0
    have length : bytes.length = pool.slotCapacity - (m.core v.slotId).region.offset - v.length :=
      List.length_replicate
    have room : ¬ bytes.length > v.tailroom (m.core v.slotId).region.offset := by
      rw [length, View.tailroom, capacity, if_neg (by omega)]
      omega
    have looks : Looks m (bufferAppend (some v) bytes)
        (.act (.copyIn v.slotId (v.data + v.length) bytes) fun _ => do
          let offset ← read v.slotId (·.region.offset)
          bufferSetRegion (some v) offset ((v.length + bytes.length) % u32)) := by
      refine (bufferOwned_looks valid).bind ((bufferTailroom_looks valid).bind ?_)
      rw [if_neg room]
      exact .here _
    have last := (contained bytes _ _ _ _ looks.performs).2 (bytes.length - 1) (by omega)
    omega
  · intro safe bytes
    refine append_contained valid fun room k short => ?_
    rw [View.tailroom, capacity] at room
    split at room
    · omega
    · omega

end Copies

/-- In every reached session the window of a valid view and all its prepends stay inside the
slot, and so do its appends exactly when the window does not start behind the region that the
views of the slot share, or that region leaves the view no room. -/
theorem edits_stay_inside_iff {pool : Pool} {s : Session} (reached : s.Reached pool anyStep)
    {v : View} (known : v ∈ s.views) (valid : Valid s.mem v) :
    v.data + v.length ≤ pool.slotCapacity ∧
    (∀ bytes, Contained pool v.slotId (bufferPrepend (some v) bytes) s.mem) ∧
    ((∀ bytes, Contained pool v.slotId (bufferAppend (some v) bytes) s.mem) ↔
      v.data ≤ (s.mem.core v.slotId).region.offset ∨
        pool.slotCapacity ≤ (s.mem.core v.slotId).region.offset + v.length) := by
  have fits := reached.fitting v known
  have inside := (reached.well.views v known).inside
  have region := SlotWell.region (reached.well.slots _ inside)
  exact ⟨fits.window, fun bytes => prepend_contained valid region.1,
    appends_contained_iff valid fits⟩

theorem edits_stay_inside_allocated :
    Contained smallPool allocatedView.slotId (bufferAppend (some allocatedView) [1, 2, 3])
      allocatedSession.mem := by
  have known : allocatedView ∈ allocatedSession.views := by decide
  exact (edits_stay_inside_iff allocated_reached known allocated_valid).2.2.mpr (.inl (by decide))
    [1, 2, 3]

/-- Two views of one slot: the first moves its window to the end of the slot, the second moves
the shared region back to the start. -/
def sharedSession : Session :=
  [.fromHandle allocatedView.handle 1, .setRegion (some allocatedView) 60 4,
    .setRegion (some allocatedView) 0 4].foldl (Session.run smallPool) allocatedSession

theorem shared_reached : sharedSession.Reached smallPool anyStep := by
  have plain {s : Session} {call : ApiCall} (legal : call.Legal s)
      (ends : ((call.program smallPool).runWith default s.mem).1.isSome = true)
      (before : s.Reached smallPool anyStep) : (s.run smallPool call).Reached smallPool anyStep := by
    obtain ⟨start, starts, leads⟩ := before
    exact ⟨start, starts, leads.tail ⟨Session.run_step legal ends, trivial⟩⟩
  simp only [sharedSession, List.foldl_cons, List.foldl_nil]
  refine plain ?_ (by decide) (plain ?_ (by decide) (plain trivial (by decide) allocated_reached))
  all_goals
    rintro v ⟨⟩
    decide

/-- The first view, with its window at the end of the slot. -/
def lateView : View := { allocatedView with data := 60, length := 4 }

/-- Sixty bytes that the first view appends go to the addresses behind the slot. -/
theorem append_leaves_slot :
    sharedSession.Reached smallPool anyStep ∧ lateView ∈ sharedSession.views ∧
    Valid sharedSession.mem lateView ∧
    ¬ Contained smallPool lateView.slotId
      (bufferAppend (some lateView) (List.replicate 60 0)) sharedSession.mem := by
  have valid : Valid sharedSession.mem lateView :=
    ⟨by decide, by decide, by decide, by decide, by decide⟩
  refine ⟨shared_reached, by decide, valid, fun contained => ?_⟩
  have looks : Looks sharedSession.mem (bufferAppend (some lateView) (List.replicate 60 0))
      (.act (.copyIn lateView.slotId (lateView.data + lateView.length) (List.replicate 60 0))
        fun _ => do
          let offset ← read lateView.slotId (·.region.offset)
          bufferSetRegion (some lateView) offset
            ((lateView.length + (List.replicate 60 0).length) % u32)) := by
    refine (bufferOwned_looks valid).bind ((bufferTailroom_looks valid).bind ?_)
    rw [if_neg (by decide)]
    exact .here _
  have first := (contained _ _ _ _ looks.performs).2 0 (by decide)
  exact absurd first (by decide)

end Zipc
