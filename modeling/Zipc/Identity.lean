import Zipc.Words
import Zipc.Lib.Interleaving

/-! # The buffer ID generator

`generate_buffer_id` for one component. Each component has its own three words: the
session with a rotating bit, the number of calls inside the gate, and the next sequence.
A call that finds no session, or an exhausted one, sets the rotating bit, waits for the
gate to drain and installs a fresh random session. Loops take fuel and answer `none`
when it runs out: the call is then still spinning.
-/

namespace Zipc

open Atomic

def sessionMask : Nat := 0x00ffffff

def sessionRotating : Nat := 0x80000000

/-- `zipc_buffer_id_generator_t`. -/
structure Generator where
  sessionState : Nat
  sequence : Nat
  active : Nat
  deriving Repr, DecidableEq, Inhabited

/-- The environment of one generator step: a weak compare-and-exchange may fail for no
    reason, and `zipc_platform_random` may fail or deliver any word. -/
structure Entropy where
  spurious : Bool := false
  random : Option Nat := none
  deriving Inhabited

inductive GenAct : Type → Type 1 where
  | loadSession : GenAct Nat
  | casSession (expected desired : Nat) : GenAct Bool
  | storeSession (v : Nat) : GenAct Unit
  | loadActive : GenAct Nat
  | casActive (expected desired : Nat) : GenAct Bool
  | subActive : GenAct Unit
  | loadSequence : GenAct Nat
  | casSequence (expected desired : Nat) : GenAct Bool
  | storeSequence (v : Nat) : GenAct Unit
  | random : GenAct (Option Nat)

/-- A weak compare-and-exchange of one word. -/
def casWeak (word expected desired : Nat) (e : Entropy) : Bool × Nat :=
  if word = expected ∧ e.spurious = false then (true, desired) else (false, word)

def GenAct.exec : {β : Type} → GenAct β → Entropy → Generator → β × Generator
  | _, .loadSession, _, g => (g.sessionState, g)
  | _, .casSession expected desired, e, g =>
      ((casWeak g.sessionState expected desired e).1,
        { g with sessionState := (casWeak g.sessionState expected desired e).2 })
  | _, .storeSession v, _, g => ((), { g with sessionState := v })
  | _, .loadActive, _, g => (g.active, g)
  | _, .casActive expected desired, e, g =>
      ((casWeak g.active expected desired e).1,
        { g with active := (casWeak g.active expected desired e).2 })
  | _, .subActive, _, g => ((), { g with active := (g.active + (u32 - 1)) % u32 })
  | _, .loadSequence, _, g => (g.sequence, g)
  | _, .casSequence expected desired, e, g =>
      ((casWeak g.sequence expected desired e).1,
        { g with sequence := (casWeak g.sequence expected desired e).2 })
  | _, .storeSequence v, _, g => ((), { g with sequence := v })
  | _, .random, e, g => (e.random.map (· % u32), g)

instance : Semantics GenAct Entropy Generator := ⟨GenAct.exec⟩

@[simp] theorem genExec_eq {β : Type} (action : GenAct β) (e : Entropy) (g : Generator) :
    Semantics.exec action e g = action.exec e g := rfl

abbrev GenProg := Program GenAct

/-- `random_session` with `attempts` tries left. -/
def randomSession (oldSession : Nat) : Nat → GenProg (Except Status Nat)
  | 0 => pure (.error .entropyUnavailable)
  | attempts + 1 => do
      let drawn ← .lift .random
      match drawn with
      | none => pure (.error .entropyUnavailable)
      | some word =>
          if word &&& sessionMask ≠ 0 ∧ word &&& sessionMask ≠ oldSession then
            pure (.ok (word &&& sessionMask))
          else randomSession oldSession attempts

/-- The wait for the gate to drain. -/
def drainGate : Nat → GenProg Bool
  | 0 => pure false
  | fuel + 1 => do
      let active ← .lift .loadActive
      if active = 0 then pure true else drainGate fuel

/-- A rotation that holds the rotating bit: drain, draw, and install the new session, or
    put the word `state` back and fail. -/
def rotateSession (state oldSession fuel : Nat) : GenProg (Option (Except Status Unit)) := do
  let drained ← drainGate fuel
  if drained = false then pure none
  else do
    let fresh ← randomSession oldSession 16
    match fresh with
    | .error status => do
        .lift (.storeSession state)
        pure (some (.error status))
    | .ok session => do
        .lift (.storeSequence 0)
        .lift (.storeSession session)
        pure (some (.ok ()))

/-- The end of a round: `none` goes around the loop again. -/
abbrev GenRound := Option (Option (Except Status Nat))

/-- A round that rotates and, on success, goes around the loop again. -/
def rotateRound (state oldSession fuel : Nat) : GenProg GenRound := do
  let rotated ← rotateSession state oldSession fuel
  match rotated with
  | none => pure (some none)
  | some (.error status) => pure (some (some (.error status)))
  | some (.ok ()) => pure none

/-- The part of a round inside the gate, once the session was seen again. -/
def issueRound (component state session fuel : Nat) : GenProg GenRound := do
  let sequence ← .lift .loadSequence
  if sequence = u32 - 1 then do
    .lift .subActive
    let won ← .lift (.casSession state (state ||| sessionRotating))
    if won = false then pure none else rotateRound state session fuel
  else do
    let won ← .lift (.casSequence sequence (sequence + 1))
    if won = false then do
      .lift .subActive
      pure none
    else do
      .lift .subActive
      pure (some (some (.ok (bufferIdMake component session sequence))))

/-- One round of the loop of `generate_buffer_id`. -/
def generateRound (component fuel : Nat) : GenProg GenRound := do
  let state ← .lift .loadSession
  if state &&& sessionRotating ≠ 0 then pure none
  else if state &&& sessionMask = 0 then do
    let won ← .lift (.casSession state sessionRotating)
    if won = false then pure none else rotateRound 0 0 fuel
  else do
    let active ← .lift .loadActive
    if active = u32 - 1 then pure none
    else do
      let counted ← .lift (.casActive active (active + 1))
      if counted = false then pure none
      else do
        let again ← .lift .loadSession
        if again ≠ state then do
          .lift .subActive
          pure none
        else issueRound component state (state &&& sessionMask) fuel

def generateLoop (component : Nat) : Nat → GenProg (Option (Except Status Nat))
  | 0 => pure none
  | fuel + 1 => do
      let round ← generateRound component fuel
      match round with
      | none => generateLoop component fuel
      | some result => pure result

/-- `generate_buffer_id`. -/
def generateBufferId (fuel component : Nat) : GenProg (Option (Except Status Nat)) :=
  if componentIdValid component = false then pure (some (.error .invalidArgument))
  else generateLoop component fuel

/-! ## Where a call is -/

/-- How far a call has come, with the words it has read. -/
inductive GenMode where
  | idle
  | vacant (state : Nat)
  | seen (state : Nat)
  | counting (state active : Nat)
  | counted (state : Nat)
  | leaving
  | entered (state : Nat)
  | issuing (state sequence : Nat)
  | issued (state sequence : Nat)
  | emitted (state sequence : Nat)
  | exhausted (state : Nat)
  | expired (state : Nat)
  | draining (state : Nat)
  | drawing (state : Nat)
  | drawn (state session : Nat)
  | reset (state session : Nat)
  | failed
  deriving Repr, DecidableEq

/-- A random word that `random_session` accepts after `state`, reduced to a session. -/
def acceptSession (state : Nat) : Option Nat → Option Nat
  | none => none
  | some word =>
      if word &&& sessionMask ≠ 0 ∧ word &&& sessionMask ≠ state &&& sessionMask then
        some (word &&& sessionMask)
      else none

def genPermits (m : GenMode) {β : Type} : GenAct β → Prop
  | .loadSession => match m with
      | .idle | .counted _ => True
      | _ => False
  | .casSession expected desired => match m with
      | .vacant state => expected = state ∧ desired = sessionRotating
      | .expired state => expected = state ∧ desired = state ||| sessionRotating
      | _ => False
  | .storeSession v => match m with
      | .drawing state => v = state
      | .reset _ session => v = session
      | _ => False
  | .loadActive => match m with
      | .seen _ | .draining _ => True
      | _ => False
  | .casActive expected desired => match m with
      | .counting _ active => expected = active ∧ desired = active + 1
      | _ => False
  | .subActive => match m with
      | .leaving | .issued _ _ | .exhausted _ => True
      | _ => False
  | .loadSequence => match m with
      | .entered _ => True
      | _ => False
  | .casSequence expected desired => match m with
      | .issuing _ sequence => expected = sequence ∧ desired = sequence + 1
      | _ => False
  | .storeSequence v => match m with
      | .drawn _ _ => v = 0
      | _ => False
  | .random => match m with
      | .drawing _ => True
      | _ => False

def genNext (m : GenMode) {β : Type} : GenAct β → β → GenMode
  | .loadSession, word => match m with
      | .idle =>
          if word &&& sessionRotating ≠ 0 then .idle
          else if word &&& sessionMask = 0 then .vacant word else .seen word
      | .counted state => if word ≠ state then .leaving else .entered state
      | _ => m
  | .casSession _ _, won => match m with
      | .vacant _ => if won then .draining 0 else .idle
      | .expired state => if won then .draining state else .idle
      | _ => m
  | .storeSession _, _ => match m with
      | .drawing _ => .failed
      | _ => .idle
  | .loadActive, active => match m with
      | .seen state => if active = u32 - 1 then .idle else .counting state active
      | .draining state => if active = 0 then .drawing state else .draining state
      | _ => m
  | .casActive _ _, won => match m with
      | .counting state _ => if won then .counted state else .idle
      | _ => m
  | .subActive, _ => match m with
      | .issued state sequence => .emitted state sequence
      | .exhausted state => .expired state
      | _ => .idle
  | .loadSequence, sequence => match m with
      | .entered state =>
          if sequence = u32 - 1 then .exhausted state else .issuing state sequence
      | _ => m
  | .casSequence _ _, won => match m with
      | .issuing state sequence => if won then .issued state sequence else .leaving
      | _ => m
  | .storeSequence _, _ => match m with
      | .drawn state session => .reset state session
      | _ => m
  | .random, word => match m with
      | .drawing state =>
          match acceptSession state word with
          | some session => .drawn state session
          | none => .drawing state
      | _ => m

/-- How a call can end: a returned ID is the one that its mode issued. -/
def genEnds (component : Nat) (m : GenMode) (result : Option (Except Status Nat)) : Prop :=
  match m, result with
  | .emitted state sequence, some (.ok id) =>
      id = bufferIdMake component (state &&& sessionMask) sequence ∧
        componentIdValid component = true
  | .failed, some (.error status) => status = .entropyUnavailable
  | .idle, none | .draining _, none => True
  | .idle, some (.error status) =>
      status = .invalidArgument ∧ componentIdValid component = false
  | _, _ => False

def genDiscipline : Discipline GenAct Nat GenMode where
  start _ := .idle
  permits _ m action := genPermits m action
  next _ m action answer := genNext m action answer

/-- Any number of calls of `generate_buffer_id` for one component; a call is labelled
    with its fuel. -/
def genSystem (component : Nat) : System GenAct Nat GenMode (Option (Except Status Nat)) :=
  ⟨fun fuel => generateBufferId fuel component, genDiscipline⟩

abbrev GenConfig := Config GenAct Generator Nat GenMode (Option (Except Status Nat))
abbrev GenEvent := Event GenAct Nat GenMode

section Discipline

open Program

variable {l component : Nat}

@[simp] theorem genDiscipline_permits {β : Type} (m : GenMode) (action : GenAct β) :
    genDiscipline.permits l m action = genPermits m action := rfl

@[simp] theorem genDiscipline_next {β : Type} (m : GenMode) (action : GenAct β) (answer : β) :
    genDiscipline.next l m action answer = genNext m action answer := rfl

theorem randomSession_follows (state : Nat) (attempts : Nat) :
    (randomSession (state &&& sessionMask) attempts).Follows genDiscipline l
      (fun m result => match result with
        | .error status => m = .drawing state ∧ status = .entropyUnavailable
        | .ok session => m = .drawn state session) (.drawing state) := by
  induction attempts with
  | zero => exact ⟨rfl, rfl⟩
  | succ attempts ih =>
      simp only [randomSession, lift_bind, follows_act]
      refine ⟨trivial, fun drawn => ?_⟩
      simp only [genDiscipline_next, genNext]
      cases drawn with
      | none => exact ⟨rfl, rfl⟩
      | some word =>
          simp only [acceptSession]
          split
          · exact rfl
          · exact ih

theorem drainGate_follows (state fuel : Nat) :
    (drainGate fuel).Follows genDiscipline l
      (fun m drained => m = if drained then .drawing state else .draining state)
      (.draining state) := by
  induction fuel with
  | zero => rfl
  | succ fuel ih =>
      simp only [drainGate, lift_bind, follows_act]
      refine ⟨trivial, fun active => ?_⟩
      simp only [genDiscipline_next, genNext]
      split
      · rfl
      · exact ih

/-- Between rounds a call is idle. -/
def roundEnds (component : Nat) (m : GenMode) : GenRound → Prop
  | none => m = .idle
  | some result => genEnds component m result

theorem rotateRound_follows (state fuel : Nat) :
    (rotateRound state (state &&& sessionMask) fuel).Follows genDiscipline l
      (roundEnds component) (.draining state) := by
  rw [rotateRound, rotateSession, follows_bind, follows_bind]
  refine follows_mono (drainGate_follows state fuel) ?_
  rintro m drained rfl
  cases drained with
  | false => exact trivial
  | true =>
      simp only [Bool.true_eq_false, if_false, if_true]
      rw [follows_bind]
      refine follows_mono (randomSession_follows state 16) ?_
      rintro m result ends
      cases result with
      | error status =>
          obtain ⟨rfl, rfl⟩ := ends
          exact ⟨rfl, fun _ => rfl⟩
      | ok session =>
          subst ends
          exact ⟨rfl, fun _ => ⟨rfl, fun _ => rfl⟩⟩

theorem issueRound_follows (valid : componentIdValid component = true) (state fuel : Nat) :
    (issueRound component state (state &&& sessionMask) fuel).Follows genDiscipline l
      (roundEnds component) (.entered state) := by
  simp only [issueRound, lift_bind, follows_act]
  refine ⟨trivial, fun sequence => ?_⟩
  simp only [genDiscipline_next, genNext]
  split
  · refine ⟨trivial, fun _ => ⟨⟨rfl, rfl⟩, fun won => ?_⟩⟩
    simp only [genDiscipline_next, genNext]
    cases won with
    | false => rfl
    | true => exact rotateRound_follows state fuel
  · refine ⟨⟨rfl, rfl⟩, fun won => ?_⟩
    simp only [genDiscipline_next, genNext]
    cases won with
    | false => exact ⟨trivial, fun _ => rfl⟩
    | true => exact ⟨trivial, fun _ => ⟨rfl, valid⟩⟩

theorem generateRound_follows (valid : componentIdValid component = true) (fuel : Nat) :
    (generateRound component fuel).Follows genDiscipline l (roundEnds component) .idle := by
  simp only [generateRound, lift_bind, follows_act]
  refine ⟨trivial, fun state => ?_⟩
  simp only [genDiscipline_next, genNext]
  split
  · rfl
  split
  · refine ⟨⟨rfl, rfl⟩, fun won => ?_⟩
    simp only [genDiscipline_next, genNext]
    cases won with
    | false => rfl
    | true => exact rotateRound_follows 0 fuel
  refine ⟨trivial, fun active => ?_⟩
  simp only [genDiscipline_next, genNext]
  split
  · rfl
  refine ⟨⟨rfl, rfl⟩, fun counted => ?_⟩
  simp only [genDiscipline_next, genNext]
  cases counted with
  | false => rfl
  | true =>
      refine ⟨trivial, fun again => ?_⟩
      simp only [genDiscipline_next, genNext, if_true]
      split
      · exact ⟨trivial, fun _ => rfl⟩
      · exact issueRound_follows valid state fuel

theorem generateLoop_follows (valid : componentIdValid component = true) (fuel : Nat) :
    (generateLoop component fuel).Follows genDiscipline l (genEnds component) .idle := by
  induction fuel with
  | zero => trivial
  | succ fuel ih =>
      rw [generateLoop, follows_bind]
      refine follows_mono (generateRound_follows valid fuel) ?_
      intro m round ends
      cases round with
      | none =>
          subst ends
          exact ih
      | some result => exact ends

theorem genSystem_disciplined (component : Nat) :
    (genSystem component).Disciplined (fun _ => genEnds component) := by
  intro fuel
  simp only [genSystem, generateBufferId]
  split
  · rename_i invalid
    exact ⟨rfl, invalid⟩
  · rename_i valid
    exact generateLoop_follows (Bool.not_eq_false _ ▸ valid) fuel

end Discipline

end Zipc
