import Zipc.Topology

/-! # Validating a configuration

`zipc_topology_validate` checks the links one after the other and compares each with all that
come behind it, before those are checked themselves. A later link without a name is therefore
passed to `strcmp` as a null pointer. Here the validation is followed comparison by comparison,
and it has no result when a null pointer is compared; wherever it has one, the configuration is
accepted exactly when it is well formed.
-/

namespace Zipc

variable {Pool Transport : Type}

/-! ## Comparison by comparison -/

/-- `strcmp(a, b) == 0`; nothing when one of the strings is a null pointer. -/
def strcmpZero : Option CString → Option CString → Option Bool
  | some a, some b => some (a = b)
  | _, _ => none

/-- `topology_find_pool` and `topology_find_transport`, up to what is found. -/
def findBound {α : Type} (name : Option CString) : List (CString × α) → Option Bool
  | [] => some false
  | row :: rows =>
      match strcmpZero (some row.1) name with
      | none => none
      | some true => some true
      | some false => findBound name rows

/-- The checks of one link. -/
def TopologyLinkConfig.check (t : Topology Pool Transport) (l : TopologyLinkConfig) : Option Bool :=
  if !topologyNameValid l.name || !topologyNameValid l.poolName ||
      !topologyNameValid l.transportName || l.linkId = 0 || !componentIdValid l.localComponent ||
      !componentIdValid l.remoteComponent || l.role > linkRoleConsumer ||
      l.localComponent = l.remoteComponent then some false
  else
    match findBound l.poolName t.poolBindings with
    | some true => findBound l.transportName t.transportBindings
    | unbound => unbound

/-- The inner loop: whether a later link has the name or the ID of `l`. -/
def TopologyLinkConfig.repeatedChecked (l : TopologyLinkConfig) :
    List TopologyLinkConfig → Option Bool
  | [] => some false
  | other :: later =>
      match strcmpZero l.name other.name with
      | none => none
      | some same =>
          if same || (l.linkId ≠ 0 && l.linkId = other.linkId) then some true
          else l.repeatedChecked later

/-- The outer loop. -/
def checkLinks (t : Topology Pool Transport) : List TopologyLinkConfig → Option Bool
  | [] => some true
  | l :: later =>
      match l.check t with
      | some true =>
          match l.repeatedChecked later with
          | some false => checkLinks t later
          | some true => some false
          | none => none
      | failed => failed

/-- `zipc_topology_validate`, without a result when it passes a null pointer to `strcmp`. -/
def topologyValidateChecked (t : Topology Pool Transport)
    (config : Option (List TopologyLinkConfig)) : Option Status :=
  match config with
  | none => some .invalidArgument
  | some links =>
      if links.length = 0 ∨ links.length > topologyMaxLinks then some .invalidArgument
      else (checkLinks t links).map fun passed => if passed then .ok else .invalidArgument

/-! ## What is well formed -/

/-- The string is there, and of a length that fits a name field. -/
def Nameable (name : Option CString) : Prop :=
  ∃ s, name = some s ∧ 1 ≤ s.length ∧ s.length ≤ 63

structure TopologyLinkConfig.Acceptable (t : Topology Pool Transport) (l : TopologyLinkConfig) :
    Prop where
  name : Nameable l.name
  poolName : Nameable l.poolName
  transportName : Nameable l.transportName
  linkId : l.linkId ≠ 0
  localComponent : 1 ≤ l.localComponent ∧ l.localComponent ≤ 254
  remoteComponent : 1 ≤ l.remoteComponent ∧ l.remoteComponent ≤ 254
  apart : l.localComponent ≠ l.remoteComponent
  role : l.role ≤ linkRoleConsumer
  pool : ∃ row ∈ t.poolBindings, some row.1 = l.poolName
  transport : ∃ row ∈ t.transportBindings, some row.1 = l.transportName

structure Acceptable (t : Topology Pool Transport) (links : List TopologyLinkConfig) : Prop where
  count : 1 ≤ links.length ∧ links.length ≤ 64
  each : ∀ l ∈ links, l.Acceptable t
  distinct : links.Pairwise fun a b => a.name ≠ b.name ∧ a.linkId ≠ b.linkId

/-- Every link without a name has one before it that repeats the name or the ID of `l`. -/
def TopologyLinkConfig.Comparable (l : TopologyLinkConfig) (later : List TopologyLinkConfig) :
    Prop :=
  ∀ before other after, later = before ++ other :: after → other.name = none →
    ∃ o ∈ before, l.name = o.name ∨ l.linkId = o.linkId

/-- The count is refused, or the first link fails its own checks, or it can be compared with the
links behind it. -/
def NamesPresent (t : Topology Pool Transport) (links : List TopologyLinkConfig) : Prop :=
  links.length = 0 ∨ links.length > topologyMaxLinks ∨
    ∀ l later, links = l :: later → l.valid t = true → l.Comparable later

/-! ## One link -/

section OneLink

variable {t : Topology Pool Transport} {l other : TopologyLinkConfig}
  {later : List TopologyLinkConfig}

theorem nameValid_iff {name : Option CString} : topologyNameValid name = true ↔ Nameable name := by
  cases name with
  | none => simp [topologyNameValid, Nameable]
  | some s =>
      simp only [topologyNameValid, Nameable, Bool.and_eq_true, decide_eq_true_eq,
        Option.some.injEq, exists_eq_left', ← List.length_pos_iff]
      rfl

theorem bound_iff {α : Type} {rows : List (CString × α)} {name : Option CString} :
    bound rows name = true ↔ ∃ row ∈ rows, some row.1 = name := by
  simp [bound]

theorem findBound_eq {α : Type} {name : CString} (rows : List (CString × α)) :
    findBound (some name) rows = some (bound rows (some name)) := by
  induction rows with
  | nil => rfl
  | cons row rows ih =>
      simp only [findBound, strcmpZero]
      by_cases same : row.1 = name
      · simp [same, bound]
      · simp [same, ih, bound]

/-- The checks of one link pass no null pointer to `strcmp`. -/
theorem check_eq (t : Topology Pool Transport) (l : TopologyLinkConfig) :
    l.check t = some (l.valid t) := by
  unfold TopologyLinkConfig.check
  split
  · rename_i failed
    rw [Eq.comm, Option.some.injEq]
    by_contra passed
    rw [Bool.not_eq_false] at passed
    simp only [TopologyLinkConfig.valid, Bool.and_eq_true, decide_eq_true_eq] at passed
    grind
  · rename_i passed
    simp only [Bool.or_eq_true, Bool.not_eq_true', decide_eq_true_eq, not_or, Bool.not_eq_false,
      Nat.not_lt, gt_iff_lt] at passed
    obtain ⟨⟨⟨⟨⟨⟨⟨name, poolName⟩, transportName⟩, linkId⟩, here⟩, there⟩, role⟩, apart⟩ := passed
    obtain ⟨pool, isPool, -⟩ := nameValid_iff.mp poolName
    obtain ⟨transport, isTransport, -⟩ := nameValid_iff.mp transportName
    have rest : l.valid t =
        (bound t.poolBindings l.poolName && bound t.transportBindings l.transportName) := by
      simp [TopologyLinkConfig.valid, name, poolName, transportName, linkId, here, there, role, apart]
    rw [rest, isPool, isTransport, findBound_eq, findBound_eq]
    cases bound t.poolBindings (some pool) <;> simp

theorem valid_iff : l.valid t = true ↔ l.Acceptable t := by
  simp only [TopologyLinkConfig.valid, Bool.and_eq_true, decide_eq_true_eq, nameValid_iff,
    componentIdValid_iff, bound_iff]
  constructor
  · rintro ⟨⟨⟨⟨⟨⟨⟨⟨⟨name, pool⟩, transport⟩, id⟩, here⟩, there⟩, role⟩, apart⟩, bound⟩, reached⟩
    exact ⟨name, pool, transport, id, here, there, apart, role, bound, reached⟩
  · rintro ⟨name, pool, transport, id, here, there, apart, role, bound, reached⟩
    exact ⟨⟨⟨⟨⟨⟨⟨⟨⟨name, pool⟩, transport⟩, id⟩, here⟩, there⟩, role⟩, apart⟩, bound⟩, reached⟩

theorem repeated_iff (live : l.linkId ≠ 0) :
    l.repeated later = true ↔ ∃ o ∈ later, l.name = o.name ∨ l.linkId = o.linkId := by
  simp [TopologyLinkConfig.repeated, live]

/-- The comparisons with the later links have a result exactly when a repeated key stops them
before every link without a name. -/
theorem repeatedChecked_eq (named : Nameable l.name) (live : l.linkId ≠ 0)
    (later : List TopologyLinkConfig) :
    (l.Comparable later ∧ l.repeatedChecked later = some (l.repeated later)) ∨
      (¬l.Comparable later ∧ l.repeatedChecked later = none) := by
  obtain ⟨name, isName, -⟩ := named
  induction later with
  | nil => exact .inl ⟨fun before other after split => by simp at split, rfl⟩
  | cons other later ih =>
      cases nameless : other.name with
      | none =>
          refine .inr ⟨fun comparable => ?_, ?_⟩
          · obtain ⟨o, member, -⟩ := comparable [] other later rfl nameless
            cases member
          · rw [TopologyLinkConfig.repeatedChecked, isName, nameless]
            rfl
      | some otherName =>
          have next : l.repeatedChecked (other :: later) =
              if l.name = other.name ∨ l.linkId = other.linkId then some true
              else l.repeatedChecked later := by
            simp [TopologyLinkConfig.repeatedChecked, isName, nameless, strcmpZero, live]
          rw [next]
          by_cases same : l.name = other.name ∨ l.linkId = other.linkId
          · refine .inl ⟨fun before o after split unnamed => ?_, ?_⟩
            · cases before with
              | nil =>
                  cases split
                  rw [nameless] at unnamed
                  cases unnamed
              | cons first before =>
                  cases split
                  exact ⟨other, List.mem_cons_self, same⟩
            · rw [if_pos same, (repeated_iff live).mpr ⟨other, List.mem_cons_self, same⟩]
          · have shift : l.Comparable (other :: later) ↔ l.Comparable later := by
              constructor
              · intro comparable before o after split unnamed
                obtain ⟨found, member, key⟩ :=
                  comparable (other :: before) o after (by rw [split]; rfl) unnamed
                rcases List.mem_cons.mp member with rfl | member
                · exact absurd key same
                · exact ⟨found, member, key⟩
              · intro comparable before o after split unnamed
                cases before with
                | nil =>
                    cases split
                    rw [nameless] at unnamed
                    cases unnamed
                | cons first before =>
                    cases split
                    obtain ⟨found, member, key⟩ := comparable before o after rfl unnamed
                    exact ⟨found, List.mem_cons_of_mem _ member, key⟩
            have skip : l.repeated (other :: later) = l.repeated later := by
              rw [Bool.eq_iff_iff, repeated_iff live, repeated_iff live, List.exists_mem_cons_iff]
              exact or_iff_right same
            rw [if_neg same, shift, skip]
            exact ih

end OneLink

/-! ## The whole configuration -/

section Whole

variable {t : Topology Pool Transport} {l : TopologyLinkConfig} {links later : List TopologyLinkConfig}

/-- Without a repeated key behind it, a link is compared with all later links. -/
theorem named_of_comparable (live : l.linkId ≠ 0) (comparable : l.Comparable later)
    (single : l.repeated later = false) : ∀ o ∈ later, o.name ≠ none := by
  intro o member nameless
  obtain ⟨before, after, split⟩ := List.append_of_mem member
  obtain ⟨found, early, key⟩ := comparable before o after split nameless
  have repeats : l.repeated later = true :=
    (repeated_iff live).mpr ⟨found, by rw [split]; exact List.mem_append_left _ early, key⟩
  rw [single] at repeats
  cases repeats

theorem comparable_of_named (named : ∀ o ∈ later, o.name ≠ none) : l.Comparable later := by
  rintro before other after rfl nameless
  exact absurd nameless (named other (by simp))

/-- Where all links have names, the validation has its result. -/
theorem checkLinks_named (named : ∀ o ∈ links, o.name ≠ none) :
    checkLinks t links = some (validateLinks t links) := by
  induction links with
  | nil => rfl
  | cons l later ih =>
      rw [List.forall_mem_cons] at named
      rw [checkLinks, validateLinks, check_eq]
      cases valid : l.valid t with
      | false => rfl
      | true =>
          have sound := valid_iff.mp valid
          have compared := (repeatedChecked_eq sound.name sound.linkId later).resolve_right
            fun stuck => stuck.1 (comparable_of_named named.2)
          simp only [compared.2]
          cases l.repeated later with
          | true => rfl
          | false => simpa using ih named.2

theorem checkLinks_cons (t : Topology Pool Transport) (l : TopologyLinkConfig)
    (later : List TopologyLinkConfig) :
    ((l.valid t = true → l.Comparable later) ∧
        checkLinks t (l :: later) = some (validateLinks t (l :: later))) ∨
      (¬(l.valid t = true → l.Comparable later) ∧ checkLinks t (l :: later) = none) := by
  rw [checkLinks, validateLinks, check_eq]
  cases valid : l.valid t with
  | false => exact .inl ⟨(fun done => by cases done), rfl⟩
  | true =>
      have sound := valid_iff.mp valid
      rcases repeatedChecked_eq sound.name sound.linkId later with
        ⟨comparable, compared⟩ | ⟨stuck, compared⟩
      · refine .inl ⟨fun _ => comparable, ?_⟩
        simp only [compared]
        cases single : l.repeated later with
        | true => rfl
        | false =>
            simpa using checkLinks_named (named_of_comparable sound.linkId comparable single)
      · refine .inr ⟨fun comparable => stuck (comparable rfl), ?_⟩
        simp only [compared]

theorem validateLinks_iff : validateLinks t links = true ↔
    (∀ l ∈ links, l.Acceptable t) ∧
      links.Pairwise fun a b => a.name ≠ b.name ∧ a.linkId ≠ b.linkId := by
  induction links with
  | nil => simp [validateLinks]
  | cons l later ih =>
      rw [validateLinks, Bool.and_eq_true, Bool.and_eq_true, Bool.not_eq_true', ih, valid_iff,
        List.forall_mem_cons, List.pairwise_cons]
      constructor
      · rintro ⟨⟨sound, single⟩, each, distinct⟩
        refine ⟨⟨sound, each⟩, fun o member => ?_, distinct⟩
        rw [← Bool.not_eq_true, repeated_iff sound.linkId] at single
        push Not at single
        exact single o member
      · rintro ⟨⟨sound, each⟩, apart, distinct⟩
        refine ⟨⟨sound, ?_⟩, each, distinct⟩
        rw [← Bool.not_eq_true, repeated_iff sound.linkId]
        push Not
        exact apart

theorem topologyValidate_iff : topologyValidate t (some links) = .ok ↔ Acceptable t links := by
  unfold topologyValidate
  simp only
  split
  · rename_i refused
    refine ⟨nofun, fun accepted => ?_⟩
    have count := accepted.count
    unfold topologyMaxLinks at refused
    omega
  · rename_i count
    unfold topologyMaxLinks at count
    rw [show ((if validateLinks t links = true then Status.ok else .invalidArgument) = .ok) ↔
      validateLinks t links = true by split <;> simp_all, validateLinks_iff]
    constructor
    · rintro ⟨each, distinct⟩
      exact ⟨by omega, each, distinct⟩
    · rintro ⟨_, each, distinct⟩
      exact ⟨each, distinct⟩

/-- The validation goes through without a null pointer exactly when the names it compares are
there, and then it answers what `topologyValidate` answers. -/
theorem topologyValidateChecked_eq (t : Topology Pool Transport) (links : List TopologyLinkConfig) :
    (NamesPresent t links ∧
        topologyValidateChecked t (some links) = some (topologyValidate t (some links))) ∨
      (¬NamesPresent t links ∧ topologyValidateChecked t (some links) = none) := by
  unfold topologyValidateChecked topologyValidate NamesPresent
  simp only
  split
  · rename_i refused
    exact .inl ⟨by omega, rfl⟩
  · rename_i count
    rw [not_or] at count
    cases links with
    | nil => exact absurd rfl count.1
    | cons l later =>
        have first : (∀ a rest, l :: later = a :: rest → a.valid t = true → a.Comparable rest) ↔
            (l.valid t = true → l.Comparable later) := by
          constructor
          · intro all
            exact all l later rfl
          · rintro one a rest same
            cases same
            exact one
        simp only [count, false_or, first]
        rcases checkLinks_cons t l later with ⟨fine, value⟩ | ⟨stuck, value⟩
        · refine .inl ⟨fine, ?_⟩
          rw [value]
          rfl
        · refine .inr ⟨stuck, ?_⟩
          rw [value]
          rfl

end Whole

/-- `zipc_topology_validate` compares no null pointer, and accepts exactly the configurations that
are well formed, if and only if no link without a name is reached by the comparisons of the first
link. -/
theorem validate_exact (t : Topology Pool Transport) (links : List TopologyLinkConfig) :
    (∃ status, topologyValidateChecked t (some links) = some status ∧
        (status = .ok ↔ Acceptable t links)) ↔ NamesPresent t links := by
  rcases topologyValidateChecked_eq t links with ⟨present, value⟩ | ⟨stuck, value⟩
  · rw [value]
    simp only [present, iff_true]
    exact ⟨_, rfl, topologyValidate_iff⟩
  · rw [value]
    simp [stuck]

/-- A good link followed by one without a name: the second name is compared before it is checked. -/
theorem validate_compares_null :
    ¬∀ (t : Topology Unit Unit) (links : List TopologyLinkConfig),
      ∃ status, topologyValidateChecked t (some links) = some status ∧
        (status = .ok ↔ Acceptable t links) := by
  intro total
  obtain ⟨status, value, -⟩ := total
    { poolBindings := [(['p'], ())], transportBindings := [(['t'], ())] }
    [exampleLink 'a' 1, { exampleLink 'b' 2 with name := none }]
  have defined := Option.isSome_of_eq_some value
  revert defined
  decide

end Zipc
