import Zipc.Validation

/-! # Merging a configuration as a whole

`zipc_topology_register_config` validates the whole configuration first, and then writes its links
into the table one by one. A link that conflicts with the table, or that finds it full, ends the
loop, and the links before it stay. What is merged, on the other hand, is found under its name
afterwards: a later link of the same configuration never rewrites the entry of an earlier one,
because names and IDs of a validated configuration are distinct.
-/

namespace Zipc

variable {Pool Transport : Type}

/-! ## Lookups -/

/-- The entry that `zipc_link_open` finds under a name. -/
def topologyFindLink (links : List TopologyLinkEntry) (name : Option CString) :
    Option TopologyLinkEntry :=
  (topologyFindLinkIndex links name).bind fun i => links[i]?

/-- The configuration that an entry was copied from. -/
def TopologyLinkEntry.config (e : TopologyLinkEntry) : TopologyLinkConfig where
  name := some e.name
  linkId := e.linkId
  poolName := some e.poolName
  transportName := some e.transportName
  localComponent := e.localComponent
  remoteComponent := e.remoteComponent
  localEpoch := e.localEpoch
  role := e.role
  hopLimit := e.hopLimit
  defaultDeadlineNs := e.defaultDeadlineNs
  timeoutTicks := e.timeoutTicks

/-- The place of the entry that a link matches: by name, else by ID. -/
def topologyMatch (links : List TopologyLinkEntry) (src : TopologyLinkConfig) : Option Nat :=
  match topologyFindLinkIndex links src.name with
  | some i => some i
  | none => links.findIdx? (·.linkId = src.linkId)

/-! ## What a call promises -/

/-- A refused call leaves the table as it was, and after one that succeeded every link of the
configuration is found under its name, with its own values. -/
structure Indivisible (t : Topology Pool Transport) (config : List TopologyLinkConfig)
    (result : Status × Topology Pool Transport) : Prop where
  refused : result.1 ≠ .ok → result.2.links = t.links
  merged : result.1 = .ok → ∀ l ∈ config,
    (topologyFindLink result.2.links l.name).map TopologyLinkEntry.config = some l

/-- How many links of a configuration match no entry of a table, when every link takes the entry
that it matches away from the ones behind it. -/
def unmatched : List TopologyLinkConfig → List (Option TopologyLinkEntry) → Nat
  | [], _ => 0
  | src :: rest, left =>
      match left.findIdx? (fun e => e.any fun e => some e.name = src.name) with
      | some i => unmatched rest (left.set i none)
      | none =>
          match left.findIdx? (fun e => e.any fun e => e.linkId = src.linkId) with
          | some j => unmatched rest (left.set j none)
          | none => unmatched rest left + 1

/-- The table takes all links: without the override policy none of them matches an entry, and
there is room for those that match none. -/
def Fits (policy : TopologyPolicy) (config : List TopologyLinkConfig)
    (links : List TopologyLinkEntry) : Prop :=
  if policy = .override then
    unmatched config (links.map some) = 0 ∨
      links.length + unmatched config (links.map some) ≤ topologyMaxLinks
  else (∀ src ∈ config, topologyMatch links src = none) ∧
    links.length + config.length ≤ topologyMaxLinks

/-- The link is in the table already, with all its values. -/
def Present (links : List TopologyLinkEntry) (src : TopologyLinkConfig) : Prop :=
  topologyFindLink links src.name = some (topologyCopyLink src)

/-- The table refuses the link: it matches an entry that it must not override, or it matches none
and there is no room. -/
def Refuses (policy : TopologyPolicy) (links : List TopologyLinkEntry) (src : TopologyLinkConfig) :
    Prop :=
  match topologyMatch links src with
  | some _ => policy ≠ .override
  | none => topologyMaxLinks ≤ links.length

/-- The table takes all links, or it refuses the first one that is not, under the override policy,
in the table already. -/
def Undivided (policy : TopologyPolicy) (config : List TopologyLinkConfig)
    (links : List TopologyLinkEntry) : Prop :=
  Fits policy config links ∨ ∃ before src after, config = before ++ src :: after ∧
    (∀ l ∈ before, policy = .override ∧ Present links l) ∧ Refuses policy links src

/-- The links of a validated configuration. -/
structure Distinct (config : List TopologyLinkConfig) : Prop where
  named : ∀ l ∈ config, topologyNameValid l.name = true
  live : ∀ l ∈ config, l.linkId ≠ 0
  apart : config.Pairwise fun a b => a.name ≠ b.name ∧ a.linkId ≠ b.linkId

theorem Distinct.tail {src : TopologyLinkConfig} {rest : List TopologyLinkConfig}
    (distinct : Distinct (src :: rest)) : Distinct rest where
  named l member := distinct.named l (List.mem_cons_of_mem _ member)
  live l member := distinct.live l (List.mem_cons_of_mem _ member)
  apart := (List.pairwise_cons.mp distinct.apart).2

theorem Distinct.head {src : TopologyLinkConfig} {rest : List TopologyLinkConfig}
    (distinct : Distinct (src :: rest)) : topologyNameValid src.name = true ∧ src.linkId ≠ 0 :=
  ⟨distinct.named src List.mem_cons_self, distinct.live src List.mem_cons_self⟩

theorem Distinct.other {src : TopologyLinkConfig} {rest : List TopologyLinkConfig}
    (distinct : Distinct (src :: rest)) :
    ∀ l ∈ rest, src.name ≠ l.name ∧ src.linkId ≠ l.linkId :=
  (List.pairwise_cons.mp distinct.apart).1

/-! ## One link -/

section OneLink

variable {links : List TopologyLinkEntry} {src : TopologyLinkConfig} {policy : TopologyPolicy}

/-- What one round of the loop does. -/
theorem registerLink_eq (live : src.linkId ≠ 0) : registerLink policy src links =
    match topologyMatch links src with
    | some i =>
        if policy ≠ .override then (.invalidArgument, links)
        else (.ok, links.set i (topologyCopyLink src))
    | none =>
        if links.length ≥ topologyMaxLinks then (.noBuffer, links)
        else (.ok, links ++ [topologyCopyLink src]) := by
  unfold registerLink topologyMatch
  rw [if_pos live]
  cases topologyFindLinkIndex links src.name with
  | some i => rfl
  | none => cases links.findIdx? (·.linkId = src.linkId) <;> rfl

theorem topologyMatch_none : topologyMatch links src = none ↔
    ∀ e ∈ links, some e.name ≠ src.name ∧ e.linkId ≠ src.linkId := by
  unfold topologyMatch topologyFindLinkIndex
  cases found : links.findIdx? (fun e => some e.name = src.name) with
  | some i =>
      obtain ⟨bounded, matched, -⟩ := List.findIdx?_eq_some_iff_getElem.mp found
      simp only [reduceCtorEq, false_iff]
      intro free
      exact (free links[i] (List.getElem_mem bounded)).1 (by simpa using matched)
  | none =>
      simp only [List.findIdx?_eq_none_iff, decide_eq_false_iff_not] at found ⊢
      exact ⟨fun free e member => ⟨found e member, free e member⟩,
        fun free e member => (free e member).2⟩

/-- The matched entry bears the name, and no entry before it does, or it carries the ID and no
entry bears the name. -/
theorem topologyMatch_some {i : Nat} (found : topologyMatch links src = some i) :
    ∃ bounded : i < links.length, (some links[i].name = src.name ∨ links[i].linkId = src.linkId) ∧
      ∀ j (before : j < i), some links[j].name ≠ src.name := by
  unfold topologyMatch at found
  cases named : topologyFindLinkIndex links src.name with
  | some k =>
      rw [named] at found
      cases found
      obtain ⟨bounded, matched, first⟩ := List.findIdx?_eq_some_iff_getElem.mp named
      exact ⟨bounded, .inl (by simpa using matched), fun j before => by simpa using first j before⟩
  | none =>
      rw [named] at found
      obtain ⟨bounded, matched, -⟩ := List.findIdx?_eq_some_iff_getElem.mp found
      refine ⟨bounded, .inr (by simpa using matched), fun j before => ?_⟩
      exact no_name named _ (List.getElem_mem _)

/-- The entry is at place `i`, and it is the first with its name. -/
structure Seated (links : List TopologyLinkEntry) (i : Nat) (e : TopologyLinkEntry) : Prop where
  here : links[i]? = some e
  first : ∀ j < i, ∀ other, links[j]? = some other → other.name ≠ e.name

theorem Seated.found {i : Nat} {e : TopologyLinkEntry} (seated : Seated links i e) :
    topologyFindLinkIndex links (some e.name) = some i := by
  obtain ⟨bounded, same⟩ := List.getElem?_eq_some_iff.mp seated.here
  refine List.findIdx?_eq_some_iff_getElem.mpr ⟨bounded, by simp [same], fun j before => ?_⟩
  have other := seated.first j before links[j] (List.getElem?_eq_getElem _)
  simpa using other

theorem Seated.lookup {i : Nat} {e : TopologyLinkEntry} (seated : Seated links i e) :
    topologyFindLink links (some e.name) = some e := by
  rw [topologyFindLink, seated.found]
  exact seated.here

/-- A link that is merged is the first with its name. -/
theorem registerLink_places (named : topologyNameValid src.name = true) (live : src.linkId ≠ 0)
    (ok : (registerLink policy src links).1 = .ok) :
    ∃ i, Seated (registerLink policy src links).2 i (topologyCopyLink src) := by
  have copied := copyLink_name named
  rw [registerLink_eq live] at ok ⊢
  cases found : topologyMatch links src with
  | some i =>
      rw [found] at ok
      obtain ⟨bounded, -, first⟩ := topologyMatch_some found
      by_cases overriding : policy = .override
      · simp only [overriding, ne_eq, not_true_eq_false, if_false]
        refine ⟨i, by simp [bounded], fun j before other there => ?_⟩
        rw [List.getElem?_set_ne (by omega)] at there
        obtain ⟨inside, rfl⟩ := List.getElem?_eq_some_iff.mp there
        have apart := first j before
        rw [← copied] at apart
        exact fun same => apart (congrArg some same)
      · simp [overriding] at ok
  | none =>
      rw [found] at ok
      by_cases full : links.length ≥ topologyMaxLinks
      · simp [full] at ok
      · simp only [full, if_false]
        refine ⟨links.length, by simp, fun j before other there => ?_⟩
        rw [List.getElem?_append_left before] at there
        have apart := (topologyMatch_none.mp found other (List.mem_of_getElem? there)).1
        rw [← copied] at apart
        exact fun same => apart (congrArg some same)

/-- An entry with other keys stays where it is. -/
theorem registerLink_keeps {i : Nat} {e : TopologyLinkEntry} (live : src.linkId ≠ 0)
    (named : topologyNameValid src.name = true)
    (seated : Seated links i e) (name : some e.name ≠ src.name) (id : e.linkId ≠ src.linkId) :
    Seated (registerLink policy src links).2 i e := by
  have copied := copyLink_name named
  rw [registerLink_eq live]
  cases found : topologyMatch links src with
  | some k =>
      obtain ⟨bounded, matched, -⟩ := topologyMatch_some found
      by_cases overriding : policy = .override
      · simp only [overriding, ne_eq, not_true_eq_false, if_false]
        have elsewhere : k ≠ i := by
          rintro rfl
          have same : links[k] = e := by
            simpa [List.getElem?_eq_getElem bounded] using seated.here
          rw [same] at matched
          tauto
        refine ⟨by rw [List.getElem?_set_ne elsewhere, seated.here], fun j before other there => ?_⟩
        by_cases same : k = j
        · subst same
          simp only [List.getElem?_set_self bounded, Option.some.injEq] at there
          subst there
          rintro same
          rw [← copied, same] at name
          exact name rfl
        · rw [List.getElem?_set_ne same] at there
          exact seated.first j before other there
      · simpa [overriding] using seated
  | none =>
      by_cases full : links.length ≥ topologyMaxLinks
      · simpa [full] using seated
      · simp only [full, if_false]
        have inside : i < links.length := (List.getElem?_eq_some_iff.mp seated.here).1
        refine ⟨by rw [List.getElem?_append_left inside, seated.here], fun j before other there => ?_⟩
        rw [List.getElem?_append_left (by omega)] at there
        exact seated.first j before other there

end OneLink

/-! ## The loop -/

section Loop

variable {config rest : List TopologyLinkConfig} {links left : List TopologyLinkEntry}
  {src : TopologyLinkConfig} {policy : TopologyPolicy}

/-- The loop goes on after a link that is merged, and ends with one that is not. -/
theorem registerLinks_cons : registerLinks policy (src :: rest) links =
    if (registerLink policy src links).1 = .ok then
      registerLinks policy rest (registerLink policy src links).2
    else registerLink policy src links := by
  rw [registerLinks]
  rcases registerLink policy src links with ⟨status, links'⟩
  cases status <;> rfl

/-- Entries with other keys than the links that are merged stay where they are. -/
theorem registerLinks_keeps {i : Nat} {e : TopologyLinkEntry} (distinct : Distinct config) :
    ∀ {links : List TopologyLinkEntry}, Seated links i e →
      (∀ l ∈ config, some e.name ≠ l.name ∧ e.linkId ≠ l.linkId) →
      Seated (registerLinks policy config links).2 i e := by
  induction config with
  | nil => exact fun seated _ => seated
  | cons src rest ih =>
      intro links seated apart
      obtain ⟨named, live⟩ := distinct.head
      obtain ⟨name, id⟩ := apart src List.mem_cons_self
      have kept : Seated (registerLink policy src links).2 i e :=
        registerLink_keeps live named seated name id
      rw [registerLinks_cons]
      split
      · exact ih distinct.tail kept fun l member => apart l (List.mem_cons_of_mem _ member)
      · exact kept

/-- The first link that is merged stays where it was put. -/
theorem registerLinks_seats (distinct : Distinct (src :: rest))
    (ok : (registerLink policy src links).1 = .ok) {i : Nat}
    (seated : Seated (registerLink policy src links).2 i (topologyCopyLink src)) :
    Seated (registerLinks policy (src :: rest) links).2 i (topologyCopyLink src) := by
  rw [registerLinks_cons, if_pos ok]
  refine registerLinks_keeps distinct.tail seated fun l member => ?_
  rw [copyLink_name distinct.head.1]
  exact distinct.other l member

/-- After a loop that went through, every link is found under its name. -/
theorem registerLinks_finds (distinct : Distinct config) : ∀ {links : List TopologyLinkEntry},
    (registerLinks policy config links).1 = .ok → ∀ l ∈ config,
      topologyFindLink (registerLinks policy config links).2 l.name = some (topologyCopyLink l) := by
  induction config with
  | nil => exact fun _ l member => nomatch member
  | cons src rest ih =>
      intro links ok l member
      obtain ⟨named, live⟩ := distinct.head
      rw [registerLinks_cons] at ok
      split at ok
      · rename_i merged
        rcases List.mem_cons.mp member with rfl | member
        · obtain ⟨i, seated⟩ := registerLink_places named live merged
          have found := (registerLinks_seats distinct merged seated).lookup
          rwa [copyLink_name named] at found
        · rw [registerLinks_cons, if_pos merged]
          exact ih distinct.tail ok l member
      · rename_i refused
        exact absurd ok refused

/-- A link that is refused is refused by the table as it stands. -/
theorem registerLink_refused_iff (live : src.linkId ≠ 0) :
    (registerLink policy src links).1 ≠ .ok ↔ Refuses policy links src := by
  rw [registerLink_eq live, Refuses]
  cases topologyMatch links src with
  | some i => by_cases overriding : policy = .override <;> simp [overriding]
  | none => by_cases full : topologyMaxLinks ≤ links.length <;> simp [full]

theorem registerLink_refused (live : src.linkId ≠ 0)
    (refused : (registerLink policy src links).1 ≠ .ok) :
    (registerLink policy src links).2 = links := by
  rw [registerLink_eq live] at refused ⊢
  cases found : topologyMatch links src with
  | some i =>
      by_cases overriding : policy = .override
      · simp [found, overriding] at refused
      · simp [overriding]
  | none =>
      by_cases full : topologyMaxLinks ≤ links.length
      · simp [full]
      · simp [found, full] at refused

/-! ## When a refused call changed nothing -/

/-- A link that was in its place before it was merged has overridden itself. -/
theorem registerLink_again (named : topologyNameValid src.name = true) (live : src.linkId ≠ 0)
    (ok : (registerLink policy src links).1 = .ok) {i : Nat}
    (seated : Seated links i (topologyCopyLink src)) : policy = .override ∧ Present links src := by
  have copied := copyLink_name named
  have present : Present links src := by
    have found := seated.lookup
    rwa [copied] at found
  refine ⟨?_, present⟩
  by_contra overriding
  have free : topologyMatch links src = none := by
    by_contra taken
    obtain ⟨k, found⟩ := Option.ne_none_iff_exists'.mp taken
    rw [registerLink_eq live, found] at ok
    simp [overriding] at ok
  exact (topologyMatch_none.mp free _ (List.mem_of_getElem? seated.here)).1 copied

/-- A link that is present is merged without a change, and under no other policy than override. -/
theorem registerLink_present (named : topologyNameValid src.name = true) (live : src.linkId ≠ 0) :
    (registerLink policy src links).1 = .ok ∧ (registerLink policy src links).2 = links ↔
      policy = .override ∧ Present links src := by
  constructor
  · rintro ⟨ok, same⟩
    have seats : ∃ i, Seated (registerLink policy src links).2 i (topologyCopyLink src) :=
      registerLink_places named live ok
    obtain ⟨i, seated⟩ := seats
    rw [same] at seated
    exact registerLink_again named live ok seated
  · rintro ⟨rfl, present⟩
    obtain ⟨i, index, here⟩ := Option.bind_eq_some_iff.mp present
    have found : topologyMatch links src = some i := by
      rw [topologyMatch, index]
    rw [registerLink_eq live, found]
    obtain ⟨bounded, same⟩ := List.getElem?_eq_some_iff.mp here
    refine ⟨rfl, ?_⟩
    simp [← same]

/-- A loop that is refused has changed nothing exactly when the links before the refused one were
all present. -/
theorem registerLinks_unchanged (distinct : Distinct config) : ∀ {links : List TopologyLinkEntry},
    (registerLinks policy config links).1 ≠ .ok →
    ((registerLinks policy config links).2 = links ↔ ∃ before src after,
      config = before ++ src :: after ∧ (∀ l ∈ before, policy = .override ∧ Present links l) ∧
        Refuses policy links src) := by
  induction config with
  | nil => exact fun refused => absurd rfl refused
  | cons src rest ih =>
      intro links refused
      obtain ⟨named, live⟩ := distinct.head
      by_cases merged : (registerLink policy src links).1 = .ok
      · rw [registerLinks_cons, if_pos merged] at refused
        have taken : ¬Refuses policy links src := fun refuses =>
          (registerLink_refused_iff live).mpr refuses merged
        constructor
        · intro same
          obtain ⟨i, seated⟩ : ∃ i, Seated (registerLink policy src links).2 i _ :=
            registerLink_places named live merged
          have final := registerLinks_seats distinct merged seated
          rw [same] at final
          have present := registerLink_again named live merged final
          have step := (registerLink_present named live).mpr present
          rw [registerLinks_cons, if_pos merged, step.2] at same
          rw [step.2] at refused
          obtain ⟨before, refusedLink, after, rfl, all, refuses⟩ := (ih distinct.tail refused).mp same
          exact ⟨src :: before, refusedLink, after, rfl, List.forall_mem_cons.mpr ⟨present, all⟩, refuses⟩
        · rintro ⟨before, refusedLink, after, split, all, refuses⟩
          cases before with
          | nil =>
              cases split
              exact absurd refuses taken
          | cons first before =>
              cases split
              rw [List.forall_mem_cons] at all
              have step := (registerLink_present named live).mpr all.1
              rw [registerLinks_cons, if_pos merged, step.2]
              rw [step.2] at refused
              exact (ih distinct.tail refused).mpr ⟨before, refusedLink, after, rfl, all.2, refuses⟩
      · rw [registerLinks_cons, if_neg merged]
        refine iff_of_true (registerLink_refused live merged) ⟨[], src, rest, rfl, nofun, ?_⟩
        exact (registerLink_refused_iff live).mp merged

/-! ## When all links are merged -/

theorem topologyMatch_append {e : TopologyLinkEntry} (name : some e.name ≠ src.name)
    (id : e.linkId ≠ src.linkId) :
    topologyMatch (links ++ [e]) src = none ↔ topologyMatch links src = none := by
  simp only [topologyMatch_none, List.forall_mem_append, List.forall_mem_singleton, name, id,
    ne_eq, not_false_eq_true, and_self, and_true]

/-- Without the override policy every link is appended. -/
theorem registerLinks_appends (overriding : policy ≠ .override) (distinct : Distinct config) :
    ∀ {links : List TopologyLinkEntry}, (registerLinks policy config links).1 = .ok ↔
      (∀ src ∈ config, topologyMatch links src = none) ∧
        (config = [] ∨ links.length + config.length ≤ topologyMaxLinks) := by
  induction config with
  | nil => simp [registerLinks]
  | cons src rest ih =>
      intro links
      obtain ⟨named, live⟩ := distinct.head
      rw [registerLinks_cons, registerLink_eq live]
      cases found : topologyMatch links src with
      | some i => simp [overriding, found]
      | none =>
          by_cases full : topologyMaxLinks ≤ links.length
          · simp only [ge_iff_le, full, if_true, reduceCtorEq, if_false, List.length_cons,
              false_or, false_iff, not_and]
            omega
          · have later : (∀ l ∈ rest, topologyMatch (links ++ [topologyCopyLink src]) l = none) ↔
                ∀ l ∈ rest, topologyMatch links l = none := by
              refine forall₂_congr fun l member => ?_
              obtain ⟨name, id⟩ := distinct.other l member
              exact topologyMatch_append (by rwa [copyLink_name named]) id
            simp only [ge_iff_le, full, if_false, if_true, ih distinct.tail, later,
              List.length_append, List.forall_mem_cons, found, true_and,
              List.length_cons, List.length_nil, reduceCtorEq, false_or]
            refine and_congr_right fun _ => ?_
            rcases rest with _ | ⟨next, rest⟩
            · simp only [List.length_nil, true_or, true_iff]
              omega
            · simp only [List.length_cons, reduceCtorEq, false_or]
              omega

end Loop

/-! ## The entries that are left to match -/

section Left

variable {links : List TopologyLinkEntry} {left : List (Option TopologyLinkEntry)}
  {src : TopologyLinkConfig} {seen config : List TopologyLinkConfig}

theorem findIdx?_congr {α β : Type} {p : α → Bool} {q : β → Bool} : ∀ {as : List α} {bs : List β},
    (∀ i : Nat, as[i]?.any p = bs[i]?.any q) → as.findIdx? p = bs.findIdx? q := by
  intro as
  induction as with
  | nil =>
      intro bs same
      symm
      rw [List.findIdx?_nil, List.findIdx?_eq_none_iff]
      intro b member
      obtain ⟨i, inside, rfl⟩ := List.mem_iff_getElem.mp member
      have here := same i
      simp only [List.getElem?_nil, Option.any_none, List.getElem?_eq_getElem inside,
        Option.any_some] at here
      exact here.symm
  | cons a as ih =>
      intro bs same
      cases bs with
      | nil =>
          rw [List.findIdx?_nil, List.findIdx?_eq_none_iff]
          intro b member
          obtain ⟨i, inside, rfl⟩ := List.mem_iff_getElem.mp member
          have here := same i
          simpa [List.getElem?_eq_getElem inside] using here
      | cons b bs =>
          have first : p a = q b := by simpa using same 0
          have rest := ih fun i => by simpa using same (i + 1)
          rw [List.findIdx?_cons, List.findIdx?_cons, first, rest]

/-- The entries of the table that were not written yet; the others have the keys of links that
were. -/
structure Remains (seen : List TopologyLinkConfig) (left : List (Option TopologyLinkEntry))
    (links : List TopologyLinkEntry) : Prop where
  short : left.length ≤ links.length
  kept : ∀ (i : Nat) e, left[i]? = some (some e) → links[i]? = some e
  written : ∀ (i : Nat) e, links[i]? = some e → left[i]? ≠ some (some e) →
    left[i]?.join = none ∧ ∃ l ∈ seen, some e.name = l.name ∧ e.linkId = l.linkId

/-- The place that a link matches among the entries that are left. -/
def matchLeft (left : List (Option TopologyLinkEntry)) (src : TopologyLinkConfig) : Option Nat :=
  match left.findIdx? (fun e => e.any fun e => some e.name = src.name) with
  | some i => some i
  | none => left.findIdx? (fun e => e.any fun e => e.linkId = src.linkId)

theorem unmatched_cons : unmatched (src :: config) left =
    match matchLeft left src with
    | some i => unmatched config (left.set i none)
    | none => unmatched config left + 1 := by
  rw [unmatched, matchLeft]
  cases left.findIdx? (fun e => e.any fun e => some e.name = src.name) with
  | some i => rfl
  | none => cases left.findIdx? (fun e => e.any fun e => e.linkId = src.linkId) <;> rfl

/-- A test that no link seen so far passes finds the same place in both. -/
theorem Remains.find (remains : Remains seen left links) {p : TopologyLinkEntry → Bool}
    (fresh : ∀ e : TopologyLinkEntry, (∃ l ∈ seen, some e.name = l.name ∧ e.linkId = l.linkId) →
      p e = false) :
    links.findIdx? p = left.findIdx? fun e => e.any p := by
  apply findIdx?_congr
  intro i
  cases here : links[i]? with
  | none =>
      have outside : left[i]? = none := by
        rw [List.getElem?_eq_none_iff] at here ⊢
        exact remains.short.trans here
      rw [outside]
      rfl
  | some e =>
      by_cases same : left[i]? = some (some e)
      · rw [same]
        rfl
      · obtain ⟨gone, keys⟩ := remains.written i e here same
        rw [Option.any_some, fresh e keys]
        cases at' : left[i]? with
        | none => rfl
        | some o =>
            rw [at'] at gone
            cases o with
            | none => rfl
            | some other => cases gone

theorem Remains.match (remains : Remains seen left links)
    (fresh : ∀ l ∈ seen, l.name ≠ src.name ∧ l.linkId ≠ src.linkId) :
    topologyMatch links src = matchLeft left src := by
  rw [topologyMatch, topologyFindLinkIndex, matchLeft, remains.find, remains.find]
  · rintro e ⟨l, member, -, id⟩
    rw [decide_eq_false_iff_not, id]
    exact (fresh l member).2
  · rintro e ⟨l, member, name, -⟩
    rw [decide_eq_false_iff_not, name]
    exact (fresh l member).1

theorem Remains.rewrite (remains : Remains seen left links) (named : topologyNameValid src.name = true)
    {i : Nat} (bounded : i < links.length) :
    Remains (src :: seen) (left.set i none) (links.set i (topologyCopyLink src)) := by
  refine ⟨by simpa using remains.short, fun j e there => ?_, fun j e there other => ?_⟩
  · by_cases same : i = j
    · subst same
      rw [List.getElem?_set_self' ] at there
      cases inside : left[i]? <;> simp [inside] at there
    · rw [List.getElem?_set_ne same] at there ⊢
      exact remains.kept j e there
  · by_cases same : i = j
    · subst same
      rw [List.getElem?_set_self bounded] at there
      cases there
      refine ⟨?_, src, List.mem_cons_self, copyLink_name named, rfl⟩
      rw [List.getElem?_set_self']
      cases left[i]? <;> rfl
    · rw [List.getElem?_set_ne same] at there other ⊢
      obtain ⟨gone, l, member, keys⟩ := remains.written j e there other
      exact ⟨gone, l, List.mem_cons_of_mem _ member, keys⟩

theorem Remains.append (remains : Remains seen left links)
    (named : topologyNameValid src.name = true) :
    Remains (src :: seen) left (links ++ [topologyCopyLink src]) := by
  refine ⟨by simpa using remains.short.trans (Nat.le_succ _), fun j e there => ?_,
    fun j e there other => ?_⟩
  · have here := remains.kept j e there
    rw [List.getElem?_append_left (List.getElem?_eq_some_iff.mp here).1, here]
  · rcases Nat.lt_or_ge j links.length with inside | outside
    · rw [List.getElem?_append_left inside] at there
      obtain ⟨gone, l, member, keys⟩ := remains.written j e there other
      exact ⟨gone, l, List.mem_cons_of_mem _ member, keys⟩
    · have last : e = topologyCopyLink src := by
        rw [List.getElem?_append_right outside] at there
        simpa using List.mem_of_getElem? there
      subst last
      refine ⟨?_, src, List.mem_cons_self, copyLink_name named, rfl⟩
      rw [List.getElem?_eq_none (remains.short.trans outside)]
      rfl

/-- Under the override policy all links are merged exactly when those that match nothing find
room. -/
theorem registerLinks_overrides (distinct : Distinct config) :
    ∀ {links : List TopologyLinkEntry} {left : List (Option TopologyLinkEntry)}
      {seen : List TopologyLinkConfig}, Remains seen left links →
      (∀ l ∈ seen, ∀ src ∈ config, l.name ≠ src.name ∧ l.linkId ≠ src.linkId) →
      ((registerLinks .override config links).1 = .ok ↔
        unmatched config left = 0 ∨ links.length + unmatched config left ≤ topologyMaxLinks) := by
  induction config with
  | nil => simp [registerLinks, unmatched]
  | cons src rest ih =>
      intro links left seen remains fresh
      obtain ⟨named, live⟩ := distinct.head
      have next : ∀ l ∈ src :: seen, ∀ other ∈ rest, l.name ≠ other.name ∧ l.linkId ≠ other.linkId := by
        rw [List.forall_mem_cons]
        exact ⟨distinct.other, fun l member other later =>
          fresh l member other (List.mem_cons_of_mem _ later)⟩
      have found := remains.match fun l member => fresh l member src List.mem_cons_self
      rw [registerLinks_cons, registerLink_eq live, unmatched_cons, ← found]
      cases matched : topologyMatch links src with
      | some i =>
          obtain ⟨bounded, -⟩ := topologyMatch_some matched
          have step := ih distinct.tail (remains.rewrite named bounded) next
          rw [List.length_set] at step
          simpa using step
      | none =>
          by_cases full : topologyMaxLinks ≤ links.length
          · simp only [ge_iff_le, full, if_true, reduceCtorEq, if_false, false_iff,
              Nat.add_eq_zero_iff, Nat.one_ne_zero, and_false, false_or]
            omega
          · have step := ih distinct.tail (remains.append named) next
            simp only [ge_iff_le, full, if_false, if_true, step, List.length_append,
              List.length_singleton]
            omega

end Left

/-! ## Whole calls -/

/-- The condition under which a call merges its configuration as a whole or not at all. -/
def MergesWhole (t : Topology Pool Transport) (config : Option (List TopologyLinkConfig))
    (policy : TopologyPolicy) : Prop :=
  topologyValidate t config = .ok → policy.known = true →
    Undivided policy (config.getD []) t.links

/-- The links that a text declares; none when it cannot be read. -/
def declared : Option CString → List TopologyLinkConfig
  | none | some [] => []
  | some text => (parseText text).getD []

section Whole

variable {t : Topology Pool Transport} {config : List TopologyLinkConfig} {policy : TopologyPolicy}

theorem Acceptable.distinct_links (accepted : Acceptable t config) : Distinct config where
  named l member := nameValid_iff.mpr (accepted.each l member).name
  live l member := (accepted.each l member).linkId
  apart := accepted.distinct

/-- A validated link is copied whole. -/
theorem copyLink_config {l : TopologyLinkConfig} (accepted : l.Acceptable t) :
    (topologyCopyLink l).config = l := by
  obtain ⟨name, isName, -⟩ := accepted.name
  obtain ⟨pool, isPool, -⟩ := accepted.poolName
  obtain ⟨transport, isTransport, -⟩ := accepted.transportName
  have names := nameField_valid (isName ▸ nameValid_iff.mpr accepted.name)
  have pools := nameField_valid (isPool ▸ nameValid_iff.mpr accepted.poolName)
  have transports := nameField_valid (isTransport ▸ nameValid_iff.mpr accepted.transportName)
  rcases l with ⟨_, _, _, _, _, _, _, _, _, _, _⟩
  cases isName
  cases isPool
  cases isTransport
  simp only [topologyCopyLink, TopologyLinkEntry.config, Option.getD_some, names, pools, transports]

theorem registerLinks_ok_iff (accepted : Acceptable t config) (links : List TopologyLinkEntry) :
    (registerLinks policy config links).1 = .ok ↔ Fits policy config links := by
  have distinct := accepted.distinct_links
  unfold Fits
  split
  · rename_i overriding
    subst overriding
    have start : Remains [] (links.map some) links := by
      refine ⟨by simp, fun i e there => by simpa using there, fun i e there other => ?_⟩
      exact absurd (by simp [there]) other
    exact registerLinks_overrides distinct start nofun
  · rename_i overriding
    rw [registerLinks_appends overriding distinct]
    have some : config ≠ [] := by
      have count := accepted.count.1
      rintro rfl
      simp at count
    simp only [some, false_or]

/-- `zipc_topology_register_config` merges the configuration as a whole or not at all exactly
under the condition. -/
theorem registerConfig_indivisible_iff (t : Topology Pool Transport)
    (config : Option (List TopologyLinkConfig)) (policy : TopologyPolicy) :
    Indivisible t (config.getD []) (topologyRegisterConfig t config policy) ↔
      MergesWhole t config policy := by
  unfold topologyRegisterConfig MergesWhole
  by_cases valid : topologyValidate t config = .ok
  swap
  · simp only [valid, ne_eq, not_false_eq_true, if_true, false_implies, iff_true]
    exact ⟨fun _ => rfl, fun ok => absurd ok valid⟩
  rw [if_neg (not_not_intro valid)]
  by_cases known : policy.known = true
  swap
  · rw [Bool.not_eq_true] at known
    simp only [known, if_true, valid, Bool.false_eq_true, false_implies, implies_true, iff_true]
    exact ⟨fun _ => rfl, nofun⟩
  obtain ⟨links, rfl⟩ : ∃ links, config = some links := by
    cases config with
    | none => cases valid
    | some links => exact ⟨links, rfl⟩
  have accepted := topologyValidate_iff.mp valid
  have distinct := accepted.distinct_links
  simp only [known, Bool.true_eq_false, if_false, Option.getD_some, valid, forall_const]
  have found : (registerLinks policy links t.links).1 = .ok → ∀ l ∈ links,
      (topologyFindLink (registerLinks policy links t.links).2 l.name).map
        TopologyLinkEntry.config = some l := by
    intro ok l member
    rw [registerLinks_finds distinct ok l member, Option.map_some,
      copyLink_config (accepted.each l member)]
  unfold Undivided
  by_cases ok : (registerLinks policy links t.links).1 = .ok
  · refine iff_of_true ⟨fun bad => absurd ok bad, found⟩ (.inl ?_)
    exact (registerLinks_ok_iff accepted t.links).mp ok
  · have unfit : ¬Fits policy links t.links := fun fits =>
      ok ((registerLinks_ok_iff accepted t.links).mpr fits)
    rw [or_iff_right unfit, ← registerLinks_unchanged distinct ok]
    exact ⟨fun whole => whole.refused ok, fun same => ⟨fun _ => same, fun fine => absurd fine ok⟩⟩

end Whole

/-- Registering a configuration and loading a text are atomic, and what was merged is found under
its name, exactly when the table takes all links or refuses the first that is not there already. -/
theorem registration_atomic_exact :
    (∀ (t : Topology Pool Transport) (config : Option (List TopologyLinkConfig))
      (policy : TopologyPolicy),
      Indivisible t (config.getD []) (topologyRegisterConfig t config policy) ↔
        MergesWhole t config policy) ∧
    ∀ (t : Topology Pool Transport) (text : Option CString) (allocated : Bool)
      (policy : TopologyPolicy),
      Indivisible t (declared text) (topologyLoadString t text allocated policy) ↔
        (allocated = true → MergesWhole t (some (declared text)) policy) := by
  refine ⟨registerConfig_indivisible_iff, fun t text allocated policy => ?_⟩
  have nothing : MergesWhole t (some []) policy := fun valid => nomatch valid
  have refused (status : Status) (bad : status ≠ .ok) (config : List TopologyLinkConfig) :
      Indivisible t config (status, t) := ⟨fun _ => rfl, fun ok => absurd ok bad⟩
  match text with
  | none => exact iff_of_true (refused .invalidArgument nofun _) fun _ => nothing
  | some [] => exact iff_of_true (refused .invalidArgument nofun _) fun _ => nothing
  | some (c :: text) =>
      unfold topologyLoadString
      cases allocated with
      | false => exact iff_of_true (refused .platform nofun _) nofun
      | true =>
          simp only [Bool.true_eq_false, if_false, declared, forall_const]
          cases parsed : parseText (c :: text) with
          | none => exact iff_of_true (refused .invalidArgument nofun _) nothing
          | some links =>
              cases links with
              | nil => exact iff_of_true (refused .invalidArgument nofun _) nothing
              | cons l links => exact registerConfig_indivisible_iff t (some (l :: links)) policy

/-- The second link of a configuration conflicts with the table: the call is refused, and the
first link stays. -/
theorem registration_leaves_first :
    ¬∀ (t : Topology Unit Unit) (config : Option (List TopologyLinkConfig))
      (policy : TopologyPolicy),
      Indivisible t (config.getD []) (topologyRegisterConfig t config policy) := by
  intro atomic
  have whole := (atomic
    { poolBindings := [(['p'], ())], transportBindings := [(['t'], ())]
      links := [topologyCopyLink (exampleLink 'b' 9)] }
    (some [exampleLink 'a' 1, exampleLink 'b' 2]) .rejectDuplicates).refused
  revert whole
  decide

end Zipc
