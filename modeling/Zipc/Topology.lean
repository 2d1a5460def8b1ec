import Zipc.Words
import Mathlib.Data.List.Nodup

/-! # The topology registry

The process-local table of declarative links: resource bindings, validation, the merge of
a configuration under a policy, and the INI-style text loader. A C string is the list of
its bytes before the terminating zero, and the fixed arrays with their counts are lists.

An entry has two keys, its name and its link ID. A link that is merged is matched by
name first and by ID only when no entry bears the name. Under
`ZIPC_TOPOLOGY_OVERRIDE` the entry found by name is rewritten without a look at the ID
of the others.
-/

namespace Zipc

abbrev CString := List Char

def topologyNameMax : Nat := 63
def topologyMaxLinks : Nat := 64
def topologyMaxPools : Nat := 32
def topologyMaxTransports : Nat := 64

/-- The values of `zipc_link_role_t` that a text can name; 0 is `ZIPC_LINK_ROLE_UNSPECIFIED`. -/
def linkRoleProducer : Nat := 1
def linkRoleConsumer : Nat := 2

/-- `zipc_topology_policy_t`; the parameter can hold any other value too. -/
inductive TopologyPolicy where
  | rejectDuplicates | extend | override
  | other (value : Nat)
  deriving Repr, DecidableEq

/-- `zipc_topology_link_config_t`; a string that is absent is a null pointer. -/
structure TopologyLinkConfig where
  name : Option CString := none
  linkId : Nat := 0
  poolName : Option CString := none
  transportName : Option CString := none
  localComponent : Nat := 0
  remoteComponent : Nat := 0
  localEpoch : Nat := 0
  role : Nat := 0
  hopLimit : Nat := 0
  defaultDeadlineNs : Nat := 0
  timeoutTicks : Nat := 0
  deriving Repr, DecidableEq

/-- `zipc_topology_link_entry_t`. -/
structure TopologyLinkEntry where
  name : CString
  linkId : Nat
  poolName : CString
  transportName : CString
  localComponent : Nat
  remoteComponent : Nat
  localEpoch : Nat
  role : Nat
  hopLimit : Nat
  defaultDeadlineNs : Nat
  timeoutTicks : Nat
  deriving Repr, DecidableEq

/-- The bindings and links of the process. Pools and transport configurations are kept
as they are given. -/
structure Topology (Pool Transport : Type) where
  poolBindings : List (CString × Pool) := []
  transportBindings : List (CString × Transport) := []
  links : List TopologyLinkEntry := []

variable {Pool Transport : Type}

/-! ## Bindings -/

def topologyNameValid : Option CString → Bool
  | none => false
  | some name => name ≠ [] && name.length ≤ topologyNameMax

/-- `snprintf` of a string into a name field. -/
def nameField (name : CString) : CString := name.take topologyNameMax

/-- Binds `name` in a table of at most `room` rows: the row that bears the name takes the
value, else a row is added. -/
def bindName {α : Type} (room : Nat) (name : CString) (value : α) (rows : List (CString × α)) :
    Status × List (CString × α) :=
  match rows.findIdx? (·.1 = name) with
  | some i => (.ok, rows.set i (name, value))
  | none =>
      if rows.length ≥ room then (.noBuffer, rows)
      else (.ok, rows ++ [(nameField name, value)])

/-- `zipc_topology_bind_pool`. -/
def topologyBindPool (t : Topology Pool Transport) (name : Option CString) (pool : Option Pool) :
    Status × Topology Pool Transport :=
  match name, pool with
  | some name, some pool =>
      if topologyNameValid (some name) then
        let (status, rows) := bindName topologyMaxPools name pool t.poolBindings
        (status, { t with poolBindings := rows })
      else (.invalidArgument, t)
  | _, _ => (.invalidArgument, t)

/-- `zipc_topology_bind_transport`. -/
def topologyBindTransport (t : Topology Pool Transport) (name : Option CString)
    (transport : Option Transport) : Status × Topology Pool Transport :=
  match name, transport with
  | some name, some transport =>
      if topologyNameValid (some name) then
        let (status, rows) := bindName topologyMaxTransports name transport t.transportBindings
        (status, { t with transportBindings := rows })
      else (.invalidArgument, t)
  | _, _ => (.invalidArgument, t)

/-! ## Validation -/

/-- Whether a table of bindings has a row for the name. -/
def bound {α : Type} (rows : List (CString × α)) (name : Option CString) : Bool :=
  rows.any fun row => some row.1 = name

def TopologyLinkConfig.valid (t : Topology Pool Transport) (l : TopologyLinkConfig) : Bool :=
  topologyNameValid l.name && topologyNameValid l.poolName && topologyNameValid l.transportName &&
    l.linkId ≠ 0 && componentIdValid l.localComponent && componentIdValid l.remoteComponent &&
    l.role ≤ linkRoleConsumer && l.localComponent ≠ l.remoteComponent &&
    bound t.poolBindings l.poolName && bound t.transportBindings l.transportName

/-- Whether a later link of the configuration has the name or the ID of `l`. In C a later
link without a name is an undefined comparison; here it is left to the check of that link. -/
def TopologyLinkConfig.repeated (l : TopologyLinkConfig) (later : List TopologyLinkConfig) : Bool :=
  later.any fun other => l.name = other.name || (l.linkId ≠ 0 && l.linkId = other.linkId)

def validateLinks (t : Topology Pool Transport) : List TopologyLinkConfig → Bool
  | [] => true
  | l :: later => l.valid t && !l.repeated later && validateLinks t later

/-- `zipc_topology_validate`; without a configuration, or without its links, the argument
is null. -/
def topologyValidate (t : Topology Pool Transport) (config : Option (List TopologyLinkConfig)) :
    Status :=
  match config with
  | none => .invalidArgument
  | some links =>
      if links.length = 0 ∨ links.length > topologyMaxLinks then .invalidArgument
      else if validateLinks t links then .ok else .invalidArgument

/-! ## Registration -/

/-- `topology_copy_link`. -/
def topologyCopyLink (src : TopologyLinkConfig) : TopologyLinkEntry where
  name := nameField (src.name.getD [])
  linkId := src.linkId
  poolName := nameField (src.poolName.getD [])
  transportName := nameField (src.transportName.getD [])
  localComponent := src.localComponent
  remoteComponent := src.remoteComponent
  localEpoch := src.localEpoch
  role := src.role
  hopLimit := src.hopLimit
  defaultDeadlineNs := src.defaultDeadlineNs
  timeoutTicks := src.timeoutTicks

/-- `topology_find_link_index`. -/
def topologyFindLinkIndex (links : List TopologyLinkEntry) (name : Option CString) : Option Nat :=
  links.findIdx? fun e => some e.name = name

/-- One round of the loop of `zipc_topology_register_config`. -/
def registerLink (policy : TopologyPolicy) (src : TopologyLinkConfig)
    (links : List TopologyLinkEntry) : Status × List TopologyLinkEntry :=
  match topologyFindLinkIndex links src.name with
  | some existing =>
      if policy ≠ .override then (.invalidArgument, links)
      else (.ok, links.set existing (topologyCopyLink src))
  | none =>
      match if src.linkId ≠ 0 then links.findIdx? (·.linkId = src.linkId) else none with
      | some j =>
          if policy ≠ .override then (.invalidArgument, links)
          else (.ok, links.set j (topologyCopyLink src))
      | none =>
          if links.length ≥ topologyMaxLinks then (.noBuffer, links)
          else (.ok, links ++ [topologyCopyLink src])

/-- The loop of `zipc_topology_register_config`. The links merged before one that is
refused stay in the table. -/
def registerLinks (policy : TopologyPolicy) :
    List TopologyLinkConfig → List TopologyLinkEntry → Status × List TopologyLinkEntry
  | [], links => (.ok, links)
  | src :: rest, links =>
      match registerLink policy src links with
      | (.ok, links) => registerLinks policy rest links
      | refused => refused

def TopologyPolicy.known : TopologyPolicy → Bool
  | .other _ => false
  | _ => true

/-- `zipc_topology_register_config`. -/
def topologyRegisterConfig (t : Topology Pool Transport) (config : Option (List TopologyLinkConfig))
    (policy : TopologyPolicy) : Status × Topology Pool Transport :=
  if topologyValidate t config ≠ .ok then (topologyValidate t config, t)
  else if policy.known = false then (.invalidArgument, t)
  else
    let (status, links) := registerLinks policy (config.getD []) t.links
    (status, { t with links })

/-! ## The text loader -/

def isBlank (c : Char) : Bool := c = ' ' || c = '\t' || c = '\r' || c = '\n'

/-- `topology_trim`. -/
def topologyTrim (s : CString) : CString := ((s.dropWhile isBlank).reverse.dropWhile isBlank).reverse

/-- `isspace` in the C locale. -/
def isSpace (c : Char) : Bool := isBlank c || c = '\x0b' || c = '\x0c'

/-- The value of a digit in any base up to 16. -/
def digitValue (c : Char) : Option Nat :=
  if '0' ≤ c ∧ c ≤ '9' then some (c.toNat - '0'.toNat)
  else if 'a' ≤ c ∧ c ≤ 'f' then some (c.toNat - 'a'.toNat + 10)
  else if 'A' ≤ c ∧ c ≤ 'F' then some (c.toNat - 'A'.toNat + 10)
  else none

def isDigit (base : Nat) (c : Char) : Bool := (digitValue c).any (· < base)

def digitsValue (base : Nat) (digits : CString) : Nat :=
  digits.foldl (fun v c => v * base + (digitValue c).getD 0) 0

/-- The base that a prefix selects when `strtoull` is called with base 0, and the digits
after it: `0x` counts only with a digit behind it. -/
def selectBase : CString → Nat × CString
  | '0' :: x :: d :: rest =>
      if (x = 'x' ∨ x = 'X') ∧ isDigit 16 d then (16, d :: rest) else (8, '0' :: x :: d :: rest)
  | '0' :: rest => (8, '0' :: rest)
  | s => (10, s)

def takeSign : CString → Bool × CString
  | '-' :: s => (true, s)
  | '+' :: s => (false, s)
  | s => (false, s)

/-- `strtoull(s, &end, 0)`: the value and what is left at `end`, or nothing when no
digit is found. Out of range it is `ULLONG_MAX`, and a minus sign negates modulo 2⁶⁴. -/
def strtoull (s : CString) : Option (Nat × CString) :=
  let (negative, s) := takeSign (s.dropWhile isSpace)
  let (base, s) := selectBase s
  let digits := s.takeWhile (isDigit base)
  if digits = [] then none
  else
    let v := digitsValue base digits
    let value := if v ≥ 2 ^ 64 then 2 ^ 64 - 1 else if negative then (2 ^ 64 - v) % 2 ^ 64 else v
    some (value, s.dropWhile (isDigit base))

/-- `topology_parse_u64`. -/
def topologyParseU64 (s : CString) : Option Nat :=
  match strtoull s with
  | some (value, rest) => if topologyTrim rest = [] then some value else none
  | none => none

/-- A number no greater than `limit`. -/
def parseBounded (limit : Nat) (value : CString) : Option Nat :=
  (topologyParseU64 value).filter (· ≤ limit)

def uint16Max : Nat := 65535
def uint32Max : Nat := 4294967295

/-- One `key=value` line of a link section. -/
def setField (key value : CString) (current : TopologyLinkConfig) : Option TopologyLinkConfig :=
  if key = "id".toList ∨ key = "link_id".toList then
    (topologyParseU64 value).map fun n => { current with linkId := n }
  else if key = "pool".toList then
    if topologyNameValid (some value) then some { current with poolName := some (nameField value) }
    else none
  else if key = "transport".toList then
    if topologyNameValid (some value) then
      some { current with transportName := some (nameField value) }
    else none
  else if key = "local".toList ∨ key = "local_component".toList then
    (parseBounded uint16Max value).map fun n => { current with localComponent := n }
  else if key = "remote".toList ∨ key = "remote_component".toList then
    (parseBounded uint16Max value).map fun n => { current with remoteComponent := n }
  else if key = "local_epoch".toList then
    (parseBounded uint32Max value).map fun n => { current with localEpoch := n }
  else if key = "role".toList then
    if value = "producer".toList then some { current with role := linkRoleProducer }
    else if value = "consumer".toList then some { current with role := linkRoleConsumer }
    else none
  else if key = "hop_limit".toList then
    (parseBounded uint32Max value).map fun n => { current with hopLimit := n }
  else if key = "default_deadline_ns".toList then
    (topologyParseU64 value).map fun n => { current with defaultDeadlineNs := n }
  else if key = "timeout_ticks".toList then
    (parseBounded uint32Max value).map fun n => { current with timeoutTicks := n }
  else none

/-- The sections read so far, and the one that is open. -/
structure TopologyParse where
  parsed : List TopologyLinkConfig := []
  current : Option Nat := none

/-- A line that opens a section; `inner` is what stands between the brackets. -/
def openSection (inner : CString) (p : TopologyParse) : Option TopologyParse :=
  if inner.take 5 = "link.".toList ∨ inner.take 5 = "link ".toList then
    let name := topologyTrim (inner.drop 5)
    if topologyNameValid (some name) && p.parsed.length < topologyMaxLinks then
      some ⟨p.parsed ++ [{ name := some (nameField name) }], some p.parsed.length⟩
    else none
  else some { p with current := none }

/-- One line of `zipc_topology_load_string`. -/
def parseLine (line : CString) (p : TopologyParse) : Option TopologyParse :=
  match topologyTrim line with
  | [] | '#' :: _ | ';' :: _ => some p
  | '[' :: rest =>
      if ']' ∈ rest then openSection (topologyTrim (rest.takeWhile (· ≠ ']'))) p else none
  | s =>
      match p.current with
      | none => some p
      | some i =>
          if '=' ∈ s then
            let key := topologyTrim (s.takeWhile (· ≠ '='))
            let value := topologyTrim ((s.dropWhile (· ≠ '=')).drop 1)
            match p.parsed[i]? with
            | some current =>
                (setField key value current).map fun c => { p with parsed := p.parsed.set i c }
            | none => none
          else none

def parseLines : List CString → TopologyParse → Option TopologyParse
  | [], p => some p
  | line :: rest, p =>
      match parseLine line p with
      | some p => parseLines rest p
      | none => none

/-- The links a text declares: it ends at its first zero byte, and `strtok` skips empty
lines. -/
def parseText (text : CString) : Option (List TopologyLinkConfig) :=
  let lines := ((text.takeWhile (· ≠ '\x00')).splitOn '\n').filter (· ≠ [])
  (parseLines lines {}).map TopologyParse.parsed

/-- `zipc_topology_load_string`; `allocated` is whether the copy of the text got memory. -/
def topologyLoadString (t : Topology Pool Transport) (text : Option CString) (allocated : Bool)
    (policy : TopologyPolicy) : Status × Topology Pool Transport :=
  match text with
  | none | some [] => (.invalidArgument, t)
  | some text =>
      if allocated = false then (.platform, t)
      else
        match parseText text with
        | none | some [] => (.invalidArgument, t)
        | some links => topologyRegisterConfig t (some links) policy

/-! ## Runs of the registry -/

/-- A call that binds a resource or merges a configuration. -/
inductive TopologyCall (Pool Transport : Type) where
  | bindPool (name : Option CString) (pool : Option Pool)
  | bindTransport (name : Option CString) (transport : Option Transport)
  | registerConfig (config : Option (List TopologyLinkConfig)) (policy : TopologyPolicy)
  | loadString (text : Option CString) (allocated : Bool) (policy : TopologyPolicy)

def Topology.call (t : Topology Pool Transport) :
    TopologyCall Pool Transport → Topology Pool Transport
  | .bindPool name pool => (topologyBindPool t name pool).2
  | .bindTransport name transport => (topologyBindTransport t name transport).2
  | .registerConfig config policy => (topologyRegisterConfig t config policy).2
  | .loadString text allocated policy => (topologyLoadString t text allocated policy).2

/-- The registry after a sequence of calls of a fresh process. -/
def Topology.after (calls : List (TopologyCall Pool Transport)) : Topology Pool Transport :=
  calls.foldl Topology.call {}

/-- Both keys of the table are unique, and the table fits. -/
structure KeysUnique (links : List TopologyLinkEntry) : Prop where
  names : (links.map TopologyLinkEntry.name).Nodup
  ids : (links.map TopologyLinkEntry.linkId).Nodup
  nonzero : ∀ e ∈ links, e.linkId ≠ 0
  room : links.length ≤ topologyMaxLinks

/-- The entry that bears the name of the link and the entry that carries its ID, when the
table has both, are one entry. -/
def OneMatch (links : List TopologyLinkEntry) (src : TopologyLinkConfig) : Prop :=
  ∀ a ∈ links, ∀ b ∈ links, some a.name = src.name → b.linkId = src.linkId → a = b

instance (links : List TopologyLinkEntry) (src : TopologyLinkConfig) :
    Decidable (OneMatch links src) :=
  inferInstanceAs (Decidable (∀ a ∈ links, ∀ b ∈ links, _ → _ → a = b))

/-- Every link that overrides finds, when its turn comes, no two entries that match it by
different keys. -/
def Overrides (policy : TopologyPolicy) :
    List TopologyLinkConfig → List TopologyLinkEntry → Prop
  | [], _ => True
  | src :: rest, links =>
      (policy = .override → OneMatch links src) ∧
        Overrides policy rest (registerLink policy src links).2

/-- What a call must not do: override by name next to an entry with the same ID. -/
def TopologyCall.Clean (t : Topology Pool Transport) : TopologyCall Pool Transport → Prop
  | .registerConfig (some config) policy => Overrides policy config t.links
  | .loadString (some text) _ policy =>
      ∀ links, parseText text = some links → Overrides policy links t.links
  | _ => True

/-! ## What one link does to the keys -/

theorem nameField_valid {name : CString} (valid : topologyNameValid (some name) = true) :
    nameField name = name := by
  simp only [topologyNameValid, Bool.and_eq_true, decide_eq_true_eq] at valid
  unfold nameField
  exact List.take_of_length_le valid.2

theorem copyLink_name {src : TopologyLinkConfig} (valid : topologyNameValid src.name = true) :
    some (topologyCopyLink src).name = src.name := by
  obtain ⟨name, found⟩ : ∃ name, src.name = some name := by
    cases named : src.name with
    | none => simp [named, topologyNameValid] at valid
    | some name => exact ⟨name, rfl⟩
  rw [found] at valid
  simp only [topologyCopyLink, found, Option.getD_some, nameField_valid valid]

/-- Rewriting one entry of a list without duplicates leaves none, exactly when the new key
is at no other place. -/
theorem nodup_set_iff {α : Type} {keys : List α} (distinct : keys.Nodup) {i : Nat}
    (bounded : i < keys.length) (key : α) :
    (keys.set i key).Nodup ↔ ∀ k, keys[k]? = some key → k = i := by
  simp only [List.nodup_iff_pairwise_ne, List.pairwise_iff_getElem, List.length_set,
    List.getElem_set] at distinct ⊢
  constructor
  · intro apart k found
    obtain ⟨inside, rfl⟩ := List.getElem?_eq_some_iff.mp found
    by_contra other
    rcases Nat.lt_or_gt_of_ne other with before | after
    · have := apart k i inside bounded before
      grind
    · have := apart i k bounded inside after
      grind
  · intro single a b ha hb before
    have first := single a
    have second := single b
    have := distinct a b ha hb before
    grind

theorem same_place {α : Type} {keys : List α} (distinct : keys.Nodup) {i j : Nat} {key : α}
    (first : keys[i]? = some key) (second : keys[j]? = some key) : i = j := by
  obtain ⟨inside, -⟩ := List.getElem?_eq_some_iff.mp first
  exact (List.getElem?_inj inside distinct).mp (first.trans second.symm)

theorem set_keys {links : List TopologyLinkEntry} (unique : KeysUnique links) {i : Nat}
    (bounded : i < links.length) {e : TopologyLinkEntry} (live : e.linkId ≠ 0) :
    KeysUnique (links.set i e) ↔
      (∀ k, (links.map TopologyLinkEntry.name)[k]? = some e.name → k = i) ∧
        ∀ k, (links.map TopologyLinkEntry.linkId)[k]? = some e.linkId → k = i := by
  have names := nodup_set_iff unique.names (i := i) (by simpa using bounded) e.name
  have ids := nodup_set_iff unique.ids (i := i) (by simpa using bounded) e.linkId
  rw [← names, ← ids, ← List.map_set, ← List.map_set]
  constructor
  · intro rewritten
    exact ⟨rewritten.names, rewritten.ids⟩
  · rintro ⟨distinctNames, distinctIds⟩
    refine ⟨distinctNames, distinctIds, fun other member => ?_, by simpa using unique.room⟩
    rcases List.mem_or_eq_of_mem_set member with old | rfl
    · exact unique.nonzero other old
    · exact live

theorem append_keys {links : List TopologyLinkEntry} (unique : KeysUnique links)
    {e : TopologyLinkEntry} (live : e.linkId ≠ 0) (room : links.length < topologyMaxLinks)
    (newName : ∀ other ∈ links, other.name ≠ e.name)
    (newId : ∀ other ∈ links, other.linkId ≠ e.linkId) : KeysUnique (links ++ [e]) where
  names := by
    rw [List.map_append, List.nodup_append]
    refine ⟨unique.names, List.nodup_singleton _, fun key old new added => ?_⟩
    obtain ⟨other, member, rfl⟩ := List.mem_map.mp old
    rw [List.mem_singleton.mp added]
    exact newName other member
  ids := by
    rw [List.map_append, List.nodup_append]
    refine ⟨unique.ids, List.nodup_singleton _, fun key old new added => ?_⟩
    obtain ⟨other, member, rfl⟩ := List.mem_map.mp old
    rw [List.mem_singleton.mp added]
    exact newId other member
  nonzero := by
    intro other member
    rcases List.mem_append.mp member with old | new
    · exact unique.nonzero other old
    · rw [List.mem_singleton.mp new]
      exact live
  room := by
    simp only [List.length_append, List.length_singleton]
    omega

section OneLink

variable {links : List TopologyLinkEntry} {src : TopologyLinkConfig}

theorem found_name {j : Nat} (found : topologyFindLinkIndex links src.name = some j) :
    ∃ bounded : j < links.length, some links[j].name = src.name := by
  obtain ⟨bounded, matched, _⟩ := List.findIdx?_eq_some_iff_getElem.mp found
  exact ⟨bounded, by simpa using matched⟩

theorem no_name (absent : topologyFindLinkIndex links src.name = none) :
    ∀ e ∈ links, some e.name ≠ src.name := by
  intro e member
  have := List.findIdx?_eq_none_iff.mp absent e member
  simpa using this

/-- The entry that bears the name is rewritten: the keys stay unique exactly when no other
entry carries the ID. -/
theorem set_named_keys_iff (unique : KeysUnique links)
    (valid : topologyNameValid src.name = true) (live : src.linkId ≠ 0) {j : Nat}
    (found : topologyFindLinkIndex links src.name = some j) :
    KeysUnique (links.set j (topologyCopyLink src)) ↔ OneMatch links src := by
  obtain ⟨bounded, named⟩ := found_name found
  have copied := copyLink_name valid
  have nameAt : (topologyCopyLink src).name = links[j].name := by
    rw [← named] at copied
    exact Option.some.inj copied
  have placed : (links.map TopologyLinkEntry.name)[j]? = some links[j].name := by
    rw [List.getElem?_map, List.getElem?_eq_getElem bounded, Option.map_some]
  rw [set_keys unique bounded (e := topologyCopyLink src) live]
  constructor
  · rintro ⟨-, single⟩ a memberA b memberB nameA idB
    obtain ⟨i, inside, rfl⟩ := List.mem_iff_getElem.mp memberA
    obtain ⟨k, reaches, rfl⟩ := List.mem_iff_getElem.mp memberB
    have sameK : k = j := single k (by simp [reaches, idB, topologyCopyLink])
    have sameI : i = j := by
      refine same_place unique.names ?_ placed
      rw [List.getElem?_map, List.getElem?_eq_getElem inside, Option.map_some]
      exact nameA.trans named.symm
    subst sameK
    subst sameI
    rfl
  · intro one
    have onlyName : ∀ k, (links.map TopologyLinkEntry.name)[k]? = some links[j].name → k = j := by
      intro k at'
      exact same_place unique.names at' placed
    refine ⟨by rwa [nameAt], fun k at' => ?_⟩
    rw [List.getElem?_map, Option.map_eq_some_iff] at at'
    obtain ⟨other, place, same⟩ := at'
    have matched := one links[j] (List.getElem_mem _) other (List.mem_of_getElem? place) named same
    apply onlyName k
    rw [List.getElem?_map, place, matched]
    rfl

/-- No entry bears the name: the entry that carries the ID is rewritten, and it was the
only one with that ID. -/
theorem set_carrier_keys (unique : KeysUnique links) (valid : topologyNameValid src.name = true)
    (live : src.linkId ≠ 0) (absent : topologyFindLinkIndex links src.name = none) {j : Nat}
    (carried : links.findIdx? (·.linkId = src.linkId) = some j) :
    KeysUnique (links.set j (topologyCopyLink src)) := by
  obtain ⟨bounded, matched, _⟩ := List.findIdx?_eq_some_iff_getElem.mp carried
  have idAt : links[j].linkId = src.linkId := by simpa using matched
  rw [set_keys unique bounded (e := topologyCopyLink src) live]
  constructor
  · intro k at'
    have member := List.mem_of_getElem? at'
    obtain ⟨other, old, same⟩ := List.mem_map.mp member
    have := no_name absent other old
    rw [same, copyLink_name valid] at this
    exact absurd rfl this
  · intro k at'
    apply same_place unique.ids at'
    rw [List.getElem?_map, List.getElem?_eq_getElem bounded, Option.map_some, idAt]
    rfl

/-- A link that matches no entry by either key. -/
theorem append_link_keys (unique : KeysUnique links) (valid : topologyNameValid src.name = true)
    (live : src.linkId ≠ 0) (room : links.length < topologyMaxLinks)
    (absent : topologyFindLinkIndex links src.name = none)
    (free : links.findIdx? (·.linkId = src.linkId) = none) :
    KeysUnique (links ++ [topologyCopyLink src]) := by
  apply append_keys unique live room
  · intro other member same
    have := no_name absent other member
    rw [same, copyLink_name valid] at this
    exact this rfl
  · intro other member same
    have := List.findIdx?_eq_none_iff.mp free other member
    simp only [decide_eq_false_iff_not] at this
    exact this same

/-- A link that overrides keeps the keys unique exactly when its name and its ID do not
match two entries. -/
theorem override_keys_iff (unique : KeysUnique links) (valid : topologyNameValid src.name = true)
    (live : src.linkId ≠ 0) :
    KeysUnique (registerLink .override src links).2 ↔ OneMatch links src := by
  unfold registerLink
  cases found : topologyFindLinkIndex links src.name with
  | some j => simpa using set_named_keys_iff unique valid live found
  | none =>
      have vacuous : OneMatch links src := by
        intro a member b _ named
        exact absurd named (no_name found a member)
      simp only [vacuous, iff_true, if_pos live]
      cases carried : links.findIdx? (·.linkId = src.linkId) with
      | some j => simpa using set_carrier_keys unique valid live found carried
      | none =>
          by_cases full : links.length ≥ topologyMaxLinks
          · simpa [full] using unique
          · simpa [full] using append_link_keys unique valid live (by omega) found carried

theorem registerLink_keys (unique : KeysUnique links) (valid : topologyNameValid src.name = true)
    (live : src.linkId ≠ 0) (policy : TopologyPolicy)
    (one : policy = .override → OneMatch links src) :
    KeysUnique (registerLink policy src links).2 := by
  by_cases overriding : policy = .override
  · subst overriding
    exact (override_keys_iff unique valid live).mpr (one rfl)
  · unfold registerLink
    cases found : topologyFindLinkIndex links src.name with
    | some j => simpa [overriding] using unique
    | none =>
        simp only [if_pos live]
        cases carried : links.findIdx? (·.linkId = src.linkId) with
        | some j => simpa [overriding] using unique
        | none =>
            by_cases full : links.length ≥ topologyMaxLinks
            · simpa [full] using unique
            · simpa [full] using append_link_keys unique valid live (by omega) found carried

end OneLink

/-! ## Whole calls and runs -/

theorem validateLinks_each {t : Topology Pool Transport} {config : List TopologyLinkConfig}
    (valid : validateLinks t config = true) :
    ∀ l ∈ config, topologyNameValid l.name = true ∧ l.linkId ≠ 0 := by
  induction config with
  | nil => simp
  | cons l later ih =>
      simp only [validateLinks, Bool.and_eq_true] at valid
      intro other member
      rcases List.mem_cons.mp member with rfl | member
      · have checked := valid.1.1
        simp only [TopologyLinkConfig.valid, Bool.and_eq_true, decide_eq_true_eq] at checked
        grind
      · exact ih valid.2 other member

theorem registerLinks_keys {policy : TopologyPolicy} {config : List TopologyLinkConfig}
    (checked : ∀ l ∈ config, topologyNameValid l.name = true ∧ l.linkId ≠ 0) :
    ∀ {links : List TopologyLinkEntry}, KeysUnique links → Overrides policy config links →
      KeysUnique (registerLinks policy config links).2 := by
  induction config with
  | nil => exact fun unique _ => unique
  | cons src rest ih =>
      intro links unique clean
      obtain ⟨valid, live⟩ := checked src (List.mem_cons_self ..)
      have kept := registerLink_keys unique valid live policy clean.1
      simp only [registerLinks]
      split
      · rename_i links' registered
        rw [registered] at kept
        have later := clean.2
        rw [registered] at later
        exact ih (fun l member => checked l (List.mem_cons_of_mem _ member)) kept later
      · exact kept

theorem registerConfig_keys {t : Topology Pool Transport} (unique : KeysUnique t.links)
    {config : List TopologyLinkConfig} {policy : TopologyPolicy}
    (clean : Overrides policy config t.links) :
    KeysUnique (topologyRegisterConfig t (some config) policy).2.links := by
  unfold topologyRegisterConfig
  split
  · exact unique
  · rename_i accepted
    split
    · exact unique
    · apply registerLinks_keys _ unique clean
      apply validateLinks_each (t := t)
      simp only [topologyValidate] at accepted
      grind

theorem call_keys {t : Topology Pool Transport} (unique : KeysUnique t.links)
    {call : TopologyCall Pool Transport} (clean : call.Clean t) : KeysUnique (t.call call).links := by
  cases call with
  | bindPool name pool =>
      have frame : (topologyBindPool t name pool).2.links = t.links := by
        unfold topologyBindPool
        grind
      simpa only [Topology.call, frame] using unique
  | bindTransport name transport =>
      have frame : (topologyBindTransport t name transport).2.links = t.links := by
        unfold topologyBindTransport
        grind
      simpa only [Topology.call, frame] using unique
  | registerConfig config policy =>
      cases config with
      | none => exact unique
      | some config => exact registerConfig_keys unique clean
  | loadString text allocated policy =>
      simp only [Topology.call]
      unfold topologyLoadString
      split
      · exact unique
      · exact unique
      · rename_i text _
        split
        · exact unique
        · split
          · exact unique
          · exact unique
          · rename_i links _ parsed
            exact registerConfig_keys unique (clean links parsed)

theorem empty_keys : KeysUnique [] where
  names := List.nodup_nil
  ids := List.nodup_nil
  nonzero := by simp
  room := by simp

theorem calls_keys : ∀ {calls : List (TopologyCall Pool Transport)} {t : Topology Pool Transport},
    KeysUnique t.links →
    (∀ k (call : TopologyCall Pool Transport), calls[k]? = some call →
      call.Clean ((calls.take k).foldl Topology.call t)) →
    KeysUnique (calls.foldl Topology.call t).links := by
  intro calls
  induction calls with
  | nil => exact fun unique _ => unique
  | cons call rest ih =>
      intro t unique clean
      have first := call_keys unique (clean 0 call rfl)
      exact ih first fun k later at' => clean (k + 1) later at'

/-- A link that takes the resources `p` and `t`. -/
def exampleLink (name : Char) (linkId : Nat) : TopologyLinkConfig where
  name := some [name]
  linkId := linkId
  poolName := some ['p']
  transportName := some ['t']
  localComponent := 1
  remoteComponent := 2

/-- Two links are registered, then `extra` is merged with the override policy. -/
def exampleCalls (extra : TopologyLinkConfig) : List (TopologyCall Unit Unit) :=
  [.bindPool (some ['p']) (some ()), .bindTransport (some ['t']) (some ()),
   .registerConfig (some [exampleLink 'a' 1, exampleLink 'b' 2]) .rejectDuplicates,
   .registerConfig (some [extra]) .override]

/-- In every run whose calls never let a link override by name next to an entry with its
ID, the keys of the table stay unique after every call. For one link that overrides, the
condition is exact. -/
theorem registry_keys_unique :
    (∀ calls : List (TopologyCall Pool Transport),
      (∀ k (call : TopologyCall Pool Transport), calls[k]? = some call →
        call.Clean (Topology.after (calls.take k))) →
      ∀ k, KeysUnique (Topology.after (calls.take k)).links) ∧
    ∀ (t : Topology Pool Transport) (src : TopologyLinkConfig), KeysUnique t.links →
      topologyValidate t (some [src]) = .ok →
      (KeysUnique (topologyRegisterConfig t (some [src]) .override).2.links ↔
        OneMatch t.links src) := by
  constructor
  · intro calls clean k
    apply calls_keys empty_keys
    intro i call at'
    rw [List.getElem?_take] at at'
    split at at'
    · rename_i early
      have := clean i call at'
      rwa [List.take_take, Nat.min_eq_left (Nat.le_of_lt early)]
    · cases at'
  · intro t src unique accepted
    have checked : topologyNameValid src.name = true ∧ src.linkId ≠ 0 := by
      have valid : validateLinks t [src] = true := by
        simp only [topologyValidate] at accepted
        grind
      exact validateLinks_each valid src (List.mem_singleton_self src)
    rw [← override_keys_iff unique checked.1 checked.2]
    simp only [topologyRegisterConfig, accepted, ne_eq, not_true_eq_false, if_false,
      TopologyPolicy.known, Bool.true_eq_false, Option.getD_some, registerLinks]
    split
    · rename_i registered
      rw [registered]
    · exact Iff.rfl

/-- A link named as the first entry with the ID of the second: `OVERRIDE` leaves two
entries with one ID. -/
theorem override_repeats_id :
    ¬ ∀ (calls : List (TopologyCall Unit Unit)) (k : Nat),
      KeysUnique (Topology.after (calls.take k)).links := by
  intro all
  have unique := (all (exampleCalls (exampleLink 'a' 2)) 4).ids
  revert unique
  decide

theorem registry_keys_unique_renumbered :
    KeysUnique (Topology.after (exampleCalls (exampleLink 'a' 3))).links ∧
    ¬ KeysUnique (topologyRegisterConfig (Topology.after ((exampleCalls (exampleLink 'a' 3)).take 3))
      (some [exampleLink 'a' 2]) .override).2.links := by
  have clean : ∀ extra, OneMatch (Topology.after ((exampleCalls extra).take 3)).links extra →
      ∀ k (call : TopologyCall Unit Unit), (exampleCalls extra)[k]? = some call →
      call.Clean (Topology.after ((exampleCalls extra).take k)) := by
    intro extra one k call at'
    match k with
    | 0 | 1 =>
        cases at'
        trivial
    | 2 =>
        cases at'
        exact ⟨nofun, nofun, trivial⟩
    | 3 =>
        cases at'
        exact ⟨fun _ => one, trivial⟩
    | k + 4 => simp [exampleCalls] at at'
  constructor
  · exact registry_keys_unique.1 _ (clean (exampleLink 'a' 3) (by decide)) 4
  · have unique := registry_keys_unique.1 (exampleCalls (exampleLink 'a' 3))
      (clean (exampleLink 'a' 3) (by decide)) 3
    rw [registry_keys_unique.2 _ (exampleLink 'a' 2) unique (by decide)]
    decide

end Zipc
