import Zipc.Registration
import Zipc.Rendering
import Zipc.Link
import Zipc.Lib.Latest

/-! # Opening links by name

`zipc_link_open` looks a name up in the registry, then in the table of fully resolved
definitions that `zipc_topology_register` keeps. An entry of the registry names its pool and
its transport, and both names are resolved when the link is opened, not when it is registered.
Only `zipc_topology_reset` takes a binding away, and it takes the links with it, so what was
validated once stays resolvable.
-/

namespace Zipc

open History

variable {Pool Transport : Type}

/-- `zipc_link_config_t`; a pool that is absent is a null pointer. -/
structure LinkRequest (Pool Transport : Type) where
  pool : Option Pool
  localComponent : Nat
  remoteComponent : Nat
  linkId : Nat
  localEpoch : Nat
  role : Nat
  hopLimit : Nat
  defaultDeadlineNs : Nat
  timeoutTicks : Nat
  transport : Transport

/-- `zipc_link_definition_t`. -/
structure LinkDefinition (Pool Transport : Type) where
  name : Option CString
  config : LinkRequest Pool Transport

/-- The registry of a process with its legacy table. -/
structure Registry (Pool Transport : Type) where
  topology : Topology Pool Transport := {}
  legacy : List (LinkDefinition Pool Transport) := []

/-- The value that the first row with the name binds. -/
def findBinding {α : Type} (rows : List (CString × α)) (name : CString) : Option α :=
  (rows.find? (·.1 = name)).map Prod.snd

/-- `topology_find_pool`. -/
def topologyFindPool (t : Topology Pool Transport) (name : CString) : Option Pool :=
  findBinding t.poolBindings name

/-- `topology_find_transport`. -/
def topologyFindTransport (t : Topology Pool Transport) (name : CString) : Option Transport :=
  findBinding t.transportBindings name

/-- `zipc_topology_reset`. -/
def topologyReset (_ : Registry Pool Transport) : Registry Pool Transport := {}

def LinkDefinition.valid (d : LinkDefinition Pool Transport) : Bool :=
  d.name.isSome && d.config.pool.isSome && componentIdValid d.config.localComponent &&
    componentIdValid d.config.remoteComponent &&
    d.config.localComponent ≠ d.config.remoteComponent

def definitionsValid : List (LinkDefinition Pool Transport) → Bool
  | [] => true
  | d :: later =>
      d.valid && !(later.any fun other => other.name.isSome && other.name = d.name) &&
        definitionsValid later

/-- `zipc_topology_register`. The table of the caller is kept, not copied. -/
def topologyRegister (r : Registry Pool Transport)
    (definitions : Option (List (LinkDefinition Pool Transport))) :
    Status × Registry Pool Transport :=
  match definitions with
  | none | some [] => (.invalidArgument, r)
  | some definitions =>
      if definitionsValid definitions then (.ok, { r with legacy := definitions })
      else (.invalidArgument, r)

def TopologyLinkEntry.request (e : TopologyLinkEntry) (pool : Pool) (transport : Transport) :
    LinkRequest Pool Transport where
  pool := some pool
  localComponent := e.localComponent
  remoteComponent := e.remoteComponent
  linkId := e.linkId
  localEpoch := e.localEpoch
  role := e.role
  hopLimit := e.hopLimit
  defaultDeadlineNs := e.defaultDeadlineNs
  timeoutTicks := e.timeoutTicks
  transport := transport

/-- The configuration that `zipc_link_open` passes to `zipc_link_create`, or its refusal. -/
def linkRequest (r : Registry Pool Transport) (name : Option CString) :
    Except Status (LinkRequest Pool Transport) :=
  match name with
  | none => .error .invalidArgument
  | some name =>
      match topologyFindLink r.topology.links (some name) with
      | some entry =>
          match topologyFindPool r.topology entry.poolName,
            topologyFindTransport r.topology entry.transportName with
          | some pool, some transport => .ok (entry.request pool transport)
          | _, _ => .error .invalidArgument
      | none =>
          match r.legacy.find? (·.name = some name) with
          | some definition => .ok definition.config
          | none => .error .invalidArgument

inductive RegistryCall (Pool Transport : Type) where
  | topology (call : TopologyCall Pool Transport)
  | register (definitions : Option (List (LinkDefinition Pool Transport)))
  | reset

def Registry.call (r : Registry Pool Transport) :
    RegistryCall Pool Transport → Registry Pool Transport
  | .topology call => { r with topology := r.topology.call call }
  | .register definitions => (topologyRegister r definitions).2
  | .reset => topologyReset r

/-- The registry after a sequence of calls of a fresh process. -/
def Registry.after (calls : List (RegistryCall Pool Transport)) : Registry Pool Transport :=
  calls.foldl Registry.call {}

/-- What a call binds the pool name to, unless the table is full; a reset unbinds it. -/
def RegistryCall.bindsPool (name : CString) : RegistryCall Pool Transport → Option (Option Pool)
  | .topology (.bindPool (some other) (some pool)) =>
      if other = name ∧ topologyNameValid (some name) then some (some pool) else none
  | .reset => some none
  | _ => none

/-- What a call binds the transport name to. -/
def RegistryCall.bindsTransport (name : CString) :
    RegistryCall Pool Transport → Option (Option Transport)
  | .topology (.bindTransport (some other) (some transport)) =>
      if other = name ∧ topologyNameValid (some name) then some (some transport) else none
  | .reset => some none
  | _ => none

/-- The configuration passes the checks that `zipc_link_create` makes of it alone. -/
structure LinkRequest.Admissible (c : LinkRequest Pool Transport) : Prop where
  pool : c.pool.isSome
  localComponent : componentIdValid c.localComponent = true
  remoteComponent : componentIdValid c.remoteComponent = true
  apart : c.localComponent ≠ c.remoteComponent

/-- The call neither resets the registry nor overrides an entry with a key of the link. -/
def RegistryCall.Spares (l : TopologyLinkConfig) : RegistryCall Pool Transport → Prop
  | .topology (.registerConfig config policy) =>
      policy = .override → ∀ o ∈ config.getD [], l.name ≠ o.name ∧ l.linkId ≠ o.linkId
  | .topology (.loadString text _ policy) =>
      policy = .override → ∀ o ∈ declared text, l.name ≠ o.name ∧ l.linkId ≠ o.linkId
  | .reset => False
  | _ => True

section Bindings

variable {α : Type} {room : Nat} {name key : CString} {value : α} {rows : List (CString × α)}

theorem findBinding_cons (row : CString × α) : findBinding (row :: rows) key =
    if row.1 = key then some row.2 else findBinding rows key := by
  unfold findBinding
  rw [List.find?_cons]
  split <;> simp_all

theorem findBinding_append (row : CString × α) : findBinding (rows ++ [row]) key =
    (findBinding rows key).or (if row.1 = key then some row.2 else none) := by
  induction rows with
  | nil =>
    rw [List.nil_append, findBinding_cons]
    simp [findBinding]
  | cons first rest ih =>
    rw [List.cons_append, findBinding_cons, findBinding_cons, ih]
    split <;> simp

theorem findBinding_absent (absent : rows.findIdx? (·.1 = name) = none) :
    findBinding rows name = none := by
  unfold findBinding
  rw [List.findIdx?_eq_none_iff] at absent
  rw [List.find?_eq_none.mpr (by simpa using absent), Option.map_none]

/-- The row that bears the name is rewritten: the name finds the value, other names find what
they found. -/
theorem findBinding_set : ∀ {rows : List (CString × α)} {i : Nat},
    rows.findIdx? (·.1 = name) = some i → findBinding (rows.set i (name, value)) key =
      if name = key then some value else findBinding rows key := by
  intro rows
  induction rows with
  | nil => simp
  | cons row rest ih =>
    intro i found
    rw [List.findIdx?_cons] at found
    split at found
    · rename_i named
      rw [decide_eq_true_eq] at named
      rw [← Option.some.inj found, List.set_cons_zero, findBinding_cons, findBinding_cons, named]
      split <;> rfl
    · rename_i other
      rw [decide_eq_true_eq] at other
      obtain ⟨j, place, rfl⟩ := Option.map_eq_some_iff.mp found
      rw [List.set_cons_succ, findBinding_cons, findBinding_cons, ih place]
      grind

/-- A name of a table is bound to the value, or, in a full table that lacks it, not at all. -/
theorem bindName_finds (named : topologyNameValid (some name) = true) (room : Nat) (value : α)
    (rows : List (CString × α)) : findBinding (bindName room name value rows).2 name = some value ∨
      (bindName room name value rows).2 = rows ∧ findBinding rows name = none := by
  unfold bindName
  cases found : rows.findIdx? (·.1 = name) with
  | some i => exact .inl (by rw [findBinding_set found, if_pos rfl])
  | none =>
    have absent := findBinding_absent found
    simp only
    split
    · exact .inr ⟨rfl, absent⟩
    · exact .inl (by simp [findBinding_append, absent, nameField_valid named])

theorem bindName_other (named : topologyNameValid (some name) = true) (other : name ≠ key) :
    findBinding (bindName room name value rows).2 key = findBinding rows key := by
  unfold bindName
  cases found : rows.findIdx? (·.1 = name) with
  | some i => rw [findBinding_set found, if_neg other]
  | none =>
    simp only
    split
    · rfl
    · simp [findBinding_append, nameField_valid named, other]

/-- What a table finds after a name was bound. -/
theorem bindName_cases (named : topologyNameValid (some name) = true) {found : α}
    (finds : findBinding (bindName room name value rows).2 key = some found) :
    name = key ∧ found = value ∨ name ≠ key ∧ findBinding rows key = some found := by
  by_cases same : name = key
  · subst same
    rcases bindName_finds named room value rows with new | ⟨old, none⟩
    · exact .inl ⟨rfl, Option.some.inj (finds.symm.trans new)⟩
    · rw [old, none] at finds
      cases finds
  · rw [bindName_other named same] at finds
    exact .inr ⟨same, finds⟩

/-- Binding a name unbinds none. -/
theorem bindName_keeps (named : topologyNameValid (some name) = true)
    (bound : (findBinding rows key).isSome) :
    (findBinding (bindName room name value rows).2 key).isSome := by
  by_cases same : name = key
  · subst same
    rcases bindName_finds named room value rows with new | ⟨old, none⟩
    · rw [new]
      rfl
    · rw [old]
      exact bound
  · rwa [bindName_other named same]

theorem findBinding_isSome : (findBinding rows key).isSome ↔ ∃ row ∈ rows, row.1 = key := by
  simp [findBinding]

end Bindings

/-! ## The table of links -/

/-- What an entry keeps for as long as it is registered. -/
structure TopologyLinkEntry.Resolves (t : Topology Pool Transport) (e : TopologyLinkEntry) :
    Prop where
  pool : (topologyFindPool t e.poolName).isSome
  transport : (topologyFindTransport t e.transportName).isSome
  localComponent : componentIdValid e.localComponent = true
  remoteComponent : componentIdValid e.remoteComponent = true
  apart : e.localComponent ≠ e.remoteComponent

section Links

variable {t u : Topology Pool Transport} {l : TopologyLinkConfig} {e : TopologyLinkEntry}
  {config : List TopologyLinkConfig} {policy : TopologyPolicy} {links : List TopologyLinkEntry}

theorem TopologyLinkConfig.Acceptable.resolves (accepted : l.Acceptable t) :
    (topologyCopyLink l).Resolves t := by
  have copied := copyLink_config accepted
  have pool : some (topologyCopyLink l).poolName = l.poolName := congrArg (·.poolName) copied
  have transport : some (topologyCopyLink l).transportName = l.transportName :=
    congrArg (·.transportName) copied
  obtain ⟨row, bound, named⟩ := accepted.pool
  obtain ⟨row', bound', named'⟩ := accepted.transport
  exact {
    pool := findBinding_isSome.mpr ⟨row, bound, Option.some.inj (named.trans pool.symm)⟩
    transport :=
      findBinding_isSome.mpr ⟨row', bound', Option.some.inj (named'.trans transport.symm)⟩
    localComponent := componentIdValid_iff.mpr accepted.localComponent
    remoteComponent := componentIdValid_iff.mpr accepted.remoteComponent
    apart := accepted.apart }

/-- An entry of the table was there before, or it is a copy of the link. -/
theorem registerLink_mem (member : e ∈ (registerLink policy l links).2) :
    e ∈ links ∨ e = topologyCopyLink l := by
  unfold registerLink at member
  split at member
  · split at member
    · exact .inl member
    · exact List.mem_or_eq_of_mem_set member
  · split at member
    · split at member
      · exact .inl member
      · exact List.mem_or_eq_of_mem_set member
    · split at member
      · exact .inl member
      · simpa using member

theorem registerLinks_mem (member : e ∈ (registerLinks policy config links).2) :
    e ∈ links ∨ ∃ l ∈ config, e = topologyCopyLink l := by
  induction config generalizing links with
  | nil => exact .inl member
  | cons src rest ih =>
    have first : e ∈ (registerLink policy src links).2 → e ∈ links ∨ ∃ l ∈ src :: rest,
        e = topologyCopyLink l := by
      intro member
      exact (registerLink_mem member).imp_right fun copied => ⟨src, List.mem_cons_self, copied⟩
    rw [registerLinks_cons] at member
    split at member
    · rcases ih member with old | ⟨l, later, copied⟩
      · exact first old
      · exact .inr ⟨l, List.mem_cons_of_mem _ later, copied⟩
    · exact first member

/-- A call that registers links leaves the bindings, and what it adds was accepted. -/
theorem registerConfig_leaves (t : Topology Pool Transport)
    (config : Option (List TopologyLinkConfig)) (policy : TopologyPolicy) :
    ((topologyRegisterConfig t config policy).2.poolBindings = t.poolBindings ∧
      (topologyRegisterConfig t config policy).2.transportBindings = t.transportBindings) ∧
    ((topologyRegisterConfig t config policy).2.links = t.links ∨
      Acceptable t (config.getD []) ∧ (topologyRegisterConfig t config policy).2.links =
        (registerLinks policy (config.getD []) t.links).2) := by
  unfold topologyRegisterConfig
  split
  · exact ⟨⟨rfl, rfl⟩, .inl rfl⟩
  · rename_i accepted
    rw [not_not] at accepted
    split
    · exact ⟨⟨rfl, rfl⟩, .inl rfl⟩
    · refine ⟨⟨rfl, rfl⟩, .inr ⟨?_, rfl⟩⟩
      cases config with
      | none => cases accepted
      | some links => exact topologyValidate_iff.mp accepted

/-- Loading a text registers the links that it declares, or does nothing. -/
theorem loadString_registers (t : Topology Pool Transport) (text : Option CString)
    (allocated : Bool) (policy : TopologyPolicy) :
    topologyLoadString t text allocated policy =
        topologyRegisterConfig t (some (declared text)) policy ∨
      (topologyLoadString t text allocated policy).2 = t ∧
        (topologyLoadString t text allocated policy).1 ≠ .ok := by
  obtain _ | _ | ⟨c, rest⟩ := text
  · exact .inr ⟨rfl, by simp [topologyLoadString]⟩
  · exact .inr ⟨rfl, by simp [topologyLoadString]⟩
  · simp only [topologyLoadString, declared]
    cases allocated with
    | false => exact .inr ⟨rfl, by simp⟩
    | true =>
      obtain _ | _ | ⟨l, links⟩ := parseText (c :: rest)
      · exact .inr ⟨rfl, by simp⟩
      · exact .inr ⟨rfl, by simp⟩
      · exact .inl rfl

end Links

/-! ## Every run -/

/-- What holds of a registry after the calls: a binding that is found is the last one made, and
whatever can be opened resolves. -/
structure Registry.Sound (calls : List (RegistryCall Pool Transport))
    (r : Registry Pool Transport) : Prop where
  pools : ∀ name pool, topologyFindPool r.topology name = some pool →
    Latest (RegistryCall.bindsPool name) calls pool
  transports : ∀ name transport, topologyFindTransport r.topology name = some transport →
    Latest (RegistryCall.bindsTransport name) calls transport
  links : ∀ e ∈ r.topology.links, e.Resolves r.topology
  legacy : ∀ d ∈ r.legacy, d.config.Admissible

section Runs

variable {calls : List (RegistryCall Pool Transport)} {r : Registry Pool Transport}
  {t u : Topology Pool Transport} {name : CString}

theorem TopologyLinkEntry.Resolves.keep {e : TopologyLinkEntry} (resolves : e.Resolves t)
    (pools : ∀ name, (topologyFindPool t name).isSome → (topologyFindPool u name).isSome)
    (transports : ∀ name, (topologyFindTransport t name).isSome →
      (topologyFindTransport u name).isSome) : e.Resolves u :=
  { resolves with pool := pools _ resolves.pool, transport := transports _ resolves.transport }

theorem definitionsValid_each : ∀ {definitions : List (LinkDefinition Pool Transport)},
    definitionsValid definitions = true → ∀ d ∈ definitions, d.config.Admissible := by
  intro definitions
  induction definitions with
  | nil => simp
  | cons first later ih =>
    intro valid
    simp only [definitionsValid, LinkDefinition.valid, Bool.and_eq_true, decide_eq_true_eq] at valid
    obtain ⟨⟨⟨⟨⟨⟨-, pool⟩, local'⟩, remote⟩, apart⟩, -⟩, rest⟩ := valid
    intro d member
    rcases List.mem_cons.mp member with rfl | member
    · exact ⟨pool, local', remote, apart⟩
    · exact ih rest d member

theorem topologyRegister_legacy (definitions : Option (List (LinkDefinition Pool Transport))) :
    (topologyRegister r definitions).2.topology = r.topology ∧
      ∀ d ∈ (topologyRegister r definitions).2.legacy, d ∈ r.legacy ∨ d.config.Admissible := by
  unfold topologyRegister
  split
  · exact ⟨rfl, fun d => .inl⟩
  · exact ⟨rfl, fun d => .inl⟩
  · split
    · rename_i valid
      exact ⟨rfl, fun d member => .inr (definitionsValid_each valid d member)⟩
    · exact ⟨rfl, fun d => .inl⟩

/-- A call that registers links keeps the registry sound. -/
theorem Registry.Sound.registers (sound : r.Sound calls) {call : TopologyCall Pool Transport}
    {config : Option (List TopologyLinkConfig)} {policy : TopologyPolicy}
    (registers : r.topology.call call = (topologyRegisterConfig r.topology config policy).2)
    (bindsPool : ∀ name, RegistryCall.bindsPool name (.topology call) = none)
    (bindsTransport : ∀ name, RegistryCall.bindsTransport name (.topology call) = none) :
    (r.call (.topology call)).Sound (calls ++ [.topology call]) := by
  obtain ⟨⟨pools, transports⟩, links⟩ := registerConfig_leaves r.topology config policy
  have samePool (name : CString) :
      topologyFindPool (r.topology.call call) name = topologyFindPool r.topology name := by
    rw [registers, topologyFindPool, pools, topologyFindPool]
  have sameTransport (name : CString) : topologyFindTransport (r.topology.call call) name =
      topologyFindTransport r.topology name := by
    rw [registers, topologyFindTransport, transports, topologyFindTransport]
  have keeps {e : TopologyLinkEntry} (resolves : e.Resolves r.topology) :
      e.Resolves (r.topology.call call) :=
    resolves.keep (fun name bound => by rwa [samePool]) fun name bound => by rwa [sameTransport]
  refine ⟨fun name pool found => ?_, fun name transport found => ?_, fun e member => ?_,
    sound.legacy⟩
  · rw [Registry.call, samePool] at found
    exact (sound.pools name pool found).keep (bindsPool name)
  · rw [Registry.call, sameTransport] at found
    exact (sound.transports name transport found).keep (bindsTransport name)
  · rw [Registry.call, registers] at member
    rcases links with same | ⟨accepted, merged⟩
    · exact keeps (sound.links e (same ▸ member))
    · rw [merged] at member
      rcases registerLinks_mem member with old | ⟨l, declared, rfl⟩
      · exact keeps (sound.links e old)
      · exact keeps (accepted.each l declared).resolves

/-- A call that is refused changes nothing. -/
theorem registers_nothing (call : TopologyCall Pool Transport) (same : t.call call = t) :
    t.call call = (topologyRegisterConfig t none .extend).2 := same

theorem Registry.Sound.bindPool (sound : r.Sound calls)
    (named : topologyNameValid (some name) = true) (pool : Pool) :
    (r.call (.topology (.bindPool (some name) (some pool)))).Sound
      (calls ++ [.topology (.bindPool (some name) (some pool))]) := by
  have finds (key : CString) : topologyFindPool
      (r.call (.topology (.bindPool (some name) (some pool)))).topology key =
        findBinding (bindName topologyMaxPools name pool r.topology.poolBindings).2 key := by
    simp [Registry.call, Topology.call, topologyBindPool, named, topologyFindPool]
  have others : (r.call (.topology (.bindPool (some name)
        (some pool)))).topology.transportBindings = r.topology.transportBindings ∧
      (r.call (.topology (.bindPool (some name) (some pool)))).topology.links =
        r.topology.links := by
    simp [Registry.call, Topology.call, topologyBindPool, named]
  have sameTransport (key : CString) : topologyFindTransport
      (r.call (.topology (.bindPool (some name) (some pool)))).topology key =
        topologyFindTransport r.topology key := by
    rw [topologyFindTransport, others.1, topologyFindTransport]
  refine ⟨fun key found bound => ?_, fun key transport found => ?_, fun e member => ?_,
    sound.legacy⟩
  · rw [finds] at bound
    rcases bindName_cases named bound with ⟨rfl, rfl⟩ | ⟨other, old⟩
    · exact Latest.write (by simp [RegistryCall.bindsPool, named])
    · exact (sound.pools key found old).keep (by simp [RegistryCall.bindsPool, other])
  · rw [sameTransport] at found
    exact (sound.transports key transport found).keep rfl
  · rw [others.2] at member
    refine (sound.links e member).keep (fun key bound => ?_) fun key bound => ?_
    · rw [finds]
      exact bindName_keeps named bound
    · rwa [sameTransport]

theorem Registry.Sound.bindTransport (sound : r.Sound calls)
    (named : topologyNameValid (some name) = true) (transport : Transport) :
    (r.call (.topology (.bindTransport (some name) (some transport)))).Sound
      (calls ++ [.topology (.bindTransport (some name) (some transport))]) := by
  have finds (key : CString) : topologyFindTransport
      (r.call (.topology (.bindTransport (some name) (some transport)))).topology key =
        findBinding (bindName topologyMaxTransports name transport
          r.topology.transportBindings).2 key := by
    simp [Registry.call, Topology.call, topologyBindTransport, named, topologyFindTransport]
  have others : (r.call (.topology (.bindTransport (some name)
        (some transport)))).topology.poolBindings = r.topology.poolBindings ∧
      (r.call (.topology (.bindTransport (some name) (some transport)))).topology.links =
        r.topology.links := by
    simp [Registry.call, Topology.call, topologyBindTransport, named]
  have samePool (key : CString) : topologyFindPool
      (r.call (.topology (.bindTransport (some name) (some transport)))).topology key =
        topologyFindPool r.topology key := by
    rw [topologyFindPool, others.1, topologyFindPool]
  refine ⟨fun key pool found => ?_, fun key found bound => ?_, fun e member => ?_,
    sound.legacy⟩
  · rw [samePool] at found
    exact (sound.pools key pool found).keep rfl
  · rw [finds] at bound
    rcases bindName_cases named bound with ⟨rfl, rfl⟩ | ⟨other, old⟩
    · exact Latest.write (by simp [RegistryCall.bindsTransport, named])
    · exact (sound.transports key found old).keep (by simp [RegistryCall.bindsTransport, other])
  · rw [others.2] at member
    refine (sound.links e member).keep (fun key bound => ?_) fun key bound => ?_
    · rwa [samePool]
    · rw [finds]
      exact bindName_keeps named bound

theorem Registry.Sound.step (sound : r.Sound calls) (call : RegistryCall Pool Transport) :
    (r.call call).Sound (calls ++ [call]) := by
  cases call with
  | topology call =>
    cases call with
    | bindPool name pool =>
      cases name with
      | none => exact sound.registers (registers_nothing _ rfl) (fun _ => rfl) fun _ => rfl
      | some name =>
        cases pool with
        | none => exact sound.registers (registers_nothing _ rfl) (fun _ => rfl) fun _ => rfl
        | some pool =>
          by_cases named : topologyNameValid (some name) = true
          · exact sound.bindPool named pool
          · refine sound.registers (registers_nothing _ ?_) (fun key => ?_) fun _ => rfl
            · simp [Topology.call, topologyBindPool, named]
            · simp only [RegistryCall.bindsPool]
              grind
    | bindTransport name transport =>
      cases name with
      | none => exact sound.registers (registers_nothing _ rfl) (fun _ => rfl) fun _ => rfl
      | some name =>
        cases transport with
        | none => exact sound.registers (registers_nothing _ rfl) (fun _ => rfl) fun _ => rfl
        | some transport =>
          by_cases named : topologyNameValid (some name) = true
          · exact sound.bindTransport named transport
          · refine sound.registers (registers_nothing _ ?_) (fun _ => rfl) fun key => ?_
            · simp [Topology.call, topologyBindTransport, named]
            · simp only [RegistryCall.bindsTransport]
              grind
    | registerConfig config policy => exact sound.registers rfl (fun _ => rfl) fun _ => rfl
    | loadString text allocated policy =>
      rcases loadString_registers r.topology text allocated policy with registers | ⟨same, -⟩
      · exact sound.registers (congrArg Prod.snd registers) (fun _ => rfl) fun _ => rfl
      · exact sound.registers (registers_nothing _ same) (fun _ => rfl) fun _ => rfl
  | register definitions =>
    obtain ⟨same, defined⟩ := topologyRegister_legacy (r := r) definitions
    simp only [Registry.call]
    refine ⟨fun name pool found => ?_, fun name transport found => ?_, fun e member => ?_,
      fun d member => (defined d member).elim (sound.legacy d) id⟩
    · rw [same] at found
      exact (sound.pools name pool found).keep rfl
    · rw [same] at found
      exact (sound.transports name transport found).keep rfl
    · rw [same] at member ⊢
      exact sound.links e member
  | reset =>
    refine ⟨fun name pool found => ?_, fun name transport found => ?_, ?_, ?_⟩
    · cases found
    · cases found
    · simp [Registry.call, topologyReset]
    · simp [Registry.call, topologyReset]

theorem Registry.after_append (calls later : List (RegistryCall Pool Transport)) :
    Registry.after (calls ++ later) = later.foldl Registry.call (Registry.after calls) :=
  List.foldl_append

theorem Registry.after_sound (calls : List (RegistryCall Pool Transport)) :
    (Registry.after calls).Sound calls := by
  induction calls using List.reverseRecOn with
  | nil =>
    refine ⟨fun name pool found => ?_, fun name transport found => ?_, ?_, ?_⟩
    · cases found
    · cases found
    · simp [Registry.after]
    · simp [Registry.after]
  | append_singleton calls call ih =>
    rw [Registry.after_append]
    exact ih.step call

/-- An entry of the registry opens with the pool and the transport that its names were bound to
last. -/
theorem Registry.Sound.opens (sound : r.Sound calls) {e : TopologyLinkEntry}
    (found : topologyFindLink r.topology.links (some name) = some e) :
    ∃ pool transport, Latest (RegistryCall.bindsPool e.poolName) calls pool ∧
      Latest (RegistryCall.bindsTransport e.transportName) calls transport ∧
      linkRequest r (some name) = .ok (e.request pool transport) ∧
      (e.request pool transport).Admissible := by
  obtain ⟨i, -, place⟩ := Option.bind_eq_some_iff.mp found
  have resolves := sound.links e (List.mem_of_getElem? place)
  obtain ⟨pool, isPool⟩ := Option.isSome_iff_exists.mp resolves.pool
  obtain ⟨transport, isTransport⟩ := Option.isSome_iff_exists.mp resolves.transport
  refine ⟨pool, transport, sound.pools _ _ isPool, sound.transports _ _ isTransport, ?_, rfl,
    resolves.localComponent, resolves.remoteComponent, resolves.apart⟩
  simp only [linkRequest, found, isPool, isTransport]

end Runs

theorem findLink_none {links : List TopologyLinkEntry} {name : CString}
    (absent : topologyFindLink links (some name) = none) : ∀ e ∈ links, e.name ≠ name := by
  cases named : topologyFindLinkIndex links (some name) with
  | some i =>
    rw [topologyFindLink, named, Option.bind_some, List.getElem?_eq_none_iff] at absent
    exact absurd (List.findIdx?_eq_some_iff_getElem.mp named).1 (by omega)
  | none =>
    intro e member same
    have := List.findIdx?_eq_none_iff.mp named e member
    simp [same] at this

/-- After any calls of the registry, a name that no entry and no definition bears is refused, and
every other name opens: an entry with its own values and with the pool and the transport that its
names were bound to last, in any case with a configuration that passes the checks of
`zipc_link_create`. -/
theorem link_open_exact (calls : List (RegistryCall Pool Transport)) (name : CString) :
    (linkRequest (Registry.after calls) (some name) = .error .invalidArgument ↔
      (∀ e ∈ (Registry.after calls).topology.links, e.name ≠ name) ∧
        ∀ d ∈ (Registry.after calls).legacy, d.name ≠ some name) ∧
    (∀ e, topologyFindLink (Registry.after calls).topology.links (some name) = some e →
      ∃ pool transport, Latest (RegistryCall.bindsPool e.poolName) calls pool ∧
        Latest (RegistryCall.bindsTransport e.transportName) calls transport ∧
        linkRequest (Registry.after calls) (some name) = .ok (e.request pool transport)) ∧
    (∀ config, linkRequest (Registry.after calls) (some name) = .ok config →
      config.Admissible) := by
  have sound := Registry.after_sound calls
  generalize Registry.after calls = r at sound
  cases found : topologyFindLink r.topology.links (some name) with
  | some e =>
    obtain ⟨pool, transport, lastPool, lastTransport, opens, admissible⟩ := sound.opens found
    obtain ⟨i, named, place⟩ := Option.bind_eq_some_iff.mp found
    refine ⟨?_, ?_, ?_⟩
    · rw [opens]
      constructor
      · intro refused
        cases refused
      · rintro ⟨none, -⟩
        obtain ⟨bounded, isName, -⟩ := List.findIdx?_eq_some_iff_getElem.mp named
        rw [List.getElem?_eq_getElem bounded, Option.some.injEq] at place
        subst place
        exact absurd (by simpa using isName) (none _ (List.getElem_mem bounded))
    · intro other same
      rw [← Option.some.inj same]
      exact ⟨pool, transport, lastPool, lastTransport, opens⟩
    · intro config same
      rw [opens] at same
      cases same
      exact admissible
  | none =>
    have unnamed := findLink_none found
    refine ⟨?_, by simp, ?_⟩
    · simp only [linkRequest, found]
      cases defined : r.legacy.find? (·.name = some name) with
      | some d =>
        have bears := List.find?_some defined
        have member := List.mem_of_find?_eq_some defined
        simp only [reduceCtorEq, false_iff, not_and, not_forall]
        exact fun _ => ⟨d, member, by simpa using bears⟩
      | none =>
        rw [List.find?_eq_none] at defined
        simpa using ⟨unnamed, by simpa using defined⟩
    · intro config opens
      simp only [linkRequest, found] at opens
      cases defined : r.legacy.find? (·.name = some name) with
      | some d =>
        rw [defined] at opens
        cases opens
        exact sound.legacy d (List.mem_of_find?_eq_some defined)
      | none =>
        rw [defined] at opens
        cases opens

/-! ## Declared links -/

section Declared

variable {t : Topology Pool Transport} {r : Registry Pool Transport} {l : TopologyLinkConfig}
  {e : TopologyLinkEntry} {config : List TopologyLinkConfig} {policy : TopologyPolicy}
  {links : List TopologyLinkEntry} {i : Nat}

theorem Seated.append (seated : Seated links i e) (added : TopologyLinkEntry) :
    Seated (links ++ [added]) i e := by
  have inside : i < links.length := (List.getElem?_eq_some_iff.mp seated.here).1
  refine ⟨by rw [List.getElem?_append_left inside, seated.here], fun j before other there => ?_⟩
  rw [List.getElem?_append_left (by omega)] at there
  exact seated.first j before other there

/-- A policy that does not override only adds entries. -/
theorem registerLinks_adds (adding : policy ≠ .override) (seated : Seated links i e) :
    Seated (registerLinks policy config links).2 i e := by
  induction config generalizing links with
  | nil => exact seated
  | cons src rest ih =>
    have first : Seated (registerLink policy src links).2 i e := by
      unfold registerLink
      split
      · simpa [adding] using seated
      · split
        · simpa [adding] using seated
        · split
          · exact seated
          · exact seated.append _
    rw [registerLinks_cons]
    split
    · exact ih first
    · exact first

/-- A registration keeps the entry of a link whose keys it does not override. -/
theorem registerConfig_keeps (seated : Seated t.links i e)
    {config : Option (List TopologyLinkConfig)}
    (apart : policy = .override →
      ∀ o ∈ config.getD [], some e.name ≠ o.name ∧ e.linkId ≠ o.linkId) :
    Seated (topologyRegisterConfig t config policy).2.links i e := by
  rcases (registerConfig_leaves t config policy).2 with same | ⟨accepted, merged⟩
  · rwa [same]
  · rw [merged]
    by_cases overriding : policy = .override
    · exact registerLinks_keeps accepted.distinct_links seated (apart overriding)
    · exact registerLinks_adds overriding seated

/-- The calls of a run that spare the link leave its entry where it is. -/
theorem Registry.keeps (seated : Seated r.topology.links i (topologyCopyLink l))
    (named : topologyNameValid l.name = true) {call : RegistryCall Pool Transport}
    (spares : call.Spares l) : Seated (r.call call).topology.links i (topologyCopyLink l) := by
  have copied := copyLink_name named
  cases call with
  | topology call =>
    cases call with
    | bindPool name pool =>
      have frame : (topologyBindPool r.topology name pool).2.links = r.topology.links := by
        unfold topologyBindPool
        grind
      simpa only [Registry.call, Topology.call, frame] using seated
    | bindTransport name transport =>
      have frame :
          (topologyBindTransport r.topology name transport).2.links = r.topology.links := by
        unfold topologyBindTransport
        grind
      simpa only [Registry.call, Topology.call, frame] using seated
    | registerConfig config policy =>
      refine registerConfig_keeps seated ?_
      rw [copied]
      exact spares
    | loadString text allocated policy =>
      simp only [Registry.call, Topology.call]
      rcases loadString_registers r.topology text allocated policy with registers | ⟨same, -⟩
      · rw [registers]
        refine registerConfig_keeps seated ?_
        rw [copied]
        exact spares
      · rwa [same]
  | register definitions =>
    simpa only [Registry.call, (topologyRegister_legacy definitions).1] using seated
  | reset => exact absurd spares id

/-- The call registers the links: as a configuration, or as a text that writes them down. -/
inductive Declares (t : Topology Pool Transport) (config : List TopologyLinkConfig) :
    TopologyCall Pool Transport → Prop where
  | config {policy : TopologyPolicy}
      (ok : (topologyRegisterConfig t (some config) policy).1 = .ok) :
      Declares t config (.registerConfig (some config) policy)
  | text {text : CString} {policy : TopologyPolicy} (written : Renders config text)
      (renderable : ∀ l ∈ config, l.Renderable)
      (accepted : topologyValidate t (some config) = .ok)
      (ok : (topologyLoadString t (some text) true policy).1 = .ok) :
      Declares t config (.loadString (some text) true policy)

theorem Declares.registers {call : TopologyCall Pool Transport}
    (declares : Declares t config call) :
    ∃ policy, (topologyRegisterConfig t (some config) policy).1 = .ok ∧
      t.call call = (topologyRegisterConfig t (some config) policy).2 := by
  cases declares with
  | config ok => exact ⟨_, ok, rfl⟩
  | @text text policy written renderable accepted ok =>
    have well := topologyValidate_iff.mp accepted
    have read := written.parse well renderable
    have declares : declared (some text) = config := by
      cases text with
      | nil =>
        cases read
        exact absurd well.count.1 (by decide)
      | cons c text => simp [declared, read]
    rcases loadString_registers t (some text) true policy with registers | ⟨-, refused⟩
    · rw [declares] at registers
      rw [registers] at ok
      exact ⟨policy, ok, congrArg Prod.snd registers⟩
    · exact absurd ok refused

end Declared

end Zipc
