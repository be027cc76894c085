import Coral.Library.Machine
import Coral.Proofs.StoreCalls
import Coral.Worker.ToolProvider

/-! A call that is allowed reaches a server that one of the caller's definitions resolves
to: a name's owners are those of the one server that got the name. -/

namespace Coral.Worker.Proofs
open Coral.Library

section Specs

/-- The row is of a server with this key. -/
def Resolves (row : ToolRecord) (key : McpSpecKey) : Bool := row.kind = "mcp" ∧ (mcpSpecKey row).toOption = some key

/-- The specs after these rows. -/
structure Collected (rows : List ToolRecord) (state : SpecIndex) : Prop where
  index : ∀ key (i : Nat), state.index.lookup key = some i ↔ ∃ spec, state.specs[i]? = some spec ∧ spec.key = key
  defIds : ∀ spec ∈ state.specs, spec.defIds = (rows.filter (Resolves · spec.key)).map (·.defId)
  covered : ∀ row ∈ rows, row.kind = "mcp" → ∃ spec ∈ state.specs, mcpSpecKey row = .ok spec.key

variable {rows : List ToolRecord} {state : SpecIndex} {row : ToolRecord} {key : McpSpecKey}

theorem resolves_iff (parsed : mcpSpecKey row = .ok key) (kind : row.kind = "mcp") {other : McpSpecKey} :
    Resolves row other = true ↔ other = key := by
  unfold Resolves
  rw [parsed]
  simp [kind, Except.toOption, eq_comm]

/-- The specs of one key are at one place. -/
theorem Collected.unique (collected : Collected rows state) {i j : Nat} {first second : McpServerSpec}
    (here : state.specs[i]? = some first) (there : state.specs[j]? = some second) (same : first.key = second.key) : i = j := by
  have found := (collected.index second.key i).mpr ⟨first, here, same⟩
  have again := (collected.index second.key j).mpr ⟨second, there, rfl⟩
  exact Option.some.inj (found.symm.trans again)

theorem Collected.keys_nodup (collected : Collected rows state) : (state.specs.map McpServerSpec.key).Nodup := by
  rw [List.nodup_iff_getElem?_ne_getElem?]
  intro i j less below same
  rw [List.length_map] at below
  rw [List.getElem?_map, List.getElem?_map, List.getElem?_eq_getElem (less.trans below), List.getElem?_eq_getElem below] at same
  have := collected.unique (List.getElem?_eq_getElem (less.trans below)) (List.getElem?_eq_getElem below) (Option.some.inj same)
  omega

theorem filter_resolves (parsed : mcpSpecKey row = .ok key) (kind : row.kind = "mcp") (rows : List ToolRecord)
    (other : McpSpecKey) :
    ((rows ++ [row]).filter (Resolves · other)).map (·.defId) =
      (rows.filter (Resolves · other)).map (·.defId) ++ if other = key then [row.defId] else [] := by
  rw [List.filter_append, List.map_append]
  by_cases same : other = key
  · have resolves := (resolves_iff parsed kind).mpr same
    subst same
    simp [resolves]
  · have differs : Resolves row other = false := by
      rw [Bool.eq_false_iff]
      exact fun resolves => same ((resolves_iff parsed kind).mp resolves)
    simp [differs, same]

/-- One more definition for the spec at a place. -/
def Merged (specs : List McpServerSpec) (i : Nat) (defId : String) : List McpServerSpec :=
  specs.modify i fun spec => { spec with defIds := spec.defIds ++ [defId] }

theorem getElem?_merged {specs : List McpServerSpec} {i j : Nat} {defId : String} {spec : McpServerSpec} :
    (Merged specs i defId)[j]? = some spec ↔ ∃ old, specs[j]? = some old ∧ spec.key = old.key ∧
      spec.defIds = old.defIds ++ if i = j then [defId] else [] := by
  unfold Merged
  rw [List.getElem?_modify]
  constructor
  · intro there
    obtain ⟨old, before, rfl⟩ := Option.map_eq_some_iff.mp there
    refine ⟨old, before, ?_⟩
    split
    · exact ⟨rfl, rfl⟩
    · exact ⟨rfl, (List.append_nil _).symm⟩
  · rintro ⟨old, before, same, defIds⟩
    rw [before]
    obtain ⟨command, args, env, _⟩ := spec
    obtain ⟨rfl, rest⟩ := Prod.mk.inj same
    obtain ⟨rfl, rfl⟩ := Prod.mk.inj rest
    simp only at defIds
    subst defIds
    split
    · rfl
    · simp

theorem Collected.merge (collected : Collected rows state) (kind : row.kind = "mcp") (parsed : mcpSpecKey row = .ok key)
    {i : Nat} (found : state.index.lookup key = some i) :
    Collected (rows ++ [row]) { state with specs := Merged state.specs i row.defId } := by
  obtain ⟨spec, here, same⟩ := (collected.index key i).mp found
  have kept : ∀ {old}, old ∈ state.specs → ∃ spec ∈ Merged state.specs i row.defId, spec.key = old.key := by
    intro old member
    obtain ⟨j, there⟩ := List.mem_iff_getElem?.mp member
    exact ⟨{ old with defIds := old.defIds ++ if i = j then [row.defId] else [] }, List.mem_of_getElem? (getElem?_merged.mpr ⟨old, there, rfl, rfl⟩), rfl⟩
  constructor
  · intro other j
    rw [collected.index other j]
    constructor
    · rintro ⟨old, there, rfl⟩
      exact ⟨{ old with defIds := old.defIds ++ if i = j then [row.defId] else [] }, getElem?_merged.mpr ⟨old, there, rfl, rfl⟩, rfl⟩
    · rintro ⟨merged, there, rfl⟩
      obtain ⟨old, before, same, -⟩ := getElem?_merged.mp there
      exact ⟨old, before, same.symm⟩
  · intro merged member
    obtain ⟨j, there⟩ := List.mem_iff_getElem?.mp member
    obtain ⟨old, before, keyed, defIds⟩ := getElem?_merged.mp there
    rw [defIds, keyed, filter_resolves parsed kind, ← collected.defIds old (List.mem_of_getElem? before)]
    by_cases at_place : i = j
    · subst at_place
      obtain rfl : old = spec := Option.some.inj (before.symm.trans here)
      rw [if_pos rfl, if_pos same]
    · rw [if_neg at_place, if_neg]
      exact fun again => at_place (collected.unique here before (same.trans again.symm))
  · intro other member mcp
    rcases List.mem_append.mp member with earlier | last
    · obtain ⟨old, among, resolved⟩ := collected.covered other earlier mcp
      obtain ⟨merged, present, keyed⟩ := kept among
      exact ⟨merged, present, by rw [keyed, resolved]⟩
    · obtain ⟨merged, present, keyed⟩ := kept (List.mem_of_getElem? here)
      rw [List.mem_singleton.mp last, parsed]
      exact ⟨merged, present, by rw [keyed, same]⟩

theorem Collected.append (collected : Collected rows state) (kind : row.kind = "mcp") (parsed : mcpSpecKey row = .ok key)
    (missing : state.index.lookup key = none) {spec : McpServerSpec} (keyed : spec.key = key) (defIds : spec.defIds = [row.defId]) :
    Collected (rows ++ [row]) ⟨state.index.insert key state.specs.length, state.specs ++ [spec]⟩ := by
  have unused : ∀ old ∈ state.specs, old.key ≠ key := by
    intro old member same
    obtain ⟨j, there⟩ := List.mem_iff_getElem?.mp member
    have found := (collected.index key j).mpr ⟨old, there, same⟩
    rw [missing] at found
    cases found
  constructor
  · intro other j
    by_cases same : other = key
    · subst same
      rw [AList.lookup_insert]
      constructor
      · intro placed
        obtain rfl := Option.some.inj placed
        exact ⟨spec, List.getElem?_concat_length, keyed⟩
      · rintro ⟨found, there, again⟩
        rcases Nat.lt_or_ge j state.specs.length with below | beyond
        · rw [List.getElem?_append_left below] at there
          exact (unused found (List.mem_of_getElem? there) again).elim
        · have := (List.getElem?_eq_some_iff.mp there).1
          rw [List.length_append, List.length_singleton] at this
          rw [show j = state.specs.length by omega]
    · rw [AList.lookup_insert_ne same, collected.index other j]
      constructor
      · rintro ⟨old, there, again⟩
        refine ⟨old, ?_, again⟩
        rw [List.getElem?_append_left (List.getElem?_eq_some_iff.mp there).1]
        exact there
      · rintro ⟨found, there, again⟩
        rcases Nat.lt_or_ge j state.specs.length with below | beyond
        · rw [List.getElem?_append_left below] at there
          exact ⟨found, there, again⟩
        · rw [List.getElem?_append_right beyond] at there
          have last := List.mem_singleton.mp (List.mem_of_getElem? there)
          rw [last, keyed] at again
          exact (same again.symm).elim
  · intro found member
    rw [filter_resolves parsed kind]
    rcases List.mem_append.mp member with earlier | last
    · rw [if_neg (unused found earlier), List.append_nil]
      exact collected.defIds found earlier
    · rw [List.mem_singleton.mp last, keyed, defIds, if_pos rfl, List.filter_eq_nil_iff.mpr]
      · rfl
      · intro other among resolves
        unfold Resolves at resolves
        obtain ⟨mcp, own⟩ := of_decide_eq_true resolves
        obtain ⟨old, present, resolved⟩ := collected.covered other among mcp
        rw [resolved] at own
        exact unused old present (Option.some.inj own)
  · intro other member mcp
    rcases List.mem_append.mp member with earlier | last
    · obtain ⟨old, among, resolved⟩ := collected.covered other earlier mcp
      exact ⟨old, List.mem_append_left _ among, resolved⟩
    · rw [List.mem_singleton.mp last, parsed]
      exact ⟨spec, List.mem_append_right _ List.mem_cons_self, by rw [keyed]⟩

theorem Collected.add (collected : Collected rows state) (kind : row.kind = "mcp") (parsed : mcpSpecKey row = .ok key) :
    Collected (rows ++ [row]) (state.add key row.defId) := by
  unfold SpecIndex.add
  split
  · rename_i i found
    exact collected.merge kind parsed found
  · rename_i missing
    exact collected.append kind parsed missing rfl rfl

theorem Collected.skip (collected : Collected rows state) (kind : row.kind ≠ "mcp") : Collected (rows ++ [row]) state where
  index := collected.index
  defIds := by
    intro spec member
    have other : Resolves row spec.key = false := by
      unfold Resolves
      simp [kind]
    simpa [other] using collected.defIds spec member
  covered := by
    intro other member mcp
    rcases List.mem_append.mp member with earlier | last
    · exact collected.covered other earlier mcp
    · rw [List.mem_singleton.mp last] at mcp
      exact (kind mcp).elim

theorem collectSpecs_ok {after : SpecIndex} {more : List ToolRecord} (collected : Collected rows state)
    (ended : collectSpecs state more = .ok after) : Collected (rows ++ more) after := by
  induction more generalizing rows state with
  | nil =>
    cases ended
    rw [List.append_nil]
    exact collected
  | cons row more ih =>
    rw [List.append_cons]
    unfold collectSpecs at ended
    split at ended
    · rename_i kind
      exact ih (collected.skip kind) ended
    · rename_i kind
      split at ended
      · cases ended
      · rename_i key parsed
        exact ih (collected.add (not_not.mp kind) parsed) ended

theorem mcpSpecsFromRows_ok {specs : List McpServerSpec} (parsed : mcpSpecsFromRows rows = .ok specs) :
    ∃ index, Collected rows ⟨index, specs⟩ := by
  unfold mcpSpecsFromRows at parsed
  cases ended : collectSpecs ⟨∅, []⟩ rows with
  | error error =>
    rw [ended] at parsed
    cases parsed
  | ok after =>
    rw [ended] at parsed
    cases parsed
    have start : Collected [] ⟨∅, []⟩ := ⟨by simp, nofun, nofun⟩
    exact ⟨after.index, collectSpecs_ok start ended⟩

end Specs

section Registration

variable {registry after : ToolRegistry} {descriptors : List (String × Tool)} {outcome : McpRegistration} {name : String}

def ownersOf (registry : ToolRegistry) (name : String) : List String := (registry.owners.lookup name).getD []

/-- The descriptor of this name that comes first. -/
def descriptor (descriptors : List (String × Tool)) (name : String) : Option Tool :=
  (descriptors.find? fun descriptor => decide (descriptor.1 = name)).map (·.2)

theorem descriptor_cons (own : String) (tool : Tool) (descriptors : List (String × Tool)) (name : String) :
    descriptor ((own, tool) :: descriptors) name = if own = name then some tool else descriptor descriptors name := by
  unfold descriptor
  rw [List.find?_cons]
  by_cases same : own = name <;> simp [same]

theorem mem_owners_recordOwner (registry : ToolRegistry) (own defId name other : String) :
    other ∈ ownersOf (registry.recordOwner own defId) name ↔ other ∈ ownersOf registry name ∨ name = own ∧ other = defId := by
  unfold ownersOf ToolRegistry.recordOwner
  by_cases same : name = own
  · subst same
    simp only [AList.lookup_insert, Option.getD_some]
    split <;> simp_all
  · simp only [AList.lookup_insert_ne same, same, false_and, or_false]

/-- What recording owners leaves as it is. -/
theorem recordOwners_tools (own : String) (defIds : List String) (registry : ToolRegistry) :
    (defIds.foldl (·.recordOwner own ·) registry).tools = registry.tools := by
  induction defIds generalizing registry with
  | nil => rfl
  | cons defId defIds ih => exact ih (registry.recordOwner own defId)

theorem mem_owners_recordOwners (own : String) (defIds : List String) (registry : ToolRegistry) (name other : String) :
    other ∈ ownersOf (defIds.foldl (·.recordOwner own ·) registry) name ↔
      other ∈ ownersOf registry name ∨ name = own ∧ other ∈ defIds := by
  induction defIds generalizing registry with
  | nil => simp
  | cons defId defIds ih =>
    rw [List.foldl_cons, ih, mem_owners_recordOwner, List.mem_cons]
    tauto

theorem attributed_tools (names defIds : List String) (registry : ToolRegistry) :
    (names.foldl (fun after name => defIds.foldl (·.recordOwner name ·) after) registry).tools = registry.tools := by
  induction names generalizing registry with
  | nil => rfl
  | cons own names ih => rw [List.foldl_cons, ih, recordOwners_tools]

theorem mem_owners_attributed (names defIds : List String) (registry : ToolRegistry) (name other : String) :
    other ∈ ownersOf (names.foldl (fun after name => defIds.foldl (·.recordOwner name ·) after) registry) name ↔
      other ∈ ownersOf registry name ∨ name ∈ names ∧ other ∈ defIds := by
  induction names generalizing registry with
  | nil => simp
  | cons own names ih =>
    rw [List.foldl_cons, ih, mem_owners_recordOwners, List.mem_cons]
    tauto

/-- A name goes to the tool that it has already, or else to the first descriptor of it. -/
theorem registerMcpServer_ok (ended : registry.registerMcpServerSkippingExisting descriptors = .ok (after, outcome)) :
    after.owners = registry.owners ∧
      (∀ name, after.tools.lookup name = (registry.tools.lookup name).or (descriptor descriptors name)) ∧
      ∀ name, name ∈ outcome.registered ↔ registry.tools.lookup name = none ∧ (descriptor descriptors name).isSome = true := by
  induction descriptors generalizing registry after outcome with
  | nil =>
    cases ended
    exact ⟨rfl, fun name => by simp [descriptor], fun name => by simp [descriptor]⟩
  | cons head descriptors ih =>
    obtain ⟨own, tool⟩ := head
    unfold ToolRegistry.registerMcpServerSkippingExisting at ended
    split at ended
    · rename_i taken
      cases rest : registry.registerMcpServerSkippingExisting descriptors with
      | error error =>
        rw [rest] at ended
        cases ended
      | ok result =>
        rw [rest] at ended
        cases ended
        obtain ⟨owned, tools, registered⟩ := ih rest
        have known : (registry.tools.lookup own).isSome = true := taken
        refine ⟨owned, ?_, ?_⟩
        · intro name
          rw [tools, descriptor_cons]
          split
          · rename_i same
            subst same
            obtain ⟨tool, found⟩ := Option.isSome_iff_exists.mp known
            rw [found]
            rfl
          · rfl
        · intro name
          rw [registered, descriptor_cons]
          split
          · rename_i same
            subst same
            simp [Option.isSome_iff_ne_none.mp known]
          · rfl
    · rename_i untaken
      have unknown : registry.tools.lookup own = none := by
        unfold ToolRegistry.contains at untaken
        simpa using untaken
      unfold ToolRegistry.register at ended
      rw [if_neg untaken] at ended
      cases rest : ({ registry with tools := registry.tools.insert own tool } : ToolRegistry).registerMcpServerSkippingExisting
          descriptors with
      | error error =>
        simp only [bind, Except.bind, rest] at ended
        cases ended
      | ok result =>
        simp only [bind, Except.bind, rest] at ended
        cases ended
        obtain ⟨owned, tools, registered⟩ := ih rest
        refine ⟨owned, ?_, ?_⟩
        · intro name
          rw [tools, descriptor_cons]
          by_cases same : own = name
          · subst same
            simp [AList.lookup_insert, unknown]
          · rw [AList.lookup_insert_ne (Ne.symm same), if_neg same]
        · intro name
          rw [List.mem_cons, registered, descriptor_cons]
          by_cases same : own = name
          · subst same
            simp [unknown]
          · rw [AList.lookup_insert_ne (Ne.symm same), if_neg same]
            simp [Ne.symm same]

end Registration

section Servers

variable {connect : Connect} {specs : List McpServerSpec} {registry after : ToolRegistry} {name : String}

/-- The tools that a server advertises, once it has been connected to. -/
def advertised (connect : Connect) (spec : McpServerSpec) : List (String × Tool) :=
  match connect spec.command spec.args spec.env with
  | .error _ => []
  | .ok client => client.listTools.toOption.getD []

/-- The first server that advertises the name. -/
def provides (connect : Connect) (specs : List McpServerSpec) (name : String) : Option (McpServerSpec × Tool) :=
  specs.findSome? fun spec => (descriptor (advertised connect spec) name).map fun tool => (spec, tool)

/-- The registry after these servers. -/
structure Served (connect : Connect) (specs : List McpServerSpec) (registry : ToolRegistry) : Prop where
  tools : ∀ name, registry.tools.lookup name = (provides connect specs name).map (·.2)
  owners : ∀ name defId, defId ∈ ownersOf registry name ↔
    ∃ found, provides connect specs name = some found ∧ defId ∈ found.1.defIds

theorem provides_append (spec : McpServerSpec) : provides connect (specs ++ [spec]) name =
    (provides connect specs name).or ((descriptor (advertised connect spec) name).map fun tool => (spec, tool)) := by
  unfold provides
  rw [List.findSome?_append]
  congr 1
  simp only [List.findSome?_cons, List.findSome?_nil]
  split <;> simp_all

theorem Served.server (served : Served connect specs registry) {spec : McpServerSpec}
    (ended : registry.ofServers [(spec.defIds, advertised connect spec)] = .ok after) : Served connect (specs ++ [spec]) after := by
  unfold ToolRegistry.ofServers at ended
  cases registering : registry.registerMcpServerSkippingExisting (advertised connect spec) with
  | error error =>
    rw [registering] at ended
    cases ended
  | ok result =>
    obtain ⟨middle, outcome⟩ := result
    rw [registering] at ended
    cases ended
    obtain ⟨owned, tools, registered⟩ := registerMcpServer_ok registering
    constructor
    · intro name
      rw [attributed_tools, tools, served.tools, provides_append]
      cases provides connect specs name with
      | some found => rfl
      | none => cases descriptor (advertised connect spec) name <;> rfl
    · intro name defId
      have before : ownersOf middle name = ownersOf registry name := by
        unfold ownersOf
        rw [owned]
      rw [mem_owners_attributed, before, served.owners, registered, served.tools, provides_append]
      cases provides connect specs name with
      | some found => simp
      | none => cases descriptor (advertised connect spec) name <;> simp

theorem withContext_ok {α : Type} {context : String} {result : Except String α} {value : α}
    (ended : withContext context result = .ok value) : result = .ok value := by
  cases result with
  | error error => cases ended
  | ok found => exact ended

theorem registerServers_ok {before : List McpServerSpec} (served : Served connect before registry)
    (ended : registerServers connect registry specs = .ok after) : Served connect (before ++ specs) after := by
  induction specs generalizing before registry with
  | nil =>
    cases ended
    rw [List.append_nil]
    exact served
  | cons spec specs ih =>
    unfold registerServers at ended
    obtain ⟨client, connected, ended⟩ := Coral.Proofs.bind_ok ended
    obtain ⟨middle, own, rest⟩ := Coral.Proofs.bind_ok ended
    obtain ⟨descriptors, listed, own⟩ := Coral.Proofs.bind_ok (withContext_ok own)
    have all : advertised connect spec = descriptors := by
      unfold advertised
      rw [withContext_ok connected]
      simp only [listed]
      rfl
    rw [← all] at own
    rw [List.append_cons]
    exact ih (served.server own) rest

/-- A call by this name is a call of this tool. -/
def Runs (registry : ToolRegistry) (name : String) (tool : Tool) : Prop :=
  ∀ args now, registry.call name args now = (tool args).map fun result => .new name args result now

theorem runs_of_lookup {tool : Tool} (found : registry.tools.lookup name = some tool) : Runs registry name tool := by
  intro args now
  unfold ToolRegistry.call
  simp only [found]
  cases tool args <;> rfl

theorem isCallAllowed_iff {allowed : List String} :
    registry.isCallAllowed name allowed = true ↔ ∃ defId ∈ ownersOf registry name, defId ∈ allowed := by
  unfold ToolRegistry.isCallAllowed ownersOf
  cases registry.owners.lookup name <;> simp

theorem mem_builtinEchoDefIds {rows : List ToolRecord} {defId : String} : defId ∈ builtinEchoDefIds rows ↔
    ∃ row ∈ rows, row.kind = "builtin" ∧ row.command = some "echo" ∧ row.defId = defId := by
  unfold builtinEchoDefIds
  simp [and_assoc]

/-- The builtin is registered exactly where no server advertises its name. -/
theorem buildRegistry_ok {rows : List ToolRecord} (parsed : mcpSpecsFromRows rows = .ok specs)
    (built : buildRegistry connect (.ok rows) = .ok registry) :
    ∃ served, Served connect specs served ∧ ((∃ found, provides connect specs "echo" = some found ∧ registry = served) ∨
      (provides connect specs "echo" = none ∧ registry = (builtinEchoDefIds rows).foldl (·.recordOwner "echo" ·)
        { served with tools := served.tools.insert "echo" echoTool })) := by
  unfold buildRegistry at built
  obtain ⟨_, same, built⟩ := Coral.Proofs.bind_ok built
  obtain rfl := Except.ok.inj (withContext_ok same)
  obtain ⟨_, again, built⟩ := Coral.Proofs.bind_ok built
  obtain rfl := Except.ok.inj (parsed.symm.trans again)
  obtain ⟨served, registered, built⟩ := Coral.Proofs.bind_ok built
  have start : Served connect [] .new := ⟨fun _ => rfl, fun name defId => by simp [ownersOf, ToolRegistry.new, provides]⟩
  have whole := registerServers_ok start registered
  refine ⟨served, whole, ?_⟩
  have echo := whole.tools "echo"
  split at built
  · rename_i present
    unfold ToolRegistry.contains at present
    cases provided : provides connect specs "echo" with
    | some found => exact .inl ⟨found, rfl, (Except.ok.inj built).symm⟩
    | none =>
      rw [List.nil_append, provided] at echo
      rw [echo] at present
      cases present
  · rename_i absent
    obtain ⟨withEcho, own, built⟩ := Coral.Proofs.bind_ok built
    have own := withContext_ok own
    unfold ToolRegistry.register at own
    rw [if_neg absent] at own
    cases own
    cases built
    refine .inr ⟨?_, rfl⟩
    unfold ToolRegistry.contains at absent
    rw [List.nil_append] at echo
    rw [echo] at absent
    simpa using absent

/-- Each row of a server is of the one spec with its key, and an allowed call is one of the
tool of a server that an allowed definition resolves to, or of the builtin that one declares. -/
theorem dispatch_scoped (connect : Connect) {rows : List ToolRecord} (parsed : mcpSpecsFromRows rows = .ok specs) :
    (specs.map McpServerSpec.key).Nodup ∧
    (∀ row ∈ rows, row.kind = "mcp" → ∃ spec ∈ specs, mcpSpecKey row = .ok spec.key ∧ row.defId ∈ spec.defIds) ∧
    ((rows.map (·.defId)).Nodup → ∀ row ∈ rows, row.kind = "mcp" → ∀ spec ∈ specs,
      row.defId ∈ spec.defIds ↔ mcpSpecKey row = .ok spec.key) ∧
    ∀ registry, buildRegistry connect (.ok rows) = .ok registry →
      ∀ name allowed, registry.isCallAllowed name allowed = true →
        (∃ spec ∈ specs, ∃ tool, provides connect specs name = some (spec, tool) ∧ Runs registry name tool ∧
          ∃ defId ∈ spec.defIds, defId ∈ allowed) ∨
        (name = "echo" ∧ provides connect specs name = none ∧ Runs registry name echoTool ∧
          ∃ row ∈ rows, row.kind = "builtin" ∧ row.command = some "echo" ∧ row.defId ∈ allowed) := by
  obtain ⟨index, collected⟩ := mcpSpecsFromRows_ok parsed
  have defIds : ∀ {row}, row ∈ rows → row.kind = "mcp" → ∀ {spec}, spec ∈ specs → mcpSpecKey row = .ok spec.key →
      row.defId ∈ spec.defIds := by
    intro row member kind spec among resolved
    rw [collected.defIds spec among]
    exact List.mem_map_of_mem (List.mem_filter.mpr ⟨member, (resolves_iff resolved kind).mpr rfl⟩)
  refine ⟨collected.keys_nodup, ?_, ?_, ?_⟩
  · intro row member kind
    obtain ⟨spec, among, resolved⟩ := collected.covered row member kind
    exact ⟨spec, among, resolved, defIds member kind among resolved⟩
  · intro distinct row member kind spec among
    refine ⟨?_, defIds member kind among⟩
    intro listed
    rw [collected.defIds spec among] at listed
    obtain ⟨other, also, same⟩ := List.mem_map.mp listed
    obtain ⟨present, resolves⟩ := List.mem_filter.mp also
    obtain rfl : other = row := List.inj_on_of_nodup_map distinct present member same
    obtain ⟨found, there, resolved⟩ := collected.covered other member kind
    rw [(resolves_iff resolved kind).mp resolves]
    exact resolved
  · intro registry built name allowed permitted
    obtain ⟨defId, owner, granted⟩ := isCallAllowed_iff.mp permitted
    have server : ∀ {served : ToolRegistry}, Served connect specs served → ∀ {found}, provides connect specs name = some found →
        defId ∈ ownersOf served name → found.1 ∈ specs ∧ served.tools.lookup name = some found.2 ∧ defId ∈ found.1.defIds := by
      intro served whole found provided owns
      refine ⟨?_, by rw [whole.tools, provided]; rfl, ?_⟩
      · obtain ⟨spec, among, here⟩ := List.exists_of_findSome?_eq_some provided
        obtain ⟨tool, -, rfl⟩ := Option.map_eq_some_iff.mp here
        exact among
      · obtain ⟨again, same, owned⟩ := (whole.owners name defId).mp owns
        obtain rfl := Option.some.inj (provided.symm.trans same)
        exact owned
    obtain ⟨served, whole, ⟨-, -, rfl⟩ | ⟨unprovided, rfl⟩⟩ := buildRegistry_ok parsed built
    · obtain ⟨found, provided, -⟩ := (whole.owners name defId).mp owner
      obtain ⟨among, lookup, owned⟩ := server whole provided owner
      exact .inl ⟨found.1, among, found.2, provided, runs_of_lookup lookup, defId, owned, granted⟩
    · have lookup : ∀ other, other ≠ "echo" → ((builtinEchoDefIds rows).foldl (·.recordOwner "echo" ·)
          { served with tools := served.tools.insert "echo" echoTool } : ToolRegistry).tools.lookup other =
            served.tools.lookup other := by
        intro other differs
        rw [recordOwners_tools]
        exact AList.lookup_insert_ne differs
      rw [mem_owners_recordOwners] at owner
      rcases owner with served_owner | ⟨rfl, declared⟩
      · have before : defId ∈ ownersOf served name := served_owner
        obtain ⟨found, provided, -⟩ := (whole.owners name defId).mp before
        have differs : name ≠ "echo" := by
          rintro rfl
          rw [unprovided] at provided
          cases provided
        obtain ⟨among, known, owned⟩ := server whole provided before
        exact .inl ⟨found.1, among, found.2, provided, runs_of_lookup ((lookup name differs).trans known), defId, owned, granted⟩
      · obtain ⟨row, member, kind, command, rfl⟩ := mem_builtinEchoDefIds.mp declared
        refine .inr ⟨rfl, unprovided, runs_of_lookup ?_, row, member, kind, command, granted⟩
        rw [recordOwners_tools]
        exact AList.lookup_insert _

end Servers

section Provider

/-- A request for a graph's registry: its rows as the database returns them then, and the
servers as they answer then. -/
structure RegistryRequest where
  graphId : GraphId
  listed : Except String (List ToolRecord)
  connect : Connect

def providing : Machine DbToolRegistryProvider RegistryRequest (GraphId × ToolRegistry) :=
  ⟨fun provider request =>
    match provider.registryForGraph request.connect request.listed request.graphId with
    | (.error _, after) => some (after, [])
    | (.ok registry, after) => some (after, [(request.graphId, registry)])⟩

def BuiltFor (requests : List RegistryRequest) (handed : GraphId × ToolRegistry) : Prop :=
  ∃ request ∈ requests, request.graphId = handed.1 ∧ buildRegistry request.connect request.listed = .ok handed.2

/-- A graph is only ever handed a registry that was built from rows of its own. -/
theorem handed_registry_built {final : DbToolRegistryProvider} {requests : List RegistryRequest}
    {handed : List (GraphId × ToolRegistry)} (ran : providing.run ⟨∅⟩ requests = some (final, handed)) :
    ∀ registry ∈ handed, BuiltFor requests registry := by
  have whole : (∀ graphId registry, final.cache.lookup graphId = some registry → BuiltFor requests (graphId, registry)) ∧
      ∀ registry ∈ handed, BuiltFor requests registry := by
    refine providing.history_invariant (fun requests provider handed =>
      (∀ graphId registry, provider.cache.lookup graphId = some registry → BuiltFor requests (graphId, registry)) ∧
        ∀ registry ∈ handed, BuiltFor requests registry) ⟨?_, nofun⟩ ?_ ran
    · intro graphId registry cached
      cases cached
    intro requests provider handed request next more held stepped
    have grown : ∀ {registry}, BuiltFor requests registry → BuiltFor (requests ++ [request]) registry := by
      rintro registry ⟨earlier, member, built⟩
      exact ⟨earlier, List.mem_append_left _ member, built⟩
    unfold providing DbToolRegistryProvider.registryForGraph at stepped
    simp only at stepped
    split at stepped
    · rename_i after outcome
      obtain ⟨rfl, rfl⟩ := Prod.mk.inj (Option.some.inj stepped)
      split at outcome
      · cases outcome
      · split at outcome
        · cases outcome
          exact ⟨fun graphId registry cached => grown (held.1 graphId registry cached),
            by simpa using fun graphId registry member => grown (held.2 (graphId, registry) member)⟩
        · cases outcome
    · rename_i registry after outcome
      obtain ⟨rfl, rfl⟩ := Prod.mk.inj (Option.some.inj stepped)
      split at outcome
      · rename_i existing cached
        cases outcome
        refine ⟨fun graphId registry cached => grown (held.1 graphId registry cached), List.forall_mem_append.mpr ⟨?_, ?_⟩⟩
        · exact fun registry member => grown (held.2 registry member)
        · exact List.forall_mem_singleton.mpr (grown (held.1 _ _ cached))
      · split at outcome
        · cases outcome
        · rename_i built
          cases outcome
          have own : BuiltFor (requests ++ [request]) (request.graphId, registry) :=
            ⟨request, List.mem_append_right _ List.mem_cons_self, rfl, built⟩
          refine ⟨?_, List.forall_mem_append.mpr ⟨fun registry member => grown (held.2 registry member),
            List.forall_mem_singleton.mpr own⟩⟩
          intro graphId other cached
          by_cases same : graphId = request.graphId
          · subst same
            rw [AList.lookup_insert] at cached
            rw [← Option.some.inj cached]
            exact own
          · rw [AList.lookup_insert_ne same] at cached
            exact grown (held.1 graphId other cached)
  exact whole.2

end Provider

section Examples

private def tooling (defId kind command : String) (env : List (String × Json)) : ToolRecord :=
  ⟨⟨⟨0⟩⟩, defId, kind, some command, .array [.string "--json"], .object env⟩

private def rows : List ToolRecord :=
  [tooling "web" "mcp" "mcp-web" [("B", .string "2"), ("A", .string "1")], tooling "say" "builtin" "echo" [],
    tooling "web-alt" "mcp" "mcp-web" [("A", .string "1"), ("B", .string "2")], tooling "files" "mcp" "mcp-files" []]

private def offering : Connect := fun command _ _ =>
  .ok ⟨.ok (if command = "mcp-web" then [("search", fun _ => .ok .null)] else [("search", fun args => .ok args)])⟩

/-- Both definitions of one server own its name; the other server, which advertises it too,
comes second and is not reached. -/
theorem dispatch_scoped_search : ∃ specs registry tool, mcpSpecsFromRows rows = .ok specs ∧ specs.length = 2 ∧
    buildRegistry offering (.ok rows) = .ok registry ∧ registry.isCallAllowed "search" ["web-alt"] = true ∧
    registry.isCallAllowed "search" ["files"] = false ∧ registry.isCallAllowed "echo" ["say"] = true ∧
    ∃ spec ∈ specs, spec.command = "mcp-web" ∧ provides offering specs "search" = some (spec, tool) ∧
      Runs registry "search" tool := by
  have parsed : mcpSpecsFromRows rows = .ok [⟨"mcp-web", ["--json"], [("A", "1"), ("B", "2")], ["web", "web-alt"]⟩,
    ⟨"mcp-files", ["--json"], [], ["files"]⟩] := by decide +kernel
  obtain ⟨registry, built, permitted, refused, echo⟩ : ∃ registry, buildRegistry offering (.ok rows) = .ok registry ∧
      registry.isCallAllowed "search" ["web-alt"] = true ∧ registry.isCallAllowed "search" ["files"] = false ∧
      registry.isCallAllowed "echo" ["say"] = true := ⟨_, rfl, by decide +kernel, by decide +kernel, by decide +kernel⟩
  obtain ⟨-, -, -, reaches⟩ := dispatch_scoped offering parsed
  rcases reaches registry built "search" ["web-alt"] permitted with ⟨spec, among, tool, provided, runs, -⟩ | ⟨named, -⟩
  · refine ⟨_, registry, tool, parsed, rfl, built, permitted, refused, echo, spec, among, ?_, provided, runs⟩
    have first := (Prod.mk.inj (Option.some.inj provided)).1
    rw [← first]
  · exact ((by decide : "search" ≠ "echo") named).elim

end Examples

end Coral.Worker.Proofs
