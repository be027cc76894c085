import Coral.Proofs.ForestWalk
import Mathlib.Data.List.TakeWhile

/-! The graphs that the validator accepts. They are those that the schema documents, but for
the ids of tools, which nobody looks at. -/

namespace Coral.Yaml.Proofs

section Names

/-- `[a-z0-9]`. -/
def Alnum (char : Char) : Prop := 'a' ≤ char ∧ char ≤ 'z' ∨ '0' ≤ char ∧ char ≤ '9'

/-- The texts that `^[a-z0-9]([a-z0-9-]*[a-z0-9])?$` matches. -/
inductive UrlPathSafe : List Char → Prop
  | single {char : Char} (alnum : Alnum char) : UrlPathSafe [char]
  | several {first last : Char} {middle : List Char} (start : Alnum first)
      (between : ∀ char ∈ middle, Alnum char ∨ char = '-') (end_ : Alnum last) : UrlPathSafe (first :: (middle ++ [last]))

private theorem encode_cases (char : Char) :
    (char.toNat < 128 ∧ String.utf8EncodeChar char = [UInt8.ofNat char.toNat]) ∨
      128 ≤ char.toNat ∧ ∀ byte ∈ String.utf8EncodeChar char, 128 ≤ byte.toNat := by
  have bits : char.toNat = char.val.toNat := rfl
  fun_cases String.utf8EncodeChar char
  · rename_i value small
    left
    exact ⟨by omega, rfl⟩
  · rename_i value large _
    right
    refine ⟨by omega, ?_⟩
    simp only [List.mem_cons, List.not_mem_nil, or_false, forall_eq_or_imp, forall_eq, UInt8.toNat_ofNat']
    omega
  · rename_i value large _ _
    right
    refine ⟨by omega, ?_⟩
    simp only [List.mem_cons, List.not_mem_nil, or_false, forall_eq_or_imp, forall_eq, UInt8.toNat_ofNat']
    omega
  · rename_i value large _ _
    right
    refine ⟨by omega, ?_⟩
    simp only [List.mem_cons, List.not_mem_nil, or_false, forall_eq_or_imp, forall_eq, UInt8.toNat_ofNat']
    omega

private theorem bytes_eq (text : String) : text.toUTF8.data.toList = text.toList.flatMap String.utf8EncodeChar := by
  conv => lhs; rw [← String.ofList_toList (s := text)]
  rw [String.toUTF8_eq_toByteArray, String.toByteArray_ofList]
  exact List.toList_data_toByteArray

private theorem alnum_of_byte {char : Char} (ascii : char.toNat < 128) :
    isAlnum (UInt8.ofNat char.toNat) = true ↔ Alnum char := by
  have bytes : (UInt8.ofNat char.toNat).toNat = char.toNat := by
    rw [UInt8.toNat_ofNat']
    omega
  have order : ∀ first second : Char, first ≤ second ↔ first.toNat ≤ second.toNat := fun _ _ => Iff.rfl
  unfold isAlnum Alnum
  simp only [Bool.or_eq_true, Bool.and_eq_true, decide_eq_true_eq, UInt8.le_iff_toNat_le, bytes, order]
  rfl

private theorem hyphen_of_byte {char : Char} (ascii : char.toNat < 128) :
    (UInt8.ofNat char.toNat == 45) = true ↔ char = '-' := by
  rw [beq_iff_eq]
  constructor
  · intro same
    have bytes := congrArg UInt8.toNat same
    rw [UInt8.toNat_ofNat'] at bytes
    apply Char.toNat_inj.mp
    change char.toNat = 45
    have : (45 : UInt8).toNat = 45 := rfl
    omega
  · rintro rfl
    rfl

private theorem alnum_ascii {char : Char} (alnum : Alnum char) : char.toNat < 128 := by
  have order : ∀ first second : Char, first ≤ second ↔ first.toNat ≤ second.toNat := fun _ _ => Iff.rfl
  have bounds : 'z'.toNat = 122 ∧ '9'.toNat = 57 := ⟨rfl, rfl⟩
  rcases alnum with ⟨-, below⟩ | ⟨-, below⟩ <;> rw [order] at below <;> omega

/-- Bytes that may stand in a name are the characters themselves. -/
private theorem bytes_ascii {chars : List Char} (ascii : ∀ char ∈ chars, char.toNat < 128) :
    chars.flatMap String.utf8EncodeChar = chars.map fun char => UInt8.ofNat char.toNat := by
  induction chars with
  | nil => rfl
  | cons char chars ih =>
    rw [List.forall_mem_cons] at ascii
    rw [List.flatMap_cons, ih ascii.2]
    rcases encode_cases char with ⟨-, one⟩ | ⟨large, -⟩
    · rw [one]
      rfl
    · omega

/-- What the check asks of the characters. -/
private def Checked (chars : List Char) : Prop :=
  (∃ first, chars.head? = some first ∧ Alnum first) ∧ (∃ last, chars.getLast? = some last ∧ Alnum last) ∧
    ∀ char ∈ chars, Alnum char ∨ char = '-'

private theorem checked_iff (chars : List Char) : Checked chars ↔ UrlPathSafe chars := by
  constructor
  · intro ⟨⟨first, head, start⟩, ⟨last, ends, alnum⟩, all⟩
    obtain ⟨rest, rfl⟩ := List.head?_eq_some_iff.mp head
    rcases List.eq_nil_or_concat' rest with rfl | ⟨middle, final, rfl⟩
    · exact .single start
    · rw [← List.cons_append, List.getLast?_concat] at ends
      cases ends
      exact .several start (fun char member => all char (by simp [member])) alnum
  · intro safe
    cases safe with
    | single alnum => exact ⟨⟨_, rfl, alnum⟩, ⟨_, rfl, alnum⟩, by simpa using .inl alnum⟩
    | several start between end_ =>
      refine ⟨⟨_, rfl, start⟩, ⟨_, by rw [← List.cons_append, List.getLast?_concat], end_⟩, ?_⟩
      intro char member
      rcases List.mem_cons.mp member with rfl | later
      · exact .inl start
      · rcases List.mem_append.mp later with inner | outer
        · exact between char inner
        · rw [List.mem_singleton.mp outer]
          exact .inl end_

theorem isUrlPathSafeName_iff (text : String) : isUrlPathSafeName text = true ↔ UrlPathSafe text.toList := by
  rw [← checked_iff]
  unfold isUrlPathSafeName
  rw [bytes_eq]
  by_cases ascii : ∀ char ∈ text.toList, char.toNat < 128
  · rw [bytes_ascii ascii]
    dsimp only
    rw [List.head?_map, List.getLast?_map]
    generalize text.toList = chars at ascii
    cases head : chars.head? with
    | none =>
      rw [List.head?_eq_none_iff.mp head]
      simp [Checked]
    | some first =>
      obtain ⟨last, ends⟩ : ∃ last, chars.getLast? = some last := by
        rcases chars.eq_nil_or_concat' with rfl | ⟨front, last, rfl⟩
        · cases head
        · exact ⟨last, List.getLast?_concat⟩
      rw [ends]
      simp only [Option.map_some, Bool.and_eq_true, List.all_map, List.all_eq_true, Function.comp_apply, Bool.or_eq_true]
      unfold Checked
      rw [head, ends, alnum_of_byte (ascii first (List.mem_of_head? head)),
        alnum_of_byte (ascii last (List.mem_of_getLast? ends)), and_assoc]
      simp only [Option.some.injEq, exists_eq_left']
      apply and_congr_right
      intro _
      apply and_congr_right
      intro _
      apply forall₂_congr
      intro char member
      rw [alnum_of_byte (ascii char member), hyphen_of_byte (ascii char member)]
  · refine iff_of_false ?_ ?_
    · push Not at ascii
      obtain ⟨char, member, large⟩ := ascii
      intro safe
      have all : ∀ byte ∈ text.toList.flatMap String.utf8EncodeChar, isAlnum byte = true ∨ (byte == 45) = true := by
        dsimp only at safe
        split at safe
        · simp only [Bool.and_eq_true, List.all_eq_true, Bool.or_eq_true] at safe
          exact safe.2
        · cases safe
      obtain ⟨byte, rest, bytes⟩ := List.exists_cons_of_ne_nil (@String.utf8EncodeChar_ne_nil char)
      have here : byte ∈ String.utf8EncodeChar char := by rw [bytes]; exact List.mem_cons_self
      rcases encode_cases char with ⟨small, -⟩ | ⟨-, high⟩
      · omega
      · have above := high byte here
        rcases all byte (List.mem_flatMap.mpr ⟨char, member, here⟩) with alnum | hyphen
        · unfold isAlnum at alnum
          simp only [Bool.or_eq_true, Bool.and_eq_true, decide_eq_true_eq, UInt8.le_iff_toNat_le] at alnum
          have bounds : (122 : UInt8).toNat = 122 ∧ (57 : UInt8).toNat = 57 := ⟨rfl, rfl⟩
          omega
        · rw [beq_iff_eq.mp hyphen] at above
          exact absurd above (by decide)
    · intro ⟨_, _, all⟩
      apply ascii
      intro char member
      rcases all char member with alnum | rfl
      · exact alnum_ascii alnum
      · decide

end Names

section Validate

variable {registered : List String} {defaults : Option AgentDefaults}

/-- An agent has a cadence of its own, or there is a default. -/
def HasCadence (defaults : Option AgentDefaults) (agent : Agent) : Prop :=
  (agent.mandate.idlePeriod <|> defaults.bind (·.idlePeriod)).isSome = true

/-- What an agent has to be like by itself. -/
structure AgentFits (registered : List String) (defaults : Option AgentDefaults) (agent : Agent) : Prop where
  name : UrlPathSafe agent.id.toList
  cadence : HasCadence defaults agent
  references : ∀ tool ∈ agent.tools, tool ∈ registered

/-- The walk over some nodes adds their ids to those that were seen. -/
def Walks (registered : List String) (defaults : Option AgentDefaults) (seen : List String)
    (nodes : List (Option String × Agent)) (after : List String) : Prop :=
  after = seen ++ nodes.map (·.2.id) ∧ (seen ++ nodes.map (·.2.id)).Nodup ∧
    ∀ node ∈ nodes, AgentFits registered defaults node.2

theorem walks_append {seen after : List String} {first second : List (Option String × Agent)} :
    Walks registered defaults seen (first ++ second) after ↔
      ∃ middle, Walks registered defaults seen first middle ∧ Walks registered defaults middle second after := by
  unfold Walks
  constructor
  · rintro ⟨rfl, distinct, fit⟩
    rw [List.map_append, ← List.append_assoc] at distinct
    rw [List.forall_mem_append] at fit
    exact ⟨_, ⟨rfl, (List.nodup_append.mp distinct).1, fit.1⟩, by rw [List.map_append, List.append_assoc], distinct, fit.2⟩
  · rintro ⟨_, ⟨rfl, -, here⟩, rfl, distinct, there⟩
    rw [List.map_append, ← List.append_assoc]
    exact ⟨rfl, distinct, List.forall_mem_append.mpr ⟨here, there⟩⟩

/-- A node that was seen before ends the walk. -/
theorem not_walks_of_seen {seen after : List String} {node : Option String × Agent}
    {nodes : List (Option String × Agent)} (before : node.2.id ∈ seen) :
    ¬ Walks registered defaults seen (node :: nodes) after := by
  rintro ⟨-, distinct, -⟩
  exact (List.nodup_append.mp distinct).2.2 _ before _ List.mem_cons_self rfl

theorem timed_iff {agent : Agent} :
    ¬ (agent.mandate.idlePeriod.isNone ∧ (defaults.bind (·.idlePeriod)).isNone) ↔ HasCadence defaults agent := by
  unfold HasCadence
  cases agent.mandate.idlePeriod with
  | some cadence => simp
  | none => cases defaults.bind (·.idlePeriod) <;> simp

mutual
theorem validateAgentTree_iff {seen after : List String} {parent : Option String} (distinct : seen.Nodup) :
    ∀ {agent : Agent}, validateAgentTree registered defaults seen agent = .ok after ↔
      Walks registered defaults seen (agent.nodes parent) after
  | ⟨id, mandate, tools, children⟩ => by
    have own : Walks registered defaults seen [(parent, ⟨id, mandate, tools, children⟩)] (seen ++ [id]) ↔
        UrlPathSafe id.toList ∧ id ∉ seen ∧
          HasCadence defaults ⟨id, mandate, tools, children⟩ ∧ ∀ tool ∈ tools, tool ∈ registered := by
      unfold Walks
      constructor
      · rintro ⟨-, grown, fit⟩
        obtain ⟨name, cadence, references⟩ := fit _ List.mem_cons_self
        exact ⟨name, fun before => (List.nodup_append.mp grown).2.2 _ before _ List.mem_cons_self rfl, cadence, references⟩
      · rintro ⟨name, unseen, cadence, references⟩
        refine ⟨rfl, distinct.append (List.nodup_singleton _) (List.disjoint_singleton.mpr unseen), ?_⟩
        intro node member
        rw [List.mem_singleton.mp member]
        exact ⟨name, cadence, references⟩
    have below : Walks registered defaults seen (Agent.nodes parent ⟨id, mandate, tools, children⟩) after ↔
        Walks registered defaults seen [(parent, ⟨id, mandate, tools, children⟩)] (seen ++ [id]) ∧
          Walks registered defaults (seen ++ [id]) (forestNodes (some id) children) after := by
      unfold Agent.nodes
      rw [← List.singleton_append, walks_append]
      constructor
      · rintro ⟨_, ⟨rfl, first⟩, rest⟩
        exact ⟨⟨rfl, first⟩, rest⟩
      · exact fun ⟨first, rest⟩ => ⟨_, first, rest⟩
    rw [below, own]
    unfold validateAgentTree
    by_cases name : isUrlPathSafeName id = false
    · rw [if_pos name]
      refine iff_of_false nofun fun ⟨⟨safe, _⟩, _⟩ => ?_
      rw [(isUrlPathSafeName_iff id).mpr safe] at name
      cases name
    · have safe := (isUrlPathSafeName_iff id).mp (by simpa using name)
      rw [if_neg name]
      by_cases before : id ∈ seen
      · rw [if_pos before]
        exact iff_of_false nofun fun ⟨⟨_, unseen, _⟩, _⟩ => unseen before
      · rw [if_neg before]
        by_cases untimed : mandate.idlePeriod.isNone ∧ (defaults.bind (·.idlePeriod)).isNone
        · rw [if_pos untimed]
          exact iff_of_false nofun fun ⟨⟨_, _, cadence, _⟩, _⟩ =>
            (@timed_iff defaults ⟨id, mandate, tools, children⟩).mpr cadence untimed
        · rw [if_neg untimed]
          have cadence := (@timed_iff defaults ⟨id, mandate, tools, children⟩).mp untimed
          cases unknown : tools.find? fun tool => !registered.contains tool with
          | some tool =>
            refine iff_of_false nofun fun ⟨⟨_, _, _, references⟩, _⟩ => ?_
            have absent := List.find?_some unknown
            have known := references tool (List.mem_of_find?_eq_some unknown)
            simp [known] at absent
          | none =>
            have references : ∀ tool ∈ tools, tool ∈ registered := by simpa using unknown
            have grown : (seen ++ [id]).Nodup :=
              distinct.append (List.nodup_singleton _) (List.disjoint_singleton.mpr before)
            dsimp only
            rw [validateChildren_iff grown (List.mem_append_right _ List.mem_cons_self), and_iff_right]
            exact ⟨safe, before, cadence, references⟩

theorem validateChildren_iff {seen after : List String} {parentId : String} (distinct : seen.Nodup)
    (above : parentId ∈ seen) :
    ∀ {children : List Agent}, validateChildren registered defaults parentId seen children = .ok after ↔
      Walks registered defaults seen (forestNodes (some parentId) children) after
  | [] => by
    unfold validateChildren forestNodes Walks
    rw [List.map_nil, List.append_nil, Except.ok.injEq]
    exact ⟨fun same => ⟨same.symm, distinct, nofun⟩, fun walked => walked.1.symm⟩
  | ⟨id, mandate, tools, grandchildren⟩ :: children => by
    unfold validateChildren forestNodes
    rw [walks_append]
    by_cases cyclic : id = parentId
    · rw [if_pos cyclic]
      refine iff_of_false nofun fun ⟨middle, walked, _⟩ => ?_
      unfold Agent.nodes at walked
      exact not_walks_of_seen (cyclic ▸ above) walked
    · rw [if_neg cyclic]
      constructor
      · intro accepted
        split at accepted
        · cases accepted
        · rename_i middle first
          obtain ⟨rfl, whole, fit⟩ := (@validateAgentTree_iff seen middle (some parentId) distinct _).mp first
          exact ⟨_, ⟨rfl, whole, fit⟩, (validateChildren_iff whole (List.mem_append_left _ above)).mp accepted⟩
      · rintro ⟨middle, walked, rest⟩
        rw [(@validateAgentTree_iff seen middle (some parentId) distinct _).mpr walked]
        obtain ⟨rfl, whole, -⟩ := walked
        exact (validateChildren_iff whole (List.mem_append_left _ above)).mpr rest
end

theorem validateRoots_iff {seen after : List String} {roots : List Agent} (distinct : seen.Nodup) :
    validateRoots registered defaults seen roots = .ok after ↔
      Walks registered defaults seen (forestNodes none roots) after := by
  induction roots generalizing seen with
  | nil =>
    unfold validateRoots forestNodes Walks
    rw [List.map_nil, List.append_nil, Except.ok.injEq]
    exact ⟨fun same => ⟨same.symm, distinct, nofun⟩, fun walked => walked.1.symm⟩
  | cons root roots ih =>
    unfold validateRoots forestNodes
    rw [walks_append]
    constructor
    · intro accepted
      split at accepted
      · cases accepted
      · rename_i middle first
        obtain ⟨rfl, whole, fit⟩ := (@validateAgentTree_iff registered defaults seen middle none distinct root).mp first
        exact ⟨_, ⟨rfl, whole, fit⟩, (ih whole).mp accepted⟩
    · rintro ⟨middle, walked, rest⟩
      rw [(@validateAgentTree_iff registered defaults seen middle none distinct root).mpr walked]
      obtain ⟨rfl, whole, -⟩ := walked
      exact (ih whole).mpr rest

/-- Nothing but blanks. -/
def Blank (text : String) : Prop := ∀ char ∈ text.toList, isWhitespace char = true

theorem trim_empty_iff {text : String} : trim text = "" ↔ Blank text := by
  have empty : ∀ chars : List Char, chars.dropWhile isWhitespace = [] ↔ ∀ char ∈ chars, isWhitespace char = true :=
    fun chars => List.dropWhile_eq_nil_iff
  unfold trim Blank
  rw [← String.toList_inj, String.toList_ofList, show "".toList = [] from rfl, List.reverse_eq_nil_iff, ← empty, empty]
  constructor
  · intro rest
    by_contra more
    have kept := List.head_dropWhile_not isWhitespace more
    rw [rest _ (List.mem_reverse.mpr (List.head_mem more))] at kept
    cases kept
  · intro none_left
    rw [none_left]
    nofun

/-- A tool server has a command to start it. -/
def Startable (tool : Tool) : Prop :=
  match tool.kind with
  | .mcp command _ _ => ¬ Blank command
  | .builtin _ => True

theorem validateTools_iff {seen : List String} {tools : List Tool} (distinct : seen.Nodup) :
    validateTools seen tools = .ok () ↔ (seen ++ tools.map (·.id)).Nodup ∧ ∀ tool ∈ tools, Startable tool := by
  induction tools generalizing seen with
  | nil => simpa [validateTools] using distinct
  | cons tool tools ih =>
    rw [List.map_cons, List.forall_mem_cons]
    unfold validateTools
    by_cases before : tool.id ∈ seen
    · rw [if_pos before]
      exact iff_of_false nofun fun ⟨whole, _⟩ => (List.nodup_append.mp whole).2.2 _ before _ List.mem_cons_self rfl
    · rw [if_neg before]
      have grown : (seen ++ [tool.id]).Nodup :=
        distinct.append (List.nodup_singleton _) (List.disjoint_singleton.mpr before)
      have rest := ih grown
      rw [List.append_assoc, List.singleton_append] at rest
      cases kind : tool.kind with
      | builtin name =>
        have here : Startable tool := by
          unfold Startable
          rw [kind]
          trivial
        rw [and_iff_right here]
        exact rest
      | mcp command args env =>
        have here : Startable tool ↔ ¬ Blank command := by
          unfold Startable
          rw [kind]
        dsimp only
        rw [here]
        by_cases blank : trim command = ""
        · rw [if_pos blank]
          exact iff_of_false nofun fun ⟨_, startable, _⟩ => startable (trim_empty_iff.mp blank)
        · rw [if_neg blank, rest, and_iff_right fun blanks => blank (trim_empty_iff.mpr blanks)]

theorem validateTriggers_iff {agentIds : List String} {triggers : List SeedTrigger} :
    validateTriggers agentIds triggers = .ok () ↔ ∀ trigger ∈ triggers, trigger.agent ∈ agentIds ∧ trigger.at_ = "start" := by
  induction triggers with
  | nil => exact iff_of_true rfl nofun
  | cons trigger triggers ih =>
    rw [List.forall_mem_cons]
    unfold validateTriggers
    by_cases known : trigger.agent ∈ agentIds
    · by_cases start : trigger.at_ = "start"
      · rw [if_neg (not_not.mpr known), if_neg (not_not.mpr start), ih, and_iff_right ⟨known, start⟩]
      · rw [if_neg (not_not.mpr known), if_pos start]
        exact iff_of_false nofun fun ⟨⟨_, here⟩, _⟩ => start here
    · rw [if_pos known]
      exact iff_of_false nofun fun ⟨⟨here, _⟩, _⟩ => known here

/-- The conditions on a graph that are documented, but for those on the ids of tools. -/
structure Sound (graph : GraphYaml) : Prop where
  apiVersion : graph.apiVersion = API_VERSION
  kind : graph.kind = KIND
  name : UrlPathSafe graph.metadata.name.toList
  toolIds : (graph.tools.map (·.id)).Nodup
  commands : ∀ tool ∈ graph.tools, Startable tool
  someAgent : graph.agents ≠ []
  agentIds : (graph.nodes.map (·.2.id)).Nodup
  agents : ∀ node ∈ graph.nodes, AgentFits (graph.tools.map (·.id)) graph.defaults node.2
  someTrigger : graph.seed.triggers ≠ []
  triggers : ∀ trigger ∈ graph.seed.triggers, trigger.agent ∈ graph.nodes.map (·.2.id) ∧ trigger.at_ = "start"

structure Documented (graph : GraphYaml) : Prop extends Sound graph where
  toolNames : ∀ tool ∈ graph.tools, UrlPathSafe tool.id.toList

theorem validate_iff {graph : GraphYaml} : validate graph = .ok () ↔ Sound graph := by
  unfold validate
  constructor
  · intro accepted
    split at accepted
    · cases accepted
    · rename_i version
      split at accepted
      · cases accepted
      · rename_i kind
        split at accepted
        · cases accepted
        · rename_i name
          split at accepted
          · cases accepted
          · rename_i someAgent
            split at accepted
            · cases accepted
            · rename_i tools
              split at accepted
              · cases accepted
              · rename_i agentIds roots
                obtain ⟨rfl, distinct, fit⟩ := (validateRoots_iff List.nodup_nil).mp roots
                obtain ⟨toolIds, commands⟩ := (validateTools_iff List.nodup_nil).mp tools
                split at accepted
                · cases accepted
                · rename_i someTrigger
                  exact {
                    apiVersion := not_not.mp version
                    kind := not_not.mp kind
                    name := (isUrlPathSafeName_iff _).mp (by simpa using name)
                    toolIds := toolIds
                    commands := commands
                    someAgent := by simpa using someAgent
                    agentIds := distinct
                    agents := fit
                    someTrigger := by simpa using someTrigger
                    triggers := validateTriggers_iff.mp accepted }
  · intro sound
    rw [if_neg (not_not.mpr sound.apiVersion), if_neg (not_not.mpr sound.kind),
      if_neg (by simpa using (isUrlPathSafeName_iff _).mpr sound.name), if_neg (by simpa using sound.someAgent),
      (validateTools_iff List.nodup_nil).mpr ⟨sound.toolIds, sound.commands⟩]
    dsimp only
    rw [(validateRoots_iff List.nodup_nil).mpr ⟨rfl, sound.agentIds, sound.agents⟩]
    dsimp only
    rw [if_neg (by simpa using sound.someTrigger)]
    exact validateTriggers_iff.mpr sound.triggers

/-- The validator accepts the documented graphs and no others, as far as the ids of tools are
safe or something else is wrong. -/
theorem validate_documented_iff (graph : GraphYaml) : (validate graph = .ok () ↔ Documented graph) ↔
    (∀ tool ∈ graph.tools, UrlPathSafe tool.id.toList) ∨ ¬ Sound graph := by
  rw [validate_iff]
  constructor
  · intro same
    by_cases sound : Sound graph
    · exact .inl (same.mp sound).toolNames
    · exact .inr sound
  · rintro (names | unsound)
    · exact ⟨fun sound => ⟨sound, names⟩, fun documented => documented.toSound⟩
    · exact iff_of_false unsound fun documented => unsound documented.toSound

/-- One agent, and one tool that is called "Web Search". -/
private def spacedTool : GraphYaml where
  apiVersion := API_VERSION
  kind := KIND
  metadata := ⟨"desk", none⟩
  defaults := none
  tools := [⟨"Web Search", .builtin "echo"⟩]
  agents := [⟨"editor", ⟨"edit", some .never, none⟩, ["Web Search"], []⟩]
  seed := ⟨[⟨"editor", "start", ⟨"go", .null⟩⟩]⟩
  policy := none

theorem spaced_tool_accepted : validate spacedTool = .ok () ∧ ¬ Documented spacedTool := by
  refine ⟨rfl, fun documented => ?_⟩
  have safe := documented.toolNames ⟨"Web Search", .builtin "echo"⟩ List.mem_cons_self
  rw [← isUrlPathSafeName_iff] at safe
  revert safe
  decide +kernel

end Validate

end Coral.Yaml.Proofs
