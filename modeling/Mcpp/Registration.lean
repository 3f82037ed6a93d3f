import Mcpp.ConfigurationManager

/-! What registering a group does: it fills what is missing in the table of the group, and
leaves in each member what is read from the filled table. -/
namespace Mcpp.Registration
open Buffers Documents Config ReadConfig Conformance WriteDefaults RoundTrip ConfigurationManager

variable {τ : Type} {F : Floating}

def path (group : IConfigGroup τ F) : List Bytes :=
  if group.namespaceName = [] then [group.groupName] else [group.namespaceName, group.groupName]

def keys (mappings : List (Option (SConfigValue F))) : List Bytes :=
  mappings.filterMap fun mapping => mapping.map SConfigValue.variableName

def fillMember (mapping : SConfigValue F) (t : Entries F) : Entries F :=
  match t mapping.variableName with
  | none => Function.update t mapping.variableName (some (encode mapping.type mapping.value))
  | some _ => t

def fill : List (Option (SConfigValue F)) → Entries F → Entries F
  | [], t => t
  | none :: rest, t => fill rest t
  | some mapping :: rest, t => fill rest (fillMember mapping t)

def readFrom (fresh : (t : ConfigType) → t.Value F) (t : Entries F) (mapping : SConfigValue F) : SConfigValue F :=
  { mapping with value := (readInto fresh mapping.type (t mapping.variableName) mapping.value).1 }

/- Whether a key has nothing under it. -/
def missing (keys : List Bytes) (t : Entries F) : Bool := keys.any fun k => (t k).isNone

/-! Filling. -/

theorem fillMissing {mapping : SConfigValue F} {t : Entries F} (absent : t mapping.variableName = none) :
    fillMember mapping t = Function.update t mapping.variableName (some (encode mapping.type mapping.value)) := by
  simp only [fillMember, absent]

theorem fillHeld {mapping : SConfigValue F} {t : Entries F} {d : Node F} (held : t mapping.variableName = some d) :
    fillMember mapping t = t := by
  simp only [fillMember, held]

theorem fillMemberAdds (mapping : SConfigValue F) : Adds (fillMember mapping) := by
  intro t k d held
  cases here : t mapping.variableName with
  | some other => rw [fillHeld here, held]
  | none =>
    have differs : k ≠ mapping.variableName := by
      intro same
      rw [same, here] at held
      contradiction
    rw [fillMissing here, Function.update_of_ne differs, held]

theorem fillAdds (mappings : List (Option (SConfigValue F))) : Adds (fill mappings) := by
  induction mappings with
  | nil => exact fun _ _ _ held => held
  | cons mapping rest ih =>
    intro t k d held
    cases mapping with
    | none => exact ih t k d held
    | some mapping => exact ih _ k d (fillMemberAdds mapping t k d held)

theorem fillMemberLocal (mapping : SConfigValue F) : Local [mapping.variableName] (fillMember mapping) := by
  refine ⟨?_, ?_⟩
  · intro t k other
    cases here : t mapping.variableName with
    | some d => rw [fillHeld here]
    | none => rw [fillMissing here, Function.update_of_ne (List.ne_of_not_mem_cons other)]
  · intro t u agree k mem
    obtain rfl := List.mem_singleton.mp mem
    have same := agree _ mem
    cases here : t mapping.variableName with
    | some d => rw [fillHeld here, fillHeld (same ▸ here), same]
    | none => rw [fillMissing here, fillMissing (same ▸ here), Function.update_self, Function.update_self]

theorem fillLocal (mappings : List (Option (SConfigValue F))) : Local (keys mappings) (fill mappings) := by
  induction mappings with
  | nil => exact ⟨fun _ _ _ => rfl, fun _ _ _ _ mem => absurd mem List.not_mem_nil⟩
  | cons mapping rest ih =>
    cases mapping with
    | none => exact ih
    | some mapping => exact localThen (fillMemberLocal mapping) ih

theorem addsPresent {change : Entries F → Entries F} (adds : Adds change) {t : Entries F} {k : Bytes}
    (present : (t k).isSome) : change t k = t k := by
  obtain ⟨d, held⟩ := Option.isSome_iff_exists.mp present
  rw [held]
  exact adds t k d held

theorem fillMemberPresent (mapping : SConfigValue F) (t : Entries F) :
    (fillMember mapping t mapping.variableName).isSome := by
  cases here : t mapping.variableName with
  | some d => rw [fillHeld here, here, Option.isSome_some]
  | none => rw [fillMissing here, Function.update_self, Option.isSome_some]

theorem fillPresent {mappings : List (Option (SConfigValue F))} {k : Bytes} (mem : k ∈ keys mappings) (t : Entries F) :
    (fill mappings t k).isSome := by
  induction mappings generalizing t with
  | nil => contradiction
  | cons mapping rest ih =>
    cases mapping with
    | none => exact ih mem t
    | some mapping =>
      cases List.mem_cons.mp mem with
      | inl here =>
        have present := fillMemberPresent mapping t
        rw [here, fill, addsPresent (fillAdds rest) present]
        exact present
      | inr later => exact ih later _

/- What misses nothing stays as it is. -/
theorem fillSame {mappings : List (Option (SConfigValue F))} {t : Entries F}
    (full : ∀ k ∈ keys mappings, (t k).isSome) : fill mappings t = t := by
  funext k
  by_cases mem : k ∈ keys mappings
  · exact addsPresent (fillAdds mappings) (full k mem)
  · exact (fillLocal mappings).outside t k mem

/-! Registering the members of a group. -/

variable {fresh : (t : ConfigType) → t.Value F}

theorem readFromCongr {t u : Entries F} {mapping : SConfigValue F} (same : t mapping.variableName = u mapping.variableName) :
    readFrom fresh t mapping = readFrom fresh u mapping := by
  rw [readFrom, readFrom, same]

/- What was written for a member is what is read from there. -/
theorem readFromFilled {mapping : SConfigValue F} {t : Entries F} (absent : t mapping.variableName = none) :
    readFrom fresh (fillMember mapping t) mapping = mapping := by
  rw [readFrom, fillMissing absent, Function.update_self,
    readDenoted fresh mapping.type mapping.value (denotesEncode mapping.type mapping.distinct mapping.value)]

theorem registerMemberExact (mapping : SConfigValue F) (t : Entries F) (changed : Bool) :
    registerMember fresh mapping t changed =
      .ok (readFrom fresh (fillMember mapping t) mapping, fillMember mapping t,
        changed || (t mapping.variableName).isNone) := by
  unfold registerMember
  cases here : t mapping.variableName with
  | none =>
    have accepted : accept fresh WriteDefaults.visitor mapping (.fresh t) = .ok (mapping, .fresh (fillMember mapping t)) := by
      rw [fillMissing here]
      exact stepOk (writesMember fresh mapping.type t mapping.variableName mapping.value)
    rw [readFromFilled here, Option.isNone_none, Bool.or_true]
    simp only [accepted]
    rfl
  | some d =>
    obtain ⟨r, run, _⟩ := readsMember fresh mapping.type t mapping.variableName mapping.value
    have accepted : accept fresh ReadConfig.visitor mapping (.fresh t) = .ok (readFrom fresh t mapping, r) := stepOk run
    rw [fillHeld here, Option.isNone_some, Bool.or_false]
    simp only [accepted]
    rfl

theorem missingFilled (mapping : SConfigValue F) (others : List Bytes) (t : Entries F) :
    ((t mapping.variableName).isNone || missing others (fillMember mapping t)) = missing (mapping.variableName :: others) t := by
  cases here : t mapping.variableName with
  | none => simp [missing, here]
  | some d => simp [missing, here, fillHeld here]

theorem registerMembersExact (mappings : List (Option (SConfigValue F))) (t : Entries F) (changed : Bool) :
    registerMembers fresh mappings t changed =
      .ok (mappings.map (Option.map (readFrom fresh (fill mappings t))), fill mappings t,
        changed || missing (keys mappings) t) := by
  induction mappings generalizing t changed with
  | nil => simp [registerMembers, fill, missing, keys]
  | cons mapping rest ih =>
    cases mapping with
    | none =>
      simp only [registerMembers, ih]
      rfl
    | some mapping =>
      have same : readFrom fresh (fillMember mapping t) mapping = readFrom fresh (fill rest (fillMember mapping t)) mapping :=
        readFromCongr (addsPresent (fillAdds rest) (fillMemberPresent mapping t)).symm
      have flag : ((changed || (t mapping.variableName).isNone) || missing (keys rest) (fillMember mapping t)) =
          (changed || missing (keys (some mapping :: rest)) t) := by
        rw [Bool.or_assoc, missingFilled]
        rfl
      simp only [registerMembers, registerMemberExact, ih, same, ← flag]
      rfl

/-! Registering a group. -/

/- What a registered group holds. -/
def settled (fresh : (t : ConfigType) → t.Value F) (root : Entries F) (group : IConfigGroup τ F) : IConfigGroup τ F :=
  { group with typeMapping := group.typeMapping.map (Option.map (readFrom fresh (tableAt (path group) root))) }

def apply (root : Entries F) (group : IConfigGroup τ F) : Entries F := along (path group) (fill group.typeMapping) root

theorem getOrCreateExact {parent : List Bytes} {root : Entries F} (opened : Open parent root) (key : Bytes) :
    getOrCreateTable parent key root = (parent ++ [key], along (parent ++ [key]) id root) := by
  unfold getOrCreateTable
  split
  · rename_i entries here
    rw [alongSame (openAppend opened here) rfl]
  · rename_i other
    refine congrArg (Prod.mk _) ?_
    rw [alongAppend]
    refine alongCongr ?_
    have empty : subtable (tableAt parent root) key = fun _ => none := by
      unfold subtable
      split
      · exact absurd ‹_› (other _)
      · rfl
    simp only [along, empty, id]

theorem openedTable (group : IConfigGroup τ F) (root : Entries F) :
    openGroupTable group root = (path group, along (path group) id root) := by
  have opened : Open [] root := trivial
  have outer (key : Bytes) : getOrCreateTable [] key root = ([key], along [key] id root) := getOrCreateExact opened key
  unfold openGroupTable path
  split
  · exact outer group.groupName
  · rw [outer group.namespaceName]
    refine (getOrCreateExact (alongOpen _ _ root) group.groupName).trans (congrArg (Prod.mk _) ?_)
    rw [alongAppend]
    exact alongAlong ..

def registered (fresh : (t : ConfigType) → t.Value F) (m : CConfigurationManager τ F) (group : IConfigGroup τ F) :
    CConfigurationManager τ F where
  registeredConfigs := m.registeredConfigs ++ [settled fresh (apply m.configTable group) group]
  configTable := apply m.configTable group
  saved :=
    if missing (keys group.typeMapping) (tableAt (path group) m.configTable) then m.saved ++ [apply m.configTable group]
    else m.saved

theorem registerExact [DecidableEq τ] {m : CConfigurationManager τ F} {group : IConfigGroup τ F}
    (absent : getConfigGroup m group.typeIndex = none) : registerConfigGroup fresh m group = .ok (registered fresh m group) := by
  have filled : along (path group) (fun _ => fill group.typeMapping (tableAt (path group) m.configTable))
      (along (path group) id m.configTable) = apply m.configTable group := by
    rw [alongAlong]
    exact alongCongr rfl
  have inside : tableAt (path group) (apply m.configTable group) =
      fill group.typeMapping (tableAt (path group) m.configTable) := tableAtAlong ..
  unfold registerConfigGroup
  simp only [absent, openedTable, registerMembersExact, tableAtAlong, id]
  change Except.ok _ = _
  rw [filled, registered, settled, inside]
  rfl

theorem registeredAbsent [DecidableEq τ] {m : CConfigurationManager τ F} {group : IConfigGroup τ F} {typeIndex : τ}
    (absent : getConfigGroup m typeIndex = none) (other : group.typeIndex ≠ typeIndex) :
    getConfigGroup (registered fresh m group) typeIndex = none := by
  unfold getConfigGroup registered
  rw [List.find?_append, Option.or_eq_none_iff]
  refine ⟨absent, ?_⟩
  simp [settled, other]

/- Groups of distinct types are registered one behind the other. -/
theorem registerAllExact [DecidableEq τ] {groups : List (IConfigGroup τ F)} {m : CConfigurationManager τ F}
    (distinct : (groups.map IConfigGroup.typeIndex).Nodup)
    (absent : ∀ group ∈ groups, getConfigGroup m group.typeIndex = none) :
    registerAll fresh groups m = .ok (groups.foldl (registered fresh) m) := by
  induction groups generalizing m with
  | nil => rfl
  | cons group rest ih =>
    obtain ⟨head, tail⟩ := List.nodup_cons.mp distinct
    have others : ∀ other ∈ rest, getConfigGroup (registered fresh m group) other.typeIndex = none := by
      intro other mem
      refine registeredAbsent (absent other (List.mem_cons_of_mem _ mem)) ?_
      intro same
      exact head (same ▸ List.mem_map_of_mem mem)
    have step : registerConfigGroup fresh m group = .ok (registered fresh m group) :=
      registerExact (absent group List.mem_cons_self)
    simp only [registerAll, step]
    exact ih tail others

theorem foldTable (groups : List (IConfigGroup τ F)) (m : CConfigurationManager τ F) :
    (groups.foldl (registered fresh) m).configTable = groups.foldl apply m.configTable := by
  induction groups generalizing m with
  | nil => rfl
  | cons group rest ih => exact ih _

/-! What the user wrote. -/

theorem foldGrown {groups : List (IConfigGroup τ F)} {t u : Entries F} (spared : ∀ group ∈ groups, Spared (path group) t)
    (grown : Grown t u) : Grown t (groups.foldl apply u) := by
  induction groups generalizing u with
  | nil => exact grown
  | cons group rest ih =>
    have head := grownAlong (fillAdds group.typeMapping) (spared group List.mem_cons_self) grown
    exact ih (fun other mem => spared other (List.mem_cons_of_mem _ mem)) head

/- The path of a registered group stays open. -/
theorem foldOpen {p : List Bytes} (groups : List (IConfigGroup τ F)) {u : Entries F} (opened : Open p u) :
    Open p (groups.foldl apply u) := by
  induction groups generalizing u with
  | nil => exact opened
  | cons group rest ih => exact ih (openAlong (fillAdds group.typeMapping) opened)

theorem registeredOpen {groups : List (IConfigGroup τ F)} {group : IConfigGroup τ F} (mem : group ∈ groups)
    (u : Entries F) : Open (path group) (groups.foldl apply u) := by
  induction groups generalizing u with
  | nil => contradiction
  | cons first rest ih =>
    cases List.mem_cons.mp mem with
    | inl here =>
      subst here
      exact foldOpen rest (alongOpen ..)
    | inr later => exact ih later _

theorem registrationKeeps [DecidableEq τ] (fresh : (t : ConfigType) → t.Value F) (t : Entries F) (groups : List (IConfigGroup τ F))
    (distinct : (groups.map IConfigGroup.typeIndex).Nodup) :
    ∃ m, registerAll fresh groups (new t) = .ok m ∧
      (Kept t m.configTable ↔ ∀ group ∈ groups, Spared (path group) t) := by
  refine ⟨_, registerAllExact distinct fun _ _ => rfl, ?_⟩
  rw [foldTable]
  refine ⟨?_, ?_⟩
  · intro kept group mem
    by_contra hit
    exact lostOpen hit (registeredOpen mem t) kept
  · intro spared
    exact (foldGrown spared (grownSelf t)).kept

/- The group of Network.cpp, as it is made. -/
def networkConfig : IConfigGroup Nat integral where
  typeIndex := 0
  namespaceName := []
  groupName := [110, 101, 116, 119, 111, 114, 107]
  typeMapping := [some { variableName := [112, 111, 114, 116], type := .int, distinct := trivial, value := 25565#32 }]

def under (d : Node integral) : Entries integral := fun k => if k = [110, 101, 116, 119, 111, 114, 107] then some d else none

/- The group of ProxyServer.cpp, with one server. -/
def proxyConfig : IConfigGroup Nat integral where
  typeIndex := 2
  namespaceName := []
  groupName := [112, 114, 111, 120, 121]
  typeMapping :=
    [some { variableName := [73, 115, 79, 110, 108, 105, 110, 101], type := .bool, distinct := trivial, value := true },
     some {
      variableName := [83, 101, 114, 118, 101, 114, 115]
      type := .vector (.struct [83, 83, 101, 114, 118, 101, 114]
        (.cons [97, 100, 100, 114, 101, 115, 115] .string (.cons [112, 111, 114, 116] .int .nil)))
      distinct := ⟨by decide, trivial, List.not_mem_nil, trivial, trivial⟩
      value := [([49, 50, 55, 46, 48, 46, 48, 46, 49], (25565#32, ()))] }]

/- A port that is set, and a proxy that is not online. -/
def written : Entries integral := fun k =>
  if k = [110, 101, 116, 119, 111, 114, 107] then some (.table fun _ => some (.scalar (.integer 80)))
  else if k = [112, 114, 111, 120, 121] then
    some (.table fun member => if member = [73, 115, 79, 110, 108, 105, 110, 101] then some (.scalar (.boolean false)) else none)
  else none

theorem registrationKeepsWritten : ∃ m, registerAll (zero (0 : Int) (0 : Int)) [networkConfig, proxyConfig] (new written) = .ok m ∧
    Kept written m.configTable := by
  obtain ⟨m, run, keeps⟩ := registrationKeeps (zero (0 : Int) (0 : Int)) written [networkConfig, proxyConfig] (by decide)
  refine ⟨m, run, keeps.mpr ?_⟩
  intro group mem
  rcases List.mem_pair.mp mem with rfl | rfl
  · trivial
  · trivial

/- An integer where the table of the group is to be. -/
theorem registrationReplaces : ∃ m, registerAll (zero (0 : Int) (0 : Int)) [networkConfig]
    (new (under (.scalar (.integer 25566)))) = .ok m ∧ ¬ Kept (under (.scalar (.integer 25566))) m.configTable := by
  refine ⟨_, registerAllExact (by decide) fun _ _ => rfl, ?_⟩
  rw [foldTable]
  have opened : Open (path networkConfig) ([networkConfig].foldl apply (under (.scalar (.integer 25566)))) :=
    registeredOpen List.mem_cons_self _
  refine lostOpen ?_ opened
  intro bare
  exact bare [] _ rfl

end Mcpp.Registration
