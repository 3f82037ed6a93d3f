import Mcpp.RoundTrip

/-! The configuration manager: the groups registered with it, the table of its file and
what it wrote back. A toml::table& is the path of keys it was obtained by. -/
namespace Mcpp.ConfigurationManager
open Buffers Documents Config

variable {τ : Type} {F : Floating}

/- Its type is one that Visit handles. -/
structure SConfigValue (F : Floating) where
  variableName : Bytes
  type : ConfigType
  distinct : type.Distinct
  value : type.Value F

/- A mapping is null or a member. -/
structure IConfigGroup (τ : Type) (F : Floating) where
  typeIndex : τ
  namespaceName : Bytes
  groupName : Bytes
  typeMapping : List (Option (SConfigValue F))

structure CConfigurationManager (τ : Type) (F : Floating) where
  registeredConfigs : List (IConfigGroup τ F)
  configTable : Entries F
  -- What was written to m_configPath for changes.
  saved : List (Entries F)

def new (t : Entries F) : CConfigurationManager τ F := { registeredConfigs := [], configTable := t, saved := [] }

variable (fresh : (t : ConfigType) → t.Value F)

def getConfigGroup [DecidableEq τ] (m : CConfigurationManager τ F) (typeIndex : τ) : Option (IConfigGroup τ F) :=
  m.registeredConfigs.find? fun group => group.typeIndex = typeIndex

def accept {σ : Type} (visitor : IConfigValueVisitor F σ) (mapping : SConfigValue F) : Visit σ (SConfigValue F) := do
  let value ← visit visitor fresh mapping.type (some mapping.variableName) mapping.value
  pure { mapping with value }

/-! RegisterConfigGroup. -/

/- The reference to the table, and the root. -/
def getOrCreateTable (parent : List Bytes) (key : Bytes) (root : Entries F) : List Bytes × Entries F :=
  match tableAt parent root key with
  | some (.table _) => (parent ++ [key], root)
  | _ => (parent ++ [key], along parent (fun t => Function.update t key (some (.table fun _ => none))) root)

def openGroupTable (group : IConfigGroup τ F) (root : Entries F) : List Bytes × Entries F :=
  if group.namespaceName = [] then getOrCreateTable [] group.groupName root
  else
    let (parent, root) := getOrCreateTable [] group.namespaceName root
    getOrCreateTable parent group.groupName root

/- The member, the table of its group and configChanged. -/
def registerMember (mapping : SConfigValue F) (groupTable : Entries F) (configChanged : Bool) :
    Except Fault (SConfigValue F × Entries F × Bool) :=
  match groupTable mapping.variableName with
  | none => do
    let (mapping, writer) ← accept fresh WriteDefaults.visitor mapping (.fresh groupTable)
    match writer.root with
    | .table groupTable => .ok (mapping, groupTable, true)
    | _ => .error .nullNode
  | some _ => do
    let (mapping, _) ← accept fresh ReadConfig.visitor mapping (.fresh groupTable)
    .ok (mapping, groupTable, configChanged)

def registerMembers : List (Option (SConfigValue F)) → Entries F → Bool →
    Except Fault (List (Option (SConfigValue F)) × Entries F × Bool)
  | [], groupTable, configChanged => .ok ([], groupTable, configChanged)
  | none :: rest, groupTable, configChanged => do
    let (rest, groupTable, configChanged) ← registerMembers rest groupTable configChanged
    .ok (none :: rest, groupTable, configChanged)
  | some mapping :: rest, groupTable, configChanged => do
    let (mapping, groupTable, configChanged) ← registerMember fresh mapping groupTable configChanged
    let (rest, groupTable, configChanged) ← registerMembers rest groupTable configChanged
    .ok (some mapping :: rest, groupTable, configChanged)

def registerConfigGroup [DecidableEq τ] (m : CConfigurationManager τ F) (group : IConfigGroup τ F) :
    Except Fault (CConfigurationManager τ F) :=
  match getConfigGroup m group.typeIndex with
  | some _ => .ok m
  | none => do
    let (groupTable, root) := openGroupTable group m.configTable
    let (typeMapping, entries, configChanged) ← registerMembers fresh group.typeMapping (tableAt groupTable root) false
    let configTable := along groupTable (fun _ => entries) root
    .ok
      { registeredConfigs := m.registeredConfigs ++ [{ group with typeMapping }]
        configTable
        saved := if configChanged then m.saved ++ [configTable] else m.saved }

/- The factories have made the groups. -/
def registerAll [DecidableEq τ] : List (IConfigGroup τ F) → CConfigurationManager τ F → Except Fault (CConfigurationManager τ F)
  | [], m => .ok m
  | group :: rest, m => do
    let m ← registerConfigGroup fresh m group
    registerAll rest m

/-! LoadConfig. -/

/- The members, and whether all that are there were ok. -/
def loadMembers (groupTable : Entries F) : List (Option (SConfigValue F)) →
    Except Fault (List (Option (SConfigValue F)) × Bool)
  | [] => .ok ([], true)
  | none :: rest => do
    let (rest, ok) ← loadMembers groupTable rest
    .ok (none :: rest, ok)
  | some mapping :: rest =>
    match groupTable mapping.variableName with
    | none => do
      let (rest, ok) ← loadMembers groupTable rest
      .ok (some mapping :: rest, ok)
    | some _ => do
      let (mapping, reader) ← accept fresh ReadConfig.visitor mapping (.fresh groupTable)
      if reader.ok then do
        let (rest, ok) ← loadMembers groupTable rest
        .ok (some mapping :: rest, ok)
      else .ok (some mapping :: rest, false)

/- The node where the group may be. -/
def start (table : Entries F) (group : IConfigGroup τ F) : Option (Node F) :=
  if group.namespaceName ≠ [] then
    match table group.namespaceName with
    | some (.table entries) => entries group.groupName
    | _ => none
  else table group.groupName

def loadGroups (table : Entries F) : List (IConfigGroup τ F) → Except Fault (List (IConfigGroup τ F) × Bool)
  | [] => .ok ([], true)
  | group :: rest =>
    match start table group with
    | some (.table groupTable) => do
      let (typeMapping, ok) ← loadMembers fresh groupTable group.typeMapping
      if ok then do
        let (rest, ok) ← loadGroups table rest
        .ok ({ group with typeMapping } :: rest, ok)
      else .ok ({ group with typeMapping } :: rest, false)
    | _ => do
      let (rest, ok) ← loadGroups table rest
      .ok (group :: rest, ok)

/- By what toml::parse_file made of the file. -/
def loadConfig (result : Option (Entries F)) (m : CConfigurationManager τ F) :
    Except Fault (CConfigurationManager τ F × Bool) :=
  match result with
  | none => .ok (m, false)
  | some configTable => do
    let (registeredConfigs, ok) ← loadGroups fresh configTable m.registeredConfigs
    .ok ({ m with registeredConfigs, configTable }, ok)

/- A file that is not there is made with nothing in it. -/
def loadConfigOrGenerateDefault (file : Option (Option (Entries F))) (m : CConfigurationManager τ F) :
    Except Fault (CConfigurationManager τ F × Bool) :=
  match file with
  | some result => loadConfig fresh result m
  | none => loadConfig fresh (some fun _ => none) m

end Mcpp.ConfigurationManager
