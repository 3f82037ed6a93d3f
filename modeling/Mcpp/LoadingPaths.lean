import Mcpp.RegistrationOrder

/-! The two ways to a loaded config: registering before LoadConfig, when the members are
read again, and registering behind it. -/
namespace Mcpp.LoadingPaths
open Buffers Documents Config ReadConfig Conformance ConfigurationManager Registration RegistrationOrder

variable {τ : Type} {F : Floating} {fresh : (t : ConfigType) → t.Value F} {group : IConfigGroup τ F}
  {groups : List (IConfigGroup τ F)} {t u : Entries F} {k : Bytes} {mapping : SConfigValue F}

/- Each member of the group that is there is of its type. -/
def Conforming (t : Entries F) (group : IConfigGroup τ F) : Prop :=
  ∀ mapping, some mapping ∈ group.typeMapping →
    ∀ node, tableAt (path group) t mapping.variableName = some node → Conforms mapping.type node

/-! What registration leaves under one key. -/

theorem fillMemberAt (mapping : SConfigValue F) (same : t k = u k) : fillMember mapping t k = fillMember mapping u k := by
  by_cases named : k ∈ [mapping.variableName]
  · refine (fillMemberLocal mapping).inside t u ?_ k named
    intro l mem
    rw [List.mem_singleton.mp mem, ← List.mem_singleton.mp named, same]
  · rw [(fillMemberLocal mapping).outside t k named, (fillMemberLocal mapping).outside u k named, same]

theorem fillAt (mappings : List (Option (SConfigValue F))) (same : t k = u k) : fill mappings t k = fill mappings u k := by
  induction mappings generalizing t u with
  | nil => exact same
  | cons mapping rest ih =>
    cases mapping with
    | none => exact ih same
    | some mapping => exact ih (fillMemberAt mapping same)

theorem tableAtFold (separate : ∀ other ∈ groups, Separate group other) (mem : k ∈ keys group.typeMapping) :
    tableAt (path group) (groups.foldl apply t) k = tableAt (path group) t k := by
  induction groups generalizing t with
  | nil => rfl
  | cons other rest ih =>
    have tail := ih (t := apply t other) fun later mem => separate later (List.mem_cons_of_mem _ mem)
    exact tail.trans (tableAtApply (separate other List.mem_cons_self) t mem)

theorem tableAtRegistered (separate : groups.Pairwise Separate) (member : group ∈ groups) (mem : k ∈ keys group.typeMapping) :
    tableAt (path group) (groups.foldl apply t) k = fill group.typeMapping (tableAt (path group) t) k := by
  induction groups generalizing t with
  | nil => contradiction
  | cons first rest ih =>
    obtain ⟨head, tail⟩ := List.pairwise_cons.mp separate
    cases List.mem_cons.mp member with
    | inl here =>
      subst here
      have inside : tableAt (path group) (apply t group) = fill group.typeMapping (tableAt (path group) t) := tableAtAlong ..
      rw [List.foldl_cons, tableAtFold head mem, inside]
    | inr later =>
      have untouched := tableAtApply (separateSymm (head group later)) t mem
      rw [List.foldl_cons, ih tail later]
      exact fillAt group.typeMapping untouched

/-! LoadConfig reads what is there. -/

theorem readFromNone (absent : t mapping.variableName = none) : readFrom fresh t mapping = mapping := by
  rw [readFrom, absent, readNone]

theorem readFromCast {node : Node F} {value : mapping.type.Value F} (held : t mapping.variableName = some node)
    (casts : Casts mapping.type node value) : readFrom fresh t mapping = { mapping with value } := by
  rw [readFrom, held, readCast fresh mapping.type mapping.value casts]

theorem loadMembersExact {mappings : List (Option (SConfigValue F))}
    (conforming : ∀ mapping, some mapping ∈ mappings → ∀ node, t mapping.variableName = some node → Conforms mapping.type node) :
    loadMembers fresh t mappings = .ok (mappings.map (Option.map (readFrom fresh t)), true) := by
  induction mappings with
  | nil => rfl
  | cons mapping rest ih =>
    have tail := ih fun later mem => conforming later (List.mem_cons_of_mem _ mem)
    cases mapping with
    | none =>
      simp only [loadMembers, tail]
      rfl
    | some mapping =>
      unfold loadMembers
      cases here : t mapping.variableName with
      | none =>
        simp only [tail, List.map_cons, Option.map_some, readFromNone here]
        rfl
      | some node =>
        obtain ⟨r, run, ok⟩ := readsMember fresh mapping.type t mapping.variableName mapping.value
        have accepted : accept fresh ReadConfig.visitor mapping (.fresh t) = .ok (readFrom fresh t mapping, r) := stepOk run
        have passed : r.ok = true := by
          rw [ok, here]
          exact (acceptsConforming fresh).mpr ⟨node, rfl, conforming mapping List.mem_cons_self node here⟩
        simp only [accepted, tail]
        change (if r.ok = true then _ else _) = _
        rw [if_pos passed]
        rfl

theorem subtableEither (t : Entries F) (k : Bytes) :
    t k = some (.table (subtable t k)) ∨ (∀ entries, t k ≠ some (.table entries)) ∧ subtable t k = fun _ => none := by
  unfold subtable
  split
  · rename_i entries here
    exact .inl here
  · rename_i other
    exact .inr ⟨other, rfl⟩

/- LoadConfig goes into the table of the group where there is one. -/
theorem startExact (group : IConfigGroup τ F) (t : Entries F) :
    start t group = some (.table (tableAt (path group) t)) ∨
      (∀ entries, start t group ≠ some (.table entries)) ∧ tableAt (path group) t = fun _ => none := by
  unfold start path
  by_cases empty : group.namespaceName = []
  · rw [if_neg (not_not.mpr empty), if_pos empty]
    exact subtableEither t group.groupName
  · rw [if_pos empty, if_neg empty]
    cases subtableEither t group.namespaceName with
    | inl held =>
      rw [held]
      exact subtableEither (subtable t group.namespaceName) group.groupName
    | inr nothing =>
      obtain ⟨other, nothing⟩ := nothing
      refine .inr ⟨?_, ?_⟩
      · split
        · exact absurd ‹_› (other _)
        · exact nofun
      · rw [tableAt, nothing]
        rfl

theorem settledNothing (nothing : tableAt (path group) t = fun _ => none) : settled fresh t group = group := by
  have same : Option.map (readFrom fresh (tableAt (path group) t)) = id := by
    funext mapping
    cases mapping with
    | none => rfl
    | some mapping => exact congrArg some (readFromNone (congrFun nothing _))
  rw [settled, same, List.map_id]

theorem loadGroupsExact (conforming : ∀ group ∈ groups, Conforming t group) :
    loadGroups fresh t groups = .ok (groups.map (settled fresh t), true) := by
  induction groups with
  | nil => rfl
  | cons group rest ih =>
    have tail := ih fun later mem => conforming later (List.mem_cons_of_mem _ mem)
    have members : loadMembers fresh (tableAt (path group) t) group.typeMapping =
        .ok (group.typeMapping.map (Option.map (readFrom fresh (tableAt (path group) t))), true) :=
      loadMembersExact (conforming group List.mem_cons_self)
    unfold loadGroups
    cases startExact group t with
    | inl held =>
      rw [held]
      simp only [members, tail]
      rfl
    | inr nothing =>
      obtain ⟨other, nothing⟩ := nothing
      split
      · exact absurd ‹_› (other _)
      · rw [List.map_cons, settledNothing nothing]
        simp only [tail]
        rfl

/-! Both ways. -/

theorem settledConforming {root : Entries F} (conforming : Conforming t group) : Conforming t (settled fresh root group) := by
  intro mapping mem
  obtain ⟨before, held, same⟩ := List.mem_map.mp mem
  obtain ⟨before, rfl, rfl⟩ := Option.map_eq_some_iff.mp same
  exact conforming before held

/- What is there is read over whatever was; what is not was filled alike. -/
theorem settledAgain {root filled : Entries F} (conforming : Conforming t group)
    (kept : ∀ k ∈ keys group.typeMapping, (tableAt (path group) t k).isSome →
      tableAt (path group) filled k = tableAt (path group) t k)
    (alike : ∀ k ∈ keys group.typeMapping, tableAt (path group) t k = none →
      tableAt (path group) root k = tableAt (path group) filled k) :
    settled fresh t (settled fresh root group) = settled fresh filled group := by
  have each : ∀ mapping ∈ group.typeMapping,
      Option.map (readFrom fresh (tableAt (path group) t)) (Option.map (readFrom fresh (tableAt (path group) root)) mapping) =
        Option.map (readFrom fresh (tableAt (path group) filled)) mapping := by
    intro mapping mem
    cases mapping with
    | none => rfl
    | some mapping =>
      have named : mapping.variableName ∈ keys group.typeMapping := List.mem_filterMap.mpr ⟨some mapping, mem, rfl⟩
      refine congrArg some ?_
      cases here : tableAt (path group) t mapping.variableName with
      | none =>
        have nothing : readFrom fresh (tableAt (path group) t) (readFrom fresh (tableAt (path group) root) mapping) =
            readFrom fresh (tableAt (path group) root) mapping := readFromNone here
        exact nothing.trans (readFromCongr (alike _ named here))
      | some node =>
        obtain ⟨value, casts⟩ := conformsCast mapping.type (conforming mapping mem node here)
        have held := kept _ named (here ▸ rfl)
        rw [readFromCast (held.trans here) casts]
        exact readFromCast here casts
  have mapped : (settled fresh root group).typeMapping.map (Option.map (readFrom fresh (tableAt (path group) t))) =
      group.typeMapping.map (Option.map (readFrom fresh (tableAt (path group) filled))) := by
    unfold settled
    rw [List.map_map]
    exact List.map_congr_left each
  exact congrArg (fun typeMapping => { group with typeMapping }) mapped

theorem tableAtNone (group : IConfigGroup τ F) : tableAt (path group) (fun _ => none : Entries F) = fun _ => none := by
  unfold path
  split <;> rfl

/- What registration on no table left and LoadConfig read again is what registration behind it reads. -/
theorem reloaded (separate : groups.Pairwise Separate) (conforming : Conforming t group) (mem : group ∈ groups) :
    settled fresh t (settled fresh (groups.foldl apply fun _ => none) group) = settled fresh (groups.foldl apply t) group := by
  refine settledAgain conforming ?_ ?_
  · intro k named present
    rw [tableAtRegistered separate mem named]
    exact addsPresent (fillAdds group.typeMapping) present
  · intro k named absent
    rw [tableAtRegistered separate mem named, tableAtRegistered separate mem named]
    exact fillAt group.typeMapping ((congrFun (tableAtNone group) k).trans absent.symm)

theorem loadConfigExact (separate : groups.Pairwise Separate) (conforming : ∀ group ∈ groups, Conforming t group)
    {m : CConfigurationManager τ F} (earlier : m.registeredConfigs = groups.map (settled fresh (groups.foldl apply fun _ => none))) :
    loadConfig fresh (some t) m =
      .ok ({ m with registeredConfigs := groups.map (settled fresh (groups.foldl apply t)), configTable := t }, true) := by
  have loads : loadGroups fresh t m.registeredConfigs = .ok (groups.map (settled fresh (groups.foldl apply t)), true) := by
    rw [earlier, loadGroupsExact, List.map_map]
    · exact congrArg (fun groups => Except.ok (groups, true))
        (List.map_congr_left fun group mem => reloaded separate (conforming group mem) mem)
    · intro group mem
      obtain ⟨before, held, rfl⟩ := List.mem_map.mp mem
      exact settledConforming (conforming before held)
  unfold loadConfig
  simp only [loads]
  rfl

theorem pathsAgree [DecidableEq τ] (fresh : (t : ConfigType) → t.Value F) (t : Entries F) {groups : List (IConfigGroup τ F)}
    (separate : groups.Pairwise Separate) (conforming : ∀ group ∈ groups, Conforming t group) :
    ∃ m loaded started final, registerAll fresh groups (new fun _ => none) = .ok m ∧
      loadConfig fresh (some t) m = .ok (loaded, true) ∧
      loadConfig fresh (some t) (new fun _ => none) = .ok (started, true) ∧
      registerAll fresh groups started = .ok final ∧
      ∀ group ∈ groups, ∃ held, getConfigGroup loaded group.typeIndex = some held ∧
        getConfigGroup final group.typeIndex = some held := by
  have distinct := separateTypes separate
  have registers (t : Entries F) : registerAll fresh groups (new t) = .ok (groups.foldl (registered fresh) (new t)) :=
    registerAllExact distinct fun _ _ => rfl
  have earlier : (groups.foldl (registered fresh) (new fun _ => none)).registeredConfigs =
      groups.map (settled fresh (groups.foldl apply fun _ => none)) := foldSettled [] rfl separate
  refine ⟨_, _, new t, _, registers _, loadConfigExact separate conforming earlier, rfl, registers t, ?_⟩
  intro group mem
  exact ⟨_, findSettled rfl distinct mem, foldFound separate t mem⟩

/- A table with an integer for the port and one in the place of the other table. -/
theorem pathsAgreePort :
    ∃ m loaded started final, registerAll (zero (0 : Int) (0 : Int)) [networkConfig, socketConfig] (new fun _ => none) = .ok m ∧
      loadConfig (zero (0 : Int) (0 : Int)) (some (under (.table fun _ => some (.scalar (.integer 25566))))) m = .ok (loaded, true) ∧
      loadConfig (zero (0 : Int) (0 : Int)) (some (under (.table fun _ => some (.scalar (.integer 25566)))))
        (new fun _ => none) = .ok (started, true) ∧
      registerAll (zero (0 : Int) (0 : Int)) [networkConfig, socketConfig] started = .ok final ∧
      ∀ group ∈ [networkConfig, socketConfig], ∃ held, getConfigGroup loaded group.typeIndex = some held ∧
        getConfigGroup final group.typeIndex = some held := by
  refine pathsAgree (zero (0 : Int) (0 : Int)) _ separateNetwork ?_
  intro group mem mapping member node held
  cases List.mem_pair.mp mem with
  | inl here =>
    subst here
    obtain rfl := Option.some.inj (List.mem_singleton.mp member)
    have port : some (.scalar (.integer 25566)) = some node := held
    cases port
    trivial
  | inr here =>
    subst here
    have nothing : none = some node := held
    contradiction

end Mcpp.LoadingPaths
