import Mcpp.Registration

/-! Groups apart from each other: what one of them fills and reads is not touched by the
registration of another, so the order of registrations does not matter. -/
namespace Mcpp.RegistrationOrder
open Buffers Documents Config ConfigurationManager Registration

variable {τ : Type} {F : Floating} {fresh : (t : ConfigType) → t.Value F} {g h group : IConfigGroup τ F}
  {groups others : List (IConfigGroup τ F)}

/- Of two types and two paths, and no member of the one is where the other is. -/
structure Separate (g h : IConfigGroup τ F) : Prop where
  types : g.typeIndex ≠ h.typeIndex
  paths : path g ≠ path h
  members : ∀ k ∈ keys g.typeMapping, path g ++ [k] ≠ path h
  others : ∀ k ∈ keys h.typeMapping, path h ++ [k] ≠ path g

theorem separateSymm (separate : Separate g h) : Separate h g :=
  ⟨separate.types.symm, separate.paths.symm, separate.others, separate.members⟩

theorem pathLength (group : IConfigGroup τ F) : 1 ≤ (path group).length ∧ (path group).length ≤ 2 := by
  unfold path
  split <;> simp

/- No path is long enough to go on behind a member of another group. -/
theorem memberPrefix {k : Bytes} (inside : path g ++ [k] <+: path h) : path g ++ [k] = path h := by
  refine inside.eq_of_length_le ?_
  have longer := pathLength g
  have shorter := pathLength h
  rw [List.length_append, List.length_singleton]
  omega

theorem separateApart (separate : Separate g h) : Apart (path g) (keys g.typeMapping) (path h) (keys h.typeMapping) :=
  apartPaths separate.paths (fun k mem inside => separate.members k mem (memberPrefix inside))
    (fun k mem inside => separate.others k mem (memberPrefix inside))

theorem applyComm (separate : Separate g h) (t : Entries F) : apply (apply t g) h = apply (apply t h) g :=
  alongComm (fillLocal h.typeMapping) (fillLocal g.typeMapping) (separateApart (separateSymm separate)) t

theorem tableAtApply (separate : Separate g h) (t : Entries F) {k : Bytes} (mem : k ∈ keys g.typeMapping) :
    tableAt (path g) (apply t h) k = tableAt (path g) t k :=
  tableAtOther (fillLocal h.typeMapping) (separateApart separate) t mem

theorem settledApply (separate : Separate g h) (t : Entries F) : settled fresh (apply t h) g = settled fresh t g := by
  have same : g.typeMapping.map (Option.map (readFrom fresh (tableAt (path g) (apply t h)))) =
      g.typeMapping.map (Option.map (readFrom fresh (tableAt (path g) t))) := by
    refine List.map_congr_left ?_
    intro mapping mem
    cases mapping with
    | none => rfl
    | some mapping =>
      have named : mapping.variableName ∈ keys g.typeMapping := List.mem_filterMap.mpr ⟨some mapping, mem, rfl⟩
      exact congrArg some (readFromCongr (tableAtApply separate t named))
  rw [settled, settled, same]

/-! Whole lists of groups. -/

theorem separateTypes (separate : groups.Pairwise Separate) : (groups.map IConfigGroup.typeIndex).Nodup :=
  List.pairwise_map.mpr (separate.imp fun pair => pair.types)

/- What is registered holds what is read from the table as it is by now. -/
theorem registeredSettled {m : CConfigurationManager τ F} (held : m.registeredConfigs = others.map (settled fresh m.configTable))
    (separate : ∀ other ∈ others, Separate other group) :
    (registered fresh m group).registeredConfigs = (others ++ [group]).map (settled fresh (registered fresh m group).configTable) := by
  have same : others.map (settled fresh (apply m.configTable group)) = others.map (settled fresh m.configTable) :=
    List.map_congr_left fun other mem => settledApply (separate other mem) m.configTable
  rw [registered, held, List.map_append, same]
  rfl

theorem foldSettled (others : List (IConfigGroup τ F)) {m : CConfigurationManager τ F}
    (held : m.registeredConfigs = others.map (settled fresh m.configTable))
    (separate : (others ++ groups).Pairwise Separate) :
    (groups.foldl (registered fresh) m).registeredConfigs =
      (others ++ groups).map (settled fresh (groups.foldl apply m.configTable)) := by
  induction groups generalizing others m with
  | nil => rw [List.append_nil, List.foldl_nil, List.foldl_nil, held]
  | cons group rest ih =>
    have apart : ∀ other ∈ others, Separate other group := by
      intro other mem
      exact (List.pairwise_append.mp separate).2.2 other mem group List.mem_cons_self
    have assoc : others ++ group :: rest = others ++ [group] ++ rest := by simp
    rw [assoc] at separate ⊢
    exact ih (others ++ [group]) (registeredSettled held apart) separate

theorem findSettled [DecidableEq τ] {m : CConfigurationManager τ F} {t : Entries F}
    (held : m.registeredConfigs = groups.map (settled fresh t)) (distinct : (groups.map IConfigGroup.typeIndex).Nodup)
    (mem : group ∈ groups) : getConfigGroup m group.typeIndex = some (settled fresh t group) := by
  unfold getConfigGroup
  rw [held]
  clear held
  induction groups with
  | nil => contradiction
  | cons first rest ih =>
    obtain ⟨head, tail⟩ := List.nodup_cons.mp distinct
    cases List.mem_cons.mp mem with
    | inl here =>
      subst here
      simp [settled]
    | inr later =>
      have differs : first.typeIndex ≠ group.typeIndex := by
        intro same
        exact head (same ▸ List.mem_map_of_mem later)
      simp only [List.map_cons, List.find?_cons, settled, differs, decide_false]
      exact ih tail later

theorem foldPerm (separate : groups.Pairwise Separate) (order : groups.Perm others) (t : Entries F) :
    groups.foldl apply t = others.foldl apply t := by
  have swap : groups.Pairwise fun g h => ∀ t, apply (apply t g) h = apply (apply t h) g := separate.imp applyComm
  have back : groups.Pairwise fun g h => ∀ t, apply (apply t h) g = apply (apply t g) h :=
    separate.imp fun pair t => (applyComm pair t).symm
  have comm := swap.forall_of_forall_of_flip (fun _ _ _ => rfl) back
  exact order.foldl_eq' (fun g memG h memH t => comm memG memH t) t

/- What a group holds in the end. -/
theorem foldFound [DecidableEq τ] (separate : groups.Pairwise Separate) (t : Entries F) (mem : group ∈ groups) :
    getConfigGroup (groups.foldl (registered fresh) (new t)) group.typeIndex =
      some (settled fresh (groups.foldl apply t) group) :=
  findSettled (foldSettled [] rfl separate) (separateTypes separate) mem

theorem registrationOrder [DecidableEq τ] (fresh : (t : ConfigType) → t.Value F) (t : Entries F)
    {groups others : List (IConfigGroup τ F)} (separate : groups.Pairwise Separate) (order : groups.Perm others) :
    ∃ m m', registerAll fresh groups (new t) = .ok m ∧ registerAll fresh others (new t) = .ok m' ∧
      m'.configTable = m.configTable ∧
      ∀ group ∈ groups, ∃ final, getConfigGroup m group.typeIndex = some final ∧
        getConfigGroup m' group.typeIndex = some final := by
  have separate' : others.Pairwise Separate := order.pairwise separate separateSymm
  have table := foldPerm separate order t
  refine ⟨_, _, registerAllExact (separateTypes separate) fun _ _ => rfl,
    registerAllExact (separateTypes separate') fun _ _ => rfl, ?_, ?_⟩
  · rw [foldTable, foldTable]
    exact table.symm
  · intro group mem
    refine ⟨_, foldFound separate t mem, ?_⟩
    rw [table]
    exact foldFound separate' t (order.mem_iff.mp mem)

/- The group of the comment in IConfigurationManager.h: its namespace is the table of Network.cpp. -/
def socketConfig : IConfigGroup Nat integral where
  typeIndex := 1
  namespaceName := [110, 101, 116, 119, 111, 114, 107]
  groupName := [115, 111, 99, 107, 101, 116]
  typeMapping :=
    [some { variableName := [105, 112], type := .string, distinct := trivial, value := [48, 46, 48, 46, 48, 46, 48] },
     some { variableName := [112, 111, 114, 116], type := .int, distinct := trivial, value := 25565#32 }]

theorem separateNetwork : [networkConfig, socketConfig].Pairwise Separate := by
  have separate : Separate networkConfig socketConfig := ⟨by decide, by decide, by decide, by decide⟩
  exact List.pairwise_pair.mpr separate

/- Over an integer in the place of the table. -/
theorem registrationOrderNetwork :
    ∃ m m', registerAll (zero (0 : Int) (0 : Int)) [networkConfig, socketConfig] (new (under (.scalar (.integer 25566)))) = .ok m ∧
      registerAll (zero (0 : Int) (0 : Int)) [socketConfig, networkConfig] (new (under (.scalar (.integer 25566)))) = .ok m' ∧
      m'.configTable = m.configTable ∧
      ∀ group ∈ [networkConfig, socketConfig], ∃ final, getConfigGroup m group.typeIndex = some final ∧
        getConfigGroup m' group.typeIndex = some final :=
  registrationOrder (zero (0 : Int) (0 : Int)) _ separateNetwork (.swap ..)

end Mcpp.RegistrationOrder
