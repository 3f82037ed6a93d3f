import Mcpp.RegistrationOrder

/-! A restart: the groups are registered over the table that their registration left. -/
namespace Mcpp.Restart
open Buffers Documents Config ConfigurationManager Registration RegistrationOrder

variable {τ : Type} {F : Floating} {fresh : (t : ConfigType) → t.Value F} {group : IConfigGroup τ F}
  {groups : List (IConfigGroup τ F)} {t : Entries F}

/- The table of the group is there, with something under each of its keys. -/
structure Full (t : Entries F) (group : IConfigGroup τ F) : Prop where
  opened : Open (path group) t
  present : ∀ k ∈ keys group.typeMapping, (tableAt (path group) t k).isSome

theorem applyFull (group : IConfigGroup τ F) (t : Entries F) : Full (apply t group) group := by
  refine ⟨alongOpen .., ?_⟩
  intro k mem
  rw [apply, tableAtAlong]
  exact fillPresent mem _

/- Another group leaves it so. -/
theorem fullApply {other : IConfigGroup τ F} (full : Full t group) (separate : Separate group other) :
    Full (apply t other) group := by
  refine ⟨openAlong (fillAdds other.typeMapping) full.opened, ?_⟩
  intro k mem
  rw [tableAtApply separate t mem]
  exact full.present k mem

theorem foldFull (full : Full t group) (separate : ∀ other ∈ groups, Separate group other) :
    Full (groups.foldl apply t) group := by
  induction groups generalizing t with
  | nil => exact full
  | cons other rest ih =>
    exact ih (fullApply full (separate other List.mem_cons_self)) fun later mem => separate later (List.mem_cons_of_mem _ mem)

theorem registeredFull (separate : groups.Pairwise Separate) (mem : group ∈ groups) : Full (groups.foldl apply t) group := by
  induction groups generalizing t with
  | nil => contradiction
  | cons first rest ih =>
    obtain ⟨head, tail⟩ := List.pairwise_cons.mp separate
    cases List.mem_cons.mp mem with
    | inl here =>
      subst here
      have rest := foldFull (applyFull group t) head
      exact rest
    | inr later => exact ih tail later

/- Over a full table nothing is made or written. -/
theorem applySame (full : Full t group) : apply t group = t :=
  alongSame full.opened (fillSame full.present)

theorem fullMissing (full : Full t group) : missing (keys group.typeMapping) (tableAt (path group) t) = false := by
  unfold missing
  rw [List.any_eq_false]
  intro k mem absent
  have present := full.present k mem
  rw [Option.isNone_iff_eq_none.mp absent] at present
  contradiction

theorem foldSame {m : CConfigurationManager τ F} (full : ∀ group ∈ groups, Full m.configTable group) :
    groups.foldl apply m.configTable = m.configTable ∧ (groups.foldl (registered fresh) m).saved = m.saved := by
  induction groups generalizing m with
  | nil => exact ⟨rfl, rfl⟩
  | cons group rest ih =>
    have head := full group List.mem_cons_self
    have same : (registered fresh m group).configTable = m.configTable := applySame head
    have unsaved : (registered fresh m group).saved = m.saved := by
      rw [registered, fullMissing head]
      rfl
    have tail := ih (m := registered fresh m group) fun other mem => by
      rw [same]
      exact full other (List.mem_cons_of_mem _ mem)
    rw [List.foldl_cons, List.foldl_cons, applySame head]
    rw [same, unsaved] at tail
    exact tail

theorem restartReproduces [DecidableEq τ] (fresh : (t : ConfigType) → t.Value F) (t : Entries F)
    {groups : List (IConfigGroup τ F)} (separate : groups.Pairwise Separate) :
    ∃ m started m', registerAll fresh groups (new t) = .ok m ∧
      loadConfigOrGenerateDefault fresh (some (some m.configTable)) (new fun _ => none) = .ok (started, true) ∧
      registerAll fresh groups started = .ok m' ∧ m'.configTable = m.configTable ∧ m'.saved = [] ∧
      ∀ group ∈ groups, ∃ final, getConfigGroup m group.typeIndex = some final ∧
        getConfigGroup m' group.typeIndex = some final := by
  have full : ∀ group ∈ groups, Full (groups.foldl apply t) group := fun group mem => registeredFull separate mem
  have distinct := separateTypes separate
  obtain ⟨same, unsaved⟩ := foldSame (m := new (groups.foldl apply t)) full
  refine ⟨_, new (groups.foldl apply t), _, registerAllExact distinct fun _ _ => rfl, ?_,
    registerAllExact distinct fun _ _ => rfl, ?_, unsaved, ?_⟩
  · rw [foldTable]
    rfl
  · rw [foldTable, foldTable]
    exact same
  · intro group mem
    refine ⟨_, foldFound separate t mem, ?_⟩
    rw [foldFound separate _ mem]
    exact congrArg (fun table => some (settled fresh table group)) same

/- Where the port is no integer. -/
theorem restartReproducesPort :
    ∃ m started m', registerAll (zero (0 : Int) (0 : Int)) [networkConfig, socketConfig]
        (new (under (.table fun _ => some (.scalar (.string []))))) = .ok m ∧
      loadConfigOrGenerateDefault (zero (0 : Int) (0 : Int)) (some (some m.configTable)) (new fun _ => none) =
        .ok (started, true) ∧
      registerAll (zero (0 : Int) (0 : Int)) [networkConfig, socketConfig] started = .ok m' ∧
      m'.configTable = m.configTable ∧ m'.saved = [] ∧
      ∀ group ∈ [networkConfig, socketConfig], ∃ final, getConfigGroup m group.typeIndex = some final ∧
        getConfigGroup m' group.typeIndex = some final :=
  restartReproduces (zero (0 : Int) (0 : Int)) _ separateNetwork

end Mcpp.Restart
