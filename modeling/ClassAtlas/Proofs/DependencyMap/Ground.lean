import ClassAtlas.Proofs.DependencyMap.Session

/-!
What a session puts into a map, whatever it asks in between: the names it mentions and the names
it registers. Questions and new edges leave both as they are.
-/

namespace ClassAtlas.DependencyMap

def Action.mentions : Action → List Text
  | .register name => [name]
  | .add source target => [source, target]
  | .query _ => []

def Action.registers : Action → List Text
  | .register name => [name]
  | _ => []

-- The names that a step makes nodes for, where there is none.
def Step.mentions : Step → List Text
  | .register name => [name]
  | .add source target => [source, target]
  | .build infos => infos.flatMap fun info => info.name :: info.references
  | _ => []

def Step.registers : Step → List Text
  | .register name => [name]
  | .build infos => infos.map (·.name)
  | _ => []

variable {m : DependencyMap} {x name : Text} {source target : Ref}

theorem contains_iff_ref : m.contains x = true ↔ ∃ r, m.ref? x = some r := by
  rw [← Option.isSome_iff_exists, ref?, Option.isSome_map,
    Std.ExtTreeMap.isSome_getElem?_eq_contains, contains]

theorem contains_iff_node (kept : m.Kept) :
    m.contains x = true ↔ ∃ node, m.node? x = some node := by
  rw [contains_iff_ref]
  constructor
  · intro given
    obtain ⟨r, here⟩ := given
    exact kept.node_of_ref here
  · intro given
    obtain ⟨node, found⟩ := given
    obtain ⟨r, here, _⟩ := ref_of_node found
    exact ⟨r, here⟩

theorem contains_resolve (m : DependencyMap) (name x : Text) :
    (m.resolve name).1.contains x = true ↔ m.contains x = true ∨ x = name := by
  simp only [contains_iff_ref]
  unfold resolve
  split
  · rename_i r found
    constructor
    · exact .inl
    · intro given
      rcases given with old | rfl
      · exact old
      · exact ⟨r, found⟩
  · simp only [ref_add_node]
    by_cases new : name = x
    · simp [new]
    · simp [new, Ne.symm new]

theorem known_resolve (m : DependencyMap) (name : Text) : (m.resolve name).1.known = m.known := by
  unfold resolve
  split
  · rfl
  · cases m
    rfl

-- Only the graph of the map is another one.
theorem link_ground (m : DependencyMap) (source target : Ref) :
    (m.link source target).1.index = m.index ∧ (m.link source target).1.known = m.known := by
  rw [link_map]
  exact ⟨rfl, rfl⟩

theorem query_ground (m : DependencyMap) (name : Text) :
    (m.transitiveDependenciesOf name).1.index = m.index ∧
      (m.transitiveDependenciesOf name).1.known = m.known := by
  cases here : m.ref? name with
  | none =>
    rw [query_unknown here]
    exact ⟨rfl, rfl⟩
  | some self =>
    rw [query_map here]
    exact ⟨rfl, rfl⟩

theorem contains_act (m : DependencyMap) (action : Action) (x : Text) :
    (m.act action).contains x = true ↔ m.contains x = true ∨ x ∈ action.mentions := by
  cases action with
  | register name =>
    rw [Action.mentions, List.mem_singleton]
    exact contains_resolve m name x
  | add source target =>
    have linked : (m.act (.add source target)).contains x =
        ((m.resolve source).1.resolve target).1.contains x := by
      rw [contains, contains, act, addDependency, (link_ground _ _ _).1]
    simp [linked, contains_resolve, Action.mentions, or_assoc]
  | query name =>
    rw [contains, contains, act, (query_ground m name).1]
    simp [Action.mentions]

theorem known_act (m : DependencyMap) (action : Action) (x : Text) :
    x ∈ (m.act action).known ↔ x ∈ m.known ∨ x ∈ action.registers := by
  cases action with
  | register name =>
    rw [act, register_map, known_resolve, Std.ExtTreeSet.mem_insert, Action.registers,
      List.mem_singleton, Std.LawfulEqCmp.compare_eq_iff_eq, eq_comm]
    exact or_comm
  | add source target =>
    rw [act, addDependency, (link_ground _ _ _).2, known_resolve, known_resolve]
    simp [Action.registers]
  | query name =>
    rw [act, (query_ground m name).2]
    simp [Action.registers]

theorem class_mentions (info : ClassInfo) (x : Text) :
    x ∈ (classActions info).flatMap Action.mentions ↔ x ∈ info.name :: info.references := by
  simp only [classActions, List.flatMap_cons, List.flatMap_map, Action.mentions, List.mem_append,
    List.mem_flatMap, List.mem_cons, List.not_mem_nil, or_false]
  constructor
  · intro given
    rcases given with isName | ⟨reference, member, isName | rfl⟩
    · exact .inl isName
    · exact .inl isName
    · exact .inr member
  · intro given
    rcases given with isName | member
    · exact .inl isName
    · exact .inr ⟨x, member, .inr rfl⟩

theorem step_mentions (m : DependencyMap) (s : Step) (x : Text) :
    x ∈ (s.actions m).flatMap Action.mentions ↔ x ∈ s.mentions := by
  cases s with
  | build infos =>
    rw [Step.actions, List.flatMap_assoc, Step.mentions, List.mem_flatMap, List.mem_flatMap]
    exact exists_congr fun info => and_congr_right fun _ => class_mentions info x
  | report packages reach scope =>
    cases reach with
    | direct => rfl
    | transitive => simp [Step.actions, Step.mentions, List.flatMap_map, Action.mentions]
  | _ => simp [Step.actions, Step.mentions, Action.mentions]

theorem step_registers (m : DependencyMap) (s : Step) (x : Text) :
    x ∈ (s.actions m).flatMap Action.registers ↔ x ∈ s.registers := by
  cases s with
  | build infos =>
    simp [Step.actions, List.flatMap_assoc, Step.registers, classActions, Action.registers,
      List.flatMap_map, eq_comm]
  | report packages reach scope =>
    cases reach with
    | direct => rfl
    | transitive => simp [Step.actions, Step.registers, List.flatMap_map, Action.registers]
  | _ => simp [Step.actions, Step.registers, Action.registers]

-- What every action gathers of its own, a step gathers of its actions, and a session of its steps.
section
variable {P : DependencyMap → Text → Prop} {f : Action → List Text} {g : Step → List Text}

theorem step_gathers (acts : ∀ m action x, P (act m action) x ↔ P m x ∨ x ∈ f action)
    (told : ∀ m s x, x ∈ (Step.actions m s).flatMap f ↔ x ∈ g s) (m : DependencyMap) (s : Step)
    (x : Text) : P (m.step s).1 x ↔ P m x ∨ x ∈ g s := by
  have each : ∀ (actions : List Action) (m : DependencyMap),
      P (actions.foldl act m) x ↔ P m x ∨ x ∈ actions.flatMap f := by
    intro actions
    induction actions with
    | nil => simp
    | cons action actions ih =>
      intro m
      rw [List.foldl_cons, ih, acts, List.flatMap_cons, List.mem_append, or_assoc]
  rw [step_actions, each, told]

theorem run_gathers (each : ∀ m s x, P (step m s).1 x ↔ P m x ∨ x ∈ g s) (m : DependencyMap)
    (steps : List Step) (x : Text) : P (m.run steps).1 x ↔ P m x ∨ x ∈ steps.flatMap g := by
  induction steps generalizing m with
  | nil => simp [run]
  | cons first steps ih =>
    refine (ih (m.step first).1).trans ?_
    rw [each, List.flatMap_cons, List.mem_append, or_assoc]

end

theorem contains_step (m : DependencyMap) (s : Step) (x : Text) :
    (m.step s).1.contains x = true ↔ m.contains x = true ∨ x ∈ s.mentions :=
  step_gathers (P := fun m x => m.contains x = true) contains_act step_mentions m s x

theorem known_step (m : DependencyMap) (s : Step) (x : Text) :
    x ∈ (m.step s).1.known ↔ x ∈ m.known ∨ x ∈ s.registers :=
  step_gathers (P := fun m x => x ∈ m.known) known_act step_registers m s x

theorem contains_run (steps : List Step) (x : Text) :
    (run {} steps).1.contains x = true ↔ x ∈ steps.flatMap Step.mentions := by
  have gathered := run_gathers (P := fun m x => m.contains x = true) contains_step {} steps x
  simpa [contains] using gathered

theorem known_run (steps : List Step) (x : Text) :
    x ∈ (run {} steps).1.known ↔ x ∈ steps.flatMap Step.registers := by
  have gathered := run_gathers (P := fun m x => x ∈ m.known) known_step {} steps x
  simpa using gathered

end ClassAtlas.DependencyMap
