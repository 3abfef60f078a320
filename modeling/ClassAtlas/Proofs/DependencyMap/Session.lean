import ClassAtlas.DependencyMap.Session
import ClassAtlas.Proofs.DependencyMap.Query

/-!
Sessions as rows of three actions: a name is registered, a dependency is added, a transitive
question is asked. Every step of a session does some of these and nothing else to the map, so
what each action keeps holds after every session.
-/

namespace ClassAtlas

namespace DependencyMap

inductive Action where
  | register (name : Text)
  | add (source target : Text)
  | query (name : Text)

def act (m : DependencyMap) : Action → DependencyMap
  | .register name => m.register name
  | .add source target => (m.addDependency source target).1
  | .query name => (m.transitiveDependenciesOf name).1

def classActions (info : ClassInfo) : List Action :=
  .register info.name :: info.references.map (.add info.name)

-- A transitive report asks about each class it lists.
def Step.actions (m : DependencyMap) : Step → List Action
  | .register name => [.register name]
  | .add source target => [.add source target]
  | .build infos => infos.flatMap classActions
  | .transitive name => [.query name]
  | .report packages .transitive _ =>
    let chosen : NameSet := .ofList packages
    (m.classes.filter fun name => chosen.contains (packageOf name)).map .query
  | _ => []

def sessionActions (m : DependencyMap) : List Step → List Action
  | [] => []
  | first :: steps => first.actions m ++ sessionActions (m.step first).1 steps

variable {m : DependencyMap} {x y : Text}

theorem add_class_actions (m : DependencyMap) (info : ClassInfo) :
    m.addClass info = (classActions info).foldl act m := by
  rw [addClass, classActions, List.foldl_cons, List.foldl_map]
  rfl

theorem build_actions (m : DependencyMap) (infos : List ClassInfo) :
    m.build infos = (infos.flatMap classActions).foldl act m := by
  induction infos generalizing m with
  | nil => rfl
  | cons info infos ih =>
    rw [List.flatMap_cons, List.foldl_append, ← add_class_actions]
    exact ih (m.addClass info)

theorem report_direct (m : DependencyMap) (packages : NameSet) (scope : Scope)
    (names : List Text) : (m.reportOnEach packages .direct scope names).1 = m := by
  induction names with
  | nil => rfl
  | cons name names ih => exact ih

theorem report_transitive (m : DependencyMap) (packages : NameSet) (scope : Scope)
    (names : List Text) :
    (m.reportOnEach packages .transitive scope names).1 = (names.map .query).foldl act m := by
  induction names generalizing m with
  | nil => rfl
  | cons name names ih => exact ih (m.transitiveDependenciesOf name).1

theorem step_actions (m : DependencyMap) (s : Step) :
    (m.step s).1 = (s.actions m).foldl act m := by
  cases s with
  | build infos => exact build_actions m infos
  | report packages reach scope =>
    cases reach with
    | direct => exact report_direct m _ scope _
    | transitive => exact report_transitive m _ scope _
  | _ => rfl

theorem run_actions (m : DependencyMap) (steps : List Step) :
    (m.run steps).1 = (sessionActions m steps).foldl act m := by
  induction steps generalizing m with
  | nil => rfl
  | cons first steps ih =>
    rw [sessionActions, List.foldl_append, ← step_actions]
    exact ih (m.step first).1

/-! The invariant along a session. -/

theorem register_map (m : DependencyMap) (name : Text) :
    m.register name =
      { (m.resolve name).1 with known := (m.resolve name).1.known.insert name } := rfl

theorem kept_known {known : NameSet} (kept : m.Kept) : Kept { m with known } where
  indexed := kept.indexed
  sound := fun name node found =>
    (kept.sound name node found).carry (fun _ _ => id) (fun _ _ => Iff.rfl)
  mirror := kept.mirror

theorem kept_add (kept : m.Kept) (source target : Text) :
    Kept (m.addDependency source target).1 := by
  have first := kept_resolve kept source
  have second := kept_resolve first target
  exact kept_link second (ref_resolve_old (ref_resolve m source) target) (ref_resolve _ target)

theorem kept_act (kept : m.Kept) (action : Action) : Kept (m.act action) := by
  cases action with
  | register name =>
    rw [act, register_map]
    exact kept_known (kept_resolve kept name)
  | add source target => exact kept_add kept source target
  | query name => exact kept_query kept name

theorem kept_actions (kept : m.Kept) (actions : List Action) : Kept (actions.foldl act m) := by
  induction actions generalizing m with
  | nil => exact kept
  | cons action actions ih => exact ih (kept_act kept action)

theorem kept_run (steps : List Step) : Kept (run {} steps).1 := by
  rw [run_actions]
  exact kept_actions kept_empty _

/-! The edges of a session. -/

def Action.links : Action → List (Text × Text)
  | .add source target => [(source, target)]
  | _ => []

-- The pairs a step offers as dependencies, those of a name on itself included.
def Step.links : Step → List (Text × Text)
  | .add source target => [(source, target)]
  | .build infos => infos.flatMap fun info => info.references.map fun target => (info.name, target)
  | _ => []

theorem step_links (m : DependencyMap) (s : Step) :
    (s.actions m).flatMap Action.links = s.links := by
  cases s with
  | build infos =>
    rw [Step.actions, List.flatMap_assoc, Step.links]
    congr 1
    funext info
    simp only [classActions, List.flatMap_cons, Action.links, List.nil_append, List.flatMap_map]
    exact List.map_eq_flatMap.symm
  | report packages reach scope =>
    cases reach with
    | direct => rfl
    | transitive => simp [Step.actions, Step.links, List.flatMap_map, Action.links]
  | _ => rfl

theorem edge_link_known (kept : m.Kept) {source target : Ref} {a b : Text}
    (here : m.ref? a = some source) (there : m.ref? b = some target) :
    (m.link source target).1.Edge x y ↔ m.Edge x y ∨ (x ≠ y ∧ x = a ∧ y = b) := by
  obtain ⟨node, found⟩ := kept.node_of_ref here
  have named := ref_name there
  by_cases refused : Graph.Refuses node target
  · rw [link_refused here found refused]
    refine ⟨.inl, ?_⟩
    intro given
    rcases given with old | ⟨apart, rfl, rfl⟩
    · exact old
    · rcases refused with same | has
      · rw [node_name found, named] at same
        exact absurd same apart
      · rw [named] at has
        exact ⟨node, found, has⟩
  · rw [edge_link kept here there found refused]
    refine or_congr_right ⟨?_, And.right⟩
    intro given
    obtain ⟨rfl, rfl⟩ := given
    refine ⟨?_, rfl, rfl⟩
    intro same
    subst same
    exact refused (.inl ((node_name found).trans named.symm))

theorem edge_act (kept : m.Kept) (action : Action) :
    (m.act action).Edge x y ↔ m.Edge x y ∨ (x ≠ y ∧ (x, y) ∈ action.links) := by
  cases action with
  | register name =>
    simp only [Action.links, List.not_mem_nil, and_false, or_false]
    exact edge_resolve kept name x y
  | query name =>
    simp only [Action.links, List.not_mem_nil, and_false, or_false]
    exact edge_query kept name x y
  | add source target =>
    have first := kept_resolve kept source
    have second := kept_resolve first target
    have linked := edge_link_known (x := x) (y := y) second
      (ref_resolve_old (ref_resolve m source) target) (ref_resolve _ target)
    rw [edge_resolve first, edge_resolve kept] at linked
    simp only [Action.links, List.mem_singleton, Prod.mk.injEq]
    exact linked

theorem edge_actions (kept : m.Kept) (actions : List Action) :
    (actions.foldl act m).Edge x y ↔ m.Edge x y ∨ (x ≠ y ∧ (x, y) ∈ actions.flatMap Action.links) := by
  induction actions generalizing m with
  | nil => simp
  | cons action actions ih =>
    rw [List.foldl_cons, ih (kept_act kept action), edge_act kept action, List.flatMap_cons,
      List.mem_append, or_assoc, ← and_or_left]

theorem session_links (m : DependencyMap) (steps : List Step) :
    (sessionActions m steps).flatMap Action.links = steps.flatMap Step.links := by
  induction steps generalizing m with
  | nil => rfl
  | cons first steps ih =>
    rw [sessionActions, List.flatMap_append, step_links, ih, List.flatMap_cons]

-- The edges are the pairs that were offered, except those of a name on itself.
theorem edge_run (steps : List Step) :
    (run {} steps).1.Edge x y ↔ x ≠ y ∧ (x, y) ∈ steps.flatMap Step.links := by
  have none_yet : ¬ Edge {} x y := by
    intro given
    obtain ⟨node, found, _⟩ := given
    simp [node?, ref?] at found
  rw [run_actions, edge_actions kept_empty, session_links]
  simp only [none_yet, false_or]

end DependencyMap
end ClassAtlas
