import Mathlib.Data.List.Dedup
import ClassAtlas.Proofs.DependencyMap.Agreement
import ClassAtlas.Proofs.DependencyMap.History

/-!
What is left of a session when the order of its steps is forgotten. The names it registers, the
names it mentions and the pairs it adds decide every later answer about the classes, and how many
dependencies were new; what was asked in between decides nothing.
-/

namespace ClassAtlas.DependencyMap

-- An answer as its caller reads it: a closure does not say from whose it was put together.
def Answer.shown : Answer → Answer
  | .closure reached _ => .closure reached []
  | answer => answer

-- Every step but the one that asks what a node has pending.
def Step.onClasses : Step → Prop
  | .pending _ => False
  | _ => True

variable {m n : DependencyMap} {name : Text}

theorem Agrees.ref_bind {α : Type} (agrees : Agrees m n) {f g : Ref → Option α}
    (same : ∀ r q, m.ref? name = some r → n.ref? name = some q → f r = g q) :
    (m.ref? name).bind f = (n.ref? name).bind g := by
  have both := agrees.ref_rel name
  cases here : m.ref? name with
  | none =>
    cases there : n.ref? name with
    | none => rfl
    | some q => rw [here, there] at both; cases both
  | some r =>
    cases there : n.ref? name with
    | none => rw [here, there] at both; cases both
    | some q => exact same r q here there

theorem Agrees.ref_map {α : Type} (agrees : Agrees m n) {f g : Ref → α}
    (same : ∀ r q, m.ref? name = some r → n.ref? name = some q → f r = g q) :
    (m.ref? name).map f = (n.ref? name).map g := by
  simp only [Option.map_eq_bind]
  exact agrees.ref_bind fun r q here there => congrArg some (same r q here there)

theorem Agrees.dependencies (agrees : Agrees m n) (name : Text) :
    m.dependenciesOf name = n.dependenciesOf name := by
  rw [dependenciesOf, dependenciesOf, agrees.node_names]

theorem Agrees.direct (agrees : Agrees m n) (name : Text) :
    ((m.ref? name).map fun r => groupNames (m.graph.directGroups r)) =
      (n.ref? name).map fun r => groupNames (n.graph.directGroups r) := by
  refine agrees.ref_map fun r q here there => ?_
  obtain ⟨listed, grouped⟩ := direct_exact agrees.left here
  obtain ⟨listed', grouped'⟩ := direct_exact agrees.right there
  refine grouped.unique grouped' fun x => ?_
  rw [listed, listed', agrees.edges]

theorem Agrees.transitive (agrees : Agrees m n) (name : Text) :
    groupNames (m.transitiveDependenciesOf name).2.1 =
      groupNames (n.transitiveDependenciesOf name).2.1 := by
  obtain ⟨listed, grouped⟩ := query_exact agrees.left name
  obtain ⟨listed', grouped'⟩ := query_exact agrees.right name
  refine grouped.unique grouped' fun x => ?_
  rw [listed, listed', Reaches, Reaches, agrees.edges]

theorem edge_any (m : DependencyMap) (x y : Text) :
    (m.node? x).any (·.dependsOn y) = true ↔ m.Edge x y :=
  Option.any_eq_true ..

theorem Agrees.dependents (agrees : Agrees m n) (name : Text) :
    m.dependentsOf name = n.dependentsOf name := by
  rw [dependentsOf, dependentsOf, agrees.contains, agrees.names]
  congr 1
  refine List.filter_congr fun x _ => ?_
  rw [Bool.eq_iff_iff, edge_any, edge_any, agrees.edges]

theorem Agrees.depends_on (agrees : Agrees m n) (source target : Text) :
    (do return m.graph.dependsOn (← m.ref? source) (← m.ref? target) : Option Bool) =
      do return n.graph.dependsOn (← n.ref? source) (← n.ref? target) := by
  refine agrees.ref_bind fun r q here there => agrees.ref_bind fun r' q' here' there' => ?_
  refine congrArg some ?_
  rw [Graph.dependsOn, Graph.dependsOn, ← node_of_ref here, ← node_of_ref there, ref_name here',
    ref_name there', Bool.eq_iff_iff, edge_any, edge_any, agrees.edges]

theorem Agrees.report (agrees : Agrees m n) (packages : NameSet) (reach : Reach) (scope : Scope) :
    (m.buildReport packages reach scope).2 = (n.buildReport packages reach scope).2 := by
  rw [buildReport, buildReport, classes, classes, agrees.known]
  obtain ⟨named, tells⟩ := reports_exact agrees.left packages reach scope _
  obtain ⟨named', tells'⟩ := reports_exact agrees.right packages reach scope _
  refine ClassReport.tells_unique tells ?_ (named.trans named'.symm)
  rw [agrees.edges]
  exact tells'

theorem Agrees.added (agrees : Agrees m n) (source target : Text) :
    (m.addDependency source target).2 = (n.addDependency source target).2 := by
  rw [Bool.eq_iff_iff, added_iff agrees.left, added_iff agrees.right, agrees.edges]

theorem Agrees.size (agrees : Agrees m n) : m.size = n.size := by
  rw [DependencyMap.size, DependencyMap.size, ← Std.ExtTreeMap.length_keys, ← Std.ExtTreeMap.length_keys]
  exact congrArg List.length agrees.names

theorem Agrees.step (agrees : Agrees m n) (s : Step) : Agrees (m.step s).1 (n.step s).1 := by
  constructor
  case left =>
    rw [step_actions]
    exact kept_actions agrees.left _
  case right =>
    rw [step_actions]
    exact kept_actions agrees.right _
  case contains =>
    intro x
    rw [Bool.eq_iff_iff, contains_step, contains_step, agrees.contains]
  case known =>
    refine Std.ExtTreeSet.ext_mem fun x => ?_
    rw [known_step, known_step, agrees.known]
  case edges =>
    funext x y
    rw [step_actions, step_actions, eq_iff_iff, edge_actions agrees.left, edge_actions agrees.right,
      step_links, step_links, agrees.edges]

theorem Agrees.answer (agrees : Agrees m n) (s : Step) (classes : s.onClasses) :
    (m.step s).2.shown = (n.step s).2.shown := by
  cases s with
  | register name => rfl
  | add source target => exact congrArg Answer.flag (agrees.added source target)
  | build infos => exact congrArg Answer.count (agrees.step (.build infos)).size
  | classes => exact congrArg (Answer.names ·.toList) agrees.known
  | names => exact congrArg Answer.names agrees.names
  | size => exact congrArg Answer.count agrees.size
  | contains name => exact congrArg Answer.flag (agrees.contains name)
  | get name =>
    refine congrArg Answer.node (agrees.ref_map fun r q here there => ?_)
    rw [ref_name here, ref_name there]
  | dependencies name => exact congrArg Answer.names (agrees.dependencies name)
  | dependencyNodes name => exact congrArg Answer.names (agrees.node_names name)
  | direct name => exact congrArg Answer.groups (agrees.direct name)
  | transitive name => exact congrArg (Answer.closure · []) (agrees.transitive name)
  | dependents name => exact congrArg Answer.names (agrees.dependents name)
  | cycles => exact congrArg Answer.paths agrees.cycles
  | pending name => exact classes.elim
  | dependsOn source target => exact congrArg Answer.flag? (agrees.depends_on source target)
  | report packages reach scope =>
    let chosen : NameSet := .ofList packages
    exact congrArg (Answer.report reach) (agrees.report chosen reach scope)

theorem Agrees.answers (agrees : Agrees m n) (later : List Step)
    (classes : ∀ s ∈ later, s.onClasses) :
    (m.run later).2.map Answer.shown = (n.run later).2.map Answer.shown := by
  induction later generalizing m n with
  | nil => rfl
  | cons first later ih =>
    have rest := ih (agrees.step first) fun s member => classes s (.tail _ member)
    rw [run, run, List.map_cons, List.map_cons, agrees.answer first (classes first List.mem_cons_self)]
    exact congrArg ((n.step first).2.shown :: ·) rest

-- What is registered, mentioned and added, pairs of a name with itself apart, is all that counts.
theorem agrees_run {first second : List Step}
    (registered : ∀ x, x ∈ first.flatMap Step.registers ↔ x ∈ second.flatMap Step.registers)
    (mentioned : ∀ x, x ∈ first.flatMap Step.mentions ↔ x ∈ second.flatMap Step.mentions)
    (linked : ∀ x y, x ≠ y →
      ((x, y) ∈ first.flatMap Step.links ↔ (x, y) ∈ second.flatMap Step.links)) :
    Agrees (run {} first).1 (run {} second).1 := by
  refine ⟨kept_run first, kept_run second, ?_, ?_, ?_⟩
  · intro x
    rw [Bool.eq_iff_iff, contains_run, contains_run, mentioned]
  · refine Std.ExtTreeSet.ext_mem fun x => ?_
    rw [known_run, known_run, registered]
  · funext x y
    rw [eq_iff_iff, edge_run, edge_run]
    exact and_congr_right (linked x y)

-- The pairs that were new are the edges, each once.
theorem links_counted (steps : List Step) : (newLinks (history steps)).length =
    ((steps.flatMap Step.links).filter fun link => link.1 ≠ link.2).dedup.length := by
  have witnessed := witnessed_run steps
  refine List.Perm.length_eq ((List.perm_ext_iff_of_nodup witnessed.once (List.nodup_dedup _)).mpr ?_)
  intro link
  rw [witnessed.links link.1 link.2, edge_run, List.mem_dedup, List.mem_filter]
  simp [and_comm]

-- Two sessions that register the same names, mention the same names and add the same pairs,
-- apart from those of a name with itself, in whatever order and however often.
theorem order_free (first second : List Step)
    (registered : ∀ x, x ∈ first.flatMap Step.registers ↔ x ∈ second.flatMap Step.registers)
    (mentioned : ∀ x, x ∈ first.flatMap Step.mentions ↔ x ∈ second.flatMap Step.mentions)
    (linked : ∀ x y, x ≠ y →
      ((x, y) ∈ first.flatMap Step.links ↔ (x, y) ∈ second.flatMap Step.links)) :
    (∀ later : List Step, (∀ s ∈ later, s.onClasses) →
      ((run {} first).1.run later).2.map Answer.shown =
        ((run {} second).1.run later).2.map Answer.shown) ∧
    (newLinks (history first)).length = (newLinks (history second)).length ∧
    (newLinks (history first)).length =
      ((first.flatMap Step.links).filter fun link => link.1 ≠ link.2).dedup.length := by
  have agrees := agrees_run registered mentioned linked
  refine ⟨agrees.answers, ?_, links_counted first⟩
  have left := witnessed_run first
  have right := witnessed_run second
  refine List.Perm.length_eq ((List.perm_ext_iff_of_nodup left.once right.once).mpr ?_)
  intro link
  rw [left.links link.1 link.2, right.links link.1 link.2, agrees.edges]

-- A cycle put together from both ends, with a question in between and a repetition.
theorem order_free_cycle :
    let first : List Step := [.register "a", .add "a" "b", .transitive "a", .add "b" "a"]
    let second : List Step := [.add "b" "a", .add "a" "a", .add "a" "b", .add "b" "a", .register "a"]
    let later : List Step := [.cycles, .transitive "a", .report [""] .transitive .allPackages]
    ((run {} first).1.run later).2.map Answer.shown =
        ((run {} second).1.run later).2.map Answer.shown ∧
      (newLinks (history first)).length = (newLinks (history second)).length := by
  intro first second later
  obtain ⟨answers, counts, _⟩ := order_free first second (by simp [first, second, Step.registers])
    (by intro x; simp [first, second, Step.mentions]; tauto)
    (by intro x y apart; simp [first, second, Step.links]; grind)
  exact ⟨answers later (by simp [later, Step.onClasses]), counts⟩

end ClassAtlas.DependencyMap
