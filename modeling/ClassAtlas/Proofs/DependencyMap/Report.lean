import ClassAtlas.Proofs.DependencyMap.Reachability
import ClassAtlas.Proofs.Graph.Order
import ClassAtlas.Report.Build

/-!
What a report tells of a map. The dependencies of each class are those its edges lead to, in one
step or in any number, as far as the scope admits them. Putting one entry together changes what
the map remembers, and no other entry.
-/

namespace ClassAtlas

def Reach.follows (edge : Text → Text → Prop) : Reach → Text → Text → Prop
  | .direct => edge
  | .transitive => Relation.TransGen edge

-- An entry that lists what its class leads to, by package and then by name.
structure ClassReport.Tells (edge : Text → Text → Prop) (packages : NameSet) (reach : Reach)
    (scope : DependencyMap.Scope) (report : ClassReport) : Prop where
  package : report.package = packageOf report.name
  ascends : report.dependencies.Pairwise Text.Precedes
  lists : ∀ x, x ∈ report.dependencies ↔
    x ≠ report.name ∧ reach.follows edge report.name x ∧ scope.admits packages x = true

namespace ClassReport
variable {edge : Text → Text → Prop} {packages : NameSet} {reach : Reach}
  {scope : DependencyMap.Scope} {report other : ClassReport} {reports others : List ClassReport}

theorem Tells.unique (tells : report.Tells edge packages reach scope)
    (tells' : other.Tells edge packages reach scope) (same : report.name = other.name) :
    report = other := by
  have package := tells.package.trans ((congrArg packageOf same).trans tells'.package.symm)
  have listed := tells.ascends.eq_of_mem_iff tells'.ascends fun x => by
    rw [tells.lists, tells'.lists, same]
  cases report
  cases other
  cases same
  cases package
  cases listed
  rfl

theorem tells_unique (tells : ∀ report ∈ reports, Tells edge packages reach scope report)
    (tells' : ∀ report ∈ others, Tells edge packages reach scope report)
    (same : reports.map (·.name) = others.map (·.name)) : reports = others := by
  induction reports generalizing others with
  | nil => exact (List.map_eq_nil_iff.mp same.symm).symm
  | cons report reports ih =>
    obtain ⟨other, later, rfl, name, rest⟩ := List.map_eq_cons_iff.mp same.symm
    have first := (tells report List.mem_cons_self).unique (tells' other List.mem_cons_self)
      name.symm
    rw [first, ih (fun r member => tells r (.tail _ member))
      (fun r member => tells' r (.tail _ member)) rest.symm]

end ClassReport

namespace DependencyMap
variable {m : DependencyMap} {name x : Text} {r : Ref} {packages : NameSet} {reach : Reach}
  {scope : Scope}

theorem direct_exact (kept : m.Kept) (here : m.ref? name = some r) :
    (∀ x, x ∈ Buckets.namesIn (m.graph.directGroups r) ↔ m.Edge name x) ∧
      Buckets.WellGrouped (m.graph.directGroups r) := by
  obtain ⟨node, found⟩ := kept.node_of_ref here
  have tidy := (kept.sound name node found).edges_tidy
  have groups : m.graph.directGroups r = node.edges.groups := by
    rw [Graph.directGroups, ← node_of_ref here, found]
  rw [groups]
  refine ⟨fun x => ?_, tidy.well_grouped⟩
  rw [tidy.mem_names_in, edge_iff_has found]

theorem nodes_exact (kept : m.Kept) (name : Text) :
    ((m.dependencyNodesOf name).map (·.name)).Pairwise Text.Precedes ∧
      ∀ x, x ∈ (m.dependencyNodesOf name).map (·.name) ↔ m.Edge name x := by
  cases found : m.node? name with
  | none => simp [dependencyNodesOf, Edge, found]
  | some node =>
    have tidy := (kept.sound name node found).edges_tidy
    have names : (m.dependencyNodesOf name).map (·.name) = Buckets.namesIn node.edges.groups := by
      rw [dependencyNodesOf, found, Buckets.names_in_groups]
    rw [names]
    refine ⟨tidy.well_grouped.names_precede, fun x => ?_⟩
    rw [tidy.mem_names_in, edge_iff_has found]

theorem reached_exact (kept : m.Kept) (reach : Reach) (name : Text) :
    ((m.reachedFrom reach name).2.map (·.name)).Pairwise Text.Precedes ∧
      ∀ x, x ∈ (m.reachedFrom reach name).2.map (·.name) ↔
        x ≠ name ∧ reach.follows m.Edge name x := by
  cases reach with
  | direct =>
    obtain ⟨ascends, listed⟩ := nodes_exact kept name
    refine ⟨ascends, fun x => (listed x).trans ⟨?_, And.right⟩⟩
    exact fun edge => ⟨(edge_apart kept edge).symm, edge⟩
  | transitive =>
    obtain ⟨listed, grouped⟩ := query_exact kept name
    have names : (m.reachedFrom .transitive name).2.map (·.name) =
        Buckets.namesIn (m.transitiveDependenciesOf name).2.1 := List.map_flatMap
    rw [names]
    exact ⟨grouped.names_precede, listed⟩

theorem reached_kept (kept : m.Kept) (reach : Reach) (name : Text) :
    Kept (m.reachedFrom reach name).1 ∧ (m.reachedFrom reach name).1.Edge = m.Edge := by
  cases reach with
  | direct => exact ⟨kept, rfl⟩
  | transitive =>
    refine ⟨kept_query kept name, ?_⟩
    funext x y
    exact propext (edge_query kept name x y)

theorem report_tells (kept : m.Kept) (packages : NameSet) (reach : Reach) (scope : Scope)
    (name : Text) : (m.reportOn packages reach scope name).2.Tells m.Edge packages reach scope := by
  obtain ⟨ascends, listed⟩ := reached_exact kept reach name
  refine ⟨rfl, ascends.filter _, fun x => ?_⟩
  exact List.mem_filter.trans ((and_congr_left' (listed x)).trans and_assoc)

-- The entries are put together one after the other, and each in a map the earlier ones changed.
theorem reports_exact (kept : m.Kept) (packages : NameSet) (reach : Reach) (scope : Scope)
    (names : List Text) :
    (m.reportOnEach packages reach scope names).2.map (·.name) = names ∧
      ∀ report ∈ (m.reportOnEach packages reach scope names).2,
        report.Tells m.Edge packages reach scope := by
  induction names generalizing m with
  | nil => simp [reportOnEach]
  | cons name names ih =>
    obtain ⟨kept', edges⟩ := reached_kept kept reach name
    obtain ⟨named, tells⟩ := ih kept'
    rw [edges] at tells
    constructor
    · exact congrArg (name :: ·) named
    · intro report member
      rcases List.mem_cons.mp member with rfl | later
      · exact report_tells kept packages reach scope name
      · exact tells report later

end DependencyMap
end ClassAtlas
