import ClassAtlas.Proofs.DependencyMap.Exploration
import ClassAtlas.Proofs.DependencyMap.Session
import ClassAtlas.Proofs.Graph.AnyOrder

/-!
The dependency map with its sets gone through in any order. Every step of a session goes to the
graph for what needs a set, so whatever the orders it comes to the same map and the same answer.
-/

namespace ClassAtlas

open Anyhow (Always Gives gives_pure)

/-! The search for cycles asks for the direct dependencies of each node that it visits. -/

def Buckets.refsAnyhow (b : Buckets) : Anyhow (List Ref) := do
  let groups ← b.groupsAnyhow
  return groups.flatMap (·.2)

theorem Buckets.refs_anyhow (b : Buckets) : b.refsAnyhow.Gives b.refs :=
  (groups_anyhow b).bind (gives_pure _)

namespace CycleSearch
variable {g : Graph} {s : CycleSearch}

def stepAnyhow (g : Graph) (s : CycleSearch) : Anyhow (Option CycleSearch) :=
  match s.stack with
  | [] => pure none
  | ⟨_, []⟩ :: below => pure (some { s with stack := below })
  | ⟨name, target :: untried⟩ :: below =>
    let here := ⟨name, untried⟩ :: below
    match g.deref target with
    | none => pure (some { s with stack := here })
    | some node =>
      if s.visited.contains target.name then
        if here.any (·.name == target.name) then
          pure (some { s with stack := here, cycles := closedPath target.name here :: s.cycles })
        else pure (some { s with stack := here })
      else do
        let refs ← node.edges.refsAnyhow
        return some { s with
          visited := s.visited.insert target.name
          stack := ⟨target.name, refs⟩ :: here }

theorem step_anyhow (g : Graph) (s : CycleSearch) : (stepAnyhow g s).Gives (step g s) := by
  cases stack : s.stack with
  | nil =>
    simp only [stepAnyhow, step, stack]
    exact gives_pure _
  | cons frame below =>
    obtain ⟨name, untried⟩ := frame
    cases untried with
    | nil =>
      simp only [stepAnyhow, step, stack]
      exact gives_pure _
    | cons target untried =>
      simp only [stepAnyhow, step, stack]
      cases g.deref target with
      | none => exact gives_pure _
      | some node =>
        dsimp only
        split
        · split
          · exact gives_pure _
          · exact gives_pure _
        · exact (Buckets.refs_anyhow _).bind (gives_pure _)

theorem step_anyhow_descends (g : Graph) :
    Anyhow.Descends (fun s => (g.unmarked s.visited.contains, load s.stack)) (stepAnyhow g) := by
  intro s orders next stepped
  rw [step_anyhow g s orders] at stepped
  exact step_descends stepped

def runAnyhow (g : Graph) : CycleSearch → Anyhow CycleSearch :=
  Anyhow.loop _ (stepAnyhow g) (step_anyhow_descends g)

theorem run_anyhow (g : Graph) (s : CycleSearch) : (runAnyhow g s).Gives (run g s) := by
  induction s using run.induct g with
  | case1 s stopped =>
    rw [run_stop stopped, runAnyhow, Anyhow.loop_next]
    refine (step_anyhow g s).bind ?_
    rw [stopped]
    exact gives_pure _
  | case2 s next stepped ih =>
    rw [run_next stepped, runAnyhow, Anyhow.loop_next]
    refine (step_anyhow g s).bind ?_
    rw [stepped]
    exact ih

def fromRootAnyhow (g : Graph) (s : CycleSearch) (root : Ref) : Anyhow CycleSearch :=
  if s.visited.contains root.name then pure s
  else match g.deref root with
    | none => pure s
    | some node => do
      let refs ← node.edges.refsAnyhow
      runAnyhow g { s with
        visited := s.visited.insert root.name
        stack := [⟨root.name, refs⟩] }

theorem from_root_anyhow (g : Graph) (s : CycleSearch) (root : Ref) :
    (fromRootAnyhow g s root).Gives (fromRoot g s root) := by
  unfold fromRootAnyhow fromRoot
  split
  · exact gives_pure _
  · cases g.deref root with
    | none => exact gives_pure _
    | some node => exact (Buckets.refs_anyhow _).bind (run_anyhow g _)

end CycleSearch

namespace DependencyMap

variable {m : DependencyMap}

def linkAnyhow : DependencyMap → Ref → Ref → Anyhow (DependencyMap × Bool)
  | ⟨graph, index, known⟩, source, target => do
    let (graph, added) ← graph.addEdgeAnyhow source target
    return (⟨graph, index, known⟩, added)

def addDependencyAnyhow (m : DependencyMap) (source target : Text) :
    Anyhow (DependencyMap × Bool) :=
  let (m, sourceRef) := m.resolve source
  let (m, targetRef) := m.resolve target
  m.linkAnyhow sourceRef targetRef

def addReferenceAnyhow (source : Text) (m : DependencyMap) (target : Text) :
    Anyhow DependencyMap := do
  let (m, _) ← m.addDependencyAnyhow source target
  return m

def addClassAnyhow (m : DependencyMap) (info : ClassInfo) : Anyhow DependencyMap :=
  info.references.foldlM (addReferenceAnyhow info.name) (m.register info.name)

def buildAnyhow (m : DependencyMap) (infos : List ClassInfo) : Anyhow DependencyMap :=
  infos.foldlM addClassAnyhow m

def dependencyNodesOfAnyhow (m : DependencyMap) (name : Text) : Anyhow (List Ref) :=
  match m.node? name with
  | none => pure []
  | some node => node.edges.refsAnyhow

def directGroupsOfAnyhow (m : DependencyMap) (name : Text) :
    Anyhow (Option (List (Text × List Ref))) :=
  match m.ref? name with
  | none => pure none
  | some r => do
    let groups ← m.graph.directGroupsAnyhow r
    return some groups

def transitiveGroupsAnyhow :
    DependencyMap → Ref → Anyhow (DependencyMap × List (Text × List Ref) × List Ref)
  | ⟨graph, index, known⟩, r => do
    let (graph, groups, merges) ← graph.transitiveGroupsAnyhow r
    return (⟨graph, index, known⟩, groups, merges)

def transitiveDependenciesOfAnyhow (m : DependencyMap) (name : Text) :
    Anyhow (DependencyMap × List (Text × List Ref) × List Ref) :=
  match m.ref? name with
  | none => pure (m, [], [])
  | some r => m.transitiveGroupsAnyhow r

def detectCyclesAnyhow (m : DependencyMap) : Anyhow (List (List Text)) := do
  let search ← (m.names.filterMap m.ref?).foldlM (CycleSearch.fromRootAnyhow m.graph) {}
  return search.cycles.reverse

def reachedFromAnyhow (m : DependencyMap) (reach : Reach) (name : Text) :
    Anyhow (DependencyMap × List Ref) :=
  match reach with
  | .direct => do
    let refs ← m.dependencyNodesOfAnyhow name
    return (m, refs)
  | .transitive => do
    let (m, groups, _) ← m.transitiveDependenciesOfAnyhow name
    return (m, groups.flatMap (·.2))

def reportOnAnyhow (m : DependencyMap) (packages : NameSet) (reach : Reach) (scope : Scope)
    (name : Text) : Anyhow (DependencyMap × ClassReport) := do
  let (m, reached) ← m.reachedFromAnyhow reach name
  return (m, ⟨name, packageOf name, (reached.map (·.name)).filter (scope.admits packages)⟩)

def reportOnEachAnyhow (m : DependencyMap) (packages : NameSet) (reach : Reach) (scope : Scope) :
    List Text → Anyhow (DependencyMap × List ClassReport)
  | [] => pure (m, [])
  | name :: names => do
    let (m, report) ← m.reportOnAnyhow packages reach scope name
    let (m, reports) ← m.reportOnEachAnyhow packages reach scope names
    return (m, report :: reports)

def stepAnyhow (m : DependencyMap) : Step → Anyhow (DependencyMap × Answer)
  | .add source target => do
    let (m, added) ← m.addDependencyAnyhow source target
    return (m, .flag added)
  | .build infos => do
    let m ← m.buildAnyhow infos
    return (m, .count m.size)
  | .dependencies name => do
    let refs ← m.dependencyNodesOfAnyhow name
    return (m, .names (Std.ExtTreeSet.ofList (refs.map (·.name))).toList)
  | .dependencyNodes name => do
    let refs ← m.dependencyNodesOfAnyhow name
    return (m, .names (refs.map (·.name)))
  | .direct name => do
    let groups ← m.directGroupsOfAnyhow name
    return (m, .groups (groups.map groupNames))
  | .transitive name => do
    let (m, groups, merges) ← m.transitiveDependenciesOfAnyhow name
    return (m, .closure (groupNames groups) (merges.map (·.name)))
  | .cycles => do
    let cycles ← m.detectCyclesAnyhow
    return (m, .paths cycles)
  | .report packages reach scope => do
    let chosen : NameSet := .ofList packages
    let (m, reports) ← m.reportOnEachAnyhow chosen reach scope
      (m.classes.filter fun name => chosen.contains (packageOf name))
    return (m, .report reach reports)
  | other => pure (m.step other)

def runAnyhow (m : DependencyMap) : List Step → Anyhow (DependencyMap × List Answer)
  | [] => pure (m, [])
  | first :: steps => do
    let (m, answer) ← m.stepAnyhow first
    let (m, answers) ← m.runAnyhow steps
    return (m, answer :: answers)

/-! The closures stay tidy. -/

theorem tidied_resolve (tidy : m.graph.Tidied) (name : Text) :
    (m.resolve name).1.graph.Tidied := by
  unfold resolve
  split
  · exact tidy
  · exact Graph.tidied_create tidy name

theorem tidied_add (tidy : m.graph.Tidied) (source target : Text) :
    (m.addDependency source target).1.graph.Tidied :=
  Graph.tidied_add_edge (tidied_resolve (tidied_resolve tidy source) target) _ _

theorem tidied_query (tidy : m.graph.Tidied) (name : Text) :
    (m.transitiveDependenciesOf name).1.graph.Tidied := by
  unfold transitiveDependenciesOf
  split
  · exact tidy
  · exact Graph.tidied_flatten tidy _

theorem tidied_act (tidy : m.graph.Tidied) (action : Action) : (m.act action).graph.Tidied := by
  cases action with
  | register name => exact tidied_resolve tidy name
  | add source target => exact tidied_add tidy source target
  | query name => exact tidied_query tidy name

theorem tidied_actions (tidy : m.graph.Tidied) (actions : List Action) :
    (actions.foldl act m).graph.Tidied := by
  induction actions generalizing m with
  | nil => exact tidy
  | cons action actions ih => exact ih (tidied_act tidy action)

/-! Each operation gives what it gives with its sets in order. -/

theorem add_anyhow (m : DependencyMap) (source target : Text) :
    (m.addDependencyAnyhow source target).Gives (m.addDependency source target) :=
  (Graph.add_edge_anyhow _ _ _).bind (gives_pure _)

theorem add_reference_anyhow (source : Text) (m : DependencyMap) (target : Text) :
    (addReferenceAnyhow source m target).Gives (m.addDependency source target).1 :=
  (add_anyhow m source target).bind (gives_pure _)

theorem add_class_anyhow (m : DependencyMap) (info : ClassInfo) :
    (m.addClassAnyhow info).Gives (m.addClass info) :=
  Anyhow.gives_fold _ (add_reference_anyhow info.name) _

theorem build_anyhow (m : DependencyMap) (infos : List ClassInfo) :
    (m.buildAnyhow infos).Gives (m.build infos) :=
  Anyhow.gives_fold _ add_class_anyhow m

theorem dependency_nodes_anyhow (m : DependencyMap) (name : Text) :
    (m.dependencyNodesOfAnyhow name).Gives (m.dependencyNodesOf name) := by
  unfold dependencyNodesOfAnyhow dependencyNodesOf
  cases m.node? name with
  | none => exact gives_pure _
  | some node => exact Buckets.refs_anyhow _

theorem direct_groups_anyhow (m : DependencyMap) (name : Text) :
    (m.directGroupsOfAnyhow name).Gives ((m.ref? name).map m.graph.directGroups) := by
  unfold directGroupsOfAnyhow
  cases m.ref? name with
  | none => exact gives_pure _
  | some r => exact (Graph.direct_anyhow m.graph r).bind (gives_pure _)

theorem query_anyhow (tidy : m.graph.Tidied) (name : Text) :
    (m.transitiveDependenciesOfAnyhow name).Gives (m.transitiveDependenciesOf name) := by
  unfold transitiveDependenciesOfAnyhow transitiveDependenciesOf
  cases m.ref? name with
  | none => exact gives_pure _
  | some r => exact (Graph.transitive_anyhow tidy r).bind (gives_pure _)

theorem cycles_anyhow (m : DependencyMap) : m.detectCyclesAnyhow.Gives m.detectCycles :=
  (Anyhow.gives_fold _ (CycleSearch.from_root_anyhow m.graph) _).bind (gives_pure _)

theorem reached_anyhow (tidy : m.graph.Tidied) (reach : Reach) (name : Text) :
    (m.reachedFromAnyhow reach name).Gives (m.reachedFrom reach name) := by
  cases reach with
  | direct => exact (dependency_nodes_anyhow m name).bind (gives_pure _)
  | transitive => exact (query_anyhow tidy name).bind (gives_pure _)

theorem tidied_reached (tidy : m.graph.Tidied) (reach : Reach) (name : Text) :
    (m.reachedFrom reach name).1.graph.Tidied := by
  cases reach with
  | direct => exact tidy
  | transitive => exact tidied_query tidy name

theorem report_anyhow (tidy : m.graph.Tidied) (packages : NameSet) (reach : Reach) (scope : Scope)
    (names : List Text) : (m.reportOnEachAnyhow packages reach scope names).Gives
      (m.reportOnEach packages reach scope names) := by
  induction names generalizing m with
  | nil => exact gives_pure _
  | cons name names ih =>
    have first : (m.reportOnAnyhow packages reach scope name).Gives
        (m.reportOn packages reach scope name) :=
      (reached_anyhow tidy reach name).bind (gives_pure _)
    exact first.bind ((ih (tidied_reached tidy reach name)).bind (gives_pure _))

theorem step_anyhow (tidy : m.graph.Tidied) (s : Step) : (m.stepAnyhow s).Gives (m.step s) := by
  cases s with
  | add source target => exact (add_anyhow m source target).bind (gives_pure _)
  | build infos => exact (build_anyhow m infos).bind (gives_pure _)
  | dependencies name => exact (dependency_nodes_anyhow m name).bind (gives_pure _)
  | dependencyNodes name => exact (dependency_nodes_anyhow m name).bind (gives_pure _)
  | direct name =>
    refine (direct_groups_anyhow m name).bind ?_
    rw [Option.map_map]
    exact gives_pure _
  | transitive name => exact (query_anyhow tidy name).bind (gives_pure _)
  | cycles => exact (cycles_anyhow m).bind (gives_pure _)
  | report packages reach scope =>
    exact (report_anyhow tidy _ reach scope _).bind (gives_pure _)
  | _ => exact gives_pure _

theorem run_anyhow (tidy : m.graph.Tidied) (steps : List Step) :
    (m.runAnyhow steps).Gives (m.run steps) := by
  induction steps generalizing m with
  | nil => exact gives_pure _
  | cons first steps ih =>
    have later : (m.step first).1.graph.Tidied := by
      rw [step_actions]
      exact tidied_actions tidy _
    exact (step_anyhow tidy first).bind ((ih later).bind (gives_pure _))

-- A session on a map, and one on free-standing nodes, comes to the same state and the same answers
-- in whatever orders its sets are gone through. The merges of a query are among its answers.
theorem order_unobservable (orders : Orders) :
    (∀ steps : List Step, (runAnyhow {} steps).result orders = run {} steps) ∧
    ∀ steps : List Graph.Step, (Graph.runAnyhow {} steps).result orders = Graph.run {} steps :=
  ⟨fun steps => run_anyhow Graph.tidied_empty steps orders,
    fun steps => Graph.run_anyhow Graph.tidied_empty steps orders⟩

end DependencyMap
end ClassAtlas
