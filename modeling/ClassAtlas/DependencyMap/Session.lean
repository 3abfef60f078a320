import ClassAtlas.DependencyMap.Cycles
import ClassAtlas.Report.Build

/-!
Sessions on a dependency map: steps that change it and questions to it, each with its answer.
A transitive question changes what is remembered, never what is true of the classes.
-/

namespace ClassAtlas.DependencyMap

inductive Step where
  | register (name : Text)
  | add (source target : Text)
  | build (infos : List ClassInfo)
  | classes
  | names
  | size
  | contains (name : Text)
  | get (name : Text)
  | dependencies (name : Text)
  | dependencyNodes (name : Text)
  | direct (name : Text)
  | transitive (name : Text)
  | dependents (name : Text)
  | cycles
  | pending (name : Text)
  | dependsOn (source target : Text)
  | report (packages : List Text) (reach : Reach) (scope : Scope)

inductive Answer where
  | name (name : Text)
  | flag (value : Bool)
  | count (value : Nat)
  | names (names : List Text)
  | paths (paths : List (List Text))
  | node (name : Option Text)
  | groups (groups : Option (List (Text × List Text)))
  | closure (groups : List (Text × List Text)) (merges : List Text)
  | flag? (value : Option Bool)
  | report (reach : Reach) (reports : List ClassReport)
  deriving DecidableEq

def step (m : DependencyMap) : Step → DependencyMap × Answer
  | .register name => (m.register name, .name name)
  | .add source target =>
    let (m, added) := m.addDependency source target
    (m, .flag added)
  | .build infos =>
    let m := m.build infos
    (m, .count m.size)
  | .classes => (m, .names m.classes)
  | .names => (m, .names m.names)
  | .size => (m, .count m.size)
  | .contains name => (m, .flag (m.contains name))
  | .get name => (m, .node ((m.ref? name).map (·.name)))
  | .dependencies name => (m, .names (m.dependenciesOf name))
  | .dependencyNodes name => (m, .names ((m.dependencyNodesOf name).map (·.name)))
  | .direct name => (m, .groups ((m.ref? name).map fun r => groupNames (m.graph.directGroups r)))
  | .transitive name =>
    let (m, groups, merges) := m.transitiveDependenciesOf name
    (m, .closure (groupNames groups) (merges.map (·.name)))
  | .dependents name => (m, .names (m.dependentsOf name))
  | .cycles => (m, .paths m.detectCycles)
  | .pending name => (m, .flag? ((m.ref? name).map m.graph.hasPending))
  | .dependsOn source target =>
    (m, .flag? do return m.graph.dependsOn (← m.ref? source) (← m.ref? target))
  | .report packages reach scope =>
    let (m, reports) := m.buildReport (.ofList packages) reach scope
    (m, .report reach reports)

def run (m : DependencyMap) : List Step → DependencyMap × List Answer
  | [] => (m, [])
  | first :: steps =>
    let (m, answer) := m.step first
    let (m, answers) := m.run steps
    (m, answer :: answers)

end ClassAtlas.DependencyMap
