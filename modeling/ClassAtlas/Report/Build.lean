import ClassAtlas.DependencyMap.Basic
import ClassAtlas.Report.Basic

/-!
Reports from a dependency map: one for each known class in the chosen packages, by name. A
transitive report brings the closure of each of these classes up to date in turn.
-/

namespace ClassAtlas.DependencyMap

-- Which dependencies a report lists. The classes it lists are always of the chosen packages.
inductive Scope where
  | chosenPackages
  | allPackages
  deriving DecidableEq

def Scope.admits (packages : NameSet) : Scope → Text → Bool
  | .allPackages, _ => true
  | .chosenPackages, name => packages.contains (packageOf name)

def reachedFrom (m : DependencyMap) (reach : Reach) (name : Text) : DependencyMap × List Ref :=
  match reach with
  | .direct => (m, m.dependencyNodesOf name)
  | .transitive =>
    let (m, groups, _) := m.transitiveDependenciesOf name
    (m, groups.flatMap (·.2))

def reportOn (m : DependencyMap) (packages : NameSet) (reach : Reach) (scope : Scope)
    (name : Text) : DependencyMap × ClassReport :=
  let (m, reached) := m.reachedFrom reach name
  (m, ⟨name, packageOf name, (reached.map (·.name)).filter (scope.admits packages)⟩)

def reportOnEach (m : DependencyMap) (packages : NameSet) (reach : Reach) (scope : Scope) :
    List Text → DependencyMap × List ClassReport
  | [] => (m, [])
  | name :: names =>
    let (m, report) := m.reportOn packages reach scope name
    let (m, reports) := m.reportOnEach packages reach scope names
    (m, report :: reports)

def buildReport (m : DependencyMap) (packages : NameSet) (reach : Reach) (scope : Scope) :
    DependencyMap × List ClassReport :=
  m.reportOnEach packages reach scope
    (m.classes.filter fun name => packages.contains (packageOf name))

end ClassAtlas.DependencyMap
