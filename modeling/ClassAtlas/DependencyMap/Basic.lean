import ClassAtlas.ClassInfo
import ClassAtlas.Graph.Closure

/-!
The dependency map: one node for each name, found by that name. A name is known once it has
been registered; a name that was only ever a target has a node all the same. Questions about
a name without a node have empty answers.
-/

namespace ClassAtlas

structure DependencyMap where
  graph : Graph := {}
  index : Std.ExtTreeMap Text NodeId := ∅
  known : NameSet := ∅

namespace DependencyMap

def ref? (m : DependencyMap) (name : Text) : Option Ref :=
  m.index[name]?.map fun id => ⟨id, name⟩

-- The map is taken apart first, so that the graph in it has no other owner when it grows.
def addNode : DependencyMap → Text → DependencyMap × Ref
  | ⟨graph, index, known⟩, name =>
    let (graph, r) := graph.create name
    (⟨graph, index.insert name r.id, known⟩, r)

def resolve (m : DependencyMap) (name : Text) : DependencyMap × Ref :=
  match m.ref? name with
  | some r => (m, r)
  | none => m.addNode name

def register (m : DependencyMap) (name : Text) : DependencyMap :=
  let (⟨graph, index, known⟩, _) := m.resolve name
  ⟨graph, index, known.insert name⟩

-- Whether the edge is new.
def link : DependencyMap → Ref → Ref → DependencyMap × Bool
  | ⟨graph, index, known⟩, source, target =>
    let (graph, added) := graph.addEdge source target
    (⟨graph, index, known⟩, added)

-- Whether the dependency is new; both ends have a node afterwards.
def addDependency (m : DependencyMap) (source target : Text) : DependencyMap × Bool :=
  let (m, sourceRef) := m.resolve source
  let (m, targetRef) := m.resolve target
  m.link sourceRef targetRef

def addClass (m : DependencyMap) (info : ClassInfo) : DependencyMap :=
  info.references.foldl (fun m reference => (m.addDependency info.name reference).1)
    (m.register info.name)

def build (m : DependencyMap) (infos : List ClassInfo) : DependencyMap := infos.foldl addClass m

def size (m : DependencyMap) : Nat := m.index.size

def contains (m : DependencyMap) (name : Text) : Bool := m.index.contains name

def classes (m : DependencyMap) : List Text := m.known.toList

def names (m : DependencyMap) : List Text := m.index.keys

def node? (m : DependencyMap) (name : Text) : Option Node := (m.ref? name).bind m.graph.deref

-- Direct dependencies by package and then by name.
def dependencyNodesOf (m : DependencyMap) (name : Text) : List Ref :=
  match m.node? name with
  | none => []
  | some node => node.edges.refs

def dependenciesOf (m : DependencyMap) (name : Text) : List Text :=
  (Std.ExtTreeSet.ofList ((m.dependencyNodesOf name).map (·.name))).toList

def transitiveGroups : DependencyMap → Ref → DependencyMap × List (Text × List Ref) × List Ref
  | ⟨graph, index, known⟩, r =>
    let (graph, groups, merges) := graph.transitiveGroups r
    (⟨graph, index, known⟩, groups, merges)

-- What a name reaches, by package, and whose closures had to be folded in to know it.
def transitiveDependenciesOf (m : DependencyMap) (name : Text) :
    DependencyMap × List (Text × List Ref) × List Ref :=
  match m.ref? name with
  | none => (m, [], [])
  | some r => m.transitiveGroups r

def dependentsOf (m : DependencyMap) (name : Text) : List Text :=
  if m.contains name then m.names.filter fun source => (m.node? source).any (·.dependsOn name)
  else []

end DependencyMap
end ClassAtlas
