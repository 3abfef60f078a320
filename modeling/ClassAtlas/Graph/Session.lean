import ClassAtlas.Graph.Closure

/-!
Sessions on free-standing nodes. Nodes are addressed by the number they were created with,
and several may carry one name: they count as equal, but each has edges of its own.
-/

namespace ClassAtlas.Graph

inductive Step where
  | create (name : Text)
  | link (source target : NodeId)
  | direct (node : NodeId)
  | transitive (node : NodeId)
  | pending (node : NodeId)
  | dependsOn (source target : NodeId)
  | compare (left right : NodeId)
  | sort (nodes : List NodeId)

inductive Answer where
  | created (node : NodeId)
  | flag (value : Bool)
  | groups (groups : List (Text × List Text))
  | closure (groups : List (Text × List Text)) (merges : List Text)
  | order (value : Ordering)
  | names (names : List Text)
  deriving DecidableEq

def nameOf (g : Graph) (id : NodeId) : Text := (g.nodes[id]?.map (·.name)).getD []

def refTo (g : Graph) (id : NodeId) : Ref := ⟨id, g.nameOf id⟩

def notAfter (left right : Text) : Bool := (Ord.compare left right).isLE

def step (g : Graph) : Step → Graph × Answer
  | .create name =>
    let (g, r) := g.create name
    (g, .created r.id)
  | .link source target =>
    let (g, added) := g.addEdge (g.refTo source) (g.refTo target)
    (g, .flag added)
  | .direct node => (g, .groups (groupNames (g.directGroups (g.refTo node))))
  | .transitive node =>
    let (g, groups, merges) := g.transitiveGroups (g.refTo node)
    (g, .closure (groupNames groups) (merges.map (·.name)))
  | .pending node => (g, .flag (g.hasPending (g.refTo node)))
  | .dependsOn source target => (g, .flag (g.dependsOn (g.refTo source) (g.refTo target)))
  | .compare left right => (g, .order (Ord.compare (g.nameOf left) (g.nameOf right)))
  | .sort nodes => (g, .names ((nodes.map g.nameOf).mergeSort notAfter))

def run (g : Graph) : List Step → Graph × List Answer
  | [] => (g, [])
  | first :: steps =>
    let (g, answer) := g.step first
    let (g, answers) := g.run steps
    (g, answer :: answers)

end ClassAtlas.Graph
