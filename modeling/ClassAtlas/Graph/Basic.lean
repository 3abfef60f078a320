import ClassAtlas.Graph.Waiting
import ClassAtlas.Text.Quoted

/-!
The graph of classes. A node knows its direct dependencies, a remembered part of what it
reaches (the closure), the references that arrived since that part was last brought up to
date (pending), and the nodes whose closure it entered (its holders). A new edge is told to
every holder of its source, so no closure grows stale unnoticed.
-/

namespace ClassAtlas

structure Node where
  name : Text
  edges : Buckets := ∅
  closure : Buckets := ∅
  pending : Waiting := ∅
  holders : NodeSet := ∅
  deriving Inhabited

namespace Node

def awaits (n : Node) (target : Ref) : Node :=
  { n with pending := n.pending.add target }

def linkTo (n : Node) (target : Ref) : Node :=
  { n with edges := n.edges.add target }.awaits target

def heldBy (n : Node) (holder : Ref) : Node :=
  { n with holders := n.holders.add holder }

def hasPending (n : Node) : Bool := !n.pending.isEmpty

def dependsOn (n : Node) (name : Text) : Bool := n.edges.has name

-- How a node is shown to people.
def describe (n : Node) : Text := "ClassNode(" ++ n.name.quoted ++ ")"

end Node

-- Nodes are kept by number, since two of them may share a name.
structure Graph where
  nodes : Array Node := #[]
  deriving Inhabited

namespace Graph
variable {g : Graph} {r : Ref} {node : Node} {before after : Text → Bool}

def create (g : Graph) (name : Text) : Graph × Ref :=
  let r : Ref := ⟨g.nodes.size, name⟩
  (⟨g.nodes.push { name }⟩, r)

def deref (g : Graph) (r : Ref) : Option Node :=
  match g.nodes[r.id]? with
  | some node => if node.name = r.name then some node else none
  | none => none

def update (g : Graph) (r : Ref) (f : Node → Node) : Graph := ⟨g.nodes.modify r.id f⟩

def notify (g : Graph) (target : Ref) (holders : List Ref) : Graph :=
  holders.foldl (fun g holder => g.update holder (·.awaits target)) g

-- Whether the edge is new: a node has no edge to its own name and none twice.
def addEdge (g : Graph) (source target : Ref) : Graph × Bool :=
  match g.deref source with
  | none => (g, false)
  | some node =>
    if node.name = target.name ∨ node.edges.has target.name then (g, false)
    else ((g.update source (·.linkTo target)).notify target node.holders.refs, true)

theorem deref_name (h : g.deref r = some node) : node.name = r.name := by
  unfold deref at h
  split at h
  · split at h
    · rename_i same
      cases h
      exact same
    · cases h
  · cases h

theorem deref_mem (h : g.deref r = some node) : node ∈ g.nodes := by
  unfold deref at h
  split at h
  · rename_i found
    split at h
    · cases h
      exact Array.mem_of_getElem? found
    · cases h
  · cases h

-- How many nodes have a name that is not marked. A walk that marks what it meets ends,
-- because this number falls whenever it marks a node of the graph.
def unmarked (g : Graph) (marked : Text → Bool) : Nat :=
  g.nodes.countP fun node => !marked node.name

theorem unmarked_lt (member : node ∈ g.nodes) (new : before node.name = false)
    (entered : after node.name = true)
    (more : ∀ name, before name = true → after name = true) :
    g.unmarked after < g.unmarked before := by
  unfold unmarked
  rw [← Array.countP_toList, ← Array.countP_toList]
  have inside : node ∈ g.nodes.toList := Array.mem_toList_iff.mpr member
  obtain ⟨front, back, split⟩ := List.append_of_mem inside
  have mono : ∀ part : List Node, part.countP (fun n => !after n.name) ≤
      part.countP (fun n => !before n.name) := by
    intro part
    apply List.countP_mono_left
    intro n _ fresh
    cases known : before n.name with
    | false => rfl
    | true => simp [more _ known] at fresh
  rw [split, List.countP_append, List.countP_append, List.countP_cons, List.countP_cons]
  have front_le := mono front
  have back_le := mono back
  simp only [new, entered]
  simp
  omega

end Graph
end ClassAtlas
