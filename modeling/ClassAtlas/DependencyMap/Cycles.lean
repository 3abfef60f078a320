import ClassAtlas.DependencyMap.Basic

/-!
Cycles of direct dependencies, found by a depth-first search. The stack is the path from a
root to the node in hand, with what each node on it has left to try. An edge to a node that
is still on the path closes a cycle, and the cycle is the path from that node on.
-/

namespace ClassAtlas

structure Frame where
  name : Text
  untried : List Ref

-- The deepest frame comes first, and so does the latest cycle.
structure CycleSearch where
  visited : NameSet := ∅
  stack : List Frame := []
  cycles : List (List Text) := []

namespace CycleSearch
variable {g : Graph} {s next : CycleSearch}

-- The path from the node on the stack down to the frame in hand, and back to that node.
def closedPath (name : Text) (stack : List Frame) : List Text :=
  name :: ((stack.map (·.name)).takeWhile (· ≠ name)).reverse ++ [name]

def step (g : Graph) (s : CycleSearch) : Option CycleSearch :=
  match s.stack with
  | [] => none
  | ⟨_, []⟩ :: below => some { s with stack := below }
  | ⟨name, target :: untried⟩ :: below =>
    let here := ⟨name, untried⟩ :: below
    match g.deref target with
    | none => some { s with stack := here }
    | some node =>
      if s.visited.contains target.name then
        if here.any (·.name == target.name) then
          some { s with stack := here, cycles := closedPath target.name here :: s.cycles }
        else some { s with stack := here }
      else
        some { s with
          visited := s.visited.insert target.name
          stack := ⟨target.name, node.edges.refs⟩ :: here }

-- What is left to do with the nodes on the path.
def load (stack : List Frame) : Nat :=
  stack.foldr (fun frame rest => frame.untried.length + 1 + rest) 0

-- A step visits one more node of the graph, or leaves less to do on the path.
theorem step_descends (h : step g s = some next) :
    Prod.Lex (· < ·) (· < ·)
      (g.unmarked next.visited.contains, load next.stack)
      (g.unmarked s.visited.contains, load s.stack) := by
  unfold step at h
  split at h
  · cases h
  · rename_i stack
    cases h
    exact .right _ (by simp [stack, load])
  · rename_i name target untried below stack
    dsimp only at h
    split at h
    · cases h
      exact .right _ (by simp [stack, load])
    · rename_i node found
      split at h
      · split at h
        · cases h
          exact .right _ (by simp [stack, load])
        · cases h
          exact .right _ (by simp [stack, load])
      · rename_i fresh
        cases h
        apply Prod.Lex.left
        apply Graph.unmarked_lt (Graph.deref_mem found)
        · rw [Graph.deref_name found]; exact Bool.eq_false_iff.mpr fresh
        · rw [Graph.deref_name found]; simp
        · intro other known; simp at known ⊢; exact .inr known

def run (g : Graph) (s : CycleSearch) : CycleSearch :=
  match _more : step g s with
  | none => s
  | some next => run g next
  termination_by (g.unmarked s.visited.contains, load s.stack)
  decreasing_by exact step_descends _more

def fromRoot (g : Graph) (s : CycleSearch) (root : Ref) : CycleSearch :=
  if s.visited.contains root.name then s
  else match g.deref root with
    | none => s
    | some node =>
      run g { s with
        visited := s.visited.insert root.name
        stack := [⟨root.name, node.edges.refs⟩] }

end CycleSearch

-- Every path found, each starting and ending on the same name; roots in ascending order.
def DependencyMap.detectCycles (m : DependencyMap) : List (List Text) :=
  ((m.names.filterMap m.ref?).foldl (CycleSearch.fromRoot m.graph) {}).cycles.reverse

end ClassAtlas
