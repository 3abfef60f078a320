import Mathlib.Data.List.Forall2
import ClassAtlas.Proofs.DependencyMap.Exploration
import ClassAtlas.Proofs.DependencyMap.Ground
import ClassAtlas.Proofs.DependencyMap.Report

/-!
Two maps that agree on names and edges. They may keep their nodes in other places and remember
other things; but everything that is asked of the classes is answered alike, the search for
cycles included, which goes through both maps in the same steps.
-/

namespace ClassAtlas
namespace DependencyMap

structure Agrees (m n : DependencyMap) : Prop where
  left : m.Kept
  right : n.Kept
  contains : ∀ x, m.contains x = n.contains x
  known : m.known = n.known
  edges : m.Edge = n.Edge

variable {m n : DependencyMap} {name : Text} {r q : Ref} {rs qs : List Ref} {s t : CycleSearch}

/-! References to the same name. -/

-- Where each of the two maps keeps a name.
def Twin (m n : DependencyMap) (r q : Ref) : Prop :=
  ∃ name, m.ref? name = some r ∧ n.ref? name = some q

theorem twin_name (twin : Twin m n r q) : r.name = q.name := by
  obtain ⟨name, here, there⟩ := twin
  rw [ref_name here, ref_name there]

theorem twins_of_names (names : rs.map (·.name) = qs.map (·.name))
    (here : ∀ r ∈ rs, m.ref? r.name = some r) (there : ∀ q ∈ qs, n.ref? q.name = some q) :
    List.Forall₂ (Twin m n) rs qs := by
  induction rs generalizing qs with
  | nil =>
    rw [List.map_eq_nil_iff.mp names.symm]
    exact .nil
  | cons r rs ih =>
    obtain ⟨q, later, rfl, same, rest⟩ := List.map_eq_cons_iff.mp names.symm
    refine .cons ⟨r.name, here r List.mem_cons_self, ?_⟩ ?_
    · exact (congrArg n.ref? same).symm.trans (there q List.mem_cons_self)
    · exact ih rest.symm (fun r member => here r (.tail _ member))
        fun q member => there q (.tail _ member)

-- A name has a node in both maps or in neither.
theorem Agrees.ref_rel (agrees : Agrees m n) (name : Text) :
    Option.Rel (Twin m n) (m.ref? name) (n.ref? name) := by
  have same : m.contains name = true ↔ n.contains name = true := by rw [agrees.contains]
  rw [contains_iff_ref, contains_iff_ref] at same
  cases here : m.ref? name with
  | none =>
    cases there : n.ref? name with
    | none => exact .none
    | some q => simp [here, there] at same
  | some r =>
    cases there : n.ref? name with
    | none => simp [here, there] at same
    | some q => exact .some ⟨name, here, there⟩

theorem Agrees.names (agrees : Agrees m n) : m.names = n.names := by
  have ascend : ∀ k : DependencyMap, k.names.Pairwise (· < ·) := fun k =>
    (Std.ExtTreeMap.ordered_keys (t := k.index)).imp fun before => (Text.compare_lt_iff _ _).mp before
  refine (ascend m).eq_of_mem_iff (ascend n) fun x => ?_
  rw [DependencyMap.names, DependencyMap.names, Std.ExtTreeMap.mem_keys, Std.ExtTreeMap.mem_keys]
  exact Bool.eq_iff_iff.mp (agrees.contains x)

theorem Agrees.node_names (agrees : Agrees m n) (name : Text) :
    (m.dependencyNodesOf name).map (·.name) = (n.dependencyNodesOf name).map (·.name) := by
  obtain ⟨ascends, listed⟩ := nodes_exact agrees.left name
  obtain ⟨ascends', listed'⟩ := nodes_exact agrees.right name
  refine ascends.eq_of_mem_iff ascends' fun x => ?_
  rw [listed, listed', agrees.edges]

-- Behind two such references are nodes with edges to the same names.
theorem Agrees.nodes (agrees : Agrees m n) (twin : Twin m n r q) :
    ∃ node other, m.graph.deref r = some node ∧ n.graph.deref q = some other ∧
      List.Forall₂ (Twin m n) node.edges.refs other.edges.refs := by
  obtain ⟨name, here, there⟩ := twin
  obtain ⟨node, found⟩ := agrees.left.node_of_ref here
  obtain ⟨other, found'⟩ := agrees.right.node_of_ref there
  refine ⟨node, other, (node_of_ref here).symm.trans found, (node_of_ref there).symm.trans found', ?_⟩
  have names := agrees.node_names name
  rw [dependencyNodesOf, dependencyNodesOf, found, found'] at names
  exact twins_of_names names (fun r member => (agrees.left.sound name node found).same r (.inl member))
    fun q member => (agrees.right.sound name other found').same q (.inl member)

/-! The search for cycles in both maps. -/

structure FrameTwin (m n : DependencyMap) (frame other : Frame) : Prop where
  name : frame.name = other.name
  untried : List.Forall₂ (Twin m n) frame.untried other.untried

structure Level (m n : DependencyMap) (s t : CycleSearch) : Prop where
  visited : s.visited = t.visited
  stack : List.Forall₂ (FrameTwin m n) s.stack t.stack
  cycles : s.cycles = t.cycles

theorem path_names {stack stack' : List Frame} (twins : List.Forall₂ (FrameTwin m n) stack stack') :
    stack.map (·.name) = stack'.map (·.name) := by
  induction twins with
  | nil => rfl
  | cons twin _ ih => rw [List.map_cons, List.map_cons, twin.name, ih]

theorem level_step (agrees : Agrees m n) (level : Level m n s t) :
    Option.Rel (Level m n) (CycleSearch.step m.graph s) (CycleSearch.step n.graph t) := by
  obtain ⟨visited, stack, cycles⟩ := s
  obtain ⟨_, stack', _⟩ := t
  obtain ⟨rfl, twins, rfl⟩ := level
  cases twins with
  | nil => exact .none
  | @cons frame other below below' top lower =>
    obtain ⟨name, untried⟩ := frame
    obtain ⟨_, untried'⟩ := other
    obtain ⟨rfl, waiting⟩ := top
    cases waiting with
    | nil => exact .some ⟨rfl, lower, rfl⟩
    | @cons r q rest rest' twin later =>
      obtain ⟨node, node', found, found', edges⟩ := agrees.nodes twin
      have here : List.Forall₂ (FrameTwin m n) (⟨name, rest⟩ :: below) (⟨name, rest'⟩ :: below') :=
        .cons ⟨rfl, later⟩ lower
      have onPath : ∀ stack : List Frame, stack.any (·.name == r.name) =
          (stack.map (·.name)).any (· == r.name) := fun stack => by rw [List.any_map]; rfl
      simp only [CycleSearch.step, found, found', CycleSearch.closedPath, ← twin_name twin, onPath,
        path_names here]
      split
      · split
        · exact .some ⟨rfl, here, rfl⟩
        · exact .some ⟨rfl, here, rfl⟩
      · exact .some ⟨rfl, .cons ⟨rfl, edges⟩ here, rfl⟩

theorem level_run (agrees : Agrees m n) (level : Level m n s t) :
    Level m n (CycleSearch.run m.graph s) (CycleSearch.run n.graph t) := by
  induction s using CycleSearch.run.induct m.graph generalizing t with
  | case1 s stopped =>
    have both := level_step agrees level
    rw [stopped] at both
    cases there : CycleSearch.step n.graph t with
    | none =>
      rw [CycleSearch.run_stop stopped, CycleSearch.run_stop there]
      exact level
    | some next =>
      rw [there] at both
      cases both
  | case2 s next stepped ih =>
    have both := level_step agrees level
    rw [stepped] at both
    cases there : CycleSearch.step n.graph t with
    | none =>
      rw [there] at both
      cases both
    | some next' =>
      rw [there] at both
      cases both with
      | some after =>
        rw [CycleSearch.run_next stepped, CycleSearch.run_next there]
        exact ih after

theorem level_root (agrees : Agrees m n) (level : Level m n s t) (twin : Twin m n r q) :
    Level m n (CycleSearch.fromRoot m.graph s r) (CycleSearch.fromRoot n.graph t q) := by
  obtain ⟨node, node', found, found', edges⟩ := agrees.nodes twin
  unfold CycleSearch.fromRoot
  rw [← level.visited, ← twin_name twin, found, found']
  split
  · exact level
  · exact level_run agrees ⟨rfl, .cons ⟨rfl, edges⟩ .nil, level.cycles⟩

theorem level_roots (agrees : Agrees m n) (level : Level m n s t)
    (roots : List.Forall₂ (Twin m n) rs qs) :
    Level m n (rs.foldl (CycleSearch.fromRoot m.graph) s) (qs.foldl (CycleSearch.fromRoot n.graph) t) := by
  induction roots generalizing s t with
  | nil => exact level
  | cons twin _ ih => exact ih (level_root agrees level twin)

theorem Agrees.cycles (agrees : Agrees m n) : m.detectCycles = n.detectCycles := by
  have roots : ∀ names : List Text,
      List.Forall₂ (Twin m n) (names.filterMap m.ref?) (names.filterMap n.ref?) := by
    intro names
    induction names with
    | nil => exact .nil
    | cons name names ih =>
      rw [List.filterMap_cons, List.filterMap_cons]
      have both := agrees.ref_rel name
      revert both
      cases m.ref? name <;> cases n.ref? name <;> intro both <;> cases both
      · exact ih
      · rename_i twin
        exact .cons twin ih
  have level := level_roots agrees (s := {}) (t := {}) ⟨rfl, .nil, rfl⟩ (roots m.names)
  rw [detectCycles, detectCycles, level.cycles, agrees.names]

end DependencyMap
end ClassAtlas
