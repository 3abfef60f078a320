import Mathlib.Data.List.Rotate
import ClassAtlas.Proofs.DependencyMap.Exploration
import ClassAtlas.Proofs.DependencyMap.Session
import ClassAtlas.Proofs.Graph.Order

/-!
The search for cycles does not repeat itself. It goes through each path it finds in the order in
which it met the names there, so a path cannot be another one turned round; and an edge that closed
a path has been tried and is not tried again, so no path is found twice.
-/

namespace ClassAtlas.DependencyMap
variable {m : DependencyMap} {s next : CycleSearch} {order done path other : List Text} {name x y : Text}
  {node : Node} {target root : Ref} {untried : List Ref} {below lower : List Frame}

-- The names met so far, the latest first; the stack and every path found lie in this order.
structure Ordered (order : List Text) (s : CycleSearch) : Prop where
  once : order.Nodup
  met : ∀ name ∈ order, name ∈ s.visited
  stack : (s.stack.map (·.name)).Sublist order
  untried : ∀ frame ∈ s.stack, (frame.untried.map (·.name)).Nodup
  paths : ∀ path ∈ s.cycles, path.dropLast.reverse.Sublist order
  closed : ∀ path ∈ s.cycles, ∀ x y, closingEdge? path = some (x, y) →
    x ∈ order ∧ ∀ frame ∈ s.stack, frame.name = x → y ∉ frame.untried.map (·.name)
  apart : (s.cycles.map closingEdge?).Nodup

theorem ordered_leave (ordered : Ordered order s) (path : s.stack = ⟨name, []⟩ :: below) :
    Ordered order { s with stack := below } := by
  obtain ⟨once, met, stack, untried, paths, closed, apart⟩ := ordered
  rw [path] at stack untried closed
  refine ⟨once, met, (List.sublist_cons_self ..).trans stack,
    fun frame old => untried frame (.tail _ old), paths, ?_, apart⟩
  intro found member x y closing
  obtain ⟨inside, tried⟩ := closed found member x y closing
  exact ⟨inside, fun frame old => tried frame (.tail _ old)⟩

-- The frame in hand has one edge less to try.
theorem ordered_next (ordered : Ordered order s)
    (path : s.stack = ⟨name, target :: untried⟩ :: below) :
    Ordered order { s with stack := ⟨name, untried⟩ :: below } := by
  obtain ⟨once, met, stack, distinct, paths, closed, apart⟩ := ordered
  rw [path] at stack distinct closed
  refine ⟨once, met, stack, ?_, paths, ?_, apart⟩
  · intro frame member
    rcases List.mem_cons.mp member with rfl | old
    · exact (distinct _ List.mem_cons_self).of_cons
    · exact distinct frame (.tail _ old)
  · intro found member x y closing
    obtain ⟨inside, tried⟩ := closed found member x y closing
    refine ⟨inside, ?_⟩
    intro frame member named waits
    rcases List.mem_cons.mp member with rfl | old
    · exact tried _ List.mem_cons_self named (List.mem_cons_of_mem _ waits)
    · exact tried frame (.tail _ old) named waits

-- The edge that closes a path comes off the frame in hand, where it does not stand twice.
theorem ordered_close (explored : m.Explored done s) (ordered : Ordered order s)
    (path : s.stack = ⟨name, target :: untried⟩ :: below)
    (onPath : target.name ∈ s.stack.map (·.name)) :
    Ordered order { s with
      stack := ⟨name, untried⟩ :: below
      cycles := CycleSearch.closedPath target.name (⟨name, untried⟩ :: below) :: s.cycles } := by
  have names := CycleSearch.path_kept path
  have edge : m.Edge name target.name :=
    (explored.offered ⟨name, target :: untried⟩ (path ▸ List.mem_cons_self) target
      List.mem_cons_self).2
  have closing := (circuit_closed (names ▸ explored.apart) (names ▸ explored.path) rfl edge
    (names ▸ onPath)).2
  obtain ⟨upper, lower, split, turned⟩ := closed_path_parts (names ▸ onPath)
  have distinct := ordered.untried _ (path ▸ List.mem_cons_self)
  have first : target.name ∉ untried.map (·.name) := (List.nodup_cons.mp distinct).1
  have onceEach := explored.apart
  rw [path] at onceEach
  have alone : name ∉ below.map (·.name) := (List.nodup_cons.mp onceEach).1
  obtain ⟨once, met, stack, untried', paths, closed, apart⟩ := ordered_next ordered path
  refine ⟨once, met, stack, untried', ?_, ?_, ?_⟩
  · intro found member
    rcases List.mem_cons.mp member with rfl | old
    · have front : upper ++ [target.name] <+: upper ++ target.name :: lower := ⟨lower, by simp⟩
      rw [turned, List.dropLast_concat, List.reverse_cons, List.reverse_reverse]
      exact front.sublist.trans (split ▸ stack)
    · exact paths found old
  · intro found member x y given
    rcases List.mem_cons.mp member with rfl | old
    · rw [closing] at given
      cases given
      refine ⟨stack.subset List.mem_cons_self, ?_⟩
      intro frame inside named
      rcases List.mem_cons.mp inside with rfl | deeper
      · exact first
      · exact absurd (List.mem_map.mpr ⟨frame, deeper, named⟩) alone
    · exact closed found old x y given
  · refine List.nodup_cons.mpr ⟨?_, apart⟩
    intro again
    obtain ⟨found, member, same⟩ := List.mem_map.mp again
    have tried := (ordered.closed found member name target.name (same.trans closing)).2
    exact tried ⟨name, target :: untried⟩ (path ▸ List.mem_cons_self) rfl List.mem_cons_self

theorem ordered_enter (kept : m.Kept) (ordered : Ordered order s) (found : m.node? name = some node)
    (fresh : name ∉ s.visited) (lower : List Frame)
    (rest : Ordered order { s with stack := lower }) :
    Ordered (name :: order) { s with
      visited := s.visited.insert name
      stack := ⟨name, node.edges.refs⟩ :: lower } := by
  have unmet : name ∉ order := fun member => fresh (ordered.met name member)
  constructor
  case once => exact List.nodup_cons.mpr ⟨unmet, ordered.once⟩
  case met =>
    intro x member
    refine Std.ExtTreeSet.mem_insert.mpr ?_
    rcases List.mem_cons.mp member with rfl | old
    · exact .inl Std.ReflCmp.compare_self
    · exact .inr (ordered.met x old)
  case stack => exact rest.stack.cons_cons name
  case untried =>
    intro frame member
    rcases List.mem_cons.mp member with rfl | old
    · exact (kept.sound name node found).edges_tidy.names_distinct
    · exact rest.untried frame old
  case paths => exact fun path member => (ordered.paths path member).cons name
  case closed =>
    intro path member x y closing
    obtain ⟨inside, tried⟩ := rest.closed path member x y closing
    refine ⟨List.mem_cons_of_mem _ inside, ?_⟩
    intro frame member named
    rcases List.mem_cons.mp member with rfl | old
    · subst named
      exact absurd inside unmet
    · exact tried frame old named
  case apart => exact ordered.apart

theorem ordered_moves (kept : m.Kept) (moves : CycleSearch.Moves m.graph s next)
    (explored : m.Explored done s) (ordered : Ordered order s) : ∃ order, Ordered order next := by
  cases moves with
  | leave path => exact ⟨_, ordered_leave ordered path⟩
  | lost path missing => exact ⟨_, ordered_next ordered path⟩
  | close path onPath => exact ⟨_, ordered_close explored ordered path onPath⟩
  | pass path known offPath => exact ⟨_, ordered_next ordered path⟩
  | @enter name target untried below node path found fresh =>
    have here := (explored.offered ⟨name, target :: untried⟩ (path ▸ List.mem_cons_self) target
      List.mem_cons_self).1
    have found : m.node? target.name = some node := by rw [node_of_ref here, found]
    exact ⟨_, ordered_enter kept ordered found fresh _ (ordered_next ordered path)⟩

-- Between two roots.
theorem ordered_root (kept : m.Kept) (rested : m.Rested s) (ordered : Ordered order s)
    (here : m.ref? root.name = some root) :
    ∃ order, Ordered order (CycleSearch.fromRoot m.graph s root) := by
  obtain ⟨empty, done, explored⟩ := rested
  by_cases known : root.name ∈ s.visited
  · rw [CycleSearch.from_root_known known]
    exact ⟨order, ordered⟩
  · obtain ⟨node, found⟩ := kept.indexed _ _ here
    have found' : m.node? root.name = some node := (node_of_ref here).trans found
    rw [CycleSearch.from_root_new known found]
    have explored := explored_enter kept explored found' known [] (by rw [empty]) (by simp)
      (by simp) trivial
    have none_left : Ordered order { s with stack := [] } := by
      rw [← empty]
      exact ordered
    have ordered := ordered_enter kept ordered found' known [] none_left
    refine (CycleSearch.run_keeps (P := fun s => (∃ done, m.Explored done s) ∧
      ∃ order, Ordered order s) ?_ ⟨⟨_, explored⟩, _, ordered⟩).2
    intro s next moves given
    obtain ⟨⟨done, explored⟩, order, ordered⟩ := given
    exact ⟨explored_moves kept moves explored, ordered_moves kept moves explored ordered⟩

theorem ordered_roots (kept : m.Kept) (roots : List Ref) (rested : m.Rested s)
    (ordered : Ordered order s) (here : ∀ root ∈ roots, m.ref? root.name = some root) :
    ∃ order, Ordered order (roots.foldl (CycleSearch.fromRoot m.graph) s) := by
  induction roots generalizing s order with
  | nil => exact ⟨order, ordered⟩
  | cons root roots ih =>
    have first := here root List.mem_cons_self
    obtain ⟨order, ordered⟩ := ordered_root kept rested ordered first
    exact ih (rested_root kept rested first).1 ordered fun root later => here root (.tail _ later)

/-! Paths that lie in one order. -/

-- A list without repetitions fixes the order of each selection from it.
theorem selection_unique {first second : List Text} (once : order.Nodup)
    (left : first.Sublist order) (right : second.Sublist order)
    (same : ∀ x, x ∈ first ↔ x ∈ second) : first = second := by
  let Before (x y : Text) : Prop := order.idxOf x < order.idxOf y
  have ascend : order.Pairwise Before := by
    refine List.pairwise_iff_getElem.mpr fun i j early late before => ?_
    simpa only [Before, once.idxOf_getElem i early, once.idxOf_getElem j late] using before
  have : Std.Irrefl Before := ⟨fun _ => Nat.lt_irrefl _⟩
  have : Std.Antisymm Before := ⟨fun _ _ forth back => absurd back (Nat.lt_asymm forth)⟩
  exact (ascend.sublist left).eq_of_mem_iff (ascend.sublist right) same

-- A path is told by its closing edge and the names before it.
theorem turned_same (once : order.Nodup) (left : path.dropLast.reverse.Sublist order)
    (right : other.dropLast.reverse.Sublist order) (turned : path.dropLast ~r other.dropLast) :
    path.dropLast = other.dropLast := by
  refine List.reverse_injective (selection_unique once left right fun x => ?_)
  rw [List.mem_reverse, List.mem_reverse]
  exact turned.mem_iff

theorem Circuit.determined (circuit : m.Circuit path) (circuit' : m.Circuit other)
    (same : path.dropLast = other.dropLast) : path = other := by
  obtain ⟨first, between, rfl, _⟩ := circuit.closed
  obtain ⟨first', between', rfl, _⟩ := circuit'.closed
  rw [List.dropLast_concat, List.dropLast_concat] at same
  cases same
  rfl

theorem Circuit.between_filled (kept : m.Kept) (circuit : m.Circuit path) :
    ∃ first between, path = first :: between ++ [first] ∧ between ≠ [] ∧
      (first :: between).Nodup ∧ path.IsChain m.Edge := by
  obtain ⟨first, between, split, once⟩ := circuit.closed
  refine ⟨first, between, split, ?_, once, circuit.chain⟩
  rintro rfl
  have chain := circuit.chain
  rw [split] at chain
  exact edge_apart kept (List.isChain_cons_cons.mp chain).1 rfl

-- The paths returned, all in the order in which their names were met, have closing edges of their own.
theorem paths_ordered (kept : m.Kept) : ∃ order : List Text, order.Nodup ∧
    (∀ path ∈ m.detectCycles, path.dropLast.reverse.Sublist order) ∧
    (m.detectCycles.map closingEdge?).Nodup := by
  have start : Ordered [] {} := by
    refine ⟨.nil, ?_, .slnil, ?_, ?_, ?_, .nil⟩ <;> simp
  obtain ⟨order, ordered⟩ := ordered_roots kept (m.names.filterMap m.ref?) (rested_start m) start
    fun root member => (mem_roots m root).mp member
  refine ⟨order, ordered.once, fun path member => ordered.paths path (List.mem_reverse.mp member), ?_⟩
  rw [detectCycles, List.map_reverse]
  exact List.nodup_reverse.mpr ordered.apart

-- After a session each path returned is a circuit of at least two names, none of them twice, and no
-- path returned is one of the others, or one of the others from another name on.
theorem cycles_distinct (steps : List Step) :
    let m := (run {} steps).1
    (∀ path ∈ m.detectCycles, ∃ first between, path = first :: between ++ [first] ∧ between ≠ [] ∧
      (first :: between).Nodup ∧ path.IsChain m.Edge) ∧
    m.detectCycles.Pairwise fun path other => ¬ path.dropLast ~r other.dropLast := by
  intro m
  have kept : m.Kept := kept_run steps
  obtain ⟨_, _, _, circuits⟩ := explored_all kept
  refine ⟨fun path member => (circuits path member).between_filled kept, ?_⟩
  obtain ⟨order, once, paths, apart⟩ := paths_ordered kept
  have differ : m.detectCycles.Pairwise fun path other => closingEdge? path ≠ closingEdge? other :=
    List.pairwise_map.mp apart
  refine differ.imp_of_mem fun {path other} first second unlike turned => unlike ?_
  have same := turned_same once (paths path first) (paths other second) turned
  rw [(circuits path first).determined (circuits other second) same]

end ClassAtlas.DependencyMap
