import Mathlib.Data.List.Chain
import Mathlib.Data.List.Nodup
import ClassAtlas.DependencyMap.Cycles
import ClassAtlas.Proofs.DependencyMap.Invariant

/-!
The search for cycles, step by step. A name is done once everything behind it has been tried,
and then all its edges, except those that closed a path found, lead to names that were done
before it. The frames of the stack are names that will be done in the order they lie in.
-/

namespace ClassAtlas

/-! What the search can do in one step. -/

namespace CycleSearch

inductive Moves (g : Graph) : CycleSearch → CycleSearch → Prop where
  | leave {s : CycleSearch} {name : Text} {below : List Frame}
      (path : s.stack = ⟨name, []⟩ :: below) : Moves g s { s with stack := below }
  | lost {s : CycleSearch} {name : Text} {target : Ref} {untried : List Ref} {below : List Frame}
      (path : s.stack = ⟨name, target :: untried⟩ :: below) (missing : g.deref target = none) :
      Moves g s { s with stack := ⟨name, untried⟩ :: below }
  | close {s : CycleSearch} {name : Text} {target : Ref} {untried : List Ref} {below : List Frame}
      (path : s.stack = ⟨name, target :: untried⟩ :: below)
      (onPath : target.name ∈ s.stack.map (·.name)) :
      Moves g s { s with
        stack := ⟨name, untried⟩ :: below
        cycles := closedPath target.name (⟨name, untried⟩ :: below) :: s.cycles }
  | pass {s : CycleSearch} {name : Text} {target : Ref} {untried : List Ref} {below : List Frame}
      (path : s.stack = ⟨name, target :: untried⟩ :: below) (known : target.name ∈ s.visited)
      (offPath : target.name ∉ s.stack.map (·.name)) :
      Moves g s { s with stack := ⟨name, untried⟩ :: below }
  | enter {s : CycleSearch} {name : Text} {target : Ref} {untried : List Ref} {below : List Frame}
      {node : Node} (path : s.stack = ⟨name, target :: untried⟩ :: below)
      (found : g.deref target = some node) (fresh : target.name ∉ s.visited) :
      Moves g s { s with
        visited := s.visited.insert target.name
        stack := ⟨target.name, node.edges.refs⟩ :: ⟨name, untried⟩ :: below }

variable {g : Graph} {s next : CycleSearch} {root : Ref} {node : Node} {name : Text}

theorem any_on_path (stack : List Frame) (name : Text) :
    stack.any (·.name == name) = true ↔ name ∈ stack.map (·.name) := by
  simp [List.any_eq_true]

-- Trying an edge changes no name on the path.
theorem path_kept {target : Ref} {untried : List Ref} {below : List Frame}
    (path : s.stack = ⟨name, target :: untried⟩ :: below) :
    s.stack.map (·.name) = (⟨name, untried⟩ :: below : List Frame).map (·.name) := by
  rw [path]
  rfl

theorem step_moves (stepped : step g s = some next) : Moves g s next := by
  unfold step at stepped
  split at stepped
  · cases stepped
  · rename_i path
    cases stepped
    exact .leave path
  · rename_i name target untried below path
    have names := path_kept path
    dsimp only at stepped
    split at stepped
    · rename_i missing
      cases stepped
      exact .lost path missing
    · rename_i node found
      split at stepped
      · rename_i known
        split at stepped
        · rename_i onPath
          cases stepped
          refine .close path ?_
          rw [names]
          exact (any_on_path _ _).mp onPath
        · rename_i offPath
          cases stepped
          refine .pass path (Std.ExtTreeSet.contains_iff_mem.mp known) ?_
          rw [names]
          exact fun member => offPath ((any_on_path _ _).mpr member)
      · rename_i fresh
        cases stepped
        exact .enter path found fun known => fresh (Std.ExtTreeSet.contains_iff_mem.mpr known)

theorem step_none (stopped : step g s = none) : s.stack = [] := by
  unfold step at stopped
  split at stopped
  · assumption
  · cases stopped
  · dsimp only at stopped
    split at stopped
    · cases stopped
    · split at stopped
      · split at stopped <;> cases stopped
      · cases stopped

theorem run_stop (stopped : step g s = none) : run g s = s := by
  rw [run]
  split
  · rfl
  · rename_i next stepped
    rw [stopped] at stepped
    cases stepped

theorem run_next (stepped : step g s = some next) : run g s = run g next := by
  rw [run]
  split
  · rename_i stopped
    rw [stopped] at stepped
    cases stepped
  · rename_i other stepped'
    rw [stepped] at stepped'
    cases stepped'
    rfl

theorem run_keeps {P : CycleSearch → Prop} (kept : ∀ s next, Moves g s next → P s → P next)
    (start : P s) : P (run g s) := by
  induction s using run.induct g with
  | case1 s stopped =>
    rw [run_stop stopped]
    exact start
  | case2 s next stepped ih =>
    rw [run_next stepped]
    exact ih (kept s next (step_moves stepped) start)

theorem run_done (g : Graph) (s : CycleSearch) : (run g s).stack = [] := by
  induction s using run.induct g with
  | case1 s stopped =>
    rw [run_stop stopped]
    exact step_none stopped
  | case2 s next stepped ih =>
    rw [run_next stepped]
    exact ih

theorem run_visited (known : name ∈ s.visited) : name ∈ (run g s).visited := by
  refine run_keeps (P := fun s => name ∈ s.visited) ?_ known
  intro s next moves known
  cases moves with
  | enter => exact Std.ExtTreeSet.mem_insert.mpr (.inr known)
  | _ => exact known

theorem from_root_known (known : root.name ∈ s.visited) : fromRoot g s root = s :=
  if_pos (Std.ExtTreeSet.contains_iff_mem.mpr known)

theorem from_root_new (fresh : root.name ∉ s.visited) (found : g.deref root = some node) :
    fromRoot g s root = run g { s with
      visited := s.visited.insert root.name
      stack := [⟨root.name, node.edges.refs⟩] } := by
  unfold fromRoot
  rw [if_neg fun known => fresh (Std.ExtTreeSet.contains_iff_mem.mp known), found]

end CycleSearch

/-! Paths and the edges that close them. -/

-- The last step of a path.
def closingEdge? (path : List Text) : Option (Text × Text) :=
  match path.reverse with
  | last :: before :: _ => some (before, last)
  | _ => none

theorem closing_edge_append (front : List Text) (before last : Text) :
    closingEdge? (front ++ [before, last]) = some (before, last) := by
  simp [closingEdge?]

namespace DependencyMap

-- A path along edges that meets each of its names once and ends where it began.
structure Circuit (m : DependencyMap) (path : List Text) : Prop where
  chain : path.IsChain m.Edge
  closed : ∃ first between, path = first :: between ++ [first] ∧ (first :: between).Nodup

-- The edges that are left when those that close the paths are taken away.
def Remains (m : DependencyMap) (paths : List (List Text)) (x y : Text) : Prop :=
  m.Edge x y ∧ ∀ path ∈ paths, closingEdge? path ≠ some (x, y)

-- Names with the latest first, such that every edge leads from a name to an earlier one.
def Settled (edge : Text → Text → Prop) : List Text → Prop
  | [] => True
  | x :: earlier => (∀ y, edge x y → y ∈ earlier) ∧ Settled edge earlier

-- An edge of a frame waits to be tried, or leads to a name that is done before the frame is.
def Tried (edge : Text → Text → Prop) (done : List Text) : List Frame → Prop
  | [] => True
  | frame :: below =>
    (∀ y, edge frame.name y → (∃ r ∈ frame.untried, r.name = y) ∨ y ∈ done) ∧
      Tried edge (frame.name :: done) below

structure Explored (m : DependencyMap) (done : List Text) (s : CycleSearch) : Prop where
  visited : ∀ name, name ∈ s.visited ↔ name ∈ s.stack.map (·.name) ∨ name ∈ done
  apart : (s.stack.map (·.name)).Nodup
  path : (s.stack.map (·.name)).IsChain fun upper lower => m.Edge lower upper
  offered : ∀ frame ∈ s.stack, ∀ r ∈ frame.untried, m.ref? r.name = some r ∧
    m.Edge frame.name r.name
  tried : Tried (m.Remains s.cycles) done s.stack
  settled : Settled (m.Remains s.cycles) done
  circuits : ∀ path ∈ s.cycles, m.Circuit path

variable {m : DependencyMap} {s next : CycleSearch} {done more : List Text} {x y name : Text}
  {node : Node} {target root : Ref} {edge fewer : Text → Text → Prop} {paths found : List (List Text)}
  {stack below : List Frame} {untried : List Ref}

theorem Settled.mono (settled : Settled edge done) (less : ∀ x y, fewer x y → edge x y) :
    Settled fewer done := by
  induction done with
  | nil => trivial
  | cons x earlier ih => exact ⟨fun y given => settled.1 y (less x y given), ih settled.2⟩

theorem Tried.mono (tried : Tried edge done stack) (less : ∀ x y, fewer x y → edge x y)
    (later : ∀ x ∈ done, x ∈ more) : Tried fewer more stack := by
  induction stack generalizing done more with
  | nil => trivial
  | cons frame below ih =>
    refine ⟨?_, ih tried.2 ?_⟩
    · intro y given
      exact (tried.1 y (less _ y given)).imp_right (later y)
    · intro x member
      rcases List.mem_cons.mp member with rfl | old
      · exact List.mem_cons_self
      · exact List.mem_cons_of_mem _ (later x old)

theorem Settled.earlier (settled : Settled edge done) (member : x ∈ done) (given : edge x y) :
    y ∈ done := by
  induction done with
  | nil => cases member
  | cons z earlier ih =>
    rcases List.mem_cons.mp member with rfl | old
    · exact List.mem_cons_of_mem _ (settled.1 y given)
    · exact List.mem_cons_of_mem _ (ih settled.2 old)

-- A path from one of the names leaves the latest of them behind, and so never comes back.
theorem Settled.acyclic (settled : Settled edge done) (member : x ∈ done) :
    ¬ Relation.TransGen edge x x := by
  induction done generalizing x with
  | nil => cases member
  | cons z earlier ih =>
    intro cycle
    have first : ∀ u ∈ z :: earlier, ∀ v, edge u v → v ∈ earlier := by
      intro u inside v given
      rcases List.mem_cons.mp inside with rfl | old
      · exact settled.1 v given
      · exact settled.2.earlier old given
    have away : ∀ v, Relation.TransGen edge x v → v ∈ earlier := by
      intro v reached
      induction reached with
      | single given => exact first x member _ given
      | tail _ given inside => exact first _ (List.mem_cons_of_mem _ inside) _ given
    exact ih settled.2 (away x cycle) cycle

theorem Remains.less (remains : m.Remains paths x y) (all : ∀ path ∈ found, path ∈ paths) :
    m.Remains found x y :=
  ⟨remains.1, fun path member => remains.2 path (all path member)⟩

/-! Circuits. -/

theorem closed_path_parts (onPath : name ∈ stack.map (·.name)) :
    ∃ upper lower, stack.map (·.name) = upper ++ name :: lower ∧
      CycleSearch.closedPath name stack = name :: upper.reverse ++ [name] := by
  obtain ⟨upper, lower, names, before⟩ := List.eq_append_cons_of_mem onPath
  refine ⟨upper, lower, names, ?_⟩
  have others : ∀ other ∈ upper, decide (other ≠ name) = true := by
    intro other member
    rw [decide_eq_true_iff]
    intro same
    exact before (same ▸ member)
  rw [CycleSearch.closedPath, names, List.takeWhile_append_of_pos others,
    List.takeWhile_cons_of_neg (by simp), List.append_nil]

-- An edge from the top of the stack to a name on it closes a circuit.
theorem circuit_closed (apart : (stack.map (·.name)).Nodup)
    (path : (stack.map (·.name)).IsChain fun upper lower => m.Edge lower upper)
    (top : (stack.map (·.name)).head? = some x) (last : m.Edge x name)
    (onPath : name ∈ stack.map (·.name)) :
    m.Circuit (CycleSearch.closedPath name stack) ∧
      closingEdge? (CycleSearch.closedPath name stack) = some (x, name) := by
  obtain ⟨upper, lower, names, closed⟩ := closed_path_parts onPath
  rw [names] at apart path top
  have turned : name :: upper.reverse = (upper ++ [name]).reverse := by
    rw [List.reverse_append, List.reverse_singleton, List.singleton_append]
  have front : upper ++ [name] <+: upper ++ name :: lower := ⟨lower, by simp⟩
  have ends : (name :: upper.reverse).getLast? = some x := by
    rw [turned, List.getLast?_reverse]
    cases upper <;> simpa using top
  obtain ⟨before, split⟩ := List.getLast?_eq_some_iff.mp ends
  refine ⟨⟨?_, name, upper.reverse, closed, ?_⟩, ?_⟩
  · rw [closed]
    refine List.IsChain.append ?_ (.singleton name) ?_
    · rw [turned, List.isChain_reverse]
      exact path.prefix front
    · intro u atEnd v atStart
      rw [ends] at atEnd
      cases atEnd
      cases atStart
      exact last
  · rw [turned, List.nodup_reverse]
    exact apart.sublist front.sublist
  · rw [closed, split, List.append_assoc]
    exact closing_edge_append before x name

theorem reaches_along {path : List Text} (chain : (x :: path).IsChain edge) (member : y ∈ path) :
    Relation.TransGen edge x y := by
  induction path generalizing x with
  | nil => cases member
  | cons z path ih =>
    obtain ⟨given, chain⟩ := List.isChain_cons_cons.mp chain
    rcases List.mem_cons.mp member with rfl | later
    · exact .single given
    · exact .head given (ih chain later)

theorem Circuit.reaches {path : List Text} (circuit : m.Circuit path) : ∃ a, m.Reaches a a := by
  obtain ⟨first, between, rfl, _⟩ := circuit.closed
  exact ⟨first, reaches_along circuit.chain (List.mem_append_right _ List.mem_cons_self)⟩

/-! What a step of the search keeps. -/

-- An edge of the frame in hand has been tried: its target is done, or the edge closed a path.
theorem explored_next (explored : m.Explored done s)
    (path : s.stack = ⟨name, target :: untried⟩ :: below)
    (all : ∀ path ∈ s.cycles, path ∈ paths) (circuits : ∀ path ∈ paths, m.Circuit path)
    (accounted : m.Remains paths name target.name → target.name ∈ done) :
    m.Explored done { s with stack := ⟨name, untried⟩ :: below, cycles := paths } := by
  have names := CycleSearch.path_kept path
  have less : ∀ x y, m.Remains paths x y → m.Remains s.cycles x y :=
    fun x y remains => remains.less all
  obtain ⟨visited, apart, chain, offered, tried, settled, _⟩ := explored
  rw [names] at visited apart chain
  rw [path] at offered tried
  refine ⟨visited, apart, chain, ?_, ?_, settled.mono less, circuits⟩
  · intro frame member r waits
    rcases List.mem_cons.mp member with rfl | old
    · exact offered ⟨name, target :: untried⟩ List.mem_cons_self r (List.mem_cons_of_mem _ waits)
    · exact offered frame (List.mem_cons_of_mem _ old) r waits
  · refine ⟨?_, tried.2.mono less fun _ => id⟩
    intro y remains
    rcases tried.1 y (less _ y remains) with ⟨r, waits, rfl⟩ | isDone
    · rcases List.mem_cons.mp waits with rfl | waits
      · exact .inr (accounted remains)
      · exact .inl ⟨r, waits, rfl⟩
    · exact .inr isDone

theorem explored_leave (explored : m.Explored done s) (path : s.stack = ⟨name, []⟩ :: below) :
    m.Explored (name :: done) { s with stack := below } := by
  obtain ⟨visited, apart, chain, offered, tried, settled, circuits⟩ := explored
  rw [path] at visited apart chain offered tried
  refine ⟨?_, apart.of_cons, chain.tail, fun frame old => offered frame (.tail _ old),
    tried.2, ⟨?_, settled⟩, circuits⟩
  · intro x
    rw [visited x, List.map_cons, List.mem_cons, List.mem_cons, or_assoc]
    exact or_left_comm
  · intro y remains
    rcases tried.1 y remains with ⟨r, waits, _⟩ | isDone
    · cases waits
    · exact isDone

-- A name that is met for the first time is put on the stack `lower`.
theorem explored_enter (kept : m.Kept) (explored : m.Explored done s)
    (found : m.node? name = some node) (fresh : name ∉ s.visited) (lower : List Frame)
    (names : s.stack.map (·.name) = lower.map (·.name))
    (linked : ∀ x ∈ (lower.map (·.name)).head?, m.Edge x name)
    (offered : ∀ frame ∈ lower, ∀ r ∈ frame.untried, m.ref? r.name = some r ∧
      m.Edge frame.name r.name)
    (tried : Tried (m.Remains s.cycles) (name :: done) lower) :
    m.Explored done { s with
      visited := s.visited.insert name
      stack := ⟨name, node.edges.refs⟩ :: lower } := by
  have sound := kept.sound name node found
  obtain ⟨visited, apart, chain, _, _, settled, circuits⟩ := explored
  rw [names] at visited apart chain
  constructor
  case visited =>
    intro x
    rw [Std.ExtTreeSet.mem_insert, visited x, List.map_cons, List.mem_cons, or_assoc]
    exact or_congr_left (Std.LawfulEqCmp.compare_eq_iff_eq.trans eq_comm)
  case apart =>
    refine List.nodup_cons.mpr ⟨?_, apart⟩
    exact fun member => fresh ((visited name).mpr (.inl member))
  case path => exact List.isChain_cons.mpr ⟨linked, chain⟩
  case offered =>
    intro frame member r waits
    rcases List.mem_cons.mp member with rfl | old
    · exact ⟨sound.same r (.inl waits), (edge_iff_ref kept found).mpr ⟨r, waits, rfl⟩⟩
    · exact offered frame old r waits
  case tried => exact ⟨fun y remains => .inl ((edge_iff_ref kept found).mp remains.1), tried⟩
  case settled => exact settled
  case circuits => exact circuits

theorem explored_moves (kept : m.Kept) (moves : CycleSearch.Moves m.graph s next)
    (explored : m.Explored done s) : ∃ done, m.Explored done next := by
  -- The reference in hand is one of the map's own, and an edge leads to it.
  have head : ∀ {name target untried below}, s.stack = ⟨name, target :: untried⟩ :: below →
      m.ref? target.name = some target ∧ m.Edge name target.name := by
    intro name target untried below path
    exact explored.offered ⟨name, target :: untried⟩ (path ▸ List.mem_cons_self) target
      List.mem_cons_self
  cases moves with
  | leave path => exact ⟨_, explored_leave explored path⟩
  | lost path missing =>
    obtain ⟨node, found⟩ := kept.indexed _ _ (head path).1
    rw [missing] at found
    cases found
  | pass path known offPath =>
    refine ⟨done, explored_next explored path (fun _ => id) explored.circuits ?_⟩
    exact fun _ => ((explored.visited _).mp known).resolve_left offPath
  | @close name target untried below path onPath =>
    have names := CycleSearch.path_kept path
    obtain ⟨circuit, closing⟩ := circuit_closed (names ▸ explored.apart) (names ▸ explored.path)
      rfl (head path).2 (names ▸ onPath)
    refine ⟨done, explored_next explored path (fun _ => List.mem_cons_of_mem _) ?_ ?_⟩
    · intro path member
      rcases List.mem_cons.mp member with rfl | old
      · exact circuit
      · exact explored.circuits path old
    · exact fun remains => absurd closing (remains.2 _ List.mem_cons_self)
  | @enter name target untried below node path found fresh =>
    have names := CycleSearch.path_kept path
    have found : m.node? target.name = some node := by
      rw [node_of_ref (head path).1, found]
    have offered := explored.offered
    have tried := explored.tried
    rw [path] at offered tried
    refine ⟨done, explored_enter kept explored found fresh _ names ?_ ?_ ?_⟩
    · intro x top
      cases top
      exact (head path).2
    · intro frame member r waits
      rcases List.mem_cons.mp member with rfl | old
      · exact offered ⟨name, target :: untried⟩ List.mem_cons_self r (.tail _ waits)
      · exact offered frame (.tail _ old) r waits
    · refine ⟨?_, tried.2.mono (fun _ _ => id) ?_⟩
      · intro y remains
        rcases tried.1 y remains with ⟨r, waits, rfl⟩ | isDone
        · rcases List.mem_cons.mp waits with rfl | waits
          · exact .inr List.mem_cons_self
          · exact .inl ⟨r, waits, rfl⟩
        · exact .inr (List.mem_cons_of_mem _ isDone)
      · intro x member
        rcases List.mem_cons.mp member with rfl | old
        · exact List.mem_cons_self
        · exact List.mem_cons_of_mem _ (List.mem_cons_of_mem _ old)

/-! The whole search. -/

-- Between two roots nothing is on the stack.
def Rested (m : DependencyMap) (s : CycleSearch) : Prop :=
  s.stack = [] ∧ ∃ done, m.Explored done s

theorem rested_start (m : DependencyMap) : m.Rested {} := by
  refine ⟨rfl, [], ?_, .nil, .nil, ?_, trivial, trivial, ?_⟩ <;> simp

theorem rested_root (kept : m.Kept) (rested : m.Rested s) (here : m.ref? root.name = some root) :
    m.Rested (CycleSearch.fromRoot m.graph s root) ∧
      root.name ∈ (CycleSearch.fromRoot m.graph s root).visited ∧
      ∀ x ∈ s.visited, x ∈ (CycleSearch.fromRoot m.graph s root).visited := by
  obtain ⟨empty, done, explored⟩ := rested
  by_cases known : root.name ∈ s.visited
  · rw [CycleSearch.from_root_known known]
    exact ⟨⟨empty, done, explored⟩, known, fun _ => id⟩
  · obtain ⟨node, found⟩ := kept.indexed _ _ here
    rw [CycleSearch.from_root_new known found]
    have started := explored_enter kept explored ((node_of_ref here).trans found) known []
      (by rw [empty]) (by simp) (by simp) trivial
    have entered : ∀ x, x ∈ s.visited.insert root.name ↔ root.name = x ∨ x ∈ s.visited := by simp
    refine ⟨⟨CycleSearch.run_done _ _, ?_⟩, ?_, ?_⟩
    · refine CycleSearch.run_keeps (P := fun s => ∃ done, m.Explored done s) ?_ ⟨done, started⟩
      exact fun _ _ moves given => given.elim fun _ explored => explored_moves kept moves explored
    · exact CycleSearch.run_visited ((entered _).mpr (.inl rfl))
    · exact fun x old => CycleSearch.run_visited ((entered x).mpr (.inr old))

theorem rested_roots (kept : m.Kept) (roots : List Ref) (rested : m.Rested s)
    (here : ∀ root ∈ roots, m.ref? root.name = some root) :
    m.Rested (roots.foldl (CycleSearch.fromRoot m.graph) s) ∧
      ∀ x, (x ∈ s.visited ∨ ∃ root ∈ roots, root.name = x) →
        x ∈ (roots.foldl (CycleSearch.fromRoot m.graph) s).visited := by
  induction roots generalizing s with
  | nil => exact ⟨rested, fun x given => given.resolve_right (by simp)⟩
  | cons root roots ih =>
    obtain ⟨after, entered, grown⟩ := rested_root kept rested (here root List.mem_cons_self)
    obtain ⟨last, all⟩ := ih after fun root member => here root (List.mem_cons_of_mem _ member)
    refine ⟨last, ?_⟩
    intro x given
    refine all x ?_
    rcases given with old | ⟨root', member, rfl⟩
    · exact .inl (grown x old)
    · rcases List.mem_cons.mp member with rfl | later
      · exact .inl entered
      · exact .inr ⟨root', later, rfl⟩

theorem mem_roots (m : DependencyMap) (r : Ref) :
    r ∈ m.names.filterMap m.ref? ↔ m.ref? r.name = some r := by
  rw [List.mem_filterMap]
  constructor
  · intro given
    obtain ⟨name, _, found⟩ := given
    rw [ref_name found]
    exact found
  · intro found
    refine ⟨r.name, ?_, found⟩
    obtain ⟨id, stored, _⟩ := Option.map_eq_some_iff.mp found
    exact Std.ExtTreeMap.mem_keys.mpr (Std.ExtTreeMap.mem_iff_isSome_getElem?.mpr (by simp [stored]))

-- Every name that an edge leaves is done when the search is.
theorem explored_all (kept : m.Kept) :
    ∃ done, Settled (m.Remains m.detectCycles) done ∧ (∀ x y, m.Edge x y → x ∈ done) ∧
      ∀ path ∈ m.detectCycles, m.Circuit path := by
  obtain ⟨⟨empty, done, explored⟩, visited⟩ := rested_roots kept (m.names.filterMap m.ref?)
    (rested_start m) fun root member => (mem_roots m root).mp member
  refine ⟨done, ?_, ?_, ?_⟩
  · exact explored.settled.mono fun x y remains =>
      remains.less fun path member => List.mem_reverse.mpr member
  · intro x y edge
    obtain ⟨node, found, _⟩ := edge
    obtain ⟨r, here, _⟩ := ref_of_node found
    have named := ref_name here
    have known := visited x (.inr ⟨r, (mem_roots m r).mpr (named ▸ here), named⟩)
    rw [explored.visited, empty] at known
    exact known.resolve_left (by simp)
  · exact fun path member => explored.circuits path (List.mem_reverse.mp member)

end DependencyMap
end ClassAtlas
