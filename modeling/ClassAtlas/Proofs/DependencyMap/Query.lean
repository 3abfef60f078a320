import ClassAtlas.Proofs.DependencyMap.Invariant

/-!
A transitive question to a dependency map. Along the sweep every edge that leaves what has been
folded in leads to what is folded in or still in line; so the closure that comes out is all the
node reaches, and the map keeps what it kept before.
-/

namespace ClassAtlas
namespace DependencyMap

-- A sweep for the node `a` under way, from the closure it had before.
structure Progress (m : DependencyMap) (a : Text) (before : Buckets) (s : Sweep) : Prop where
  tidy : s.closure.Tidy
  apart : s.closure.has a = false
  same : ∀ r, r ∈ s.closure.refs ∨ r ∈ s.worklist ∨ r ∈ s.entered → m.ref? r.name = some r
  grown : Sweep.Grown before s
  reached : ∀ x, (s.closure.has x = true ∨ ∃ r ∈ s.worklist, r.name = x) → m.Reaches a x
  covers : ∀ x y, x = a ∨ s.closure.has x = true → m.Edge x y →
    y = a ∨ s.closure.has y = true ∨ ∃ r ∈ s.worklist, r.name = y

variable {m : DependencyMap} {a x y : Text} {r self : Ref} {node : Node} {s next : Sweep}
  {before : Buckets} {rest : List Ref} {dep : Ref}

theorem progress_start (kept : m.Kept) (found : m.node? a = some node) :
    m.Progress a node.closure { worklist := node.pending.toList, closure := node.closure } := by
  have sound := kept.sound a node found
  constructor
  case tidy => exact sound.closure_tidy
  case apart => exact sound.closure_apart
  case same =>
    intro r given
    rcases given with closed | waits | new
    · exact sound.same r (.inr (.inl closed))
    · exact sound.same r (.inr (.inr (.inl waits)))
    · cases new
  case grown =>
    intro x
    simp
  case reached =>
    intro x known
    rw [← Waiting.mem_names_iff] at known
    exact sound.reached x known
  case covers =>
    intro x y inside edge
    rw [← Waiting.mem_names_iff]
    exact sound.covers x y inside edge

-- What is dropped from the line is in the closure already, or is the node itself.
theorem progress_skip (progress : m.Progress a before s) (work : s.worklist = dep :: rest)
    (known : dep.name = a ∨ s.closure.has dep.name = true) :
    m.Progress a before { s with worklist := rest, pops := s.pops + 1 } := by
  have later : ∀ r ∈ rest, r ∈ s.worklist := by
    intro r member
    rw [work]
    exact List.mem_cons_of_mem _ member
  refine { progress with same := ?_, reached := ?_, covers := ?_ }
  · intro r given
    rcases given with closed | waits | new
    · exact progress.same r (.inl closed)
    · exact progress.same r (.inr (.inl (later r waits)))
    · exact progress.same r (.inr (.inr new))
  · intro x given
    rcases given with closed | ⟨r, waits, rfl⟩
    · exact progress.reached x (.inl closed)
    · exact progress.reached r.name (.inr ⟨r, later r waits, rfl⟩)
  · intro x y inside edge
    rcases progress.covers x y inside edge with isSelf | closed | ⟨r, waits, rfl⟩
    · exact .inl isSelf
    · exact .inr (.inl closed)
    · rw [work] at waits
      rcases List.mem_cons.mp waits with rfl | waits
      · exact known.imp_right .inl
      · exact .inr (.inr ⟨r, waits, rfl⟩)

theorem progress_merge (kept : m.Kept) (progress : m.Progress a before s)
    (work : s.worklist = dep :: rest) (found : m.node? dep.name = some node)
    (other : dep.name ≠ a) : m.Progress a before (s.merge a dep node rest) := by
  have sound := kept.sound dep.name node found
  have has := Sweep.has_merge s a dep rest sound.closure_tidy
  have first : dep ∈ s.worklist := by
    rw [work]
    exact List.mem_cons_self
  have reaches_dep : m.Reaches a dep.name := progress.reached dep.name (.inr ⟨dep, first, rfl⟩)
  obtain ⟨held, entered⟩ := Sweep.merge_origin a dep node rest progress.tidy
  -- The line afterwards: what was behind the head, then what the merged node has waiting.
  have in_line : ∀ x, (∃ r ∈ (s.merge a dep node rest).worklist, r.name = x) ↔
      (∃ r ∈ rest, r.name = x) ∨ x ∈ node.pending.names := by
    intro x
    rw [Sweep.merge_worklist, Waiting.mem_names_iff]
    simp only [List.mem_append, or_and_right, exists_or]
  constructor
  case tidy => exact Sweep.merge_tidy progress.tidy
  case apart =>
    rw [← Bool.not_eq_true, has]
    intro given
    rcases given with isDep | ⟨apart, _⟩ | closed
    · exact other isDep.symm
    · exact apart rfl
    · rw [progress.apart] at closed
      cases closed
  case same =>
    intro r given
    rcases given with closed | waits | new
    · rcases held r closed with rfl | folded | old
      · exact progress.same r (.inr (.inl first))
      · exact sound.same r (.inr (.inl folded))
      · exact progress.same r (.inl old)
    · rw [Sweep.merge_worklist] at waits
      rcases List.mem_append.mp waits with old | waits
      · refine progress.same r (.inr (.inl ?_))
        rw [work]
        exact List.mem_cons_of_mem _ old
      · exact sound.same r (.inr (.inr (.inl waits)))
    · rcases entered r new with rfl | folded | old
      · exact progress.same r (.inr (.inl first))
      · exact sound.same r (.inr (.inl folded))
      · exact progress.same r (.inr (.inr old))
  case grown => exact Sweep.merge_grown progress.grown
  case reached =>
    intro x known
    rw [has, in_line] at known
    rcases known with (rfl | ⟨_, folded⟩ | old) | ⟨r, waits, rfl⟩ | waits
    · exact reaches_dep
    · exact reaches_dep.trans (sound.reached x (.inl folded))
    · exact progress.reached x (.inl old)
    · refine progress.reached r.name (.inr ⟨r, ?_, rfl⟩)
      rw [work]
      exact List.mem_cons_of_mem _ waits
    · exact reaches_dep.trans (sound.reached x (.inr waits))
  case covers =>
    intro x y inside edge
    rw [has] at inside
    rw [has, in_line]
    -- An edge from the merged node or its closure is covered by what that node remembers.
    have from_dep : x = dep.name ∨ node.closure.has x = true →
        y = a ∨ (y = dep.name ∨ (y ≠ a ∧ node.closure.has y = true) ∨ s.closure.has y = true) ∨
          (∃ r ∈ rest, r.name = y) ∨ y ∈ node.pending.names := by
      intro inside
      by_cases isSelf : y = a
      · exact .inl isSelf
      · rcases sound.covers x y inside edge with isDep | closed | waits
        · exact .inr (.inl (.inl isDep))
        · exact .inr (.inl (.inr (.inl ⟨isSelf, closed⟩)))
        · exact .inr (.inr (.inr waits))
    have from_old : x = a ∨ s.closure.has x = true →
        y = a ∨ (y = dep.name ∨ (y ≠ a ∧ node.closure.has y = true) ∨ s.closure.has y = true) ∨
          (∃ r ∈ rest, r.name = y) ∨ y ∈ node.pending.names := by
      intro inside
      rcases progress.covers x y inside edge with isSelf | closed | ⟨r, waits, rfl⟩
      · exact .inl isSelf
      · exact .inr (.inl (.inr (.inr closed)))
      · rw [work] at waits
        rcases List.mem_cons.mp waits with rfl | waits
        · exact .inr (.inl (.inl rfl))
        · exact .inr (.inr (.inl ⟨r, waits, rfl⟩))
    rcases inside with isSelf | isDep | ⟨_, folded⟩ | closed
    · exact from_old (.inl isSelf)
    · exact from_dep (.inl isDep)
    · exact from_dep (.inr folded)
    · exact from_old (.inr closed)

theorem progress_moves (kept : m.Kept) (moves : Sweep.Moves m.graph a s next)
    (progress : m.Progress a before s) : m.Progress a before next := by
  have head : ∀ {dep rest}, s.worklist = dep :: rest → m.ref? dep.name = some dep := by
    intro dep rest work
    refine progress.same dep (.inr (.inl ?_))
    rw [work]
    exact List.mem_cons_self
  cases moves with
  | lost work missing =>
    obtain ⟨node, found⟩ := kept.indexed _ _ (head work)
    rw [missing] at found
    cases found
  | skip work found known => exact progress_skip progress work known
  | merge work found other fresh =>
    refine progress_merge kept progress work ?_ other
    rw [node_of_ref (head work), found]

theorem progress_sweep (kept : m.Kept) (found : m.node? a = some node) :
    m.Progress a node.closure (m.graph.sweepOf node) := by
  unfold Graph.sweepOf
  rw [node_name found]
  exact Sweep.run_keeps (fun s next moves progress => progress_moves kept moves progress)
    (progress_start kept found)

-- What each step of a sweep under way keeps, the sweep keeps.
theorem sweep_keeps {P : Sweep → Prop} (kept : m.Kept) (found : m.node? a = some node)
    (moves : ∀ s next, Sweep.Moves m.graph a s next → m.Progress a node.closure s → P s → P next)
    (start : P { worklist := node.pending.toList, closure := node.closure }) :
    P (m.graph.sweepOf node) := by
  have both : m.Progress a node.closure (m.graph.sweepOf node) ∧ P (m.graph.sweepOf node) := by
    unfold Graph.sweepOf
    rw [node_name found]
    apply Sweep.run_keeps (P := fun s => m.Progress a node.closure s ∧ P s)
    · intro s next step given
      exact ⟨progress_moves kept step given.1, moves s next step given.1 given.2⟩
    · exact ⟨progress_start kept found, start⟩
  exact both.2

theorem sweep_done (g : Graph) (node : Node) : (g.sweepOf node).worklist = [] :=
  Sweep.run_done _ _ _

-- With nothing left in line, no path gets out of the closure except to the node itself.
theorem has_sweep (kept : m.Kept) (found : m.node? a = some node) (x : Text) :
    (m.graph.sweepOf node).closure.has x = true ↔ x ≠ a ∧ m.Reaches a x := by
  have progress := progress_sweep kept found
  have done := sweep_done m.graph node
  have closed : ∀ u v, u = a ∨ (m.graph.sweepOf node).closure.has u = true → m.Edge u v →
      v = a ∨ (m.graph.sweepOf node).closure.has v = true := by
    intro u v inside edge
    rcases progress.covers u v inside edge with isSelf | has | ⟨r, waits, _⟩
    · exact .inl isSelf
    · exact .inr has
    · rw [done] at waits
      cases waits
  constructor
  · intro has
    refine ⟨?_, progress.reached x (.inl has)⟩
    intro same
    subst same
    rw [progress.apart] at has
    cases has
  · intro given
    obtain ⟨other, reached⟩ := given
    exact (reached.within _ (.inl rfl) closed).resolve_left other

/-! What the question leaves behind. -/

theorem Progress.entered_known (progress : m.Progress a before s) :
    ∀ r ∈ s.entered, m.ref? r.name = some r :=
  fun r member => progress.same r (.inr (.inr member))

theorem edge_query (kept : m.Kept) (name x y : Text) :
    (m.transitiveDependenciesOf name).1.Edge x y ↔ m.Edge x y := by
  cases here : m.ref? name with
  | none => rw [query_unknown here]
  | some self =>
    obtain ⟨node, found⟩ := kept.node_of_ref here
    have progress := progress_sweep kept found
    unfold Edge
    rw [node_query kept.indexed here found progress.entered_known]
    simp only [Option.map_eq_some_iff, Node.dependsOn]
    constructor
    · intro given
      obtain ⟨_, ⟨old, held, rfl⟩, has⟩ := given
      rw [Node.settles_edges] at has
      exact ⟨old, held, has⟩
    · intro given
      obtain ⟨old, held, has⟩ := given
      exact ⟨_, ⟨old, held, rfl⟩, by rw [Node.settles_edges]; exact has⟩

theorem sound_query (kept : m.Kept) (here : m.ref? a = some self) (found : m.node? a = some node)
    {n₀ : Node} (held : m.node? x = some n₀) :
    (m.transitiveDependenciesOf a).1.Sound x (n₀.settles self (m.graph.sweepOf node).closure
      (a = x) (∃ r ∈ (m.graph.sweepOf node).entered, r.name = x)) := by
  have sound := kept.sound x n₀ held
  have progress := progress_sweep kept found
  have edges : (m.transitiveDependenciesOf a).1.Edge = m.Edge := by
    funext u v
    exact propext (edge_query kept a u v)
  have refs : ∀ u, (m.transitiveDependenciesOf a).1.ref? u = m.ref? u := by
    intro u
    rw [query_map here]
    rfl
  constructor
  case same =>
    intro r mentioned
    rw [refs]
    rcases mentioned with edge | closed | waits | holds
    · rw [Node.settles_edges] at edge
      exact sound.same r (.inl edge)
    · rw [Node.settles_closure] at closed
      split at closed
      · exact progress.same r (.inl closed)
      · exact sound.same r (.inr (.inl closed))
    · rw [Node.settles_pending] at waits
      split at waits
      · cases waits
      · exact sound.same r (.inr (.inr (.inl waits)))
    · rw [Node.settles_holders] at holds
      split at holds
      · rcases NodeSet.mem_refs_add holds with rfl | old
        · rw [ref_name here]
          exact here
        · exact sound.same r (.inr (.inr (.inr old)))
      · exact sound.same r (.inr (.inr (.inr holds)))
  case edges_tidy =>
    rw [Node.settles_edges]
    exact sound.edges_tidy
  case closure_tidy =>
    rw [Node.settles_closure]
    split
    · exact progress.tidy
    · exact sound.closure_tidy
  case edges_apart =>
    rw [Node.settles_edges]
    exact sound.edges_apart
  case closure_apart =>
    rw [Node.settles_closure]
    split
    · rename_i isSelf
      rw [← isSelf]
      exact progress.apart
    · exact sound.closure_apart
  case reached =>
    intro other remembered
    rw [Reaches, edges]
    rw [Node.settles_remembers] at remembered
    split at remembered
    · rename_i isSelf
      subst isSelf
      exact progress.reached other (.inl remembered)
    · exact sound.reached other remembered
  case covers =>
    intro u v inside edge
    rw [edges] at edge
    rw [Node.settles_remembers]
    rw [Node.settles_closure] at inside
    by_cases isSelf : a = x
    · subst isSelf
      simp only [if_true] at inside ⊢
      rcases progress.covers u v inside edge with same | has | ⟨r, waits, _⟩
      · exact .inl same
      · exact .inr has
      · rw [sweep_done] at waits
        cases waits
    · simp only [isSelf, if_false] at inside ⊢
      exact sound.covers u v inside edge

theorem kept_query (kept : m.Kept) (name : Text) : Kept (m.transitiveDependenciesOf name).1 := by
  cases here : m.ref? name with
  | none =>
    rw [query_unknown here]
    exact kept
  | some self =>
    obtain ⟨node, found⟩ := kept.node_of_ref here
    have progress := progress_sweep kept found
    have each := node_query kept.indexed here found progress.entered_known
    refine ⟨indexed_query kept.indexed here found, ?_, ?_⟩
    · intro x after held
      rw [each] at held
      obtain ⟨n₀, old, rfl⟩ := Option.map_eq_some_iff.mp held
      exact sound_query kept here found old
    · intro x y left right heldLeft heldRight
      rw [each] at heldLeft heldRight
      obtain ⟨left₀, oldLeft, rfl⟩ := Option.map_eq_some_iff.mp heldLeft
      obtain ⟨right₀, oldRight, rfl⟩ := Option.map_eq_some_iff.mp heldRight
      have mirror := kept.mirror x y left₀ right₀ oldLeft oldRight
      have holds : x ∈ (right₀.settles self (m.graph.sweepOf node).closure (name = y)
          (∃ r ∈ (m.graph.sweepOf node).entered, r.name = y)).holders ↔
          (name = x ∧ ∃ r ∈ (m.graph.sweepOf node).entered, r.name = y) ∨ x ∈ right₀.holders := by
        rw [Node.settles_holders]
        split
        · rename_i entered
          rw [NodeSet.mem_add, ref_name here]
          simp only [entered, and_true]
        · rename_i absent
          simp only [absent, and_false, false_or]
      rw [holds, Node.settles_closure]
      by_cases isSelf : name = x
      · subst isSelf
        rw [oldLeft] at found
        cases found
        rw [if_pos rfl, progress.grown y, mirror]
        simp only [true_and]
        exact or_comm
      · rw [if_neg isSelf, mirror]
        simp only [isSelf, false_and, false_or]

end DependencyMap
end ClassAtlas
