import ClassAtlas.Proofs.DependencyMap.Exploration
import ClassAtlas.Proofs.DependencyMap.Reachability

/-!
What the search for cycles answers, after any session. Each path it returns is a circuit of
direct dependencies, and taking the last edge of each away leaves no circuit. So it returns
nothing exactly when there is none, which is also what the transitive answers tell.
-/

namespace ClassAtlas.DependencyMap
variable {m : DependencyMap} {a b : Text} {path : List Text}

theorem Circuit.closing (circuit : m.Circuit path) :
    ∃ a b, closingEdge? path = some (a, b) ∧ m.Edge a b := by
  obtain ⟨first, between, rfl, _⟩ := circuit.closed
  have chain := circuit.chain
  rcases List.eq_nil_or_concat' (first :: between) with impossible | ⟨before, last, split⟩
  · cases impossible
  · rw [split, List.append_assoc] at chain ⊢
    exact ⟨last, first, closing_edge_append before last first,
      (List.isChain_append_cons_cons.mp chain).2.1⟩

theorem remains_acyclic (kept : m.Kept) (a : Text) :
    ¬ Relation.TransGen (m.Remains m.detectCycles) a a := by
  obtain ⟨done, settled, all, _⟩ := explored_all kept
  intro cycle
  obtain ⟨b, remains, _⟩ := Relation.TransGen.head'_iff.mp cycle
  exact settled.acyclic (all a b remains.1) cycle

theorem no_cycles_iff (kept : m.Kept) : m.detectCycles = [] ↔ ∀ a, ¬ m.Reaches a a := by
  constructor
  · intro none_found a cycle
    refine remains_acyclic kept a (Relation.TransGen.mono ?_ a a cycle)
    intro x y edge
    refine ⟨edge, ?_⟩
    simp [none_found]
  · intro acyclic
    obtain ⟨_, _, _, circuits⟩ := explored_all kept
    refine List.eq_nil_iff_forall_not_mem.mpr fun path member => ?_
    obtain ⟨a, cycle⟩ := (circuits path member).reaches
    exact acyclic a cycle

-- A way back from the end of an edge to its start, as a transitive answer tells of it.
theorem returns_iff_answered (kept : m.Kept) (a : Text) : m.Reaches a a ↔
    ∃ b, m.Edge a b ∧ a ∈ Buckets.namesIn (m.transitiveDependenciesOf b).2.1 := by
  constructor
  · intro cycle
    obtain ⟨b, edge, back⟩ := Relation.TransGen.head'_iff.mp cycle
    have apart := edge_apart kept edge
    rcases Relation.reflTransGen_iff_eq_or_transGen.mp back with same | back
    · exact absurd same apart
    · exact ⟨b, edge, ((query_exact kept b).1 a).mpr ⟨apart, back⟩⟩
  · intro given
    obtain ⟨b, edge, answered⟩ := given
    exact .head edge (((query_exact kept b).1 a).mp answered).2

theorem cycle_iff_answered (kept : m.Kept) : (∃ a, m.Reaches a a) ↔
    ∃ a b, m.Edge a b ∧ a ∈ Buckets.namesIn (m.transitiveDependenciesOf b).2.1 :=
  exists_congr fun a => returns_iff_answered kept a

-- The search for cycles after a session, against the edges and against the transitive answers.
theorem cycles_broken (steps : List Step) :
    let m := (run {} steps).1
    (∀ path ∈ m.detectCycles, ∃ a b, closingEdge? path = some (a, b) ∧ m.Edge a b) ∧
    (∀ a, ¬ Relation.TransGen (m.Remains m.detectCycles) a a) ∧
    (m.detectCycles = [] ↔ ∀ a, ¬ Relation.TransGen m.Edge a a) ∧
    (m.detectCycles = [] ↔
      ¬ ∃ a b, m.Edge a b ∧ a ∈ Buckets.namesIn (m.transitiveDependenciesOf b).2.1) := by
  have kept := kept_run steps
  obtain ⟨_, _, _, circuits⟩ := explored_all kept
  refine ⟨fun path member => (circuits path member).closing, remains_acyclic kept,
    no_cycles_iff kept, ?_⟩
  rw [no_cycles_iff kept, ← cycle_iff_answered kept, not_exists]

end ClassAtlas.DependencyMap
