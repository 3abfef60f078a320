import Mathlib.Data.List.Permutation
import Std.Data.TreeMap.Iterator
import ClassAtlas.Proofs.DependencyMap.Cycles
import ClassAtlas.Proofs.DependencyMap.DistinctCycles

/-!
Which cycles the search for cycles speaks for. It follows every edge once, so it does not return
every cycle, and a name on one may stand on none of the paths it returns. But every cycle runs
along the last edge of some path, and so each name on a cycle is bound up with a whole path: it
reaches all the names there and is reached from them.
-/

namespace ClassAtlas.DependencyMap
variable {m : DependencyMap} {a b x y : Text} {between path : List Text}
  {edge : Text → Text → Prop}

-- Any two names of a closed walk, and each with itself.
theorem bound_along (chain : (a :: between ++ [a]).IsChain edge) (first : x ∈ a :: between ++ [a])
    (second : y ∈ a :: between ++ [a]) : Relation.TransGen edge x y := by
  have away : ∀ z ∈ a :: between ++ [a], Relation.TransGen edge a z := by
    intro z member
    have later : z ∈ between ++ [a] := by
      rcases List.mem_cons.mp member with rfl | later
      · exact List.mem_append_right _ List.mem_cons_self
      · exact later
    exact reaches_along chain later
  have back : ∀ z ∈ a :: between ++ [a], Relation.TransGen edge z a := by
    intro z member
    rcases List.mem_append.mp member with inside | last
    · obtain ⟨front, rest, split⟩ := List.append_of_mem inside
      rw [split, List.append_assoc] at chain
      exact reaches_along chain.right_of_append (List.mem_append_right _ List.mem_cons_self)
    · rw [List.mem_singleton.mp last]
      exact reaches_along chain (List.mem_append_right _ List.mem_cons_self)
  exact (back x first).trans (away y second)

theorem Circuit.bound (circuit : m.Circuit path) (first : x ∈ path) (second : y ∈ path) :
    m.Reaches x y := by
  obtain ⟨start, between, rfl, _⟩ := circuit.closed
  exact bound_along circuit.chain first second

theorem closing_edge_mem (closing : closingEdge? path = some (x, y)) : y ∈ path := by
  unfold closingEdge? at closing
  split at closing
  · rename_i last before rest turned
    cases closing
    have inside : y ∈ path.reverse := turned ▸ List.mem_cons_self
    exact List.mem_reverse.mp inside
  · cases closing

-- A walk along no such edge would be a cycle that is left when they are taken away.
theorem closing_edge_met (kept : m.Kept) (chain : (a :: between ++ [a]).IsChain m.Edge) :
    ∃ path ∈ m.detectCycles, ∃ front x y back,
      a :: between ++ [a] = front ++ x :: y :: back ∧ closingEdge? path = some (x, y) := by
  by_contra unmet
  have remains : (a :: between ++ [a]).IsChain (m.Remains m.detectCycles) := by
    refine List.isChain_iff_forall_rel_of_append_cons_cons.mpr fun x y front back split => ?_
    refine ⟨List.isChain_iff_forall_rel_of_append_cons_cons.mp chain split, ?_⟩
    intro path member closing
    exact unmet ⟨path, member, front, x, y, back, split, closing⟩
  exact remains_acyclic kept a (bound_along remains List.mem_cons_self List.mem_cons_self)

theorem walk_of_return (returns : m.Reaches a a) :
    ∃ between, (a :: between ++ [a]).IsChain m.Edge := by
  obtain ⟨b, first, back⟩ := Relation.TransGen.head'_iff.mp returns
  obtain ⟨rest, chain, ends⟩ := List.exists_isChain_cons_of_relationReflTransGen back
  have last : (b :: rest).getLast? = some a := by
    rw [List.getLast?_eq_some_getLast (List.cons_ne_nil b rest), ends]
  obtain ⟨between, split⟩ := List.getLast?_eq_some_iff.mp last
  refine ⟨between, ?_⟩
  rw [List.cons_append, ← split]
  exact List.isChain_cons_cons.mpr ⟨first, chain⟩

theorem returns_iff_bound (kept : m.Kept) (a : Text) : m.Reaches a a ↔
    ∃ path ∈ m.detectCycles, path ≠ [] ∧ ∀ x ∈ path, m.Reaches a x ∧ m.Reaches x a := by
  constructor
  · intro returns
    obtain ⟨between, chain⟩ := walk_of_return returns
    obtain ⟨path, member, front, x, y, back, split, closing⟩ := closing_edge_met kept chain
    obtain ⟨_, _, _, circuits⟩ := explored_all kept
    have circuit := circuits path member
    have onPath := closing_edge_mem closing
    have onWalk : y ∈ a :: between ++ [a] := by simp [split]
    refine ⟨path, member, List.ne_nil_of_mem onPath, ?_⟩
    intro z inside
    constructor
    · exact (bound_along chain List.mem_cons_self onWalk).trans (circuit.bound onPath inside)
    · exact (circuit.bound inside onPath).trans (bound_along chain onWalk List.mem_cons_self)
  · intro given
    obtain ⟨path, _, named, bound⟩ := given
    obtain ⟨x, inside⟩ := List.exists_mem_of_ne_nil path named
    exact (bound x inside).1.trans (bound x inside).2

-- After a session the names on cycles are those that are bound up with a path returned, and a
-- path has no others. Each path is closed by an edge of its own, and each cycle runs along an edge
-- that closes a path.
theorem cycles_represented (steps : List Step) :
    let m := (run {} steps).1
    (∀ path ∈ m.detectCycles, ∀ a ∈ path, m.Reaches a a) ∧
    (∀ a, m.Reaches a a ↔
      ∃ path ∈ m.detectCycles, path ≠ [] ∧ ∀ x ∈ path, m.Reaches a x ∧ m.Reaches x a) ∧
    (m.detectCycles.map closingEdge?).Nodup ∧
    (∀ a between, (a :: between ++ [a]).IsChain m.Edge →
      ∃ path ∈ m.detectCycles, ∃ front x y back,
        a :: between ++ [a] = front ++ x :: y :: back ∧ closingEdge? path = some (x, y)) ∧
    ∀ a, m.Reaches a a ↔
      ∃ b, m.Edge a b ∧ a ∈ Buckets.namesIn (m.transitiveDependenciesOf b).2.1 := by
  intro m
  have kept : m.Kept := kept_run steps
  obtain ⟨_, _, _, circuits⟩ := explored_all kept
  obtain ⟨_, _, _, apart⟩ := paths_ordered kept
  refine ⟨?_, returns_iff_bound kept, apart, ?_, returns_iff_answered kept⟩
  · intro path member a inside
    exact (circuits path member).bound inside inside
  · intro a between chain
    exact closing_edge_met kept chain

-- Two names that refer to each other, and a third one on a longer way back to the first: when
-- its edge is tried, the name it leads to has been left already.
def detour : List Step := [.add "a" "b", .add "b" "a", .add "a" "c", .add "c" "b"]

theorem detour_cycles : (run {} detour).1.detectCycles = [[("a" : Text), "b", "a"]] := by cbv

theorem detour_unlisted : (run {} detour).1.Reaches ("c" : Text) "c" ∧
    ∀ path ∈ (run {} detour).1.detectCycles, ("c" : Text) ∉ path := by
  have edge : ∀ x y : Text, x ≠ y ∧ (x, y) ∈ detour.flatMap Step.links →
      (run {} detour).1.Edge x y := fun x y => (edge_run detour).mpr
  constructor
  · have first := edge ("c" : Text) "b" (by decide)
    have second := edge ("b" : Text) "a" (by decide)
    have third := edge ("a" : Text) "c" (by decide)
    exact ((Relation.TransGen.single first).tail second).tail third
  · rw [detour_cycles]
    decide

end ClassAtlas.DependencyMap
