import Mathlib.Algebra.GroupWithZero.Nat
import Mathlib.Data.Finset.Card
import Mathlib.Data.Finset.Dedup
import ClassAtlas.Proofs.Graph.Aliases
import ClassAtlas.Proofs.Graph.InPlace

/-!
How long a sweep takes. Its worklist grows while it is being worked off, may hold a name many times,
and is refilled from nodes that lead back to the node itself. It comes to an end on every graph: each
reference is taken from the line once, and what joined the line waited at the node or at one whose
closure was folded in, which happens for no name twice.
-/

namespace ClassAtlas.Graph

-- The names of nodes that a sweep may still find.
def missing (g : Graph) (node : Node) : Finset Text :=
  (g.nodes.toList.map (·.name)).toFinset.filter fun x => x ≠ node.name ∧ node.closure.has x = false

-- How much has joined the line for the sake of these.
def waitingAt (g : Graph) (merges : List Ref) : Nat := (merges.map fun d => (g.waiting d).length).sum

-- What was taken from the line and what is left of it are what joined it.
def Balanced (g : Graph) (first : List Ref) (s : Sweep) : Prop :=
  s.pops + s.worklist.length = first.length + g.waitingAt s.merges

-- What has been folded in was missing before, and is no longer.
structure Merged (g : Graph) (node : Node) (s : Sweep) : Prop where
  grown : Sweep.Grown node.closure s
  once : (s.merges.map (·.name)).Nodup
  leads : ∀ d ∈ s.merges, ∃ known, g.deref d = some known
  found : ∀ d ∈ s.merges, d.name ∈ g.missing node ∧ s.closure.has d.name = true

variable {g : Graph} {self : Text} {node known : Node} {s next : Sweep} {dep : Ref} {first rest : List Ref}

theorem balanced_moves (moves : Sweep.Moves g self s next) (balanced : g.Balanced first s) :
    g.Balanced first next := by
  unfold Balanced at balanced ⊢
  cases moves with
  | lost work | skip work =>
    rw [work, List.length_cons] at balanced
    dsimp only
    omega
  | @merge dep rest known work found =>
    have joined : g.waitingAt (dep :: s.merges) = known.pending.toList.length + g.waitingAt s.merges := by
      rw [waitingAt, List.map_cons, List.sum_cons, waiting_found found]
      rfl
    have merges : (s.merge self dep known rest).merges = dep :: s.merges := rfl
    have pops : (s.merge self dep known rest).pops = s.pops + 1 := rfl
    rw [work, List.length_cons] at balanced
    rw [merges, pops, joined, Sweep.merge_worklist, List.length_append]
    omega

theorem sweep_pops (g : Graph) (node : Node) : (g.sweepOf node).pops =
    node.pending.toList.length + g.waitingAt (g.sweepOf node).merges := by
  have balanced : g.Balanced node.pending.toList (g.sweepOf node) := by
    refine Sweep.run_keeps (P := g.Balanced node.pending.toList) (fun _ _ => balanced_moves) ?_
    simp [Balanced, waitingAt]
  rwa [Balanced, sweepOf, Sweep.run_done, List.length_nil, Nat.add_zero] at balanced

theorem mem_missing {x : Text} : x ∈ g.missing node ↔
    (∃ known ∈ g.nodes, known.name = x) ∧ x ≠ node.name ∧ node.closure.has x = false := by
  simp [missing]

theorem merged_merge (merged : g.Merged node s) (found : g.deref dep = some known)
    (other : dep.name ≠ node.name) (fresh : s.closure.has dep.name = false) :
    g.Merged node (s.merge node.name dep known rest) where
  grown := Sweep.merge_grown merged.grown
  once := by
    refine List.nodup_cons.mpr ⟨fun again => ?_, merged.once⟩
    obtain ⟨d, member, same⟩ := List.mem_map.mp again
    have has := (merged.found d member).2
    rw [same, fresh] at has
    cases has
  leads := by
    intro d member
    rcases List.mem_cons.mp member with rfl | old
    · exact ⟨known, found⟩
    · exact merged.leads d old
  found := by
    have new : node.closure.has dep.name = false :=
      Bool.eq_false_iff.mpr fun has => by simp [(merged.grown dep.name).mpr (.inl has)] at fresh
    intro d member
    rcases List.mem_cons.mp member with rfl | old
    · exact ⟨mem_missing.mpr ⟨⟨known, deref_mem found, deref_name found⟩, other, new⟩,
        Sweep.merge_enters ..⟩
    · obtain ⟨absent, has⟩ := merged.found d old
      exact ⟨absent, Sweep.merge_keeps _ _ _ _ _ _ has⟩

theorem merged_moves (moves : Sweep.Moves g node.name s next) (merged : g.Merged node s) :
    g.Merged node next := by
  cases moves with
  | lost | skip => exact ⟨merged.grown, merged.once, merged.leads, merged.found⟩
  | merge work found other fresh => exact merged_merge merged found other fresh

theorem merged_sweep (g : Graph) (node : Node) : g.Merged node (g.sweepOf node) := by
  refine Sweep.run_keeps (P := g.Merged node) (fun _ _ => merged_moves) ⟨?_, .nil, by simp, by simp⟩
  intro x
  simp

theorem merges_bounded (g : Graph) (node : Node) :
    (g.sweepOf node).merges.length ≤ (g.missing node).card := by
  have merged := merged_sweep g node
  have names : ((g.sweepOf node).merges.map (·.name)).toFinset ⊆ g.missing node := by
    intro x member
    obtain ⟨d, listed, rfl⟩ := List.mem_map.mp (List.mem_toFinset.mp member)
    exact (merged.found d listed).1
  calc (g.sweepOf node).merges.length
      = ((g.sweepOf node).merges.map (·.name)).toFinset.card := by
        rw [List.toFinset_card_of_nodup merged.once, List.length_map]
    _ ≤ (g.missing node).card := Finset.card_le_card names

-- After any session, for any node: the loop that a transitive question about it runs comes to its
-- end after as many passes as the sweep takes references from the line, and so many these are.
theorem worklist_ends (steps : List Step) :
    let g := (run {} steps).1
    ∀ id : Fin g.nodes.size,
      let self := g.refTo id
      let asked := g.step (.transitive id)
      ∃ (node : Node) (done : InPlace) (groups : List (Text × List Text)),
        g.deref self = some node ∧
        passes (InPlace.step self) (g.sweepOf node).pops (.start g self) = some done ∧
        done.worklist = [] ∧ done.graph = asked.1 ∧
        asked.2 = .closure groups (done.merges.reverse.map (·.name)) ∧
        (g.sweepOf node).pops =
          node.pending.toList.length + (done.merges.map fun d => (g.waiting d).length).sum ∧
        (∀ d ∈ done.merges, ∃ merged, g.deref d = some merged) ∧
        done.merges.length ≤ (g.missing node).card := by
  intro g id self asked
  obtain ⟨node, found⟩ : ∃ node, g.deref self = some node :=
    ⟨_, deref_handle (Array.getElem?_eq_getElem id.2)⟩
  exact ⟨node, _, _, found, InPlace.passes_done found, Sweep.run_done .., InPlace.written_done found,
    asked_answer found, sweep_pops g node, (merged_sweep g node).leads, merges_bounded g node⟩

end ClassAtlas.Graph
