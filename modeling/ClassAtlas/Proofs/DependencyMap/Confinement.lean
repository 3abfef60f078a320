import ClassAtlas.Proofs.DependencyMap.Session
import ClassAtlas.Proofs.Graph.Aliases
import ClassAtlas.Proofs.Graph.InPlace

/-!
What a transitive question changes. It writes to the graph while it reads from it, on cycles also to
nodes that it reads from. Yet at every moment all closures but one and all that waits elsewhere are
as they were: the one closure grows, and whatever enters it comes to know its holder.
-/

namespace ClassAtlas

namespace Graph

-- Since then the member has entered the closure of the holder.
def Enters (g now : Graph) (holder member : Ref) : Prop :=
  ¬ g.Holds holder member ∧ now.Holds holder member

-- What a question about `self` has changed so far is confined to that node, and to the holders of
-- what entered its closure.
structure Confined (g now : Graph) (self : Ref) : Prop where
  edges : ∀ r, (now.deref r).map (·.edges) = (g.deref r).map (·.edges)
  others : ∀ r, r ≠ self → (now.deref r).map (fun node => (node.closure, node.pending)) =
    (g.deref r).map fun node => (node.closure, node.pending)
  idle : ∀ node, now.deref self = some node → node.pending = ∅
  grows : ∀ r, g.Holds self r → now.Holds self r
  holders : ∀ r node later, g.deref r = some node → now.deref r = some later →
    ∀ holder, holder ∈ later.holders.refs ↔
      holder ∈ node.holders.refs ∨ (holder = self ∧ g.Enters now self r)
  added : ∀ r node, g.deref r = some node → g.Enters now self r → self ∉ node.holders.refs

variable {g now : Graph} {self r : Ref} {node known : Node} {s : Sweep}

theorem holds_found (found : g.deref self = some node) : g.Holds self r ↔ r ∈ node.closure.refs := by
  constructor
  · intro holds
    obtain ⟨other, there, inside⟩ := holds
    rw [found] at there
    cases there
    exact inside
  · intro inside
    exact ⟨node, found, inside⟩

theorem holds_settled (found : g.deref self = some node) (s : Sweep) :
    (g.settle self s.closure s.entered).Holds self r ↔ r ∈ s.closure.refs := by
  obtain ⟨settled, there, closure, _⟩ := settled_own found s.closure s.entered
  rw [holds_found there, closure]

theorem enters_settled (found : g.deref self = some node) (filled : Sweep.Filled node.closure s)
    (novel : Sweep.Novel node.closure s) (tidy : node.closure.Tidy) :
    g.Enters (g.settle self s.closure s.entered) self r ↔ r ∈ s.entered := by
  rw [Enters, holds_found found, holds_settled found, filled.refs]
  constructor
  · intro given
    exact given.2.resolve_left given.1
  · intro new
    refine ⟨fun old => ?_, .inr new⟩
    have has := (tidy.has_iff_ref r.name).mpr ⟨r, old, rfl⟩
    rw [novel r new] at has
    cases has

-- There is one node to a place, so those that learn of the new holder are those that entered.
theorem settled_holders (self : Ref) (there : g.deref r = some known)
    (placed : ∀ member ∈ s.entered, ∃ other, g.deref member = some other) :
    ∃ settled, (g.settle self s.closure s.entered).deref r = some settled ∧
      settled.holders = if r ∈ s.entered then known.holders.add self else known.holders := by
  have entered : (∃ member ∈ s.entered, member.id = r.id) ↔ r ∈ s.entered := by
    constructor
    · intro given
      obtain ⟨member, new, same⟩ := given
      obtain ⟨other, there'⟩ := placed member new
      obtain ⟨rfl, _⟩ := deref_unique there' there same
      exact new
    · intro new
      exact ⟨r, new, rfl⟩
  refine ⟨_, by rw [deref_settle, there, Option.map_some], ?_⟩
  simp only [Node.settles_holders, entered]

theorem confined_settle (found : g.deref self = some node) (filled : Sweep.Filled node.closure s)
    (novel : Sweep.Novel node.closure s) (tidy : node.closure.Tidy)
    (unheld : ∀ r ∈ s.entered, ∃ known, g.deref r = some known ∧ self.name ∉ known.holders) :
    g.Confined (g.settle self s.closure s.entered) self := by
  have enters := fun r => enters_settled (r := r) found filled novel tidy
  have unheld_at : ∀ {r known}, g.deref r = some known → r ∈ s.entered → self.name ∉ known.holders := by
    intro r known there new
    obtain ⟨other, there', free⟩ := unheld r new
    rw [there] at there'
    cases there'
    exact free
  constructor
  case edges =>
    intro r
    rw [deref_settle, Option.map_map]
    congr 1
    funext node
    exact Node.settles_edges ..
  case others =>
    intro r apart
    cases there : g.deref r with
    | none =>
      rw [deref_settle, there]
      rfl
    | some known =>
      obtain ⟨later, there', closure, pending⟩ := settled_other found there apart s.closure s.entered
      rw [there', Option.map_some, Option.map_some, closure, pending]
  case idle =>
    intro later there
    obtain ⟨own, there', _, pending⟩ := settled_own found s.closure s.entered
    cases there.symm.trans there'
    exact pending
  case grows =>
    intro r holds
    rw [holds_settled found, filled.refs]
    exact .inl ((holds_found found).mp holds)
  case holders =>
    intro r known later there there' holder
    obtain ⟨settled, found', holders⟩ := settled_holders self there
      fun member new => (unheld member new).imp fun _ => And.left
    cases there'.symm.trans found'
    rw [holders, enters r]
    split
    · rename_i new
      rw [NodeSet.mem_refs_new (unheld_at there new)]
      simp only [new, and_true]
      exact or_comm
    · rename_i old
      simp only [old, and_false, or_false]
  case added =>
    intro r known there given held
    exact unheld_at there ((enters r).mp given) ((NodeSet.mem_iff_ref _ _).mpr ⟨self, held, rfl⟩)

end Graph

namespace DependencyMap
variable {m : DependencyMap} {name : Text} {self : Ref} {node : Node} {s next : Sweep}

-- A sweep for the node `name` under way, with what it has gained so far.
structure Gaining (m : DependencyMap) (name : Text) (before : Buckets) (s : Sweep) : Prop where
  progress : m.Progress name before s
  filled : Sweep.Filled before s
  novel : Sweep.Novel before s

theorem gaining_start (kept : m.Kept) (found : m.node? name = some node) :
    m.Gaining name node.closure { worklist := node.pending.toList, closure := node.closure } where
  progress := progress_start kept found
  filled := ⟨(kept.sound name node found).closure_tidy, by simp⟩
  novel := by simp [Sweep.Novel]

theorem gaining_moves {before : Buckets} (kept : m.Kept) (moves : Sweep.Moves m.graph name s next)
    (gaining : m.Gaining name before s) : m.Gaining name before next := by
  refine ⟨progress_moves kept moves gaining.progress, ?_, ?_⟩
  · cases moves with
    | lost | skip => exact ⟨gaining.filled.tidy, gaining.filled.refs⟩
    | merge => exact Sweep.merge_filled gaining.filled
  · cases moves with
    | lost | skip => exact gaining.novel
    | merge => exact Sweep.merge_novel gaining.progress.grown gaining.novel

theorem confined_gaining (kept : m.Kept) (here : m.ref? name = some self)
    (found : m.node? name = some node) (gaining : m.Gaining name node.closure s) :
    m.graph.Confined (InPlace.written m.graph self s).graph self := by
  have tidy := (kept.sound name node found).closure_tidy
  refine Graph.confined_settle (deref_of_ref here found) gaining.filled gaining.novel tidy fun r new => ?_
  have there := gaining.progress.same r (.inr (.inr new))
  obtain ⟨known, held⟩ := kept.node_of_ref there
  refine ⟨known, deref_of_ref there held, fun holder => ?_⟩
  rw [ref_name here] at holder
  have has := (kept.mirror name r.name node known found held).mpr holder
  rw [gaining.novel r new] at has
  cases has

-- At every pass of the loop, and at its end.
theorem confined_passes (kept : m.Kept) (here : m.ref? name = some self)
    (found : m.node? name = some node) {count : Nat} {moment : InPlace}
    (come : passes (InPlace.step self) count (.start m.graph self) = some moment) :
    m.graph.Confined moment.graph self := by
  rw [InPlace.passes_written (deref_of_ref here found), ref_name here] at come
  obtain ⟨s, swept, rfl⟩ := Option.map_eq_some_iff.mp come
  have gaining : m.Gaining name node.closure s :=
    passes_keep (fun _ _ stepped => gaining_moves kept (Sweep.step_moves stepped))
      (gaining_start kept found) swept
  exact confined_gaining kept here found gaining

-- After any session, for any name: a question leaves a map that lacks the name as it is. Otherwise
-- it writes to the graph pass by pass, and from the first pass to the last what has changed is
-- confined to the node it is about and to the holders of what entered.
theorem query_confined (steps : List Step) (name : Text) :
    let m := (run {} steps).1
    let after := (m.step (.transitive name)).1
    match m.ref? name with
    | none => after = m
    | some self =>
      after = { m with graph := after.graph } ∧ m.graph.Confined after.graph self ∧
      (∀ count moment, passes (InPlace.step self) count (.start m.graph self) = some moment →
        m.graph.Confined moment.graph self) ∧
      ∃ count done, passes (InPlace.step self) count (.start m.graph self) = some done ∧
        done.worklist = [] ∧ done.graph = after.graph := by
  intro m after
  have kept : m.Kept := kept_run steps
  have asked : after = (m.transitiveDependenciesOf name).1 := rfl
  split
  · rename_i missing
    rw [asked, query_unknown missing]
  · rename_i self here
    obtain ⟨node, found⟩ := kept.node_of_ref here
    have at_place := deref_of_ref here found
    have every : ∀ count moment,
        passes (InPlace.step self) count (.start m.graph self) = some moment →
          m.graph.Confined moment.graph self := fun _ _ => confined_passes kept here found
    have done := InPlace.passes_done at_place
    have graph : (InPlace.written m.graph self (m.graph.sweepOf node)).graph = after.graph := by
      rw [InPlace.written_done at_place, asked, query_map here]
    refine ⟨?_, ?_, every, _, _, done, Sweep.run_done .., graph⟩
    · rw [asked, query_map here]
    · rw [← graph]
      exact every _ _ done

end DependencyMap
end ClassAtlas
