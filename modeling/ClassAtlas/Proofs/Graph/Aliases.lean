import Mathlib.Logic.Relation
import ClassAtlas.Graph.Session
import ClassAtlas.Proofs.Graph.Order
import ClassAtlas.Proofs.Graph.Sweep

/-!
Nodes that share a name. Each has edges of its own, yet every set takes a node for any other of its
name. So what a node remembers is told by names: it never has its own name nor one name twice, it
reaches each by edges that some node of every name on the way was given, and asking a second time
adds nothing.
-/

namespace ClassAtlas.Graph

-- In the course of the session some node of the one name got an edge to some node of the other.
def Linked (g : Graph) (steps : List Step) (p q : Text) : Prop :=
  ∃ before source target after, steps = before ++ .link source target :: after ∧
    ((g.run before).1.step (.link source target)).2 = .flag true ∧
    (g.run before).1.nameOf source = p ∧ (g.run before).1.nameOf target = q

-- The one node has the other in its closure, this very node and not another of its name.
def Holds (g : Graph) (holder member : Ref) : Prop :=
  ∃ node, g.deref holder = some node ∧ member ∈ node.closure.refs

-- The node knows of a holder of that name.
def Held (g : Graph) (member : Ref) (name : Text) : Prop :=
  ∃ node, g.deref member = some node ∧ name ∈ node.holders

-- Holders and closures are told node by node, all the rest by names.
structure Sound (edge : Text → Text → Prop) (g : Graph) (r : Ref) (node : Node) : Prop where
  edges_tidy : node.edges.Tidy
  closure_tidy : node.closure.Tidy
  edges_apart : node.edges.has r.name = false
  closure_apart : node.closure.has r.name = false
  reached : ∀ x, node.Remembers x → Relation.TransGen edge r.name x
  -- The holder that a member knows of may be another node of the same name.
  members : ∀ member ∈ node.closure.refs, g.Held member r.name
  holders : ∀ holder ∈ node.holders.refs, g.Holds holder r

def Kept (edge : Text → Text → Prop) (g : Graph) : Prop :=
  ∀ r node, g.deref r = some node → Sound edge g r node

variable {edge : Text → Text → Prop} {g : Graph} {r self source target : Ref} {node : Node}
  {id : NodeId} {p q x : Text} {s next : Sweep} {before : Buckets} {dep : Ref} {rest : List Ref}
  {first : Step} {steps : List Step}

theorem linked_first {source target : NodeId} (steps : List Step)
    (added : (g.step (.link source target)).2 = .flag true) :
    Linked g (.link source target :: steps) (g.nameOf source) (g.nameOf target) :=
  ⟨[], source, target, steps, rfl, added, rfl, rfl⟩

theorem linked_later (later : Linked (g.step first).1 steps p q) : Linked g (first :: steps) p q := by
  obtain ⟨before, source, target, after, rfl, added, rfl, rfl⟩ := later
  exact ⟨first :: before, source, target, after, rfl, added, rfl, rfl⟩

theorem kept_empty (edge : Text → Text → Prop) : Kept edge {} := by
  intro r node found
  simp [deref] at found

/-! A new node. -/

theorem Holds.create (holds : g.Holds self r) (name : Text) : (g.create name).1.Holds self r := by
  obtain ⟨node, found, inside⟩ := holds
  exact ⟨node, deref_create_old found name, inside⟩

theorem Held.create (held : g.Held r x) (name : Text) : (g.create name).1.Held r x := by
  obtain ⟨node, found, listed⟩ := held
  exact ⟨node, deref_create_old found name, listed⟩

theorem sound_fresh (edge : Text → Text → Prop) (g : Graph) (r : Ref) (name : Text) :
    Sound edge g r { name } where
  edges_tidy := Buckets.tidy_empty
  closure_tidy := Buckets.tidy_empty
  edges_apart := by simp [Buckets.has, Buckets.bucket]
  closure_apart := by simp [Buckets.has, Buckets.bucket]
  reached := by simp [Node.Remembers, Buckets.has, Buckets.bucket]
  members := by simp [Buckets.refs, Buckets.groups]
  holders := by simp [NodeSet.refs]

theorem kept_create (kept : Kept edge g) (name : Text) : Kept edge (g.create name).1 := by
  intro r node found
  rcases deref_create_cases found with rfl | old
  · exact sound_fresh edge _ r name
  · have sound := kept r node old
    exact { sound with
      members := fun member inside => (sound.members member inside).create name
      holders := fun holder inside => (sound.holders holder inside).create name }

/-! A new edge. It is told to every holder of its source. -/

theorem Holds.link (found : g.deref source = some node) (taken : ¬ Refuses node target)
    (holds : g.Holds self r) : (g.addEdge source target).1.Holds self r := by
  obtain ⟨other, known, inside⟩ := holds
  refine ⟨_, deref_linked found taken known, ?_⟩
  rw [Node.hears_closure]
  exact inside

theorem Held.link (found : g.deref source = some node) (taken : ¬ Refuses node target)
    (held : g.Held r x) : (g.addEdge source target).1.Held r x := by
  obtain ⟨other, known, listed⟩ := held
  refine ⟨_, deref_linked found taken known, ?_⟩
  rw [Node.hears_holders]
  exact listed

-- Whoever hears of the edge reaches its source, or is the source.
theorem hears_reached (kept : Kept edge g) (found : g.deref source = some node)
    (joins : edge source.name target.name) {other : Node} (known : g.deref r = some other)
    (hears : source.id = r.id ∨ ∃ holder ∈ node.holders.refs, holder.id = r.id) :
    Relation.TransGen edge r.name target.name := by
  rcases hears with placed | ⟨holder, listed, placed⟩
  · obtain ⟨rfl, _⟩ := deref_unique found known placed
    exact .single joins
  · obtain ⟨held, known', holds⟩ := (kept source node found).holders holder listed
    obtain ⟨rfl, rfl⟩ := deref_unique known' known placed
    have sound := kept holder held known
    have has := (sound.closure_tidy.has_iff_ref source.name).mpr ⟨source, holds, rfl⟩
    exact .tail (sound.reached source.name (.inl has)) joins

theorem kept_link (kept : Kept edge g) (found : g.deref source = some node)
    (taken : ¬ Refuses node target) (joins : edge source.name target.name) :
    Kept edge (g.addEdge source target).1 := by
  intro r after known
  rw [deref_add_edge found taken, Option.map_eq_some_iff] at known
  obtain ⟨old, known, rfl⟩ := known
  have sound := kept r old known
  constructor
  case edges_tidy =>
    rw [Node.hears_edges]
    split
    · exact sound.edges_tidy.add target
    · exact sound.edges_tidy
  case closure_tidy =>
    rw [Node.hears_closure]
    exact sound.closure_tidy
  case edges_apart =>
    rw [Node.hears_edges]
    split
    · rename_i placed
      obtain ⟨rfl, rfl⟩ := deref_unique found known placed
      rw [Buckets.has_add, sound.edges_apart, Bool.or_false, decide_eq_false_iff_not]
      exact fun same => taken (.inl ((deref_name known).trans same.symm))
    · exact sound.edges_apart
  case closure_apart =>
    rw [Node.hears_closure]
    exact sound.closure_apart
  case reached =>
    intro x remembered
    rcases (Node.hears_remembers ..).mp remembered with before | ⟨rfl, hears⟩
    · exact sound.reached x before
    · exact hears_reached kept found joins known hears
  case members =>
    intro member inside
    rw [Node.hears_closure] at inside
    exact (sound.members member inside).link found taken
  case holders =>
    intro holder inside
    rw [Node.hears_holders] at inside
    exact (sound.holders holder inside).link found taken

/-! A sweep for a node of the name `p`. -/

structure Sweeping (edge : Text → Text → Prop) (g : Graph) (p : Text) (before : Buckets)
    (s : Sweep) : Prop where
  filled : Sweep.Filled before s
  apart : s.closure.has p = false
  reached : ∀ x, (s.closure.has x = true ∨ ∃ r ∈ s.worklist, r.name = x) →
    Relation.TransGen edge p x
  known : ∀ r ∈ s.entered, ∃ held, g.deref r = some held

theorem sweeping_start (sound : Sound edge g self node) :
    Sweeping edge g self.name node.closure { worklist := node.pending.toList, closure := node.closure } where
  filled := ⟨sound.closure_tidy, by simp⟩
  apart := sound.closure_apart
  reached := by
    intro x given
    rw [← Waiting.mem_names_iff] at given
    exact sound.reached x given
  known := by simp

theorem sweeping_drop (sweeping : Sweeping edge g p before s) (work : s.worklist = dep :: rest) :
    Sweeping edge g p before { s with worklist := rest, pops := s.pops + 1 } where
  filled := ⟨sweeping.filled.tidy, sweeping.filled.refs⟩
  apart := sweeping.apart
  reached := by
    intro x given
    refine sweeping.reached x (given.imp_right ?_)
    rintro ⟨r, waits, rfl⟩
    exact ⟨r, work ▸ List.mem_cons_of_mem _ waits, rfl⟩
  known := sweeping.known

theorem sweeping_merge (kept : Kept edge g) (sweeping : Sweeping edge g p before s)
    (work : s.worklist = dep :: rest) (found : g.deref dep = some node) (apart : dep.name ≠ p) :
    Sweeping edge g p before (s.merge p dep node rest) := by
  have sound := kept dep node found
  have has := Sweep.has_merge s p dep rest sound.closure_tidy
  have line : ∀ r ∈ dep :: rest, Relation.TransGen edge p r.name := fun r waits =>
    sweeping.reached r.name (.inr ⟨r, work ▸ waits, rfl⟩)
  have start := line dep List.mem_cons_self
  constructor
  case filled => exact Sweep.merge_filled sweeping.filled
  case apart =>
    rw [← Bool.not_eq_true, has]
    rintro (same | ⟨other, _⟩ | closed)
    · exact apart same.symm
    · exact other rfl
    · rw [sweeping.apart] at closed
      cases closed
  case reached =>
    rintro x (closed | ⟨r, waits, rfl⟩)
    · rcases (has x).mp closed with rfl | ⟨_, folded⟩ | old
      · exact start
      · exact start.trans (sound.reached x (.inl folded))
      · exact sweeping.reached x (.inl old)
    · rw [Sweep.merge_worklist, List.mem_append] at waits
      rcases waits with waits | waits
      · exact line r (List.mem_cons_of_mem _ waits)
      · have remembered := (Waiting.mem_names_iff _ r.name).mpr ⟨r, waits, rfl⟩
        exact start.trans (sound.reached r.name (.inr remembered))
  case known =>
    intro r new
    rcases (Sweep.merge_origin p dep node rest sweeping.filled.tidy).2 r new with
      rfl | folded | old
    · exact ⟨node, found⟩
    · obtain ⟨held, there, _⟩ := sound.members r folded
      exact ⟨held, there⟩
    · exact sweeping.known r old

theorem sweeping_done (kept : Kept edge g) (found : g.deref self = some node) :
    Sweeping edge g self.name node.closure (g.sweepOf node) := by
  unfold sweepOf
  rw [deref_name found]
  refine Sweep.run_keeps (P := Sweeping edge g self.name node.closure) ?_
    (sweeping_start (kept self node found))
  intro s next moves sweeping
  cases moves with
  | lost work missing => exact sweeping_drop sweeping work
  | skip work known => exact sweeping_drop sweeping work
  | merge work there other fresh => exact sweeping_merge kept sweeping work there other

/-! The end of a sweep. What entered is told who holds it. -/

-- A closure that is brought up to date loses nothing.
theorem Holds.flatten (kept : Kept edge g) (found : g.deref self = some node)
    (holds : g.Holds source r) : (g.flatten self).1.Holds source r := by
  obtain ⟨other, known, inside⟩ := holds
  refine ⟨_, deref_flattened found known, ?_⟩
  rw [Node.settles_closure]
  split
  · rename_i placed
    obtain ⟨rfl, rfl⟩ := deref_unique found known placed
    exact ((sweeping_done kept found).filled.refs r).mpr (.inl inside)
  · exact inside

theorem Held.flatten (found : g.deref self = some node) (held : g.Held r x) :
    (g.flatten self).1.Held r x := by
  obtain ⟨other, known, listed⟩ := held
  refine ⟨_, deref_flattened found known, ?_⟩
  rw [Node.settles_holders]
  split
  · exact (NodeSet.mem_add ..).mpr (.inr listed)
  · exact listed

-- A new member comes to know of a holder of the name.
theorem held_entered (kept : Kept edge g) (found : g.deref self = some node)
    (new : r ∈ (g.sweepOf node).entered) : (g.flatten self).1.Held r self.name := by
  obtain ⟨held, known⟩ := (sweeping_done kept found).known r new
  refine ⟨_, deref_flattened found known, ?_⟩
  rw [Node.settles_holders, if_pos ⟨r, new, rfl⟩]
  exact (NodeSet.mem_add ..).mpr (.inl rfl)

theorem holds_entered (kept : Kept edge g) (found : g.deref self = some node)
    (new : r ∈ (g.sweepOf node).entered) : (g.flatten self).1.Holds self r := by
  refine ⟨_, deref_flattened found found, ?_⟩
  rw [Node.settles_closure, if_pos rfl]
  exact ((sweeping_done kept found).filled.refs r).mpr (.inr new)

theorem kept_flatten (kept : Kept edge g) (found : g.deref self = some node) :
    Kept edge (g.flatten self).1 := by
  have sweeping := sweeping_done kept found
  intro r after known
  rw [deref_flatten found, Option.map_eq_some_iff] at known
  obtain ⟨old, known, rfl⟩ := known
  have sound := kept r old known
  constructor
  case edges_tidy =>
    rw [Node.settles_edges]
    exact sound.edges_tidy
  case closure_tidy =>
    rw [Node.settles_closure]
    split
    · exact sweeping.filled.tidy
    · exact sound.closure_tidy
  case edges_apart =>
    rw [Node.settles_edges]
    exact sound.edges_apart
  case closure_apart =>
    rw [Node.settles_closure]
    split
    · rename_i placed
      obtain ⟨rfl, _⟩ := deref_unique found known placed
      exact sweeping.apart
    · exact sound.closure_apart
  case reached =>
    intro x remembered
    rw [Node.settles_remembers] at remembered
    split at remembered
    · rename_i placed
      obtain ⟨rfl, _⟩ := deref_unique found known placed
      exact sweeping.reached x (.inl remembered)
    · exact sound.reached x remembered
  case members =>
    intro member inside
    rw [Node.settles_closure] at inside
    split at inside
    · rename_i placed
      obtain ⟨rfl, rfl⟩ := deref_unique found known placed
      rcases (sweeping.filled.refs member).mp inside with before | new
      · exact (sound.members member before).flatten found
      · exact held_entered kept found new
    · exact (sound.members member inside).flatten found
  case holders =>
    intro holder inside
    rw [Node.settles_holders] at inside
    split at inside
    · rename_i entered
      rcases NodeSet.mem_refs_add inside with rfl | before
      · obtain ⟨member, new, placed⟩ := entered
        obtain ⟨held, there⟩ := sweeping.known member new
        obtain ⟨rfl, _⟩ := deref_unique there known placed
        exact holds_entered kept found new
      · exact (sound.holders holder before).flatten kept found
    · exact (sound.holders holder inside).flatten kept found

/-! What a step may do to the graph, and with it a session. -/

inductive Becomes (g : Graph) : Step → Graph → Prop where
  | same {s : Step} (old : ∀ name, s ≠ .create name) : Becomes g s g
  | create {name : Text} : Becomes g (.create name) (g.create name).1
  | link {source target : NodeId} {node : Node} (found : g.deref (g.refTo source) = some node)
      (taken : ¬ Refuses node (g.refTo target)) (added : (g.step (.link source target)).2 = .flag true) :
      Becomes g (.link source target) (g.addEdge (g.refTo source) (g.refTo target)).1
  | flatten {id : NodeId} {node : Node} (found : g.deref (g.refTo id) = some node) :
      Becomes g (.transitive id) (g.flatten (g.refTo id)).1

theorem step_link (g : Graph) (source target : NodeId) : g.step (.link source target) =
    ((g.addEdge (g.refTo source) (g.refTo target)).1,
      .flag (g.addEdge (g.refTo source) (g.refTo target)).2) := rfl

theorem step_becomes (g : Graph) (s : Step) : Becomes g s (g.step s).1 := by
  cases s with
  | create name => exact .create
  | link source target =>
    cases found : g.deref (g.refTo source) with
    | none =>
      rw [step_link, addEdge, found]
      exact .same nofun
    | some node =>
      by_cases refused : Refuses node (g.refTo target)
      · rw [step_link, add_edge_refused found refused]
        exact .same nofun
      · exact .link found refused (by rw [step_link, add_edge_taken found refused])
  | transitive id =>
    have swept : (g.step (.transitive id)).1 = (g.flatten (g.refTo id)).1 := rfl
    rw [swept]
    cases found : g.deref (g.refTo id) with
    | none =>
      rw [flatten, found]
      exact .same nofun
    | some node => exact .flatten found
  | _ => exact .same nofun

theorem kept_step (kept : Kept edge g) (joins : ∀ source target, first = .link source target →
    (g.step first).2 = .flag true → edge (g.nameOf source) (g.nameOf target)) :
    Kept edge (g.step first).1 := by
  have becomes := step_becomes g first
  generalize (g.step first).1 = after at becomes ⊢
  cases becomes with
  | same old => exact kept
  | create => exact kept_create kept _
  | link found taken added => exact kept_link kept found taken (joins _ _ rfl added)
  | flatten found => exact kept_flatten kept found

theorem kept_run (kept : Kept edge g) (joins : ∀ p q, Linked g steps p q → edge p q) :
    Kept edge (g.run steps).1 := by
  induction steps generalizing g with
  | nil => exact kept
  | cons first steps ih =>
    refine ih (kept_step kept ?_) fun p q later => joins p q (linked_later later)
    rintro source target rfl added
    exact joins _ _ (linked_first steps added)

/-! A transitive question. -/

theorem deref_ref_to (found : g.deref r = some node) : g.refTo r.id = r := by
  have named : g.nameOf r.id = r.name := by
    rw [nameOf, deref_stored found, Option.map_some, Option.getD_some]
    exact deref_name found
  rw [refTo, named]

theorem deref_handle (stored : g.nodes[id]? = some node) : g.deref (g.refTo id) = some node := by
  simp [deref, refTo, nameOf, stored]

theorem sweep_idle (g : Graph) (idle : node.pending.toList = []) :
    g.sweepOf node = { worklist := [], closure := node.closure } := by
  rw [sweepOf, idle]
  exact Sweep.run_stop rfl

-- Afterwards the node has all that the sweep found, and nothing waiting.
theorem asked_settled (found : g.deref (g.refTo id) = some node) :
    ∃ settled, (g.step (.transitive id)).1.deref (g.refTo id) = some settled ∧
      settled.closure = (g.sweepOf node).closure ∧ settled.pending = ∅ := by
  have swept : (g.step (.transitive id)).1 = (g.flatten (g.refTo id)).1 := rfl
  rw [swept, flatten_known found]
  exact settled_own found _ _

theorem asked_answer (found : g.deref (g.refTo id) = some node) : (g.step (.transitive id)).2 =
    .closure (groupNames (g.sweepOf node).closure.groups)
      ((g.sweepOf node).merges.reverse.map (·.name)) := by
  obtain ⟨settled, after, closure, _⟩ := asked_settled found
  have answer : (g.step (.transitive id)).2 = .closure
      (groupNames ((g.step (.transitive id)).1.closureGroups (g.refTo id)))
      ((g.flatten (g.refTo id)).2.map (·.name)) := rfl
  rw [answer, closureGroups, after, flatten, found]
  dsimp only
  rw [closure]

theorem asked_pending (found : g.deref (g.refTo id) = some node) :
    ((g.step (.transitive id)).1.step (.pending id)).2 = .flag false := by
  obtain ⟨settled, after, _, pending⟩ := asked_settled found
  have answer : ∀ h : Graph, (h.step (.pending id)).2 = .flag (h.hasPending (h.refTo id)) := fun _ => rfl
  have same : (g.step (.transitive id)).1.refTo id = g.refTo id := deref_ref_to after
  rw [answer, same, hasPending, after, Option.any_some, Node.hasPending, pending]
  rfl

theorem Sound.names (sound : Sound edge g r node) : ∀ held ∈ [node.edges, node.closure],
    r.name ∉ held.refs.map (·.name) ∧ (held.refs.map (·.name)).Nodup ∧
      ∀ group ∈ held.groups, group.2 ≠ [] := by
  have each : ∀ held : Buckets, held.Tidy → held.has r.name = false →
      r.name ∉ held.refs.map (·.name) ∧ (held.refs.map (·.name)).Nodup ∧
        ∀ group ∈ held.groups, group.2 ≠ [] := by
    intro held tidy apart
    refine ⟨?_, tidy.names_distinct, tidy.well_grouped.filled⟩
    rw [List.mem_map, ← tidy.has_iff_ref, apart]
    exact Bool.false_ne_true
  intro held listed
  rcases List.mem_pair.mp listed with rfl | rfl
  · exact each _ sound.edges_tidy sound.edges_apart
  · exact each _ sound.closure_tidy sound.closure_apart

theorem Sweeping.answer_reached (sweeping : Sweeping edge g p before s) :
    ∀ group ∈ groupNames s.closure.groups, ∀ x ∈ group.2, Relation.TransGen edge p x := by
  intro _ listed x inside
  obtain ⟨group, stored, rfl⟩ := List.mem_map.mp listed
  have named : x ∈ Buckets.namesIn s.closure.groups := List.mem_flatMap.mpr ⟨group, stored, inside⟩
  exact sweeping.reached x (.inl ((sweeping.filled.tidy.mem_names_in x).mp named))

-- A node that was asked before, and heard of nothing since, has nothing to fold in.
theorem asked_idle (found : g.deref (g.refTo id) = some node) (idle : node.pending = ∅) :
    (g.step (.transitive id)).2 = .closure (groupNames node.closure.groups) [] := by
  have swept : g.sweepOf node = { worklist := [], closure := node.closure } :=
    sweep_idle g (by rw [idle]; rfl)
  rw [asked_answer found, swept]
  rfl

theorem aliases_sound (steps : List Step) :
    let g := (run {} steps).1
    ∀ id : Fin g.nodes.size,
      let node := g.nodes[id]
      let asked := g.step (.transitive id)
      let again := asked.1.step (.transitive id)
      (∀ held ∈ [node.edges, node.closure], node.name ∉ held.refs.map (·.name) ∧
        (held.refs.map (·.name)).Nodup ∧ ∀ group ∈ held.groups, group.2 ≠ []) ∧
      ∃ groups merges, asked.2 = .closure groups merges ∧
        (∀ group ∈ groups, ∀ x ∈ group.2, Relation.TransGen (Linked {} steps) node.name x) ∧
        again.2 = .closure groups [] ∧
        (asked.1.step (.pending id)).2 = .flag false ∧ (again.1.step (.pending id)).2 = .flag false := by
  intro g id node asked again
  have kept : Kept (Linked {} steps) g := kept_run (kept_empty _) fun _ _ linked => linked
  have found : g.deref (g.refTo id) = some node := deref_handle (Array.getElem?_eq_getElem id.2)
  have named : node.name = (g.refTo id).name := deref_name found
  obtain ⟨settled, after, closure, pending⟩ := asked_settled found
  have found' : asked.1.deref (asked.1.refTo id) = some settled := by
    have same : asked.1.refTo id = g.refTo id := deref_ref_to after
    rw [same]
    exact after
  rw [named]
  refine ⟨(kept _ node found).names, _, _, asked_answer found,
    (sweeping_done kept found).answer_reached, ?_, asked_pending found, asked_pending found'⟩
  rw [← closure]
  exact asked_idle found' pending

end ClassAtlas.Graph
