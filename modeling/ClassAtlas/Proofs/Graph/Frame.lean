import ClassAtlas.Graph.Closure
import ClassAtlas.Proofs.Graph.Buckets

/-!
What a change of the graph does to the node behind each reference. A change rewrites the nodes
it names and no others, and it never renames one; so each operation is told by one equation on
`deref`.
-/

namespace ClassAtlas

theorem NodeSet.add_again (s : NodeSet) (r : Ref) : (s.add r).add r = s.add r := by
  apply Std.ExtTreeMap.ext_getElem?
  intro name
  rw [NodeSet.get_add, if_neg]
  intro given
  obtain ⟨_, new⟩ := given
  exact new ((NodeSet.mem_add s r _).mpr (.inl rfl))

theorem Waiting.add_known {w : Waiting} {r : Ref} (known : r.name ∈ w.names) : w.add r = w :=
  if_pos known

theorem Waiting.mem_names_add (w : Waiting) (r : Ref) (name : Text) :
    name ∈ (w.add r).names ↔ r.name = name ∨ name ∈ w.names := by
  unfold Waiting.add
  split
  · rename_i known
    constructor
    · exact .inr
    · intro given
      rcases given with rfl | old
      · exact known
      · exact old
  · simp

theorem Waiting.mem_add (w : Waiting) (r s : Ref) (member : s ∈ (w.add r).toList) :
    s = r ∨ s ∈ w.toList := by
  rw [Waiting.to_list_add] at member
  split at member
  · exact .inr member
  · rcases List.mem_append.mp member with old | new
    · exact .inr old
    · exact .inl (List.mem_singleton.mp new)

namespace Node

theorem awaits_again (n : Node) (target : Ref) : (n.awaits target).awaits target = n.awaits target := by
  have known : target.name ∈ (n.awaits target).pending.names :=
    (Waiting.mem_names_add _ _ _).mpr (.inl rfl)
  rw [awaits, Waiting.add_known known]

theorem held_again (n : Node) (holder : Ref) : (n.heldBy holder).heldBy holder = n.heldBy holder := by
  simp [heldBy, NodeSet.add_again]

-- What is in the closure, or waits to get there.
def Remembers (n : Node) (name : Text) : Prop :=
  n.closure.has name = true ∨ name ∈ n.pending.names

/-! What a new edge to `target` means for a node that is its source, or holds its source. -/

def hears (n : Node) (target : Ref) (source holder : Prop) [Decidable source] [Decidable holder] :
    Node :=
  let n := if source then n.linkTo target else n
  if holder then n.awaits target else n

section
variable (n : Node) (target : Ref) (source holder : Prop) [Decidable source] [Decidable holder]

theorem hears_nothing (deaf : ¬ source) (apart : ¬ holder) : n.hears target source holder = n := by
  simp [hears, deaf, apart]

theorem hears_edges : (n.hears target source holder).edges =
    if source then n.edges.add target else n.edges := by
  by_cases isSource : source <;> by_cases isHolder : holder <;>
    simp [hears, isSource, isHolder, linkTo, awaits]

theorem hears_closure : (n.hears target source holder).closure = n.closure := by
  by_cases isSource : source <;> by_cases isHolder : holder <;>
    simp [hears, isSource, isHolder, linkTo, awaits]

theorem hears_holders : (n.hears target source holder).holders = n.holders := by
  by_cases isSource : source <;> by_cases isHolder : holder <;>
    simp [hears, isSource, isHolder, linkTo, awaits]

theorem hears_pending : (n.hears target source holder).pending =
    if source ∨ holder then n.pending.add target else n.pending := by
  by_cases isSource : source <;> by_cases isHolder : holder <;>
    simp [hears, isSource, isHolder, linkTo, awaits]
  exact Waiting.add_known ((Waiting.mem_names_add _ _ _).mpr (.inl rfl))

theorem hears_remembers (x : Text) : (n.hears target source holder).Remembers x ↔
    n.Remembers x ∨ (target.name = x ∧ (source ∨ holder)) := by
  unfold Remembers
  rw [hears_closure, hears_pending]
  by_cases told : source ∨ holder
  · rw [if_pos told, Waiting.mem_names_add]
    simp only [told, and_true]
    exact or_left_comm.trans or_comm
  · rw [if_neg told]
    simp only [told, and_false, or_false]

end

/-! What the end of a sweep means for the node that was swept, and for those that entered. -/

def settles (n : Node) (self : Ref) (closure : Buckets) (swept entered : Prop) [Decidable swept]
    [Decidable entered] : Node :=
  let n := if swept then { n with closure, pending := ∅ } else n
  if entered then n.heldBy self else n

section
variable (n : Node) (self : Ref) (closure : Buckets) (swept entered : Prop) [Decidable swept]
  [Decidable entered]

theorem settles_edges : (n.settles self closure swept entered).edges = n.edges := by
  by_cases isSwept : swept <;> by_cases hasEntered : entered <;>
    simp [settles, isSwept, hasEntered, heldBy]

theorem settles_closure : (n.settles self closure swept entered).closure =
    if swept then closure else n.closure := by
  by_cases isSwept : swept <;> by_cases hasEntered : entered <;>
    simp [settles, isSwept, hasEntered, heldBy]

theorem settles_pending : (n.settles self closure swept entered).pending =
    if swept then ∅ else n.pending := by
  by_cases isSwept : swept <;> by_cases hasEntered : entered <;>
    simp [settles, isSwept, hasEntered, heldBy]

theorem settles_holders : (n.settles self closure swept entered).holders =
    if entered then n.holders.add self else n.holders := by
  by_cases isSwept : swept <;> by_cases hasEntered : entered <;>
    simp [settles, isSwept, hasEntered, heldBy]

-- A swept node has nothing waiting, so its closure is all that it remembers.
theorem settles_remembers (x : Text) : (n.settles self closure swept entered).Remembers x ↔
    if swept then closure.has x = true else n.Remembers x := by
  unfold Remembers
  rw [settles_closure, settles_pending]
  split
  · simp
  · rfl

end

end Node

namespace Graph
variable {g : Graph} {r s source target : Ref} {node : Node} {f : Node → Node}

theorem deref_update (g : Graph) (r s : Ref) (named : ∀ node, (f node).name = node.name) :
    (g.update r f).deref s = (g.deref s).map fun node => if r.id = s.id then f node else node := by
  unfold deref update
  rw [Array.getElem?_modify]
  by_cases same : r.id = s.id
  · simp only [same, if_true]
    cases g.nodes[s.id]? with
    | none => rfl
    | some node =>
      simp only [Option.map_some, named]
      split <;> rfl
  · simp only [same, if_false, Option.map_id']

-- The same change for many nodes, and for a node that is named twice as for one named once.
theorem deref_update_each (g : Graph) (rs : List Ref) (s : Ref)
    (named : ∀ node, (f node).name = node.name) (again : ∀ node, f (f node) = f node) :
    (rs.foldl (fun g r => g.update r f) g).deref s =
      (g.deref s).map fun node => if ∃ r ∈ rs, r.id = s.id then f node else node := by
  induction rs generalizing g with
  | nil => simp
  | cons r rs ih =>
    rw [List.foldl_cons, ih, deref_update g r s named, Option.map_map]
    congr 1
    funext node
    by_cases first : r.id = s.id
    · by_cases later : ∃ t ∈ rs, t.id = s.id
      · simp [first, later, again]
      · simp [first, later]
    · simp [first]

theorem deref_notify (g : Graph) (target s : Ref) (holders : List Ref) :
    (g.notify target holders).deref s = (g.deref s).map fun node =>
      if ∃ holder ∈ holders, holder.id = s.id then node.awaits target else node :=
  deref_update_each (f := (·.awaits target)) g holders s (fun _ => rfl)
    (fun node => node.awaits_again target)

theorem deref_settle (g : Graph) (self s : Ref) (closure : Buckets) (entered : List Ref) :
    (g.settle self closure entered).deref s = (g.deref s).map fun node =>
      node.settles self closure (self.id = s.id) (∃ member ∈ entered, member.id = s.id) := by
  unfold settle
  rw [deref_update_each (f := (·.heldBy self)) _ entered s (fun _ => rfl)
      (fun node => node.held_again self),
    deref_update (f := fun node => { node with closure, pending := ∅ }) g self s (fun _ => rfl),
    Option.map_map]
  rfl

-- A node that was brought up to date has its new closure and nothing waiting.
theorem settled_own (found : g.deref r = some node) (closure : Buckets) (entered : List Ref) :
    ∃ settled, (g.settle r closure entered).deref r = some settled ∧ settled.closure = closure ∧
      settled.pending = ∅ := by
  refine ⟨_, by rw [deref_settle, found, Option.map_some], ?_, ?_⟩
  · rw [Node.settles_closure, if_pos rfl]
  · rw [Node.settles_pending, if_pos rfl]

-- Why an edge is refused.
def Refuses (node : Node) (target : Ref) : Prop :=
  node.name = target.name ∨ node.edges.has target.name = true

theorem add_edge_refused (found : g.deref source = some node) (refused : Refuses node target) :
    g.addEdge source target = (g, false) := by
  unfold addEdge
  rw [found]
  exact if_pos refused

theorem add_edge_taken (found : g.deref source = some node) (taken : ¬ Refuses node target) :
    g.addEdge source target =
      ((g.update source (·.linkTo target)).notify target node.holders.refs, true) := by
  unfold addEdge
  rw [found]
  exact if_neg taken

theorem deref_add_edge (found : g.deref source = some node) (taken : ¬ Refuses node target)
    (s : Ref) : (g.addEdge source target).1.deref s = (g.deref s).map fun other =>
      other.hears target (source.id = s.id) (∃ holder ∈ node.holders.refs, holder.id = s.id) := by
  rw [add_edge_taken found taken, deref_notify,
    deref_update (f := (·.linkTo target)) g source s (fun _ => rfl), Option.map_map]
  rfl

theorem deref_linked {other : Node} (found : g.deref source = some node)
    (taken : ¬ Refuses node target) (known : g.deref r = some other) :
    (g.addEdge source target).1.deref r = some
      (other.hears target (source.id = r.id) (∃ holder ∈ node.holders.refs, holder.id = r.id)) := by
  rw [deref_add_edge found taken, known, Option.map_some]

theorem deref_create (g : Graph) (name : Text) (s : Ref) :
    (g.create name).1.deref s =
      if s.id = g.nodes.size then (if name = s.name then some { name } else none) else g.deref s := by
  unfold create deref
  rw [Array.getElem?_push]
  by_cases last : s.id = g.nodes.size
  · simp only [last, if_true]
  · simp only [last, if_false]

theorem deref_create_cases {name : Text} (found : (g.create name).1.deref r = some node) :
    node = { name } ∨ g.deref r = some node := by
  rw [deref_create] at found
  split at found
  · split at found
    · exact .inl (Option.some.inj found).symm
    · cases found
  · exact .inr found

theorem deref_stored (found : g.deref r = some node) : g.nodes[r.id]? = some node := by
  unfold deref at found
  split at found
  · rename_i stored
    split at found
    · cases found
      exact stored
    · cases found
  · cases found

-- There is one node to each number.
theorem deref_unique {other : Node} (found : g.deref r = some node) (found' : g.deref s = some other)
    (same : r.id = s.id) : r = s ∧ node = other := by
  have stored := deref_stored found
  rw [same, deref_stored found'] at stored
  cases stored
  exact ⟨Ref.same ((deref_name found').symm.trans (deref_name found)) same.symm, rfl⟩

theorem settled_other {known : Node} (found : g.deref r = some node) (found' : g.deref s = some known)
    (other : s ≠ r) (closure : Buckets) (entered : List Ref) :
    ∃ settled, (g.settle r closure entered).deref s = some settled ∧
      settled.closure = known.closure ∧ settled.pending = known.pending := by
  have apart : r.id ≠ s.id := fun placed => other (deref_unique found found' placed).1.symm
  refine ⟨_, by rw [deref_settle, found', Option.map_some], ?_, ?_⟩
  · rw [Node.settles_closure, if_neg apart]
  · rw [Node.settles_pending, if_neg apart]

theorem deref_in_range (found : g.deref r = some node) : r.id < g.nodes.size :=
  (Array.getElem?_eq_some_iff.mp (deref_stored found)).1

theorem deref_create_old (found : g.deref r = some node) (name : Text) :
    (g.create name).1.deref r = some node := by
  rw [deref_create, if_neg (Nat.ne_of_lt (deref_in_range found))]
  exact found

theorem flatten_known (found : g.deref r = some node) :
    (g.flatten r).1 = g.settle r (g.sweepOf node).closure (g.sweepOf node).entered := by
  unfold flatten
  rw [found]

theorem deref_flatten (found : g.deref r = some node) (s : Ref) :
    (g.flatten r).1.deref s = (g.deref s).map fun other =>
      other.settles r (g.sweepOf node).closure (r.id = s.id)
        (∃ member ∈ (g.sweepOf node).entered, member.id = s.id) := by
  rw [flatten_known found, deref_settle]

theorem deref_flattened {other : Node} (found : g.deref r = some node) (known : g.deref s = some other) :
    (g.flatten r).1.deref s = some (other.settles r (g.sweepOf node).closure (r.id = s.id)
      (∃ member ∈ (g.sweepOf node).entered, member.id = s.id)) := by
  rw [deref_flatten found, known, Option.map_some]

end Graph
end ClassAtlas
