import ClassAtlas.DependencyMap.Basic
import ClassAtlas.Proofs.Graph.Sweep

/-!
The nodes of a map by their names. In an indexed map each name leads to a node of that name, so
what an operation does to the graph can be read off as what it does to the node of every name.
-/

namespace ClassAtlas.DependencyMap
variable {m : DependencyMap} {g : Graph} {a b x : Text} {r self source target : Ref} {node : Node}

-- Every name in the index leads to a node that answers to it.
def Indexed (m : DependencyMap) : Prop :=
  ∀ name r, m.ref? name = some r → ∃ node, m.graph.deref r = some node

theorem ref_name (found : m.ref? a = some r) : r.name = a := by
  obtain ⟨id, _, rfl⟩ := Option.map_eq_some_iff.mp found
  rfl

theorem node_of_ref (found : m.ref? a = some r) : m.node? a = m.graph.deref r := by
  rw [node?, found, Option.bind_some]

theorem deref_of_ref (here : m.ref? a = some r) (found : m.node? a = some node) :
    m.graph.deref r = some node :=
  (node_of_ref here).symm.trans found

theorem ref_of_node (found : m.node? a = some node) :
    ∃ r, m.ref? a = some r ∧ m.graph.deref r = some node :=
  Option.bind_eq_some_iff.mp found

theorem node_name (found : m.node? a = some node) : node.name = a := by
  obtain ⟨r, at_, found⟩ := ref_of_node found
  rw [Graph.deref_name found, ref_name at_]

-- Two names never share a place.
theorem ref_id_inj (indexed : m.Indexed) (first : m.ref? a = some r) (second : m.ref? b = some self) :
    r.id = self.id ↔ a = b := by
  constructor
  · intro same
    obtain ⟨node, found⟩ := indexed a r first
    obtain ⟨other, found'⟩ := indexed b self second
    have named := Graph.deref_name found
    have named' := Graph.deref_name found'
    have stored := Graph.deref_stored found
    rw [same, Graph.deref_stored found'] at stored
    cases stored
    rw [← ref_name first, ← ref_name second, ← named, ← named']
  · intro same
    subst same
    rw [first] at second
    cases second
    rfl

theorem indexed_empty : Indexed {} := by
  intro name r found
  simp [ref?] at found

-- A change that rewrites nodes in place, told by name.
theorem node_rewritten {f : Node → Node}
    (each : ∀ r, m.ref? x = some r → g.deref r = (m.graph.deref r).map f) :
    ({ m with graph := g } : DependencyMap).node? x = (m.node? x).map f := by
  have after : ({ m with graph := g } : DependencyMap).node? x = (m.ref? x).bind g.deref := rfl
  rw [after, node?]
  cases found : m.ref? x with
  | none => rfl
  | some r => exact each r found

theorem indexed_rewritten {F : Ref → Node → Node} (indexed : m.Indexed)
    (each : ∀ s, g.deref s = (m.graph.deref s).map (F s)) :
    Indexed { m with graph := g } := by
  intro name r found
  obtain ⟨node, old⟩ := indexed name r found
  exact ⟨F r node, by rw [each r, old, Option.map_some]⟩

/-! A new node. -/

theorem ref_add_node (m : DependencyMap) (name x : Text) :
    (m.addNode name).1.ref? x =
      if name = x then some ⟨m.graph.nodes.size, name⟩ else m.ref? x := by
  cases m
  simp only [addNode, ref?, Graph.create, Std.ExtTreeMap.getElem?_insert,
    Std.LawfulEqCmp.compare_eq_iff_eq]
  split
  · rename_i same
    rw [Option.map_some, same]
  · rfl

theorem node_add_node (indexed : m.Indexed) (name x : Text) :
    (m.addNode name).1.node? x = if name = x then some { name } else m.node? x := by
  have created : (m.addNode name).1.graph = (m.graph.create name).1 := rfl
  by_cases new : name = x
  · subst new
    rw [node?, ref_add_node, if_pos rfl, if_pos rfl, Option.bind_some, created,
      Graph.deref_create, if_pos rfl, if_pos rfl]
  · rw [node?, ref_add_node, if_neg new, if_neg new, node?]
    cases found : m.ref? x with
    | none => rfl
    | some r =>
      obtain ⟨node, held⟩ := indexed x r found
      rw [Option.bind_some, Option.bind_some, created, Graph.deref_create,
        if_neg (Nat.ne_of_lt (Graph.deref_in_range held))]

theorem indexed_add_node (indexed : m.Indexed) (name : Text) : Indexed (m.addNode name).1 := by
  intro x r found
  rw [← node_of_ref found, node_add_node indexed]
  rw [ref_add_node] at found
  split
  · exact ⟨_, rfl⟩
  · rename_i old
    rw [if_neg old] at found
    obtain ⟨node, held⟩ := indexed x r found
    exact ⟨node, by rw [node_of_ref found, held]⟩

/-! A new edge. -/

theorem link_map (m : DependencyMap) (source target : Ref) :
    (m.link source target).1 = { m with graph := (m.graph.addEdge source target).1 } := by
  cases m; rfl

theorem link_refused (here : m.ref? a = some source) (found : m.node? a = some node)
    (refused : Graph.Refuses node target) : (m.link source target) = (m, false) := by
  rw [node_of_ref here] at found
  have unchanged := Graph.add_edge_refused found refused
  cases m
  simp only [link]
  rw [unchanged]

theorem indexed_link (indexed : m.Indexed) (here : m.ref? a = some source)
    (found : m.node? a = some node) (taken : ¬ Graph.Refuses node target) :
    Indexed (m.link source target).1 := by
  rw [node_of_ref here] at found
  rw [link_map]
  exact indexed_rewritten indexed (Graph.deref_add_edge found taken)

theorem node_link (indexed : m.Indexed) (known : ∀ r ∈ node.holders.refs, m.ref? r.name = some r)
    (here : m.ref? a = some source) (found : m.node? a = some node)
    (taken : ¬ Graph.Refuses node target) (x : Text) :
    (m.link source target).1.node? x =
      (m.node? x).map fun other => other.hears target (a = x) (x ∈ node.holders) := by
  rw [node_of_ref here] at found
  have each := Graph.deref_add_edge found taken
  rw [link_map]
  apply node_rewritten
  intro r there
  have is_source : source.id = r.id ↔ a = x := ref_id_inj indexed here there
  have is_holder : (∃ holder ∈ node.holders.refs, holder.id = r.id) ↔ x ∈ node.holders := by
    rw [NodeSet.mem_iff_ref]
    refine exists_congr fun holder => and_congr_right fun member => ?_
    exact ref_id_inj indexed (known holder member) there
  simpa only [is_source, is_holder] using each r

/-! A transitive question. -/

theorem query_unknown (missing : m.ref? a = none) :
    m.transitiveDependenciesOf a = (m, [], []) := by
  rw [transitiveDependenciesOf, missing]

theorem query_map (here : m.ref? a = some self) :
    (m.transitiveDependenciesOf a).1 = { m with graph := (m.graph.flatten self).1 } := by
  rw [transitiveDependenciesOf, here]
  cases m; rfl

theorem query_answer (here : m.ref? a = some self) :
    (m.transitiveDependenciesOf a).2 =
      ((m.graph.flatten self).1.closureGroups self, (m.graph.flatten self).2) := by
  rw [transitiveDependenciesOf, here]
  cases m; rfl

theorem indexed_query (indexed : m.Indexed) (here : m.ref? a = some self)
    (found : m.node? a = some node) : Indexed (m.transitiveDependenciesOf a).1 := by
  rw [node_of_ref here] at found
  rw [query_map here, Graph.flatten_known found]
  exact indexed_rewritten indexed (Graph.deref_settle m.graph self · _ _)

theorem node_query (indexed : m.Indexed) (here : m.ref? a = some self)
    (found : m.node? a = some node)
    (known : ∀ r ∈ (m.graph.sweepOf node).entered, m.ref? r.name = some r) (x : Text) :
    (m.transitiveDependenciesOf a).1.node? x = (m.node? x).map fun other =>
      other.settles self (m.graph.sweepOf node).closure (a = x)
        (∃ r ∈ (m.graph.sweepOf node).entered, r.name = x) := by
  rw [node_of_ref here] at found
  rw [query_map here, Graph.flatten_known found]
  apply node_rewritten
  intro r there
  have is_swept : self.id = r.id ↔ a = x := ref_id_inj indexed here there
  have has_entered : (∃ member ∈ (m.graph.sweepOf node).entered, member.id = r.id) ↔
      ∃ member ∈ (m.graph.sweepOf node).entered, member.name = x := by
    refine exists_congr fun member => and_congr_right fun inside => ?_
    exact ref_id_inj indexed (known member inside) there
  simpa only [is_swept, has_entered] using
    Graph.deref_settle m.graph self r (m.graph.sweepOf node).closure (m.graph.sweepOf node).entered

theorem query_groups (here : m.ref? a = some self) (found : m.node? a = some node) :
    (m.transitiveDependenciesOf a).2.1 = (m.graph.sweepOf node).closure.groups := by
  rw [node_of_ref here] at found
  let sweep := m.graph.sweepOf node
  obtain ⟨settled, there, closure, _⟩ := Graph.settled_own found sweep.closure sweep.entered
  rw [query_answer here, Graph.closureGroups, Graph.flatten_known found, there]
  exact congrArg Buckets.groups closure

end ClassAtlas.DependencyMap
