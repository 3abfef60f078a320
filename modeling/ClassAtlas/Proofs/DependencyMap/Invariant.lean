import Mathlib.Logic.Relation
import ClassAtlas.Proofs.DependencyMap.Nodes

/-!
What a dependency map keeps true of what its nodes remember. What a node remembers, it reaches;
and every edge that leaves the node, or a member of its closure, leads to something the node
remembers. Holders mirror closures. New nodes and new edges keep all of this.
-/

namespace ClassAtlas

def Node.Mentions (n : Node) (r : Ref) : Prop :=
  r ∈ n.edges.refs ∨ r ∈ n.closure.refs ∨ r ∈ n.pending.toList ∨ r ∈ n.holders.refs

namespace DependencyMap

def Edge (m : DependencyMap) (a b : Text) : Prop :=
  ∃ node, m.node? a = some node ∧ node.dependsOn b = true

-- By one or more edges.
def Reaches (m : DependencyMap) : Text → Text → Prop := Relation.TransGen m.Edge

structure Sound (m : DependencyMap) (name : Text) (node : Node) : Prop where
  same : ∀ r, node.Mentions r → m.ref? r.name = some r
  edges_tidy : node.edges.Tidy
  closure_tidy : node.closure.Tidy
  edges_apart : node.edges.has name = false
  closure_apart : node.closure.has name = false
  reached : ∀ other, node.Remembers other → m.Reaches name other
  -- Edge by edge, since a path through a cycle may leave the closure and come back.
  covers : ∀ x y, x = name ∨ node.closure.has x = true → m.Edge x y →
    y = name ∨ node.Remembers y

structure Kept (m : DependencyMap) : Prop where
  indexed : m.Indexed
  sound : ∀ name node, m.node? name = some node → m.Sound name node
  mirror : ∀ a b left right, m.node? a = some left → m.node? b = some right →
    (left.closure.has b = true ↔ a ∈ right.holders)

variable {m n : DependencyMap} {a b x y name : Text} {r self source target : Ref} {node n₀ : Node}

-- A path stays where every edge stays.
theorem Reaches.within (reached : m.Reaches a x) (inside : Text → Prop) (start : inside a)
    (closed : ∀ u v, inside u → m.Edge u v → inside v) : inside x := by
  induction reached with
  | single edge => exact closed a _ start edge
  | tail _ edge ih => exact closed _ _ ih edge

theorem Kept.node_of_ref (kept : m.Kept) (found : m.ref? a = some r) :
    ∃ node, m.node? a = some node := by
  obtain ⟨node, held⟩ := kept.indexed a r found
  exact ⟨node, (DependencyMap.node_of_ref found).trans held⟩

theorem edge_iff_has (found : m.node? x = some node) : m.Edge x y ↔ node.edges.has y = true := by
  constructor
  · intro given
    obtain ⟨other, found', has⟩ := given
    rw [found] at found'
    cases found'
    exact has
  · intro has
    exact ⟨node, found, has⟩

theorem edge_iff_ref (kept : m.Kept) (found : m.node? x = some node) :
    m.Edge x y ↔ ∃ r ∈ node.edges.refs, r.name = y := by
  rw [edge_iff_has found, (kept.sound x node found).edges_tidy.has_iff_ref]

theorem edge_apart (kept : m.Kept) (edge : m.Edge a b) : a ≠ b := by
  obtain ⟨node, found, has⟩ := edge
  intro same
  subst same
  have apart := (kept.sound a node found).edges_apart
  rw [Node.dependsOn, apart] at has
  cases has

theorem kept_empty : Kept {} where
  indexed := indexed_empty
  sound := by simp [node?, ref?]
  mirror := by simp [node?, ref?]

-- A node stays sound when names are added and no edge is.
theorem Sound.carry (sound : m.Sound name node)
    (refs : ∀ x r, m.ref? x = some r → n.ref? x = some r)
    (edges : ∀ x y, n.Edge x y ↔ m.Edge x y) : n.Sound name node := by
  have same_edges : n.Edge = m.Edge := by
    funext x y
    exact propext (edges x y)
  refine { sound with same := ?_, reached := ?_, covers := ?_ }
  · intro r mentioned
    exact refs _ _ (sound.same r mentioned)
  · intro other remembered
    rw [Reaches, same_edges]
    exact sound.reached other remembered
  · intro x y inside edge
    exact sound.covers x y inside ((edges x y).mp edge)

theorem node_fresh (fresh : m.ref? name = none) : m.node? name = none := by
  rw [node?, fresh]
  rfl

theorem edge_add_node (kept : m.Kept) (fresh : m.ref? name = none) (x y : Text) :
    (m.addNode name).1.Edge x y ↔ m.Edge x y := by
  unfold Edge
  rw [node_add_node kept.indexed]
  split
  · rename_i new
    subst new
    rw [node_fresh fresh]
    simp [Node.dependsOn, Buckets.has, Buckets.bucket]
  · exact Iff.rfl

theorem sound_fresh (lone : ∀ y, ¬ m.Edge name y) : m.Sound name { name } where
  same := by
    intro r mentioned
    simp [Node.Mentions, Buckets.refs, Buckets.groups, NodeSet.refs] at mentioned
  edges_tidy := Buckets.tidy_empty
  closure_tidy := Buckets.tidy_empty
  edges_apart := by simp [Buckets.has, Buckets.bucket]
  closure_apart := by simp [Buckets.has, Buckets.bucket]
  reached := by simp [Node.Remembers, Buckets.has, Buckets.bucket]
  covers := by
    intro x y given edge
    rcases given with rfl | inside
    · exact absurd edge (lone y)
    · simp [Buckets.has, Buckets.bucket] at inside

theorem Kept.closure_ref (kept : m.Kept) (found : m.node? a = some node)
    (has : node.closure.has x = true) : ∃ r, m.ref? x = some r := by
  obtain ⟨r, member, rfl⟩ := ((kept.sound a node found).closure_tidy.has_iff_ref x).mp has
  exact ⟨r, (kept.sound a node found).same r (.inr (.inl member))⟩

theorem Kept.holder_ref (kept : m.Kept) (found : m.node? a = some node)
    (member : x ∈ node.holders) : ∃ r, m.ref? x = some r := by
  obtain ⟨r, inside, rfl⟩ := (NodeSet.mem_iff_ref node.holders x).mp member
  exact ⟨r, (kept.sound a node found).same r (.inr (.inr (.inr inside)))⟩

theorem kept_add_node (kept : m.Kept) (fresh : m.ref? name = none) :
    Kept (m.addNode name).1 := by
  have unknown : ∀ {a node}, m.node? a = some node → a ≠ name := by
    intro a node found same
    subst same
    rw [node_fresh fresh] at found
    cases found
  refine ⟨indexed_add_node kept.indexed name, ?_, ?_⟩
  · intro x node found
    rw [node_add_node kept.indexed] at found
    split at found
    · rename_i new
      cases found
      subst new
      apply sound_fresh
      intro y edge
      obtain ⟨old, held, _⟩ := (edge_add_node kept fresh name y).mp edge
      exact unknown held rfl
    · refine (kept.sound x node found).carry ?_ (edge_add_node kept fresh)
      intro x r held
      rw [ref_add_node, if_neg]
      · exact held
      · intro same
        subst same
        rw [fresh] at held
        cases held
  · intro a b left right foundLeft foundRight
    rw [node_add_node kept.indexed] at foundLeft foundRight
    split at foundLeft
    · rename_i newLeft
      cases foundLeft
      subst newLeft
      split at foundRight
      · cases foundRight
        simp [Buckets.has, Buckets.bucket]
      · constructor
        · simp [Buckets.has, Buckets.bucket]
        · intro member
          obtain ⟨r, held⟩ := kept.holder_ref foundRight member
          rw [fresh] at held
          cases held
    · split at foundRight
      · rename_i newRight
        cases foundRight
        subst newRight
        constructor
        · intro has
          obtain ⟨r, held⟩ := kept.closure_ref foundLeft has
          rw [fresh] at held
          cases held
        · simp
      · exact kept.mirror a b left right foundLeft foundRight

theorem kept_resolve (kept : m.Kept) (name : Text) : Kept (m.resolve name).1 := by
  unfold resolve
  split
  · exact kept
  · rename_i fresh
    exact kept_add_node kept fresh

theorem edge_resolve (kept : m.Kept) (name x y : Text) :
    (m.resolve name).1.Edge x y ↔ m.Edge x y := by
  unfold resolve
  split
  · exact Iff.rfl
  · rename_i fresh
    exact edge_add_node kept fresh x y

theorem ref_resolve (m : DependencyMap) (name : Text) :
    (m.resolve name).1.ref? name = some (m.resolve name).2 := by
  unfold resolve
  split
  · assumption
  · rw [ref_add_node, if_pos rfl]
    rfl

theorem ref_resolve_old (found : m.ref? a = some r) (name : Text) :
    (m.resolve name).1.ref? a = some r := by
  unfold resolve
  split
  · exact found
  · rename_i fresh
    rw [ref_add_node, if_neg]
    · exact found
    · intro same
      subst same
      rw [fresh] at found
      cases found

/-! A new edge from `a` to `b`. -/

theorem Kept.holders_known (kept : m.Kept) (found : m.node? a = some node) :
    ∀ r ∈ node.holders.refs, m.ref? r.name = some r :=
  fun r member => (kept.sound a node found).same r (.inr (.inr (.inr member)))

theorem edge_link (kept : m.Kept) (here : m.ref? a = some source) (there : m.ref? b = some target)
    (found : m.node? a = some node) (taken : ¬ Graph.Refuses node target) (x y : Text) :
    (m.link source target).1.Edge x y ↔ m.Edge x y ∨ (x = a ∧ y = b) := by
  have named := ref_name there
  unfold Edge
  rw [node_link kept.indexed (kept.holders_known found) here found taken]
  by_cases isSource : a = x
  · subst isSource
    simp only [found, Option.map_some, Option.some.injEq, exists_eq_left', Node.dependsOn,
      Node.hears_edges, if_true, Buckets.has_add, Bool.or_eq_true, decide_eq_true_iff, named]
    simp only [true_and, eq_comm (a := b)]
    exact or_comm
  · simp only [Option.map_eq_some_iff, Node.dependsOn, Ne.symm isSource, false_and, or_false]
    constructor
    · intro given
      obtain ⟨_, ⟨old, held, rfl⟩, has⟩ := given
      rw [Node.hears_edges, if_neg isSource] at has
      exact ⟨old, held, has⟩
    · intro given
      obtain ⟨old, held, has⟩ := given
      exact ⟨_, ⟨old, held, rfl⟩, by rw [Node.hears_edges, if_neg isSource]; exact has⟩

theorem reaches_more {p : DependencyMap} (more : ∀ x y, m.Edge x y → p.Edge x y)
    (reached : m.Reaches x y) : p.Reaches x y :=
  Relation.TransGen.mono more x y reached

theorem hears_mentions {s h : Prop} [Decidable s] [Decidable h] (tidy : node.edges.Tidy)
    (mentioned : (node.hears target s h).Mentions r) : r = target ∨ node.Mentions r := by
  rcases mentioned with edge | closed | waits | holds
  · rw [Node.hears_edges] at edge
    split at edge
    · exact (tidy.mem_refs_add target edge).imp_right .inl
    · exact .inr (.inl edge)
  · rw [Node.hears_closure] at closed
    exact .inr (.inr (.inl closed))
  · rw [Node.hears_pending] at waits
    split at waits
    · exact (Waiting.mem_add _ _ _ waits).imp_right fun old => .inr (.inr (.inl old))
    · exact .inr (.inr (.inr (.inl waits)))
  · rw [Node.hears_holders] at holds
    exact .inr (.inr (.inr (.inr holds)))

theorem sound_link (kept : m.Kept) (here : m.ref? a = some source) (there : m.ref? b = some target)
    (found : m.node? a = some node) (taken : ¬ Graph.Refuses node target) (held : m.node? x = some n₀) :
    (m.link source target).1.Sound x (n₀.hears target (a = x) (x ∈ node.holders)) := by
  have sound := kept.sound x n₀ held
  have named := ref_name there
  have edges := edge_link kept here there found taken
  have more : ∀ u v, m.Edge u v → (m.link source target).1.Edge u v :=
    fun u v old => (edges u v).mpr (.inl old)
  have last : (m.link source target).1.Edge a b := (edges a b).mpr (.inr ⟨rfl, rfl⟩)
  have apart : a ≠ b := by
    intro same
    exact taken (.inl (by rw [node_name found, named, same]))
  constructor
  case same =>
    intro r mentioned
    rcases hears_mentions sound.edges_tidy mentioned with rfl | old
    · rw [named]
      exact there
    · exact sound.same r old
  case edges_tidy =>
    rw [Node.hears_edges]
    split
    · exact sound.edges_tidy.add target
    · exact sound.edges_tidy
  case closure_tidy =>
    rw [Node.hears_closure]
    exact sound.closure_tidy
  case edges_apart =>
    rw [Node.hears_edges]
    split
    · rename_i isSource
      subst isSource
      rw [Buckets.has_add, sound.edges_apart, named]
      simpa using Ne.symm apart
    · exact sound.edges_apart
  case closure_apart =>
    rw [Node.hears_closure]
    exact sound.closure_apart
  case reached =>
    intro other remembered
    rcases (Node.hears_remembers ..).mp remembered with old | ⟨isTarget, isSource | isHolder⟩
    · exact reaches_more more (sound.reached other old)
    · rw [← isTarget, named, ← isSource]
      exact .single last
    · rw [← isTarget, named]
      have holds := (kept.mirror x a n₀ node held found).mpr isHolder
      exact .tail (reaches_more more (sound.reached a (.inl holds))) last
  case covers =>
    intro u v inside edge
    rw [Node.hears_closure] at inside
    rw [Node.hears_remembers]
    rcases (edges u v).mp edge with old | ⟨isSource, isTarget⟩
    · exact (sound.covers u v inside old).imp_right .inl
    · subst isSource
      right; right
      refine ⟨by rw [named, isTarget], ?_⟩
      rcases inside with isSelf | holds
      · exact .inl isSelf
      · exact .inr ((kept.mirror x u n₀ node held found).mp holds)

theorem kept_link (kept : m.Kept) (here : m.ref? a = some source) (there : m.ref? b = some target) :
    Kept (m.link source target).1 := by
  obtain ⟨node, found⟩ := kept.node_of_ref here
  by_cases refused : Graph.Refuses node target
  · rw [link_refused here found refused]
    exact kept
  · have each := node_link kept.indexed (kept.holders_known found) here found refused
    refine ⟨indexed_link kept.indexed here found refused, ?_, ?_⟩
    · intro x after held
      rw [each] at held
      obtain ⟨n₀, old, rfl⟩ := Option.map_eq_some_iff.mp held
      exact sound_link kept here there found refused old
    · intro x y left right heldLeft heldRight
      rw [each] at heldLeft heldRight
      obtain ⟨left₀, oldLeft, rfl⟩ := Option.map_eq_some_iff.mp heldLeft
      obtain ⟨right₀, oldRight, rfl⟩ := Option.map_eq_some_iff.mp heldRight
      rw [Node.hears_closure, Node.hears_holders]
      exact kept.mirror x y left₀ right₀ oldLeft oldRight

end DependencyMap
end ClassAtlas
