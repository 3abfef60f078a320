import ClassAtlas.Proofs.DependencyMap.Session

/-!
What a dependency map answers about reachability, after any session. A transitive answer lists
what the name reaches along the edges the session has added so far, and nothing else, however
the closures it was put together from came about. Between answers, what each node has in its
closure and what it has pending account together for all that it reaches.
-/

namespace ClassAtlas.DependencyMap
variable {m : DependencyMap} {name x : Text} {node : Node}

-- A name without a node has no edges.
theorem reaches_nothing (missing : m.node? name = none) : ¬ m.Reaches name x := by
  intro reached
  obtain ⟨y, ⟨node, found, _⟩, _⟩ := Relation.TransGen.head'_iff.mp reached
  rw [missing] at found
  cases found

theorem query_exact (kept : m.Kept) (name : Text) :
    (∀ x, x ∈ Buckets.namesIn (m.transitiveDependenciesOf name).2.1 ↔
      x ≠ name ∧ m.Reaches name x) ∧
    Buckets.WellGrouped (m.transitiveDependenciesOf name).2.1 := by
  cases here : m.ref? name with
  | none =>
    rw [query_unknown here]
    constructor
    · intro x
      simp [Buckets.namesIn, reaches_nothing (node_fresh here)]
    · constructor <;> simp
  | some self =>
    obtain ⟨node, found⟩ := kept.node_of_ref here
    have tidy := (progress_sweep kept found).tidy
    rw [query_groups here found]
    refine ⟨?_, tidy.well_grouped⟩
    intro x
    rw [tidy.mem_names_in]
    exact has_sweep kept found x

-- The answer a session gets when it asks what a name reaches.
theorem transitive_answer (steps : List Step) (name : Text) :
    let m := (run {} steps).1
    let answer := (m.transitiveDependenciesOf name).2.1
    (∀ a b, m.Edge a b ↔ a ≠ b ∧ (a, b) ∈ steps.flatMap Step.links) ∧
    (∀ x, x ∈ Buckets.namesIn answer ↔ x ≠ name ∧ Relation.TransGen m.Edge name x) ∧
    Buckets.WellGrouped answer :=
  ⟨fun _ _ => edge_run steps, query_exact (kept_run steps) name⟩

-- A path leaves what is remembered only through what is pending, or through the node itself.
theorem reach_split (sound : m.Sound name node) (other : x ≠ name) :
    m.Reaches name x ↔ node.closure.has x = true ∨
      ∃ p ∈ node.pending.toList, x = p.name ∨ m.Reaches p.name x := by
  constructor
  · intro reached
    refine (reached.within (fun v => v = name ∨ node.closure.has v = true ∨
      ∃ p ∈ node.pending.toList, v = p.name ∨ m.Reaches p.name v) (.inl rfl) ?_).resolve_left other
    have leave : ∀ u v, u = name ∨ node.closure.has u = true → m.Edge u v →
        v = name ∨ node.closure.has v = true ∨
          ∃ p ∈ node.pending.toList, v = p.name ∨ m.Reaches p.name v := by
      intro u v from_inside edge
      rcases sound.covers u v from_inside edge with isSelf | closed | waits
      · exact .inl isSelf
      · exact .inr (.inl closed)
      · obtain ⟨p, member, named⟩ := (Waiting.mem_names_iff _ _).mp waits
        exact .inr (.inr ⟨p, member, .inl named.symm⟩)
    intro u v inside edge
    rcases inside with isSelf | closed | ⟨p, member, rfl | further⟩
    · exact leave u v (.inl isSelf) edge
    · exact leave u v (.inr closed) edge
    · exact .inr (.inr ⟨p, member, .inr (.single edge)⟩)
    · exact .inr (.inr ⟨p, member, .inr (further.tail edge)⟩)
  · intro given
    rcases given with closed | ⟨p, member, step⟩
    · exact sound.reached x (.inl closed)
    · have first : m.Reaches name p.name :=
        sound.reached p.name (.inr ((Waiting.mem_names_iff _ _).mpr ⟨p, member, rfl⟩))
      rcases step with rfl | further
      · exact first
      · exact first.trans further

-- What the closures, pending references and holders of a map say together.
structure Accounted (m : DependencyMap) : Prop where
  present : ∀ name, m.contains name = true → ∃ node, m.node? name = some node
  reach : ∀ name node, m.node? name = some node → ∀ x, x ≠ name →
    (m.Reaches name x ↔ node.closure.has x = true ∨
      ∃ p ∈ node.pending.toList, x = p.name ∨ m.Reaches p.name x)
  mirror : ∀ a b left right, m.node? a = some left → m.node? b = some right →
    (left.closure.has b = true ↔ a ∈ right.holders)
  buckets : ∀ name node, m.node? name = some node → ∀ b, b = node.edges ∨ b = node.closure →
    ∀ (package : Text) (bucket : NodeSet), b[package]? = some bucket →
      bucket ≠ ∅ ∧ name ∉ bucket ∧ ∀ x ∈ bucket, packageOf x = package
  identical : ∀ name node r, m.node? name = some node → node.Mentions r →
    m.ref? r.name = some r ∧ ∃ stored, m.graph.deref r = some stored ∧ stored.name = r.name

theorem Kept.accounted (kept : m.Kept) : m.Accounted where
  present := by
    intro name contained
    obtain ⟨id, found⟩ := Option.isSome_iff_exists.mp
      (Std.ExtTreeMap.mem_iff_isSome_getElem?.mp (Std.ExtTreeMap.contains_iff_mem.mp contained))
    exact kept.node_of_ref (r := ⟨id, name⟩) (by rw [ref?, found, Option.map_some])
  reach := fun name node found x other => reach_split (kept.sound name node found) other
  mirror := kept.mirror
  buckets := by
    intro name node found b chosen package bucket stored
    have sound := kept.sound name node found
    have tidy : b.Tidy ∧ b.has name = false := by
      rcases chosen with rfl | rfl
      · exact ⟨sound.edges_tidy, sound.edges_apart⟩
      · exact ⟨sound.closure_tidy, sound.closure_apart⟩
    refine ⟨tidy.1.filled package bucket stored, ?_, tidy.1.placed package bucket stored⟩
    intro member
    have has := tidy.1.has_of_mem stored member
    rw [tidy.2] at has
    cases has
  identical := by
    intro name node r found mentioned
    have same := (kept.sound name node found).same r mentioned
    obtain ⟨stored, held⟩ := kept.indexed r.name r same
    exact ⟨same, stored, held, Graph.deref_name held⟩

theorem accounted_run (steps : List Step) : (run {} steps).1.Accounted :=
  (kept_run steps).accounted

end ClassAtlas.DependencyMap
