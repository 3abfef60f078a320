import ClassAtlas.Proofs.DependencyMap.Ground
import ClassAtlas.Proofs.DependencyMap.History
import ClassAtlas.Proofs.DependencyMap.Reachability

/-!
When a node has something pending. It does from the moment a dependency is added to it, or to a
name of its latest transitive answer, until it is asked again; and while it has nothing pending,
that answer still stands.
-/

namespace ClassAtlas.DependencyMap
variable {m : DependencyMap} {name x : Text} {node : Node}

theorem pending_answer (m : DependencyMap) (indexed : m.Indexed) (name : Text) :
    (m.step (.pending name)).2 = .flag? ((m.node? name).map (·.hasPending)) := by
  rw [step, node?]
  cases here : m.ref? name with
  | none => rfl
  | some r =>
    obtain ⟨node, found⟩ := indexed name r here
    rw [Option.map_some, Option.bind_some, Graph.hasPending, found, Option.any_some, Option.map_some]

-- A closure with nothing pending is all that its node reaches.
theorem settled_exact (sound : m.Sound name node) (settled : node.hasPending = false) :
    node.closure.has x = true ↔ x ≠ name ∧ m.Reaches name x := by
  have none_wait : node.pending.toList = [] :=
    (Waiting.is_empty_iff _).mp ((Bool.not_eq_false' _).mp settled)
  constructor
  · intro has
    refine ⟨?_, sound.reached x (.inl has)⟩
    intro same
    subst same
    rw [sound.closure_apart] at has
    cases has
  · intro given
    obtain ⟨other, reached⟩ := given
    refine ((reach_split sound other).mp reached).resolve_right ?_
    simp [none_wait]

theorem pending_own (kept : m.Kept) (name : Text) :
    ((m.step (.transitive name)).1.step (.pending name)).2 ≠ .flag? (some true) := by
  intro told
  have told := (pending_answer _ (kept_query kept name).indexed name).symm.trans told
  obtain ⟨node, found, waits⟩ := Option.map_eq_some_iff.mp (Answer.flag?.inj told)
  have settled := (query_own kept name).2
  rw [found, Option.any_some, waits] at settled
  cases settled

theorem pending_other (kept : m.Kept) {other : Text} (apart : other ≠ name) :
    ((m.step (.transitive other)).1.step (.pending name)).2 = (m.step (.pending name)).2 := by
  have same := congrArg (Option.map fun memory => !memory.2.isEmpty) (query_other kept apart)
  rw [Option.map_map, Option.map_map] at same
  refine (pending_answer _ (kept_query kept other).indexed name).trans ?_
  exact (congrArg Answer.flag? same).trans (pending_answer m kept.indexed name).symm

-- After any session: whether a node has something pending, what a question does to that, and
-- what a node remembers that has nothing pending.
theorem pending_exact (steps : List Step) (name : Text) :
    let m := (run {} steps).1
    let pending (m : DependencyMap) : Answer := (m.step (.pending name)).2
    (pending m = .flag? (some true) ↔ Outdated name (history steps)) ∧
    (pending m = .flag? (some false) ↔ m.contains name = true ∧ ¬ Outdated name (history steps)) ∧
    pending (m.step (.transitive name)).1 ≠ .flag? (some true) ∧
    (∀ other, other ≠ name → pending (m.step (.transitive other)).1 = pending m) ∧
    (∀ node, m.node? name = some node → pending m = .flag? (some false) →
      ∀ x, node.closure.has x = true ↔ x ≠ name ∧ Relation.TransGen m.Edge name x) := by
  intro m pending
  have witnessed : m.Witnessed (history steps) := witnessed_run steps
  have kept := witnessed.kept
  have answer : pending m = .flag? ((m.node? name).map (·.hasPending)) :=
    pending_answer m kept.indexed name
  rw [contains_iff_node kept, witnessed.waits name]
  refine ⟨?_, ?_, pending_own kept name, fun _ => pending_other kept, ?_⟩
  · rw [answer]
    cases m.node? name <;> simp
  · rw [answer]
    cases m.node? name <;> simp
  · intro node found told x
    rw [answer, found] at told
    exact settled_exact (kept.sound name node found) (Option.some.inj (Answer.flag?.inj told))

end ClassAtlas.DependencyMap
