import ClassAtlas.Proofs.DependencyMap.Session

/-!
What happened in a session, as its callers saw it: the dependencies that were new when they were
added, and what each transitive question was answered. From this record alone it can be told
what every node has in its closure, and whether anything waits there.
-/

namespace ClassAtlas.DependencyMap

inductive Event where
  | linked (source target : Text)
  | answered (name : Text) (reached : List Text)

-- A dependency that the map has already, or of a name on itself, leaves no trace.
def Action.events (m : DependencyMap) : Action → List Event
  | .register _ => []
  | .add source target =>
    if (m.addDependency source target).2 then [.linked source target] else []
  | .query name => [.answered name (Buckets.namesIn (m.transitiveDependenciesOf name).2.1)]

-- The latest event comes first.
def record (past : DependencyMap × List Event) (action : Action) : DependencyMap × List Event :=
  (past.1.act action, action.events past.1 ++ past.2)

def recorded (steps : List Step) : DependencyMap × List Event :=
  (sessionActions {} steps).foldl record ({}, [])

def history (steps : List Step) : List Event := (recorded steps).2

def Event.link? : Event → Option (Text × Text)
  | .linked source target => some (source, target)
  | .answered _ _ => none

def newLinks (log : List Event) : List (Text × Text) := log.filterMap Event.link?

-- What the latest question about a name was answered, if there was one.
def lastAnswer (name : Text) : List Event → List Text
  | [] => []
  | .linked _ _ :: earlier => lastAnswer name earlier
  | .answered other reached :: earlier =>
    if other = name then reached else lastAnswer name earlier

-- The sources of the dependencies that are newer than the latest answer about a name.
def sourcesSince (name : Text) : List Event → List Text
  | [] => []
  | .linked source _ :: earlier => source :: sourcesSince name earlier
  | .answered other _ :: earlier => if other = name then [] else sourcesSince name earlier

-- Something was added to the name, or to what it was last said to reach.
def Outdated (name : Text) (log : List Event) : Prop :=
  ∃ source ∈ sourcesSince name log, source = name ∨ source ∈ lastAnswer name log

-- What the record of a session tells of the map that the session leaves.
structure Witnessed (m : DependencyMap) (log : List Event) : Prop where
  kept : m.Kept
  links : ∀ x y, (x, y) ∈ newLinks log ↔ m.Edge x y
  once : (newLinks log).Nodup
  closures : ∀ name x, x ∈ lastAnswer name log ↔ (m.node? name).any (·.closure.has x) = true
  waits : ∀ name, Outdated name log ↔ (m.node? name).any (·.hasPending) = true

variable {m : DependencyMap} {log : List Event} {name source target : Text} {r s : Ref} {node : Node}

theorem outdated_linked : Outdated name (.linked source target :: log) ↔
    (source = name ∨ source ∈ lastAnswer name log) ∨ Outdated name log := by
  simp [Outdated, sourcesSince, lastAnswer]

theorem outdated_answered {other : Text} {reached : List Text} (apart : other ≠ name) :
    Outdated name (.answered other reached :: log) ↔ Outdated name log := by
  simp [Outdated, sourcesSince, lastAnswer, apart]

theorem not_outdated_answered {reached : List Text} :
    ¬ Outdated name (.answered name reached :: log) := by
  simp [Outdated, sourcesSince]

theorem witnessed_empty : Witnessed {} [] := by
  refine ⟨kept_empty, ?_, .nil, ?_, ?_⟩ <;>
    simp [newLinks, Edge, lastAnswer, Outdated, sourcesSince, node?, ref?]

/-! What each action adds to the record. -/

-- A new node is like no node at all, for what holds of no new node.
theorem any_resolve (kept : m.Kept) {holds : Node → Bool} (unborn : holds { name } = false)
    (x : Text) : ((m.resolve name).1.node? x).any holds = (m.node? x).any holds := by
  unfold resolve
  split
  · rfl
  · rename_i fresh
    rw [node_add_node kept.indexed]
    split
    · rename_i new
      subst new
      rw [node_fresh fresh, Option.any_some, unborn, Option.any_none]
    · rfl

theorem witnessed_resolve (witnessed : m.Witnessed log) (name : Text) :
    Witnessed (m.resolve name).1 log := by
  obtain ⟨kept, links, once, closures, waits⟩ := witnessed
  refine ⟨kept_resolve kept name, ?_, once, ?_, ?_⟩
  · intro x y
    rw [links, edge_resolve kept]
  · intro other x
    rw [closures, any_resolve kept (by simp [Buckets.has, Buckets.bucket])]
  · intro other
    rw [waits, any_resolve kept rfl]

theorem link_taken (here : m.ref? source = some r) (found : m.node? source = some node)
    (taken : ¬ Graph.Refuses node s) : (m.link r s).2 = true := by
  rw [node_of_ref here] at found
  have added := Graph.add_edge_taken found taken
  cases m
  simp only [link]
  rw [added]

-- A dependency is new unless the map has it, or it leads from a name to itself.
theorem added_iff (kept : m.Kept) (source target : Text) :
    (m.addDependency source target).2 = true ↔ source ≠ target ∧ ¬ m.Edge source target := by
  have first := kept_resolve kept source
  have second := kept_resolve first target
  have here := ref_resolve_old (ref_resolve m source) target
  have there := ref_resolve (m.resolve source).1 target
  obtain ⟨node, found⟩ := second.node_of_ref here
  have refuses : Graph.Refuses node ((m.resolve source).1.resolve target).2 ↔
      source = target ∨ m.Edge source target := by
    rw [← edge_resolve kept source, ← edge_resolve first target, edge_iff_has found, Graph.Refuses,
      node_name found, ref_name there]
  rw [← not_or, ← refuses, addDependency]
  by_cases refused : Graph.Refuses node ((m.resolve source).1.resolve target).2
  · simp [link_refused here found refused, refused]
  · simp [link_taken here found refused, refused]

theorem waiting_add (w : Waiting) (r : Ref) : (w.add r).isEmpty = false := by
  rw [← Bool.not_eq_true, Waiting.is_empty_iff]
  intro empty
  obtain ⟨known, waits, _⟩ := (Waiting.mem_names_iff _ _).mp
    ((Waiting.mem_names_add w r r.name).mpr (.inl rfl))
  rw [empty] at waits
  cases waits

theorem hears_has_pending {isSource isHolder : Prop} [Decidable isSource] [Decidable isHolder] :
    (node.hears r isSource isHolder).hasPending = true ↔
      isSource ∨ isHolder ∨ node.hasPending = true := by
  rw [Node.hasPending, Node.hears_pending, ← or_assoc]
  split
  · rename_i told
    simp [told, waiting_add]
  · rename_i untold
    simp only [untold, false_or]
    exact Iff.rfl

-- Whoever is told of a new edge has something pending, and these are its source and the holders.
theorem witnessed_link (witnessed : m.Witnessed log) (here : m.ref? source = some r)
    (there : m.ref? target = some s) :
    Witnessed (m.link r s).1 (if (m.link r s).2 then .linked source target :: log else log) := by
  obtain ⟨kept, links, once, closures, waits⟩ := witnessed
  obtain ⟨node, found⟩ := kept.node_of_ref here
  by_cases refused : Graph.Refuses node s
  · rw [link_refused here found refused, if_neg Bool.false_ne_true]
    exact ⟨kept, links, once, closures, waits⟩
  · have edges := edge_link kept here there found refused
    have each := node_link kept.indexed (kept.holders_known found) here found refused
    have fresh : ¬ m.Edge source target := by
      rw [edge_iff_has found, ← ref_name there]
      exact fun has => refused (.inr has)
    rw [if_pos (link_taken here found refused)]
    refine ⟨kept_link kept here there, ?_, ?_, ?_, ?_⟩
    · intro x y
      rw [edges, ← links]
      simp [newLinks, Event.link?, or_comm]
    · refine List.nodup_cons.mpr ⟨?_, once⟩
      rwa [← links] at fresh
    · intro name x
      rw [lastAnswer, closures, each]
      cases m.node? name with
      | none => simp
      | some n₀ => simp [Node.hears_closure]
    · intro name
      rw [outdated_linked, closures, waits, each]
      cases held : m.node? name with
      | none =>
        have other : source ≠ name := by
          intro same
          rw [← same, found] at held
          cases held
        simp [other]
      | some n₀ =>
        have holds := kept.mirror name source n₀ node held found
        simp [hears_has_pending, holds, or_assoc]

-- A question leaves the node it is about with what it answered, and nothing pending.
theorem query_own (kept : m.Kept) (name : Text) :
    (∀ x, x ∈ Buckets.namesIn (m.transitiveDependenciesOf name).2.1 ↔
      ((m.transitiveDependenciesOf name).1.node? name).any (·.closure.has x) = true) ∧
    ((m.transitiveDependenciesOf name).1.node? name).any (·.hasPending) = false := by
  cases here : m.ref? name with
  | none => simp [query_unknown here, node_fresh here, Buckets.namesIn]
  | some self =>
    obtain ⟨node, found⟩ := kept.node_of_ref here
    have progress := progress_sweep kept found
    rw [query_groups here found, node_query kept.indexed here found progress.entered_known, found,
      Option.map_some, Option.any_some]
    constructor
    · intro x
      rw [Option.any_some, Node.settles_closure, if_pos rfl]
      exact progress.tidy.mem_names_in x
    · rw [Node.hasPending, Node.settles_pending, if_pos rfl]
      rfl

theorem query_other (kept : m.Kept) {other : Text} (apart : name ≠ other) :
    ((m.transitiveDependenciesOf name).1.node? other).map (fun node => (node.closure, node.pending)) =
      (m.node? other).map fun node => (node.closure, node.pending) := by
  cases here : m.ref? name with
  | none => rw [query_unknown here]
  | some self =>
    obtain ⟨node, found⟩ := kept.node_of_ref here
    have progress := progress_sweep kept found
    rw [node_query kept.indexed here found progress.entered_known, Option.map_map]
    congr 1
    funext node
    rw [Function.comp_apply, Node.settles_closure, Node.settles_pending, if_neg apart, if_neg apart]

theorem witnessed_query (witnessed : m.Witnessed log) (name : Text) :
    Witnessed (m.transitiveDependenciesOf name).1
      (.answered name (Buckets.namesIn (m.transitiveDependenciesOf name).2.1) :: log) := by
  obtain ⟨kept, links, once, closures, waits⟩ := witnessed
  obtain ⟨answered, settled⟩ := query_own kept name
  have others : ∀ {other} (holds : Buckets × Waiting → Bool), name ≠ other →
      ((m.transitiveDependenciesOf name).1.node? other).any (fun n => holds (n.closure, n.pending)) =
        (m.node? other).any fun n => holds (n.closure, n.pending) := by
    intro other holds apart
    simpa [Option.any_map, Function.comp_def] using congrArg (Option.any holds) (query_other kept apart)
  refine ⟨kept_query kept name, ?_, once, ?_, ?_⟩
  · intro x y
    rw [edge_query kept]
    exact links x y
  · intro other x
    rw [lastAnswer]
    split
    · rename_i same
      subst same
      exact answered x
    · rename_i apart
      exact (closures other x).trans (Bool.eq_iff_iff.mp (others (·.1.has x) apart).symm)
  · intro other
    by_cases same : name = other
    · subst same
      simp [not_outdated_answered, settled]
    · rw [outdated_answered same, waits]
      exact Bool.eq_iff_iff.mp (others (!·.2.isEmpty) same).symm

theorem events_add (m : DependencyMap) (log : List Event) (source target : Text) :
    Action.events m (.add source target) ++ log =
      if (m.addDependency source target).2 then .linked source target :: log else log := by
  rw [Action.events]
  split <;> rfl

theorem witnessed_act (witnessed : m.Witnessed log) (action : Action) :
    Witnessed (m.act action) (action.events m ++ log) := by
  cases action with
  | register name =>
    have resolved := witnessed_resolve witnessed name
    exact { resolved with kept := kept_act witnessed.kept (.register name) }
  | add source target =>
    have first := witnessed_resolve witnessed source
    have second := witnessed_resolve first target
    rw [events_add]
    exact witnessed_link second (ref_resolve_old (ref_resolve m source) target) (ref_resolve _ target)
  | query name => exact witnessed_query witnessed name

theorem witnessed_records {past : DependencyMap × List Event} (witnessed : Witnessed past.1 past.2)
    (actions : List Action) :
    Witnessed (actions.foldl record past).1 (actions.foldl record past).2 := by
  induction actions generalizing past with
  | nil => exact witnessed
  | cons action actions ih => exact ih (witnessed_act witnessed action)

theorem witnessed_recorded (steps : List Step) :
    Witnessed (recorded steps).1 (recorded steps).2 :=
  witnessed_records witnessed_empty _

-- The record is kept beside the map and changes nothing about it.
theorem recorded_map (steps : List Step) : (recorded steps).1 = (run {} steps).1 := by
  have each : ∀ (actions : List Action) (past : DependencyMap × List Event),
      (actions.foldl record past).1 = actions.foldl act past.1 := by
    intro actions
    induction actions with
    | nil => exact fun _ => rfl
    | cons action actions ih => exact fun past => ih (record past action)
  rw [run_actions]
  exact each _ _

theorem witnessed_run (steps : List Step) : Witnessed (run {} steps).1 (history steps) := by
  rw [← recorded_map]
  exact witnessed_recorded steps

end ClassAtlas.DependencyMap
