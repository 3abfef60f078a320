import Mathlib.Data.List.Permutation
import ClassAtlas.Proofs.DependencyMap.Merges
import ClassAtlas.Proofs.Graph.Breadth

/-!
The first answer about a name. As long as no question has found anything from a node, its closure
is empty and its targets are pending in the order in which they were added. A sweep over such nodes
folds in what a breadth-first search discovers, in the order in which it does, although it marks
a name when it leaves the line and not when it joins it.
-/

namespace ClassAtlas.DependencyMap

-- Whatever has been asked about the name had nothing to answer, or nothing has been asked.
def Untold (name : Text) (log : List Event) : Prop :=
  ∀ reached, .answered name reached ∈ log → reached = []

-- The links of a session, the earliest first.
def linksOf (log : List Event) : List (Text × Text) := (newLinks log).reverse

-- A pair becomes the last link, unless it is a link already or leads from a name to itself.
def offer (links : List (Text × Text)) (pair : Text × Text) : List (Text × Text) :=
  if pair.1 = pair.2 ∨ links.contains pair then links else links ++ [pair]

-- What is pending at a node of which nothing has been told are its targets, in order.
def Queued (m : DependencyMap) (log : List Event) : Prop :=
  ∀ name node, m.node? name = some node → Untold name log →
    node.pending.toList.map (·.name) = targets (linksOf log) name

variable {m : DependencyMap} {log : List Event} {name source target x : Text} {r s : Ref}
  {node : Node}

theorem untold_cons {event : Event} (untold : Untold name (event :: log)) : Untold name log :=
  fun reached member => untold reached (.tail _ member)

-- Of a name that no question was about, nothing has been told.
theorem answered_asked {past : DependencyMap × List Event} {actions : List Action}
    {reached : List Text} (told : .answered name reached ∈ (actions.foldl record past).2) :
    .answered name reached ∈ past.2 ∨ .query name ∈ actions := by
  induction actions generalizing past with
  | nil => exact .inl told
  | cons action actions ih =>
    rcases ih told with sooner | later
    · rcases List.mem_append.mp sooner with now | before
      · cases action with
        | register other => simp [Action.events] at now
        | add source target => simp [Action.events] at now
        | query other =>
          obtain ⟨rfl, _⟩ : name = other ∧ _ := by simpa [Action.events] using now
          exact .inr List.mem_cons_self
      · exact .inl before
    · exact .inr (.tail _ later)

theorem untold_unasked {steps : List Step} (unasked : .query name ∉ sessionActions {} steps) :
    Untold name (history steps) := by
  intro reached told
  rcases answered_asked told with impossible | asked
  · cases impossible
  · exact absurd asked unasked

theorem last_answer_untold (untold : Untold name log) : lastAnswer name log = [] := by
  induction log with
  | nil => rfl
  | cons event log ih =>
    have earlier := ih (untold_cons untold)
    cases event with
    | linked source target => exact earlier
    | answered other reached =>
      rw [lastAnswer]
      split
      · rename_i same
        subst same
        exact untold reached List.mem_cons_self
      · exact earlier

theorem closure_untold (witnessed : m.Witnessed log) (found : m.node? name = some node)
    (untold : Untold name log) : node.closure.has x = false := by
  have closures := witnessed.closures name x
  rw [last_answer_untold untold, found] at closures
  simpa using closures

theorem mem_links (witnessed : m.Witnessed log) :
    (source, target) ∈ linksOf log ↔ m.Edge source target := by
  rw [linksOf, List.mem_reverse, witnessed.links]

theorem links_linked (log : List Event) (source target : Text) :
    linksOf (.linked source target :: log) = linksOf log ++ [(source, target)] := by
  simp [linksOf, newLinks, Event.link?]

theorem links_act (witnessed : m.Witnessed log) (action : Action) :
    linksOf (action.events m ++ log) = action.links.foldl offer (linksOf log) := by
  cases action with
  | register name => rfl
  | query name => rfl
  | add source target =>
    have added := added_iff witnessed.kept source target
    rw [← mem_links witnessed, ← List.contains_iff_mem, ne_eq, ← not_or] at added
    rw [events_add, Action.links, List.foldl_cons, List.foldl_nil, offer]
    by_cases new : (m.addDependency source target).2 = true
    · rw [if_pos new, if_neg (added.mp new), links_linked]
    · rw [if_neg new, if_pos (not_not.mp (mt added.mpr new))]

theorem links_records {past : DependencyMap × List Event} (witnessed : Witnessed past.1 past.2)
    (actions : List Action) :
    linksOf (actions.foldl record past).2 =
      (actions.flatMap Action.links).foldl offer (linksOf past.2) := by
  induction actions generalizing past with
  | nil => rfl
  | cons action actions ih =>
    rw [List.foldl_cons, ih (witnessed_act witnessed action), List.flatMap_cons, List.foldl_append,
      ← links_act witnessed action]
    rfl

theorem links_run (steps : List Step) :
    linksOf (history steps) = (steps.flatMap Step.links).foldl offer [] := by
  rw [← session_links {} steps]
  exact links_records witnessed_empty _

theorem targets_none (witnessed : m.Witnessed log) (lone : ∀ y, ¬ m.Edge name y) :
    targets (linksOf log) name = [] := by
  apply List.eq_nil_iff_forall_not_mem.mpr
  intro y member
  exact lone y ((mem_links witnessed).mp (mem_targets.mp member))

/-! What each action does to the order of what is pending. -/

theorem queued_empty : Queued {} [] := by
  intro name node found
  simp [node?, ref?] at found

theorem queued_resolve (witnessed : m.Witnessed log) (queued : Queued m log) (name : Text) :
    Queued (m.resolve name).1 log := by
  unfold resolve
  split
  · exact queued
  · rename_i fresh
    intro other node found untold
    rw [node_add_node witnessed.kept.indexed] at found
    split at found
    · rename_i same
      subst same
      cases found
      apply (targets_none witnessed _).symm
      intro y edge
      obtain ⟨node, found, _⟩ := edge
      rw [node_fresh fresh] at found
      cases found
    · exact queued other node found untold

theorem targets_linked (log : List Event) (source target x : Text) :
    targets (linksOf (.linked source target :: log)) x =
      targets (linksOf log) x ++ if source = x then [target] else [] := by
  rw [links_linked]
  by_cases same : source = x <;> simp [targets, same]

-- No holder is among the nodes of which nothing has been told, since a holder has a closure.
theorem queued_link (witnessed : m.Witnessed log) (queued : Queued m log)
    (here : m.ref? source = some r) (there : m.ref? target = some s) :
    Queued (m.link r s).1 (if (m.link r s).2 then .linked source target :: log else log) := by
  have kept := witnessed.kept
  obtain ⟨node, found⟩ := kept.node_of_ref here
  by_cases refused : Graph.Refuses node s
  · rw [link_refused here found refused, if_neg Bool.false_ne_true]
    exact queued
  · rw [if_pos (link_taken here found refused)]
    intro name told held untold
    rw [node_link kept.indexed (kept.holders_known found) here found refused] at held
    obtain ⟨n₀, old, rfl⟩ := Option.map_eq_some_iff.mp held
    have before := queued name n₀ old (untold_cons untold)
    have unheld : name ∉ node.holders := by
      intro holds
      have closed := (kept.mirror name source n₀ node old found).mpr holds
      rw [closure_untold witnessed old (untold_cons untold)] at closed
      cases closed
    rw [targets_linked, Node.hears_pending]
    by_cases same : source = name
    · subst same
      have absent : ¬ ∃ known ∈ n₀.pending.toList, known.name = s.name := by
        intro given
        have listed : target ∈ n₀.pending.toList.map (·.name) := by
          rw [← ref_name there]
          exact List.mem_map.mpr given
        rw [before, mem_targets, mem_links witnessed, edge_iff_has found, ← ref_name there] at listed
        exact refused (.inr listed)
      rw [if_pos (.inl rfl), if_pos rfl, Waiting.to_list_add, if_neg absent]
      simp [before, ref_name there]
    · simp [same, unheld, before]

theorem queued_query (witnessed : m.Witnessed log) (queued : Queued m log) (name : Text) :
    Queued (m.transitiveDependenciesOf name).1
      (.answered name (Buckets.namesIn (m.transitiveDependenciesOf name).2.1) :: log) := by
  have kept := witnessed.kept
  obtain ⟨answer, _⟩ := query_exact kept name
  have links : ∀ reached, linksOf (.answered name reached :: log) = linksOf log := fun _ => rfl
  intro other after held untold
  rw [links]
  by_cases same : name = other
  · subst same
    have settled := (query_own kept name).2
    rw [held, Option.any_some, Node.hasPending, Bool.not_eq_false', Waiting.is_empty_iff] at settled
    -- The answer is empty, so the name has no targets.
    have empty := untold _ List.mem_cons_self
    rw [settled, targets_none witnessed, List.map_nil]
    intro y edge
    have listed := (answer y).mpr ⟨(edge_apart kept edge).symm, .single edge⟩
    rw [empty] at listed
    cases listed
  · have memory := query_other kept same
    rw [held, Option.map_some] at memory
    obtain ⟨before, found, unchanged⟩ := Option.map_eq_some_iff.mp memory.symm
    rw [← (Prod.mk.inj unchanged).2]
    exact queued other before found (untold_cons untold)

theorem queued_act (witnessed : m.Witnessed log) (queued : Queued m log) (action : Action) :
    Queued (m.act action) (action.events m ++ log) := by
  cases action with
  | register name => exact queued_resolve witnessed queued name
  | add source target =>
    have first := witnessed_resolve witnessed source
    have second := witnessed_resolve first target
    rw [events_add]
    exact queued_link second (queued_resolve first (queued_resolve witnessed queued source) target)
      (ref_resolve_old (ref_resolve m source) target) (ref_resolve _ target)
  | query name => exact queued_query witnessed queued name

theorem queued_records {past : DependencyMap × List Event} (witnessed : Witnessed past.1 past.2)
    (queued : Queued past.1 past.2) (actions : List Action) :
    Queued (actions.foldl record past).1 (actions.foldl record past).2 := by
  induction actions generalizing past with
  | nil => exact queued
  | cons action actions ih => exact ih (witnessed_act witnessed action) (queued_act witnessed queued action)

theorem queued_run (steps : List Step) : Queued (run {} steps).1 (history steps) := by
  rw [← recorded_map]
  exact queued_records witnessed_empty queued_empty _

/-! The sweep beside the search. -/

-- A node that has no closure yet, and all its targets pending in order.
structure Blank (links : List (Text × Text)) (name : Text) (node : Node) : Prop where
  empty : ∀ x, node.closure.has x = false
  queued : node.pending.toList.map (·.name) = targets links name

theorem blank_of_untold (witnessed : m.Witnessed log) (queued : Queued m log)
    (found : m.node? name = some node) (untold : Untold name log) :
    Blank (linksOf log) name node :=
  ⟨fun _ => closure_untold witnessed found untold, queued name node found untold⟩

-- The search that has met all in the line of the sweep, where the sweep has not marked it yet.
def searched (a : Text) (s : Sweep) : Breadth :=
  ({ met := a :: (s.merges.map (·.name)).reverse, line := [] } : Breadth).meetAll
    (s.worklist.map (·.name))

structure Abreast (links : List (Text × Text)) (a : Text) (s : Sweep) : Prop where
  closed : ∀ x, s.closure.has x = true ↔ x ∈ s.merges.map (·.name)
  search : Breadth.run links (searched a s) = Breadth.run links ⟨[a], [a]⟩

variable {links : List (Text × Text)} {a : Text} {sweep next : Sweep} {dep : Ref}
  {rest : List Ref} {before : Buckets}

theorem abreast_start (blank : Blank links a node) :
    Abreast links a { worklist := node.pending.toList, closure := node.closure } where
  closed := by simp [blank.empty]
  search := by
    rw [searched, blank.queued]
    exact (Breadth.run_head List.not_mem_nil []).symm

-- What the sweep drops, the search has met before.
theorem abreast_skip (abreast : Abreast links a sweep) (work : sweep.worklist = dep :: rest)
    (known : dep.name = a ∨ sweep.closure.has dep.name = true) :
    Abreast links a { sweep with worklist := rest, pops := sweep.pops + 1 } := by
  refine ⟨abreast.closed, ?_⟩
  have met : dep.name ∈ a :: (sweep.merges.map (·.name)).reverse := by
    rw [abreast.closed] at known
    simpa using known
  have search := abreast.search
  rw [searched, work, List.map_cons, Breadth.meetAll, List.foldl_cons, Breadth.meet_known met] at search
  exact search

-- What the sweep folds in stands at the head of the line of the search, which takes it out and
-- meets its targets behind all that the sweep still has in line.
theorem abreast_merge (abreast : Abreast links a sweep) (work : sweep.worklist = dep :: rest)
    (tidy : node.closure.Tidy) (blank : Blank links dep.name node)
    (other : dep.name ≠ a) (fresh : sweep.closure.has dep.name = false) :
    Abreast links a (sweep.merge a dep node rest) := by
  have merges : (sweep.merge a dep node rest).merges.map (·.name) =
      dep.name :: sweep.merges.map (·.name) := rfl
  refine ⟨?_, ?_⟩
  · intro x
    rw [Sweep.has_merge sweep a dep rest tidy, merges, List.mem_cons, ← abreast.closed]
    simp [blank.empty]
  · have unmet : dep.name ∉ a :: (sweep.merges.map (·.name)).reverse := by
      have absent : dep.name ∉ sweep.merges.map (·.name) := by
        rw [← abreast.closed, fresh]
        exact Bool.false_ne_true
      simpa [other] using absent
    have search := abreast.search
    rw [searched, work, List.map_cons, Breadth.run_head unmet] at search
    rw [searched, merges, Sweep.merge_worklist, List.map_append, blank.queued, List.reverse_cons]
    exact search

theorem abreast_moves (kept : m.Kept)
    (blank : ∀ x node, m.Reaches a x → m.node? x = some node → Blank links x node)
    (moves : Sweep.Moves m.graph a sweep next) (progress : m.Progress a before sweep)
    (abreast : Abreast links a sweep) : Abreast links a next := by
  have head : ∀ {dep rest}, sweep.worklist = dep :: rest →
      m.ref? dep.name = some dep ∧ m.Reaches a dep.name := by
    intro dep rest work
    have first : dep ∈ sweep.worklist := by simp [work]
    exact ⟨progress.same dep (.inr (.inl first)), progress.reached _ (.inr ⟨dep, first, rfl⟩)⟩
  cases moves with
  | lost work missing =>
    obtain ⟨node, found⟩ := kept.indexed _ _ (head work).1
    simp [missing] at found
  | skip work found known => exact abreast_skip abreast work known
  | merge work found other fresh =>
    obtain ⟨here, reached⟩ := head work
    rw [← node_of_ref here] at found
    have tidy := (kept.sound _ _ found).closure_tidy
    exact abreast_merge abreast work tidy (blank _ _ reached found) other fresh

theorem abreast_sweep (kept : m.Kept) (found : m.node? a = some node)
    (blank : ∀ x node, x = a ∨ m.Reaches a x → m.node? x = some node → Blank links x node) :
    Abreast links a (m.graph.sweepOf node) := by
  apply sweep_keeps kept found
  · intro s next moves progress abreast
    exact abreast_moves kept (fun x node reached => blank x node (.inr reached)) moves progress abreast
  · exact abreast_start (blank a node (.inl rfl) found)

-- With nothing left in the line of the sweep, the search has nothing left in its own.
theorem Abreast.order (abreast : Abreast links a sweep) (done : sweep.worklist = []) :
    Breadth.order links a = (sweep.merges.map (·.name)).reverse := by
  have stopped : Breadth.step links (searched a sweep) = none := by
    rw [searched, done]
    rfl
  rw [Breadth.order, ← abreast.search, Breadth.run_stop stopped, searched, done]
  rfl

theorem merged_in_order (witnessed : m.Witnessed log) (queued : Queued m log)
    (untold : ∀ x, x = name ∨ m.Reaches name x → Untold x log) :
    m.mergedBy name = Breadth.order (linksOf log) name ∧
      ∀ x, x ∈ m.mergedBy name ↔ x ≠ name ∧ m.Reaches name x := by
  have kept := witnessed.kept
  cases here : m.ref? name with
  | none =>
    have missing := node_fresh here
    have lone : targets (linksOf log) name = [] := by
      apply targets_none witnessed
      intro y edge
      exact reaches_nothing missing (.single edge)
    simp [(merged_unknown here).1, Breadth.order_alone lone, reaches_nothing missing]
  | some self =>
    obtain ⟨node, found⟩ := kept.node_of_ref here
    have abreast : Abreast (linksOf log) name (m.graph.sweepOf node) := by
      apply abreast_sweep kept found
      intro x node near held
      exact blank_of_untold witnessed queued held (untold x near)
    rw [merged_by_sweep here found]
    constructor
    · exact (abreast.order (sweep_done m.graph node)).symm
    · intro x
      rw [List.mem_reverse, ← abreast.closed, has_sweep kept found]

-- If nothing has been found from a name before, nor from any name that it reaches, the closures
-- of those names are folded in as a breadth-first search along the links of the session, taken in
-- the order in which they were added, discovers them.
theorem first_answer_breadth_first (steps : List Step) (name : Text)
    (untold : ∀ x, x = name ∨ (run {} steps).1.Reaches name x → Untold x (history steps)) :
    let m := (run {} steps).1
    m.mergedBy name = Breadth.order (linksOf (history steps)) name ∧
    linksOf (history steps) = (steps.flatMap Step.links).foldl offer [] ∧
    (m.mergedBy name).Nodup ∧
    ∀ x, x ∈ m.mergedBy name ↔ x ≠ name ∧ Relation.TransGen m.Edge name x := by
  intro m
  have witnessed : m.Witnessed (history steps) := witnessed_run steps
  obtain ⟨order, members⟩ := merged_in_order witnessed (queued_run steps) untold
  exact ⟨order, links_run steps, merged_once witnessed.kept name, members⟩

-- A name that was asked about waits on those behind it, which have not been asked about; later
-- links close a circle among these.
def tour : List Step :=
  [.add "z" "n", .add "n" "b", .transitive "z", .add "n" "a", .add "b" "c", .add "a" "c",
    .add "c" "n", .add "b" "a"]

theorem tour_untold : ∀ x : Text, x = "n" ∨ (run {} tour).1.Reaches "n" x →
    Untold x (history tour) := by
  intro x near
  have unlinked : ∀ link ∈ tour.flatMap Step.links, link.2 ≠ "z" := by decide
  have apart : x ≠ "z" := by
    rcases near with rfl | reached
    · decide
    · apply reached.within (· ≠ "z") (by decide)
      intro u v _ edge
      exact unlinked (u, v) ((edge_run tour).mp edge).2
  apply untold_unasked
  simpa [tour, sessionActions, Step.actions] using apart

theorem tour_breadth_first :
    (∀ x : Text, x = "n" ∨ (run {} tour).1.Reaches "n" x → Untold x (history tour)) ∧
    (run {} tour).1.mergedBy "n" = [("b" : Text), "a", "c"] := by
  have met : (Breadth.run ((tour.flatMap Step.links).foldl offer []) ⟨["n"], ["n"]⟩).met =
      [("n" : Text), "b", "a", "c"] := by cbv
  obtain ⟨order, links, _⟩ := first_answer_breadth_first tour "n" tour_untold
  rw [links, Breadth.order, met] at order
  exact ⟨tour_untold, order⟩

end ClassAtlas.DependencyMap
