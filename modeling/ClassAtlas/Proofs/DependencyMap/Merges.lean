import ClassAtlas.Proofs.DependencyMap.History
import ClassAtlas.Proofs.DependencyMap.Reachability
import ClassAtlas.Proofs.Graph.Order

/-!
What a transitive question costs. A closure is folded into another one at most once in a session,
and only if it belongs to a name that the last answer lacked. So a question that has nothing new
to answer folds in nothing.
-/

namespace ClassAtlas.DependencyMap

-- The closure of the first name, as it stands, has the second one.
def Holds (m : DependencyMap) (a x : Text) : Prop :=
  (m.node? a).any (·.closure.has x) = true

-- The second name is pending at the first one.
def Awaits (m : DependencyMap) (a x : Text) : Prop :=
  ∃ node, m.node? a = some node ∧ ∃ r ∈ node.pending.toList, r.name = x

-- Why the closure of `d` is folded into that of `a` when those of the `earlier` names have been.
structure Due (m : DependencyMap) (a : Text) (earlier : List Text) (d : Text) : Prop where
  other : d ≠ a
  new : ¬ m.Holds a d
  waited : m.Awaits a d ∨ ∃ e ∈ earlier, m.Awaits e d
  unfolded : ∀ e ∈ earlier, ¬ m.Holds e d

-- A sweep for `a` under way, told by the names it has folded in, the latest first.
structure Traced (m : DependencyMap) (a : Text) (s : Sweep) : Prop where
  line : ∀ r ∈ s.worklist, m.Awaits a r.name ∨ ∃ e ∈ s.merges.map (·.name), m.Awaits e r.name
  due : ∀ later d earlier, s.merges.map (·.name) = later ++ d :: earlier → m.Due a earlier d
  once : (s.merges.map (·.name)).Nodup
  kept : ∀ x, m.Holds a x → s.closure.has x = true
  folded : ∀ d ∈ s.merges.map (·.name), s.closure.has d = true ∧
    ∀ x, x ≠ a → m.Holds d x → s.closure.has x = true
  accounted : ∀ x, s.closure.has x = true →
    m.Holds a x ∨ ∃ d ∈ s.merges.map (·.name), x = d ∨ m.Holds d x

variable {m : DependencyMap} {a x name : Text} {node : Node} {s next : Sweep} {dep self : Ref}
  {rest : List Ref} {before : Buckets} {log : List Event}

theorem holds_iff (found : m.node? a = some node) : m.Holds a x ↔ node.closure.has x = true := by
  simp [Holds, found]

theorem awaits_of_mem {r : Ref} (found : m.node? a = some node) (member : r ∈ node.pending.toList) :
    m.Awaits a r.name :=
  ⟨node, found, r, member, rfl⟩

theorem traced_start (found : m.node? a = some node) :
    m.Traced a { worklist := node.pending.toList, closure := node.closure } where
  line := fun r member => .inl (awaits_of_mem found member)
  due := by simp
  once := .nil
  kept := fun x => (holds_iff found).mp
  folded := by simp
  accounted := fun x has => .inl ((holds_iff found).mpr has)

theorem traced_drop (traced : m.Traced a s) (work : s.worklist = dep :: rest) :
    m.Traced a { s with worklist := rest, pops := s.pops + 1 } := by
  refine { traced with line := ?_ }
  intro r member
  apply traced.line
  simp [work, member]

-- What is folded in was not there, so it was in nothing that has been folded in before.
theorem traced_due (traced : m.Traced a s) (work : s.worklist = dep :: rest)
    (other : dep.name ≠ a) (fresh : s.closure.has dep.name = false) :
    m.Due a (s.merges.map (·.name)) dep.name ∧ dep.name ∉ s.merges.map (·.name) := by
  constructor
  · constructor
    case other => exact other
    case new =>
      intro holds
      simp [traced.kept dep.name holds] at fresh
    case waited =>
      apply traced.line
      simp [work]
    case unfolded =>
      intro e member holds
      simp [(traced.folded e member).2 dep.name other holds] at fresh
  · intro member
    simp [(traced.folded dep.name member).1] at fresh

theorem traced_merge (traced : m.Traced a s) (tidy : node.closure.Tidy)
    (work : s.worklist = dep :: rest) (found : m.node? dep.name = some node)
    (other : dep.name ≠ a) (fresh : s.closure.has dep.name = false) :
    m.Traced a (s.merge a dep node rest) := by
  have has := Sweep.has_merge s a dep rest tidy
  have merges : (s.merge a dep node rest).merges.map (·.name) =
      dep.name :: s.merges.map (·.name) := rfl
  obtain ⟨due, unmet⟩ := traced_due traced work other fresh
  constructor
  case line =>
    intro r member
    simp only [Sweep.merge_worklist, List.mem_append] at member
    simp only [merges, List.mem_cons, exists_eq_or_imp]
    rcases member with old | waits
    · exact (traced.line r (by simp [work, old])).imp_right .inr
    · exact .inr (.inl (awaits_of_mem found waits))
  case due =>
    intro later d earlier split
    rw [merges] at split
    rcases List.cons_eq_append_iff.mp split with ⟨_, latest⟩ | ⟨behind, _, split⟩
    · cases latest
      exact due
    · exact traced.due behind d earlier split
  case once => exact List.nodup_cons.mpr ⟨unmet, traced.once⟩
  case kept =>
    intro x holds
    exact (has x).mpr (.inr (.inr (traced.kept x holds)))
  case folded =>
    intro d member
    simp only [has]
    rcases List.mem_cons.mp member with rfl | old
    · refine ⟨.inl rfl, ?_⟩
      intro x apart holds
      exact .inr (.inl ⟨apart, (holds_iff found).mp holds⟩)
    · obtain ⟨entered, folded⟩ := traced.folded d old
      refine ⟨.inr (.inr entered), ?_⟩
      intro x apart holds
      exact .inr (.inr (folded x apart holds))
  case accounted =>
    intro x known
    simp only [merges, List.mem_cons, exists_eq_or_imp]
    rcases (has x).mp known with isDep | ⟨_, held⟩ | old
    · exact .inr (.inl (.inl isDep))
    · exact .inr (.inl (.inr ((holds_iff found).mpr held)))
    · exact (traced.accounted x old).imp_right .inr

theorem traced_moves (kept : m.Kept) (moves : Sweep.Moves m.graph a s next)
    (progress : m.Progress a before s) (traced : m.Traced a s) : m.Traced a next := by
  cases moves with
  | lost work missing => exact traced_drop traced work
  | skip work found known => exact traced_drop traced work
  | @merge dep rest node work found other fresh =>
    have here : m.ref? dep.name = some dep := progress.same dep (.inr (.inl (by simp [work])))
    rw [← node_of_ref here] at found
    exact traced_merge traced (kept.sound _ node found).closure_tidy work found other fresh

theorem traced_sweep (kept : m.Kept) (found : m.node? a = some node) :
    m.Traced a (m.graph.sweepOf node) :=
  sweep_keeps kept found (fun _ _ => traced_moves kept) (traced_start found)

/-! One question. -/

-- The names whose closures a question folds in, in the order in which it does.
def mergedBy (m : DependencyMap) (name : Text) : List Text :=
  (m.transitiveDependenciesOf name).2.2.map (·.name)

def answerTo (m : DependencyMap) (name : Text) : List Text :=
  Buckets.namesIn (m.transitiveDependenciesOf name).2.1

theorem merged_unknown (missing : m.ref? name = none) :
    m.mergedBy name = [] ∧ m.answerTo name = [] := by
  simp [mergedBy, answerTo, query_unknown missing, Buckets.namesIn]

theorem merged_by_sweep (here : m.ref? name = some self) (found : m.node? name = some node) :
    m.mergedBy name = ((m.graph.sweepOf node).merges.map (·.name)).reverse := by
  rw [node_of_ref here] at found
  rw [mergedBy, query_answer here, Graph.flatten, found, List.map_reverse]

theorem mem_answer_sweep (kept : m.Kept) (here : m.ref? name = some self)
    (found : m.node? name = some node) :
    x ∈ m.answerTo name ↔ (m.graph.sweepOf node).closure.has x = true := by
  rw [answerTo, query_groups here found]
  exact (progress_sweep kept found).tidy.mem_names_in x

theorem merged_due (kept : m.Kept) {earlier later : List Text} {d : Text}
    (merged : m.mergedBy name = earlier ++ d :: later) :
    m.Due name earlier d ∧ d ∈ m.answerTo name := by
  cases here : m.ref? name with
  | none => simp [(merged_unknown here).1] at merged
  | some self =>
    obtain ⟨node, found⟩ := kept.node_of_ref here
    have traced := traced_sweep kept found
    rw [merged_by_sweep here found] at merged
    have trail : (m.graph.sweepOf node).merges.map (·.name) = later.reverse ++ d :: earlier.reverse := by
      simpa using congrArg List.reverse merged
    obtain ⟨other, new, waited, unfolded⟩ := traced.due _ _ _ trail
    refine ⟨⟨other, new, by simpa using waited, by simpa using unfolded⟩, ?_⟩
    rw [mem_answer_sweep kept here found]
    exact (traced.folded d (by simp [trail])).1

theorem merged_once (kept : m.Kept) (name : Text) : (m.mergedBy name).Nodup := by
  cases here : m.ref? name with
  | none => simp [(merged_unknown here).1]
  | some self =>
    obtain ⟨node, found⟩ := kept.node_of_ref here
    rw [merged_by_sweep here found, List.nodup_reverse]
    exact (traced_sweep kept found).once

-- What the answer has was there before, or came with a closure that was folded in.
theorem answer_accounted (kept : m.Kept) (listed : x ∈ m.answerTo name) :
    m.Holds name x ∨ ∃ d ∈ m.mergedBy name, x = d ∨ m.Holds d x := by
  cases here : m.ref? name with
  | none => simp [(merged_unknown here).2] at listed
  | some self =>
    obtain ⟨node, found⟩ := kept.node_of_ref here
    rw [mem_answer_sweep kept here found] at listed
    simpa [merged_by_sweep here found] using (traced_sweep kept found).accounted x listed

theorem answer_keeps (kept : m.Kept) (holds : m.Holds name x) : x ∈ m.answerTo name := by
  cases here : m.ref? name with
  | none => simp [Holds, node_fresh here] at holds
  | some self =>
    obtain ⟨node, found⟩ := kept.node_of_ref here
    rw [mem_answer_sweep kept here found]
    exact (traced_sweep kept found).kept x holds

-- An answer that has nothing new is the one before, since both have the same order.
theorem merged_nothing_iff (witnessed : m.Witnessed log) (name : Text)
    (sorted : (lastAnswer name log).Pairwise Text.Precedes) :
    m.mergedBy name = [] ↔ m.answerTo name = lastAnswer name log := by
  have kept := witnessed.kept
  constructor
  · intro nothing
    apply (query_exact kept name).2.names_precede.eq_of_mem_iff sorted
    intro x
    constructor
    · intro listed
      have holds : m.Holds name x := by simpa [nothing] using answer_accounted kept listed
      exact (witnessed.closures name x).mpr holds
    · intro known
      exact answer_keeps kept ((witnessed.closures name x).mp known)
  · intro same
    cases merged : m.mergedBy name with
    | nil => rfl
    | cons d later =>
      have first : m.mergedBy name = [] ++ d :: later := merged
      obtain ⟨due, listed⟩ := merged_due kept first
      rw [same, witnessed.closures] at listed
      exact absurd listed due.new

/-! A session. -/

-- Every closure that is folded into another one, in the order in which it happens.
def Action.merges (m : DependencyMap) : Action → List (Text × Text)
  | .query name => (m.mergedBy name).map (name, ·)
  | _ => []

def mergesAlong (m : DependencyMap) : List Action → List (Text × Text)
  | [] => []
  | action :: actions => action.merges m ++ mergesAlong (m.act action) actions

theorem holds_resolve (kept : m.Kept) (name : Text) :
    (m.resolve name).1.Holds a x ↔ m.Holds a x := by
  rw [Holds, any_resolve kept (by simp [Buckets.has, Buckets.bucket]), Holds]

theorem holds_link (kept : m.Kept) {r s : Ref} {source : Text} (here : m.ref? source = some r) :
    (m.link r s).1.Holds a x ↔ m.Holds a x := by
  obtain ⟨node, found⟩ := kept.node_of_ref here
  by_cases refused : Graph.Refuses node s
  · rw [link_refused here found refused]
  · rw [Holds, node_link kept.indexed (kept.holders_known found) here found refused, Holds]
    cases m.node? a <;> simp [Node.hears_closure]

theorem holds_query (kept : m.Kept) (name : Text) (holds : m.Holds a x) :
    (m.transitiveDependenciesOf name).1.Holds a x := by
  by_cases same : name = a
  · subst same
    exact ((query_own kept name).1 x).mp (answer_keeps kept holds)
  · have closures := congrArg (Option.any (·.1.has x)) (query_other kept same)
    simp only [Option.any_map] at closures
    exact closures.trans holds

-- Closures only grow.
theorem holds_act (kept : m.Kept) (action : Action) (holds : m.Holds a x) :
    (m.act action).Holds a x := by
  cases action with
  | register name => exact (holds_resolve kept name).mpr holds
  | add source target =>
    have first := kept_resolve kept source
    have second := kept_resolve first target
    apply (holds_link second (ref_resolve_old (ref_resolve m source) target)).mpr
    exact (holds_resolve first target).mpr ((holds_resolve kept source).mpr holds)
  | query name => exact holds_query kept name holds

theorem merges_act (kept : m.Kept) (action : Action) : (action.merges m).Nodup ∧
    ∀ pair ∈ action.merges m, ¬ m.Holds pair.1 pair.2 ∧ (m.act action).Holds pair.1 pair.2 := by
  cases action with
  | query name =>
    constructor
    · exact (merged_once kept name).map (by simp [Function.Injective])
    · intro pair member
      obtain ⟨d, merged, rfl⟩ := List.mem_map.mp member
      obtain ⟨earlier, later, split⟩ := List.append_of_mem merged
      obtain ⟨due, listed⟩ := merged_due kept split
      exact ⟨due.new, ((query_own kept name).1 d).mp listed⟩
  | _ => simp [Action.merges]

-- What has been folded in is held from then on, so its turn never comes again.
theorem merges_once (kept : m.Kept) (actions : List Action) : (mergesAlong m actions).Nodup ∧
    ∀ pair ∈ mergesAlong m actions, ¬ m.Holds pair.1 pair.2 := by
  induction actions generalizing m with
  | nil => simp [mergesAlong]
  | cons action actions ih =>
    obtain ⟨once, met⟩ := merges_act kept action
    obtain ⟨later, unmet⟩ := ih (kept_act kept action)
    constructor
    · apply List.Nodup.append once later
      intro pair now again
      exact unmet pair again (met pair now).2
    · intro pair member
      rcases List.mem_append.mp member with now | again
      · exact (met pair now).1
      · intro holds
        exact unmet pair again (holds_act kept action holds)

theorem sorted_records {past : DependencyMap × List Event} (witnessed : Witnessed past.1 past.2)
    (sorted : ∀ name, (lastAnswer name past.2).Pairwise Text.Precedes) (actions : List Action)
    (name : Text) :
    (lastAnswer name (actions.foldl record past).2).Pairwise Text.Precedes := by
  induction actions generalizing past with
  | nil => exact sorted name
  | cons action actions ih =>
    apply ih (witnessed_act witnessed action)
    intro name
    cases action with
    | register _ => exact sorted name
    | add source target =>
      simp only [record, Action.events]
      split <;> exact sorted name
    | query other =>
      simp only [record, Action.events, List.singleton_append, lastAnswer]
      split
      · exact (query_exact witnessed.kept other).2.names_precede
      · exact sorted name

-- Over a session no closure is folded into the same one twice. And each question of it, also one
-- that a report asks, folds in what the answer before lacked, in an order in which every closure
-- has been waited for and none has come with an earlier one; the rest of what is new comes along.
theorem merges_delta (steps : List Step) :
    (mergesAlong {} (sessionActions {} steps)).Nodup ∧
    ∀ before name after, sessionActions {} steps = before ++ .query name :: after →
      let past := before.foldl record ({}, [])
      let m := past.1
      let previous := lastAnswer name past.2
      (∀ earlier d later, m.mergedBy name = earlier ++ d :: later →
        d ≠ name ∧ d ∉ previous ∧ d ∈ m.answerTo name ∧
        (m.Awaits name d ∨ ∃ e ∈ earlier, m.Awaits e d) ∧ ∀ e ∈ earlier, ¬ m.Holds e d) ∧
      (∀ x ∈ m.answerTo name, x ∉ previous → ∃ d ∈ m.mergedBy name, x = d ∨ m.Holds d x) ∧
      (m.mergedBy name = [] ↔ m.answerTo name = previous) := by
  refine ⟨(merges_once kept_empty _).1, ?_⟩
  intro before name after _ past m previous
  have witnessed : m.Witnessed past.2 := witnessed_records witnessed_empty before
  have kept := witnessed.kept
  have closures := witnessed.closures name
  refine ⟨?_, ?_, ?_⟩
  · intro earlier d later merged
    obtain ⟨due, listed⟩ := merged_due kept merged
    exact ⟨due.other, fun known => due.new ((closures d).mp known), listed, due.waited, due.unfolded⟩
  · intro x listed unknown
    exact (answer_accounted kept listed).resolve_left fun holds => unknown ((closures x).mpr holds)
  · apply merged_nothing_iff witnessed name
    exact sorted_records witnessed_empty (by simp [lastAnswer]) before name

end ClassAtlas.DependencyMap
