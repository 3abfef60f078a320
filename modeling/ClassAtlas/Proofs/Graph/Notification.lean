import Mathlib.Data.List.Permutation
import Std.Data.TreeMap.Iterator
import ClassAtlas.Proofs.Graph.Aliases

/-!
Who hears of a new edge. A node knows its holders by name, so among holders that share one a single
one is told. Whoever is told does not forget it: every later answer has the new name.
-/

namespace ClassAtlas.Graph

def Awaits (g : Graph) (r : Ref) (name : Text) : Prop :=
  ∃ node, g.deref r = some node ∧ name ∈ node.pending.names

instance (g : Graph) (holder member : Ref) : Decidable (g.Holds holder member) :=
  decidable_of_iff ((g.deref holder).any (fun node => decide (member ∈ node.closure.refs)) = true)
    (by simp [Holds, Option.any_eq_true])

instance (g : Graph) (r : Ref) (name : Text) : Decidable (g.Awaits r name) :=
  decidable_of_iff ((g.deref r).any (fun node => decide (name ∈ node.pending.names)) = true)
    (by simp [Awaits, Option.any_eq_true])

def Remembers (g : Graph) (r : Ref) (name : Text) : Prop :=
  ∃ node, g.deref r = some node ∧ node.Remembers name

-- The name is in the closure of the sweep, or a node of that name is still in line.
def Coming (g : Graph) (x : Text) (s : Sweep) : Prop :=
  s.closure.has x = true ∨ ∃ w ∈ s.worklist, w.name = x ∧ ∃ other, g.deref w = some other

-- Every reference that waits leads to a node.
def Anchored (g : Graph) : Prop :=
  ∀ r node, g.deref r = some node → ∀ w ∈ node.pending.toList, ∃ other, g.deref w = some other

namespace Step

def handles : Step → List NodeId
  | .create _ => []
  | .link left right | .dependsOn left right | .compare left right => [left, right]
  | .direct node | .transitive node | .pending node => [node]
  | .sort nodes => nodes

def creates : Step → Nat
  | .create _ => 1
  | _ => 0

end Step

-- No step names a node before it is created. The count is that of the nodes so far.
def Proper (count : Nat) : List Step → Prop
  | [] => True
  | first :: steps => (∀ id ∈ first.handles, id < count) ∧ Proper (count + first.creates) steps

instance decidableProper : (count : Nat) → (steps : List Step) → Decidable (Proper count steps)
  | _, [] => isTrue trivial
  | count, first :: steps =>
    have := decidableProper (count + first.creates) steps
    inferInstanceAs (Decidable (_ ∧ _))

variable {edge : Text → Text → Prop} {g after : Graph} {r self source target : Ref} {node : Node}
  {x : Text} {s first : Step} {steps more : List Step} {before next : Sweep}

/-! How many nodes there are. -/

theorem size_update_each (g : Graph) (rs : List Ref) (f : Node → Node) :
    (rs.foldl (fun g r => g.update r f) g).nodes.size = g.nodes.size := by
  induction rs generalizing g with
  | nil => rfl
  | cons r rs ih =>
    rw [List.foldl_cons, ih]
    exact Array.size_modify

theorem Becomes.size (becomes : Becomes g s after) : after.nodes.size = g.nodes.size + s.creates := by
  cases becomes with
  | same old =>
    cases s with
    | create name => exact absurd rfl (old name)
    | _ => rfl
  | create => exact Array.size_push _
  | link found taken added =>
    rw [add_edge_taken found taken]
    exact (size_update_each _ _ _).trans Array.size_modify
  | flatten found =>
    rw [flatten_known found]
    exact (size_update_each _ _ _).trans Array.size_modify

theorem proper_append (proper : Proper g.nodes.size (steps ++ more)) :
    Proper g.nodes.size steps ∧ Proper (g.run steps).1.nodes.size more := by
  induction steps generalizing g with
  | nil => exact ⟨trivial, proper⟩
  | cons first steps ih =>
    obtain ⟨known, proper⟩ := proper
    rw [← (step_becomes g first).size] at proper
    obtain ⟨front, back⟩ := ih proper
    rw [(step_becomes g first).size] at front
    exact ⟨⟨known, front⟩, back⟩

/-! What waits leads to a node, in every session that names no node too early. -/

theorem anchored_empty : Anchored {} := by
  intro r node found
  simp [deref] at found

theorem anchored_create (anchored : g.Anchored) (name : Text) : (g.create name).1.Anchored := by
  intro r node found w waits
  rcases deref_create_cases found with rfl | old
  · simp at waits
  · obtain ⟨other, there⟩ := anchored r node old w waits
    exact ⟨other, deref_create_old there name⟩

theorem anchored_link (anchored : g.Anchored) (found : g.deref source = some node)
    (taken : ¬ Refuses node target) (there : ∃ other, g.deref target = some other) :
    (g.addEdge source target).1.Anchored := by
  intro r after known w waits
  rw [deref_add_edge found taken, Option.map_eq_some_iff] at known
  obtain ⟨old, known, rfl⟩ := known
  have before : ∃ other, g.deref w = some other := by
    rw [Node.hears_pending] at waits
    split at waits
    · rcases Waiting.mem_add _ _ _ waits with rfl | waits
      · exact there
      · exact anchored r old known w waits
    · exact anchored r old known w waits
  obtain ⟨other, there⟩ := before
  exact ⟨_, deref_linked found taken there⟩

theorem anchored_flatten (anchored : g.Anchored) (found : g.deref self = some node) :
    (g.flatten self).1.Anchored := by
  intro r after known w waits
  rw [deref_flatten found, Option.map_eq_some_iff] at known
  obtain ⟨old, known, rfl⟩ := known
  rw [Node.settles_pending] at waits
  split at waits
  · simp at waits
  · obtain ⟨other, there⟩ := anchored r old known w waits
    exact ⟨_, deref_flattened found there⟩

theorem anchored_step (anchored : g.Anchored) (known : ∀ id ∈ first.handles, id < g.nodes.size) :
    (g.step first).1.Anchored := by
  have becomes := step_becomes g first
  generalize (g.step first).1 = after at becomes ⊢
  cases becomes with
  | same old => exact anchored
  | create => exact anchored_create anchored _
  | link found taken added =>
    refine anchored_link anchored found taken ⟨_, deref_handle (Array.getElem?_eq_getElem ?_)⟩
    exact known _ (List.mem_cons_of_mem _ List.mem_cons_self)
  | flatten found => exact anchored_flatten anchored found

theorem anchored_run (anchored : g.Anchored) (proper : Proper g.nodes.size steps) :
    (g.run steps).1.Anchored := by
  induction steps generalizing g with
  | nil => exact anchored
  | cons first steps ih =>
    obtain ⟨known, proper⟩ := proper
    rw [← (step_becomes g first).size] at proper
    exact ih (anchored_step anchored known) proper

/-! What is remembered once is remembered from then on, until an answer has it. -/

theorem Awaits.remembers (awaits : g.Awaits r x) : g.Remembers r x := by
  obtain ⟨node, found, waits⟩ := awaits
  exact ⟨node, found, .inr waits⟩

theorem coming_moves {p : Text} (moves : Sweep.Moves g p before next) (apart : p ≠ x)
    (coming : g.Coming x before) : g.Coming x next := by
  rcases coming with closed | ⟨w, listed, rfl, other, there⟩
  · cases moves with
    | lost | skip => exact .inl closed
    | merge => exact .inl (Sweep.merge_keeps _ _ _ _ _ _ closed)
  · cases moves with
    | lost work missing =>
      rw [work] at listed
      rcases List.mem_cons.mp listed with rfl | listed
      · rw [missing] at there
        cases there
      · exact .inr ⟨w, listed, rfl, other, there⟩
    | skip work _ known =>
      rw [work] at listed
      rcases List.mem_cons.mp listed with rfl | listed
      · exact .inl (known.resolve_left (Ne.symm apart))
      · exact .inr ⟨w, listed, rfl, other, there⟩
    | merge work =>
      rw [work] at listed
      rcases List.mem_cons.mp listed with rfl | listed
      · exact .inl (Sweep.merge_enters ..)
      · refine .inr ⟨w, ?_, rfl, other, there⟩
        rw [Sweep.merge_worklist]
        exact List.mem_append_left _ listed

theorem sweep_takes (anchored : g.Anchored) (found : g.deref r = some node)
    (remembered : node.Remembers x) (apart : r.name ≠ x) :
    (g.sweepOf node).closure.has x = true := by
  have start : g.Coming x { worklist := node.pending.toList, closure := node.closure } := by
    refine remembered.imp_right fun waits => ?_
    obtain ⟨w, listed, named⟩ := (Waiting.mem_names_iff _ x).mp waits
    exact ⟨w, listed, named, anchored r node found w listed⟩
  have coming : g.Coming x (g.sweepOf node) := by
    rw [sweepOf, deref_name found]
    exact Sweep.run_keeps (fun _ _ moves => coming_moves moves apart) start
  rcases coming with closed | ⟨w, listed, _⟩
  · exact closed
  · rw [sweepOf, Sweep.run_done] at listed
    cases listed

theorem remembers_step (anchored : g.Anchored) (remembered : g.Remembers r x) (apart : r.name ≠ x)
    (s : Step) : (g.step s).1.Remembers r x := by
  obtain ⟨node, found, known⟩ := remembered
  have becomes := step_becomes g s
  generalize (g.step s).1 = after at becomes ⊢
  cases becomes with
  | same old => exact ⟨node, found, known⟩
  | create => exact ⟨node, deref_create_old found _, known⟩
  | link here taken added =>
    exact ⟨_, deref_linked here taken found, (Node.hears_remembers ..).mpr (.inl known)⟩
  | flatten here =>
    refine ⟨_, deref_flattened here found, ?_⟩
    rw [Node.settles_remembers]
    split
    · rename_i placed
      obtain ⟨rfl, rfl⟩ := deref_unique here found placed
      exact sweep_takes anchored found known apart
    · exact known

theorem remembers_run (anchored : g.Anchored) (proper : Proper g.nodes.size steps)
    (remembered : g.Remembers r x) (apart : r.name ≠ x) : (g.run steps).1.Remembers r x := by
  induction steps generalizing g with
  | nil => exact remembered
  | cons first steps ih =>
    obtain ⟨known, proper⟩ := proper
    rw [← (step_becomes g first).size] at proper
    exact ih (anchored_step anchored known) proper (remembers_step anchored remembered apart first)

theorem answer_takes (kept : Kept edge g) (anchored : g.Anchored) (remembered : g.Remembers r x)
    (apart : r.name ≠ x) : ∃ groups merges,
      (g.step (.transitive r.id)).2 = .closure groups merges ∧ ∃ group ∈ groups, x ∈ group.2 := by
  obtain ⟨node, found, known⟩ := remembered
  have swept := sweep_takes anchored found known apart
  rw [← (sweeping_done kept found).filled.tidy.mem_names_in] at swept
  obtain ⟨group, listed, inside⟩ := List.mem_flatMap.mp swept
  rw [← deref_ref_to found] at found
  exact ⟨_, _, asked_answer found, _, List.mem_map_of_mem listed, inside⟩

/-! The holder that is told. -/

theorem taken_of_added {source target : NodeId} (added : (g.step (.link source target)).2 = .flag true) :
    ∃ node, g.deref (g.refTo source) = some node ∧ ¬ Refuses node (g.refTo target) := by
  rw [step_link] at added
  cases found : g.deref (g.refTo source) with
  | none => simp [addEdge, found] at added
  | some node =>
    refine ⟨node, rfl, fun refused => ?_⟩
    rw [add_edge_refused found refused] at added
    cases added

-- Of the holders of one name exactly one is told, and it is one that holds the source.
theorem told_once (kept : Kept edge g) (found : g.deref source = some node)
    (taken : ¬ Refuses node target) (holds : g.Holds r source) :
    ∃ told, told.name = r.name ∧ g.Holds told source ∧
      (g.addEdge source target).1.Awaits told target.name ∧
      ∀ other, other.name = r.name → other ≠ told →
        (g.addEdge source target).1.deref other = g.deref other := by
  obtain ⟨holder, known, inside⟩ := holds
  have sound := kept r holder known
  obtain ⟨held, there, named⟩ := sound.members source inside
  rw [found] at there
  cases there
  obtain ⟨told, listed, same⟩ := (NodeSet.mem_iff_ref ..).mp named
  have holds := (kept source node found).holders told listed
  refine ⟨told, same, holds, ?_, ?_⟩
  · obtain ⟨other, there, _⟩ := holds
    refine ⟨_, deref_linked found taken there, ?_⟩
    rw [Node.hears_pending, if_pos (.inr ⟨told, listed, rfl⟩)]
    exact (Waiting.mem_names_add ..).mpr (.inl rfl)
  · intro other named' apart
    rw [deref_add_edge found taken]
    cases there : g.deref other with
    | none => rfl
    | some unheard =>
      -- A node of that name is not the source, for no closure has its own name.
      have deaf : source.id ≠ other.id := by
        intro placed
        obtain ⟨rfl, _⟩ := deref_unique found there placed
        have has := (sound.closure_tidy.has_iff_ref r.name).mpr ⟨source, inside, named'⟩
        rw [sound.closure_apart] at has
        cases has
      have unlisted : ¬ ∃ holder ∈ node.holders.refs, holder.id = other.id := by
        rintro ⟨holder, listed', placed⟩
        obtain ⟨held, known', _⟩ := (kept source node found).holders holder listed'
        obtain ⟨rfl, _⟩ := deref_unique known' there placed
        exact apart (NodeSet.same_name listed' listed (named'.trans same.symm))
      rw [Option.map_some, Node.hears_nothing _ _ _ _ deaf unlisted]

theorem holders_told {x t : NodeId} (proper : Proper 0 (steps ++ .link x t :: more))
    (new : ((run {} steps).1.step (.link x t)).2 = .flag true) :
    let g := (run {} steps).1
    let linked := (g.step (.link x t)).1
    let later := (linked.run more).1
    (∀ holder, g.Holds holder (g.refTo x) → ∃ told, told.name = holder.name ∧
      g.Holds told (g.refTo x) ∧ linked.Awaits told (g.nameOf t) ∧
      ∀ other, other.name = holder.name → other ≠ told → linked.deref other = g.deref other) ∧
    (∀ holder, g.Holds holder (g.refTo x) →
      (∀ other, other.name = holder.name → g.Holds other (g.refTo x) → other = holder) →
      linked.Awaits holder (g.nameOf t)) ∧
    ∀ holder, linked.Awaits holder (g.nameOf t) → holder.name ≠ g.nameOf t →
      ∃ groups merges, (later.step (.transitive holder.id)).2 = .closure groups merges ∧
        ∃ group ∈ groups, g.nameOf t ∈ group.2 := by
  intro g linked later
  -- Which edges there are is of no account here, so any relation will do.
  have kept : Kept (fun _ _ => True) g := kept_run (kept_empty _) fun _ _ _ => trivial
  have keptLinked : Kept (fun _ _ => True) linked := kept_step kept fun _ _ _ _ => trivial
  have keptLater : Kept (fun _ _ => True) later := kept_run keptLinked fun _ _ _ => trivial
  obtain ⟨front, known, back⟩ := proper_append (g := {}) proper
  rw [← (step_becomes g (.link x t)).size] at back
  have anchored : linked.Anchored := anchored_step (anchored_run anchored_empty front) known
  obtain ⟨node, found, taken⟩ := taken_of_added new
  have told := fun holder => told_once (r := holder) kept found taken
  refine ⟨told, ?_, ?_⟩
  · intro holder holds alone
    obtain ⟨first, same, holds, awaits, _⟩ := told holder holds
    rw [← alone first same holds]
    exact awaits
  · intro holder awaits apart
    have remembered := remembers_run anchored back awaits.remembers apart
    exact answer_takes keptLater (anchored_run anchored back) remembered apart

/-! Nodes that share no name are all told; of two that do, one is not. -/

theorem name_at (found : g.deref r = some node) :
    (g.nodes.toList.map (·.name))[r.id]? = some r.name := by
  rw [List.getElem?_map, Array.getElem?_toList, deref_stored found, Option.map_some, deref_name found]

theorem same_of_distinct {twin : Node} (distinct : (g.nodes.toList.map (·.name)).Nodup)
    (found : g.deref r = some node) (found' : g.deref self = some twin) (same : self.name = r.name) :
    self = r := by
  have named := name_at found
  obtain ⟨bound, _⟩ := List.getElem?_eq_some_iff.mp named
  rw [← same, ← name_at found'] at named
  exact Ref.same same.symm ((List.getElem?_inj bound distinct).mp named)

def lone : List Step := [.create "p.X", .create "p.T", .create "p.H", .link 2 0, .transitive 2]

theorem lone_holder_told :
    let g := (run {} lone).1
    let linked := g.step (.link 0 1)
    let later := (linked.1.run [.direct 2]).1
    Proper 0 (lone ++ [.link 0 1, .direct 2]) ∧ linked.2 = .flag true ∧
      g.Holds (g.refTo 2) (g.refTo 0) ∧ linked.1.Awaits (g.refTo 2) (g.nameOf 1) ∧
      ∃ groups merges, (later.step (.transitive 2)).2 = .closure groups merges ∧
        ∃ group ∈ groups, g.nameOf 1 ∈ group.2 := by
  have proper : Proper 0 (lone ++ [.link 0 1, .direct 2]) := by decide
  have new : ((run {} lone).1.step (.link 0 1)).2 = .flag true := by cbv
  have holds : (run {} lone).1.Holds ((run {} lone).1.refTo 2) ((run {} lone).1.refTo 0) :=
    of_decide_eq_true (by cbv)
  have apart : ((run {} lone).1.refTo 2).name ≠ (run {} lone).1.nameOf 1 :=
    of_decide_eq_true (by cbv)
  have distinct : ((run {} lone).1.nodes.toList.map (·.name)).Nodup := of_decide_eq_true (by cbv)
  obtain ⟨_, alone, answered⟩ := holders_told proper new
  have told := alone _ holds fun _ same holds' => by
    obtain ⟨node, found, _⟩ := holds
    obtain ⟨twin, found', _⟩ := holds'
    exact same_of_distinct distinct found found' same
  exact ⟨proper, new, holds, told, answered _ told apart⟩

def twins : List Step :=
  [.create "p.X", .create "p.T", .create "p.H", .create "p.H", .link 2 0, .link 3 0,
    .transitive 2, .transitive 3]

-- The second of the two holders waits for nothing, and its answer stays as it was.
theorem twin_untold :
    Proper 0 (twins ++ [.link 0 1, .transitive 3]) ∧
      ((run {} twins).1.step (.link 0 1)).2 = .flag true ∧
      (run {} twins).1.Holds ((run {} twins).1.refTo 3) ((run {} twins).1.refTo 0) ∧
      ¬ ((run {} twins).1.step (.link 0 1)).1.Awaits ((run {} twins).1.refTo 3)
        ((run {} twins).1.nameOf 1) ∧
      (((run {} twins).1.step (.link 0 1)).1.step (.transitive 3)).2 =
        .closure [("p", ["p.X"])] [] :=
  ⟨by decide, by cbv, of_decide_eq_true (by cbv), of_decide_eq_true (by cbv), by cbv⟩

end ClassAtlas.Graph
