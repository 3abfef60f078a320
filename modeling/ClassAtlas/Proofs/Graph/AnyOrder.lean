import ClassAtlas.Graph.Session
import ClassAtlas.Proofs.Graph.Anyhow
import ClassAtlas.Proofs.Graph.Order
import ClassAtlas.Proofs.Graph.Sweep

/-!
The graph with its sets gone through in any order: the holders that hear of an edge, the members of
a closure that are folded in, and the members of a bucket that is shown. Whatever the orders, each
operation comes to the same graph and the same answer, merges included.
-/

namespace ClassAtlas

open Anyhow (Always Gives through always_pure always_through gives_pure)

-- Nodes are compared by their names.
def Ref.notAfter (r s : Ref) : Bool := Graph.notAfter r.name s.name

theorem Ref.not_after_trans (r s t : Ref) (first : r.notAfter s = true)
    (second : s.notAfter t = true) : r.notAfter t = true :=
  Std.TransCmp.isLE_trans first second

theorem Ref.not_after_total (r s : Ref) : (r.notAfter s || s.notAfter r) = true := by
  have swapped : compare r.name s.name = (compare s.name r.name).swap := Std.OrientedCmp.eq_swap
  rw [notAfter, notAfter, Graph.notAfter, Graph.notAfter, swapped]
  cases compare s.name r.name <;> rfl

namespace Buckets

def groupsAnyhow (b : Buckets) : Anyhow (List (Text × List Ref)) :=
  b.toList.mapM fun entry => do
    let members ← through (NodeSet.refs entry.2)
    return (entry.1, members.mergeSort Ref.notAfter)

-- No two members have the same name, so there is one way to sort them.
theorem sorted_members {s : NodeSet} {members : List Ref} (all : members.Perm s.refs) :
    members.mergeSort Ref.notAfter = s.refs := by
  have ascend := List.pairwise_map.mp s.refs_ascend
  have apart : (s.refs.map (·.name)).Nodup := s.refs_ascend.nodup
  have perm := (List.mergeSort_perm members Ref.notAfter).trans all
  have sorted : (members.mergeSort Ref.notAfter).Pairwise fun r s => r.notAfter s = true :=
    List.pairwise_mergeSort Ref.not_after_trans Ref.not_after_total members
  refine List.Perm.eq_of_pairwise ?_ sorted (ascend.imp fun before => ?_) perm
  · intro r t left right before after
    exact List.inj_on_of_nodup_map apart (perm.subset left) right
      (Std.LawfulEqCmp.eq_of_compare (Std.OrientedCmp.isLE_antisymm before after))
  · rw [Ref.notAfter, Graph.notAfter, (Text.compare_lt_iff _ _).mpr before]
    rfl

theorem groups_anyhow (b : Buckets) : b.groupsAnyhow.Gives b.groups := by
  refine Anyhow.gives_map _ fun entry => ?_
  refine (always_through _).bind fun members all => ?_
  rw [sorted_members all]
  exact gives_pure _

theorem add_swap (b : Buckets) {r t : Ref} (apart : r.name ≠ t.name) :
    (b.add r).add t = (b.add t).add r := by
  have inside : ∀ s : NodeSet, (s.add r).add t = (s.add t).add r := by
    intro s
    refine Std.ExtTreeMap.ext_getElem? fun name => ?_
    simp only [NodeSet.get_add, NodeSet.mem_add]
    by_cases first : r.name = name
    · have other : t.name ≠ name := fun same => apart (first.trans same.symm)
      simp [first, other, Ne.symm other]
    · by_cases second : t.name = name
      · simp [second, first]
      · simp [first, second]
  have found : ∀ (b : Buckets) (r : Ref) (package : Text), (b.add r)[package]? =
      if packageOf r.name = package then some ((b.bucket package).add r) else b[package]? := by
    intro b r package
    rw [add, Std.ExtTreeMap.getElem?_insert]
    by_cases same : packageOf r.name = package
    · simp [same]
    · simp [same]
  refine Std.ExtTreeMap.ext_getElem? fun package => ?_
  simp only [found, bucket_add]
  by_cases first : packageOf r.name = package
  · by_cases second : packageOf t.name = package
    · simp only [first, second, if_true, inside]
    · simp only [first, second, if_true, if_false]
  · simp only [first, if_false]

end Buckets

-- Every node remembers what it reaches in an orderly way.
def Graph.Tidied (g : Graph) : Prop := ∀ r node, g.deref r = some node → node.closure.Tidy

namespace Sweep

-- The members of the closure of `dep` are folded in one by one, as they come.
def mergeVia (s : Sweep) (self : Text) (dep : Ref) (node : Node) (rest members : List Ref) : Sweep :=
  { (s.absorb dep).absorbAll (others self members) with
    worklist := node.pending.behind rest
    merges := dep :: s.merges
    pops := s.pops + 1 }

def stepAnyhow (g : Graph) (self : Text) (s : Sweep) : Anyhow (Option Sweep) :=
  match s.worklist with
  | [] => pure none
  | dep :: rest =>
    match g.deref dep with
    | none => pure (some { s with worklist := rest, pops := s.pops + 1 })
    | some node =>
      if dep.name = self ∨ s.closure.has dep.name then
        pure (some { s with worklist := rest, pops := s.pops + 1 })
      else do
        let members ← through node.closure.refs
        return some (s.mergeVia self dep node rest members)

variable {g : Graph} {self : Text} {s t u next : Sweep} {r : Ref} {members others : List Ref}

theorem step_anyhow_descends (g : Graph) (self : Text) :
    Anyhow.Descends (fun s => (g.unmarked s.closure.has, s.worklist.length))
      (stepAnyhow g self) := by
  intro s
  unfold stepAnyhow
  split
  · exact always_pure fun _ impossible => nomatch impossible
  · rename_i dep rest work
    have dropped : Prod.Lex (· < ·) (· < ·) (g.unmarked s.closure.has, rest.length)
        (g.unmarked s.closure.has, s.worklist.length) := .right _ (by simp [work])
    split
    · exact always_pure fun _ same => by cases same; exact dropped
    · rename_i node found
      split
      · exact always_pure fun _ same => by cases same; exact dropped
      · rename_i fresh
        rw [not_or] at fresh
        refine (always_through _).bind fun members _ => always_pure fun _ same => ?_
        cases same
        apply Prod.Lex.left
        apply Graph.unmarked_lt (Graph.deref_mem found)
        · rw [Graph.deref_name found]
          exact Bool.eq_false_iff.mpr fresh.2
        · rw [Graph.deref_name found]
          exact absorb_all_keeps _ _ _ (by simp [has_absorb])
        · exact fun name known => absorb_all_keeps _ _ _ (by simp [has_absorb, known])

def runAnyhow (g : Graph) (self : Text) : Sweep → Anyhow Sweep :=
  Anyhow.loop _ (stepAnyhow g self) (step_anyhow_descends g self)

/-! Two sweeps that went through their sets in different orders. What entered may have entered in
another order; everything else is the same. -/

structure Akin (s t : Sweep) : Prop where
  worklist : s.worklist = t.worklist
  closure : s.closure = t.closure
  entered : s.entered.Perm t.entered
  merges : s.merges = t.merges

theorem Akin.refl (s : Sweep) : Akin s s := ⟨rfl, rfl, .refl _, rfl⟩

theorem Akin.trans (first : Akin s t) (second : Akin t u) : Akin s u :=
  ⟨first.worklist.trans second.worklist, first.closure.trans second.closure,
    first.entered.trans second.entered, first.merges.trans second.merges⟩

theorem absorb_akin (akin : Akin s t) (r : Ref) : Akin (s.absorb r) (t.absorb r) := by
  unfold absorb
  rw [akin.closure]
  split
  · exact akin
  · exact ⟨akin.worklist, rfl, akin.entered.cons r, akin.merges⟩

theorem absorb_known (known : s.closure.has r.name = true) : s.absorb r = s := if_pos known

theorem absorb_new (new : s.closure.has r.name = false) :
    s.absorb r = { s with closure := s.closure.add r, entered := r :: s.entered } := by
  rw [absorb, new]
  rfl

theorem absorb_swap (s : Sweep) {r t : Ref} (apart : r.name ≠ t.name) :
    Akin ((s.absorb r).absorb t) ((s.absorb t).absorb r) := by
  have forth : (s.absorb r).closure.has t.name = s.closure.has t.name := by
    simp [has_absorb, apart]
  have back : (s.absorb t).closure.has r.name = s.closure.has r.name := by
    simp [has_absorb, apart.symm]
  cases first : s.closure.has r.name with
  | true =>
    rw [absorb_known first, absorb_known (back.trans first)]
    exact .refl _
  | false =>
    cases second : s.closure.has t.name with
    | true =>
      rw [absorb_known second, absorb_known (forth.trans second)]
      exact .refl _
    | false =>
      rw [absorb_new (forth.trans second), absorb_new (back.trans first), absorb_new first,
        absorb_new second]
      exact ⟨rfl, Buckets.add_swap _ apart, .swap .., rfl⟩

theorem absorb_all_akin (akin : Akin s t) (members : List Ref) :
    Akin (s.absorbAll members) (t.absorbAll members) := by
  induction members generalizing s t with
  | nil => exact akin
  | cons r members ih => exact ih (absorb_akin akin r)

-- References of different names can be absorbed in any order.
theorem absorb_all_perm (perm : members.Perm others) (apart : (members.map (·.name)).Nodup)
    (s : Sweep) : Akin (s.absorbAll members) (s.absorbAll others) := by
  induction perm generalizing s with
  | nil => exact .refl s
  | cons r _ ih => exact ih (List.nodup_cons.mp apart).2 (s.absorb r)
  | swap r t members =>
    refine absorb_all_akin (absorb_swap s ?_) members
    simp only [List.map_cons, List.nodup_cons, List.mem_cons, not_or] at apart
    exact apart.1.1
  | trans first _ ih ih' =>
    exact (ih apart s).trans (ih' ((first.map _).nodup_iff.mp apart) s)


theorem merge_akin (akin : Akin s t) (self : Text) (dep : Ref) {node : Node} (rest : List Ref)
    (tidy : node.closure.Tidy) (all : members.Perm node.closure.refs) :
    Akin (s.mergeVia self dep node rest members) (t.merge self dep node rest) := by
  have apart : ((Sweep.others self members).map (·.name)).Nodup := by
    have distinct := (all.map (·.name)).nodup_iff.mpr tidy.names_distinct
    exact distinct.sublist (List.filter_sublist.map _)
  have folded := (absorb_all_akin (absorb_akin akin dep) (Sweep.others self members)).trans
    (absorb_all_perm (all.filter _) apart _)
  exact ⟨rfl, folded.closure, folded.entered, congrArg (dep :: ·) akin.merges⟩

-- Both sweeps have come to their ends, or both go on.
inductive Level : Option Sweep → Option Sweep → Prop where
  | stop : Level none none
  | next {s t : Sweep} (akin : Akin s t) : Level (some s) (some t)

theorem step_akin (akin : Akin s t) (tidy : g.Tidied) (self : Text) :
    (stepAnyhow g self s).Always (Level · (step g self t)) := by
  cases work : t.worklist with
  | nil =>
    simp only [stepAnyhow, step, akin.worklist, work]
    exact always_pure .stop
  | cons dep rest =>
    have dropped : Level (some { s with worklist := rest, pops := s.pops + 1 })
        (some { t with worklist := rest, pops := t.pops + 1 }) :=
      .next ⟨rfl, akin.closure, akin.entered, akin.merges⟩
    cases found : g.deref dep with
    | none =>
      simp only [stepAnyhow, step, akin.worklist, work, found]
      exact always_pure dropped
    | some node =>
      simp only [stepAnyhow, step, akin.worklist, work, found]
      by_cases known : dep.name = self ∨ s.closure.has dep.name = true
      · rw [if_pos known, if_pos (akin.closure ▸ known)]
        exact always_pure dropped
      · rw [if_neg known, if_neg (akin.closure ▸ known)]
        refine (always_through _).bind fun members all => always_pure (.next ?_)
        exact merge_akin akin self dep rest (tidy dep node found) all

theorem run_akin (akin : Akin s t) (tidy : g.Tidied) (self : Text) :
    (runAnyhow g self s).Always (Akin · (run g self t)) := by
  induction t using run.induct g self generalizing s with
  | case1 t stopped =>
    rw [run_stop stopped, runAnyhow, Anyhow.loop_next]
    refine (step_akin akin tidy self).bind fun after level => ?_
    rw [stopped] at level
    cases level
    exact always_pure akin
  | case2 t next stepped ih =>
    rw [run_next stepped, runAnyhow, Anyhow.loop_next]
    refine (step_akin akin tidy self).bind fun after level => ?_
    rw [stepped] at level
    cases level with
    | next akin => exact ih akin

end Sweep

namespace Graph

variable {g : Graph} {r source target : Ref} {node : Node}

def addEdgeAnyhow (g : Graph) (source target : Ref) : Anyhow (Graph × Bool) :=
  match g.deref source with
  | none => pure (g, false)
  | some node =>
    if node.name = target.name ∨ node.edges.has target.name then pure (g, false)
    else do
      let holders ← through node.holders.refs
      return ((g.update source (·.linkTo target)).notify target holders, true)

def flattenAnyhow (g : Graph) (self : Ref) : Anyhow (Graph × List Ref) :=
  match g.deref self with
  | none => pure (g, [])
  | some node => do
    let sweep ← Sweep.runAnyhow g node.name
      { worklist := node.pending.toList, closure := node.closure }
    return (g.settle self sweep.closure sweep.entered, sweep.merges.reverse)

def directGroupsAnyhow (g : Graph) (r : Ref) : Anyhow (List (Text × List Ref)) :=
  match g.deref r with
  | none => pure []
  | some node => node.edges.groupsAnyhow

def closureGroupsAnyhow (g : Graph) (r : Ref) : Anyhow (List (Text × List Ref)) :=
  match g.deref r with
  | none => pure []
  | some node => node.closure.groupsAnyhow

def transitiveGroupsAnyhow (g : Graph) (self : Ref) :
    Anyhow (Graph × List (Text × List Ref) × List Ref) := do
  let (after, merges) ← g.flattenAnyhow self
  let groups ← after.closureGroupsAnyhow self
  return (after, groups, merges)

/-! The same change for many nodes, in any order. -/

theorem update_swap (g : Graph) (r s : Ref) (f : Node → Node) :
    (g.update r f).update s f = (g.update s f).update r f := by
  unfold update
  congr 1
  refine Array.ext_getElem? fun i => ?_
  simp only [Array.getElem?_modify]
  by_cases first : r.id = i
  · by_cases second : s.id = i
    · simp only [first, second]
    · simp only [first, second, if_true, if_false]
  · simp only [first, if_false]

theorem update_each_perm {rs others : List Ref} (perm : rs.Perm others) (g : Graph)
    (f : Node → Node) :
    rs.foldl (fun g r => g.update r f) g = others.foldl (fun g r => g.update r f) g :=
  perm.foldl_eq' (fun r _ s _ g => update_swap g r s f) g

theorem notify_perm {holders others : List Ref} (perm : holders.Perm others) (g : Graph)
    (target : Ref) : g.notify target holders = g.notify target others :=
  update_each_perm perm g _

theorem settle_perm {entered others : List Ref} (perm : entered.Perm others) (g : Graph)
    (self : Ref) (closure : Buckets) :
    g.settle self closure entered = g.settle self closure others :=
  update_each_perm perm _ _

theorem add_edge_anyhow (g : Graph) (source target : Ref) :
    (g.addEdgeAnyhow source target).Gives (g.addEdge source target) := by
  unfold addEdgeAnyhow addEdge
  cases g.deref source with
  | none => exact gives_pure _
  | some node =>
    dsimp only
    split
    · exact gives_pure _
    · refine (always_through _).bind fun holders all => ?_
      rw [notify_perm all]
      exact gives_pure _

theorem flatten_anyhow (tidy : g.Tidied) (self : Ref) :
    (g.flattenAnyhow self).Gives (g.flatten self) := by
  unfold flattenAnyhow flatten
  cases g.deref self with
  | none => exact gives_pure _
  | some node =>
    refine (Sweep.run_akin (.refl _) tidy node.name).bind fun sweep akin => ?_
    rw [akin.closure, akin.merges, settle_perm akin.entered]
    exact gives_pure _

theorem direct_anyhow (g : Graph) (r : Ref) : (g.directGroupsAnyhow r).Gives (g.directGroups r) := by
  unfold directGroupsAnyhow directGroups
  cases g.deref r with
  | none => exact gives_pure _
  | some node => exact Buckets.groups_anyhow _

theorem closure_anyhow (g : Graph) (r : Ref) :
    (g.closureGroupsAnyhow r).Gives (g.closureGroups r) := by
  unfold closureGroupsAnyhow closureGroups
  cases g.deref r with
  | none => exact gives_pure _
  | some node => exact Buckets.groups_anyhow _

theorem transitive_anyhow (tidy : g.Tidied) (self : Ref) :
    (g.transitiveGroupsAnyhow self).Gives (g.transitiveGroups self) :=
  (flatten_anyhow tidy self).bind ((closure_anyhow _ self).bind (gives_pure _))

/-! The closures stay tidy. -/

theorem tidied_empty : Tidied {} := by
  intro r node found
  simp [deref] at found

theorem tidied_create (tidy : g.Tidied) (name : Text) : (g.create name).1.Tidied := by
  intro r node found
  rcases deref_create_cases found with rfl | old
  · exact Buckets.tidy_empty
  · exact tidy r node old

theorem tidied_add_edge (tidy : g.Tidied) (source target : Ref) :
    (g.addEdge source target).1.Tidied := by
  cases known : g.deref source with
  | none =>
    have same : g.addEdge source target = (g, false) := by rw [addEdge, known]
    rw [same]
    exact tidy
  | some node =>
    by_cases refused : Refuses node target
    · rw [add_edge_refused known refused]
      exact tidy
    · intro r after found
      rw [deref_add_edge known refused, Option.map_eq_some_iff] at found
      obtain ⟨before, found, rfl⟩ := found
      rw [Node.hears_closure]
      exact tidy r before found

theorem sweep_tidy {self : Text} {s : Sweep} (start : s.closure.Tidy) :
    (Sweep.run g self s).closure.Tidy := by
  refine Sweep.run_keeps (P := fun s => s.closure.Tidy) ?_ start
  intro s next moves given
  cases moves with
  | lost | skip => exact given
  | merge => exact Sweep.merge_tidy given

theorem tidied_flatten (tidy : g.Tidied) (self : Ref) : (g.flatten self).1.Tidied := by
  cases known : g.deref self with
  | none =>
    have same : g.flatten self = (g, []) := by rw [flatten, known]
    rw [same]
    exact tidy
  | some node =>
    intro r after found
    rw [deref_flatten known, Option.map_eq_some_iff] at found
    obtain ⟨before, found, rfl⟩ := found
    rw [Node.settles_closure]
    split
    · exact sweep_tidy (tidy self node known)
    · exact tidy r before found

/-! Sessions on free-standing nodes. -/

def stepAnyhow (g : Graph) : Step → Anyhow (Graph × Answer)
  | .link source target => do
    let (g, added) ← g.addEdgeAnyhow (g.refTo source) (g.refTo target)
    return (g, .flag added)
  | .direct node => do
    let groups ← g.directGroupsAnyhow (g.refTo node)
    return (g, .groups (groupNames groups))
  | .transitive node => do
    let (g, groups, merges) ← g.transitiveGroupsAnyhow (g.refTo node)
    return (g, .closure (groupNames groups) (merges.map (·.name)))
  | other => pure (g.step other)

def runAnyhow (g : Graph) : List Step → Anyhow (Graph × List Answer)
  | [] => pure (g, [])
  | first :: steps => do
    let (g, answer) ← g.stepAnyhow first
    let (g, answers) ← g.runAnyhow steps
    return (g, answer :: answers)

theorem tidied_step (tidy : g.Tidied) (s : Step) : (g.step s).1.Tidied := by
  cases s with
  | create name => exact tidied_create tidy name
  | link source target => exact tidied_add_edge tidy _ _
  | transitive node => exact tidied_flatten tidy _
  | _ => exact tidy

theorem step_anyhow (tidy : g.Tidied) (s : Step) : (g.stepAnyhow s).Gives (g.step s) := by
  cases s with
  | link source target => exact (add_edge_anyhow g _ _).bind (gives_pure _)
  | direct node => exact (direct_anyhow g _).bind (gives_pure _)
  | transitive node => exact (transitive_anyhow tidy _).bind (gives_pure _)
  | _ => exact gives_pure _

theorem run_anyhow (tidy : g.Tidied) (steps : List Step) : (g.runAnyhow steps).Gives (g.run steps) := by
  induction steps generalizing g with
  | nil => exact gives_pure _
  | cons first steps ih =>
    exact (step_anyhow tidy first).bind ((ih (tidied_step tidy first)).bind (gives_pure _))

end Graph
end ClassAtlas
