import ClassAtlas.Proofs.Graph.Sweep

/-!
A sweep that writes as it goes. What it takes in, it writes at once to the closure it fills and to
the holders of what it took; and what it reads of other nodes, it reads from the graph that it is
writing to. Pass by pass this comes to what a sweep finds that reads the graph as it was before and
writes at its end.
-/

namespace ClassAtlas

-- What comes of so many steps, if there are as many.
def passes {σ : Type} (step : σ → Option σ) : Nat → σ → Option σ
  | 0, s => some s
  | count + 1, s => (step s).bind (passes step count)

section
variable {σ τ : Type} {step : σ → Option σ} {other : τ → Option τ} {shown : σ → τ} {P : σ → Prop}
  {s t : σ} {count : Nat}

-- Two loops that go side by side.
theorem passes_map (square : ∀ s, other (shown s) = (step s).map shown) (count : Nat) (s : σ) :
    passes other count (shown s) = (passes step count s).map shown := by
  induction count generalizing s with
  | zero => rfl
  | succ count ih =>
    rw [passes, passes, square]
    cases step s with
    | none => rfl
    | some next => exact ih next

theorem passes_keep (kept : ∀ s next, step s = some next → P s → P next) (start : P s)
    (come : passes step count s = some t) : P t := by
  induction count generalizing s with
  | zero =>
    cases come
    exact start
  | succ count ih =>
    obtain ⟨next, stepped, come⟩ := Option.bind_eq_some_iff.mp come
    exact ih (kept s next stepped start) come

end

namespace Sweep

theorem moves_pops {g : Graph} {self : Text} {s next : Sweep} (moves : Moves g self s next) :
    next.pops = s.pops + 1 := by
  cases moves <;> rfl

-- A sweep comes to its end after as many steps as it takes references from the line.
theorem run_passes (g : Graph) (self : Text) (s : Sweep) : ∃ count,
    passes (step g self) count s = some (run g self s) ∧ (run g self s).pops = s.pops + count := by
  induction s using run.induct g self with
  | case1 s stopped =>
    rw [run_stop stopped]
    exact ⟨0, rfl, rfl⟩
  | case2 s next stepped ih =>
    obtain ⟨count, come, pops⟩ := ih
    rw [run_next stepped]
    refine ⟨count + 1, ?_, ?_⟩
    · rw [passes, stepped, Option.bind_some, come]
    · rw [pops, moves_pops (step_moves stepped), Nat.add_assoc, Nat.add_comm 1]

end Sweep

namespace Node

def takes (n : Node) (member : Ref) : Node := { n with closure := n.closure.add member }

end Node

namespace Graph

def members (g : Graph) (r : Ref) : List Ref := ((g.deref r).map (·.closure.refs)).getD []

def waiting (g : Graph) (r : Ref) : List Ref := ((g.deref r).map (·.pending.toList)).getD []

-- Whether the member is new to the closure; if so, both nodes are told.
def absorb (g : Graph) (self member : Ref) : Graph × Bool :=
  if (g.deref self).any (·.closure.has member.name) then (g, false)
  else ((g.update self (·.takes member)).update member (·.heldBy self), true)

def absorbAll (g : Graph) (self : Ref) (members : List Ref) : Graph :=
  members.foldl (fun g member => (g.absorb self member).1) g

end Graph

-- The latest merge comes first.
structure InPlace where
  graph : Graph
  worklist : List Ref
  merges : List Ref := []

namespace InPlace

-- What waits is put in line and no longer waits, before anything is taken in.
def start (g : Graph) (self : Ref) : InPlace where
  graph := g.update self fun node => { node with pending := ∅ }
  worklist := g.waiting self

def drop (s : InPlace) (rest : List Ref) : InPlace := { s with worklist := rest }

-- The closure of `dep`, which has just been taken in, is folded in as it stands in that graph; then
-- what waits there is put behind the others.
def merge (s : InPlace) (self dep : Ref) (rest : List Ref) (graph : Graph) : InPlace :=
  let folded := graph.absorbAll self (Sweep.others self.name (graph.members dep))
  { graph := folded, worklist := rest ++ folded.waiting dep, merges := dep :: s.merges }

-- The head leaves the line. It is passed over if it has the name of the node itself, is in the
-- closure already, or leads to no node.
def step (self : Ref) (s : InPlace) : Option InPlace :=
  match s.worklist with
  | [] => none
  | dep :: rest =>
    if dep.name = self.name ∨ (s.graph.deref dep).isNone then some (s.drop rest)
    else
      match s.graph.absorb self dep with
      | (_, false) => some (s.drop rest)
      | (graph, true) => some (s.merge self dep rest graph)

-- What a sweep has found so far, written to the graph that it reads.
def written (g : Graph) (self : Ref) (s : Sweep) : InPlace where
  graph := g.settle self s.closure s.entered
  worklist := s.worklist
  merges := s.merges

end InPlace

namespace Graph
variable {g h : Graph} {self r : Ref} {node known : Node}

theorem same_of_deref (same : ∀ r, g.deref r = h.deref r) : g = h := by
  have stored : ∀ {g h : Graph}, (∀ r, g.deref r = h.deref r) →
      ∀ {id : NodeId} {node : Node}, g.nodes[id]? = some node → h.nodes[id]? = some node := by
    intro g h same id node found
    have there : g.deref ⟨id, node.name⟩ = some node := by simp [deref, found]
    exact deref_stored ((same _).symm.trans there)
  have nodes : g.nodes = h.nodes := by
    refine Array.ext_getElem? fun id => Option.ext fun node => ?_
    exact ⟨stored same, stored fun r => (same r).symm⟩
  exact congrArg Graph.mk nodes

theorem waiting_found (found : g.deref r = some node) : g.waiting r = node.pending.toList := by
  rw [waiting, found, Option.map_some, Option.getD_some]

theorem members_found (found : g.deref r = some node) : g.members r = node.closure.refs := by
  rw [members, found, Option.map_some, Option.getD_some]

-- One more that enters, written to both nodes.
theorem settle_enters (g : Graph) (self r : Ref) (closure : Buckets) (entered : List Ref) :
    (((g.settle self closure entered).update self (·.takes r)).update r (·.heldBy self)) =
      g.settle self (closure.add r) (r :: entered) := by
  refine same_of_deref fun t => ?_
  rw [deref_update (f := (·.heldBy self)) _ r t (fun _ => rfl),
    deref_update (f := (·.takes r)) _ self t (fun _ => rfl), deref_settle, deref_settle,
    Option.map_map, Option.map_map]
  congr 1
  funext node
  simp only [Function.comp_apply, Node.settles, List.mem_cons, exists_eq_or_imp]
  by_cases swept : self.id = t.id <;> by_cases first : r.id = t.id <;>
    by_cases earlier : ∃ member ∈ entered, member.id = t.id <;>
    simp [swept, first, earlier, Node.takes, Node.heldBy, NodeSet.add_again]

theorem absorb_settled (found : g.deref self = some node) (s : Sweep) (r : Ref) :
    (g.settle self s.closure s.entered).absorb self r =
      (g.settle self (s.absorb r).closure (s.absorb r).entered, !s.closure.has r.name) := by
  obtain ⟨settled, there, closure, _⟩ := settled_own found s.closure s.entered
  rw [absorb, there, Option.any_some, closure, Sweep.absorb]
  cases s.closure.has r.name with
  | true => rfl
  | false => exact congrArg (·, true) (settle_enters g self r s.closure s.entered)

theorem absorb_all_settled (found : g.deref self = some node) (s : Sweep) (members : List Ref) :
    (g.settle self s.closure s.entered).absorbAll self members =
      g.settle self (s.absorbAll members).closure (s.absorbAll members).entered := by
  induction members generalizing s with
  | nil => rfl
  | cons r members ih =>
    rw [absorbAll, List.foldl_cons, absorb_settled found]
    exact ih (s.absorb r)

end Graph

namespace InPlace
variable {g : Graph} {self dep : Ref} {node known : Node} {rest : List Ref} {moment : InPlace}

theorem start_written (found : g.deref self = some node) : start g self =
    written g self { worklist := node.pending.toList, closure := node.closure } := by
  have graph : g.update self (fun node => { node with pending := ∅ }) =
      g.settle self node.closure [] := by
    refine Graph.same_of_deref fun r => ?_
    rw [Graph.deref_update (f := fun node => { node with pending := ∅ }) g self r (fun _ => rfl),
      Graph.deref_settle]
    cases there : g.deref r with
    | none => rfl
    | some known =>
      by_cases placed : self.id = r.id
      · obtain ⟨rfl, rfl⟩ := Graph.deref_unique found there placed
        simp [Node.settles]
      · simp [Node.settles, placed]
  rw [start, graph, Graph.waiting_found found]
  rfl

theorem merge_written (found : g.deref self = some node) (found' : g.deref dep = some known)
    (other : dep.name ≠ self.name) (s : Sweep) (rest : List Ref) :
    (written g self s).merge self dep rest
        (g.settle self (s.absorb dep).closure (s.absorb dep).entered) =
      written g self (s.merge self.name dep known rest) := by
  have apart : dep ≠ self := fun same => other (congrArg Ref.name same)
  -- The merged node is read twice: its closure before that is folded in, what waits there after.
  let merged := s.merge self.name dep known rest
  obtain ⟨first, there, closure, _⟩ :=
    Graph.settled_other found found' apart (s.absorb dep).closure (s.absorb dep).entered
  obtain ⟨last, there', _, pending⟩ :=
    Graph.settled_other found found' apart merged.closure merged.entered
  have folded := Graph.absorb_all_settled found (s.absorb dep)
    (Sweep.others self.name known.closure.refs)
  have waiting := (Graph.waiting_found there').trans (congrArg Waiting.toList pending)
  simp only [merge, Graph.members_found there, closure, folded, written, Sweep.merge_worklist]
  exact congrArg (InPlace.mk _ · _) (congrArg (rest ++ ·) waiting)

theorem step_stops (idle : moment.worklist = []) : step self moment = none := by
  rw [step, idle]

theorem step_drops (work : moment.worklist = dep :: rest)
    (stale : dep.name = self.name ∨ moment.graph.deref dep = none ∨
      (moment.graph.absorb self dep).2 = false) :
    step self moment = some (moment.drop rest) := by
  rw [step, work]
  dsimp only
  split
  · rfl
  · rename_i useful
    rw [not_or, Option.isNone_iff_eq_none] at useful
    have same := (stale.resolve_left useful.1).resolve_left useful.2
    split
    · rfl
    · rename_i absorbed
      rw [absorbed] at same
      cases same

theorem step_merges {graph : Graph} (work : moment.worklist = dep :: rest)
    (there : moment.graph.deref dep = some known) (other : dep.name ≠ self.name)
    (new : moment.graph.absorb self dep = (graph, true)) :
    step self moment = some (moment.merge self dep rest graph) := by
  rw [step, work]
  dsimp only
  rw [new, if_neg]
  simp [other, there]

-- A step that writes at once, and a step that reads the graph as it was.
theorem step_written (found : g.deref self = some node) (s : Sweep) :
    step self (written g self s) = (Sweep.step g self.name s).map (written g self) := by
  cases stepped : Sweep.step g self.name s with
  | none => exact step_stops (Sweep.step_none stepped)
  | some next =>
    cases Sweep.step_moves stepped with
    | @lost dep rest work missing =>
      refine step_drops work (.inr (.inl ?_))
      rw [written, Graph.deref_settle, missing, Option.map_none]
    | @skip dep rest known work found' stale =>
      refine step_drops work (stale.imp_right fun has => .inr ?_)
      rw [written, Graph.absorb_settled found, has]
      rfl
    | @merge dep rest known work found' other fresh =>
      have read := Graph.absorb_settled found s dep
      have there := Graph.deref_settle g self dep s.closure s.entered
      rw [fresh] at read
      rw [found', Option.map_some] at there
      rw [step_merges work there other read, merge_written found found' other, Option.map_some]

-- At any pass, what has been written is what the sweep has found by then.
theorem passes_written (found : g.deref self = some node) (count : Nat) :
    passes (step self) count (start g self) =
      (passes (Sweep.step g self.name) count
        { worklist := node.pending.toList, closure := node.closure }).map (written g self) := by
  rw [start_written found]
  exact passes_map (step_written found) count _

-- The loop ends, and it leaves the graph that the sweep leaves.
theorem passes_done (found : g.deref self = some node) :
    passes (step self) (g.sweepOf node).pops (start g self) =
      some (written g self (g.sweepOf node)) := by
  obtain ⟨count, come, pops⟩ := Sweep.run_passes g self.name
    { worklist := node.pending.toList, closure := node.closure }
  have swept : g.sweepOf node = Sweep.run g self.name
      { worklist := node.pending.toList, closure := node.closure } := by
    rw [Graph.sweepOf, Graph.deref_name found]
  rw [swept, pops, Nat.zero_add, passes_written found, come, Option.map_some]

theorem written_done (found : g.deref self = some node) :
    (written g self (g.sweepOf node)).graph = (g.flatten self).1 := by
  rw [Graph.flatten_known found, written]

end InPlace
end ClassAtlas
