import ClassAtlas.Graph.Basic

/-!
Bringing a closure up to date. A sweep takes the waiting references of one node in order.
Each one that is new enters the closure, the closure it remembers is folded in as it stands,
and what it has waiting itself joins the end of the line. No other node is changed except
that those which entered remember who holds them.
-/

namespace ClassAtlas

-- What entered, and what was folded in, is held with the latest first.
structure Sweep where
  worklist : List Ref
  closure : Buckets
  entered : List Ref := []
  merges : List Ref := []
  pops : Nat := 0

namespace Sweep
variable {g : Graph} {self : Text} {s next : Sweep}

def absorb (s : Sweep) (r : Ref) : Sweep :=
  if s.closure.has r.name then s
  else { s with closure := s.closure.add r, entered := r :: s.entered }

def absorbAll (s : Sweep) (members : List Ref) : Sweep := members.foldl absorb s

-- The members of a remembered closure, without the node that is being brought up to date.
def others (self : Text) (members : List Ref) : List Ref := members.filter (·.name ≠ self)

def merge (s : Sweep) (self : Text) (dep : Ref) (node : Node) (rest : List Ref) : Sweep :=
  let folded := (s.absorb dep).absorbAll (others self node.closure.refs)
  { folded with
    worklist := node.pending.behind rest
    merges := dep :: s.merges
    pops := s.pops + 1 }

def step (g : Graph) (self : Text) (s : Sweep) : Option Sweep :=
  match s.worklist with
  | [] => none
  | dep :: rest =>
    match g.deref dep with
    | none => some { s with worklist := rest, pops := s.pops + 1 }
    | some node =>
      if dep.name = self ∨ s.closure.has dep.name then
        some { s with worklist := rest, pops := s.pops + 1 }
      else some (s.merge self dep node rest)

theorem has_absorb (s : Sweep) (r : Ref) (name : Text) :
    (s.absorb r).closure.has name = (decide (r.name = name) || s.closure.has name) := by
  unfold absorb
  split
  · rename_i known
    by_cases same : r.name = name
    · subst same; simp [known]
    · simp [same]
  · exact Buckets.has_add _ _ _

theorem absorb_all_keeps (s : Sweep) (members : List Ref) (name : Text)
    (known : s.closure.has name = true) : (s.absorbAll members).closure.has name = true := by
  induction members generalizing s with
  | nil => exact known
  | cons r members ih => exact ih (s.absorb r) (by simp [has_absorb, known])

theorem merge_keeps (s : Sweep) (self : Text) (dep : Ref) (node : Node) (rest : List Ref)
    (name : Text) (known : s.closure.has name = true) :
    (s.merge self dep node rest).closure.has name = true :=
  absorb_all_keeps _ _ _ (by simp [has_absorb, known])

theorem merge_enters (s : Sweep) (self : Text) (dep : Ref) (node : Node) (rest : List Ref) :
    (s.merge self dep node rest).closure.has dep.name = true :=
  absorb_all_keeps _ _ _ (by simp [has_absorb])

-- A step drops an entry of the worklist, or marks one more node of the graph.
theorem step_descends (h : step g self s = some next) :
    Prod.Lex (· < ·) (· < ·)
      (g.unmarked next.closure.has, next.worklist.length)
      (g.unmarked s.closure.has, s.worklist.length) := by
  unfold step at h
  split at h
  · cases h
  · rename_i dep rest work
    split at h
    · cases h
      exact .right _ (by simp [work])
    · rename_i node found
      split at h
      · cases h
        exact .right _ (by simp [work])
      · rename_i fresh
        cases h
        rw [not_or] at fresh
        apply Prod.Lex.left
        apply Graph.unmarked_lt (Graph.deref_mem found)
        · rw [Graph.deref_name found]; exact Bool.eq_false_iff.mpr fresh.2
        · rw [Graph.deref_name found]; exact merge_enters ..
        · exact fun name => merge_keeps _ _ _ _ _ name

def run (g : Graph) (self : Text) (s : Sweep) : Sweep :=
  match _more : step g self s with
  | none => s
  | some next => run g self next
  termination_by (g.unmarked s.closure.has, s.worklist.length)
  decreasing_by exact step_descends _more

end Sweep

namespace Graph

def sweepOf (g : Graph) (node : Node) : Sweep :=
  Sweep.run g node.name { worklist := node.pending.toList, closure := node.closure }

def settle (g : Graph) (self : Ref) (closure : Buckets) (entered : List Ref) : Graph :=
  entered.foldl (fun g member => g.update member (·.heldBy self))
    (g.update self fun node => { node with closure, pending := ∅ })

-- The graph afterwards, and the references whose remembered closures were folded in.
def flatten (g : Graph) (self : Ref) : Graph × List Ref :=
  match g.deref self with
  | none => (g, [])
  | some node =>
    let sweep := g.sweepOf node
    (g.settle self sweep.closure sweep.entered, sweep.merges.reverse)

def directGroups (g : Graph) (r : Ref) : List (Text × List Ref) :=
  match g.deref r with
  | none => []
  | some node => node.edges.groups

def closureGroups (g : Graph) (r : Ref) : List (Text × List Ref) :=
  match g.deref r with
  | none => []
  | some node => node.closure.groups

-- Everything a node reaches, after bringing its closure up to date.
def transitiveGroups (g : Graph) (self : Ref) : Graph × List (Text × List Ref) × List Ref :=
  let (after, merges) := g.flatten self
  (after, after.closureGroups self, merges)

def hasPending (g : Graph) (r : Ref) : Bool := (g.deref r).any (·.hasPending)

def dependsOn (g : Graph) (source target : Ref) : Bool :=
  (g.deref source).any (·.dependsOn target.name)

end Graph
end ClassAtlas
