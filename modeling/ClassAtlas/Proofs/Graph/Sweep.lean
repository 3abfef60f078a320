import ClassAtlas.Proofs.Graph.Buckets
import ClassAtlas.Proofs.Graph.Frame

/-!
One sweep, step by step. A step drops the head of the worklist or folds it in; what every step
keeps, the whole run keeps, and a run ends with an empty worklist.
-/

namespace ClassAtlas.Sweep

-- The head of the worklist is dropped, or is merged because it is neither the node itself nor
-- a member of its closure.
inductive Moves (g : Graph) (self : Text) : Sweep → Sweep → Prop where
  | lost {s : Sweep} {dep : Ref} {rest : List Ref} (work : s.worklist = dep :: rest)
      (missing : g.deref dep = none) :
      Moves g self s { s with worklist := rest, pops := s.pops + 1 }
  | skip {s : Sweep} {dep : Ref} {rest : List Ref} {node : Node}
      (work : s.worklist = dep :: rest) (found : g.deref dep = some node)
      (known : dep.name = self ∨ s.closure.has dep.name = true) :
      Moves g self s { s with worklist := rest, pops := s.pops + 1 }
  | merge {s : Sweep} {dep : Ref} {rest : List Ref} {node : Node}
      (work : s.worklist = dep :: rest) (found : g.deref dep = some node)
      (other : dep.name ≠ self) (fresh : s.closure.has dep.name = false) :
      Moves g self s (s.merge self dep node rest)

variable {g : Graph} {self name : Text} {s next : Sweep} {dep r : Ref} {node : Node}
  {rest members : List Ref} {before : Buckets}

theorem step_moves (stepped : step g self s = some next) : Moves g self s next := by
  unfold step at stepped
  split at stepped
  · cases stepped
  · rename_i dep rest work
    split at stepped
    · rename_i missing
      cases stepped
      exact .lost work missing
    · rename_i node found
      split at stepped
      · rename_i known
        cases stepped
        exact .skip work found known
      · rename_i fresh
        cases stepped
        rw [not_or, Bool.not_eq_true] at fresh
        exact .merge work found fresh.1 fresh.2

theorem step_none (stopped : step g self s = none) : s.worklist = [] := by
  unfold step at stopped
  split at stopped
  · assumption
  · split at stopped
    · cases stopped
    · split at stopped <;> cases stopped

theorem run_stop (stopped : step g self s = none) : run g self s = s := by
  rw [run]
  split
  · rfl
  · rename_i next stepped
    rw [stopped] at stepped
    cases stepped

theorem run_next (stepped : step g self s = some next) : run g self s = run g self next := by
  rw [run]
  split
  · rename_i stopped
    rw [stopped] at stepped
    cases stepped
  · rename_i other stepped'
    rw [stepped] at stepped'
    cases stepped'
    rfl

theorem run_keeps {P : Sweep → Prop} (kept : ∀ s next, Moves g self s next → P s → P next)
    (start : P s) : P (run g self s) := by
  induction s using run.induct g self with
  | case1 s stopped =>
    rw [run_stop stopped]
    exact start
  | case2 s next stepped ih =>
    rw [run_next stepped]
    exact ih (kept s next (step_moves stepped) start)

theorem run_done (g : Graph) (self : Text) (s : Sweep) : (run g self s).worklist = [] := by
  induction s using run.induct g self with
  | case1 s stopped =>
    rw [run_stop stopped]
    exact step_none stopped
  | case2 s next stepped ih =>
    rw [run_next stepped]
    exact ih

theorem mem_others : r ∈ others self members ↔ r ∈ members ∧ r.name ≠ self := by
  simp [others]

theorem absorb_tidy (tidy : s.closure.Tidy) (r : Ref) : (s.absorb r).closure.Tidy := by
  unfold absorb
  split
  · exact tidy
  · exact tidy.add r

-- A reference that is held or has entered was so before, or is the one in hand.
theorem absorb_origin (tidy : s.closure.Tidy) :
    (∀ known ∈ (s.absorb r).closure.refs, known = r ∨ known ∈ s.closure.refs) ∧
      ∀ known ∈ (s.absorb r).entered, known = r ∨ known ∈ s.entered := by
  unfold absorb
  split
  · exact ⟨fun _ => .inr, fun _ => .inr⟩
  · exact ⟨fun _ => tidy.mem_refs_add r, fun _ => List.mem_cons.mp⟩

-- What the closure has is what it had at the start and what entered since.
def Grown (before : Buckets) (s : Sweep) : Prop :=
  ∀ name, s.closure.has name = true ↔ before.has name = true ∨ ∃ r ∈ s.entered, r.name = name

theorem absorb_grown (grown : Grown before s) (r : Ref) : Grown before (s.absorb r) := by
  intro name
  unfold absorb
  split
  · exact grown name
  · rw [Buckets.has_add, Bool.or_eq_true, decide_eq_true_iff, grown name]
    simp only [List.mem_cons, exists_eq_or_imp]
    exact or_left_comm

-- What entered was not there at the start.
def Novel (before : Buckets) (s : Sweep) : Prop :=
  ∀ r ∈ s.entered, before.has r.name = false

theorem absorb_novel (grown : Grown before s) (novel : Novel before s) (r : Ref) :
    Novel before (s.absorb r) := by
  unfold absorb
  split
  · exact novel
  · rename_i new
    intro known member
    rcases List.mem_cons.mp member with rfl | old
    · exact Bool.eq_false_iff.mpr fun held => new ((grown known.name).mpr (.inl held))
    · exact novel known old

-- What the closure holds, it held at the start or it entered since.
structure Filled (before : Buckets) (s : Sweep) : Prop where
  tidy : s.closure.Tidy
  refs : ∀ r, r ∈ s.closure.refs ↔ r ∈ before.refs ∨ r ∈ s.entered

theorem absorb_filled (filled : Filled before s) (r : Ref) : Filled before (s.absorb r) := by
  unfold absorb
  split
  · exact filled
  · rename_i new
    refine ⟨filled.tidy.add r, fun known => ?_⟩
    rw [filled.tidy.mem_refs_new (Bool.eq_false_iff.mpr new), filled.refs known, List.mem_cons]
    exact or_left_comm

theorem absorb_all_tidy (tidy : s.closure.Tidy) (members : List Ref) :
    (s.absorbAll members).closure.Tidy := by
  induction members generalizing s with
  | nil => exact tidy
  | cons r members ih => exact ih (absorb_tidy tidy r)

theorem absorb_all_origin (tidy : s.closure.Tidy) (members : List Ref) :
    (∀ known ∈ (s.absorbAll members).closure.refs, known ∈ members ∨ known ∈ s.closure.refs) ∧
      ∀ known ∈ (s.absorbAll members).entered, known ∈ members ∨ known ∈ s.entered := by
  induction members generalizing s with
  | nil => exact ⟨fun _ => .inr, fun _ => .inr⟩
  | cons r members ih =>
    obtain ⟨held, entered⟩ := ih (absorb_tidy tidy r)
    obtain ⟨heldFirst, enteredFirst⟩ := absorb_origin (r := r) tidy
    constructor
    · intro known member
      rcases held known member with later | first
      · exact .inl (List.mem_cons_of_mem _ later)
      · rcases heldFirst known first with rfl | old
        · exact .inl List.mem_cons_self
        · exact .inr old
    · intro known member
      rcases entered known member with later | first
      · exact .inl (List.mem_cons_of_mem _ later)
      · rcases enteredFirst known first with rfl | old
        · exact .inl List.mem_cons_self
        · exact .inr old

theorem absorb_all_grown (grown : Grown before s) (members : List Ref) :
    Grown before (s.absorbAll members) := by
  induction members generalizing s with
  | nil => exact grown
  | cons r members ih => exact ih (absorb_grown grown r)

theorem absorb_all_novel (grown : Grown before s) (novel : Novel before s) (members : List Ref) :
    Novel before (s.absorbAll members) := by
  induction members generalizing s with
  | nil => exact novel
  | cons r members ih => exact ih (absorb_grown grown r) (absorb_novel grown novel r)

theorem absorb_all_filled (filled : Filled before s) (members : List Ref) :
    Filled before (s.absorbAll members) := by
  induction members generalizing s with
  | nil => exact filled
  | cons r members ih => exact ih (absorb_filled filled r)

theorem has_absorb_all (s : Sweep) (members : List Ref) (name : Text) :
    (s.absorbAll members).closure.has name = true ↔
      s.closure.has name = true ∨ ∃ r ∈ members, r.name = name := by
  induction members generalizing s with
  | nil => simp [absorbAll]
  | cons r members ih =>
    have whole : s.absorbAll (r :: members) = (s.absorb r).absorbAll members := rfl
    rw [whole, ih, has_absorb, Bool.or_eq_true, decide_eq_true_iff]
    simp only [List.mem_cons, exists_eq_or_imp]
    rw [or_assoc]
    exact or_left_comm

theorem merge_worklist : (s.merge self dep node rest).worklist = rest ++ node.pending.toList :=
  Waiting.behind_eq _ _

theorem merge_tidy (tidy : s.closure.Tidy) : (s.merge self dep node rest).closure.Tidy :=
  absorb_all_tidy (absorb_tidy tidy dep) _

theorem merge_grown (grown : Grown before s) : Grown before (s.merge self dep node rest) :=
  absorb_all_grown (absorb_grown grown dep) _

theorem merge_novel (grown : Grown before s) (novel : Novel before s) :
    Novel before (s.merge self dep node rest) :=
  absorb_all_novel (absorb_grown grown dep) (absorb_novel grown novel dep) _

theorem merge_filled (filled : Filled before s) : Filled before (s.merge self dep node rest) := by
  have folded := absorb_all_filled (absorb_filled filled dep) (others self node.closure.refs)
  exact ⟨folded.tidy, folded.refs⟩

theorem merge_origin (self : Text) (dep : Ref) (node : Node) (rest : List Ref)
    (tidy : s.closure.Tidy) :
    (∀ known ∈ (s.merge self dep node rest).closure.refs,
      known = dep ∨ known ∈ node.closure.refs ∨ known ∈ s.closure.refs) ∧
    ∀ known ∈ (s.merge self dep node rest).entered,
      known = dep ∨ known ∈ node.closure.refs ∨ known ∈ s.entered := by
  obtain ⟨held, entered⟩ := absorb_all_origin tidy (dep :: others self node.closure.refs)
  constructor
  · intro known member
    rcases held known member with new | old
    · rcases List.mem_cons.mp new with rfl | folded
      · exact .inl rfl
      · exact .inr (.inl (mem_others.mp folded).1)
    · exact .inr (.inr old)
  · intro known member
    rcases entered known member with new | old
    · rcases List.mem_cons.mp new with rfl | folded
      · exact .inl rfl
      · exact .inr (.inl (mem_others.mp folded).1)
    · exact .inr (.inr old)

theorem has_merge (s : Sweep) (self : Text) (dep : Ref) (rest : List Ref)
    (tidy : node.closure.Tidy) (name : Text) :
    (s.merge self dep node rest).closure.has name = true ↔
      name = dep.name ∨ (name ≠ self ∧ node.closure.has name = true) ∨
        s.closure.has name = true := by
  have folded := has_absorb_all s (dep :: others self node.closure.refs) name
  refine folded.trans ?_
  simp only [List.mem_cons, exists_eq_or_imp, mem_others, tidy.has_iff_ref name]
  constructor
  · intro given
    rcases given with old | rfl | ⟨r, ⟨member, other⟩, rfl⟩
    · exact .inr (.inr old)
    · exact .inl rfl
    · exact .inr (.inl ⟨other, r, member, rfl⟩)
  · intro given
    rcases given with rfl | ⟨other, r, member, rfl⟩ | old
    · exact .inr (.inl rfl)
    · exact .inr (.inr ⟨r, ⟨member, other⟩, rfl⟩)
    · exact .inl old

end ClassAtlas.Sweep
