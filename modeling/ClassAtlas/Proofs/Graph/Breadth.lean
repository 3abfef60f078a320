import ClassAtlas.Text

/-!
Breadth-first search over links from name to name. A name joins the end of the line when it is
first met; the name at the head leaves the line, and its targets are met in the order of the
links.
-/

namespace ClassAtlas

def targets (links : List (Text × Text)) (source : Text) : List Text :=
  (links.filter fun link => link.1 = source).map (·.2)

theorem mem_targets {links : List (Text × Text)} {source target : Text} :
    target ∈ targets links source ↔ (source, target) ∈ links := by
  simp [targets]

-- What has been met, in the order in which it was, and what of it waits in line.
structure Breadth where
  met : List Text
  line : List Text

namespace Breadth
variable {links : List (Text × Text)} {s next : Breadth} {name : Text} {names met : List Text}

def meet (s : Breadth) (name : Text) : Breadth :=
  if s.met.contains name then s else ⟨s.met ++ [name], s.line ++ [name]⟩

def meetAll (s : Breadth) (names : List Text) : Breadth := names.foldl meet s

def step (links : List (Text × Text)) (s : Breadth) : Option Breadth :=
  match s.line with
  | [] => none
  | name :: line => some ({ s with line }.meetAll (targets links name))

def unmet (links : List (Text × Text)) (met : List Text) : List (Text × Text) :=
  links.filter fun link => !met.contains link.2

-- What is left to do: links to names that have not been met, and names in line.
def load (links : List (Text × Text)) (s : Breadth) : Nat :=
  (unmet links s.met).length + s.line.length

theorem meet_load (linked : ∃ link ∈ links, link.2 = name) :
    load links (s.meet name) ≤ load links s := by
  unfold meet
  split
  · exact Nat.le_refl _
  · rename_i new
    obtain ⟨link, listed, rfl⟩ := linked
    rw [List.contains_iff_mem] at new
    have fewer : unmet links (s.met ++ [link.2]) =
        (unmet links s.met).filter fun other => other.2 ≠ link.2 := by
      simp [unmet, List.filter_filter, Bool.and_comm]
    have shorter : (unmet links (s.met ++ [link.2])).length < (unmet links s.met).length := by
      rw [fewer, List.length_filter_lt_length_iff_exists]
      exact ⟨link, by simp [unmet, listed, new], by simp⟩
    simp only [load, List.length_append, List.length_singleton]
    omega

theorem meet_all_load (linked : ∀ name ∈ names, ∃ link ∈ links, link.2 = name) :
    load links (s.meetAll names) ≤ load links s := by
  induction names generalizing s with
  | nil => exact Nat.le_refl _
  | cons name names ih =>
    have first : load links (s.meet name) ≤ load links s := meet_load (linked name List.mem_cons_self)
    exact Nat.le_trans (ih fun other among => linked other (.tail _ among)) first

-- The head leaves the line, and what joins it has been among the links to unmet names.
theorem step_descends (stepped : step links s = some next) : load links next < load links s := by
  unfold step at stepped
  split at stepped
  · cases stepped
  · rename_i name line split
    cases stepped
    have linked : ∀ target ∈ targets links name, ∃ link ∈ links, link.2 = target :=
      fun target member => ⟨(name, target), mem_targets.mp member, rfl⟩
    have left := meet_all_load (s := { s with line }) linked
    have whole : load links s = load links { s with line } + 1 := by simp [load, split]; omega
    omega

def run (links : List (Text × Text)) (s : Breadth) : Breadth :=
  match _more : step links s with
  | none => s
  | some next => run links next
  termination_by load links s
  decreasing_by exact step_descends _more

-- What is found from a name, in the order of discovery, without the name itself.
def order (links : List (Text × Text)) (origin : Text) : List Text :=
  (run links ⟨[origin], [origin]⟩).met.tail

theorem run_stop (stopped : step links s = none) : run links s = s := by
  rw [run]
  split
  · rfl
  · rename_i next stepped
    simp [stopped] at stepped

theorem run_next (stepped : step links s = some next) : run links s = run links next := by
  rw [run]
  split
  · rename_i stopped
    simp [stepped] at stopped
  · rename_i other stepped'
    cases stepped.symm.trans stepped'
    rfl

theorem order_alone (lone : targets links name = []) : order links name = [] := by
  have first : step links ⟨[name], [name]⟩ = some ⟨[name], []⟩ := by
    simp [step, meetAll, lone]
  rw [order, run_next first, run_stop rfl]
  rfl

/-! Names in front of a line have no part in what joins it. -/

def behind (front : List Text) (s : Breadth) : Breadth := { s with line := front ++ s.line }

theorem meet_known (known : name ∈ s.met) : s.meet name = s :=
  if_pos (List.contains_iff_mem.mpr known)

theorem meet_new (new : name ∉ s.met) : s.meet name = ⟨s.met ++ [name], s.line ++ [name]⟩ :=
  if_neg (mt List.contains_iff_mem.mp new)

theorem meet_behind (front : List Text) (s : Breadth) (name : Text) :
    (s.behind front).meet name = (s.meet name).behind front := by
  by_cases known : name ∈ s.met
  · simp [meet, behind, known]
  · simp [meet, behind, known]

theorem meet_all_behind (front : List Text) (s : Breadth) (names : List Text) :
    (s.behind front).meetAll names = (s.meetAll names).behind front := by
  induction names generalizing s with
  | nil => rfl
  | cons name names ih =>
    have first := meet_behind front s name
    simp only [meetAll, List.foldl_cons, first]
    exact ih (s.meet name)

theorem meet_all_append (s : Breadth) (names later : List Text) :
    s.meetAll (names ++ later) = (s.meetAll names).meetAll later :=
  List.foldl_append ..

-- What is met with nothing in line leaves it first, and its targets are met behind the others.
theorem run_head (new : name ∉ met) (names : List Text) :
    run links (meetAll ⟨met, []⟩ (name :: names)) =
      run links (meetAll ⟨met ++ [name], []⟩ (names ++ targets links name)) := by
  let later : Breadth := meetAll ⟨met ++ [name], []⟩ names
  have head : meetAll ⟨met, []⟩ (name :: names) = later.behind [name] := by
    rw [meetAll, List.foldl_cons, meet_new new]
    exact meet_all_behind [name] ⟨met ++ [name], []⟩ names
  have stepped : step links (later.behind [name]) = some (later.meetAll (targets links name)) := rfl
  rw [head, run_next stepped, meet_all_append]

end Breadth
end ClassAtlas
