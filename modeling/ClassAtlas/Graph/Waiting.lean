import ClassAtlas.Graph.Buckets

/-!
References that wait, in the order in which they first arrived. One that arrives again keeps
its place.
-/

namespace ClassAtlas

-- The latest comes first; the names are held once more, to be looked up.
structure Waiting where
  latest : List Ref
  names : NameSet
  mem_names : ∀ name, name ∈ names ↔ ∃ r ∈ latest, r.name = name

namespace Waiting

instance : EmptyCollection Waiting := ⟨⟨[], ∅, by simp⟩⟩

instance : Inhabited Waiting := ⟨∅⟩

def toList (w : Waiting) : List Ref := w.latest.reverse

def isEmpty (w : Waiting) : Bool := w.latest.isEmpty

def add (w : Waiting) (r : Ref) : Waiting :=
  if r.name ∈ w.names then w
  else ⟨r :: w.latest, w.names.insert r.name, by simp [w.mem_names]⟩

-- A line of references with those that wait at its end. Most nodes have none.
def behind (w : Waiting) (line : List Ref) : List Ref :=
  if w.isEmpty then line else line ++ w.toList

@[simp] theorem to_list_empty : (∅ : Waiting).toList = [] := rfl

@[simp] theorem not_mem_names_empty (name : Text) : name ∉ (∅ : Waiting).names :=
  Std.ExtTreeSet.not_mem_empty

variable (w : Waiting) (r : Ref)

theorem mem_names_iff (name : Text) : name ∈ w.names ↔ ∃ r ∈ w.toList, r.name = name := by
  simp [w.mem_names, toList]

theorem to_list_add : (w.add r).toList =
    if ∃ known ∈ w.toList, known.name = r.name then w.toList else w.toList ++ [r] := by
  simp only [← mem_names_iff]
  unfold add
  split
  · rfl
  · simp [toList]

theorem is_empty_iff : w.isEmpty = true ↔ w.toList = [] := by
  simp [isEmpty, toList]

theorem behind_eq (line : List Ref) : w.behind line = line ++ w.toList := by
  unfold behind
  split
  · rename_i none_waits
    rw [(is_empty_iff w).mp none_waits, List.append_nil]
  · rfl

end Waiting
end ClassAtlas
