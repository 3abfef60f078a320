import ClassAtlas.Text

/-!
Parts joined by a separator. Parts without the separator in them can be told apart again, and
how the whole text ends is told by its last part.
-/

namespace ClassAtlas.Text

variable {separator : Text} {parts : List Text}

@[simp] theorem join_single (part : Text) : join separator [part] = part :=
  List.intercalate_singleton

theorem join_cons (part : Text) {later : List Text} (more : later ≠ []) :
    join separator (part :: later) = part ++ separator ++ join separator later := by
  cases later with
  | nil => exact absurd rfl more
  | cons next later => exact List.intercalate_cons_cons

theorem mem_join {c : Nat} (member : c ∈ join separator parts) :
    c ∈ separator ∨ ∃ part ∈ parts, c ∈ part := by
  induction parts with
  | nil => cases member
  | cons part later ih =>
    cases later with
    | nil =>
      rw [join_single] at member
      exact .inr ⟨part, List.mem_cons_self, member⟩
    | cons next later =>
      rw [join_cons part (List.cons_ne_nil next later), List.mem_append, List.mem_append] at member
      rcases member with (here | between) | behind
      · exact .inr ⟨part, List.mem_cons_self, here⟩
      · exact .inl between
      · rcases ih behind with between | ⟨other, among, inside⟩
        · exact .inl between
        · exact .inr ⟨other, List.mem_cons_of_mem part among, inside⟩

section Splitting

variable {c : Nat} {t part suffix : Text}

theorem split_free (free : c ∉ t) : splitAtEach c t = [t] := by
  induction t with
  | nil => rfl
  | cons d t ih =>
    rw [List.mem_cons, not_or] at free
    have later := ih free.2
    rw [splitAtEach] at later ⊢
    rw [List.foldr_cons, later, if_neg (Ne.symm free.1)]

theorem split_behind (free : c ∉ part) (t : Text) :
    splitAtEach c (part ++ c :: t) = part :: splitAtEach c t := by
  induction part with
  | nil => simp [splitAtEach]
  | cons d part ih =>
    rw [List.mem_cons, not_or] at free
    have later := ih free.2
    rw [splitAtEach] at later
    rw [splitAtEach, List.cons_append, List.foldr_cons, later, if_neg (Ne.symm free.1)]

theorem split_join (some_part : parts ≠ []) (free : ∀ part ∈ parts, c ∉ part) :
    splitAtEach c (join [c] parts) = parts := by
  induction parts with
  | nil => exact absurd rfl some_part
  | cons part later ih =>
    have here := free part List.mem_cons_self
    cases later with
    | nil =>
      rw [join_single]
      exact split_free here
    | cons next later =>
      have more := List.cons_ne_nil next later
      have rest := ih more fun other among => free other (.tail part among)
      rw [join_cons part more, List.append_assoc, List.singleton_append, split_behind here, rest]

theorem split_some (c : Nat) (t : Text) : splitAtEach c t ≠ [] := by
  induction t with
  | nil => simp [splitAtEach]
  | cons d t ih =>
    rw [splitAtEach, List.foldr_cons]
    split
    · exact List.cons_ne_nil _ _
    · split <;> exact List.cons_ne_nil _ _

-- Nothing is lost between the parts but the separators.
theorem join_split (c : Nat) (t : Text) : join [c] (splitAtEach c t) = t := by
  induction t with
  | nil => rfl
  | cons d t ih =>
    have more := split_some c t
    rw [splitAtEach] at ih more
    rw [splitAtEach, List.foldr_cons]
    split
    · rename_i same
      rw [join_cons [] more, ih]
      simp [same]
    · split
      · rename_i none_left
        exact absurd none_left more
      · rename_i part later found
        rw [found] at ih
        rw [← ih]
        cases later <;> simp [join]

theorem join_begins (part : Text) (later : List Text) :
    ∃ rest, join separator (part :: later) = part ++ rest := by
  cases later with
  | nil => exact ⟨[], by simp⟩
  | cons next later =>
    rw [join_cons part (List.cons_ne_nil next later), List.append_assoc]
    exact ⟨_, rfl⟩

-- Before the last part there is a separator or nothing.
theorem join_ends (folders : List Text) (name : Text) :
    ∃ front, join separator (folders ++ [name]) = front ++ name ∧
      (front = [] ∨ ∃ before, front = before ++ separator) := by
  induction folders with
  | nil => exact ⟨[], by simp, .inl rfl⟩
  | cons folder folders ih =>
    obtain ⟨front, whole, ends⟩ := ih
    refine ⟨folder ++ separator ++ front, ?_, .inr ?_⟩
    · rw [List.cons_append, join_cons folder (List.concat_ne_nil name folders), whole,
        List.append_assoc _ front]
    · rcases ends with rfl | ⟨before, rfl⟩
      · exact ⟨folder, List.append_nil _⟩
      · exact ⟨folder ++ separator ++ before, (List.append_assoc ..).symm⟩

-- What ends the whole text without reaching a separator ends its last part.
theorem suffix_join (free : c ∉ suffix) (folders : List Text) (name : Text) :
    suffix <:+ join [c] (folders ++ [name]) ↔ suffix <:+ name := by
  obtain ⟨front, whole, ends⟩ := @join_ends [c] folders name
  rw [whole]
  constructor
  · intro ending
    rcases ends with rfl | ⟨before, rfl⟩
    · exact ending
    · rw [List.append_assoc, List.singleton_append] at ending
      have behind : c :: name <:+ before ++ c :: name := List.suffix_append before _
      rcases List.suffix_or_suffix_of_suffix ending behind with inside | across
      · rcases List.suffix_cons_iff.mp inside with rfl | inside
        · exact absurd List.mem_cons_self free
        · exact inside
      · exact absurd (across.subset List.mem_cons_self) free
  · intro ending
    exact ending.trans (List.suffix_append front name)

end Splitting
end ClassAtlas.Text
