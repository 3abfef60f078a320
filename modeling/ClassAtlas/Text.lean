/-!
Text as a list of code points. Class files can spell a lone surrogate, so a text is not a
`String`; every name, path, message and report of this library is a `Text`. Its order is
lexicographic by code point.
-/

namespace ClassAtlas

abbrev CodePoint := Nat

abbrev Text := List CodePoint

namespace Text

def ofString (s : String) : Text := s.toList.map Char.toNat

instance : Coe String Text := ⟨ofString⟩

-- Half of a pair of 16-bit units: high ones come first, low ones second.
def isHighSurrogate (c : CodePoint) : Bool := 0xD800 ≤ c && c ≤ 0xDBFF
def isLowSurrogate (c : CodePoint) : Bool := 0xDC00 ≤ c && c ≤ 0xDFFF
def isSurrogate (c : CodePoint) : Bool := 0xD800 ≤ c && c ≤ 0xDFFF

def decimal (n : Nat) : Text := (Nat.toDigits 10 n).map Char.toNat

def join (separator : Text) (parts : List Text) : Text := List.intercalate separator parts

-- The parts around the last separator, or nothing if there is none.
def splitAtLast (separator : CodePoint) (t : Text) : Option (Text × Text) :=
  match t.reverse.dropWhile (· ≠ separator) with
  | [] => none
  | _ :: front => some (front.reverse, (t.reverse.takeWhile (· ≠ separator)).reverse)

-- The parts between separators; a text without one is its own only part.
def splitAtEach (separator : CodePoint) (t : Text) : List Text :=
  t.foldr (fun c parts => if c = separator then [] :: parts else
    match parts with
    | [] => [[c]]
    | part :: later => (c :: part) :: later) [[]]

variable {separator : CodePoint} {t front back : Text}

theorem split_at_last_append (h : splitAtLast separator t = some (front, back)) :
    t = front ++ separator :: back := by
  unfold splitAtLast at h
  split at h
  · cases h
  · rename_i c before found
    cases h
    have whole := List.takeWhile_append_dropWhile (p := (· ≠ separator)) (l := t.reverse)
    have stop : c = separator := by
      have first := List.head?_dropWhile_not (fun d => decide (d ≠ separator)) t.reverse
      rw [found] at first
      simpa using first
    rw [found, stop] at whole
    rw [← List.reverse_inj, List.reverse_append, List.reverse_cons, List.reverse_reverse,
      List.reverse_reverse, List.append_assoc]
    exact whole.symm

theorem split_at_last_free (h : splitAtLast separator t = some (front, back)) :
    separator ∉ back := by
  unfold splitAtLast at h
  split at h
  · cases h
  · cases h
    intro member
    have := List.all_eq_true.mp (List.all_takeWhile (p := (· ≠ separator)) (l := t.reverse))
      separator (List.mem_reverse.mp member)
    simp at this

end Text
end ClassAtlas
