import ClassAtlas.Text

/-!
Types inside descriptors and generic signatures. A class type starts with `L` and its name
runs to `;` or to the type arguments at `<`. A type variable starts with `T`, an inner-class
suffix with `.`, and both are skipped whole; a run that ends at `:` is the name of a formal
type parameter.
-/

namespace ClassAtlas.Descriptor

def opensName (c : CodePoint) : Bool :=
  c == 'L'.toNat || c == 'T'.toNat || c == '.'.toNat

def closesName (c : CodePoint) : Bool :=
  c == ';'.toNat || c == '<'.toNat || c == ':'.toNat

def bodyOf (t : Text) : Text := t.takeWhile (!closesName ·)
def afterBody (t : Text) : Text := t.dropWhile (!closesName ·)

def namesClass (lead stop : CodePoint) : Bool :=
  lead == 'L'.toNat && (stop == ';'.toNat || stop == '<'.toNat)

theorem after_body_length (t : Text) : (afterBody t).length ≤ t.length :=
  (List.dropWhile_sublist _).length_le

-- The class names of a descriptor from left to right, repeated as often as they occur.
def classNames : Text → List Text
  | [] => []
  | lead :: rest =>
    if opensName lead then
      match _found : afterBody rest with
      | [] => []
      | stop :: after =>
        if namesClass lead stop then bodyOf rest :: classNames after else classNames after
    else classNames rest
  termination_by t => t.length
  decreasing_by
    all_goals
      have := after_body_length rest
      simp_all
      try omega

end ClassAtlas.Descriptor
