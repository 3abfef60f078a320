import ClassAtlas.Text
import Std.Data.ExtTreeSet

/-!
Class names. A qualified name is a package and a simple name around its last dot; a dot in
front of everything else separates nothing. Reading a name and writing it back gives the name.
-/

namespace ClassAtlas

structure ClassName where
  package : Text
  simple : Text
  deriving DecidableEq

namespace ClassName

def parse (name : Text) : ClassName :=
  match Text.splitAtLast '.'.toNat name with
  | some (c :: front, back) => ⟨c :: front, back⟩
  | _ => ⟨[], name⟩

-- The empty package is not written.
def text (name : ClassName) : Text :=
  if name.package = [] then name.simple else name.package ++ '.'.toNat :: name.simple

theorem text_parse (name : Text) : (parse name).text = name := by
  unfold parse
  split
  · rename_i parts found
    simp [text, Text.split_at_last_append found]
  · simp [text]

end ClassName

abbrev NameSet := Std.ExtTreeSet Text

def packageOf (name : Text) : Text := (ClassName.parse name).package

def simpleNameOf (name : Text) : Text := (ClassName.parse name).simple

end ClassAtlas
