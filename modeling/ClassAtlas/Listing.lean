import ClassAtlas.ClassName
import Std.Data.ExtTreeMap

/-!
Class names listed by package: packages ascending, and in each the simple names in the order
of the names they come from.
-/

namespace ClassAtlas.Listing

abbrev Groups := Std.ExtTreeMap Text (List Text)

def addName (name : Text) (groups : Groups) : Groups :=
  groups.insert (packageOf name) (simpleNameOf name :: groups.getD (packageOf name) [])

def byPackage (names : List Text) : List (Text × List Text) := (names.foldr addName ∅).toList

def packageTitle (package : Text) : Text :=
  if package = [] then "(default package)" else package

def groupLines (group : Text × List Text) : List Text :=
  packageTitle group.1 :: group.2.map fun simple => Text.ofString "  " ++ simple

def totals (names : List Text) (groups : List (Text × List Text)) : Text :=
  Text.decimal names.length ++ " class(es) in " ++ Text.decimal groups.length ++ " package(s)"

def lines (names : List Text) : List Text :=
  let groups := byPackage names
  groups.flatMap groupLines ++ [[], totals names groups]

end ClassAtlas.Listing
