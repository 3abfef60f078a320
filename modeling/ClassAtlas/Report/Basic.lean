import ClassAtlas.Text

/-!
The report of class dependencies as text: a heading, then for every class a line of its own,
its dependencies each behind a tab, and an empty line.
-/

namespace ClassAtlas

-- Whether a report follows dependencies one step or all the way.
inductive Reach where
  | direct
  | transitive
  deriving DecidableEq

structure ClassReport where
  name : Text
  package : Text
  dependencies : List Text
  deriving DecidableEq

namespace Reach

def heading : Reach → Text
  | direct => "DIRECT DEPENDENCIES"
  | transitive => "TRANSITIVE DEPENDENCIES"

def classLine : Reach → Text
  | direct => "Direct dependencies for class "
  | transitive => "Transitive dependencies for class "

end Reach

namespace ClassReport

def newline : CodePoint := '\n'.toNat
def tab : CodePoint := '\t'.toNat

def lines (reach : Reach) (report : ClassReport) : List Text :=
  (reach.classLine ++ report.name) :: report.dependencies.map (tab :: ·) ++ [[]]

def render (reach : Reach) (reports : List ClassReport) : Text :=
  Text.join [newline] (reach.heading :: reports.flatMap (lines reach))

end ClassReport
end ClassAtlas
