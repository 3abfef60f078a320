import ClassAtlas.Text

/-!
Patterns for names. A pattern matches a name as a whole; letter case counts, and every code
point may stand for itself. Matching asks, for each part of the pattern from the last one on,
which suffixes of the name the pattern from there matches, so it never backtracks.
-/

namespace ClassAtlas

-- Members of a set, each from a first code point to a last one.
abbrev Ranges := List (CodePoint × CodePoint)

namespace Glob

inductive Element where
  | anyRun
  | anyOne
  | literal (c : CodePoint)
  | set (negated : Bool) (ranges : Ranges)
  deriving DecidableEq

def inRanges (ranges : Ranges) (c : CodePoint) : Bool :=
  ranges.any fun range => range.1 ≤ c && c ≤ range.2

-- Whether a part that stands for one code point may stand for this one.
def Element.admits (c : CodePoint) : Element → Bool
  | anyRun => false
  | anyOne => true
  | literal d => c == d
  | set negated ranges => inRanges ranges c != negated

end Glob

abbrev Glob := List Glob.Element

namespace Glob

-- From the answers for all suffixes of the name, longest first, to those one part earlier.
def before (t : Text) (answers : List Bool) : Element → List Bool
  | .anyRun => answers.foldr (fun answer later => (answer || later.headD false) :: later) []
  | e => (t.zipWith (fun c answer => e.admits c && answer) answers.tail) ++ [false]

-- The empty pattern matches the empty suffix only.
def suffixAnswers (t : Text) : Glob → List Bool
  | [] => List.replicate t.length false ++ [true]
  | e :: glob => before t (suffixAnswers t glob) e

def accepts (glob : Glob) (t : Text) : Bool := (suffixAnswers t glob).headD false

end Glob
end ClassAtlas
