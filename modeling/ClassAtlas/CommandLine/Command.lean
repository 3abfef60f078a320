import ClassAtlas.CommandLine.Options
import ClassAtlas.FileTree
import ClassAtlas.Report.Build
import ClassAtlas.Text.Integer

/-!
Commands as they are typed. Options of the program itself stand in front of the command, its
own options anywhere behind it, and every command takes one path. The path has to exist.
-/

namespace ClassAtlas.CommandLine

inductive Task where
  | scan (reach : Reach) (scope : DependencyMap.Scope) (workers : Int)
  | classes
  | cycles

inductive Command where
  | version
  | run (verbose : Bool) (path : Text) (task : Task)

def programOptions : List OptionSpec :=
  [{ long := "--version" }, { long := "--verbose", short := some 'v'.toNat }]

def scanOptions : List OptionSpec :=
  [{ long := "--transitive" }, { long := "--all-packages" },
    { long := "--workers", short := some 'w'.toNat, takesValue := true }]

def workers? (parsed : Parsed) : Option Int :=
  match parsed.value? "--workers" with
  | none => some 1
  | some t => (Text.integer? t).filter (1 ≤ ·)

def scanTask? (parsed : Parsed) : Option Task := do
  let workers ← workers? parsed
  let reach := if parsed.has "--transitive" then Reach.transitive else .direct
  let scope := if parsed.has "--all-packages" then DependencyMap.Scope.allPackages
    else .chosenPackages
  return .scan reach scope workers

def taskNames : List Text := ["scan", "classes", "cycles"]

def task? (name : Text) (args : List Text) : Option (Parsed × Task) :=
  if name = Text.ofString "scan" then do
    let parsed ← parseOptions scanOptions true args
    return (parsed, ← scanTask? parsed)
  else if name = Text.ofString "classes" then
    (parseOptions [] true args).map (·, .classes)
  else if name = Text.ofString "cycles" then
    (parseOptions [] true args).map (·, .cycles)
  else none

-- The one path. Where it holds a NUL, it is refused before anything is found superfluous.
def path? (others : List Text) : Option Text :=
  match others with
  | [] => none
  | path :: superfluous => if superfluous = [] ∨ FilePath.nul ∈ path then some path else none

-- Nothing if the arguments are no use of the program. What stands in the place of a command
-- and is none may be an option of the program after all, behind the end of the options.
def parse (args : List Text) : Option Command := do
  let outer ← parseOptions programOptions false args
  if outer.has "--version" then return .version
  let name ← outer.others.head?
  if name ∈ taskNames then
    let (inner, task) ← task? name outer.others.tail
    return .run (outer.has "--verbose") (← path? inner.others) task
  else
    let again ← parseOptions programOptions false outer.others
    if again.has "--version" then return .version else none

-- A path that ends in a slash, or in a dot behind one, can only be a folder.
def namesFolder (t : Text) : Bool :=
  (Text.splitAtEach FilePath.slash t).getLast?.any fun part => part = [] || part = FilePath.dot

def existingPath? (tree : FileTree) (t : Text) : Option FilePath :=
  if t = [] ∨ !FilePath.fitsPath t then none
  else match tree.find (FilePath.parse t) with
    | .ok (.folder _) => some (FilePath.parse t)
    | .ok (.file _) => if namesFolder t then none else some (FilePath.parse t)
    | .error _ => none

end ClassAtlas.CommandLine
