import ClassAtlas.CommandLine.Command
import ClassAtlas.Listing
import ClassAtlas.Survey.Basic
import ClassAtlas.Text.ControlSequence

/-!
What a command prints. Results go to the standard output; what was logged, and what went
wrong, goes to the standard error. Messages lose their control sequences, since they are not
printed to a terminal; logged lines are left as they are.
-/

namespace ClassAtlas.CommandLine

structure Printed where
  exitCode : Nat
  output : Text
  errors : Text

-- A failure that is not reported ends the program, and so does a result that cannot be
-- written in UTF-8 because it holds half of a surrogate pair.
inductive Outcome where
  | usageError
  | printed (what : Printed)
  | aborted (why : Failure)
  | unwritable

def lines (ts : List Text) : Text := ts.flatMap (· ++ [ClassReport.newline])

def messages (ts : List Text) : Text := lines (ts.map Text.plain)

def carriageReturn : CodePoint := '\r'.toNat

-- Lines end in a newline alone.
def withPlainEnds (t : Text) : Text :=
  let followed := t.zip ((t.drop 1).map some ++ [none])
  (followed.filter fun (c, next) =>
    !(c == carriageReturn && next == some ClassReport.newline)).map (·.1)

def printed (exitCode : Nat) (output errors : Text) : Outcome :=
  if output.any Text.isSurrogate then .unwritable
  else .printed ⟨exitCode, withPlainEnds output, withPlainEnds errors⟩

def scanLines (r : Survey.Result) (reach : Reach) (scope : DependencyMap.Scope) : List Text :=
  match r.map.buildReport r.packages reach scope with
  | (_, []) => ["No classes found."]
  | (_, reports) => [ClassReport.render reach reports]

def classesLines (r : Survey.Result) : List Text :=
  match r.map.classes with
  | [] => ["No classes found."]
  | names => Listing.lines names

def cycleLine (path : List Text) : Text := "  " ++ Text.join " -> " path

def cyclesLines (r : Survey.Result) : List Text :=
  match r.map.detectCycles with
  | [] => ["No cycles found."]
  | found =>
    ("Found " ++ Text.decimal found.length ++ " cycle(s):") :: [] :: found.map cycleLine

def skippedLines (skipped : List Text) : List Text :=
  if skipped = [] then []
  else ["Skipped " ++ Text.decimal skipped.length ++ " unreadable class file(s)"]

def Task.output (r : Survey.Result) : Task → List Text
  | scan reach scope _ => scanLines r reach scope
  | classes => classesLines r
  | cycles => cyclesLines r

def Task.errors (r : Survey.Result) : Task → List Text
  | scan _ _ _ => skippedLines r.skipped
  | _ => []

def Task.workers : Task → Int
  | scan _ _ workers => workers
  | _ => 1

def logLines (verbose : Bool) (log : Log) : List Text :=
  (log.atLeast (if verbose then .debug else .warning)).map (·.text)

def versionLine : Text := "class-deps, version 0.1.0"

def perform (tree : FileTree) (verbose : Bool) (path : FilePath) (task : Task) : Outcome :=
  let told := Survey.run { path, workers := task.workers } tree
  let logged := logLines verbose told.log
  match told.outcome with
  | .ok result =>
    printed 0 (messages (task.output result)) (lines logged ++ messages (task.errors result))
  | .error why =>
    match why.message? with
    | some message => printed 1 [] (lines logged ++ messages ["Error: " ++ message])
    | none => .aborted why

def run (tree : FileTree) (args : List Text) : Outcome :=
  match parse args with
  | none => .usageError
  | some .version => printed 0 (messages [versionLine]) []
  | some (.run verbose path task) =>
    if FilePath.nul ∈ path then .aborted .pathMalformed
    else match existingPath? tree path with
      | none => .usageError
      | some path => perform tree verbose path task

end ClassAtlas.CommandLine
