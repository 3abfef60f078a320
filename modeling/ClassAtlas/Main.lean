import ClassAtlas.CommandLine.Run

/-!
The program. It loads what lies at the path that the arguments name, runs the command on it,
and prints.
-/

namespace ClassAtlas

def Text.toPrintable (t : Text) : String :=
  String.ofList (t.map fun c => if isSurrogate c then Char.ofNat 0xFFFD else Char.ofNat c)

-- Where a path leads when it is followed name by name.
def FilePath.place (p : FilePath) : Place :=
  p.components.foldl (fun place part =>
    if part = FileTree.parentName then place.dropLast else place ++ [part]) []

def parentsOf (p : FilePath) : List FilePath :=
  (List.range p.parts.length).map fun count => ⟨p.anchor, p.parts.take count⟩

-- Loads a file, or a folder with all that is in it.
partial def loadAt (name : String) (place : Place) (tree : FileTree) : IO FileTree := do
  let path := (← IO.currentDir) / name
  if ← path.isDir then
    let mut tree := tree.addFolder place
    for entry in ← path.readDir do
      tree ← loadAt (name ++ "/" ++ entry.fileName) (place ++ [Text.ofString entry.fileName]) tree
    return tree
  else if ← path.pathExists then
    return tree.addFile place (← IO.FS.readBinFile path).toList
  else return tree

def load (p : FilePath) : IO FileTree := do
  let mut tree : FileTree := {}
  for parent in parentsOf p do
    if ← ((← IO.currentDir) / parent.text.toPrintable).isDir then
      tree := tree.addFolder parent.place
  loadAt p.text.toPrintable p.place tree

def Failure.remark : Failure → String
  | pathMalformed => "a path cannot hold a NUL"
  | nameTooLong => "a name is too long to be looked up"
  | newerFormat => "the archive needs a newer version of the format"
  | nameless => "an entry of the archive has no name"
  | corruptData => "the compressed data of an entry is corrupt"
  | tooManyWorkers => "a pool cannot have so many workers"
  | _ => "the survey failed"

end ClassAtlas

open ClassAtlas

def main (args : List String) : IO UInt32 := do
  let texts := args.map Text.ofString
  let tree ← match CommandLine.parse texts with
    | some (.run _ path _) =>
      if FilePath.nul ∈ path then pure {} else load (FilePath.parse path)
    | _ => pure {}
  match CommandLine.run tree texts with
  | .printed what =>
    (← IO.getStdout).putStr what.output.toPrintable
    (← IO.getStderr).putStr what.errors.toPrintable
    return UInt32.ofNat what.exitCode
  | .usageError =>
    (← IO.getStderr).putStrLn "Usage: class-deps [-v] (scan | classes | cycles) PATH"
    return 2
  | .aborted why =>
    (← IO.getStderr).putStrLn ("Aborted: " ++ why.remark)
    return 1
  | .unwritable =>
    (← IO.getStderr).putStrLn "Aborted: the result cannot be written in UTF-8"
    return 1
