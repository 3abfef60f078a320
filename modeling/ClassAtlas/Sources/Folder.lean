import ClassAtlas.FileTree
import ClassAtlas.Sources.Basic

/-!
Collecting class files from a folder and everything below it, in the order of their paths. A
path that is no folder gives nothing.
-/

namespace ClassAtlas.Sources

def selectsPlace (selection : Selection) (place : Place) : Bool :=
  selection.takes (place.getLast?.getD []) place.dropLast

def sourceAt (path : FilePath) (file : Place × List UInt8) : Source :=
  ⟨(path.join ⟨[], file.1⟩).text, file.2⟩

def matchedFile (source : Source) : LogLine :=
  ⟨.debug, .folders, "matched " ++ source.location⟩

def ofFolder (selection : Selection) (tree : FileTree) (path : FilePath) :
    Log × Except Failure (List Source) :=
  match tree.find path with
  | .ok (.folder place) =>
    let sources := ((tree.below place).filter (selectsPlace selection ·.1)).map (sourceAt path)
    (sources.map matchedFile, .ok sources)
  | .error .tooLong => ([], .error .nameTooLong)
  | _ => ([], .ok [])

end ClassAtlas.Sources
