import ClassAtlas.FilePath
import Std.Data.ExtTreeMap

/-!
The files a survey looks at, by their places: lists of names from the top folder down. A
folder exists if something lies in it, or if it is listed as empty.
-/

namespace ClassAtlas

abbrev Place := List Text

structure FileTree where
  files : Std.ExtTreeMap Place (List UInt8) := ∅
  emptyFolders : List Place := []

namespace FileTree

-- Why there is nothing at a path: a name is missing, a file stands where a folder should, a
-- name or the path is too long to be looked up, or the path is none.
inductive Absence where
  | missing
  | throughFile
  | tooLong
  | malformed
  deriving DecidableEq

inductive Target where
  | file (bytes : List UInt8)
  | folder (place : Place)

def addFile (tree : FileTree) (place : Place) (bytes : List UInt8) : FileTree :=
  { tree with files := tree.files.insert place bytes }

def addFolder (tree : FileTree) (place : Place) : FileTree :=
  { tree with emptyFolders := place :: tree.emptyFolders }

def isFolder (tree : FileTree) (place : Place) : Bool :=
  place.isEmpty || tree.emptyFolders.any place.isPrefixOf ||
    tree.files.keys.any fun file => file != place && place.isPrefixOf file

def at? (tree : FileTree) (place : Place) : Option Target :=
  match tree.files[place]? with
  | some bytes => some (.file bytes)
  | none => if tree.isFolder place then some (.folder place) else none

def parentName : Text := ".."

-- One step from what has been found so far. The top folder is its own parent.
def enter (tree : FileTree) (found : Except Absence Target) (part : Text) :
    Except Absence Target :=
  match found with
  | .error why => .error why
  | .ok (.file _) => .error .throughFile
  | .ok (.folder place) =>
    if part = parentName then .ok (.folder place.dropLast)
    else if !FilePath.fitsName part then .error .tooLong
    else match tree.at? (place ++ [part]) with
      | some target => .ok target
      | none => .error .missing

def find (tree : FileTree) (path : FilePath) : Except Absence Target :=
  if FilePath.nul ∈ path.text then .error .malformed
  else if !FilePath.fitsPath path.text then .error .tooLong
  else path.components.foldl tree.enter (.ok (.folder []))

-- The files below a folder, by their places relative to it, in ascending order.
def below (tree : FileTree) (folder : Place) : List (Place × List UInt8) :=
  tree.files.toList.filterMap fun entry =>
    if folder.isPrefixOf entry.1 then some (entry.1.drop folder.length, entry.2) else none

end FileTree
end ClassAtlas
