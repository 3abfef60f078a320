import ClassAtlas.Sources.Archive
import ClassAtlas.Sources.Folder

/-!
Collecting class files wherever a path leads: below a folder, or inside a zip or jar archive.
-/

namespace ClassAtlas

inductive Container where
  | folder
  | archive
  deriving DecidableEq

namespace Sources

def lowerAscii (c : CodePoint) : CodePoint :=
  if 'A'.toNat ≤ c ∧ c ≤ 'Z'.toNat then c + 32 else c

def archiveSuffixes : List Text := [".zip", ".jar"]

def hasArchiveSuffix (path : FilePath) : Bool :=
  archiveSuffixes.contains (path.suffix.map lowerAscii)

def containerAt (tree : FileTree) (path : FilePath) : Except Failure Container :=
  match tree.find path with
  | .error .tooLong => .error .nameTooLong
  | .error _ => .error (.refused (.missing path.text))
  | .ok (.folder _) => .ok .folder
  | .ok (.file _) =>
    if hasArchiveSuffix path then .ok .archive
    else .error (.refused (.notArchive path.text))

def collectFrom (container : Container) (selection : Selection) (tree : FileTree)
    (path : FilePath) : Log × Except Failure (List Source) :=
  match container with
  | .archive => ofArchive selection tree path
  | .folder => ofFolder selection tree path

def collect (selection : Selection) (tree : FileTree) (path : FilePath) :
    Log × Except Failure (List Source) :=
  match containerAt tree path with
  | .ok container => collectFrom container selection tree path
  | .error why => ([], .error why)

end Sources
end ClassAtlas
