import ClassAtlas.Archive.Content
import ClassAtlas.Archive.Directory
import ClassAtlas.FileTree
import ClassAtlas.Sources.Basic

/-!
Collecting class files from an archive, in the order of its directory. An entry that cannot be
read is passed over with a warning, unless its fault is one that ends the collection.
-/

namespace ClassAtlas

def Failure.ofOpening (path : Text) : Archive.OpenFault → Failure
  | .invalid why => .refused (.invalidArchive path why)
  | .nameMalformed malformation => .nameMalformed malformation
  | .newerFormat => .newerFormat

-- The fault of an entry that can be passed over is no failure.
def Failure.ofEntry : Archive.EntryFault → Option Failure
  | .unreadable => none
  | .nameless => some .nameless
  | .nameMalformed malformation => some (.nameMalformed malformation)
  | .beyondReach => some .beyondReach
  | .corruptData => some .corruptData

namespace Sources

-- Whether an entry is a folder is asked of every entry. For one without a name there is no answer,
-- though not all readers of archives agree on that.
def selectsEntry (selection : Selection) (e : Entry) : Bool :=
  e.name.isEmpty || (!e.isFolder && selection.takes e.name (FilePath.parse e.name).folders)

def entryLocation (path : Text) (e : Entry) : Text := path ++ "!/" ++ e.name

def matchedEntry (path : Text) (e : Entry) : LogLine :=
  ⟨.debug, .archives, "matched " ++ entryLocation path e⟩

def cannotRead (path : Text) (e : Entry) : LogLine :=
  ⟨.warning, .archives, "Cannot read " ++ entryLocation path e⟩

def ofEntries (path : Text) (archive : Archive) : List Entry → Log × Except Failure (List Source)
  | [] => ([], .ok [])
  | e :: entries =>
    match archive.content e with
    | .ok bytes =>
      let (log, sources) := ofEntries path archive entries
      (matchedEntry path e :: log, sources.map (⟨entryLocation path e, bytes⟩ :: ·))
    | .error fault =>
      match Failure.ofEntry fault with
      | some why => ([], .error why)
      | none =>
        let (log, sources) := ofEntries path archive entries
        (cannotRead path e :: log, sources)

def openAt (tree : FileTree) (path : FilePath) : Except Failure Archive :=
  match tree.find path with
  | .ok (.file bytes) => (Archive.ofBytes bytes).mapError (Failure.ofOpening path.text)
  | .ok (.folder _) => .error (.refused (.invalidArchive path.text .isFolder))
  | .error .missing => .error (.refused (.invalidArchive path.text .missing))
  | .error .throughFile => .error (.refused (.invalidArchive path.text .throughFile))
  | .error .tooLong => .error (.refused (.invalidArchive path.text .nameTooLong))
  | .error .malformed => .error .pathMalformed

def ofArchive (selection : Selection) (tree : FileTree) (path : FilePath) :
    Log × Except Failure (List Source) :=
  match openAt tree path with
  | .ok archive => ofEntries path.text archive (archive.entries.filter (selectsEntry selection))
  | .error why => ([], .error why)

end Sources
end ClassAtlas
