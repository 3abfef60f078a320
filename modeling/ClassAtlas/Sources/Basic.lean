import ClassAtlas.Archive.Basic
import ClassAtlas.FilePath
import ClassAtlas.Glob.Bracket
import ClassAtlas.Log

/-!
Class files as they are collected, and the one rule that says which files count: the name
ends in `.class`, and no folder on the way to it is to be skipped. The name itself is never
skipped.
-/

namespace ClassAtlas

structure Source where
  location : Text
  bytes : List UInt8
  deriving DecidableEq

structure Selection where
  skips : Text → Bool

namespace Selection

def ofPatterns (patterns : List Text) : Selection :=
  let globs := patterns.map Glob.parse
  ⟨fun folder => globs.any fun glob => glob.accepts folder⟩

def skipsAny (selection : Selection) (folders : List Text) : Bool := folders.any selection.skips

def classSuffix : Text := ".class"

def takes (selection : Selection) (name : Text) (folders : List Text) : Bool :=
  classSuffix.isSuffixOf name && !selection.skipsAny folders

end Selection

-- Why nothing can be collected at a path.
inductive ScanError where
  | missing (path : Text)
  | notArchive (path : Text)
  | invalidArchive (path : Text) (why : Archive.OpenError)
  deriving DecidableEq

-- Why a survey stops: the path is refused or cannot even be looked up, an archive has an
-- entry that cannot be passed over, or a pool cannot be that large.
inductive Failure where
  | refused (why : ScanError)
  | pathMalformed
  | nameTooLong
  | newerFormat
  | nameMalformed (malformation : Utf8.Malformation)
  | nameless
  | beyondReach
  | corruptData
  | tooManyWorkers
  deriving DecidableEq

def Archive.OpenError.message (path : Text) : Archive.OpenError → Text
  | missing => "[Errno 2] No such file or directory: " ++ path.quoted
  | throughFile => "[Errno 20] Not a directory: " ++ path.quoted
  | isFolder => "[Errno 21] Is a directory: " ++ path.quoted
  | nameTooLong => "[Errno 36] File name too long: " ++ path.quoted
  | noDirectory => "File is not a zip file"
  | severalDisks => "zipfiles that span multiple disks are not supported"
  | directoryBeforeStart => "Bad offset for central directory"
  | directoryTruncated => "Truncated central directory"
  | directoryMalformed => "Bad magic number for central directory"
  | extraCorrupt id size =>
    "Corrupt extra field " ++ Text.hexDigits 4 id ++ " (size=" ++ Text.decimal size ++ ")"
  | extraIncomplete field => "Corrupt zip64 extra field. " ++ field ++ " not found."

def ScanError.message : ScanError → Text
  | missing path => "Path to scan does not exist: " ++ path
  | notArchive path => "Path to scan is a file but not a zip or jar archive: " ++ path
  | invalidArchive path why => path ++ " is not a valid zip archive: " ++ why.message path

-- What the user is told. The other failures are nothing that the user is expected to mend.
def Failure.message? : Failure → Option Text
  | refused why => some why.message
  | pathMalformed => some "embedded null byte"
  | nameMalformed malformation => some malformation.message
  | beyondReach => some "cannot fit 'int' into an offset-sized integer"
  | _ => none

end ClassAtlas
