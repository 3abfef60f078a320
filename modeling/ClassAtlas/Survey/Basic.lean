import ClassAtlas.ClassFile.Info
import ClassAtlas.DependencyMap.Cycles
import ClassAtlas.Sources.Collect
import ClassAtlas.Survey.Pool

/-!
A survey: collect class files, decode them, and map what they refer to. A file that does not
decode is skipped with a warning and costs nothing else.
-/

namespace ClassAtlas.Survey

def defaultSkips : List Text :=
  [".git", ".svn", ".hg", ".idea", ".gradle", "node_modules"]

structure Config where
  path : FilePath
  workers : Int := 1
  skips : List Text := defaultSkips

structure Result where
  path : FilePath
  map : DependencyMap := {}
  packages : NameSet := ∅
  -- where the files are that did not decode
  skipped : List Text := []

inductive Stage where
  | scanning
  | decoding
  deriving DecidableEq

def Stage.name : Stage → Text
  | scanning => "Scanning"
  | decoding => "Decoding"

structure Progress where
  stage : Stage
  current : Nat
  total : Nat
  deriving DecidableEq

structure Telling (α : Type) where
  log : Log := []
  progress : List Progress := []
  outcome : α

abbrev Decoded := Except ClassFile.Fault ClassInfo

def found (path : FilePath) (count : Nat) : LogLine :=
  ⟨.info, .survey,
    "Found " ++ Text.decimal count ++ " class file(s) under " ++ path.text⟩

def skipping (location : Text) (fault : ClassFile.Fault) : LogLine :=
  ⟨.warning, .survey, "Skipping " ++ location ++ ": " ++ fault.message⟩

def mapped (r : Result) : LogLine :=
  ⟨.info, .survey,
    "Mapped " ++ Text.decimal r.map.classes.length ++ " class(es), " ++
      Text.decimal r.map.size ++ " node(s), " ++ Text.decimal r.packages.size ++
      " package(s); " ++ Text.decimal r.skipped.length ++ " skipped"⟩

def Result.add : Result → Source → Decoded → Result
  | ⟨path, map, packages, skipped⟩, _, .ok info =>
    ⟨path, map.build [info], packages.insert info.package, skipped⟩
  | ⟨path, map, packages, skipped⟩, source, .error _ =>
    ⟨path, map, packages, skipped ++ [source.location]⟩

def complaint? (source : Source) : Decoded → Option LogLine
  | .ok _ => none
  | .error fault => some (skipping source.location fault)

def decodeAll (workers : Int) (sources : List Source) : List (Source × Decoded) :=
  sources.zip (Pool.map workers ClassInfo.decode (sources.map (·.bytes)))

def ofDecoded (path : FilePath) (decoded : List (Source × Decoded)) : Result :=
  decoded.foldl (fun r entry => r.add entry.1 entry.2) { path }

def complaints (decoded : List (Source × Decoded)) : Log :=
  decoded.filterMap fun entry => complaint? entry.1 entry.2

def scanningProgress : List Progress := [⟨.scanning, 0, 1⟩, ⟨.scanning, 1, 1⟩]

def decodingProgress (total : Nat) : List Progress :=
  (List.range (total + 1)).map fun current => ⟨.decoding, current, total⟩

-- The part of a survey that follows the collecting.
def ofSources (config : Config) (sources : List Source) : Telling Result :=
  let decoded := decodeAll config.workers sources
  let result := ofDecoded config.path decoded
  { log := found config.path sources.length :: complaints decoded ++ [mapped result]
    progress := scanningProgress ++ decodingProgress sources.length
    outcome := result }

def run (config : Config) (tree : FileTree) : Telling (Except Failure Result) :=
  match Sources.collect (.ofPatterns config.skips) tree config.path with
  | (log, .error why) => { log, progress := scanningProgress.take 1, outcome := .error why }
  | (log, .ok sources) =>
    if Pool.isPossible config.workers sources then
      let told := ofSources config sources
      { log := log ++ told.log, progress := told.progress, outcome := .ok told.outcome }
    else
      { log := log ++ [found config.path sources.length]
        progress := scanningProgress
        outcome := .error .tooManyWorkers }

end ClassAtlas.Survey
