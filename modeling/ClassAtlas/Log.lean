import ClassAtlas.Text

/-!
What a survey tells while it works, in order.
-/

namespace ClassAtlas

inductive Level where
  | debug
  | info
  | warning
  deriving DecidableEq

def Level.name : Level → Text
  | debug => "DEBUG"
  | info => "INFO"
  | warning => "WARNING"

def Level.rank : Level → Nat
  | debug => 0
  | info => 1
  | warning => 2

inductive Speaker where
  | folders
  | archives
  | survey
  deriving DecidableEq

def Speaker.name : Speaker → Text
  | folders => "class_deps.scanner.directory_scanner"
  | archives => "class_deps.scanner.zip_scanner"
  | survey => "class_deps.pipeline"

structure LogLine where
  level : Level
  speaker : Speaker
  message : Text
  deriving DecidableEq

def LogLine.text (line : LogLine) : Text :=
  line.level.name ++ " " ++ line.speaker.name ++ ": " ++ line.message

abbrev Log := List LogLine

def Log.atLeast (log : Log) (level : Level) : Log := log.filter (level.rank ≤ ·.level.rank)

end ClassAtlas
