import ClassAtlas.Text

/-!
Options among arguments. A long option may carry its value behind an equals sign; short ones
may share one argument, and the first of them that takes a value takes what is left of it. A
value that is not attached is the next argument, whatever it looks like. Two hyphens alone end
the options.
-/

namespace ClassAtlas.CommandLine

structure OptionSpec where
  long : Text
  short : Option CodePoint := none
  takesValue : Bool := false

-- An option that was given, by its long form, with its value if it takes one.
structure Given where
  long : Text
  value : Option Text := none
  deriving DecidableEq

structure Parsed where
  given : List Given := []
  others : List Text := []

-- What one argument says: options that are complete, and perhaps one that waits for a value.
structure Reading where
  given : List Given := []
  waiting : Option Text := none

def hyphen : CodePoint := '-'.toNat
def equals : CodePoint := '='.toNat
def endOfOptions : Text := [hyphen, hyphen]

def isOption (arg : Text) : Bool := arg.head? == some hyphen && 1 < arg.length

def attachedValue? (arg : Text) : Option Text :=
  match arg.dropWhile (· ≠ equals) with
  | [] => none
  | _ :: value => some value

def readLong (spec : OptionSpec) (value : Option Text) : Option Reading :=
  match spec.takesValue, value with
  | true, some value => some { given := [⟨spec.long, some value⟩] }
  | true, none => some { waiting := some spec.long }
  | false, none => some { given := [⟨spec.long, none⟩] }
  | false, some _ => none

def readShort (specs : List OptionSpec) : Text → Option Reading
  | [] => some {}
  | c :: rest => do
    let spec ← specs.find? (·.short == some c)
    if spec.takesValue then
      if rest = [] then return { waiting := some spec.long }
      else return { given := [⟨spec.long, some rest⟩] }
    else
      let later ← readShort specs rest
      return { later with given := ⟨spec.long, none⟩ :: later.given }

def readOption (specs : List OptionSpec) (arg : Text) : Option Reading :=
  match specs.find? (·.long == arg.takeWhile (· ≠ equals)) with
  | some spec => readLong spec (attachedValue? arg)
  | none => if endOfOptions.isPrefixOf arg then none else readShort specs arg.tail

def Parsed.add (parsed : Parsed) (given : List Given) : Parsed :=
  { parsed with given := given ++ parsed.given }

-- Where options may not stand behind other arguments, the first of those ends them. Nothing
-- is returned if an option is unknown, lacks its value, or has one that it does not take.
def parseOptions (specs : List OptionSpec) (interspersed : Bool) : List Text → Option Parsed
  | [] => some {}
  | arg :: args =>
    if arg = endOfOptions then some { others := args }
    else if isOption arg then
      match readOption specs arg with
      | none => none
      | some ⟨given, none⟩ => (parseOptions specs interspersed args).map (·.add given)
      | some ⟨given, some long⟩ =>
        match args with
        | [] => none
        | value :: args =>
          (parseOptions specs interspersed args).map (·.add (given ++ [⟨long, some value⟩]))
    else if interspersed then
      (parseOptions specs interspersed args).map fun parsed =>
        { parsed with others := arg :: parsed.others }
    else some { others := arg :: args }

def Parsed.has (parsed : Parsed) (long : Text) : Bool := parsed.given.any (·.long == long)

-- The last value counts.
def Parsed.value? (parsed : Parsed) (long : Text) : Option Text :=
  ((parsed.given.filter (·.long == long)).getLast?).bind (·.value)

end ClassAtlas.CommandLine
