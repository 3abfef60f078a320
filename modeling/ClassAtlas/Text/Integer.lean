import ClassAtlas.Text

/-!
Whole numbers as people type them: blanks around, a sign in front, digits of any script, and
single underscores between digits. Scripts keep their ten digits together, so the zeros tell
all of them.
-/

namespace ClassAtlas.Text

def blanks : List CodePoint :=
  [0x0009, 0x000A, 0x000B, 0x000C, 0x000D, 0x0020, 0x0085, 0x00A0, 0x1680, 0x2000, 0x2001,
    0x2002, 0x2003, 0x2004, 0x2005, 0x2006, 0x2007, 0x2008, 0x2009, 0x200A, 0x2028, 0x2029,
    0x202F, 0x205F, 0x3000]

def zeros : List CodePoint :=
  [0x0030, 0x0660, 0x06F0, 0x07C0, 0x0966, 0x09E6, 0x0A66, 0x0AE6, 0x0B66, 0x0BE6, 0x0C66,
    0x0CE6, 0x0D66, 0x0DE6, 0x0E50, 0x0ED0, 0x0F20, 0x1040, 0x1090, 0x17E0, 0x1810, 0x1946,
    0x19D0, 0x1A80, 0x1A90, 0x1B50, 0x1BB0, 0x1C40, 0x1C50, 0xA620, 0xA8D0, 0xA900, 0xA9D0,
    0xA9F0, 0xAA50, 0xABF0, 0xFF10, 0x104A0, 0x10D30, 0x11066, 0x110F0, 0x11136, 0x111D0,
    0x112F0, 0x11450, 0x114D0, 0x11650, 0x116C0, 0x11730, 0x118E0, 0x11950, 0x11C50, 0x11D50,
    0x11DA0, 0x16A60, 0x16AC0, 0x16B50, 0x1D7CE, 0x1D7D8, 0x1D7E2, 0x1D7EC, 0x1D7F6, 0x1E140,
    0x1E2F0, 0x1E950, 0x1FBF0]

def isBlank (c : CodePoint) : Bool := blanks.contains c

def digit? (c : CodePoint) : Option Nat :=
  (zeros.find? fun first => first ≤ c && c < first + 10).map (c - ·)

def trimmed (t : Text) : Text := ((t.dropWhile isBlank).reverse.dropWhile isBlank).reverse

def underscore : CodePoint := '_'.toNat

-- Digits, the last one first, or nothing if something else is met. An underscore must stand
-- between two digits.
def digitsFrom (sofar : List Nat) (afterDigit : Bool) : Text → Option (List Nat)
  | [] => if afterDigit then some sofar else none
  | c :: rest =>
    match digit? c with
    | some d => digitsFrom (d :: sofar) true rest
    | none => if c = underscore ∧ afterDigit then digitsFrom sofar false rest else none

def mostDigits : Nat := 4300

def natural? (t : Text) : Option Nat := do
  let digits ← digitsFrom [] false t
  if digits.length ≤ mostDigits then return digits.foldr (fun d n => n * 10 + d) 0
  else none

def integer? (t : Text) : Option Int :=
  match trimmed t with
  | [] => none
  | c :: rest =>
    if c = '-'.toNat then (natural? rest).map fun n => -(n : Int)
    else if c = '+'.toNat then (natural? rest).map Int.ofNat
    else (natural? (c :: rest)).map Int.ofNat

end ClassAtlas.Text
