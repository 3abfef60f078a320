import ClassAtlas.Text.Hidden

/-!
Quoted text, for showing a name unambiguously on one line. The quotation mark is the single
one, unless the text holds single marks and no double ones.
-/

namespace ClassAtlas.Text

def singleQuote : CodePoint := 0x27
def doubleQuote : CodePoint := 0x22
def backslash : CodePoint := 0x5C

def quoteFor (t : Text) : CodePoint :=
  if singleQuote ∈ t ∧ doubleQuote ∉ t then doubleQuote else singleQuote

def hexDigits (width n : Nat) : Text :=
  let digits := (Nat.toDigits 16 n).map Char.toNat
  List.replicate (width - digits.length) '0'.toNat ++ digits

-- A hidden code point is shown by its number, in two, four or eight digits.
def numbered (c : CodePoint) : Text :=
  if c ≤ 0xFF then "x" ++ hexDigits 2 c
  else if c ≤ 0xFFFF then "u" ++ hexDigits 4 c
  else "U" ++ hexDigits 8 c

def escaped (quote c : CodePoint) : Text :=
  if c = quote ∨ c = backslash then [backslash, c]
  else if c = '\t'.toNat then [backslash, 't'.toNat]
  else if c = '\n'.toNat then [backslash, 'n'.toNat]
  else if c = '\r'.toNat then [backslash, 'r'.toNat]
  else if isHidden c then backslash :: numbered c
  else [c]

def quoted (t : Text) : Text :=
  let quote := quoteFor t
  quote :: t.flatMap (escaped quote) ++ [quote]

end ClassAtlas.Text
