import ClassAtlas.Text.Utf8

/-!
The text of a class file's string constants. NUL is written as the two bytes C0 80, and a
code point beyond the basic plane as a pair of surrogates of three bytes each.
-/

namespace ClassAtlas.ModifiedUtf8

-- From the right, one byte in front of bytes in which every C0 80 is already a single NUL.
def shortenNul (b : UInt8) : List UInt8 → List UInt8
  | c :: rest => if b = 0xC0 ∧ c = 0x80 then 0 :: rest else b :: c :: rest
  | [] => [b]

def shortenNuls (bytes : List UInt8) : List UInt8 := bytes.foldr shortenNul []

def joined (high low : CodePoint) : CodePoint :=
  0x10000 + (high - 0xD800) * 0x400 + (low - 0xDC00)

def joinSurrogate (c : CodePoint) : Text → Text
  | d :: rest =>
    if Text.isHighSurrogate c && Text.isLowSurrogate d then joined c d :: rest else c :: d :: rest
  | [] => [c]

-- Each high surrogate directly before a low one becomes one code point; others stay alone.
def joinSurrogates (t : Text) : Text := t.foldr joinSurrogate []

def decode (bytes : List UInt8) : Except Utf8.Reason Text :=
  match Utf8.decode .taken (shortenNuls bytes) with
  | .ok t => .ok (joinSurrogates t)
  | .error malformation => .error malformation.reason

end ClassAtlas.ModifiedUtf8
