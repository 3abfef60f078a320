import ClassAtlas.Text

/-!
UTF-8 from bytes to code points. Surrogates are refused, or taken as three bytes like any
other code point of their size. A refusal says where it happened, why, and over which bytes.
-/

namespace ClassAtlas.Utf8

inductive Reason where
  | invalidStartByte
  | invalidContinuationByte
  | unexpectedEnd
  deriving DecidableEq

structure Malformation where
  reason : Reason
  offset : Nat
  run : List UInt8
  deriving DecidableEq

inductive Surrogates where
  | refused
  | taken
  deriving DecidableEq

-- What the bytes start with: a code point of some width, or a fault over some bytes.
inductive Next where
  | char (c : CodePoint) (width : Nat) (rest : List UInt8)
  | fault (reason : Reason) (width : Nat)

def isContinuation (b : UInt8) : Bool := 0x80 ≤ b && b ≤ 0xBF

-- The second byte is narrowed where the shortest form, the surrogates or the last plane ask for it.
def allowsSecond (lead b : UInt8) : Bool :=
  isContinuation b && !(lead == 0xE0 && b < 0xA0) && !(lead == 0xED && 0xA0 ≤ b) &&
    !(lead == 0xF0 && b < 0x90) && !(lead == 0xF4 && 0x90 ≤ b)

def payload (b : UInt8) : Nat := b.toNat % 64

def extend (c : CodePoint) (b : UInt8) : CodePoint := c * 64 + payload b

-- The rest of a sequence of which `taken` bytes have given `c` and `missing` are to come.
def finish (taken : Nat) : (missing : Nat) → CodePoint → List UInt8 → Next
  | 0, c, rest => .char c taken rest
  | _ + 1, _, [] => .fault .unexpectedEnd taken
  | missing + 1, c, b :: rest =>
    if isContinuation b then finish (taken + 1) missing (extend c b) rest
    else .fault .invalidContinuationByte taken

def sequence (surrogates : Surrogates) (lead : UInt8) (missing : Nat) (c : CodePoint) :
    List UInt8 → Next
  | [] => .fault .unexpectedEnd 1
  | b :: rest =>
    if allowsSecond lead b then finish 2 missing (extend c b) rest
    else if surrogates = .taken ∧ lead = 0xED ∧ isContinuation b then
      -- a surrogate is taken whole or not at all
      match finish 2 missing (extend c b) rest with
      | .char c width rest => .char c width rest
      | .fault _ _ => .fault .invalidContinuationByte 1
    else .fault .invalidContinuationByte 1

def next (surrogates : Surrogates) (lead : UInt8) (rest : List UInt8) : Next :=
  if lead < 0x80 then .char lead.toNat 1 rest
  else if lead < 0xC2 then .fault .invalidStartByte 1
  else if lead < 0xE0 then
    match rest with
    | [] => .fault .unexpectedEnd 1
    | b :: rest =>
      if isContinuation b then .char (extend (lead.toNat % 32) b) 2 rest
      else .fault .invalidContinuationByte 1
  else if lead < 0xF0 then sequence surrogates lead 1 (lead.toNat % 16) rest
  else if lead < 0xF5 then sequence surrogates lead 2 (lead.toNat % 8) rest
  else .fault .invalidStartByte 1

variable {surrogates : Surrogates} {lead : UInt8} {bytes rest : List UInt8} {c d : CodePoint}
  {width missing : Nat}

theorem finish_shortens {taken : Nat} (h : finish taken missing c bytes = .char d width rest) :
    rest.length ≤ bytes.length := by
  induction missing generalizing taken c bytes with
  | zero => cases h; exact Nat.le_refl _
  | succ missing ih =>
    cases bytes with
    | nil => cases h
    | cons b bytes =>
      unfold finish at h
      split at h
      · exact Nat.le_succ_of_le (ih h)
      · cases h

theorem sequence_shortens (h : sequence surrogates lead missing c bytes = .char d width rest) :
    rest.length ≤ bytes.length := by
  unfold sequence at h
  split at h
  · cases h
  · split at h
    · exact Nat.le_succ_of_le (finish_shortens h)
    · split at h
      · split at h
        · rename_i found
          cases h
          exact Nat.le_succ_of_le (finish_shortens found)
        · cases h
      · cases h

theorem next_shortens (h : next surrogates lead bytes = .char c width rest) :
    rest.length < bytes.length + 1 := by
  unfold next at h
  split at h
  · cases h; omega
  · split at h
    · cases h
    · split at h
      · split at h
        · cases h
        · split at h
          · cases h; simp only [List.length_cons]; omega
          · cases h
      · split at h
        · exact Nat.lt_succ_of_le (sequence_shortens h)
        · split at h
          · exact Nat.lt_succ_of_le (sequence_shortens h)
          · cases h

-- The text so far is held in reverse.
def decodeFrom (surrogates : Surrogates) (offset : Nat) (sofar : List CodePoint) :
    List UInt8 → Except Malformation Text
  | [] => .ok sofar.reverse
  | lead :: bytes =>
    match _found : next surrogates lead bytes with
    | .char c width rest => decodeFrom surrogates (offset + width) (c :: sofar) rest
    | .fault reason width => .error ⟨reason, offset, (lead :: bytes).take width⟩
  termination_by bytes => bytes.length
  decreasing_by exact next_shortens _found

def decode (surrogates : Surrogates) (bytes : List UInt8) : Except Malformation Text :=
  decodeFrom surrogates 0 [] bytes

-- How many bytes a code point takes, and how many a text.
def byteCount (c : CodePoint) : Nat :=
  if c < 0x80 then 1 else if c < 0x800 then 2 else if c < 0x10000 then 3 else 4

def size (t : Text) : Nat := t.foldr (fun c rest => byteCount c + rest) 0

def Reason.message : Reason → Text
  | .invalidStartByte => "invalid start byte"
  | .invalidContinuationByte => "invalid continuation byte"
  | .unexpectedEnd => "unexpected end of data"

end ClassAtlas.Utf8
