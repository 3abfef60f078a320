import ClassAtlas.Compression.Bits

/-!
Codes of bzip2, given by the lengths of their words. Shorter words come first, and words of one
length follow the order of the symbols. Nothing asks that words do not collide, or that none are
left over: a word without a symbol shows when it is read.
-/

namespace ClassAtlas.Bzip2

open Compression
open Sized (size)

-- The most significant bit of a byte is its first one, so bytes are turned round to be read.
def turned (b : UInt8) : UInt8 :=
  UInt8.ofNat ((List.range 8).foldl (fun n place => 2 * n + (b.toNat >>> place) % 2) 0)

-- A number of so many bits, the most significant one first.
def number (count : Nat) : Reader Bits Nat := do
  return (← Reader.times Reader.bit count).foldl (fun n bit => 2 * n + bit) 0

theorem consumes_bits (count : Nat) : Reader.Consumes (Reader.times Reader.bit count) :=
  Reader.consumes_times Reader.shortens_bit.consumes count

theorem consumes_number (count : Nat) : Reader.Consumes (number count) :=
  Reader.consumes_bind (consumes_bits count) fun _ => Reader.consumes_pure _

theorem shortens_number (count : Nat) : Reader.Shortens (number (count + 1)) := by
  refine Reader.shortens_bind ?_ fun _ => Reader.consumes_pure _
  exact Reader.shortens_bind Reader.shortens_bit fun _ =>
    Reader.consumes_bind (consumes_bits count) fun _ => Reader.consumes_pure _

def longest : Nat := 20

-- How many words there are of each length from one on, and their symbols, shorter words first.
structure Code where
  counts : List Nat
  symbols : Array Nat

namespace Code

def ofLengths (lengths : List Nat) : Code :=
  let byLength := (List.range' 1 longest).map fun length =>
    (lengths.zipIdx.filter (·.1 = length)).map (·.2)
  ⟨byLength.map List.length, byLength.flatten.toArray⟩

-- The words of the length in hand start at `least`, and their symbols come after those before.
def find (code : Code) : (counts : List Nat) → (word least before : Nat) → Reader Bits Nat
  | [], _, _, _ => Reader.stop .corrupt
  | count :: counts, word, least, before =>
    if word < least + count then Reader.orCorrupt code.symbols[before + (word - least)]?
    else do
      let bit ← Reader.bit
      code.find counts (2 * word + bit) (2 * (least + count)) (before + count)

theorem consumes_find (code : Code) (counts : List Nat) (word least before : Nat) :
    Reader.Consumes (code.find counts word least before) := by
  induction counts generalizing word least before with
  | nil => exact Reader.consumes_stop _
  | cons count counts ih =>
    unfold find
    split
    · exact Reader.consumes_or_corrupt _
    · exact Reader.consumes_bind Reader.shortens_bit.consumes fun bit => ih _ _ _

def read (code : Code) : Reader Bits Nat := do
  code.find code.counts (← Reader.bit) 0 0

theorem shortens_read (code : Code) : Reader.Shortens code.read :=
  Reader.shortens_bind Reader.shortens_bit fun _ => consumes_find _ _ _ _ _

end Code

-- The length of the next word: that of the last one, one more or one less, any number of times.
def codeLength (length : Nat) : Reader Bits Nat := fun bits =>
  if length < 1 ∨ longest < length then .error .corrupt
  else
    match _more : Reader.bit bits with
    | .error why => .error why
    | .ok (more, between) =>
      if more = 0 then .ok (length, between)
      else
        match _down : Reader.bit between with
        | .error why => .error why
        | .ok (down, later) => codeLength (if down = 0 then length + 1 else length - 1) later
  termination_by bits => size bits
  decreasing_by
    exact Nat.lt_trans (Reader.shortens_bit _ _ _ _down) (Reader.shortens_bit _ _ _ _more)

theorem consumes_code_length (length : Nat) : Reader.Consumes (codeLength length) := by
  intro bits value later ran
  fun_induction codeLength length bits with
  | case1 => cases ran
  | case2 => cases ran
  | case3 length bits inside between read =>
    cases ran
    exact Reader.shortens_bit.consumes _ _ _ read
  | case4 => cases ran
  | case5 length bits inside more between read goes down after read' ih =>
    exact Nat.le_trans (ih ran) (Nat.le_trans (Reader.shortens_bit.consumes _ _ _ read')
      (Reader.shortens_bit.consumes _ _ _ read))

def codeLengths : (count last : Nat) → Reader Bits (List Nat)
  | 0, _ => return []
  | count + 1, last => do
    let length ← codeLength last
    return length :: (← codeLengths count length)

theorem consumes_code_lengths (count last : Nat) : Reader.Consumes (codeLengths count last) := by
  induction count generalizing last with
  | zero => exact Reader.consumes_pure _
  | succ count ih =>
    exact Reader.consumes_bind (consumes_code_length _) fun length =>
      Reader.consumes_bind (ih length) fun _ => Reader.consumes_pure _

-- A code for so many symbols.
def ownCode (count : Nat) : Reader Bits Code := do
  return Code.ofLengths (← codeLengths count (← number 5))

theorem consumes_own_code (count : Nat) : Reader.Consumes (ownCode count) :=
  Reader.consumes_bind (consumes_number 5) fun _ =>
    Reader.consumes_bind (consumes_code_lengths _ _) fun _ => Reader.consumes_pure _

end ClassAtlas.Bzip2
