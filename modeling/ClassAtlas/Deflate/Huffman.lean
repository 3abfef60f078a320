import ClassAtlas.Compression.Bits

/-!
Codes given by the lengths of their code words. Shorter words come first, and words of one
length follow the order of the symbols. A set of lengths is refused when words would collide,
or when some are left over; a single word of one bit may leave its partner unused.
-/

namespace ClassAtlas.Deflate

open Compression

inductive Tree where
  | unused
  | leaf (symbol : Nat)
  | node (zero one : Tree)

-- A code word has at least one bit.
structure Code where
  zero : Tree := .unused
  one : Tree := .unused

namespace Tree

def branch (bit : Nat) (zero one : Tree) : Tree := if bit = 0 then zero else one

def walk : Tree → Reader Bits Nat
  | unused => Reader.stop .corrupt
  | leaf symbol => return symbol
  | node zero one => do
    if (← Reader.bit) = 0 then zero.walk else one.walk

theorem consumes_walk (tree : Tree) : Reader.Consumes tree.walk := by
  induction tree with
  | unused => exact Reader.consumes_stop _
  | leaf symbol => exact Reader.consumes_pure _
  | node zero one ihz iho =>
    apply Reader.consumes_bind Reader.shortens_bit.consumes
    intro bit
    split
    · exact ihz
    · exact iho

-- The word is the lowest `length` bits of `word`, highest bit first.
def insert (symbol : Nat) (word : Nat) : (length : Nat) → Tree → Tree
  | 0, _ => leaf symbol
  | length + 1, tree =>
    let (zero, one) := match tree with
      | node zero one => (zero, one)
      | _ => (unused, unused)
    if (word >>> length) % 2 = 0 then node (insert symbol word length zero) one
    else node zero (insert symbol word length one)

end Tree

namespace Code

def read (code : Code) : Reader Bits Nat := do
  if (← Reader.bit) = 0 then code.zero.walk else code.one.walk

theorem shortens_read (code : Code) : Reader.Shortens code.read := by
  apply Reader.shortens_bind Reader.shortens_bit
  intro bit
  split
  · exact Tree.consumes_walk _
  · exact Tree.consumes_walk _

def insert (code : Code) (symbol word : Nat) : (length : Nat) → Code
  | 0 => code
  | length + 1 =>
    if (word >>> length) % 2 = 0 then { code with zero := code.zero.insert symbol word length }
    else { code with one := code.one.insert symbol word length }

def longest : Nat := 15

-- The space that a set of words takes, in units of the longest word.
def space (lengths : List Nat) : Nat :=
  (lengths.filter (· ≠ 0)).foldr (fun length rest => 1 <<< (longest - length) + rest) 0

def inOrder (lengths : List Nat) : List (Nat × Nat) :=
  (List.range' 1 longest).flatMap fun length =>
    (lengths.zipIdx.filter (·.1 = length)).map fun entry => (length, entry.2)

-- Words are handed out in order: the next word of the same length, or its first extension.
def assign (state : Code × Nat × Nat) (entry : Nat × Nat) : Code × Nat × Nat :=
  let (code, word, last) := state
  let word := word <<< (entry.1 - last)
  (code.insert entry.2 word entry.1, word + 1, entry.1)

def build (lengths : List Nat) : Code := ((inOrder lengths).foldl assign ({}, 0, 0)).1

def isComplete (lengths : List Nat) : Bool := space lengths == 1 <<< longest

-- A code whose words fill the space, or have at most one bit each.
def ofLengths? (lengths : List Nat) : Option Code :=
  if isComplete lengths || (space lengths < 1 <<< longest && lengths.all (· ≤ 1)) then
    some (build lengths)
  else none

-- Where no symbol has a word, every bit stands for the first symbol.
def ofLengthsOrFirst? (lengths : List Nat) : Option Code :=
  if isComplete lengths then some (build lengths)
  else if lengths.all (· == 0) then some ⟨.leaf 0, .leaf 0⟩
  else none

end Code
end ClassAtlas.Deflate
