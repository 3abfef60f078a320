import ClassAtlas.Bytes
import ClassAtlas.Deflate.Huffman

/-!
Decompression of a deflate stream: blocks that are stored, or coded with the fixed codes, or
with codes of their own. The output is kept also when the stream ends early, and bytes after
the last block are left alone.
-/

namespace ClassAtlas.Deflate

open Compression
open Sized (size)

structure Stream where
  bits : Bits
  output : Array UInt8 := #[]

def Stream.halt (s : Stream) (why : Stop) : Unpacked := ⟨s.output, why.ending⟩

-- Least values and numbers of extra bits, from symbol 257 on.
def lengthTable : List (Nat × Nat) :=
  [(3, 0), (4, 0), (5, 0), (6, 0), (7, 0), (8, 0), (9, 0), (10, 0), (11, 1), (13, 1), (15, 1),
    (17, 1), (19, 2), (23, 2), (27, 2), (31, 2), (35, 3), (43, 3), (51, 3), (59, 3), (67, 4),
    (83, 4), (99, 4), (115, 4), (131, 5), (163, 5), (195, 5), (227, 5), (258, 0)]

def distanceTable : List (Nat × Nat) :=
  [(1, 0), (2, 0), (3, 0), (4, 0), (5, 1), (7, 1), (9, 2), (13, 2), (17, 3), (25, 3), (33, 4),
    (49, 4), (65, 5), (97, 5), (129, 6), (193, 6), (257, 7), (385, 7), (513, 8), (769, 8),
    (1025, 9), (1537, 9), (2049, 10), (3073, 10), (4097, 11), (6145, 11), (8193, 12),
    (12289, 12), (16385, 13), (24577, 13)]

def scaled (table : List (Nat × Nat)) (index : Nat) : Reader Bits Nat :=
  match table[index]? with
  | some (least, extra) => return least + (← Reader.number extra)
  | none => Reader.stop .corrupt

-- How long a repetition is, and how far back it starts.
def reference (distances : Code) (symbol : Nat) : Reader Bits (Nat × Nat) := do
  let length ← scaled lengthTable (symbol - 257)
  let distance ← scaled distanceTable (← distances.read)
  return (length, distance)

-- One symbol of a block, and whether the block goes on after it.
def advance (literals distances : Code) (s : Stream) : Except Unpacked (Stream × Bool) :=
  match literals.read s.bits with
  | .error why => .error (s.halt why)
  | .ok (symbol, bits) =>
    if symbol < 256 then .ok (⟨bits, s.output.push (UInt8.ofNat symbol)⟩, true)
    else if symbol = 256 then .ok ({ s with bits }, false)
    else match reference distances symbol bits with
      | .error why => .error (s.halt why)
      | .ok ((length, distance), bits) =>
        if s.output.size < distance then .error (s.halt .corrupt)
        else .ok (⟨bits, repeatFrom distance length s.output⟩, true)

theorem consumes_scaled (table : List (Nat × Nat)) (index : Nat) :
    Reader.Consumes (scaled table index) := by
  unfold scaled
  split
  · exact Reader.consumes_bind (Reader.consumes_number _) fun _ => Reader.consumes_pure _
  · exact Reader.consumes_stop _

theorem consumes_reference (distances : Code) (symbol : Nat) :
    Reader.Consumes (reference distances symbol) :=
  Reader.consumes_bind (consumes_scaled _ _) fun _ =>
    Reader.consumes_bind (Code.shortens_read _).consumes fun _ =>
      Reader.consumes_bind (consumes_scaled _ _) fun _ => Reader.consumes_pure _

theorem advance_shortens {literals distances : Code} {s next : Stream} {more : Bool}
    (h : advance literals distances s = .ok (next, more)) : size next.bits < size s.bits := by
  unfold advance at h
  split at h
  · cases h
  · rename_i symbol bits read
    have shorter := Code.shortens_read _ _ _ _ read
    split at h
    · cases h; exact shorter
    · split at h
      · cases h; exact shorter
      · split at h
        · cases h
        · rename_i length distance later found
          have := consumes_reference _ _ _ _ _ found
          split at h
          · cases h
          · cases h; exact Nat.lt_of_le_of_lt this shorter

-- The rest of a block of symbols.
def symbols (literals distances : Code) (s : Stream) : Except Unpacked Stream :=
  match _ran : advance literals distances s with
  | .error halted => .error halted
  | .ok (next, more) => if more then symbols literals distances next else .ok next
  termination_by size s.bits
  decreasing_by exact advance_shortens _ran

theorem symbols_shortens {literals distances : Code} {s next : Stream}
    (h : symbols literals distances s = .ok next) : size next.bits < size s.bits := by
  fun_induction symbols literals distances s with
  | case1 => cases h
  | case2 s later ran ih => exact Nat.lt_trans (ih h) (advance_shortens ran)
  | case3 s later more ran ended => cases h; exact advance_shortens ran

def fixedLiterals : Code :=
  Code.build (List.replicate 144 8 ++ List.replicate 112 9 ++ List.replicate 24 7 ++
    List.replicate 8 8)

def fixedDistances : Code := Code.build (List.replicate 32 5)

-- The order in which the lengths of the code for lengths are stored.
def lengthOrder : List Nat :=
  [16, 17, 18, 0, 8, 7, 9, 6, 10, 5, 11, 4, 12, 3, 13, 2, 14, 1, 15]

def inSymbolOrder (stored : List Nat) : List Nat :=
  (List.range 19).map fun symbol => ((lengthOrder.zip stored).lookup symbol).getD 0

-- What a symbol of the code for lengths stands for: a length, a repetition of the last one,
-- or a run of zeros.
def lengthRun (last : Option Nat) (symbol : Nat) : Reader Bits (List Nat) :=
  if symbol < 16 then return [symbol]
  else if symbol = 16 then do
    let count ← Reader.number 2
    return List.replicate (count + 3) (← Reader.orCorrupt last)
  else if symbol = 17 then return List.replicate ((← Reader.number 3) + 3) 0
  else return List.replicate ((← Reader.number 7) + 11) 0

theorem consumes_length_run (last : Option Nat) (symbol : Nat) :
    Reader.Consumes (lengthRun last symbol) := by
  unfold lengthRun
  split
  · exact Reader.consumes_pure _
  · split
    · exact Reader.consumes_bind (Reader.consumes_number _) fun _ =>
        Reader.consumes_bind (Reader.consumes_or_corrupt _) fun _ => Reader.consumes_pure _
    · split
      · exact Reader.consumes_bind (Reader.consumes_number _) fun _ => Reader.consumes_pure _
      · exact Reader.consumes_bind (Reader.consumes_number _) fun _ => Reader.consumes_pure _

-- So many code lengths, held in reverse; a run must not pass the end.
def codeLengths (code : Code) (total : Nat) (sofar : List Nat) : Reader Bits (List Nat) := fun bits =>
  if total ≤ sofar.length then
    if total = sofar.length then .ok (sofar.reverse, bits) else .error .corrupt
  else
    match _first : code.read bits with
    | .error why => .error why
    | .ok (symbol, between) =>
      match _run : lengthRun sofar.head? symbol between with
      | .error why => .error why
      | .ok (run, later) => codeLengths code total (run ++ sofar) later
  termination_by bits => size bits
  decreasing_by
    exact Nat.lt_of_le_of_lt (consumes_length_run _ _ _ _ _ _run) (Code.shortens_read _ _ _ _ _first)

theorem consumes_code_lengths (code : Code) (total : Nat) (sofar : List Nat) :
    Reader.Consumes (codeLengths code total sofar) := by
  intro bits value later h
  fun_induction codeLengths code total sofar bits with
  | case1 sofar bits full exact => cases h; exact Nat.le_refl _
  | case2 => cases h
  | case3 => cases h
  | case4 => cases h
  | case5 sofar bits open_ symbol between first run rest ran ih =>
    exact Nat.le_trans (ih h) (Nat.le_trans (consumes_length_run _ _ _ _ _ ran)
      ((Code.shortens_read _).consumes _ _ _ first))

-- The codes of one block. Without a word for the end of the block they are refused.
def ownCodes : Reader Bits (Code × Code) := do
  let sizes ← Reader.number 14
  let literalCount := sizes % 32 + 257
  let distanceCount := sizes / 32 % 32 + 1
  Reader.ensure (literalCount ≤ 286 && distanceCount ≤ 30)
  let stored ← Reader.times (Reader.number 3) (sizes / 1024 + 4)
  let code ← Reader.orCorrupt (Code.ofLengthsOrFirst? (inSymbolOrder stored))
  let lengths ← codeLengths code (literalCount + distanceCount) []
  Reader.ensure (lengths[256]? != some 0)
  let literals ← Reader.orCorrupt (Code.ofLengths? (lengths.take literalCount))
  let distances ← Reader.orCorrupt (Code.ofLengths? (lengths.drop literalCount))
  return (literals, distances)

theorem consumes_own_codes : Reader.Consumes ownCodes :=
  Reader.consumes_bind (Reader.consumes_number _) fun _ =>
    Reader.consumes_bind (Reader.consumes_ensure _) fun _ =>
      Reader.consumes_bind (Reader.consumes_times (Reader.consumes_number _) _) fun _ =>
        Reader.consumes_bind (Reader.consumes_or_corrupt _) fun _ =>
          Reader.consumes_bind (consumes_code_lengths _ _ _) fun _ =>
            Reader.consumes_bind (Reader.consumes_ensure _) fun _ =>
              Reader.consumes_bind (Reader.consumes_or_corrupt _) fun _ =>
                Reader.consumes_bind (Reader.consumes_or_corrupt _) fun _ => Reader.consumes_pure _

-- Bytes as they are, from the next whole byte on: their number, its complement, and they.
def storedBlock (s : Stream) : Except Unpacked Stream :=
  let header := s.bits.rest.take 4
  let count := Bytes.littleEndian (header.take 2)
  let content := (s.bits.rest.drop 4).take count
  let output := s.output ++ content.toArray
  if header.length < 4 then .error (s.halt .truncated)
  else if count + Bytes.littleEndian (header.drop 2) ≠ 65535 then .error (s.halt .corrupt)
  else if content.length < count then .error ⟨output, .truncated⟩
  else .ok ⟨{ rest := (s.bits.rest.drop 4).drop count }, output⟩

def block (kind : Nat) (s : Stream) : Except Unpacked Stream :=
  if kind = 0 then storedBlock s
  else if kind = 1 then symbols fixedLiterals fixedDistances s
  else if kind = 2 then
    match ownCodes s.bits with
    | .error why => .error (s.halt why)
    | .ok ((literals, distances), bits) => symbols literals distances { s with bits }
  else .error (s.halt .corrupt)

theorem block_shortens {kind : Nat} {s next : Stream} (h : block kind s = .ok next) :
    size next.bits ≤ size s.bits := by
  unfold block at h
  split at h
  · unfold storedBlock at h
    dsimp only at h
    split at h
    · cases h
    · split at h
      · cases h
      · split at h
        · cases h
        · cases h
          simp only [size, List.length_drop]
          omega
  · split at h
    · exact Nat.le_of_lt (symbols_shortens h)
    · split at h
      · split at h
        · cases h
        · rename_i found
          exact Nat.le_trans (Nat.le_of_lt (symbols_shortens h)) (consumes_own_codes _ _ _ found)
      · cases h

def blocks (s : Stream) : Unpacked :=
  match _header : Reader.number 3 s.bits with
  | .error why => s.halt why
  | .ok (header, bits) =>
    match _block : block (header / 2) { s with bits } with
    | .error halted => halted
    | .ok next => if header % 2 = 1 then ⟨next.output, .finished⟩ else blocks next
  termination_by size s.bits
  decreasing_by
    apply Nat.lt_of_le_of_lt (block_shortens _block)
    exact Reader.shortens_number 2 _ _ _ _header

def inflate (bytes : List UInt8) : Unpacked := blocks { bits := { rest := bytes } }

end ClassAtlas.Deflate
