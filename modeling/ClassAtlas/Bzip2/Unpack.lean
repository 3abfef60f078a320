import ClassAtlas.Bzip2.Block

/-!
Decompression of a bzip2 stream: blocks with codes of their own, and checksums. The output of whole
blocks is kept also when the stream ends early, and bytes after the last block are left alone.
-/

namespace ClassAtlas.Bzip2

open Compression
open Sized (size)

def expect : List Nat → Reader Bits Unit
  | [] => return ()
  | b :: bytes => do
    Reader.ensure ((← number 8) = b)
    expect bytes

theorem consumes_expect (bytes : List Nat) : Reader.Consumes (expect bytes) := by
  induction bytes with
  | nil => exact Reader.consumes_pure _
  | cons b bytes ih =>
    exact Reader.consumes_bind (consumes_number 8) fun _ =>
      Reader.consumes_bind (Reader.consumes_ensure _) fun _ => ih

-- The bytes that occur, in sixteen groups; a group without any is left out.
def inUse : Reader Bits (List UInt8) := do
  let groups ← Reader.times Reader.bit 16
  let marks ← Reader.each (groups.map fun present =>
    if present = 0 then return List.replicate 16 0 else Reader.times Reader.bit 16)
  return (marks.flatten.zipIdx.filter (·.1 = 1)).map fun mark => UInt8.ofNat mark.2

theorem consumes_in_use : Reader.Consumes inUse := by
  refine Reader.consumes_bind (consumes_bits 16) fun groups => ?_
  refine Reader.consumes_bind (Reader.consumes_each fun reader member => ?_) fun _ =>
    Reader.consumes_pure _
  obtain ⟨present, _, rfl⟩ := List.mem_map.mp member
  split
  · exact Reader.consumes_pure _
  · exact consumes_bits 16

-- A number below the limit, in ones.
def rank : (limit : Nat) → Reader Bits Nat
  | 0 => Reader.stop .corrupt
  | limit + 1 => do
    if (← Reader.bit) = 0 then return 0 else return (← rank limit) + 1

theorem consumes_rank (limit : Nat) : Reader.Consumes (rank limit) := by
  induction limit with
  | zero => exact Reader.consumes_stop _
  | succ limit ih =>
    refine Reader.consumes_bind Reader.shortens_bit.consumes fun bit => ?_
    split
    · exact Reader.consumes_pure _
    · exact Reader.consumes_bind ih fun _ => Reader.consumes_pure _

-- Each rank is that of a code among the latest ones.
def ranked : (ranks : List Nat) → (latest : List Code) → List Code
  | [], _ => []
  | rank :: ranks, latest =>
    match latest[rank]? with
    | none => []
    | some code => code :: ranked ranks (code :: latest.eraseIdx rank)

-- So many symbols are read with a code before the next one is chosen, and so often, which is
-- enough for the longest block; further choices are not looked at.
def groupSize : Nat := 50
def mostChoices : Nat := 18002

-- The codes that the symbols of a block are read with, one for each symbol.
def schedule (symbols : Nat) : Reader Bits (List Code) := do
  let codeCount ← number 3
  Reader.ensure (2 ≤ codeCount && codeCount ≤ 6)
  let choices ← number 15
  Reader.ensure (choices ≠ 0)
  let ranks ← Reader.times (rank codeCount) choices
  let codes ← Reader.times (ownCode symbols) codeCount
  return (ranked (ranks.take mostChoices) codes).flatMap (List.replicate groupSize)

theorem consumes_schedule (symbols : Nat) : Reader.Consumes (schedule symbols) :=
  Reader.consumes_bind (consumes_number 3) fun _ =>
    Reader.consumes_bind (Reader.consumes_ensure _) fun _ =>
      Reader.consumes_bind (consumes_number 15) fun _ =>
        Reader.consumes_bind (Reader.consumes_ensure _) fun _ =>
          Reader.consumes_bind (Reader.consumes_times (consumes_rank _) _) fun _ =>
            Reader.consumes_bind (Reader.consumes_times (consumes_own_code _) _) fun _ =>
              Reader.consumes_pure _

-- A block that holds so many bytes, and its checksum.
def block (limit : Nat) : Reader Bits (Array UInt8 × UInt32) := do
  let stored := UInt32.ofNat (← Reader.number 32)
  let disturbed ← Reader.bit
  let row ← number 24
  Reader.ensure (row ≤ limit + 10)
  let used ← inUse
  Reader.ensure (used ≠ [])
  let codes ← schedule (used.length + 2)
  let column ← Column.read limit (used.length + 1) codes { front := used }
  Reader.ensure (row < column.size)
  let bytes := rowOf column row
  let output ← Reader.orCorrupt (lengthened? (if disturbed = 1 then undisturbed bytes else bytes))
  Reader.ensure (checksum output = stored)
  return (output, stored)

theorem consumes_block (limit : Nat) : Reader.Consumes (block limit) :=
  Reader.consumes_bind (Reader.consumes_number 32) fun _ =>
    Reader.consumes_bind Reader.shortens_bit.consumes fun _ =>
      Reader.consumes_bind (consumes_number 24) fun _ =>
        Reader.consumes_bind (Reader.consumes_ensure _) fun _ =>
          Reader.consumes_bind consumes_in_use fun _ =>
            Reader.consumes_bind (Reader.consumes_ensure _) fun _ =>
              Reader.consumes_bind (consumes_schedule _) fun _ =>
                Reader.consumes_bind (Column.consumes_read _ _ _ _) fun _ =>
                  Reader.consumes_bind (Reader.consumes_ensure _) fun _ =>
                    Reader.consumes_bind (Reader.consumes_or_corrupt _) fun _ =>
                      Reader.consumes_bind (Reader.consumes_ensure _) fun _ =>
                        Reader.consumes_pure _

-- Whether another block begins; otherwise the stream ends.
def continues : Reader Bits Bool := do
  let first ← number 8
  if first = 0x31 then
    expect [0x41, 0x59, 0x26, 0x53, 0x59]
    return true
  else
    Reader.ensure (first = 0x17)
    expect [0x72, 0x45, 0x38, 0x50, 0x90]
    return false

theorem shortens_continues : Reader.Shortens continues := by
  refine Reader.shortens_bind (shortens_number 7) fun first => ?_
  split
  · exact Reader.consumes_bind (consumes_expect _) fun _ => Reader.consumes_pure _
  · exact Reader.consumes_bind (Reader.consumes_ensure _) fun _ =>
      Reader.consumes_bind (consumes_expect _) fun _ => Reader.consumes_pure _

structure Stream where
  bits : Bits
  output : Array UInt8 := #[]
  -- the checksums of the blocks, put together
  combined : UInt32 := 0

def Stream.halt (s : Stream) (why : Stop) : Unpacked := ⟨s.output, why.ending⟩

def Stream.push (s : Stream) (output : Array UInt8) (sum : UInt32) (bits : Bits) : Stream :=
  ⟨bits, s.output ++ output, ((s.combined >>> 1) ||| (s.combined <<< 31)) ^^^ sum⟩

def blocks (limit : Nat) (s : Stream) : Unpacked :=
  match _begins : continues s.bits with
  | .error why => s.halt why
  | .ok (false, bits) =>
    match Reader.number 32 bits with
    | .error why => s.halt why
    | .ok (stored, _) => ⟨s.output, if UInt32.ofNat stored = s.combined then .finished else .corrupt⟩
  | .ok (true, bits) =>
    match _block : block limit bits with
    | .error why => s.halt why
    | .ok ((output, sum), later) => blocks limit (s.push output sum later)
  termination_by size s.bits
  decreasing_by
    exact Nat.lt_of_le_of_lt (consumes_block _ _ _ _ _block) (shortens_continues _ _ _ _begins)

-- A stream begins with its name, and with the size of its blocks as a digit.
def header : Reader Bits Nat := do
  expect [0x42, 0x5A, 0x68]
  let digit ← number 8
  Reader.ensure ('1'.toNat ≤ digit && digit ≤ '9'.toNat)
  return (digit - '0'.toNat) * 100000

def unpack (bytes : List UInt8) : Unpacked :=
  match header { rest := bytes.map turned } with
  | .error why => ⟨#[], why.ending⟩
  | .ok (limit, bits) => blocks limit { bits }

end ClassAtlas.Bzip2
