import ClassAtlas.Archive.Basic
import ClassAtlas.Bzip2.Unpack
import ClassAtlas.Deflate.Inflate
import ClassAtlas.Lzma.Unpack

/-!
The content of one entry. Sizes, method, flags and checksum are those of the central
directory; the local header only has to repeat the name and says where the data starts.
-/

namespace ClassAtlas.Archive

-- An unreadable entry can be passed over. The lack of a name, a malformed one, a header where no
-- file can reach, and corrupt data cannot.
inductive EntryFault where
  | unreadable
  | nameless
  | nameMalformed (malformation : Utf8.Malformation)
  | beyondReach
  | corruptData
  deriving DecidableEq

def localSignature : List UInt8 := [0x50, 0x4B, 3, 4]
def localSize : Nat := 30

def encrypted : Nat := 0x1
def patched : Nat := 0x20
def stronglyEncrypted : Nat := 0x40

def localName (flags : Nat) (bytes : List UInt8) : Except EntryFault Text :=
  match nameOf flags bytes with
  | .ok name => .ok name
  | .error malformation => .error (.nameMalformed malformation)

-- Offsets into a file are signed and have 64 bits.
def isOffset (n : Int) : Bool := -0x8000000000000000 ≤ n && n < 0x8000000000000000

-- Where the data starts, if the local header belongs to the entry and the data can be read.
def dataStart (archive : Archive) (e : Entry) : Except EntryFault Nat := do
  if !isOffset e.headerOffset then throw .beyondReach
  if e.headerOffset < 0 then throw .unreadable
  let offset := e.headerOffset.toNat
  let header := slice archive.bytes offset localSize
  if header.length < localSize ∨ header.take 4 ≠ localSignature then throw .unreadable
  let nameSize := field header 26 2
  let nameBytes := slice archive.bytes (offset + localSize) nameSize
  if hasFlag e.flags patched ∨ hasFlag e.flags stronglyEncrypted then throw .unreadable
  let name ← localName (field header 6 2) nameBytes
  let start := min (offset + localSize + nameSize + field header 28 2) archive.bytes.size
  if name ≠ e.storedName ∨ e.limit < start + e.packedSize ∨ hasFlag e.flags encrypted then
    throw .unreadable
  return start

-- Data that is cut off counts if it already gives all of the content.
def enough (e : Entry) (packed : List UInt8) (unpackedSize : Nat) : Bool :=
  e.packedSize ≤ packed.length || (!packed.isEmpty && e.size ≤ unpackedSize)

-- How data is compressed, by the numbers of the format; there are others that are not understood.
inductive Method where
  | deflate
  | bzip2
  | lzma
  deriving DecidableEq

namespace Method

def ofNumber? : Nat → Option Method
  | 8 => some .deflate
  | 12 => some .bzip2
  | 14 => some .lzma
  | _ => none

def unpack : Method → List UInt8 → Compression.Unpacked
  | .deflate => Deflate.inflate
  | .bzip2 => Bzip2.unpack
  | .lzma => Lzma.unpack

-- What corrupt data is taken for: with one of the methods for data that could not be read.
def corruption : Method → EntryFault
  | .bzip2 => .unreadable
  | .deflate | .lzma => .corruptData

end Method

def unpack (e : Entry) (packed : List UInt8) : Except EntryFault (List UInt8) :=
  if e.method = 0 then
    if enough e packed packed.length then .ok (packed.take e.size) else .error .unreadable
  else
    match Method.ofNumber? e.method with
    | none => .error .unreadable
    | some method =>
      let unpacked := method.unpack packed
      match unpacked.ending with
      | .corrupt => .error method.corruption
      | .finished => .ok (unpacked.output.toList.take e.size)
      | .truncated =>
        if enough e packed unpacked.output.size then .ok (unpacked.output.toList.take e.size)
        else .error .unreadable

def content (archive : Archive) (e : Entry) : Except EntryFault (List UInt8) := do
  if e.name = [] then throw .nameless
  let start ← dataStart archive e
  let bytes ← unpack e (slice archive.bytes start e.packedSize)
  if (Crc32.checksum bytes).toNat ≠ e.checksum then throw .unreadable
  return bytes

end ClassAtlas.Archive
