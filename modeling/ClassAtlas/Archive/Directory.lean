import ClassAtlas.Archive.Basic

/-!
Opening an archive. The end record is the last thing in the file, or the last one that can be
found where a comment may follow it. The central directory lies directly before it; how far it
is from where the record says is how far everything is shifted, so an archive may have other
bytes in front of it.
-/

namespace ClassAtlas.Archive

def endSignature : List UInt8 := [0x50, 0x4B, 5, 6]
def wideLocatorSignature : List UInt8 := [0x50, 0x4B, 6, 7]
def wideEndSignature : List UInt8 := [0x50, 0x4B, 6, 6]
def centralSignature : List UInt8 := [0x50, 0x4B, 1, 2]

def endSize : Nat := 22
def wideLocatorSize : Nat := 20
def wideEndSize : Nat := 56
def centralSize : Nat := 46

-- The end record with the longest comment, and one byte more.
def longestTail : Nat := 65558

-- The latest version of the format that is understood, in tenths.
def latestVersion : Nat := 63

-- The last place from `low` on up to the given one at which an end record may start.
def lastEnd (bytes : Array UInt8) (low : Nat) : Nat → Option Nat
  | 0 => if low = 0 ∧ slice bytes 0 4 = endSignature then some 0 else none
  | place + 1 =>
    if place + 1 < low then none
    else if slice bytes (place + 1) 4 = endSignature then some (place + 1)
    else lastEnd bytes low place

-- Where the end record is. Without a comment it takes the last bytes of the file.
def endPlace? (bytes : Array UInt8) : Option Nat :=
  let last := bytes.size - endSize
  let record := slice bytes last endSize
  if bytes.size < endSize then none
  else if record.take 4 = endSignature ∧ record.drop 20 = [0, 0] then some last
  else match lastEnd bytes (bytes.size - longestTail) bytes.size with
    | some place => if (slice bytes place endSize).length = endSize then some place else none
    | none => none

structure Extent where
  size : Nat
  offset : Nat
  -- records between the directory and the end record
  between : Nat

-- The directory's size and place as the end record has them, or a wide end record before it.
def extentAt (bytes : Array UInt8) (place : Nat) : Except OpenError Extent :=
  let record := slice bytes place endSize
  let narrow : Extent := ⟨field record 12 4, field record 16 4, 0⟩
  let locator := slice bytes (place - wideLocatorSize) wideLocatorSize
  let wide := slice bytes (place - wideLocatorSize - wideEndSize) wideEndSize
  if place < wideLocatorSize ∨ locator.take 4 ≠ wideLocatorSignature then .ok narrow
  else if field locator 4 4 ≠ 0 ∨ 1 < field locator 16 4 then .error .severalDisks
  else if place < wideLocatorSize + wideEndSize then .error .noDirectory
  else if wide.take 4 ≠ wideEndSignature then .ok narrow
  else .ok ⟨field wide 40 8, field wide 48 8, wideLocatorSize + wideEndSize⟩

-- A saturated field is kept in the extra field instead, eight bytes each, in this order.
def widen (name : Text) (saturated : Bool) (value : Nat) (data : List UInt8) :
    Except OpenError (Nat × List UInt8) :=
  if saturated then
    if (data.take 8).length < 8 then .error (.extraIncomplete name)
    else .ok (Bytes.littleEndian (data.take 8), data.drop 8)
  else .ok (value, data)

def widenEntry (e : Entry) (data : List UInt8) : Except OpenError Entry := do
  let (size, data) ← widen "File size" (e.size = 0xFFFFFFFF || e.size = 0xFFFFFFFFFFFFFFFF) e.size data
  let (packedSize, data) ← widen "Compress size" (e.packedSize = 0xFFFFFFFF) e.packedSize data
  let (offset, _) ← widen "Header offset" (e.headerOffset = 0xFFFFFFFF) e.headerOffset.toNat data
  return { e with size, packedSize, headerOffset := offset }

-- Extra fields one after the other; fewer than four bytes at the end are no field.
def readExtra (e : Entry) (extra : List UInt8) : Except OpenError Entry :=
  if extra.length < 4 then .ok e
  else
    let id := field extra 0 2
    let size := field extra 2 2
    if extra.length < size + 4 then .error (.extraCorrupt id size)
    else if id = 1 then do
      let e ← widenEntry e ((extra.drop 4).take size)
      readExtra e (extra.drop (size + 4))
    else readExtra e (extra.drop (size + 4))
  termination_by extra.length
  decreasing_by all_goals simp only [List.length_drop]; omega

def readEntry (header name extra : List UInt8) : Except OpenFault Entry :=
  match nameOf (field header 8 2) name with
  | .error malformation => .error (.nameMalformed malformation)
  | .ok storedName =>
    if latestVersion < field header 6 1 then .error .newerFormat
    else (readExtra
      { storedName
        flags := field header 8 2
        method := field header 10 2
        checksum := field header 16 4
        packedSize := field header 20 4
        size := field header 24 4
        headerOffset := field header 42 4 } extra).mapError .invalid

-- Entries until the size of the directory is used up; how many there are is not asked.
def readEntries (left : Nat) (directory : List UInt8) (sofar : List Entry) :
    Except OpenFault (List Entry) :=
  if left = 0 then .ok sofar.reverse
  else
    let header := directory.take centralSize
    let rest := directory.drop centralSize
    let nameSize := field header 28 2
    let extraSize := field header 30 2
    let recordSize := centralSize + nameSize + extraSize + field header 32 2
    if header.length < centralSize then .error (.invalid .directoryTruncated)
    else if header.take 4 ≠ centralSignature then .error (.invalid .directoryMalformed)
    else match readEntry header (rest.take nameSize) ((rest.drop nameSize).take extraSize) with
      | .error why => .error why
      | .ok e => readEntries (left - recordSize) (directory.drop recordSize) (e :: sofar)
  termination_by left
  decreasing_by
    simp only [centralSize]
    omega

-- Each entry's data has to end where the entry after it starts. Of entries with one header
-- the first in the directory comes last.
def limitsFrom (limit : Int) : List (Nat × Entry) → List (Nat × Entry)
  | [] => []
  | (index, e) :: later => (index, { e with limit }) :: limitsFrom e.headerOffset later

def withLimits (start : Int) (entries : List Entry) : List Entry :=
  let fromBack := (entries.zipIdx.map fun entry => (entry.2, entry.1)).mergeSort
    fun a b => b.2.headerOffset ≤ a.2.headerOffset
  ((limitsFrom start fromBack).mergeSort fun a b => a.1 ≤ b.1).map (·.2)

def ofBytes (content : List UInt8) : Except OpenFault Archive := do
  let bytes := content.toArray
  match endPlace? bytes with
  | none => .error (.invalid .noDirectory)
  | some place =>
    let extent ← (extentAt bytes place).mapError .invalid
    let shift : Int := (place : Int) - extent.between - extent.size - extent.offset
    let start := (extent.offset : Int) + shift
    if start < 0 then .error (.invalid .directoryBeforeStart)
    else
      let entries ← readEntries extent.size (slice bytes start.toNat extent.size) []
      return ⟨bytes, withLimits start
        (entries.map fun e => { e with headerOffset := e.headerOffset + shift })⟩

end ClassAtlas.Archive
