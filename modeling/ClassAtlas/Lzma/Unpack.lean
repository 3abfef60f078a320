import ClassAtlas.Bytes
import ClassAtlas.Lzma.RangeCoder

/-!
Decompression of LZMA data: bytes, and repetitions of what came before. How likely each bit is
depends on what it belongs to and on the kinds of the last few items. The output is kept also when
the data ends early, and bytes after the mark of the end are left alone.
-/

namespace ClassAtlas.Lzma

open Compression
open Coder (bit tree lowFirst)
open Sized (size)

-- How many bits of the place and of the byte before have an influence, and how far back a
-- repetition may start.
structure Settings where
  placeBits : Nat
  literalPlaceBits : Nat
  literalByteBits : Nat
  window : Nat

-- Five bytes: three numbers in one, and the size of the window, which is never very small.
def Settings.ofBytes? : List UInt8 → Option Settings
  | numbers :: window =>
    let literalByteBits := numbers.toNat % 9
    let literalPlaceBits := numbers.toNat / 9 % 5
    let placeBits := numbers.toNat / 45
    if window.length = 4 ∧ placeBits ≤ 4 ∧ literalByteBits + literalPlaceBits ≤ 4 then
      let window := (max (Bytes.littleEndian window) 4096 + 15) / 16 * 16
      some { placeBits, literalPlaceBits, literalByteBits, window }
    else none
  | [] => none

/-! What is decided, one after the other in the table of chances. -/

def itemAt (state place : Nat) : Nat := 16 * state + place
def knownAt (state : Nat) : Nat := 192 + state
def latestAt (state : Nat) : Nat := 204 + state
def secondAt (state : Nat) : Nat := 216 + state
def thirdAt (state : Nat) : Nat := 228 + state
def longAt (state place : Nat) : Nat := 240 + 16 * state + place
def slotsAt (length : Nat) : Nat := 432 + 64 * min (length - 2) 3
def nearAt : Nat := 688
def alignedAt : Nat := 803
def newLengthAt : Nat := 819
def knownLengthAt : Nat := 1333
def literalsAt : Nat := 1847

-- The kinds of the last few items: below seven the last one was a byte.
structure History where
  state : Nat := 0
  -- how far back the last four repetitions started, the latest first
  distances : List Nat := [0, 0, 0, 0]
  output : Array UInt8 := #[]

namespace History
variable (h : History)

def back (distance : Nat) : UInt8 := h.output.getD (h.output.size - 1 - distance) 0

def push (b : UInt8) : History :=
  { h with
    state := if h.state < 4 then 0 else if h.state < 10 then h.state - 3 else h.state - 6
    output := h.output.push b }

def pushAgain : History :=
  { h with
    state := if h.state < 7 then 9 else 11
    output := h.output.push (h.back (h.distances.headD 0)) }

def copy (distance length : Nat) : History :=
  { h with
    state := if h.state < 7 then 7 else 10
    distances := distance :: h.distances.take 3
    output := repeatFrom (distance + 1) length h.output }

def copyKnown (which length : Nat) : History :=
  let distance := h.distances.getD which 0
  { h with
    state := if h.state < 7 then 8 else 11
    distances := distance :: h.distances.eraseIdx which
    output := repeatFrom (distance + 1) length h.output }

end History

-- The bits of a byte, as long as they are those of the byte they are likely to repeat.
def likeByte (base : Nat) (expected : Nat) : (left node : Nat) → Reader Coder Nat
  | 0, node => return node
  | left + 1, node => do
    let likely := (expected >>> left) % 2
    let value ← bit (base + 256 * (1 + likely) + node)
    if value = likely then likeByte base expected left (2 * node + value)
    else tree base left (2 * node + value)

theorem consumes_like_byte (base expected left node : Nat) :
    Reader.Consumes (likeByte base expected left node) := by
  induction left generalizing node with
  | zero => exact Reader.consumes_pure _
  | succ left ih =>
    refine Reader.consumes_bind (Coder.shortens_bit _).consumes fun value => ?_
    split
    · exact ih _
    · exact Coder.consumes_tree _ _ _

-- After a repetition the byte is likely not the one that it would have gone on with.
def literalValue (h : History) (base : Nat) : Reader Coder Nat :=
  if h.state < 7 then tree base 8 1
  else likeByte base (h.back (h.distances.headD 0)).toNat 8 1

def literal (settings : Settings) (h : History) : Reader Coder (Option History) := do
  let place := h.output.size % (1 <<< settings.literalPlaceBits)
  let before := (h.back 0).toNat >>> (8 - settings.literalByteBits)
  let value ← literalValue h
    (literalsAt + 768 * (place <<< settings.literalByteBits + before))
  return some (h.push (UInt8.ofNat value))

theorem consumes_literal (settings : Settings) (h : History) :
    Reader.Consumes (literal settings h) := by
  refine Reader.consumes_bind ?_ fun _ => Reader.consumes_pure _
  unfold literalValue
  split
  · exact Coder.consumes_tree _ _ _
  · exact consumes_like_byte _ _ _ _

def length (base place : Nat) : Reader Coder Nat := do
  if (← bit base) = 0 then return (← tree (base + 2 + 8 * place) 3 1) - 8 + 2
  else if (← bit (base + 1)) = 0 then return (← tree (base + 130 + 8 * place) 3 1) - 8 + 10
  else return (← tree (base + 258) 8 1) - 256 + 18

theorem consumes_length (base place : Nat) : Reader.Consumes (length base place) := by
  refine Reader.consumes_bind (Coder.shortens_bit _).consumes fun long => ?_
  split
  · exact Reader.consumes_bind (Coder.consumes_tree _ _ _) fun _ => Reader.consumes_pure _
  · refine Reader.consumes_bind (Coder.shortens_bit _).consumes fun longer => ?_
    split
    · exact Reader.consumes_bind (Coder.consumes_tree _ _ _) fun _ => Reader.consumes_pure _
    · exact Reader.consumes_bind (Coder.consumes_tree _ _ _) fun _ => Reader.consumes_pure _

-- The highest bits first; of the others the four lowest may be more likely one than the other.
def distance (length : Nat) : Reader Coder Nat := do
  let slot := (← tree (slotsAt length) 6 1) - 64
  let lower := slot / 2 - 1
  let start := (2 + slot % 2) <<< lower
  if slot < 4 then return slot
  else if slot < 14 then return start + (← lowFirst (nearAt + (start - slot)) lower 1)
  else
    let middle ← Coder.number (lower - 4)
    return start + 16 * middle + (← lowFirst alignedAt 4 1)

theorem consumes_distance (length : Nat) : Reader.Consumes (distance length) := by
  refine Reader.consumes_bind (Coder.consumes_tree _ _ _) fun slot => ?_
  dsimp only
  split
  · exact Reader.consumes_pure _
  · split
    · exact Reader.consumes_bind (Coder.consumes_low_first _ _ _) fun _ => Reader.consumes_pure _
    · exact Reader.consumes_bind (Coder.consumes_number _) fun _ =>
        Reader.consumes_bind (Coder.consumes_low_first _ _ _) fun _ => Reader.consumes_pure _

def endMark : Nat := 0xFFFFFFFF

-- A repetition from a new distance, or the mark of the end.
def repetition (settings : Settings) (h : History) (place : Nat) :
    Reader Coder (Option History) := do
  let count ← length newLengthAt place
  let back ← distance count
  if back = endMark then
    Coder.finish
    return none
  else
    Reader.ensure (back < min h.output.size settings.window)
    return some (h.copy back count)

theorem consumes_repetition (settings : Settings) (h : History) (place : Nat) :
    Reader.Consumes (repetition settings h place) := by
  refine Reader.consumes_bind (consumes_length _ _) fun count => ?_
  refine Reader.consumes_bind (consumes_distance _) fun back => ?_
  split
  · exact Reader.consumes_bind Coder.consumes_finish fun _ => Reader.consumes_pure _
  · exact Reader.consumes_bind (Reader.consumes_ensure _) fun _ => Reader.consumes_pure _

-- A repetition from one of the last four distances.
def knownRepetition (h : History) (place which : Nat) : Reader Coder (Option History) := do
  return some (h.copyKnown which (← length knownLengthAt place))

theorem consumes_known_repetition (h : History) (place which : Nat) :
    Reader.Consumes (knownRepetition h place which) :=
  Reader.consumes_bind (consumes_length _ _) fun _ => Reader.consumes_pure _

def fromKnown (h : History) (place : Nat) : Reader Coder (Option History) := do
  Reader.ensure (h.output.size ≠ 0)
  if (← bit (latestAt h.state)) = 0 then
    if (← bit (longAt h.state place)) = 0 then return some h.pushAgain
    else knownRepetition h place 0
  else if (← bit (secondAt h.state)) = 0 then knownRepetition h place 1
  else if (← bit (thirdAt h.state)) = 0 then knownRepetition h place 2
  else knownRepetition h place 3

theorem consumes_from_known (h : History) (place : Nat) : Reader.Consumes (fromKnown h place) := by
  refine Reader.consumes_bind (Reader.consumes_ensure _) fun _ => ?_
  refine Reader.consumes_bind (Coder.shortens_bit _).consumes fun latest => ?_
  split
  · refine Reader.consumes_bind (Coder.shortens_bit _).consumes fun long => ?_
    split
    · exact Reader.consumes_pure _
    · exact consumes_known_repetition _ _ _
  · refine Reader.consumes_bind (Coder.shortens_bit _).consumes fun second => ?_
    split
    · exact consumes_known_repetition _ _ _
    · refine Reader.consumes_bind (Coder.shortens_bit _).consumes fun third => ?_
      split
      · exact consumes_known_repetition _ _ _
      · exact consumes_known_repetition _ _ _

-- What comes of the next item, or that there is none.
def item (settings : Settings) (h : History) : Reader Coder (Option History) := do
  let place := h.output.size % (1 <<< settings.placeBits)
  if (← bit (itemAt h.state place)) = 0 then literal settings h
  else if (← bit (knownAt h.state)) = 0 then repetition settings h place
  else fromKnown h place

theorem shortens_item (settings : Settings) (h : History) : Reader.Shortens (item settings h) := by
  refine Reader.shortens_bind (Coder.shortens_bit _) fun kind => ?_
  split
  · exact consumes_literal _ _
  · refine Reader.consumes_bind (Coder.shortens_bit _).consumes fun known => ?_
    split
    · exact consumes_repetition _ _ _
    · exact consumes_from_known _ _

def items (settings : Settings) (h : History) (c : Coder) : Unpacked :=
  match _read : item settings h c with
  | .error why => ⟨h.output, why.ending⟩
  | .ok (none, _) => ⟨h.output, .finished⟩
  | .ok (some next, later) => items settings next later
  termination_by size c
  decreasing_by exact shortens_item _ _ _ _ _ _read

-- The first byte is none of the place, which four more bytes tell.
def start (settings : Settings) (data : List UInt8) : Except Stop Coder :=
  if data.head?.any (· ≠ 0) then .error .corrupt
  else if data.length < 5 then .error .truncated
  else .ok {
    range := Coder.words - 1
    place := Bytes.bigEndian (data.take 5)
    rest := data.drop 5
    chances := Array.replicate
      (literalsAt + 768 <<< (settings.literalPlaceBits + settings.literalByteBits)) .even }

-- A version, the size of the settings, and they come before the data.
def unpack (bytes : List UInt8) : Unpacked :=
  let settingsSize := Bytes.littleEndian ((bytes.drop 2).take 2)
  let data := bytes.drop (4 + settingsSize)
  if data = [] then ⟨#[], .truncated⟩
  else match Settings.ofBytes? ((bytes.drop 4).take settingsSize) with
    | none => ⟨#[], .corrupt⟩
    | some settings =>
      match start settings data with
      | .error why => ⟨#[], why.ending⟩
      | .ok c => items settings {} c

end ClassAtlas.Lzma
