import ClassAtlas.Bytes
import ClassAtlas.ClassFile.Fault

/-!
Reading a class file from front to back. Each read takes a number of bytes or fails at the
place where it starts; a failed read takes nothing.
-/

namespace ClassAtlas.ClassFile

structure Cursor where
  offset : Nat
  rest : List UInt8

abbrev Decoder := StateT Cursor (Except Fault)

namespace Decoder

def raw (count : Nat) : Decoder (List UInt8) := fun cursor =>
  let taken := cursor.rest.take count
  if taken.length < count then .error (.truncated cursor.offset)
  else .ok (taken, ⟨cursor.offset + count, cursor.rest.drop count⟩)

def u1 : Decoder UInt8 := return UInt8.ofNat (Bytes.bigEndian (← raw 1))
def u2 : Decoder UInt16 := return UInt16.ofNat (Bytes.bigEndian (← raw 2))
def u4 : Decoder UInt32 := return UInt32.ofNat (Bytes.bigEndian (← raw 4))

def fail {α : Type} (fault : Fault) : Decoder α := fun _ => .error fault

def check {α : Type} (result : Except Fault α) : Decoder α := fun cursor =>
  match result with
  | .ok value => .ok (value, cursor)
  | .error fault => .error fault

-- The same item so many times over; what was read is held in reverse.
def timesFrom {α : Type} (item : Decoder α) : Nat → List α → Decoder (List α)
  | 0, sofar => return sofar.reverse
  | count + 1, sofar => do
    let value ← item
    timesFrom item count (value :: sofar)

def times {α : Type} (count : Nat) (item : Decoder α) : Decoder (List α) := timesFrom item count []

end Decoder
end ClassAtlas.ClassFile
