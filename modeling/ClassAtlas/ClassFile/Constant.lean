import ClassAtlas.ClassFile.Decoder
import ClassAtlas.ClassFile.ModifiedUtf8

/-!
The constant pool. A constant starts with its tag. Those whose content matters here are read
as what they are; of the others only the size is known. Indices start at one, and a constant
of eight bytes takes two of them.
-/

namespace ClassAtlas.ClassFile

-- Constants that are skipped over.
inductive Kind where
  | integer | float | long | double | string | fieldRef | methodRef | interfaceMethodRef
  | methodHandle | dynamic | invokeDynamic | module | package
  deriving DecidableEq

namespace Kind

def tag : Kind → UInt8
  | integer => 3 | float => 4 | long => 5 | double => 6 | string => 8
  | fieldRef => 9 | methodRef => 10 | interfaceMethodRef => 11
  | methodHandle => 15 | dynamic => 17 | invokeDynamic => 18 | module => 19 | package => 20

def ofTag? (tag : UInt8) : Option Kind :=
  [integer, float, long, double, string, fieldRef, methodRef, interfaceMethodRef,
    methodHandle, dynamic, invokeDynamic, module, package].find? (·.tag == tag)

def size : Kind → Nat
  | long | double => 8
  | string | module | package => 2
  | methodHandle => 3
  | integer | float | fieldRef | methodRef | interfaceMethodRef | dynamic | invokeDynamic => 4

def slots : Kind → Nat
  | long | double => 2
  | _ => 1

theorem slots_pos (kind : Kind) : 0 < kind.slots := by cases kind <;> decide

end Kind

-- A text and the bytes that spell it.
structure Spelling where
  bytes : List UInt8
  text : Text
  spelled : ModifiedUtf8.decode bytes = .ok text

inductive Constant where
  | utf8 (spelling : Spelling)
  | classRef (name : UInt16)
  | nameAndType (name descriptor : UInt16)
  | methodType (descriptor : UInt16)
  | other (kind : Kind) (payload : List UInt8)

namespace Constant

def slots : Constant → Nat
  | other kind _ => kind.slots
  | _ => 1

theorem slots_pos (c : Constant) : 0 < c.slots := by
  cases c with
  | other kind _ => exact kind.slots_pos
  | _ => exact Nat.one_pos

def readText (index : Nat) : Decoder Constant := do
  let bytes ← Decoder.raw (← Decoder.u2).toNat
  match spelled : ModifiedUtf8.decode bytes with
  | .ok text => return .utf8 ⟨bytes, text, spelled⟩
  | .error reason => Decoder.fail (.malformedUtf8 index reason)

def read (index : Nat) : Decoder Constant := do
  let tag ← Decoder.u1
  if tag = 1 then readText index
  else if tag = 7 then return .classRef (← Decoder.u2)
  else if tag = 12 then return .nameAndType (← Decoder.u2) (← Decoder.u2)
  else if tag = 16 then return .methodType (← Decoder.u2)
  else match Kind.ofTag? tag with
    | some kind => return .other kind (← Decoder.raw kind.size)
    | none => Decoder.fail (.unknownTag tag.toNat index)

end Constant

-- Constants until the running index reaches the declared count; a last one that takes two
-- indices may pass it by one.
def readPoolFrom (count index : Nat) (sofar : List Constant) : Decoder (List Constant) :=
  if index < count then do
    let constant ← Constant.read index
    readPoolFrom count (index + constant.slots) (constant :: sofar)
  else return sofar.reverse
  termination_by count - index
  decreasing_by
    have := constant.slots_pos
    omega

def readPool (count : Nat) : Decoder (List Constant) := readPoolFrom count 1 []

def numberedFrom (index : Nat) : List Constant → List (Nat × Constant)
  | [] => []
  | constant :: pool => (index, constant) :: numberedFrom (index + constant.slots) pool

def numbered (pool : List Constant) : List (Nat × Constant) := numberedFrom 1 pool

end ClassAtlas.ClassFile
