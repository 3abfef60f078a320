import ClassAtlas.ClassFile.Constant
import Std.Data.ExtTreeMap

/-!
The parts of a class file, in the order in which they are stored. Names of class constants
are looked up as soon as the pool is complete, and the class itself as soon as its index is
read; what the rest of the file refers to is looked up by whoever asks for it.
-/

namespace ClassAtlas

structure Attribute where
  name : UInt16
  content : List UInt8

-- A field or a method.
structure Member where
  access : UInt16
  name : UInt16
  descriptor : UInt16
  attributes : List Attribute

structure ClassFile where
  minor : UInt16
  major : UInt16
  poolCount : UInt16
  pool : List ClassFile.Constant
  access : UInt16
  thisClass : UInt16
  superClass : UInt16
  interfaces : List UInt16
  fields : List Member
  methods : List Member
  attributes : List Attribute

namespace ClassFile

abbrev TextTable := Std.ExtTreeMap Nat Text

def addText (table : TextTable) (entry : Nat × Constant) : TextTable :=
  match entry.2 with
  | .utf8 spelling => table.insert entry.1 spelling.text
  | _ => table

def textTable (pool : List Constant) : TextTable := (numbered pool).foldl addText ∅

def TextTable.lookup (table : TextTable) (index : Nat) : Except Fault Text :=
  match table[index]? with
  | some text => .ok text
  | none => .error (.notUtf8 index)

def classEntries (pool : List Constant) : List (Nat × Nat) :=
  (numbered pool).filterMap fun entry =>
    match entry.2 with
    | .classRef name => some (entry.1, name.toNat)
    | _ => none

-- The class constants by index, each with the name it stands for.
def classNames (pool : List Constant) : Except Fault (List (Nat × Text)) :=
  let table := textTable pool
  (classEntries pool).mapM fun entry => return (entry.1, ← table.lookup entry.2)

def classNamed (names : List (Nat × Text)) (index : Nat) : Except Fault Text :=
  match names.lookup index with
  | some name => .ok name
  | none => .error (.notClass index)

def words : List UInt8 → List UInt16
  | high :: low :: rest => UInt16.ofNat (Bytes.bigEndian [high, low]) :: words rest
  | _ => []

namespace Decoder

def readInterfaces : Decoder (List UInt16) := do return words (← raw (2 * (← u2).toNat))

def readAttribute : Decoder Attribute := do
  let name ← u2
  let length ← u4
  return ⟨name, ← raw length.toNat⟩

def readAttributes : Decoder (List Attribute) := do times (← u2).toNat readAttribute

def readMember : Decoder Member := return ⟨← u2, ← u2, ← u2, ← readAttributes⟩

def readMembers : Decoder (List Member) := do times (← u2).toNat readMember

end Decoder

def magic : UInt32 := 0xCAFEBABE

def read : Decoder ClassFile := do
  if (← Decoder.u4) ≠ magic then Decoder.fail .badMagic
  let minor ← Decoder.u2
  let major ← Decoder.u2
  let poolCount ← Decoder.u2
  let pool ← readPool poolCount.toNat
  let names ← Decoder.check (classNames pool)
  let access ← Decoder.u2
  let thisClass ← Decoder.u2
  let _ ← Decoder.check (classNamed names thisClass.toNat)
  let superClass ← Decoder.u2
  let interfaces ← Decoder.readInterfaces
  let fields ← Decoder.readMembers
  let methods ← Decoder.readMembers
  let attributes ← Decoder.readAttributes
  return { minor, major, poolCount, pool, access, thisClass, superClass, interfaces,
           fields, methods, attributes }

end ClassFile
end ClassAtlas
