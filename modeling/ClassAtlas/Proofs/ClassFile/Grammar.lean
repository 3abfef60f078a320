import ClassAtlas.ClassFile.Basic
import ClassAtlas.Proofs.Bytes
import ClassAtlas.Proofs.ClassFile.Layout

/-!
The grammar of class files: the fields of each part in the order in which they are stored,
and the sizes a part may have.
-/

namespace ClassAtlas

open Bytes (spell)

namespace ClassFile

def word (n : UInt16) : Field := spell 2 n.toNat

-- A list behind the number of its items.
def table {α : Type} (layout : α → List Field) (items : List α) : List Field :=
  spell 2 items.length :: items.flatMap layout

def TableSized {α : Type} (Sized : α → Prop) (items : List α) : Prop :=
  items.length < 65536 ∧ ∀ item, item ∈ items → Sized item

namespace Constant

def tag : Constant → UInt8
  | utf8 _ => 1
  | classRef _ => 7
  | nameAndType _ _ => 12
  | methodType _ => 16
  | other kind _ => kind.tag

def payload : Constant → List Field
  | utf8 spelling => [spell 2 spelling.bytes.length, spelling.bytes]
  | classRef name => [word name]
  | nameAndType name descriptor => [word name, word descriptor]
  | methodType descriptor => [word descriptor]
  | other _ payload => [payload]

def layout (c : Constant) : List Field := [c.tag] :: c.payload

def Sized : Constant → Prop
  | utf8 spelling => spelling.bytes.length < 65536
  | other kind payload => payload.length = kind.size
  | _ => True

end Constant

-- The constants take the indices from `index` on and reach the declared count with the last one.
def Fills (count : Nat) : (index : Nat) → List Constant → Prop
  | index, [] => count ≤ index
  | index, constant :: pool => index < count ∧ Fills count (index + constant.slots) pool

end ClassFile

namespace Attribute

def layout (a : Attribute) : List ClassFile.Field :=
  [ClassFile.word a.name, spell 4 a.content.length, a.content]

def Sized (a : Attribute) : Prop := a.content.length < 4294967296

end Attribute

namespace Member

def layout (m : Member) : List ClassFile.Field :=
  [ClassFile.word m.access, ClassFile.word m.name, ClassFile.word m.descriptor] ++
    ClassFile.table Attribute.layout m.attributes

def Sized (m : Member) : Prop := ClassFile.TableSized Attribute.Sized m.attributes

end Member

namespace ClassFile

def layout (file : ClassFile) : List Field :=
  [spell 4 magic.toNat, word file.minor, word file.major, word file.poolCount] ++
    file.pool.flatMap Constant.layout ++
    [word file.access, word file.thisClass, word file.superClass] ++
    [spell 2 file.interfaces.length, file.interfaces.flatMap word] ++
    table Member.layout file.fields ++ table Member.layout file.methods ++
    table Attribute.layout file.attributes

structure Sized (file : ClassFile) : Prop where
  filled : Fills file.poolCount.toNat 1 file.pool
  pool : ∀ constant, constant ∈ file.pool → constant.Sized
  interfaces : file.interfaces.length < 65536
  fields : TableSized Member.Sized file.fields
  methods : TableSized Member.Sized file.methods
  attributes : TableSized Attribute.Sized file.attributes

def serialize (file : ClassFile) : List UInt8 := file.layout.flatten

end ClassFile
end ClassAtlas
