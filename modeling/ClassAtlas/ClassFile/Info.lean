import ClassAtlas.ClassFile.Basic
import ClassAtlas.ClassFile.Descriptor
import ClassAtlas.ClassInfo

/-!
What a class file tells about its class: the name, and the names of the classes it refers to,
each where it is first seen. Class constants come first, then descriptors, then signatures.
-/

namespace ClassAtlas

namespace ClassFile

def signatureName : Text := "Signature"

-- An attribute that holds the index of a generic signature and nothing else.
def signatureIndex? (table : TextTable) (a : Attribute) : Option Nat :=
  if table[a.name.toNat]? = some signatureName ∧ a.content.length = 2 then
    some (Bytes.bigEndian a.content)
  else none

def poolDescriptor? : Constant → Option Nat
  | .nameAndType _ descriptor => some descriptor.toNat
  | .methodType descriptor => some descriptor.toNat
  | _ => none

def members (file : ClassFile) : List Member := file.fields ++ file.methods

def descriptorIndices (file : ClassFile) : List Nat :=
  file.pool.filterMap poolDescriptor? ++ file.members.map (·.descriptor.toNat)

def signatureIndices (file : ClassFile) (table : TextTable) : List Nat :=
  (file.members.flatMap (·.attributes) ++ file.attributes).filterMap (signatureIndex? table)

-- A class constant names a class, or an array type by its descriptor.
def namesIn (name : Text) : List Text :=
  if name.head? = some '['.toNat then Descriptor.classNames name else [name]

def dotted (internal : Text) : Text := internal.map fun c => if c = '/'.toNat then '.'.toNat else c

def firstSeen (seen : NameSet) : List Text → List Text
  | [] => []
  | name :: names =>
    if seen.contains name then firstSeen seen names
    else name :: firstSeen (seen.insert name) names

def references (owner : Text) (internal : List Text) : List Text :=
  firstSeen ∅ ((internal.map dotted).filter (· ≠ owner))

def info (file : ClassFile) : Except Fault ClassInfo := do
  let names ← classNames file.pool
  let owner ← classNamed names file.thisClass.toNat
  let table := textTable file.pool
  let types ← (file.descriptorIndices ++ file.signatureIndices table).mapM table.lookup
  let internal := names.flatMap (namesIn ·.2) ++ types.flatMap Descriptor.classNames
  return ⟨dotted owner, references (dotted owner) internal⟩

end ClassFile

-- Bytes after the end of the class file do not matter.
def ClassInfo.decode (bytes : List UInt8) : Except ClassFile.Fault ClassInfo := do
  let (file, _) ← ClassFile.read ⟨0, bytes⟩
  file.info

end ClassAtlas
