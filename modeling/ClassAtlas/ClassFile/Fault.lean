import ClassAtlas.Text.Utf8

/-!
Why bytes are not a class file.
-/

namespace ClassAtlas.ClassFile

inductive Fault where
  | truncated (offset : Nat)
  | badMagic
  | malformedUtf8 (index : Nat) (reason : Utf8.Reason)
  | unknownTag (tag index : Nat)
  | notUtf8 (index : Nat)
  | notClass (index : Nat)
  deriving DecidableEq

def Fault.message : Fault → Text
  | truncated offset => "Truncated class file at offset " ++ Text.decimal offset
  | badMagic => "Not a class file (bad magic number)"
  | malformedUtf8 index reason =>
    "Malformed Utf8 constant at index " ++ Text.decimal index ++ ": " ++ reason.message
  | unknownTag tag index =>
    "Unknown constant pool tag " ++ Text.decimal tag ++ " at index " ++ Text.decimal index
  | notUtf8 index =>
    "Constant pool index " ++ Text.decimal index ++ " is not a UTF-8 entry"
  | notClass index => "this_class index " ++ Text.decimal index ++ " is not a class entry"

end ClassAtlas.ClassFile
