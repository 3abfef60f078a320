import ClassAtlas.ClassFile.Descriptor

/-!
The grammar of descriptors and generic signatures: its trees, how each is written, and the
class names in it from left to right. An inner class has a suffix of its own only behind type
arguments or behind another suffix; elsewhere it is part of the name.
-/

namespace ClassAtlas.Signature

def reserved : Text := ".;[/<>:"

structure Identifier where
  text : Text
  free : ∀ c ∈ text, c ∉ reserved

-- A simple name behind the packages it is in.
structure QualifiedName where
  packages : List Identifier
  simple : Identifier

def QualifiedName.text (name : QualifiedName) : Text :=
  Text.join ['/'.toNat] ((name.packages ++ [name.simple]).map Identifier.text)

inductive BaseType where
  | byte
  | char
  | double
  | float
  | int
  | long
  | short
  | boolean

def BaseType.letter : BaseType → Char
  | .byte => 'B'
  | .char => 'C'
  | .double => 'D'
  | .float => 'F'
  | .int => 'I'
  | .long => 'J'
  | .short => 'S'
  | .boolean => 'Z'

-- The types of descriptors.
inductive FieldType where
  | base (b : BaseType)
  | object (name : QualifiedName)
  | array (element : FieldType)

-- The types of signatures. Type arguments are never empty.
mutual
inductive JavaType where
  | base (b : BaseType)
  | reference (r : Reference)

inductive Reference where
  | ofClass (c : ClassType)
  | ofVariable (name : Identifier)
  | ofArray (element : JavaType)

inductive ClassType where
  | plain (name : QualifiedName)
  | generic (name : QualifiedName) (first : Argument) (others : List Argument)
      (suffixes : List Suffix)

inductive Argument where
  | any
  | exactly (r : Reference)
  | upTo (r : Reference)
  | downTo (r : Reference)

inductive Suffix where
  | plain (name : Identifier)
  | generic (name : Identifier) (first : Argument) (others : List Argument)
end

-- A formal type parameter; the class bound may be left out.
structure Formal where
  name : Identifier
  classBound : Option Reference
  interfaceBounds : List Reference

inductive Thrown where
  | ofClass (c : ClassType)
  | ofVariable (name : Identifier)

end Signature

-- What a class file can hold in the places that are searched for class names. A result that
-- is left out is `void`, and no formal parameters at all have no brackets.
inductive Signature where
  | fieldDescriptor (type : Signature.FieldType)
  | methodDescriptor (parameters : List Signature.FieldType) (result : Option Signature.FieldType)
  | ofField (type : Signature.Reference)
  | ofMethod (formals : List Signature.Formal) (parameters : List Signature.JavaType)
      (result : Option Signature.JavaType) (thrown : List Signature.Thrown)
  | ofClass (formals : List Signature.Formal) (superclass : Signature.ClassType)
      (interfaces : List Signature.ClassType)

namespace Signature

def FieldType.text : FieldType → Text
  | .base b => [b.letter.toNat]
  | .object name => 'L'.toNat :: name.text ++ [';'.toNat]
  | .array element => '['.toNat :: element.text

def FieldType.names : FieldType → List Text
  | .base _ => []
  | .object name => [name.text]
  | .array element => element.names

mutual
def JavaType.text : JavaType → Text
  | .base b => [b.letter.toNat]
  | .reference r => r.text

def Reference.text : Reference → Text
  | .ofClass c => c.text
  | .ofVariable name => 'T'.toNat :: name.text ++ [';'.toNat]
  | .ofArray element => '['.toNat :: element.text

def ClassType.text : ClassType → Text
  | .plain name => 'L'.toNat :: name.text ++ [';'.toNat]
  | .generic name first others suffixes =>
    'L'.toNat :: name.text ++ ['<'.toNat] ++ (first.text ++ argumentsText others) ++
      '>'.toNat :: (suffixesText suffixes ++ [';'.toNat])

def Argument.text : Argument → Text
  | .any => ['*'.toNat]
  | .exactly r => r.text
  | .upTo r => '+'.toNat :: r.text
  | .downTo r => '-'.toNat :: r.text

def Suffix.text : Suffix → Text
  | .plain name => '.'.toNat :: name.text
  | .generic name first others =>
    '.'.toNat :: name.text ++ ['<'.toNat] ++ (first.text ++ argumentsText others) ++ ['>'.toNat]

def argumentsText : List Argument → Text
  | [] => []
  | a :: others => a.text ++ argumentsText others

def suffixesText : List Suffix → Text
  | [] => []
  | s :: others => s.text ++ suffixesText others
end

mutual
def JavaType.names : JavaType → List Text
  | .base _ => []
  | .reference r => r.names

def Reference.names : Reference → List Text
  | .ofClass c => c.names
  | .ofVariable _ => []
  | .ofArray element => element.names

def ClassType.names : ClassType → List Text
  | .plain name => [name.text]
  | .generic name first others suffixes =>
    name.text :: (first.names ++ argumentsNames others) ++ suffixesNames suffixes

def Argument.names : Argument → List Text
  | .any => []
  | .exactly r => r.names
  | .upTo r => r.names
  | .downTo r => r.names

def Suffix.names : Suffix → List Text
  | .plain _ => []
  | .generic _ first others => first.names ++ argumentsNames others

def argumentsNames : List Argument → List Text
  | [] => []
  | a :: others => a.names ++ argumentsNames others

def suffixesNames : List Suffix → List Text
  | [] => []
  | s :: others => s.names ++ suffixesNames others
end

def boundText (r : Reference) : Text := ':'.toNat :: r.text

def Formal.text (f : Formal) : Text :=
  f.name.text ++ [':'.toNat] ++ (f.classBound.elim [] Reference.text) ++
    f.interfaceBounds.flatMap boundText

def Formal.names (f : Formal) : List Text :=
  f.classBound.elim [] Reference.names ++ f.interfaceBounds.flatMap Reference.names

def formalsText : List Formal → Text
  | [] => []
  | f :: others => '<'.toNat :: (f :: others).flatMap Formal.text ++ ['>'.toNat]

def Thrown.text : Thrown → Text
  | .ofClass c => '^'.toNat :: c.text
  | .ofVariable name => '^'.toNat :: 'T'.toNat :: name.text ++ [';'.toNat]

def Thrown.names : Thrown → List Text
  | .ofClass c => c.names
  | .ofVariable _ => []

def void : Text := ['V'.toNat]

def text : Signature → Text
  | .fieldDescriptor type => type.text
  | .methodDescriptor parameters result =>
    '('.toNat :: parameters.flatMap FieldType.text ++ [')'.toNat] ++
      result.elim void FieldType.text
  | .ofField type => type.text
  | .ofMethod formals parameters result thrown =>
    formalsText formals ++ ['('.toNat] ++ parameters.flatMap JavaType.text ++ [')'.toNat] ++
      result.elim void JavaType.text ++ thrown.flatMap Thrown.text
  | .ofClass formals superclass interfaces =>
    formalsText formals ++ superclass.text ++ interfaces.flatMap ClassType.text

def names : Signature → List Text
  | .fieldDescriptor type => type.names
  | .methodDescriptor parameters result =>
    parameters.flatMap FieldType.names ++ result.elim [] FieldType.names
  | .ofField type => type.names
  | .ofMethod formals parameters result thrown =>
    formals.flatMap Formal.names ++ parameters.flatMap JavaType.names ++
      result.elim [] JavaType.names ++ thrown.flatMap Thrown.names
  | .ofClass formals superclass interfaces =>
    formals.flatMap Formal.names ++ superclass.names ++ interfaces.flatMap ClassType.names

end Signature
end ClassAtlas
