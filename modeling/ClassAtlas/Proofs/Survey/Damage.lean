import ClassAtlas.Proofs.Sources.Damage
import ClassAtlas.Proofs.Survey.Container

/-!
A survey of an archive with damaged entries. If none of the damage is of the kinds that end a
collection, it comes to what it would come to without these entries.
-/

namespace ClassAtlas.Survey

open Sources

variable {selection : Selection} {tree : FileTree} {archive : Archive}

inductive Harm where
  | none
  | checksum
  | data
  deriving DecidableEq

def Harm.storedChecksum : Harm → Nat
  | .checksum => 1
  | _ => 0

def Harm.storedData : Harm → List UInt8
  | .data => [7, 0, 0, 255, 255]
  | _ => [1, 0, 0, 255, 255]

def packedClass (harm : Harm) : Record :=
  ⟨"p/A.class", 8, harm.storedChecksum, 0, harm.storedData⟩

def plainClass : Record := .stored "B.class" [] 0

def packed (harm : Harm) : Entry := (packedClass harm).entry 0 44

def unpacked : Entry := plainClass.entry 44 81

end ClassAtlas.Survey
