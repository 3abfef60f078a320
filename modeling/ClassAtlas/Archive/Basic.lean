import ClassAtlas.Archive.CodePage437
import ClassAtlas.Bytes
import ClassAtlas.Text.Quoted
import ClassAtlas.Text.Utf8

/-!
Archives as they are stored: entries in the order of the central directory, and the bytes that
its records point into. Records are fixed headers of little-endian fields.
-/

namespace ClassAtlas

structure Entry where
  -- the name as it is stored, which its local header has to repeat
  storedName : Text
  flags : Nat
  method : Nat
  checksum : Nat
  packedSize : Nat
  size : Nat
  headerOffset : Int
  -- where the data has to end: at the next local header, or at the central directory
  limit : Int := 0
  deriving DecidableEq

structure Archive where
  bytes : Array UInt8
  entries : List Entry

namespace Archive

-- Why a file is no archive.
inductive OpenError where
  | missing
  | throughFile
  | isFolder
  | nameTooLong
  | noDirectory
  | severalDisks
  | directoryBeforeStart
  | directoryTruncated
  | directoryMalformed
  | extraCorrupt (id size : Nat)
  | extraIncomplete (field : Text)
  deriving DecidableEq

-- Why an archive cannot be opened: it is none, or one of its entries forbids it.
inductive OpenFault where
  | invalid (why : OpenError)
  | nameMalformed (malformation : Utf8.Malformation)
  | newerFormat
  deriving DecidableEq

-- Fewer bytes than asked for where the file ends.
def slice (bytes : Array UInt8) (start count : Nat) : List UInt8 :=
  (bytes.extract start (start + count)).toList

def field (header : List UInt8) (start width : Nat) : Nat :=
  Bytes.littleEndian ((header.drop start).take width)

def utf8Flag : Nat := 0x800

def hasFlag (flags mask : Nat) : Bool := flags &&& mask != 0

def nameOf (flags : Nat) (bytes : List UInt8) : Except Utf8.Malformation Text :=
  if hasFlag flags utf8Flag then Utf8.decode .refused bytes else .ok (CodePage437.decode bytes)

end Archive

-- A name ends at its first NUL.
def Entry.name (e : Entry) : Text := e.storedName.takeWhile (· ≠ 0)

def Entry.isFolder (e : Entry) : Bool := e.name.getLast? == some '/'.toNat

-- How a malformed name is reported: the byte or the run of bytes, where, and why.
def Utf8.Malformation.message (m : Utf8.Malformation) : Text :=
  let place := match m.run with
    | [b] => "byte 0x" ++ Text.hexDigits 2 b.toNat ++ " in position " ++ Text.decimal m.offset
    | run => "bytes in position " ++ Text.decimal m.offset ++ "-" ++
        Text.decimal (m.offset + run.length - 1)
  "'utf-8' codec can't decode " ++ place ++ ": " ++ m.reason.message

end ClassAtlas
