/-!
The checksum of an archive entry: the remainder of its bits by a fixed polynomial of degree
32, with every byte taken from its lowest bit on.
-/

namespace ClassAtlas.Crc32

def polynomial : UInt32 := 0xEDB88320

def shift (c : UInt32) : UInt32 :=
  if c &&& 1 = 1 then (c >>> 1) ^^^ polynomial else c >>> 1

def shifts : Nat → UInt32 → UInt32
  | 0, c => c
  | count + 1, c => shifts count (shift c)

def step (c : UInt32) (b : UInt8) : UInt32 := shifts 8 (c ^^^ b.toUInt32)

def checksum (bytes : List UInt8) : UInt32 := bytes.foldl step 0xFFFFFFFF ^^^ 0xFFFFFFFF

end ClassAtlas.Crc32
