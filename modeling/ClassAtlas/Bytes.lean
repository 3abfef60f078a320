/-!
Numbers in bytes, most significant byte first or last.
-/

namespace ClassAtlas.Bytes

def bigEndian (bytes : List UInt8) : Nat := bytes.foldl (fun n b => n * 256 + b.toNat) 0

def littleEndian (bytes : List UInt8) : Nat := bytes.foldr (fun b n => b.toNat + n * 256) 0

end ClassAtlas.Bytes
