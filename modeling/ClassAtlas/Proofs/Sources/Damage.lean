import ClassAtlas.Sources.Collect

/-!
Damage to the entries of an archive. What an entry gives depends on its own record and on nothing
else in the file. Damage that makes it unreadable is passed over, unless it is of one of the few
kinds that end the whole collection.
-/

namespace ClassAtlas
namespace Archive

variable {archive intact : Archive} {e : Entry} {fault : EntryFault} {header : List UInt8}
  {start : Nat} {packed : List UInt8}

-- What entries give, each with its name; those that cannot be read give nothing.
def given (archive : Archive) (entries : List Entry) : List (Text × List UInt8) :=
  entries.filterMap fun e => (archive.content e).toOption.map fun bytes => (e.name, bytes)

end Archive

namespace Sources

variable {archive : Archive} {entries : List Entry} {path : Text}

end Sources
end ClassAtlas
