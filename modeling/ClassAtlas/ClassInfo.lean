import ClassAtlas.ClassName

/-!
What one class file tells: the name of its class, and the names it refers to.
-/

namespace ClassAtlas

structure ClassInfo where
  name : Text
  references : List Text
  deriving DecidableEq

def ClassInfo.package (info : ClassInfo) : Text := packageOf info.name

end ClassAtlas
