import ClassAtlas.Text.Utf8

/-!
Paths of components between slashes. Empty components and single dots vanish; double dots
stay, since what they mean depends on the files. Exactly two slashes in front are an anchor of
their own, any other number of them is one.
-/

namespace ClassAtlas

structure FilePath where
  anchor : Text
  parts : List Text
  deriving DecidableEq

namespace FilePath

def slash : CodePoint := '/'.toNat
def dot : Text := "."

def anchorOf (t : Text) : Text :=
  match (t.takeWhile (· = slash)).length with
  | 0 => []
  | 2 => [slash, slash]
  | _ => [slash]

def parse (t : Text) : FilePath :=
  ⟨anchorOf t, (Text.splitAtEach slash t).filter fun part => part ≠ [] ∧ part ≠ dot⟩

def text (p : FilePath) : Text :=
  if p.anchor = [] ∧ p.parts = [] then dot else p.anchor ++ Text.join [slash] p.parts

-- A path with an anchor does not care where it is joined to.
def join (base path : FilePath) : FilePath :=
  if path.anchor = [] then ⟨base.anchor, base.parts ++ path.parts⟩ else path

-- All components, the anchor first if there is one.
def components (p : FilePath) : List Text :=
  if p.anchor = [] then p.parts else p.anchor :: p.parts

def folders (p : FilePath) : List Text := p.components.dropLast

-- A file system takes no NUL in a path, and limits its names and its paths in bytes.
def nul : CodePoint := 0
def longestName : Nat := 255
def longestPath : Nat := 4095

def fitsName (name : Text) : Bool := Utf8.size name ≤ longestName

def fitsPath (t : Text) : Bool := Utf8.size t ≤ longestPath

def name (p : FilePath) : Text := p.parts.getLast?.getD []

-- From the last dot of the name on, unless that dot is its first or last character.
def suffix (p : FilePath) : Text :=
  match Text.splitAtLast '.'.toNat p.name with
  | some (_ :: _, c :: back) => '.'.toNat :: c :: back
  | _ => []

end FilePath
end ClassAtlas
