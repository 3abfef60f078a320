import ClassAtlas.ClassName
import Std.Data.ExtTreeMap

/-!
Sets of nodes. Two nodes count as one when they have the same name, and a set keeps the one
that came first. Buckets group such a set by package; both are read in ascending order.
-/

namespace ClassAtlas

abbrev NodeId := Nat

-- A node as another node knows it: where it is kept, and the name it answers to.
structure Ref where
  id : NodeId
  name : Text
  deriving DecidableEq, Inhabited

abbrev NodeSet := Std.ExtTreeMap Text NodeId

namespace NodeSet

def add (s : NodeSet) (r : Ref) : NodeSet := s.insertIfNew r.name r.id

def refs (s : NodeSet) : List Ref := s.toList.map fun entry => ⟨entry.2, entry.1⟩

theorem get_add (s : NodeSet) (r : Ref) (name : Text) :
    (s.add r)[name]? = if r.name = name ∧ r.name ∉ s then some r.id else s[name]? := by
  simp [add, Std.ExtTreeMap.getElem?_insertIfNew]

theorem mem_add (s : NodeSet) (r : Ref) (name : Text) :
    name ∈ s.add r ↔ r.name = name ∨ name ∈ s := by
  simp [add]

theorem mem_refs (s : NodeSet) (r : Ref) : r ∈ s.refs ↔ s[r.name]? = some r.id := by
  simp only [refs, List.mem_map, Prod.exists]
  constructor
  · rintro ⟨name, id, member, rfl⟩
    exact Std.ExtTreeMap.mem_toList_iff_getElem?_eq_some.mp member
  · intro found
    exact ⟨r.name, r.id, Std.ExtTreeMap.mem_toList_iff_getElem?_eq_some.mpr found, rfl⟩

end NodeSet

abbrev Buckets := Std.ExtTreeMap Text NodeSet

-- Nodes by package, as they are shown: packages with the names in them.
def groupNames (groups : List (Text × List Ref)) : List (Text × List Text) :=
  groups.map fun group => (group.1, group.2.map (·.name))

namespace Buckets

def bucket (b : Buckets) (package : Text) : NodeSet := b.getD package ∅

def find? (b : Buckets) (name : Text) : Option NodeId := (b.bucket (packageOf name))[name]?

def has (b : Buckets) (name : Text) : Bool := (b.bucket (packageOf name)).contains name

def add (b : Buckets) (r : Ref) : Buckets :=
  b.insert (packageOf r.name) ((b.bucket (packageOf r.name)).add r)

-- Packages ascending, and the names of each package ascending.
def groups (b : Buckets) : List (Text × List Ref) :=
  b.toList.map fun entry => (entry.1, NodeSet.refs entry.2)

def refs (b : Buckets) : List Ref := b.groups.flatMap (·.2)

theorem has_iff_found (b : Buckets) (name : Text) : b.has name = true ↔ (b.find? name).isSome := by
  simp [has, find?]

theorem bucket_add (b : Buckets) (r : Ref) (package : Text) :
    (b.add r).bucket package =
      if packageOf r.name = package then (b.bucket package).add r else b.bucket package := by
  unfold bucket add
  rw [Std.ExtTreeMap.getD_insert]
  by_cases same : packageOf r.name = package
  · subst same; simp [bucket]
  · simp [same]

theorem find_add (b : Buckets) (r : Ref) (name : Text) :
    (b.add r).find? name =
      if r.name = name ∧ b.has r.name = false then some r.id else b.find? name := by
  unfold find?
  rw [bucket_add]
  by_cases same : packageOf r.name = packageOf name
  · rw [if_pos same, NodeSet.get_add]
    simp only [has, same, Std.ExtTreeMap.mem_iff_contains, Bool.not_eq_true]
  · rw [if_neg same]
    by_cases eq : r.name = name
    · exact absurd (congrArg packageOf eq) same
    · simp [eq]

theorem has_add (b : Buckets) (r : Ref) (name : Text) :
    (b.add r).has name = (decide (r.name = name) || b.has name) := by
  apply Bool.eq_iff_iff.mpr
  rw [has_iff_found, find_add]
  by_cases eq : r.name = name
  · subst eq
    cases known : b.has r.name with
    | true => simp [(has_iff_found b r.name).mp known]
    | false => simp
  · simp [eq, has_iff_found]

end Buckets
end ClassAtlas
