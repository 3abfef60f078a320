import ClassAtlas.Graph.Buckets

/-!
Buckets that hold what they say. Tidy buckets are never empty and hold only names of their own
package; adding a reference keeps them so. They are read in strictly ascending order, packages
first and then the names in each package.
-/

namespace ClassAtlas

theorem Text.compare_lt_iff (a b : Text) : compare a b = .lt ↔ a < b := by
  induction a generalizing b with
  | nil =>
    cases b with
    | nil => simp
    | cons d b => exact ⟨fun _ => .nil, fun _ => rfl⟩
  | cons c a ih =>
    cases b with
    | nil => exact ⟨fun impossible => (nomatch impossible), fun impossible => (nomatch impossible)⟩
    | cons d b =>
      rw [List.cons_lt_cons_iff, ← ih, List.compare_cons_cons, Ordering.then_eq_lt]
      simp only [Nat.compare_eq_lt, Nat.compare_eq_eq]

theorem Ref.same {r known : Ref} (named : r.name = known.name) (placed : r.id = known.id) :
    known = r := by
  cases r
  cases known
  cases named
  cases placed
  rfl

namespace NodeSet
variable {s : NodeSet} {r : Ref}

theorem refs_ascend (s : NodeSet) : (s.refs.map (·.name)).Pairwise (· < ·) := by
  rw [refs, List.map_map, List.pairwise_map]
  exact (Std.ExtTreeMap.ordered_keys_toList (t := s)).imp fun before =>
    (Text.compare_lt_iff _ _).mp before

theorem refs_empty_iff (s : NodeSet) : s.refs = [] ↔ s = ∅ := by
  simp [refs]

theorem mem_iff_ref (s : NodeSet) (name : Text) : name ∈ s ↔ ∃ r ∈ s.refs, r.name = name := by
  rw [Std.ExtTreeMap.mem_iff_isSome_getElem?, Option.isSome_iff_exists]
  constructor
  · intro given
    obtain ⟨id, found⟩ := given
    exact ⟨⟨id, name⟩, (mem_refs s _).mpr found, rfl⟩
  · intro given
    obtain ⟨r, member, rfl⟩ := given
    exact ⟨r.id, (mem_refs s r).mp member⟩

theorem mem_refs_add {known : Ref} (member : known ∈ (s.add r).refs) : known = r ∨ known ∈ s.refs := by
  rw [mem_refs, get_add] at member
  split at member
  · rename_i new
    exact .inl (Ref.same new.1 (Option.some.inj member))
  · exact .inr ((mem_refs s known).mpr member)

-- Nothing gives way to a name that is not there yet.
theorem mem_refs_new {known : Ref} (new : r.name ∉ s) :
    known ∈ (s.add r).refs ↔ known = r ∨ known ∈ s.refs := by
  constructor
  · exact mem_refs_add
  · intro given
    rw [mem_refs, get_add]
    rcases given with rfl | old
    · exact if_pos ⟨rfl, new⟩
    · rw [if_neg, (mem_refs s known).mp old]
      intro same
      exact new ((mem_iff_ref s r.name).mpr ⟨known, old, same.1.symm⟩)

theorem same_name {known : Ref} (first : r ∈ s.refs) (second : known ∈ s.refs)
    (same : r.name = known.name) : r = known := by
  rw [mem_refs] at first second
  rw [same, second] at first
  exact Ref.same same.symm (Option.some.inj first)

end NodeSet

namespace Buckets
variable {b : Buckets} {r : Ref} {package name : Text}

-- No bucket is empty, and each holds names of its own package only.
structure Tidy (b : Buckets) : Prop where
  filled : ∀ (package : Text) (bucket : NodeSet), b[package]? = some bucket → bucket ≠ ∅
  placed : ∀ (package : Text) (bucket : NodeSet), b[package]? = some bucket →
    ∀ name ∈ bucket, packageOf name = package

theorem tidy_empty : Tidy ∅ where
  filled := by simp
  placed := by simp

theorem bucket_found {bucket : NodeSet} (found : b[package]? = some bucket) :
    b.bucket package = bucket := by
  simp [Buckets.bucket, Std.ExtTreeMap.getD_eq_getD_getElem?, found]

theorem Tidy.bucket_placed (tidy : Tidy b) (member : name ∈ b.bucket package) :
    packageOf name = package := by
  cases found : b[package]? with
  | none => simp [Buckets.bucket, Std.ExtTreeMap.getD_eq_getD_getElem?, found] at member
  | some bucket =>
    rw [bucket_found found] at member
    exact tidy.placed package bucket found name member

theorem Tidy.add (tidy : Tidy b) (r : Ref) : Tidy (b.add r) := by
  constructor
  · intro package bucket found
    rw [Buckets.add, Std.ExtTreeMap.getElem?_insert] at found
    split at found
    · cases found
      exact Std.ExtTreeMap.ne_empty_of_mem ((NodeSet.mem_add _ _ _).mpr (.inl rfl))
    · exact tidy.filled package bucket found
  · intro package bucket found name member
    rw [Buckets.add, Std.ExtTreeMap.getElem?_insert] at found
    split at found
    · rename_i same
      cases found
      rw [← Std.LawfulEqCmp.eq_of_compare same]
      rcases (NodeSet.mem_add _ _ _).mp member with rfl | old
      · rfl
      · exact tidy.bucket_placed old
    · exact tidy.placed package bucket found name member

theorem Tidy.mem_refs (tidy : Tidy b) (r : Ref) : r ∈ b.refs ↔ b.find? r.name = some r.id := by
  simp only [refs, groups, List.mem_flatMap, List.mem_map]
  constructor
  · intro given
    obtain ⟨_, ⟨⟨package, bucket⟩, stored, rfl⟩, member⟩ := given
    have found := Std.ExtTreeMap.mem_toList_iff_getElem?_eq_some.mp stored
    have kept : bucket[r.name]? = some r.id := (NodeSet.mem_refs bucket r).mp member
    have named := (NodeSet.mem_iff_ref bucket r.name).mpr ⟨r, member, rfl⟩
    rw [find?, tidy.placed package bucket found r.name named, bucket_found found, kept]
  · intro found
    cases stored : b[packageOf r.name]? with
    | none =>
      simp [find?, Buckets.bucket, Std.ExtTreeMap.getD_eq_getD_getElem?, stored] at found
    | some bucket =>
      rw [find?, bucket_found stored] at found
      exact ⟨_, ⟨⟨packageOf r.name, bucket⟩,
        Std.ExtTreeMap.mem_toList_iff_getElem?_eq_some.mpr stored, rfl⟩,
        (NodeSet.mem_refs bucket r).mpr found⟩

theorem Tidy.has_iff_ref (tidy : Tidy b) (name : Text) :
    b.has name = true ↔ ∃ r ∈ b.refs, r.name = name := by
  rw [has_iff_found, Option.isSome_iff_exists]
  constructor
  · intro given
    obtain ⟨id, found⟩ := given
    exact ⟨⟨id, name⟩, (tidy.mem_refs _).mpr found, rfl⟩
  · intro given
    obtain ⟨r, member, rfl⟩ := given
    exact ⟨r.id, (tidy.mem_refs r).mp member⟩

theorem Tidy.mem_refs_add {known : Ref} (tidy : Tidy b) (r : Ref) (member : known ∈ (b.add r).refs) :
    known = r ∨ known ∈ b.refs := by
  rw [(tidy.add r).mem_refs, find_add] at member
  split at member
  · rename_i new
    exact .inl (Ref.same new.1 (Option.some.inj member))
  · exact .inr ((tidy.mem_refs known).mpr member)

-- Nothing gives way to what is added.
theorem Tidy.mem_refs_new {known : Ref} (tidy : Tidy b) (new : b.has r.name = false) :
    known ∈ (b.add r).refs ↔ known = r ∨ known ∈ b.refs := by
  constructor
  · exact tidy.mem_refs_add r
  · intro given
    rw [(tidy.add r).mem_refs, find_add]
    rcases given with rfl | old
    · exact if_pos ⟨rfl, new⟩
    · rw [if_neg, (tidy.mem_refs known).mp old]
      intro same
      have held := (tidy.has_iff_ref r.name).mpr ⟨known, old, same.1.symm⟩
      rw [new] at held
      cases held

-- A name stands in some bucket only if it stands in the one of its package.
theorem Tidy.has_of_mem {bucket : NodeSet} (tidy : Tidy b) (found : b[package]? = some bucket)
    (member : name ∈ bucket) : b.has name = true := by
  rw [has, tidy.placed package bucket found name member, bucket_found found]
  exact Std.ExtTreeMap.mem_iff_contains.mp member

-- References by package: the packages ascend, none is without a name, and the names of each
-- package ascend and belong to it.
structure WellGrouped (groups : List (Text × List Ref)) : Prop where
  packages : (groups.map (·.1)).Pairwise (· < ·)
  filled : ∀ group ∈ groups, group.2 ≠ []
  names : ∀ group ∈ groups, (group.2.map (·.name)).Pairwise (· < ·)
  placed : ∀ group ∈ groups, ∀ r ∈ group.2, packageOf r.name = group.1

theorem Tidy.well_grouped (tidy : Tidy b) : WellGrouped b.groups where
  packages := by
    rw [groups, List.map_map, List.pairwise_map]
    exact (Std.ExtTreeMap.ordered_keys_toList (t := b)).imp fun before =>
      (Text.compare_lt_iff _ _).mp before
  filled := by
    intro group member
    obtain ⟨⟨package, bucket⟩, stored, rfl⟩ := List.mem_map.mp member
    rw [ne_eq, NodeSet.refs_empty_iff]
    exact tidy.filled package bucket (Std.ExtTreeMap.mem_toList_iff_getElem?_eq_some.mp stored)
  names := by
    intro group member
    obtain ⟨entry, _, rfl⟩ := List.mem_map.mp member
    exact NodeSet.refs_ascend entry.2
  placed := by
    intro group member
    obtain ⟨⟨package, bucket⟩, stored, rfl⟩ := List.mem_map.mp member
    intro r inside
    exact tidy.placed package bucket (Std.ExtTreeMap.mem_toList_iff_getElem?_eq_some.mp stored)
      r.name ((NodeSet.mem_iff_ref bucket r.name).mpr ⟨r, inside, rfl⟩)

-- The names of such an answer, whatever their packages.
def namesIn (groups : List (Text × List Ref)) : List Text :=
  groups.flatMap fun group => group.2.map (·.name)

theorem names_in_groups (b : Buckets) : namesIn b.groups = b.refs.map (·.name) := by
  rw [refs, List.map_flatMap]
  rfl

theorem Tidy.mem_names_in (tidy : Tidy b) (name : Text) :
    name ∈ namesIn b.groups ↔ b.has name = true := by
  rw [names_in_groups, tidy.has_iff_ref, List.mem_map]

end Buckets
end ClassAtlas
