import Mathlib.Data.List.Sort
import ClassAtlas.Proofs.Graph.Buckets

/-!
The order of answers. An answer that goes by package and then by name is fixed by the names in
it: two such answers with the same names are the same.
-/

namespace ClassAtlas

-- By package, and by name within a package.
def Text.Precedes (a b : Text) : Prop :=
  packageOf a < packageOf b ∨ (packageOf a = packageOf b ∧ a < b)

theorem Text.precedes_irrefl (a : Text) : ¬ a.Precedes a := by
  intro given
  rcases given with before | ⟨_, before⟩
  · exact List.lt_irrefl _ before
  · exact List.lt_irrefl _ before

theorem Text.precedes_asymm {a b : Text} (forth : a.Precedes b) : ¬ b.Precedes a := by
  intro back
  rcases forth with forth | ⟨same, forth⟩
  · rcases back with back | ⟨same, _⟩
    · exact List.lt_asymm forth back
    · exact List.lt_irrefl _ (same ▸ forth)
  · rcases back with back | ⟨_, back⟩
    · exact List.lt_irrefl _ (same ▸ back)
    · exact List.lt_asymm forth back

instance : Std.Irrefl Text.Precedes := ⟨Text.precedes_irrefl⟩
instance : Std.Antisymm Text.Precedes :=
  ⟨fun _ _ forth back => absurd back (Text.precedes_asymm forth)⟩

namespace Buckets
variable {groups others : List (Text × List Ref)} {x : Text} {group : Text × List Text}

theorem WellGrouped.names_precede (grouped : WellGrouped groups) :
    (namesIn groups).Pairwise Text.Precedes := by
  have packages := List.pairwise_map.mp grouped.packages
  rw [namesIn, List.pairwise_flatMap]
  constructor
  · intro group member
    rw [List.pairwise_map]
    refine List.Pairwise.imp_of_mem ?_ (List.pairwise_map.mp (grouped.names group member))
    intro r s first second before
    have placed := grouped.placed group member
    exact .inr ⟨(placed r first).trans (placed s second).symm, before⟩
  · refine packages.imp_of_mem ?_
    intro group later member member' before a first b second
    obtain ⟨r, inside, rfl⟩ := List.mem_map.mp first
    obtain ⟨s, inside', rfl⟩ := List.mem_map.mp second
    rw [← grouped.placed group member r inside, ← grouped.placed later member' s inside'] at before
    exact .inl before

-- The names of what is held are all different, also across packages.
theorem Tidy.names_distinct {b : Buckets} (tidy : b.Tidy) : (b.refs.map (·.name)).Nodup := by
  rw [← names_in_groups]
  refine tidy.well_grouped.names_precede.imp fun before same => ?_
  exact Text.precedes_irrefl _ (same ▸ before)

theorem WellGrouped.same_group (grouped : WellGrouped groups) {g other : Text × List Ref}
    (first : g ∈ groups) (second : other ∈ groups) (same : g.1 = other.1) : g = other :=
  List.inj_on_of_nodup_map grouped.packages.nodup first second same

-- What stands under a package is told by the names of the whole answer.
theorem WellGrouped.mem_iff (grouped : WellGrouped groups) : group ∈ groupNames groups ↔
    group.2 ≠ [] ∧ group.2.Pairwise (· < ·) ∧
      ∀ x, x ∈ group.2 ↔ x ∈ namesIn groups ∧ packageOf x = group.1 := by
  have names : ∀ g ∈ groups, ∀ x, x ∈ g.2.map (·.name) ↔
      x ∈ namesIn groups ∧ packageOf x = g.1 := by
    intro g member x
    constructor
    · intro inside
      obtain ⟨r, held, rfl⟩ := List.mem_map.mp inside
      exact ⟨List.mem_flatMap.mpr ⟨g, member, inside⟩, grouped.placed g member r held⟩
    · intro given
      obtain ⟨inside, package⟩ := given
      obtain ⟨other, member', inside⟩ := List.mem_flatMap.mp inside
      obtain ⟨r, held, rfl⟩ := List.mem_map.mp inside
      have placed := grouped.placed other member' r held
      exact grouped.same_group member' member (placed.symm.trans package) ▸ inside
  constructor
  · intro listed
    obtain ⟨g, member, rfl⟩ := List.mem_map.mp listed
    exact ⟨fun empty => grouped.filled g member (List.map_eq_nil_iff.mp empty),
      grouped.names g member, names g member⟩
  · intro given
    obtain ⟨filled, ascends, told⟩ := given
    obtain ⟨x, inside⟩ := List.exists_mem_of_ne_nil _ filled
    obtain ⟨listed, package⟩ := (told x).mp inside
    obtain ⟨g, member, held⟩ := List.mem_flatMap.mp listed
    have same : g.1 = group.1 := ((names g member x).mp held).2.symm.trans package
    have equal : g.2.map (·.name) = group.2 :=
      (grouped.names g member).eq_of_mem_iff ascends fun y => by rw [names g member, told, same]
    exact List.mem_map.mpr ⟨g, member, Prod.ext same equal⟩

theorem WellGrouped.unique (grouped : WellGrouped groups) (grouped' : WellGrouped others)
    (same : ∀ x, x ∈ namesIn groups ↔ x ∈ namesIn others) : groupNames groups = groupNames others := by
  have ascend : ∀ {groups}, WellGrouped groups →
      (groupNames groups).Pairwise fun g later => g.1 < later.1 := by
    intro groups grouped
    rw [groupNames, List.pairwise_map]
    exact List.pairwise_map.mp grouped.packages
  have : Std.Irrefl fun g later : Text × List Text => g.1 < later.1 :=
    ⟨fun g => List.lt_irrefl g.1⟩
  have : Std.Antisymm fun g later : Text × List Text => g.1 < later.1 :=
    ⟨fun _ _ forth back => absurd back (List.lt_asymm forth)⟩
  refine (ascend grouped).eq_of_mem_iff (ascend grouped') fun group => ?_
  rw [grouped.mem_iff, grouped'.mem_iff]
  simp only [same]

end Buckets
end ClassAtlas
