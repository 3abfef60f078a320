import ClassAtlas.CommandLine.Run
import ClassAtlas.Proofs.Survey.Result

/-!
The listing of the classes that were found. Under each package stand the simple names of the
classes in it, and package and simple name together give back the name. So a class is listed
once, and simple names of one package ascend because the names do.
-/

namespace ClassAtlas

namespace ClassName
variable {a b package s t : Text}

-- Behind the same package, names compare as the simple names do.
theorem text_lt_iff : text ⟨package, s⟩ < text ⟨package, t⟩ ↔ s < t := by
  have behind : ∀ front : Text, front ++ s < front ++ t ↔ s < t := by
    intro front
    induction front with
    | nil => exact Iff.rfl
    | cons c front ih => simp [ih]
  unfold text
  split
  · exact Iff.rfl
  · simpa using behind (package ++ ['.'.toNat])

theorem text_parts (name : Text) : text ⟨packageOf name, simpleNameOf name⟩ = name :=
  text_parse name

theorem simple_lt (before : a < b) (same : packageOf a = packageOf b) :
    simpleNameOf a < simpleNameOf b := by
  rw [← text_parts a, ← text_parts b, same] at before
  exact text_lt_iff.mp before

end ClassName

namespace Listing
variable {names : List Text} {name package : Text} {group : Text × List Text}

def inPackage (names : List Text) (package : Text) : List Text :=
  names.filter fun name => packageOf name = package

theorem mem_in_package : name ∈ inPackage names package ↔ name ∈ names ∧ packageOf name = package := by
  simp [inPackage]

-- The names that a group stands for.
def rejoined (group : Text × List Text) : List Text :=
  group.2.map fun simple => ClassName.text ⟨group.1, simple⟩

-- What stands under a package is what the names say, the first name first.
theorem group_found (names : List Text) (package : Text) :
    (names.foldr addName ∅)[package]? =
      if inPackage names package = [] then none
      else some ((inPackage names package).map simpleNameOf) := by
  induction names with
  | nil => simp [inPackage]
  | cons name names ih =>
    rw [List.foldr_cons, addName, Std.ExtTreeMap.getElem?_insert]
    by_cases same : packageOf name = package
    · subst same
      have here : inPackage (name :: names) (packageOf name) =
          name :: inPackage names (packageOf name) := by simp [inPackage]
      have behind : (names.foldr addName ∅).getD (packageOf name) [] =
          (inPackage names (packageOf name)).map simpleNameOf := by
        rw [Std.ExtTreeMap.getD_eq_getD_getElem?, ih]
        split
        · rename_i empty
          simp [empty]
        · rfl
      simp [here, behind]
    · have elsewhere : inPackage (name :: names) package = inPackage names package := by
        simp [inPackage, same]
      simp [elsewhere, same, ih]

theorem mem_by_package : group ∈ byPackage names ↔
    inPackage names group.1 ≠ [] ∧ group.2 = (inPackage names group.1).map simpleNameOf := by
  rw [byPackage, Std.ExtTreeMap.mem_toList_iff_getElem?_eq_some, group_found]
  split
  · rename_i empty
    simp [empty]
  · rename_i filled
    simp [filled, eq_comm]

theorem packages_ascend (names : List Text) : ((byPackage names).map (·.1)).Pairwise (· < ·) := by
  rw [byPackage, List.pairwise_map]
  exact Std.ExtTreeMap.ordered_keys_toList.imp fun before => (Text.compare_lt_iff _ _).mp before

theorem group_ascends (ascend : names.Pairwise (· < ·)) (member : group ∈ byPackage names) :
    group.2 ≠ [] ∧ group.2.Pairwise (· < ·) := by
  obtain ⟨filled, listed⟩ := mem_by_package.mp member
  rw [listed]
  refine ⟨fun empty => filled (List.map_eq_nil_iff.mp empty), List.pairwise_map.mpr ?_⟩
  refine (ascend.filter _).imp_of_mem ?_
  intro a b inside inside' before
  have here := (mem_in_package.mp inside).2
  have there := (mem_in_package.mp inside').2
  exact ClassName.simple_lt before (here.trans there.symm)

theorem rejoined_group (member : group ∈ byPackage names) :
    rejoined group = inPackage names group.1 := by
  rw [rejoined, (mem_by_package.mp member).2, List.map_map]
  refine (List.map_congr_left ?_).trans (List.map_id _)
  intro name inside
  have here := (mem_in_package.mp inside).2
  rw [Function.comp_apply, ← here]
  exact ClassName.text_parts name

theorem rejoined_package (member : group ∈ byPackage names) (inside : name ∈ rejoined group) :
    packageOf name = group.1 := by
  rw [rejoined_group member] at inside
  exact (mem_in_package.mp inside).2

theorem mem_rejoined (names : List Text) (x : Text) :
    x ∈ (byPackage names).flatMap rejoined ↔ x ∈ names := by
  rw [List.mem_flatMap]
  constructor
  · intro given
    obtain ⟨group, member, inside⟩ := given
    rw [rejoined_group member] at inside
    exact (mem_in_package.mp inside).1
  · intro listed
    have inside : x ∈ inPackage names (packageOf x) := mem_in_package.mpr ⟨listed, rfl⟩
    have member : (packageOf x, (inPackage names (packageOf x)).map simpleNameOf) ∈
        byPackage names := mem_by_package.mpr ⟨List.ne_nil_of_mem inside, rfl⟩
    refine ⟨_, member, ?_⟩
    rw [rejoined_group member]
    exact inside

theorem rejoined_distinct (distinct : names.Nodup) :
    ((byPackage names).flatMap rejoined).Nodup := by
  refine List.nodup_flatMap.mpr ⟨?_, ?_⟩
  · intro group member
    rw [rejoined_group member]
    exact distinct.filter _
  · refine (List.pairwise_map.mp (packages_ascend names)).imp_of_mem ?_
    intro group other member member' before x inside inside'
    have here := rejoined_package member inside
    have there := rejoined_package member' inside'
    rw [← here, there] at before
    exact List.lt_irrefl _ before

theorem rejoined_perm (distinct : names.Nodup) : ((byPackage names).flatMap rejoined).Perm names :=
  (List.perm_ext_iff_of_nodup (rejoined_distinct distinct) distinct).mpr (mem_rejoined names)

end Listing

namespace CommandLine

-- What the listing shows of any survey, and where the command prints it.
theorem classes_listed (sources : List Source) :
    (∀ config : Survey.Config,
      let result := (Survey.ofSources config sources).outcome
      let groups := Listing.byPackage result.map.classes
      (groups.map (·.1)).Pairwise (· < ·) ∧
      (∀ group ∈ groups, group.2 ≠ [] ∧ group.2.Pairwise (· < ·) ∧
        ∀ name ∈ Listing.rejoined group, packageOf name = group.1) ∧
      (groups.flatMap Listing.rejoined).Perm result.map.classes ∧
      result.map.classes.Nodup ∧
      (∀ name, name ∈ result.map.classes ↔ Survey.Owns sources name) ∧
      classesLines result =
        if result.map.classes = [] then [Text.ofString "No classes found."]
        else groups.flatMap Listing.groupLines ++
          [[], Text.decimal result.map.known.size ++ Text.ofString " class(es) in " ++
            Text.decimal groups.length ++ Text.ofString " package(s)"]) ∧
    ∀ tree verbose path log,
      Sources.collect (.ofPatterns Survey.defaultSkips) tree path = (log, .ok sources) →
        ∃ told, perform tree verbose path .classes =
          printed 0 (messages (classesLines (Survey.ofSources { path } sources).outcome)) told := by
  constructor
  · intro config result groups
    have ascend : result.map.classes.Pairwise (· < ·) := Survey.survey_classes_ascend config sources
    have count : result.map.known.size = result.map.classes.length :=
      Std.ExtTreeSet.length_toList.symm
    refine ⟨Listing.packages_ascend _, ?_, Listing.rejoined_perm ascend.nodup, ascend.nodup,
      fun _ => Survey.mem_survey_classes, ?_⟩
    · intro group member
      obtain ⟨filled, ascending⟩ := Listing.group_ascends ascend member
      exact ⟨filled, ascending, fun name => Listing.rejoined_package member⟩
    · rw [count]
      unfold classesLines
      split
      · rename_i empty
        simp [empty]
      · rename_i filled
        rw [if_neg filled]
        rfl
  · intro tree verbose path log collected
    have finished := Survey.survey_finished { path } collected
    have possible : Pool.isPossible 1 sources = true := rfl
    rw [if_pos possible] at finished
    simp only [perform, Task.workers, finished]
    exact ⟨_, rfl⟩

end CommandLine
end ClassAtlas
