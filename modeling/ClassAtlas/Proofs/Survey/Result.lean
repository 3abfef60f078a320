import ClassAtlas.Proofs.DependencyMap.Ground
import ClassAtlas.Proofs.DependencyMap.Report
import ClassAtlas.Proofs.Survey.Pool
import ClassAtlas.Survey.Basic

/-!
What a survey comes to. Its map is the one built of the classes that decode, in the order of the
sources and however many workers there are; its packages are theirs. So a report on it is on
exactly these classes, and tells what they refer to.
-/

namespace ClassAtlas.Survey

-- The classes that decode, in the order of their sources.
def classesIn (sources : List Source) : List ClassInfo :=
  sources.filterMap fun source => (ClassInfo.decode source.bytes).toOption

-- Some source decodes to a class of that name.
def Owns (sources : List Source) (name : Text) : Prop :=
  ∃ source ∈ sources, ∃ info, ClassInfo.decode source.bytes = .ok info ∧ info.name = name

-- Some source decodes to a class of the first name that refers to the second.
def Refers (sources : List Source) (a b : Text) : Prop :=
  a ≠ b ∧ ∃ source ∈ sources, ∃ info, ClassInfo.decode source.bytes = .ok info ∧
    info.name = a ∧ b ∈ info.references

variable {config : Config} {sources : List Source} {name a b : Text}

theorem to_option_some_iff {ε α : Type} {told : Except ε α} {a : α} :
    told.toOption = some a ↔ told = .ok a := by
  cases told <;> simp [Except.toOption]

theorem to_option_none_iff {ε α : Type} {told : Except ε α} :
    told.toOption.isNone = true ↔ ∃ fault, told = .error fault := by
  cases told <;> simp [Except.toOption]

theorem exists_class {P : ClassInfo → Prop} : (∃ info ∈ classesIn sources, P info) ↔
    ∃ source ∈ sources, ∃ info, ClassInfo.decode source.bytes = .ok info ∧ P info := by
  simp only [classesIn, List.mem_filterMap, to_option_some_iff]
  constructor
  · intro given
    obtain ⟨info, ⟨source, member, told⟩, holds⟩ := given
    exact ⟨source, member, info, told, holds⟩
  · intro given
    obtain ⟨source, member, info, told, holds⟩ := given
    exact ⟨info, ⟨source, member, told⟩, holds⟩

theorem owns_iff : Owns sources name ↔ ∃ info ∈ classesIn sources, info.name = name :=
  exists_class.symm

theorem refers_iff : Refers sources a b ↔
    a ≠ b ∧ ∃ info ∈ classesIn sources, info.name = a ∧ b ∈ info.references :=
  and_congr_right fun _ => exists_class.symm

/-! The result of a survey. -/

theorem survey_finished {tree : FileTree} {log : Log} (config : Config)
    (collected : Sources.collect (.ofPatterns config.skips) tree config.path = (log, .ok sources)) :
    (run config tree).outcome =
      if Pool.isPossible config.workers sources then .ok (ofSources config sources).outcome
      else .error .tooManyWorkers := by
  rw [run, collected]
  dsimp only
  split <;> rfl

theorem decode_all_eq (workers : Int) (sources : List Source) :
    decodeAll workers sources = sources.map fun source => (source, ClassInfo.decode source.bytes) := by
  rw [decodeAll, Pool.map_eq, List.map_map]
  induction sources with
  | nil => rfl
  | cons source sources ih =>
    rw [List.map_cons, List.zip_cons_cons, ih]
    rfl

-- Sources that decode go into the map, and the others are skipped.
theorem add_each (r : Result) (sources : List Source) :
    (sources.map fun source => (source, ClassInfo.decode source.bytes)).foldl
        (fun r entry => r.add entry.1 entry.2) r =
      { r with
        map := r.map.build (classesIn sources)
        packages := (classesIn sources).foldl (fun found info => found.insert info.package) r.packages
        skipped := r.skipped ++ (sources.filter fun source =>
          (ClassInfo.decode source.bytes).toOption.isNone).map (·.location) } := by
  induction sources generalizing r with
  | nil => simp [classesIn, DependencyMap.build]
  | cons source sources ih =>
    rw [List.map_cons, List.foldl_cons, ih]
    cases r
    cases decoded : ClassInfo.decode source.bytes with
    | ok info => simp [Result.add, classesIn, decoded, Except.toOption, DependencyMap.build]
    | error fault => simp [Result.add, classesIn, decoded, Except.toOption]

theorem survey_map (config : Config) (sources : List Source) :
    (ofSources config sources).outcome.map = ({} : DependencyMap).build (classesIn sources) := by
  rw [ofSources, decode_all_eq, ofDecoded, add_each]

theorem survey_skipped (config : Config) (sources : List Source) :
    (ofSources config sources).outcome.skipped = (sources.filter fun source =>
      (ClassInfo.decode source.bytes).toOption.isNone).map (·.location) := by
  rw [ofSources, decode_all_eq, ofDecoded, add_each]
  exact List.nil_append _

theorem mem_packages (package : Text) : package ∈ (ofSources config sources).outcome.packages ↔
    ∃ owner, Owns sources owner ∧ packageOf owner = package := by
  have each : ∀ (infos : List ClassInfo) (found : NameSet),
      package ∈ infos.foldl (fun found info => found.insert info.package) found ↔
        package ∈ found ∨ ∃ info ∈ infos, info.package = package := by
    intro infos
    induction infos with
    | nil => simp
    | cons info infos ih =>
      intro found
      rw [List.foldl_cons, ih, Std.ExtTreeSet.mem_insert, Std.LawfulEqCmp.compare_eq_iff_eq]
      simp only [List.mem_cons, exists_eq_or_imp]
      exact or_assoc.trans or_left_comm
  simp only [ofSources, decode_all_eq, ofDecoded, add_each, each, owns_iff]
  constructor
  · intro given
    obtain ⟨info, member, package⟩ := given.resolve_left Std.ExtTreeSet.not_mem_empty
    exact ⟨info.name, ⟨info, member, rfl⟩, package⟩
  · intro given
    obtain ⟨_, ⟨info, member, rfl⟩, package⟩ := given
    exact .inr ⟨info, member, package⟩

/-! The report on a survey. -/

theorem survey_run (config : Config) (sources : List Source) :
    (ofSources config sources).outcome.map =
      (DependencyMap.run {} [.build (classesIn sources)]).1 := survey_map config sources

theorem survey_kept (config : Config) (sources : List Source) :
    (ofSources config sources).outcome.map.Kept := by
  rw [survey_run]
  exact DependencyMap.kept_run _

theorem survey_edges (config : Config) (sources : List Source) :
    (ofSources config sources).outcome.map.Edge = Refers sources := by
  funext a b
  rw [survey_run, eq_iff_iff, DependencyMap.edge_run, refers_iff]
  simp [DependencyMap.Step.links, and_comm, eq_comm]

theorem mem_survey_classes : name ∈ (ofSources config sources).outcome.map.classes ↔
    Owns sources name := by
  rw [DependencyMap.classes, Std.ExtTreeSet.mem_toList, survey_run, DependencyMap.known_run, owns_iff]
  simp [DependencyMap.Step.registers]

-- Every class is of a package of the survey, so no class is left out.
theorem survey_reports (config : Config) (sources : List Source) (reach : Reach)
    (scope : DependencyMap.Scope) :
    let result := (ofSources config sources).outcome
    let reports := (result.map.buildReport result.packages reach scope).2
    reports.map (·.name) = result.map.classes ∧
      ∀ report ∈ reports, report.Tells (Refers sources) result.packages reach scope := by
  intro result reports
  have all : (result.map.classes.filter fun name => result.packages.contains (packageOf name)) =
      result.map.classes := by
    refine List.filter_eq_self.mpr fun name member => Std.ExtTreeSet.contains_iff_mem.mpr ?_
    exact (mem_packages _).mpr ⟨name, mem_survey_classes.mp member, rfl⟩
  obtain ⟨named, tells⟩ := DependencyMap.reports_exact (survey_kept config sources) result.packages
    reach scope (result.map.classes.filter fun name => result.packages.contains (packageOf name))
  rw [survey_edges] at tells
  exact ⟨named.trans all, tells⟩

theorem survey_classes_ascend (config : Config) (sources : List Source) :
    (ofSources config sources).outcome.map.classes.Pairwise (· < ·) :=
  (Std.ExtTreeSet.ordered_toList).imp fun before => (Text.compare_lt_iff _ _).mp before

theorem survey_admits (scope : DependencyMap.Scope) :
    scope.admits (ofSources config sources).outcome.packages b = true ↔
      scope = .allPackages ∨ ∃ owner, Owns sources owner ∧ packageOf owner = packageOf b := by
  cases scope with
  | allPackages => simp [DependencyMap.Scope.admits]
  | chosenPackages =>
    rw [DependencyMap.Scope.admits, Std.ExtTreeSet.contains_iff_mem, mem_packages]
    simp

theorem no_report_iff (config : Config) (sources : List Source) (reach : Reach)
    (scope : DependencyMap.Scope) :
    let result := (ofSources config sources).outcome
    (result.map.buildReport result.packages reach scope).2 = [] ↔
      ∀ source ∈ sources, ∃ fault, ClassInfo.decode source.bytes = .error fault := by
  intro result
  have named := (survey_reports config sources reach scope).1
  rw [← List.map_eq_nil_iff (f := ClassReport.name), named, List.eq_nil_iff_forall_not_mem]
  constructor
  · intro none_owned source member
    cases decoded : ClassInfo.decode source.bytes with
    | error fault => exact ⟨fault, rfl⟩
    | ok info =>
      exact absurd (mem_survey_classes.mpr ⟨source, member, info, decoded, rfl⟩) (none_owned info.name)
  · intro all_fail name owned
    obtain ⟨source, member, info, decoded, _⟩ := mem_survey_classes.mp owned
    obtain ⟨fault, failed⟩ := all_fail source member
    rw [decoded] at failed
    cases failed

end ClassAtlas.Survey
