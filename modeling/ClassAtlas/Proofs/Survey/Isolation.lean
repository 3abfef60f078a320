import ClassAtlas.Proofs.Survey.Result

/-!
What a file that does not decode costs a survey: its own place on the list of those skipped, and
nothing else. The map and the packages come from the other files alone, in their order, so that
surveying more files goes on with the map where the files before left it.
-/

namespace ClassAtlas.Survey

-- The sources that do not decode, in their order.
def failed (sources : List Source) : List Source :=
  sources.filter fun source => (ClassInfo.decode source.bytes).toOption.isNone

-- The second list is the first one with sources put in that do not decode, wherever they stand.
inductive Padded : List Source → List Source → Prop where
  | nil : Padded [] []
  | keep {sources others : List Source} (source : Source) (padded : Padded sources others) :
      Padded (source :: sources) (source :: others)
  | insert {sources others : List Source} {source : Source} {fault : ClassFile.Fault}
      (fails : ClassInfo.decode source.bytes = .error fault) (padded : Padded sources others) :
      Padded sources (source :: others)

variable {sources others : List Source}

theorem mem_failed_iff (source : Source) : source ∈ failed sources ↔
    source ∈ sources ∧ ∃ fault, ClassInfo.decode source.bytes = .error fault := by
  rw [failed, List.mem_filter, to_option_none_iff]

theorem classes_append (sources more : List Source) :
    classesIn (sources ++ more) = classesIn sources ++ classesIn more :=
  List.filterMap_append

-- Each source is a class or a failure.
theorem classes_and_failed (sources : List Source) :
    (classesIn sources).length + (failed sources).length = sources.length := by
  induction sources with
  | nil => rfl
  | cons source sources ih =>
    cases decoded : ClassInfo.decode source.bytes with
    | ok info =>
      have classes : classesIn (source :: sources) = info :: classesIn sources := by
        simp [classesIn, decoded, Except.toOption]
      have failures : failed (source :: sources) = failed sources := by
        simp [failed, decoded, Except.toOption]
      rw [classes, failures, List.length_cons, List.length_cons]
      omega
    | error fault =>
      have classes : classesIn (source :: sources) = classesIn sources := by
        simp [classesIn, decoded, Except.toOption]
      have failures : failed (source :: sources) = source :: failed sources := by
        simp [failed, decoded, Except.toOption]
      rw [classes, failures, List.length_cons, List.length_cons]
      omega

theorem Padded.classes (padded : Padded sources others) : classesIn others = classesIn sources := by
  induction padded with
  | nil => rfl
  | keep source _ ih =>
    simp only [classesIn, List.filterMap_cons] at ih ⊢
    rw [ih]
  | insert fails _ ih => simpa [classesIn, fails, Except.toOption] using ih

-- Two lists with the same classes come to results that differ in what was skipped at most.
theorem outcome_of_classes (config : Config) (same : classesIn others = classesIn sources) :
    (ofSources config others).outcome = { (ofSources config sources).outcome with
      skipped := (failed others).map (·.location) } := by
  simp only [ofSources, decode_all_eq, ofDecoded, add_each, same, List.nil_append]
  rfl

theorem mem_packages_iff (config : Config) (sources : List Source) (package : Text) :
    package ∈ (ofSources config sources).outcome.packages ↔
      ∃ info ∈ classesIn sources, info.package = package := by
  simp only [mem_packages, owns_iff]
  constructor
  · intro given
    obtain ⟨_, ⟨info, member, rfl⟩, placed⟩ := given
    exact ⟨info, member, placed⟩
  · intro given
    obtain ⟨info, member, placed⟩ := given
    exact ⟨info.name, ⟨info, member, rfl⟩, placed⟩

theorem map_append (config : Config) (sources more : List Source) :
    (ofSources config (sources ++ more)).outcome.map =
      (ofSources config sources).outcome.map.build (classesIn more) := by
  rw [survey_map, survey_map, classes_append]
  exact List.foldl_append ..

-- The result of a survey, however many workers decode: what decodes is in the map and its packages,
-- what does not is skipped, and together they are all. So sources that do not decode can be put
-- in anywhere, and surveying more sources builds on the map of those before.
theorem survey_isolates (config : Config) (sources : List Source) :
    let result := (ofSources config sources).outcome
    result.map = ({} : DependencyMap).build (classesIn sources) ∧
    (∀ package, package ∈ result.packages ↔ ∃ info ∈ classesIn sources, info.package = package) ∧
    result.skipped = (failed sources).map (·.location) ∧
    (∀ source, source ∈ failed sources ↔
      source ∈ sources ∧ ∃ fault, ClassInfo.decode source.bytes = .error fault) ∧
    (classesIn sources).length + result.skipped.length = sources.length ∧
    (∀ others, Padded sources others → (ofSources config others).outcome =
      { result with skipped := (failed others).map (·.location) }) ∧
    (∀ more,
      let both := (ofSources config (sources ++ more)).outcome
      both.map = result.map.build (classesIn more) ∧
      (∀ package, package ∈ both.packages ↔
        package ∈ result.packages ∨ package ∈ (ofSources config more).outcome.packages) ∧
      both.skipped = result.skipped ++ (ofSources config more).outcome.skipped) ∧
    ∀ tree log,
      Sources.collect (.ofPatterns config.skips) tree config.path = (log, .ok sources) →
        (run config tree).outcome =
          if Pool.isPossible config.workers sources then .ok result else .error .tooManyWorkers := by
  intro result
  refine ⟨survey_map config sources, mem_packages_iff config sources, survey_skipped config sources,
    mem_failed_iff, ?_, ?_, ?_, fun tree log collected => survey_finished config collected⟩
  · rw [survey_skipped, List.length_map]
    exact classes_and_failed sources
  · intro others padded
    exact outcome_of_classes config padded.classes
  · intro more both
    refine ⟨map_append config sources more, fun package => ?_, ?_⟩
    · simp only [both, result, mem_packages_iff, classes_append, List.mem_append, or_and_right,
        exists_or]
    · simp only [both, result, survey_skipped]
      rw [List.filter_append, List.map_append]

end ClassAtlas.Survey
