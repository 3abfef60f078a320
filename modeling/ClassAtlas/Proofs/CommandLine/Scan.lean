import ClassAtlas.CommandLine.Run
import ClassAtlas.Proofs.Survey.Result
import ClassAtlas.Proofs.Text.Join

/-!
A scan from the sources to the screen. The report lists the classes that decode and what they
lead to, and only where none decodes is something else printed in its place.
-/

namespace ClassAtlas

/-! What printing leaves as it is. -/

namespace Text
variable {c : CodePoint} {t rest sofar : Text}

theorem plain_from_skip (found : afterSequence? (c :: t) = some rest) :
    plainFrom sofar (c :: t) = plainFrom sofar rest := by
  rw [plainFrom]
  split
  · rename_i other found'
    rw [found] at found'
    cases found'
    rfl
  · rename_i found'
    rw [found] at found'
    cases found'

theorem plain_from_take (found : afterSequence? (c :: t) = none) :
    plainFrom sofar (c :: t) = plainFrom (c :: sofar) t := by
  rw [plainFrom]
  split
  · rename_i other found'
    rw [found] at found'
    cases found'
  · rfl

theorem plain_from_append (sofar t earlier : Text) :
    plainFrom (sofar ++ earlier) t = earlier.reverse ++ plainFrom sofar t := by
  induction sofar, t using plainFrom.induct with
  | case1 sofar => simp [plainFrom]
  | case2 sofar c t rest found ih => rw [plain_from_skip found, plain_from_skip found, ih]
  | case3 sofar c t found ih =>
    rw [plain_from_take found, plain_from_take found]
    exact ih

-- Only an escape begins a control sequence.
theorem plain_cons (ordinary : c ≠ escape) : plain (c :: t) = c :: plain t := by
  have none_begins : afterSequence? (c :: t) = none := by
    cases t with
    | nil => rfl
    | cons d t => exact if_neg fun begun => ordinary begun.1
  exact (plain_from_take none_begins).trans (plain_from_append [] t [c])

theorem plain_free (free : escape ∉ t) : plain t = t := by
  induction t with
  | nil => simp [plain, plainFrom]
  | cons c t ih =>
    rw [List.mem_cons, not_or] at free
    rw [plain_cons (Ne.symm free.1), ih free.2]

end Text

namespace CommandLine
variable {c : CodePoint} {t : Text}

theorem plain_ends_cons (ordinary : c ≠ carriageReturn) :
    withPlainEnds (c :: t) = c :: withPlainEnds t := by
  cases t <;> simp [withPlainEnds, List.filter_cons, ordinary]

theorem plain_ends_free (free : carriageReturn ∉ t) : withPlainEnds t = t := by
  induction t with
  | nil => rfl
  | cons c t ih =>
    rw [List.mem_cons, not_or] at free
    rw [plain_ends_cons (Ne.symm free.1), ih free.2]

/-! The output of a scan. -/

open Survey (survey_finished)

variable {tree : FileTree} {path : FilePath} {sources : List Source} {log : Log} {workers : Int}

-- The heading comes first, and begins with a letter that is printed as it is.
theorem render_begins (reach : Reach) (reports : List ClassReport) :
    ∃ c rest, ClassReport.render reach reports = c :: rest ∧ c ≠ Text.escape ∧
      c ≠ carriageReturn ∧ c ≠ 'N'.toNat := by
  have heading : ∃ rest, ClassReport.render reach reports = reach.heading ++ rest :=
    Text.join_begins reach.heading (reports.flatMap (ClassReport.lines reach))
  obtain ⟨rest, found⟩ := heading
  rw [found]
  cases reach with
  | direct => exact ⟨'D'.toNat, _, rfl, by decide, by decide, by decide⟩
  | transitive => exact ⟨'T'.toNat, _, rfl, by decide, by decide, by decide⟩

theorem printed_nothing (told : Text) :
    printed 0 (messages ["No classes found."]) told =
      .printed ⟨0, "No classes found.\n", withPlainEnds told⟩ := by
  have line : messages ["No classes found."] = Text.ofString "No classes found.\n" := by
    rw [messages, List.map_singleton, Text.plain_free (by decide)]
    rfl
  rw [line, printed, if_neg (by decide), plain_ends_free (by decide)]

theorem printed_report (reach : Reach) (reports : List ClassReport) (told errors : Text) :
    printed 0 (messages [ClassReport.render reach reports]) told ≠
      .printed ⟨0, "No classes found.\n", errors⟩ := by
  obtain ⟨c, rest, begins, ordinary, single, other⟩ := render_begins reach reports
  have output : messages [ClassReport.render reach reports] =
      c :: (Text.plain rest ++ [ClassReport.newline]) := by
    rw [begins, messages, List.map_singleton, Text.plain_cons ordinary]
    simp [lines]
  rw [output, printed, plain_ends_cons single]
  intro same
  split at same
  · cases same
  · injection same with same
    injection same with _ same _
    injection same with first _
    exact other first

theorem nothing_found_iff (result : Survey.Result) (reach : Reach) (scope : DependencyMap.Scope)
    (told : Text) :
    (∃ errors, printed 0 (messages (scanLines result reach scope)) told =
      .printed ⟨0, "No classes found.\n", errors⟩) ↔
    (result.map.buildReport result.packages reach scope).2 = [] := by
  unfold scanLines
  rcases result.map.buildReport result.packages reach scope with ⟨after, reports⟩
  cases reports with
  | nil => exact ⟨fun _ => rfl, fun _ => ⟨_, printed_nothing told⟩⟩
  | cons report later =>
    constructor
    · intro given
      obtain ⟨errors, same⟩ := given
      exact absurd same (printed_report reach (report :: later) told errors)
    · intro impossible
      cases impossible

theorem perform_scan (verbose : Bool) (reach : Reach) (scope : DependencyMap.Scope)
    (collected : Sources.collect (.ofPatterns Survey.defaultSkips) tree path = (log, .ok sources))
    (possible : Pool.isPossible workers sources = true) :
    ∃ told, perform tree verbose path (.scan reach scope workers) = printed 0
      (messages (scanLines (Survey.ofSources { path, workers } sources).outcome reach scope)) told := by
  have finished := survey_finished { path, workers } collected
  rw [if_pos possible] at finished
  simp only [perform, Task.workers]
  rw [finished]
  exact ⟨_, rfl⟩

theorem perform_scan_impossible (verbose : Bool) (reach : Reach) (scope : DependencyMap.Scope)
    (collected : Sources.collect (.ofPatterns Survey.defaultSkips) tree path = (log, .ok sources))
    (impossible : Pool.isPossible workers sources = false) :
    perform tree verbose path (.scan reach scope workers) = .aborted .tooManyWorkers := by
  have stopped := survey_finished { path, workers } collected
  rw [impossible, if_neg Bool.false_ne_true] at stopped
  simp only [perform, Task.workers]
  rw [stopped]
  rfl

-- From the sources of a scan to its report, and to what is printed of it.
theorem scan_reported (sources : List Source) (reach : Reach) (scope : DependencyMap.Scope) :
    (∀ config : Survey.Config,
      let result := (Survey.ofSources config sources).outcome
      let reports := (result.map.buildReport result.packages reach scope).2
      (∀ tree log,
        Sources.collect (.ofPatterns config.skips) tree config.path = (log, .ok sources) →
          (Survey.run config tree).outcome =
            if Pool.isPossible config.workers sources then .ok result else .error .tooManyWorkers) ∧
      (reports.map (·.name)).Pairwise (· < ·) ∧
      (∀ name, name ∈ reports.map (·.name) ↔ Survey.Owns sources name) ∧
      ∀ report ∈ reports,
        report.package = packageOf report.name ∧
        report.dependencies.Pairwise Text.Precedes ∧
        ∀ b, b ∈ report.dependencies ↔
          b ≠ report.name ∧ reach.follows (Survey.Refers sources) report.name b ∧
            (scope = .allPackages ∨ ∃ owner, Survey.Owns sources owner ∧
              packageOf owner = packageOf b)) ∧
    ∀ tree verbose path log workers,
      Sources.collect (.ofPatterns Survey.defaultSkips) tree path = (log, .ok sources) →
        (Pool.isPossible workers sources = true →
          ((∃ errors, perform tree verbose path (.scan reach scope workers) =
              .printed ⟨0, "No classes found.\n", errors⟩) ↔
            ∀ source ∈ sources, ∃ fault, ClassInfo.decode source.bytes = .error fault)) ∧
        (Pool.isPossible workers sources = false →
          perform tree verbose path (.scan reach scope workers) = .aborted .tooManyWorkers) := by
  constructor
  · intro config result reports
    obtain ⟨named, tells⟩ := Survey.survey_reports config sources reach scope
    refine ⟨fun tree log collected => survey_finished config collected, ?_, ?_, ?_⟩
    · rw [named]
      exact Survey.survey_classes_ascend config sources
    · intro name
      rw [named]
      exact Survey.mem_survey_classes
    · intro report member
      obtain ⟨package, ascends, lists⟩ := tells report member
      refine ⟨package, ascends, fun b => ?_⟩
      rw [lists, Survey.survey_admits]
  · intro tree verbose path log workers collected
    refine ⟨fun possible => ?_, perform_scan_impossible verbose reach scope collected⟩
    obtain ⟨told, performed⟩ := perform_scan verbose reach scope collected possible
    rw [performed, nothing_found_iff]
    exact Survey.no_report_iff ..

end CommandLine
end ClassAtlas
