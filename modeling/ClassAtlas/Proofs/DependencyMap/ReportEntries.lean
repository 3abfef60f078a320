import ClassAtlas.Proofs.DependencyMap.OrderFree

/-!
A report is its entries. Each is what the map says of one class before any class is asked about,
although a transitive report puts it together from what the entries before it left behind. For a
question leaves a map that agrees with the one before, and maps that agree make the same entries
and give the same answers ever after.
-/

namespace ClassAtlas

-- The report without the dependencies outside of the packages.
def ClassReport.within (packages : NameSet) (report : ClassReport) : ClassReport :=
  { report with dependencies := report.dependencies.filter fun x => packages.contains (packageOf x) }

namespace DependencyMap

-- What an answer says of the classes, and not of what is remembered of them.
def Step.told : Step → Answer → Option Answer
  | .pending _, _ => none
  | _, answer => some answer.shown

def tellings (m : DependencyMap) (steps : List Step) : List (Option Answer) :=
  List.zipWith Step.told steps (m.run steps).2

variable {m n k : DependencyMap} {packages : NameSet} {reach : Reach} {scope : Scope}

theorem Agrees.trans (first : Agrees m n) (second : Agrees n k) : Agrees m k where
  left := first.left
  right := second.right
  contains := fun x => (first.contains x).trans (second.contains x)
  known := first.known.trans second.known
  edges := first.edges.trans second.edges

theorem agrees_query (kept : m.Kept) (name : Text) :
    Agrees m (m.transitiveDependenciesOf name).1 := by
  obtain ⟨index, known⟩ := query_ground m name
  refine ⟨kept, kept_query kept name, ?_, known.symm, ?_⟩
  · intro x
    simp [contains, index]
  · funext x y
    exact propext (edge_query kept name x y).symm

theorem agrees_reached (kept : m.Kept) (reach : Reach) (name : Text) :
    Agrees m (m.reachedFrom reach name).1 := by
  cases reach with
  | direct => exact ⟨kept, kept, fun _ => rfl, rfl, rfl⟩
  | transitive => exact agrees_query kept name

-- An entry is fixed by the edges and the packages.
theorem Agrees.entry (agrees : Agrees m n) (packages : NameSet) (reach : Reach) (scope : Scope)
    (name : Text) :
    (m.reportOn packages reach scope name).2 = (n.reportOn packages reach scope name).2 := by
  have tells := report_tells agrees.left packages reach scope name
  have tells' := report_tells agrees.right packages reach scope name
  rw [← agrees.edges] at tells'
  exact tells.unique tells' rfl

-- The map in hand agrees with the one at the start, and so it makes the same next entry.
theorem entries_from (agrees : Agrees m n) (packages : NameSet) (reach : Reach) (scope : Scope)
    (names : List Text) :
    Agrees m (n.reportOnEach packages reach scope names).1 ∧
      (n.reportOnEach packages reach scope names).2 =
        names.map fun name => (m.reportOn packages reach scope name).2 := by
  induction names generalizing n with
  | nil => exact ⟨agrees, rfl⟩
  | cons name names ih =>
    obtain ⟨agrees', later⟩ := ih (agrees.trans (agrees_reached agrees.right reach name))
    refine ⟨agrees', ?_⟩
    have first := (agrees.entry packages reach scope name).symm
    exact congr (congrArg List.cons first) later

theorem report_entries (kept : m.Kept) (packages : NameSet) (reach : Reach) (scope : Scope) :
    Agrees m (m.buildReport packages reach scope).1 ∧
      (m.buildReport packages reach scope).2 =
        (m.classes.filter fun name => packages.contains (packageOf name)).map
          fun name => (m.reportOn packages reach scope name).2 :=
  entries_from ⟨kept, kept, fun _ => rfl, rfl, rfl⟩ packages reach scope _

theorem entry_within (m : DependencyMap) (packages : NameSet) (reach : Reach) (name : Text) :
    (m.reportOn packages reach .chosenPackages name).2 =
      ClassReport.within packages (m.reportOn packages reach .allPackages name).2 := by
  have all : Scope.allPackages.admits packages = fun _ => true := rfl
  have chosen : Scope.chosenPackages.admits packages = fun x => packages.contains (packageOf x) := rfl
  simp [reportOn, ClassReport.within, all, chosen]

theorem report_within (kept : m.Kept) (packages : NameSet) (reach : Reach) :
    (m.buildReport packages reach .chosenPackages).2 =
      (m.buildReport packages reach .allPackages).2.map (ClassReport.within packages) := by
  obtain ⟨_, chosen⟩ := report_entries kept packages reach .chosenPackages
  obtain ⟨_, whole⟩ := report_entries kept packages reach .allPackages
  simp [chosen, whole, entry_within]

theorem Agrees.told (agrees : Agrees m n) (s : Step) :
    s.told (m.step s).2 = s.told (n.step s).2 := by
  cases s with
  | pending name => rfl
  | _ => exact congrArg some (agrees.answer _ trivial)

theorem Agrees.tellings (agrees : Agrees m n) (later : List Step) :
    m.tellings later = n.tellings later := by
  induction later generalizing m n with
  | nil => rfl
  | cons first later ih =>
    have rest : (m.step first).1.tellings later = (n.step first).1.tellings later :=
      ih (agrees.step first)
    have here := agrees.told first
    simp only [DependencyMap.tellings, run, List.zipWith_cons_cons] at rest ⊢
    rw [here, rest]

theorem classes_ascend (m : DependencyMap) : m.classes.Pairwise (· < ·) :=
  Std.ExtTreeSet.ordered_toList.imp fun before => (Text.compare_lt_iff _ _).mp before

-- What a report says after any session, entry by entry and as a whole; and what asking for it, or
-- about any one name, changes for what is asked later: nothing but what is pending or folded in.
theorem report_exact (steps : List Step) (packages : NameSet) (reach : Reach) (scope : Scope) :
    let m := (run {} steps).1
    let reports := (m.buildReport packages reach scope).2
    let asked (name : Text) : DependencyMap := (m.transitiveDependenciesOf name).1
    (∀ a b, m.Edge a b ↔ a ≠ b ∧ (a, b) ∈ steps.flatMap Step.links) ∧
    (reports.map (·.name)).Pairwise (· < ·) ∧
    (∀ name, name ∈ reports.map (·.name) ↔
      name ∈ steps.flatMap Step.registers ∧ packageOf name ∈ packages) ∧
    (∀ report ∈ reports, report.Tells m.Edge packages reach scope) ∧
    reports = (reports.map (·.name)).map (fun name => (m.reportOn packages reach scope name).2) ∧
    (∀ name other, ((asked other).reportOn packages reach scope name).2 =
      (m.reportOn packages reach scope name).2) ∧
    (∀ name later, (asked name).tellings later = m.tellings later) ∧
    (∀ later, (m.buildReport packages reach scope).1.tellings later = m.tellings later) ∧
    (m.buildReport packages reach .chosenPackages).2 =
      (m.buildReport packages reach .allPackages).2.map (ClassReport.within packages) := by
  intro m reports asked
  have kept : m.Kept := kept_run steps
  obtain ⟨agrees, entries⟩ := report_entries kept packages reach scope
  obtain ⟨named, tells⟩ := reports_exact kept packages reach scope
    (m.classes.filter fun name => packages.contains (packageOf name))
  have names : reports.map (·.name) =
      m.classes.filter fun name => packages.contains (packageOf name) := named
  have undisturbed : ∀ name, Agrees m (asked name) := agrees_query kept
  refine ⟨fun _ _ => edge_run steps, ?_, ?_, tells, ?_, ?_, ?_, ?_, report_within kept packages reach⟩
  · rw [names]
    exact (classes_ascend m).filter _
  · intro name
    simp [names, classes, m, known_run]
  · rw [names]
    exact entries
  · exact fun name other => ((undisturbed other).entry packages reach scope name).symm
  · exact fun name later => ((undisturbed name).tellings later).symm
  · exact fun later => (agrees.tellings later).symm

end DependencyMap
end ClassAtlas
