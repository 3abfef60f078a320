import Mathlib.Data.List.Infix
import ClassAtlas.Proofs.Text.Join
import ClassAtlas.Report.Basic

/-!
A report read back from its text. A line behind the heading either names a class, or is a
dependency behind a tab, or is empty and ends an entry; so the text of a report, none of whose
names breaks a line, tells how far dependencies are followed and every entry, whatever else the
names look like.
-/

namespace ClassAtlas.ClassReport

-- What the text shows of a class. Its package is not written.
def shown (report : ClassReport) : Text × List Text := (report.name, report.dependencies)

def entryLines (reach : Reach) (entry : Text × List Text) : List Text :=
  (reach.classLine ++ entry.1) :: entry.2.map (tab :: ·) ++ [[]]

def OneLine (report : ClassReport) : Prop :=
  ∀ name ∈ report.name :: report.dependencies, newline ∉ name

instance (report : ClassReport) : Decidable report.OneLine :=
  inferInstanceAs (Decidable (∀ name ∈ report.name :: report.dependencies, newline ∉ name))

mutual

def readEntries (reach : Reach) : List Text → Option (List (Text × List Text))
  | [] => some []
  | line :: rest =>
    match reach.classLine.isPrefixOf? line, readDependencies reach rest with
    | some name, some (dependencies, later) => some ((name, dependencies) :: later)
    | _, _ => none

-- The dependencies up to an empty line, and the entries behind it.
def readDependencies (reach : Reach) : List Text → Option (List Text × List (Text × List Text))
  | [] => none
  | [] :: rest => (readEntries reach rest).map ([], ·)
  | (c :: name) :: rest =>
    if c = tab then (readDependencies reach rest).map fun (names, later) => (name :: names, later)
    else none

end

def readHeading (line : Text) : Option Reach :=
  [Reach.direct, .transitive].find? (·.heading == line)

def read (text : Text) : Option (Reach × List (Text × List Text)) :=
  match Text.splitAtEach newline text with
  | [] => none
  | heading :: lines => do
    let reach ← readHeading heading
    let entries ← readEntries reach lines
    return (reach, entries)

variable {reach : Reach} {report : ClassReport} {reports : List ClassReport} {rest : List Text}
  {entries : List (Text × List Text)}

/-! What is rendered is read. -/

theorem read_dependencies_lines (later : readEntries reach rest = some entries)
    (dependencies : List Text) :
    readDependencies reach (dependencies.map (tab :: ·) ++ [] :: rest) =
      some (dependencies, entries) := by
  induction dependencies with
  | nil => simp [readDependencies, later]
  | cons name dependencies ih => simp [readDependencies, ih]

theorem read_entries_lines (reach : Reach) (reports : List ClassReport) :
    readEntries reach (reports.flatMap (lines reach)) = some (reports.map shown) := by
  induction reports with
  | nil => rfl
  | cons report reports ih =>
    have named : reach.classLine.isPrefixOf? (reach.classLine ++ report.name) = some report.name :=
      List.isPrefixOf?_eq_some_iff_append_eq.mpr rfl
    have within := read_dependencies_lines ih report.dependencies
    simp [lines, readEntries, named, within, shown]

theorem read_heading (reach : Reach) : readHeading reach.heading = some reach := by
  cases reach <;> decide

theorem heading_one_line (reach : Reach) : newline ∉ reach.heading := by
  cases reach <;> decide

theorem class_line_one_line (reach : Reach) : newline ∉ reach.classLine := by
  cases reach <;> decide

theorem lines_one_line (oneLine : report.OneLine) : ∀ line ∈ lines reach report, newline ∉ line := by
  intro line member
  simp only [lines, List.cons_append, List.mem_cons, List.mem_append, List.mem_map,
    List.not_mem_nil, or_false] at member
  rcases member with rfl | ⟨name, listed, rfl⟩ | rfl
  · simp [class_line_one_line, oneLine report.name List.mem_cons_self]
  · have apart : newline ≠ tab := by decide
    simp [apart, oneLine name (List.mem_cons_of_mem _ listed)]
  · exact List.not_mem_nil

theorem split_render (reach : Reach) (oneLine : ∀ report ∈ reports, report.OneLine) :
    Text.splitAtEach newline (render reach reports) =
      reach.heading :: reports.flatMap (lines reach) := by
  apply Text.split_join (List.cons_ne_nil _ _)
  intro line member
  rcases List.mem_cons.mp member with rfl | inside
  · exact heading_one_line reach
  · obtain ⟨report, listed, among⟩ := List.mem_flatMap.mp inside
    exact lines_one_line (oneLine report listed) line among

theorem read_render (reach : Reach) (oneLine : ∀ report ∈ reports, report.OneLine) :
    read (render reach reports) = some (reach, reports.map shown) := by
  simp [read, split_render reach oneLine, read_heading, read_entries_lines]

/-! Nothing else is read. -/

-- By recursion over the lines, both readers at once, since each calls the other.
theorem lines_of_read (lines : List Text) :
    (∀ entries, readEntries reach lines = some entries → lines = entries.flatMap (entryLines reach)) ∧
      ∀ names entries, readDependencies reach lines = some (names, entries) →
        lines = names.map (tab :: ·) ++ [] :: entries.flatMap (entryLines reach) := by
  induction lines with
  | nil => simp [readEntries, readDependencies]
  | cons line rest ih =>
    obtain ⟨outside, inside⟩ := ih
    constructor
    · intro entries told
      rw [readEntries] at told
      split at told
      · rename_i name dependencies later named within
        cases told
        have written := List.isPrefixOf?_eq_some_iff_append_eq.mp named
        simp [entryLines, written, inside dependencies later within]
      · cases told
    · intro names entries told
      cases line with
      | nil =>
        simp only [readDependencies, Option.map_eq_some_iff, Prod.mk.injEq] at told
        obtain ⟨_, told, rfl, rfl⟩ := told
        simp [outside _ told]
      | cons c name =>
        rw [readDependencies] at told
        split at told
        · rename_i isTab
          obtain ⟨⟨others, _⟩, told, same⟩ := Option.map_eq_some_iff.mp told
          cases same
          simp [isTab, inside others entries told]
        · cases told

theorem heading_of_read {line : Text} (told : readHeading line = some reach) :
    line = reach.heading := by
  have found := List.find?_some told
  exact (beq_iff_eq.mp found).symm

theorem render_of_read {text : Text} (told : read text = some (reach, reports.map shown)) :
    text = render reach reports := by
  have whole := Text.join_split newline text
  unfold read at told
  split at told
  · cases told
  · rename_i heading lines split
    simp only [Option.bind_eq_bind, Option.pure_def, Option.bind_eq_some_iff, Option.some.injEq,
      Prod.mk.injEq] at told
    obtain ⟨_, begun, entries, told, rfl, same⟩ := told
    have body := (lines_of_read lines).1 entries told
    rw [← whole, split, heading_of_read begun, body, same, List.flatMap_map]
    rfl

-- The text of a report whose names are on one line each tells the report, and no other text does.
theorem render_unambiguous (reach : Reach) (reports : List ClassReport)
    (oneLine : ∀ report ∈ reports, report.OneLine) :
    (∀ text, read text = some (reach, reports.map shown) ↔ text = render reach reports) ∧
    ∀ reach' others, (∀ report ∈ others, report.OneLine) →
      render reach' others = render reach reports →
        reach' = reach ∧ others.map shown = reports.map shown := by
  constructor
  · intro text
    constructor
    · exact render_of_read
    · rintro rfl
      exact read_render reach oneLine
  · intro reach' others oneLine' same
    have told := (read_render reach' oneLine').symm.trans (congrArg read same)
    rw [read_render reach oneLine] at told
    exact Prod.mk.inj (Option.some.inj told)

-- Names that are empty, begin with a tab or look like a line of another kind.
def misleading : List ClassReport :=
  [⟨"", "", []⟩, ⟨"\tp.A", "", ["", "\t", "Direct dependencies for class p.B"]⟩,
    ⟨"TRANSITIVE DEPENDENCIES", "", [""]⟩]

theorem misleading_told : (∀ report ∈ misleading, report.OneLine) ∧
    read (render .direct misleading) = some (.direct, misleading.map shown) := by
  have oneLine : ∀ report ∈ misleading, report.OneLine := by decide
  exact ⟨oneLine, ((render_unambiguous .direct misleading oneLine).1 _).mpr rfl⟩

end ClassAtlas.ClassReport
