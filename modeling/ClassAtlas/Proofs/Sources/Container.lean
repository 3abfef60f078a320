import Mathlib.Data.List.Forall2
import ClassAtlas.Proofs.Text.Join
import ClassAtlas.Sources.Collect

/-!
What is collected does not depend on where it lies. An entry of an archive has its place spelled
in its name, and a file has it in the tree; the rule for what counts says the same of both.
-/

namespace ClassAtlas

-- Names from the top folder down, as a file system and an archive can both have them.
structure Place.Normal (place : Place) : Prop where
  named : place ≠ []
  names : ∀ part ∈ place, part ≠ [] ∧ part ≠ FilePath.dot ∧ FilePath.slash ∉ part

def Place.text (place : Place) : Text := Text.join [FilePath.slash] place

variable {place : Place}

-- The text ends as its last name does, and so not in a slash.
theorem Place.Normal.text_ends (normal : place.Normal) :
    ∃ front c, place.text = front ++ [c] ∧ c ≠ FilePath.slash := by
  obtain ⟨folders, name, rfl⟩ := (List.eq_nil_or_concat' _).resolve_left normal.named
  obtain ⟨filled, _, free⟩ := normal.names name (List.mem_append_right _ List.mem_cons_self)
  obtain ⟨before, c, rfl⟩ := (List.eq_nil_or_concat' name).resolve_left filled
  obtain ⟨front, whole, _⟩ := @Text.join_ends [FilePath.slash] folders (before ++ [c])
  refine ⟨front ++ before, c, ?_, ?_⟩
  · rw [Place.text, whole, List.append_assoc]
  · rintro rfl
    exact free (List.mem_append_right _ List.mem_cons_self)

namespace FilePath

theorem anchor_of_place (normal : place.Normal) : anchorOf place.text = [] := by
  cases place with
  | nil => exact absurd rfl normal.named
  | cons part later =>
    obtain ⟨filled, _, free⟩ := normal.names part List.mem_cons_self
    obtain ⟨rest, begins⟩ := @Text.join_begins [slash] part later
    cases part with
    | nil => exact absurd rfl filled
    | cons c part =>
      have other : c ≠ slash := fun same => free (same ▸ List.mem_cons_self)
      rw [anchorOf, Place.text, begins]
      simp [other]

theorem parse_place (normal : place.Normal) : parse place.text = ⟨[], place⟩ := by
  have parts := Text.split_join normal.named fun part member => (normal.names part member).2.2
  have kept : place.filter (fun part => part ≠ [] ∧ part ≠ dot) = place := by
    refine List.filter_eq_self.mpr fun part member => decide_eq_true ?_
    obtain ⟨filled, named, _⟩ := normal.names part member
    exact ⟨filled, named⟩
  rw [parse, anchor_of_place normal, Place.text, parts, kept]

end FilePath

namespace FileTree

theorem below_distinct (tree : FileTree) (folder : Place) :
    ((tree.below folder).map Prod.fst).Nodup := by
  have apart := Std.ExtTreeMap.distinct_keys_toList (t := tree.files)
  rw [List.Nodup, List.pairwise_map, below, List.pairwise_filterMap]
  refine apart.imp fun {entry other} differ f found g found' same => differ ?_
  have parts : ∀ (entry f : Place × List UInt8),
      (if folder.isPrefixOf entry.1 then some (entry.1.drop folder.length, entry.2) else none) =
        some f → entry.1 = folder ++ f.1 := by
    intro entry f found
    split at found
    · rename_i inside
      cases found
      exact (List.prefix_iff_eq_append.mp (List.isPrefixOf_iff_prefix.mp inside)).symm
    · cases found
  rw [parts entry f found, parts other g found', same]
  exact Std.ReflCmp.compare_self

end FileTree

namespace Selection

-- The name ends as those of class files do, and no folder on the way is to be skipped.
def Counts (selection : Selection) (place : Place) : Prop :=
  ∃ folders name, place = folders ++ [name] ∧ classSuffix <:+ name ∧
    ∀ folder ∈ folders, selection.skips folder = false

end Selection

namespace Sources

variable {selection : Selection} {archive : Archive} {e : Entry} {f : Place × List UInt8}
  {entries : List Entry} {files : List (Place × List UInt8)} {path : FilePath} {tree : FileTree}

-- The entry gives that file: the name that spells its place, and its bytes.
structure Stores (archive : Archive) (e : Entry) (f : Place × List UInt8) : Prop where
  name : e.name = f.1.text
  content : archive.content e = .ok f.2

def sourceIn (path : FilePath) (f : Place × List UInt8) : Source :=
  ⟨path.text ++ "!/" ++ f.1.text, f.2⟩

theorem selects_place (selection : Selection) (folders : List Text) (name : Text) :
    selectsPlace selection (folders ++ [name]) =
      (Selection.classSuffix.isSuffixOf name && !selection.skipsAny folders) := by
  simp [selectsPlace, Selection.takes]

theorem selects_place_iff {place : Place} :
    selectsPlace selection place = true ↔ selection.Counts place := by
  rcases List.eq_nil_or_concat' place with rfl | ⟨folders, name, rfl⟩
  · simp [selectsPlace, Selection.takes, Selection.Counts, Selection.classSuffix, Text.ofString,
      List.isSuffixOf]
  · simp [selects_place, Selection.Counts, Selection.skipsAny]

theorem stored_name (stores : Stores archive e f) (normal : f.1.Normal) :
    e.name.isEmpty = false ∧ e.isFolder = false := by
  obtain ⟨front, c, whole, other⟩ := normal.text_ends
  have unlike : (some c == some FilePath.slash) = false :=
    beq_eq_false_iff_ne.mpr fun same => other (Option.some.inj same)
  rw [Entry.isFolder, stores.name, whole, List.getLast?_concat]
  exact ⟨by simp, unlike⟩

theorem selects_alike (stores : Stores archive e f) (normal : f.1.Normal) :
    selectsEntry selection e = selectsPlace selection f.1 := by
  obtain ⟨filled, isFile⟩ := stored_name stores normal
  obtain ⟨folders, name, shape⟩ := (List.eq_nil_or_concat' _).resolve_left normal.named
  have onTheWay : (FilePath.parse e.name).folders = folders := by
    rw [stores.name, FilePath.parse_place normal, shape]
    simp [FilePath.folders, FilePath.components]
  have ending : Selection.classSuffix.isSuffixOf e.name =
      Selection.classSuffix.isSuffixOf name := by
    rw [Bool.eq_iff_iff, List.isSuffixOf_iff_suffix, List.isSuffixOf_iff_suffix, stores.name, shape]
    exact Text.suffix_join (by decide) folders name
  rw [shape, selects_place, selectsEntry, filled, isFile, Selection.takes, onTheWay, ending]
  rfl

theorem of_entries_stored (stored : List.Forall₂ (Stores archive) entries files) :
    ∃ log, ofEntries path.text archive entries = (log, .ok (files.map (sourceIn path))) := by
  induction stored with
  | nil => exact ⟨[], rfl⟩
  | @cons e f entries files stores _ ih =>
    obtain ⟨log, told⟩ := ih
    refine ⟨matchedEntry path.text e :: log, ?_⟩
    have location : entryLocation path.text e = path.text ++ "!/" ++ f.1.text := by
      rw [entryLocation, stores.name]
    simp only [ofEntries, stores.content, told, location]
    rfl

theorem selected_stored (normal : ∀ f ∈ files, f.1.Normal)
    (stored : List.Forall₂ (Stores archive) (entries.filter (!·.isFolder)) files) :
    List.Forall₂ (Stores archive) (entries.filter (selectsEntry selection))
      (files.filter (selectsPlace selection ·.1)) := by
  induction entries generalizing files with
  | nil =>
    cases stored
    exact .nil
  | cons e entries ih =>
    cases isFolder : e.isFolder with
    | true =>
      have filled : e.name.isEmpty = false := by
        cases named : e.name with
        | nil => simp [Entry.isFolder, named] at isFolder
        | cons => rfl
      have passed : selectsEntry selection e = false := by simp [selectsEntry, filled, isFolder]
      simp only [List.filter_cons, isFolder, passed] at stored ⊢
      exact ih normal stored
    | false =>
      simp only [List.filter_cons, isFolder] at stored ⊢
      cases stored with
      | @cons _ f _ files stores later =>
        have rest := ih (fun g member => normal g (.tail f member)) later
        rw [List.filter_cons, selects_alike stores (normal f List.mem_cons_self)]
        split
        · exact .cons stores rest
        · exact rest

/-! What is collected from either of them. -/

theorem collect_folder {place : Place} (selection : Selection)
    (found : tree.find path = .ok (.folder place)) :
    ∃ log, collect selection tree path = (log, .ok
      (((tree.below place).filter (selectsPlace selection ·.1)).map (sourceAt path))) := by
  have container : containerAt tree path = .ok .folder := by rw [containerAt, found]
  rw [collect, container]
  simp only [collectFrom, ofFolder, found]
  exact ⟨_, rfl⟩

theorem collect_archive (selection : Selection) (isArchive : containerAt tree path = .ok .archive)
    (opened : openAt tree path = .ok archive) (normal : ∀ f ∈ files, f.1.Normal)
    (stored : List.Forall₂ (Stores archive) (archive.entries.filter (!·.isFolder)) files) :
    ∃ log, collect selection tree path = (log, .ok
      ((files.filter (selectsPlace selection ·.1)).map (sourceIn path))) := by
  rw [collect, isArchive]
  simp only [collectFrom, ofArchive, opened]
  exact of_entries_stored (selected_stored normal stored)

end Sources
end ClassAtlas
