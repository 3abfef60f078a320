import ClassAtlas.Proofs.DependencyMap.OrderFree
import ClassAtlas.Proofs.Sources.Container
import ClassAtlas.Proofs.Survey.Result

/-!
A survey of a folder and one of an archive with the same files in it. Both collect the same files,
the archive in an order of its own; and since no order counts, they come to the same.
-/

namespace ClassAtlas.Survey

open DependencyMap (Agrees Step Answer)

-- Whatever is asked about the classes, at once or one question after the other, both results
-- give the same answer.
structure Alike (one other : Result) : Prop where
  packages : one.packages = other.packages
  classes : one.map.classes = other.map.classes
  dependencies : ∀ name, one.map.dependenciesOf name = other.map.dependenciesOf name
  dependents : ∀ name, one.map.dependentsOf name = other.map.dependentsOf name
  transitive : ∀ name, groupNames (one.map.transitiveDependenciesOf name).2.1 =
    groupNames (other.map.transitiveDependenciesOf name).2.1
  cycles : one.map.detectCycles = other.map.detectCycles
  reports : ∀ reach scope, (one.map.buildReport one.packages reach scope).2 =
    (other.map.buildReport other.packages reach scope).2
  later : ∀ steps : List Step, (∀ s ∈ steps, s.onClasses) →
    (one.map.run steps).2.map Answer.shown = (other.map.run steps).2.map Answer.shown

variable {sources others : List Source} {config config' : Config}

theorem classes_perm (same : (sources.map (·.bytes)).Perm (others.map (·.bytes))) :
    (classesIn sources).Perm (classesIn others) := by
  have decoded : ∀ list : List Source, classesIn list =
      (list.map (·.bytes)).filterMap fun bytes => (ClassInfo.decode bytes).toOption := by
    intro list
    rw [List.filterMap_map]
    rfl
  rw [decoded, decoded]
  exact same.filterMap _

theorem agrees_of_perm (same : (classesIn sources).Perm (classesIn others)) :
    Agrees (ofSources config sources).outcome.map (ofSources config' others).outcome.map := by
  simp only [survey_run]
  apply DependencyMap.agrees_run
  · simp [Step.registers, same.mem_iff]
  · simp [Step.mentions, same.mem_iff]
  · simp [Step.links, same.mem_iff]

theorem packages_of_perm (same : (classesIn sources).Perm (classesIn others)) :
    (ofSources config sources).outcome.packages = (ofSources config' others).outcome.packages := by
  refine Std.ExtTreeSet.ext_mem fun package => ?_
  simp [mem_packages, owns_iff, same.mem_iff]

theorem alike_of_perm (same : (sources.map (·.bytes)).Perm (others.map (·.bytes))) :
    Alike (ofSources config sources).outcome (ofSources config' others).outcome := by
  have classes := classes_perm same
  have agrees : Agrees (ofSources config sources).outcome.map
      (ofSources config' others).outcome.map := agrees_of_perm classes
  have packages : (ofSources config sources).outcome.packages =
      (ofSources config' others).outcome.packages := packages_of_perm classes
  exact {
    packages
    classes := congrArg (·.toList) agrees.known
    dependencies := agrees.dependencies
    dependents := agrees.dependents
    transitive := agrees.transitive
    cycles := agrees.cycles
    reports := fun reach scope => by
      rw [packages]
      exact agrees.report _ reach scope
    later := agrees.answers }

/-! The files that do not decode, by their places. -/

def fails (f : Place × List UInt8) : Bool := (ClassInfo.decode f.2).toOption.isNone

theorem mem_failed {f : Place × List UInt8} {files : List (Place × List UInt8)} :
    f ∈ files.filter fails ↔ f ∈ files ∧ ∃ fault, ClassInfo.decode f.2 = .error fault := by
  rw [List.mem_filter, fails, to_option_none_iff]

theorem skipped_files {source : Place × List UInt8 → Source} (kept : ∀ f, (source f).bytes = f.2)
    (files : List (Place × List UInt8)) :
    (ofSources config (files.map source)).outcome.skipped =
      (files.filter fails).map fun f => (source f).location := by
  simp only [survey_skipped, List.filter_map, List.map_map, Function.comp_def, kept]
  rfl

-- A folder and an archive with the same files, in whatever order the archive has them, and for
-- whatever rule there is on folders to be skipped. The same files are collected from both, and
-- what is made of them is alike.
theorem container_free {tree tree' : FileTree} {path path' : FilePath} {place : Place}
    {archive : Archive} {stored : List (Place × List UInt8)}
    (found : tree.find path = .ok (.folder place))
    (isArchive : Sources.containerAt tree' path' = .ok .archive)
    (opened : Sources.openAt tree' path' = .ok archive)
    (normal : ∀ f ∈ tree.below place, f.1.Normal)
    (listed : List.Forall₂ (Sources.Stores archive) (archive.entries.filter (!·.isFolder)) stored)
    (same : stored.Perm (tree.below place)) (selection : Selection) :
    ∃ (log log' : Log) (kept kept' : List (Place × List UInt8)),
      Sources.collect selection tree path = (log, .ok (kept.map (Sources.sourceAt path))) ∧
      Sources.collect selection tree' path' = (log', .ok (kept'.map (Sources.sourceIn path'))) ∧
      (∀ f, f ∈ kept ↔ f ∈ tree.below place ∧ selection.Counts f.1) ∧
      (kept.map Prod.fst).Nodup ∧
      kept'.Perm kept ∧
      ∀ workers skips,
        let config : Config := { path, workers, skips }
        let config' : Config := { path := path', workers, skips }
        let one := (ofSources config (kept.map (Sources.sourceAt path))).outcome
        let other := (ofSources config' (kept'.map (Sources.sourceIn path'))).outcome
        Alike one other ∧
        (∃ failed failed' : List (Place × List UInt8), failed'.Perm failed ∧
          (∀ f, f ∈ failed ↔ f ∈ kept ∧ ∃ fault, ClassInfo.decode f.2 = .error fault) ∧
          one.skipped = failed.map (fun f => (Sources.sourceAt path f).location) ∧
          other.skipped = failed'.map fun f => (Sources.sourceIn path' f).location) ∧
        (selection = .ofPatterns skips →
          (run config tree).outcome =
            (if Pool.isPossible workers kept then .ok one else .error .tooManyWorkers) ∧
          (run config' tree').outcome =
            if Pool.isPossible workers kept then .ok other else .error .tooManyWorkers) := by
  have normal' : ∀ f ∈ stored, f.1.Normal := fun f member => normal f (same.subset member)
  obtain ⟨log, collected⟩ := Sources.collect_folder selection found
  obtain ⟨log', collected'⟩ := Sources.collect_archive selection isArchive opened normal' listed
  have chosen : (stored.filter (Sources.selectsPlace selection ·.1)).Perm
      ((tree.below place).filter (Sources.selectsPlace selection ·.1)) := same.filter _
  refine ⟨log, log', _, _, collected, collected', ?_, ?_, chosen, ?_⟩
  · intro f
    simp [Sources.selects_place_iff]
  · exact (FileTree.below_distinct tree place).sublist (List.Sublist.map _ List.filter_sublist)
  · intro workers skips config config' one other
    refine ⟨alike_of_perm ?_, ⟨_, _, chosen.filter fails, fun f => mem_failed, ?_, ?_⟩, ?_⟩
    · simp only [List.map_map]
      exact (chosen.map Prod.snd).symm
    · exact skipped_files (fun _ => rfl) _
    · exact skipped_files (fun _ => rfl) _
    · rintro rfl
      constructor
      · rw [survey_finished config collected, Pool.possible_of_length workers (List.length_map _)]
      · have count := (List.length_map (Sources.sourceIn path')).trans chosen.length_eq
        rw [survey_finished config' collected', Pool.possible_of_length workers count]

/-! Archives spelled out. -/

def fourBytes (n : Nat) : List UInt8 := (List.range 4).map fun place => UInt8.ofNat (n >>> (8 * place))

-- What an archive says of an entry, and its data.
structure Record where
  name : Text
  method : UInt8
  checksum : Nat
  size : Nat
  packed : List UInt8

namespace Record

def stored (name : Text) (bytes : List UInt8) (checksum : Nat) : Record :=
  ⟨name, 0, checksum, bytes.length, bytes⟩

def header (r : Record) : List UInt8 :=
  Archive.localSignature ++ List.replicate 4 0 ++ [r.method] ++ List.replicate 17 0 ++
    [UInt8.ofNat r.name.length, 0, 0, 0] ++ r.name.map UInt8.ofNat ++ r.packed

def central (r : Record) (offset : Nat) : List UInt8 :=
  Archive.centralSignature ++ List.replicate 6 0 ++ [r.method, 0, 0, 0, 0, 0] ++
    fourBytes r.checksum ++ fourBytes r.packed.length ++ fourBytes r.size ++
    [UInt8.ofNat r.name.length, 0] ++ List.replicate 12 0 ++ fourBytes offset ++
    r.name.map UInt8.ofNat

def entry (r : Record) (offset limit : Nat) : Entry :=
  ⟨r.name, 0, r.method.toNat, r.checksum, r.packed.length, r.size, offset, limit⟩

end Record

def endRecord (count : UInt8) (contents directory : List UInt8) : List UInt8 :=
  Archive.endSignature ++ [0, 0, 0, 0, count, 0, count, 0] ++ fourBytes directory.length ++
    fourBytes contents.length ++ [0, 0]

def archiveBytes (count : UInt8) (contents directory : List UInt8) : List UInt8 :=
  contents ++ directory ++ endRecord count contents directory

theorem slice_middle (front middle back : List UInt8) :
    Archive.slice (front ++ middle ++ back).toArray front.length middle.length = middle := by
  simp [Archive.slice]

theorem opened_by_parts {count : UInt8} {contents directory : List UInt8} {place : Nat}
    {entries : List Entry}
    (ends : Archive.endPlace? (archiveBytes count contents directory).toArray = some place)
    (extent : (Archive.extentAt (archiveBytes count contents directory).toArray place).toOption.map
      (fun extent => (extent.size, extent.offset, extent.between)) =
        some (directory.length, contents.length, 0))
    (foremost : place = contents.length + directory.length)
    (read : Archive.readEntries directory.length directory [] = .ok entries) :
    Archive.ofBytes (archiveBytes count contents directory) =
      .ok ⟨(archiveBytes count contents directory).toArray,
        Archive.withLimits contents.length entries⟩ := by
  obtain ⟨⟨size, offset, between⟩, told, same⟩ := Option.map_eq_some_iff.mp extent
  cases same
  have shift : (place : Int) - directory.length - contents.length = 0 := by omega
  have middle : Archive.slice (archiveBytes count contents directory).toArray contents.length
      directory.length = directory :=
    slice_middle contents directory _
  simp [Archive.ofBytes, ends, to_option_some_iff.mp told, Except.mapError, bind, Except.bind, pure,
    Except.pure, shift, middle, read]

theorem open_at_file {tree : FileTree} {path : FilePath} {bytes : List UInt8} {archive : Archive}
    (found : tree.find path = .ok (.file bytes)) (opened : Archive.ofBytes bytes = .ok archive) :
    Sources.openAt tree path = .ok archive := by
  rw [Sources.openAt, found]
  dsimp only
  rw [opened]
  rfl

/-! A class, a file that does not decode and a class in a folder to be skipped, once in a folder and
once in an archive, which has them in another order and a folder beside them. -/

def utf8Constant (t : Text) : List UInt8 := [1, 0, UInt8.ofNat t.length] ++ t.map UInt8.ofNat

-- A class file with a superclass and nothing else.
def subclassFile (own base : Text) : List UInt8 :=
  [0xCA, 0xFE, 0xBA, 0xBE, 0, 0, 0, 52, 0, 5, 7, 0, 2] ++ utf8Constant own ++ [7, 0, 4] ++
    utf8Constant base ++ [0, 33, 0, 1, 0, 3] ++ List.replicate 8 0

def someFolder : Record := .stored "p/" [] 0
def hiddenClass : Record := .stored ".git/C.class" (subclassFile "q/B" "p/A") 0x0D8404A9
def goodClass : Record := .stored "p/A.class" (subclassFile "p/A" "q/B") 0x245CAA2C
def brokenClass : Record := .stored "B.class" [1] 0xA505DF1B

def mixedContents : List UInt8 :=
  someFolder.header ++ (hiddenClass.header ++ (goodClass.header ++ brokenClass.header))

def mixedDirectory : List UInt8 :=
  someFolder.central 0 ++ (hiddenClass.central 32 ++
    (goodClass.central 116 ++ brokenClass.central 197))

def mixedBytes : List UInt8 := archiveBytes 4 mixedContents mixedDirectory

def mixedArchive : Archive where
  bytes := mixedBytes.toArray
  entries := [someFolder.entry 0 32, hiddenClass.entry 32 116, goodClass.entry 116 197,
    brokenClass.entry 197 235]

def mixedFiles : FileTree :=
  (((({} : FileTree).addFile ["d", "p", "A.class"] goodClass.packed).addFile
    ["d", "B.class"] brokenClass.packed).addFile ["d", ".git", "C.class"] hiddenClass.packed).addFile
    ["x.jar"] mixedBytes

theorem mixed_bytes_open : Archive.ofBytes mixedBytes = .ok mixedArchive := by
  have place : Archive.endPlace? mixedBytes.toArray = some 449 := by decide +kernel
  have extent : (Archive.extentAt mixedBytes.toArray 449).toOption.map
      (fun extent => (extent.size, extent.offset, extent.between)) =
        some (mixedDirectory.length, mixedContents.length, 0) := by
    decide +kernel
  have entries : Archive.readEntries mixedDirectory.length mixedDirectory [] =
      .ok [someFolder.entry 0 0, hiddenClass.entry 32 0, goodClass.entry 116 0,
        brokenClass.entry 197 0] := by
    apply to_option_some_iff.mp
    decide +kernel
  have before : mixedContents.length = 235 := by decide +kernel
  rw [mixedBytes, opened_by_parts place extent (by decide +kernel) entries, before]
  simp [Archive.withLimits, Archive.limitsFrom, List.mergeSort, Record.entry, mixedArchive,
    mixedBytes]

theorem mixed_stored : List.Forall₂ (Sources.Stores mixedArchive)
    (mixedArchive.entries.filter (!·.isFolder))
    [([".git", "C.class"], hiddenClass.packed), (["p", "A.class"], goodClass.packed),
      (["B.class"], brokenClass.packed)] := by
  have files : mixedArchive.entries.filter (!·.isFolder) =
      [hiddenClass.entry 32 116, goodClass.entry 116 197,
        brokenClass.entry 197 235] := by
    decide +kernel
  have hidden : mixedArchive.content (hiddenClass.entry 32 116) = .ok hiddenClass.packed := by
    apply to_option_some_iff.mp
    decide +kernel
  have good : mixedArchive.content (goodClass.entry 116 197) = .ok goodClass.packed := by
    apply to_option_some_iff.mp
    decide +kernel
  have broken : mixedArchive.content (brokenClass.entry 197 235) = .ok brokenClass.packed := by
    apply to_option_some_iff.mp
    decide +kernel
  rw [files]
  exact .cons ⟨rfl, hidden⟩ (.cons ⟨rfl, good⟩ (.cons ⟨rfl, broken⟩ .nil))

theorem mixed_below : mixedFiles.below ["d"] =
    [(([".git", "C.class"] : Place), hiddenClass.packed), ((["B.class"] : Place), brokenClass.packed),
      ((["p", "A.class"] : Place), goodClass.packed)] := by
  decide +kernel

theorem mixed_normal : ∀ f ∈ mixedFiles.below ["d"], f.1.Normal := by
  rw [mixed_below]
  intro f member
  simp only [List.mem_cons, List.not_mem_nil, or_false] at member
  rcases member with rfl | rfl | rfl
  · exact ⟨by decide, by decide⟩
  · exact ⟨by decide, by decide⟩
  · exact ⟨by decide, by decide⟩

theorem container_free_mixed : ∃ one other,
    (run { path := ⟨[], ["d"]⟩ } mixedFiles).outcome = .ok one ∧
    (run { path := ⟨[], ["x.jar"]⟩ } mixedFiles).outcome = .ok other ∧ Alike one other ∧
    one.map.classes = [("p.A" : Text)] ∧ one.map.dependenciesOf "p.A" = [("q.B" : Text)] ∧
    one.skipped = [("d/B.class" : Text)] ∧ other.skipped = [("x.jar!/B.class" : Text)] := by
  have opened : Sources.openAt mixedFiles ⟨[], ["x.jar"]⟩ = .ok mixedArchive :=
    open_at_file rfl mixed_bytes_open
  have same : [(([".git", "C.class"] : Place), hiddenClass.packed),
      ((["p", "A.class"] : Place), goodClass.packed), ((["B.class"] : Place), brokenClass.packed)].Perm
        (mixedFiles.below ["d"]) := mixed_below ▸ .cons _ (.swap ..)
  obtain ⟨_, _, kept, kept', _, _, counted, _, _, told⟩ := @container_free mixedFiles mixedFiles
    ⟨[], ["d"]⟩ ⟨[], ["x.jar"]⟩ ["d"] mixedArchive _ rfl rfl opened mixed_normal mixed_stored
    same (.ofPatterns defaultSkips)
  obtain ⟨alike, ⟨failed, failed', reordered, told_failed, skipped, skipped'⟩, finished⟩ :=
    told 1 defaultSkips
  obtain ⟨one, other⟩ := finished rfl
  refine ⟨_, _, one, other, alike, ?_⟩
  have shown : (run { path := ⟨[], ["d"]⟩ } mixedFiles).outcome.toOption.map (fun r =>
      (r.map.classes, r.map.dependenciesOf "p.A", r.skipped)) =
      some ([("p.A" : Text)], [("q.B" : Text)], [("d/B.class" : Text)]) := by
    decide +kernel
  obtain ⟨result, ran, told⟩ := Option.map_eq_some_iff.mp shown
  have same := (to_option_some_iff.mp ran).symm.trans one
  cases same
  simp only [Prod.mk.injEq] at told
  obtain ⟨classes, dependencies, broken⟩ := told
  refine ⟨classes, dependencies, broken, ?_⟩
  -- the one file that does not decode, told by where it is in the folder
  rw [skipped] at broken
  obtain ⟨f, rfl, located⟩ := List.map_eq_singleton_iff.mp broken
  have below := ((counted f).mp ((told_failed f).mp List.mem_cons_self).1).1
  rw [skipped', List.perm_singleton.mp reordered]
  rw [mixed_below] at below
  simp only [List.mem_cons, List.not_mem_nil, or_false] at below
  rcases below with rfl | rfl | rfl
  · exact absurd located (by decide)
  · rfl
  · exact absurd located (by decide)

end ClassAtlas.Survey
