import ClassAtlas.Proofs.ClassFile.Reading

/-!
The class files that are accepted and what they tell. A file is accepted when its sizes fit
and when whatever it refers to by an index is there; its references are then those of its class
constants, its descriptors and its signatures, each where it is first seen.
-/

namespace ClassAtlas

namespace ClassFile

def HasText (file : ClassFile) (index : Nat) : Prop := (textAt file.pool index).isSome

def allAttributes (file : ClassFile) : List Attribute :=
  file.members.flatMap (·.attributes) ++ file.attributes

def signature? (pool : List Constant) (a : Attribute) : Option Nat :=
  if textAt pool a.name.toNat = some signatureName ∧ a.content.length = 2 then
    some (Bytes.bigEndian a.content)
  else none

-- Every index that is looked up leads to a text, and the class itself to a class constant.
structure Complete (file : ClassFile) : Prop where
  classes : ∀ name, .classRef name ∈ file.pool → file.HasText name.toNat
  this : ∃ name, constantAt file.pool file.thisClass.toNat = some (.classRef name)
  pairs : ∀ name descriptor, .nameAndType name descriptor ∈ file.pool →
    file.HasText descriptor.toNat
  methodTypes : ∀ descriptor, .methodType descriptor ∈ file.pool → file.HasText descriptor.toNat
  members : ∀ member, member ∈ file.members → file.HasText member.descriptor.toNat
  signatures : ∀ a, a ∈ file.allAttributes → textAt file.pool a.name.toNat = some signatureName →
    a.content.length = 2 → file.HasText (Bytes.bigEndian a.content)

structure WellFormed (file : ClassFile) : Prop where
  sized : file.Sized
  complete : file.Complete

def owner? (file : ClassFile) : Option Text :=
  (constantAt file.pool file.thisClass.toNat).bind (className? file.pool)

-- Descriptors and signatures, by their indices and as texts.
def typeIndices (file : ClassFile) : List Nat :=
  file.descriptorIndices ++ file.allAttributes.filterMap (signature? file.pool)

def types (file : ClassFile) : List Text := file.typeIndices.filterMap (textAt file.pool)

def mentioned (file : ClassFile) : List Text :=
  (file.pool.filterMap (className? file.pool)).flatMap namesIn ++
    file.types.flatMap Descriptor.classNames

def summary (file : ClassFile) : ClassInfo :=
  let owner := dotted (file.owner?.getD [])
  ⟨owner, ((file.mentioned.map dotted).filter (· ≠ owner)).eraseDups⟩

theorem class_named_ok_iff (file : ClassFile) (owner : Text) :
    classNamed (namedEntries file.pool) file.thisClass.toNat = .ok owner ↔
      file.owner? = some owner := by
  unfold classNamed owner?
  rw [named_entries_at]
  cases (constantAt file.pool file.thisClass.toNat).bind (className? file.pool) <;> simp

theorem signature_indices (file : ClassFile) :
    file.signatureIndices (textTable file.pool) =
      file.allAttributes.filterMap (signature? file.pool) := by
  unfold signatureIndices allAttributes
  congr 1
  funext a
  unfold signatureIndex? signature?
  rw [text_table_at]

-- A name is kept unless it is in the set, and then not again.
theorem first_seen_from (seen : NameSet) (names : List Text) :
    firstSeen seen names = (names.filter (!seen.contains ·)).eraseDups := by
  induction names generalizing seen with
  | nil => rfl
  | cons name names ih =>
    rw [firstSeen, List.filter_cons]
    by_cases known : seen.contains name
    · rw [if_pos known, ih, known]
      rfl
    · have fresh : seen.contains name = false := eq_false_of_ne_true known
      have others : (fun other => !(seen.insert name).contains other) =
          fun other => (!other == name) && !seen.contains other := by
        funext other
        rw [Std.ExtTreeSet.contains_insert, Bool.not_or]
        congr 2
        rw [Bool.eq_iff_iff, beq_iff_eq, beq_iff_eq, Std.LawfulEqCmp.compare_eq_iff_eq]
        exact eq_comm
      rw [if_neg known, ih, fresh, others]
      change _ = (name :: names.filter _).eraseDups
      rw [List.eraseDups_cons, List.filter_filter]

theorem references_first_seen (owner : Text) (internal : List Text) :
    references owner internal = ((internal.map dotted).filter (· ≠ owner)).eraseDups := by
  have all : ((internal.map dotted).filter (· ≠ owner)).filter
      (!(∅ : NameSet).contains ·) = (internal.map dotted).filter (· ≠ owner) := by
    simp
  rw [references, first_seen_from, all]

-- The indices of descriptors and signatures, told apart by what holds them.
theorem types_found_iff (file : ClassFile) :
    (∀ index, index ∈ file.typeIndices → file.HasText index) ↔
      (∀ name descriptor, .nameAndType name descriptor ∈ file.pool → file.HasText descriptor.toNat) ∧
      (∀ descriptor, .methodType descriptor ∈ file.pool → file.HasText descriptor.toNat) ∧
      (∀ member, member ∈ file.members → file.HasText member.descriptor.toNat) ∧
      (∀ a, a ∈ file.allAttributes → textAt file.pool a.name.toNat = some signatureName →
        a.content.length = 2 → file.HasText (Bytes.bigEndian a.content)) := by
  unfold typeIndices descriptorIndices
  constructor
  · intro all
    refine ⟨?_, ?_, ?_, ?_⟩
    · intro name descriptor member
      apply all
      exact List.mem_append_left _ (List.mem_append_left _ (List.mem_filterMap.mpr ⟨_, member, rfl⟩))
    · intro descriptor member
      apply all
      exact List.mem_append_left _ (List.mem_append_left _ (List.mem_filterMap.mpr ⟨_, member, rfl⟩))
    · intro member found
      apply all
      exact List.mem_append_left _ (List.mem_append_right _ (List.mem_map_of_mem found))
    · intro a found named pair
      apply all
      exact List.mem_append_right _ (List.mem_filterMap.mpr ⟨a, found, if_pos ⟨named, pair⟩⟩)
  · intro parts index listed
    obtain ⟨pairs, methodTypes, members, signatures⟩ := parts
    rcases List.mem_append.mp listed with isDescriptor | isSignature
    · rcases List.mem_append.mp isDescriptor with inPool | inMember
      · obtain ⟨constant, found, isIndex⟩ := List.mem_filterMap.mp inPool
        cases constant with
        | nameAndType name descriptor =>
          cases isIndex
          exact pairs name descriptor found
        | methodType descriptor =>
          cases isIndex
          exact methodTypes descriptor found
        | _ => cases isIndex
      · obtain ⟨member, found, rfl⟩ := List.mem_map.mp inMember
        exact members member found
    · obtain ⟨a, found, isIndex⟩ := List.mem_filterMap.mp isSignature
      unfold signature? at isIndex
      split at isIndex
      · rename_i named
        cases isIndex
        exact signatures a found named.1 named.2
      · cases isIndex

theorem info_steps_iff (file : ClassFile) (info : ClassInfo) :
    file.info = .ok info ↔ ∃ names owner types, classNames file.pool = .ok names ∧
      classNamed names file.thisClass.toNat = .ok owner ∧
      file.typeIndices.mapM (textTable file.pool).lookup = .ok types ∧
      info = ⟨dotted owner, references (dotted owner)
        (names.flatMap (namesIn ·.2) ++ types.flatMap Descriptor.classNames)⟩ := by
  have indices : file.descriptorIndices ++ file.signatureIndices (textTable file.pool) =
      file.typeIndices := by
    rw [typeIndices, signature_indices]
  constructor
  · intro told
    obtain ⟨names, isNames, told⟩ := bind_ok_iff.mp told
    obtain ⟨owner, isOwner, told⟩ := bind_ok_iff.mp told
    obtain ⟨types, isTypes, told⟩ := bind_ok_iff.mp told
    rw [indices] at isTypes
    cases told
    exact ⟨names, owner, types, isNames, isOwner, isTypes, rfl⟩
  · intro steps
    obtain ⟨names, owner, types, isNames, isOwner, isTypes, rfl⟩ := steps
    rw [← indices] at isTypes
    exact bind_ok_iff.mpr ⟨names, isNames, bind_ok_iff.mpr ⟨owner, isOwner,
      bind_ok_iff.mpr ⟨types, isTypes, rfl⟩⟩⟩

theorem summary_of_owner {file : ClassFile} {owner : Text} (isOwner : file.owner? = some owner) :
    file.summary = ⟨dotted owner, references (dotted owner)
      ((namedEntries file.pool).flatMap (namesIn ·.2) ++ file.types.flatMap Descriptor.classNames)⟩ := by
  rw [summary, isOwner, references_first_seen, mentioned, ← named_entries_names, List.flatMap_map]
  rfl

theorem info_ok_iff (file : ClassFile) (info : ClassInfo) :
    file.info = .ok info ↔ file.Complete ∧ info = file.summary := by
  rw [info_steps_iff]
  constructor
  · intro steps
    obtain ⟨names, owner, types, isNames, isOwner, isTypes, rfl⟩ := steps
    obtain ⟨classes, rfl⟩ := (class_names_ok_iff file.pool names).mp isNames
    obtain ⟨found, rfl⟩ := (map_ok_iff (lookup_ok_iff file.pool) types).mp isTypes
    have isOwner := (class_named_ok_iff file owner).mp isOwner
    obtain ⟨pairs, methodTypes, members, signatures⟩ := (types_found_iff file).mp found
    have this : ∃ name, constantAt file.pool file.thisClass.toNat = some (.classRef name) := by
      obtain ⟨constant, placed, named⟩ := Option.bind_eq_some_iff.mp isOwner
      cases constant with
      | classRef name => exact ⟨name, placed⟩
      | _ => cases named
    exact ⟨⟨classes, this, pairs, methodTypes, members, signatures⟩, (summary_of_owner isOwner).symm⟩
  · intro accepted
    obtain ⟨complete, rfl⟩ := accepted
    obtain ⟨name, placed⟩ := complete.this
    obtain ⟨owner, named⟩ :=
      Option.isSome_iff_exists.mp (complete.classes name (mem_of_constant_at placed))
    have isOwner : file.owner? = some owner := by
      rw [owner?, placed]
      exact named
    have found := (types_found_iff file).mpr
      ⟨complete.pairs, complete.methodTypes, complete.members, complete.signatures⟩
    exact ⟨namedEntries file.pool, owner, file.types,
      (class_names_ok_iff file.pool _).mpr ⟨complete.classes, rfl⟩,
      (class_named_ok_iff file owner).mpr isOwner,
      (map_ok_iff (lookup_ok_iff file.pool) _).mpr ⟨found, rfl⟩, summary_of_owner isOwner⟩

theorem Complete.resolves {file : ClassFile} (complete : file.Complete) : file.Resolves := by
  have told := (info_ok_iff file file.summary).mpr ⟨complete, rfl⟩
  obtain ⟨names, owner, _, isNames, isOwner, _⟩ := (info_steps_iff file file.summary).mp told
  exact ⟨names, owner, isNames, isOwner⟩

-- The bytes of a file tell which file they spell and where it ends.
theorem WellFormed.unambiguous {file other : ClassFile} {rest later : List UInt8}
    (accepted : file.WellFormed) (accepted' : other.WellFormed)
    (same : file.serialize ++ rest = other.serialize ++ later) : file = other ∧ rest = later :=
  reads_file.unambiguous ⟨⟨accepted.sized, accepted.complete.resolves⟩, rfl⟩
    ⟨⟨accepted'.sized, accepted'.complete.resolves⟩, rfl⟩ same

end ClassFile

-- Accepted are the files of the grammar, with anything behind them, and the answer is what
-- such a file tells.
theorem ClassInfo.decode_ok_iff (data : List UInt8) (info : ClassInfo) :
    decode data = .ok info ↔ ∃ (file : ClassFile) (rest : List UInt8),
      data = file.serialize ++ rest ∧ file.WellFormed ∧ info = file.summary := by
  constructor
  · intro answered
    cases ran : ClassFile.read ⟨0, data⟩ with
    | error fault =>
      rw [decode_read_error ran] at answered
      cases answered
    | ok result =>
      obtain ⟨file, after⟩ := result
      rw [decode_read_ok ran] at answered
      obtain ⟨complete, isSummary⟩ := (ClassFile.info_ok_iff file info).mp answered
      obtain ⟨_, ⟨⟨sized, _⟩, rfl⟩, taken, _⟩ := ClassFile.reads_file.sound 0 data file after ran
      exact ⟨file, after.rest, taken, ⟨sized, complete⟩, isSummary⟩
  · intro accepted
    obtain ⟨file, rest, rfl, wellFormed, rfl⟩ := accepted
    have told := (ClassFile.info_ok_iff file file.summary).mpr ⟨wellFormed.complete, rfl⟩
    have holds := And.intro wellFormed.sized wellFormed.complete.resolves
    have ran := ClassFile.reads_file.complete file file.layout ⟨holds, rfl⟩ 0 rest
    exact (decode_read_ok ran).trans told

end ClassAtlas
