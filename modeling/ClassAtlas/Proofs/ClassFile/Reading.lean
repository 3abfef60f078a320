import ClassAtlas.ClassFile.Info
import ClassAtlas.Proofs.ClassFile.Grammar
import ClassAtlas.Proofs.ClassFile.Pool

/-!
Every part of a class file is read as it is laid out: numbers, constants, attributes, members
and the file as a whole.
-/

namespace ClassAtlas

namespace ClassFile

open Bytes (spell Fits)

namespace Decoder
variable {α : Type} {d : Decoder α} {holds : α → Prop} {spelling : α → List Field}

theorem reads_number (width : Nat) (ofNat : Nat → α) (toNat : α → Nat)
    (fits : ∀ a, Fits width (toNat a)) (from_to : ∀ a, ofNat (toNat a) = a)
    (to_from : ∀ n, Fits width n → toNat (ofNat n) = n) :
    Reads (do return ofNat (Bytes.bigEndian (← raw width))) (fun _ => True)
      (fun a => [spell width (toNat a)]) := by
  refine ((follows_raw width).map _).reads fun a fields => ⟨?_, ?_⟩
  · intro spelled
    obtain ⟨bytes, rfl, length, rfl⟩ := spelled
    obtain ⟨fitting, spelled⟩ := Bytes.fits_spell_big_endian bytes length
    refine ⟨trivial, ?_⟩
    rw [to_from _ fitting, spelled]
  · intro spelled
    obtain ⟨_, rfl⟩ := spelled
    refine ⟨spell width (toNat a), ?_, Bytes.spell_length _ _, rfl⟩
    rw [Bytes.big_endian_spell (fits a), from_to]

theorem reads_u1 : Reads u1 (fun _ => True) (fun b => [[b]]) := by
  refine (reads_number 1 UInt8.ofNat UInt8.toNat Bytes.fits_u8 (fun b => UInt8.ofNat_toNat)
    fun n fits => ?_).congr fun b fields => ?_
  · have small : n / 256 = 0 := fits
    rw [UInt8.toNat_ofNat']
    omega
  · have same : spell 1 b.toNat = [b] := congrArg (· :: []) UInt8.ofNat_toNat
    simp only [same]

theorem reads_u2 : Reads u2 (fun _ => True) (fun n => [word n]) := by
  refine reads_number 2 UInt16.ofNat UInt16.toNat (fun n => Bytes.fits_two.mpr n.toNat_lt)
    (fun n => UInt16.ofNat_toNat) fun n fits => ?_
  rw [UInt16.toNat_ofNat']
  exact Nat.mod_eq_of_lt (Bytes.fits_two.mp fits)

theorem reads_u4 : Reads u4 (fun _ => True) (fun n => [spell 4 n.toNat]) := by
  refine reads_number 4 UInt32.ofNat UInt32.toNat (fun n => Bytes.fits_four.mpr n.toNat_lt)
    (fun n => UInt32.ofNat_toNat) fun n fits => ?_
  rw [UInt32.toNat_ofNat']
  exact Nat.mod_eq_of_lt (Bytes.fits_four.mp fits)

theorem counts (n : Nat) (bound : n < 65536) : ∃ count : UInt16, count.toNat = n :=
  ⟨UInt16.ofNat n, by rw [UInt16.toNat_ofNat']; exact Nat.mod_eq_of_lt bound⟩

theorem reads_table (item : Reads d holds spelling) :
    Reads (do times (← u2).toNat d) (TableSized holds) (table spelling) := by
  refine (reads_u2.bind fun count => reads_times item count.toNat).reads fun items fields => ⟨?_, ?_⟩
  · intro spelled
    obtain ⟨count, _, _, ⟨⟨length, all⟩, rfl⟩, rfl⟩ := spelled
    refine ⟨⟨length ▸ count.toNat_lt, all⟩, ?_⟩
    rw [table, length]
    rfl
  · intro spelled
    obtain ⟨⟨bound, all⟩, rfl⟩ := spelled
    obtain ⟨count, isCount⟩ := counts items.length bound
    refine ⟨count, _, trivial, ⟨⟨isCount.symm, all⟩, rfl⟩, ?_⟩
    rw [table, ← isCount]
    rfl

theorem reads_attribute : Reads readAttribute Attribute.Sized Attribute.layout := by
  refine (reads_u2.bind fun name => reads_u4.bind fun length =>
    (follows_raw length.toNat).map _).reads fun a fields => ⟨?_, ?_⟩
  · intro spelled
    obtain ⟨name, _, _, ⟨length, _, _, ⟨content, rfl, isLength, rfl⟩, rfl⟩, rfl⟩ := spelled
    have bound : content.length < 4294967296 := isLength ▸ length.toNat_lt
    refine ⟨bound, ?_⟩
    unfold Attribute.layout
    rw [isLength]
    rfl
  · intro spelled
    obtain ⟨bound, rfl⟩ := spelled
    have isLength : (UInt32.ofNat a.content.length).toNat = a.content.length := by
      rw [UInt32.toNat_ofNat']
      exact Nat.mod_eq_of_lt bound
    refine ⟨a.name, _, trivial, ⟨UInt32.ofNat a.content.length, _, trivial,
      ⟨a.content, rfl, isLength.symm, rfl⟩, rfl⟩, ?_⟩
    rw [isLength]
    rfl

theorem reads_attributes : Reads readAttributes (TableSized Attribute.Sized) (table Attribute.layout) :=
  reads_table reads_attribute

theorem reads_member : Reads readMember Member.Sized Member.layout := by
  refine (reads_u2.bind fun access => reads_u2.bind fun name => reads_u2.bind fun descriptor =>
    reads_attributes.map _).reads fun m fields => ⟨?_, ?_⟩
  · intro spelled
    obtain ⟨access, _, _, ⟨name, _, _, ⟨descriptor, _, _, ⟨attributes, rfl, sized, rfl⟩, rfl⟩,
      rfl⟩, rfl⟩ := spelled
    exact ⟨sized, rfl⟩
  · intro spelled
    obtain ⟨sized, rfl⟩ := spelled
    exact ⟨m.access, _, trivial, ⟨m.name, _, trivial, ⟨m.descriptor, _, trivial,
      ⟨m.attributes, rfl, sized, rfl⟩, rfl⟩, rfl⟩, rfl⟩

theorem reads_members : Reads readMembers (TableSized Member.Sized) (table Member.layout) :=
  reads_table reads_member

end Decoder

theorem Kind.of_tag_iff (tag : UInt8) (kind : Kind) : ofTag? tag = some kind ↔ kind.tag = tag := by
  constructor
  · intro found
    unfold ofTag? at found
    exact eq_of_beq (List.find?_some (p := fun kind : Kind => kind.tag == tag) found)
  · intro same
    subst same
    cases kind <;> rfl

-- The tags of the constants that are read as what they are belong to no other kind.
theorem Kind.tag_ne (kind : Kind) :
    kind.tag ≠ 1 ∧ kind.tag ≠ 7 ∧ kind.tag ≠ 12 ∧ kind.tag ≠ 16 := by
  cases kind <;> decide

namespace Constant
open Decoder

theorem reads_spelling (index : Nat) (bytes : List UInt8) :
    Follows
      (match spelled : ModifiedUtf8.decode bytes with
        | .ok text => return .utf8 ⟨bytes, text, spelled⟩
        | .error reason => fail (.malformedUtf8 index reason))
      fun (constant : Constant) fields =>
        ∃ spelling, constant = .utf8 spelling ∧ spelling.bytes = bytes ∧ fields = [] := by
  split
  · rename_i text spelled
    refine (follows_pure _).congr fun constant fields => ⟨?_, ?_⟩
    · intro same
      exact ⟨_, same.1, rfl, same.2⟩
    · intro same
      obtain ⟨⟨_, other, spelled'⟩, rfl, rfl, rfl⟩ := same
      cases spelled.symm.trans spelled'
      exact ⟨rfl, rfl⟩
  · rename_i reason malformed
    refine (follows_fail _ (by simp)).congr fun constant fields => ⟨False.elim, ?_⟩
    intro same
    obtain ⟨⟨_, other, spelled'⟩, _, rfl, _⟩ := same
    cases malformed.symm.trans spelled'

theorem reads_text (index : Nat) :
    Follows (readText index) fun constant fields =>
      ∃ spelling, constant = .utf8 spelling ∧ spelling.bytes.length < 65536 ∧
        fields = [spell 2 spelling.bytes.length, spelling.bytes] := by
  refine (reads_u2.bind fun length => (follows_raw length.toNat).bind fun bytes =>
    reads_spelling index bytes).congr fun constant fields => ⟨?_, ?_⟩
  · intro spelled
    obtain ⟨length, _, _, ⟨_, _, _, rfl, ⟨isLength, rfl⟩, spelling, rfl, rfl, rfl⟩, rfl⟩ := spelled
    refine ⟨spelling, rfl, isLength ▸ length.toNat_lt, ?_⟩
    rw [isLength]
    rfl
  · intro spelled
    obtain ⟨spelling, rfl, bound, rfl⟩ := spelled
    obtain ⟨length, isLength⟩ := counts spelling.bytes.length bound
    refine ⟨length, _, trivial, ⟨spelling.bytes, [spelling.bytes], [], rfl,
      ⟨isLength.symm, rfl⟩, spelling, rfl, rfl, rfl⟩, ?_⟩
    rw [← isLength]
    rfl

theorem reads_other (tag : UInt8) (index : Nat) :
    Follows
      (match Kind.ofTag? tag with
        | some kind => return .other kind (← raw kind.size)
        | none => fail (.unknownTag tag.toNat index))
      fun (constant : Constant) fields => ∃ kind payload, constant = .other kind payload ∧
        kind.tag = tag ∧ payload.length = kind.size ∧ fields = [payload] := by
  split
  · rename_i kind known
    refine ((follows_raw kind.size).map _).congr fun constant fields => ⟨?_, ?_⟩
    · intro spelled
      obtain ⟨payload, rfl, size, rfl⟩ := spelled
      exact ⟨kind, payload, rfl, (Kind.of_tag_iff tag kind).mp known, size, rfl⟩
    · intro spelled
      obtain ⟨same, payload, rfl, isTag, size, rfl⟩ := spelled
      cases known.symm.trans ((Kind.of_tag_iff tag same).mpr isTag)
      exact ⟨payload, rfl, size, rfl⟩
  · rename_i unknown
    refine (follows_fail _ (by simp)).congr fun constant fields => ⟨False.elim, ?_⟩
    intro spelled
    obtain ⟨kind, _, _, isTag, _⟩ := spelled
    cases unknown.symm.trans ((Kind.of_tag_iff tag kind).mpr isTag)

theorem reads_constant (index : Nat) : Reads (read index) Sized layout := by
  refine (reads_u1.bind fun tag => follows_ite (reads_text index) <|
    follows_ite (reads_u2.map classRef) <|
    follows_ite (reads_u2.bind fun name => reads_u2.map (nameAndType name)) <|
    follows_ite (reads_u2.map methodType) (reads_other tag index)).reads
      fun constant fields => ⟨?_, ?_⟩
  · intro spelled
    obtain ⟨tag, _, _, cases, rfl⟩ := spelled
    rcases cases with ⟨rfl, spelling, rfl, bound, rfl⟩ | ⟨_, cases⟩
    · exact ⟨bound, rfl⟩
    rcases cases with ⟨rfl, name, rfl, _, rfl⟩ | ⟨_, cases⟩
    · exact ⟨trivial, rfl⟩
    rcases cases with ⟨rfl, name, _, _, ⟨descriptor, rfl, _, rfl⟩, rfl⟩ | ⟨_, cases⟩
    · exact ⟨trivial, rfl⟩
    rcases cases with ⟨rfl, descriptor, rfl, _, rfl⟩ | ⟨_, kind, payload, rfl, rfl, size, rfl⟩
    · exact ⟨trivial, rfl⟩
    · exact ⟨size, rfl⟩
  · intro spelled
    obtain ⟨sized, rfl⟩ := spelled
    refine ⟨constant.tag, constant.payload, trivial, ?_, rfl⟩
    cases constant with
    | utf8 spelling => exact .inl ⟨rfl, spelling, rfl, sized, rfl⟩
    | classRef name => exact .inr ⟨by simp [tag], .inl ⟨rfl, name, rfl, trivial, rfl⟩⟩
    | nameAndType name descriptor =>
      exact .inr ⟨by simp [tag], .inr ⟨by simp [tag], .inl ⟨rfl, name, [word descriptor], trivial,
        ⟨descriptor, rfl, trivial, rfl⟩, rfl⟩⟩⟩
    | methodType descriptor =>
      exact .inr ⟨by simp [tag], .inr ⟨by simp [tag], .inr ⟨by simp [tag],
        .inl ⟨rfl, descriptor, rfl, trivial, rfl⟩⟩⟩⟩
    | other kind payload =>
      obtain ⟨one, seven, twelve, sixteen⟩ := kind.tag_ne
      exact .inr ⟨one, .inr ⟨seven, .inr ⟨twelve, .inr ⟨sixteen, kind, payload, rfl, rfl, sized, rfl⟩⟩⟩⟩

end Constant

open Decoder

-- The running index decides how many constants there are, so the induction is on what it lacks.
theorem reads_pool_from (count index : Nat) (sofar : List Constant) :
    Follows (readPoolFrom count index sofar) fun pool fields => ∃ read,
      pool = sofar.reverse ++ read ∧ Fills count index read ∧
      (∀ constant, constant ∈ read → constant.Sized) ∧ fields = read.flatMap Constant.layout := by
  induction index, sofar using readPoolFrom.induct count with
  | case1 index sofar more ih =>
    rw [readPoolFrom, if_pos more]
    refine ((Constant.reads_constant index).bind ih).congr fun pool fields => ⟨?_, ?_⟩
    · intro spelled
      obtain ⟨constant, _, here, ⟨read, rfl, fills, all, rfl⟩, rfl⟩ := spelled
      exact ⟨constant :: read, by simp, ⟨more, fills⟩, List.forall_mem_cons.mpr ⟨here, all⟩,
        List.flatMap_cons.symm⟩
    · intro spelled
      obtain ⟨read, rfl, fills, all, rfl⟩ := spelled
      cases read with
      | nil => exact absurd more (Nat.not_lt_of_le fills)
      | cons constant read =>
        obtain ⟨here, all⟩ := List.forall_mem_cons.mp all
        exact ⟨constant, read.flatMap Constant.layout, here, ⟨read, by simp, fills.2, all, rfl⟩,
          List.flatMap_cons⟩
  | case2 index sofar done =>
    rw [readPoolFrom, if_neg done]
    refine (follows_pure sofar.reverse).congr fun pool fields => ⟨?_, ?_⟩
    · intro spelled
      exact ⟨[], by simp [spelled.1], Nat.le_of_not_lt done, by simp, spelled.2⟩
    · intro spelled
      obtain ⟨read, isPool, fills, _, isFields⟩ := spelled
      cases read with
      | nil => exact ⟨by rw [isPool, List.append_nil], isFields⟩
      | cons constant read => exact absurd fills.1 done

theorem reads_pool (count : Nat) :
    Reads (readPool count)
      (fun pool => Fills count 1 pool ∧ ∀ constant, constant ∈ pool → constant.Sized)
      (fun pool => pool.flatMap Constant.layout) :=
  (reads_pool_from count 1 []).reads (by simp [and_assoc])

theorem words_layout (items : List UInt16) : words (items.flatMap word) = items := by
  induction items with
  | nil => rfl
  | cons item items ih =>
    have fits : Fits 2 item.toNat := Bytes.fits_two.mpr item.toNat_lt
    have whole : item.toNat = Bytes.bigEndian (word item) := (Bytes.big_endian_spell fits).symm
    rw [List.flatMap_cons]
    change UInt16.ofNat (Bytes.bigEndian (word item)) :: words (items.flatMap word) = item :: items
    rw [← whole, ih, UInt16.ofNat_toNat]

theorem flat_words_length (items : List UInt16) : (items.flatMap word).length = 2 * items.length := by
  induction items with
  | nil => rfl
  | cons item items ih =>
    rw [List.flatMap_cons, List.length_append, ih, word, Bytes.spell_length, List.length_cons]
    omega

theorem layout_words (count : Nat) (bytes : List UInt8) (length : bytes.length = 2 * count) :
    (words bytes).length = count ∧ (words bytes).flatMap word = bytes := by
  induction count generalizing bytes with
  | zero =>
    cases List.eq_nil_of_length_eq_zero length
    exact ⟨rfl, rfl⟩
  | succ count ih =>
    match bytes with
    | [] => cases length
    | [_] => cases length
    | high :: low :: rest =>
      have shorter : rest.length = 2 * count := by
        simp only [List.length_cons] at length
        omega
      obtain ⟨many, back⟩ := ih rest shorter
      have pair : [high, low].length = 2 := rfl
      obtain ⟨fits, spelled⟩ := Bytes.fits_spell_big_endian [high, low] pair
      refine ⟨congrArg Nat.succ many, ?_⟩
      change spell 2 (UInt16.ofNat (Bytes.bigEndian [high, low])).toNat ++
        (words rest).flatMap word = high :: low :: rest
      rw [UInt16.toNat_ofNat', Nat.mod_eq_of_lt (Bytes.fits_two.mp fits), spelled, back]
      rfl

theorem reads_interfaces :
    Reads readInterfaces (fun interfaces => interfaces.length < 65536)
      (fun interfaces => [spell 2 interfaces.length, interfaces.flatMap word]) := by
  refine (reads_u2.bind fun count => (follows_raw (2 * count.toNat)).map words).reads
    fun interfaces fields => ⟨?_, ?_⟩
  · intro spelled
    obtain ⟨count, _, _, ⟨bytes, rfl, length, rfl⟩, rfl⟩ := spelled
    obtain ⟨many, back⟩ := layout_words count.toNat bytes length
    rw [many, back]
    exact ⟨count.toNat_lt, rfl⟩
  · intro spelled
    obtain ⟨bound, rfl⟩ := spelled
    obtain ⟨count, isCount⟩ := counts interfaces.length bound
    have length : (interfaces.flatMap word).length = 2 * count.toNat := by
      rw [isCount, flat_words_length]
    refine ⟨count, _, trivial, ⟨interfaces.flatMap word, (words_layout interfaces).symm, length,
      rfl⟩, ?_⟩
    rw [← isCount]
    rfl

-- The names that are looked up while the file is being read are there.
def Resolves (file : ClassFile) : Prop :=
  ∃ names owner, classNames file.pool = .ok names ∧
    classNamed names file.thisClass.toNat = .ok owner

theorem reads_file : Reads ClassFile.read (fun file => file.Sized ∧ file.Resolves) layout := by
  have names_fault : ∀ (pool : List Constant) (place : Nat),
      classNames pool ≠ .error (.truncated place) := by
    intro pool place failed
    obtain ⟨index, same⟩ := class_names_error failed
    cases same
  have owner_fault : ∀ (names : List (Nat × Text)) (index place : Nat),
      classNamed names index ≠ .error (.truncated place) := by
    intro names index place failed
    cases class_named_error failed
  refine (reads_u4.bind fun found => follows_ite (follows_fail_bind _ (by simp) _) <|
    reads_u2.bind fun minor => reads_u2.bind fun major => reads_u2.bind fun poolCount =>
    (reads_pool _).bind fun pool => (follows_check _ (names_fault pool)).bind fun names =>
    reads_u2.bind fun access => reads_u2.bind fun thisClass =>
    (follows_check _ (owner_fault names _)).bind fun owner =>
    reads_u2.bind fun superClass => reads_interfaces.bind fun interfaces =>
    reads_members.bind fun fields => reads_members.bind fun methods =>
    reads_attributes.map _).reads fun file fields => ⟨?_, ?_⟩
  · intro spelled
    obtain ⟨found, _, _, ⟨_, impossible⟩ | ⟨isMagic, minor, _, _, ⟨major, _, _, ⟨poolCount, _, _,
      ⟨pool, _, ⟨filled, poolSized⟩, ⟨names, _, _, rfl, ⟨isNames, rfl⟩, access, _, _, ⟨thisClass, _, _,
      ⟨owner, _, _, rfl, ⟨isOwner, rfl⟩, superClass, _, _, ⟨interfaces, _, interfacesSized,
      ⟨fieldList, _, fieldsSized, ⟨methods, _, methodsSized, ⟨attributes, rfl, attributesSized,
      rfl⟩, rfl⟩, rfl⟩, rfl⟩, rfl⟩, rfl⟩, rfl⟩, rfl⟩, rfl⟩, rfl⟩, rfl⟩, rfl⟩ := spelled
    · exact impossible.elim
    · cases Decidable.not_not.mp isMagic
      refine ⟨⟨⟨filled, poolSized, interfacesSized, fieldsSized, methodsSized, attributesSized⟩,
        names, owner, isNames, isOwner⟩, ?_⟩
      simp [layout]
  · intro spelled
    obtain ⟨⟨sized, names, owner, isNames, isOwner⟩, rfl⟩ := spelled
    refine ⟨magic, _, trivial, .inr ⟨not_not_intro rfl, file.minor, _, trivial, ⟨file.major, _, trivial,
      ⟨file.poolCount, _, trivial, ⟨file.pool, _, ⟨sized.filled, sized.pool⟩, ⟨names, [], _, rfl,
      ⟨isNames, rfl⟩, file.access, _, trivial, ⟨file.thisClass, _, trivial, ⟨owner, [], _, rfl,
      ⟨isOwner, rfl⟩, file.superClass, _, trivial, ⟨file.interfaces, _, sized.interfaces,
      ⟨file.fields, _, sized.fields, ⟨file.methods, _, sized.methods, ⟨file.attributes, rfl,
      sized.attributes, rfl⟩, rfl⟩, rfl⟩, rfl⟩, rfl⟩, rfl⟩, rfl⟩, rfl⟩, rfl⟩, rfl⟩, rfl⟩, ?_⟩
    simp [layout]

end ClassFile

namespace ClassInfo

theorem decode_read_error {d : List UInt8} {fault : ClassFile.Fault}
    (failed : ClassFile.read ⟨0, d⟩ = .error fault) : decode d = .error fault := by
  unfold decode
  rw [failed]
  rfl

theorem decode_read_ok {d : List UInt8} {file : ClassFile} {after : ClassFile.Cursor}
    (ran : ClassFile.read ⟨0, d⟩ = .ok (file, after)) : decode d = file.info := by
  unfold decode
  rw [ran]
  rfl

end ClassInfo
end ClassAtlas
