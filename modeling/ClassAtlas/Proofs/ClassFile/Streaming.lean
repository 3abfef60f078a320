import ClassAtlas.Proofs.ClassFile.Reading

/-!
What a class file tells while its bytes still come in. An answer or a refusal stays as it is
when more bytes follow. A read that falls short is the same one until the input passes the
place where it starts, and it starts where the field does that the input ends in.
-/

namespace ClassAtlas

open ClassFile (read Fault)

namespace ClassFile

-- The names and types are looked up in what has been read already.
theorem info_error {file : ClassFile} {fault : Fault} (failed : file.info = .error fault) :
    ∀ place, fault ≠ .truncated place := by
  intro place truncated
  subst truncated
  rcases bind_error_iff.mp failed with noNames | ⟨names, _, failed⟩
  · obtain ⟨index, same⟩ := class_names_error noNames
    cases same
  rcases bind_error_iff.mp failed with noOwner | ⟨owner, _, failed⟩
  · cases class_named_error noOwner
  rcases bind_error_iff.mp failed with noType | ⟨types, _, failed⟩
  · obtain ⟨index, _, noText⟩ := map_error noType
    cases lookup_error noText
  · cases failed

end ClassFile

namespace ClassInfo

theorem decode_truncated_iff (d : List UInt8) (place : Nat) :
    decode d = .error (.truncated place) ↔ read ⟨0, d⟩ = .error (.truncated place) := by
  cases ran : read ⟨0, d⟩ with
  | error fault => rw [decode_read_error ran, Except.error.injEq, Except.error.injEq]
  | ok result =>
    rw [decode_read_ok ran]
    constructor
    · intro failed
      exact absurd rfl (ClassFile.info_error failed place)
    · intro failed
      cases failed

-- How the answer for some bytes bears on the answers for more and for fewer of them.
structure Streams (d : List UInt8) : Prop where
  answered : ∀ info, decode d = .ok info → ∀ more, decode (d ++ more) = .ok info
  refused : ∀ fault, decode d = .error fault → (∀ place, fault ≠ .truncated place) →
    ∀ more, decode (d ++ more) = .error fault
  inside : ∀ place, decode d = .error (.truncated place) → place ≤ d.length
  shorter : ∀ place, decode d = .error (.truncated place) →
    ∀ part, part <+: d → place ≤ part.length → decode part = .error (.truncated place)
  longer : ∀ place, decode d = .error (.truncated place) →
    ∀ more later, decode (d ++ more) = .error (.truncated later) → place ≤ later
  -- Input that ends before the file does ends inside a field, and that one is blamed.
  cut : ∀ info, decode d = .ok info → ∃ file after, read ⟨0, d⟩ = .ok (file, after) ∧
    ∀ part, part <+: d → part.length < after.offset → ∃ front field later,
      file.layout = front ++ field :: later ∧ front.flatten.length ≤ part.length ∧
      part.length < front.flatten.length + field.length ∧
      decode part = .error (.truncated front.flatten.length)

theorem decode_answered {d : List UInt8} {info : ClassInfo} (answered : decode d = .ok info)
    (more : List UInt8) : decode (d ++ more) = .ok info := by
  cases ran : read ⟨0, d⟩ with
  | error fault =>
    rw [decode_read_error ran] at answered
    cases answered
  | ok result =>
    rw [decode_read_ok ran] at answered
    rw [decode_read_ok (ClassFile.reads_file.more ran more), answered]

theorem decode_refused {d : List UInt8} {fault : Fault} (refused : decode d = .error fault)
    (other : ∀ place, fault ≠ .truncated place) (more : List UInt8) :
    decode (d ++ more) = .error fault := by
  cases ran : read ⟨0, d⟩ with
  | error _ =>
    rw [decode_read_error ran] at refused
    cases refused
    exact decode_read_error (ClassFile.reads_file.refused 0 d fault ran other more)
  | ok result =>
    rw [decode_read_ok ran] at refused
    rw [decode_read_ok (ClassFile.reads_file.more ran more), refused]

theorem decode_inside {d : List UInt8} {place : Nat} (short : decode d = .error (.truncated place)) :
    place ≤ d.length := by
  have bounds := ClassFile.reads_file.inside 0 d place ((decode_truncated_iff d place).mp short)
  omega

theorem decode_advances {d more : List UInt8} {place later : Nat}
    (short : decode d = .error (.truncated place))
    (still : decode (d ++ more) = .error (.truncated later)) : later = place ∨ d.length < later := by
  have advances := ClassFile.reads_file.advances 0 d place ((decode_truncated_iff d place).mp short)
    more later ((decode_truncated_iff _ later).mp still)
  rw [Nat.zero_add] at advances
  exact advances

-- Fewer bytes can be neither answered nor refused, and what falls short is no later read.
theorem decode_shorter {d part : List UInt8} {place : Nat}
    (short : decode d = .error (.truncated place)) (begins : part <+: d)
    (covers : place ≤ part.length) : decode part = .error (.truncated place) := by
  obtain ⟨more, rfl⟩ := begins
  cases first : decode part with
  | ok info =>
    rw [decode_answered first more] at short
    cases short
  | error fault =>
    cases fault with
    | truncated earlier =>
      rcases decode_advances first short with same | past
      · rw [same]
      · omega
    | _ =>
      rw [decode_refused first (by simp) more] at short
      cases short

theorem decode_cut {d part : List UInt8} {file : ClassFile} {after : ClassFile.Cursor}
    (ran : read ⟨0, d⟩ = .ok (file, after)) (begins : part <+: d) (short : part.length < after.offset) :
    ∃ front field later, file.layout = front ++ field :: later ∧
      front.flatten.length ≤ part.length ∧ part.length < front.flatten.length + field.length ∧
      decode part = .error (.truncated front.flatten.length) := by
  obtain ⟨_, ⟨holds, rfl⟩, taken, moved⟩ := ClassFile.reads_file.sound 0 d file after ran
  rw [Nat.zero_add] at moved
  rw [taken] at begins
  rw [moved] at short
  obtain ⟨front, field, later, piece, isLayout, rfl, inside, ends⟩ :=
    ClassFile.crossing file.layout part after.rest begins short
  refine ⟨front, field, later, isLayout, ?_, ?_, ?_⟩
  · rw [List.length_append]
    exact Nat.le_add_right _ _
  · rw [List.length_append]
    exact Nat.add_lt_add_left ends _
  · have fails := ClassFile.reads_file.cut file front field later ⟨holds, isLayout.symm⟩ 0 piece
      inside ends
    rw [Nat.zero_add] at fails
    exact decode_read_error fails

theorem decode_streams (d : List UInt8) : Streams d where
  answered := fun _ answered => decode_answered answered
  refused := fun _ refused => decode_refused refused
  inside := fun _ short => decode_inside short
  shorter := fun _ short _ => decode_shorter short
  longer := by
    intro place short more later still
    rcases decode_advances short still with same | past
    · exact Nat.le_of_eq same.symm
    · exact Nat.le_trans (decode_inside short) (Nat.le_of_lt past)
  cut := by
    intro info answered
    cases ran : read ⟨0, d⟩ with
    | error fault =>
      rw [decode_read_error ran] at answered
      cases answered
    | ok result =>
      exact ⟨result.1, result.2, rfl, fun part begins short => decode_cut ran begins short⟩

end ClassInfo
end ClassAtlas
