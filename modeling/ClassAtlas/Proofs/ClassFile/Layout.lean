import ClassAtlas.ClassFile.Decoder

/-!
Decoders and layouts. A layout says which fields spell a value, a field being what one read
takes. A decoder follows a layout when it accepts exactly what the layout spells, and when its
failures are those of reading from front to back: input that ends inside a field fails where
that field starts, and more input changes nothing but such a failure. Decoders that follow
layouts can be put one after the other.
-/

namespace ClassAtlas.ClassFile

abbrev Field := List UInt8

-- Input that ends too early ends inside one of the fields.
theorem crossing (fields : List Field) (part rest : List UInt8)
    (begins : part <+: fields.flatten ++ rest) (short : part.length < fields.flatten.length) :
    ∃ front field later piece, fields = front ++ field :: later ∧ part = front.flatten ++ piece ∧
      piece <+: field ∧ piece.length < field.length := by
  induction fields generalizing part with
  | nil => cases short
  | cons first fields ih =>
    rw [List.flatten_cons, List.append_assoc] at begins
    rw [List.flatten_cons, List.length_append] at short
    by_cases ends : part.length < first.length
    · have inside : part <+: first :=
        List.prefix_of_prefix_length_le begins (List.prefix_append first _) (Nat.le_of_lt ends)
      exact ⟨[], first, fields, part, rfl, rfl, inside, ends⟩
    · obtain ⟨gap, rfl⟩ : first <+: part :=
        List.prefix_of_prefix_length_le (List.prefix_append first _) begins (Nat.le_of_not_lt ends)
      have begins' : gap <+: fields.flatten ++ rest := (List.prefix_append_right_inj first).mp begins
      rw [List.length_append] at short
      obtain ⟨front, field, later, piece, rfl, rfl, inside, shorter⟩ := ih gap begins' (by omega)
      refine ⟨first :: front, field, later, piece, rfl, ?_, inside, shorter⟩
      rw [List.flatten_cons, List.append_assoc]

namespace Decoder
variable {α β : Type} {d : Decoder α} {f : α → Decoder β} {cursor middle after : Cursor}
  {a value : α} {b : β} {fault : Fault}

theorem bind_ok (ran : d cursor = .ok (a, middle)) : (d >>= f) cursor = f a middle := by
  change (d cursor >>= fun result => f result.1 result.2) = f a middle
  rw [ran]
  rfl

theorem bind_error (ran : d cursor = .error fault) : (d >>= f) cursor = .error fault := by
  change (d cursor >>= fun result => f result.1 result.2) = .error fault
  rw [ran]
  rfl

theorem bind_parts (ran : (d >>= f) cursor = .ok (b, after)) :
    ∃ a middle, d cursor = .ok (a, middle) ∧ f a middle = .ok (b, after) := by
  cases first : d cursor with
  | error fault =>
    rw [bind_error first] at ran
    cases ran
  | ok result =>
    rw [bind_ok first] at ran
    exact ⟨result.1, result.2, rfl, ran⟩

structure Follows (d : Decoder α) (layout : α → List Field → Prop) : Prop where
  sound : ∀ offset input value after, d ⟨offset, input⟩ = .ok (value, after) →
    ∃ fields, layout value fields ∧ input = fields.flatten ++ after.rest ∧
      after.offset = offset + fields.flatten.length
  complete : ∀ value fields, layout value fields → ∀ offset rest,
    d ⟨offset, fields.flatten ++ rest⟩ = .ok (value, ⟨offset + fields.flatten.length, rest⟩)
  cut : ∀ value front field later, layout value (front ++ field :: later) →
    ∀ offset part, part <+: field → part.length < field.length →
      d ⟨offset, front.flatten ++ part⟩ = .error (.truncated (offset + front.flatten.length))
  refused : ∀ offset input fault, d ⟨offset, input⟩ = .error fault →
    (∀ place, fault ≠ .truncated place) → ∀ more, d ⟨offset, input ++ more⟩ = .error fault
  inside : ∀ offset input place, d ⟨offset, input⟩ = .error (.truncated place) →
    offset ≤ place ∧ place ≤ offset + input.length
  -- With more input it is still the same read that falls short, or a read past the old end.
  advances : ∀ offset input place, d ⟨offset, input⟩ = .error (.truncated place) →
    ∀ more later, d ⟨offset, input ++ more⟩ = .error (.truncated later) →
      later = place ∨ offset + input.length < later

variable {layout other : α → List Field → Prop} {next : α → β → List Field → Prop}

theorem Follows.more (follows : Follows d layout) {offset : Nat} {input : List UInt8}
    (ran : d ⟨offset, input⟩ = .ok (value, after)) (more : List UInt8) :
    d ⟨offset, input ++ more⟩ = .ok (value, ⟨after.offset, after.rest ++ more⟩) := by
  obtain ⟨fields, spelled, taken, moved⟩ := follows.sound offset input value after ran
  rw [taken, moved, List.append_assoc]
  exact follows.complete value fields spelled offset (after.rest ++ more)

-- A value spelled by more bytes than there are cannot have been read.
theorem Follows.longer (follows : Follows d layout) {offset place : Nat} {input more : List UInt8}
    (short : d ⟨offset, input⟩ = .error (.truncated place))
    (ran : d ⟨offset, input ++ more⟩ = .ok (value, after)) :
    offset + input.length < after.offset := by
  obtain ⟨fields, spelled, taken, moved⟩ := follows.sound offset (input ++ more) value after ran
  apply Nat.lt_of_not_le
  intro reached
  -- Otherwise the bytes at hand begin with the whole spelling, and the value is read.
  have covers : fields.flatten.length ≤ input.length := by omega
  have begins : fields.flatten <+: input :=
    List.prefix_of_prefix_length_le ⟨after.rest, taken.symm⟩ (List.prefix_append input more) covers
  obtain ⟨rest, isInput⟩ := begins
  have reads := follows.complete value fields spelled offset rest
  rw [isInput, short] at reads
  cases reads

-- No spelling begins another.
theorem Follows.unambiguous (follows : Follows d layout) {other : α} {fields fields' : List Field}
    {rest rest' : List UInt8} (spelled : layout value fields) (spelled' : layout other fields')
    (same : fields.flatten ++ rest = fields'.flatten ++ rest') : value = other ∧ rest = rest' := by
  have ran := follows.complete value fields spelled 0 rest
  rw [same, follows.complete other fields' spelled' 0 rest'] at ran
  simp only [Except.ok.injEq, Prod.mk.injEq, Cursor.mk.injEq] at ran
  exact ⟨ran.1.symm, ran.2.2.symm⟩

theorem Follows.congr (follows : Follows d layout)
    (same : ∀ value fields, layout value fields ↔ other value fields) : Follows d other := by
  have equal : layout = other := by
    funext value fields
    exact propext (same value fields)
  rw [← equal]
  exact follows

theorem follows_pure (a : α) :
    Follows (pure a : Decoder α) (fun value fields => value = a ∧ fields = []) where
  sound := by
    intro offset input value after ran
    cases ran
    exact ⟨[], ⟨rfl, rfl⟩, rfl, rfl⟩
  complete := by
    intro value fields spelled offset rest
    obtain ⟨rfl, rfl⟩ := spelled
    rfl
  cut := by
    intro value front field later spelled
    exact absurd spelled.2 (by simp)
  refused := by
    intro offset input fault failed
    cases failed
  inside := by
    intro offset input place failed
    cases failed
  advances := by
    intro offset input place failed
    cases failed

theorem follows_fail (fault : Fault) (other : ∀ place, fault ≠ .truncated place) :
    Follows (fail fault : Decoder α) (fun _ _ => False) where
  sound := by
    intro offset input value after ran
    cases ran
  complete := fun _ _ spelled => spelled.elim
  cut := fun _ _ _ _ spelled => spelled.elim
  refused := by
    intro offset input fault failed _ more
    exact failed
  inside := by
    intro offset input place failed
    cases failed
    exact absurd rfl (other place)
  advances := by
    intro offset input place failed
    cases failed
    exact absurd rfl (other place)

theorem follows_fail_bind (fault : Fault) (other : ∀ place, fault ≠ .truncated place)
    (f : α → Decoder β) : Follows (fail fault >>= f) (fun _ _ => False) :=
  follows_fail fault other

theorem follows_check (result : Except Fault α)
    (other : ∀ place, result ≠ .error (.truncated place)) :
    Follows (check result) (fun value fields => result = .ok value ∧ fields = []) := by
  cases result with
  | error fault =>
    have fails := follows_fail (α := α) fault (fun place same => other place (by rw [same]))
    exact fails.congr (by simp)
  | ok found => exact (follows_pure found).congr (by simp [eq_comm])

theorem raw_short (count offset : Nat) (bytes : List UInt8) (short : bytes.length < count) :
    raw count ⟨offset, bytes⟩ = .error (.truncated offset) := by
  have fewer : (bytes.take count).length < count := by
    rw [List.length_take]
    omega
  exact if_pos fewer

theorem raw_enough (count offset : Nat) (bytes : List UInt8) (enough : count ≤ bytes.length) :
    raw count ⟨offset, bytes⟩ = .ok (bytes.take count, ⟨offset + count, bytes.drop count⟩) := by
  have all : ¬ (bytes.take count).length < count := by
    rw [List.length_take]
    omega
  exact if_neg all

theorem raw_error (count offset : Nat) (bytes : List UInt8)
    (failed : raw count ⟨offset, bytes⟩ = .error fault) :
    bytes.length < count ∧ fault = .truncated offset := by
  by_cases short : bytes.length < count
  · rw [raw_short count offset bytes short] at failed
    cases failed
    exact ⟨short, rfl⟩
  · rw [raw_enough count offset bytes (Nat.le_of_not_lt short)] at failed
    cases failed

theorem follows_raw (count : Nat) :
    Follows (raw count) (fun value fields => value.length = count ∧ fields = [value]) where
  sound := by
    intro offset input value after ran
    by_cases short : input.length < count
    · rw [raw_short count offset input short] at ran
      cases ran
    · have enough : count ≤ input.length := Nat.le_of_not_lt short
      rw [raw_enough count offset input enough] at ran
      cases ran
      have taken : (input.take count).length = count := List.length_take_of_le enough
      refine ⟨[input.take count], ⟨taken, rfl⟩, ?_, ?_⟩
      · rw [List.flatten_singleton]
        exact (List.take_append_drop count input).symm
      · rw [List.flatten_singleton, taken]
  complete := by
    intro value fields spelled offset rest
    obtain ⟨rfl, rfl⟩ := spelled
    rw [List.flatten_singleton, raw_enough _ _ _ (by simp), List.take_left, List.drop_left]
  cut := by
    intro value front field later spelled offset part _ shorter
    obtain ⟨length, single⟩ := spelled
    cases front with
    | nil =>
      cases single
      rw [List.flatten_nil, List.nil_append, raw_short _ _ _ (length ▸ shorter)]
      rfl
    | cons first front => cases front <;> cases single
  refused := by
    intro offset input fault failed other
    exact absurd (raw_error count offset input failed).2 (other offset)
  inside := by
    intro offset input place failed
    cases (raw_error count offset input failed).2
    exact ⟨Nat.le_refl _, Nat.le_add_right _ _⟩
  advances := by
    intro offset input place failed more later failedLater
    cases (raw_error count offset input failed).2
    cases (raw_error count offset (input ++ more) failedLater).2
    exact .inl rfl

-- One decoder, then another that may look at what the first one read.
theorem Follows.bind (first : Follows d layout) (second : ∀ a, Follows (f a) (next a)) :
    Follows (d >>= f) fun b fields =>
      ∃ a front back, fields = front ++ back ∧ layout a front ∧ next a b back where
  sound := by
    intro offset input b after ran
    obtain ⟨a, middle, ranFirst, ranSecond⟩ := bind_parts ran
    obtain ⟨front, spelledFront, taken, moved⟩ := first.sound _ _ _ _ ranFirst
    obtain ⟨back, spelledBack, taken', moved'⟩ := (second a).sound _ _ _ _ ranSecond
    refine ⟨front ++ back, ⟨a, front, back, rfl, spelledFront, spelledBack⟩, ?_, ?_⟩
    · rw [taken, taken', List.flatten_append, List.append_assoc]
    · rw [moved', moved, List.flatten_append, List.length_append, Nat.add_assoc]
  complete := by
    intro b fields spelled offset rest
    obtain ⟨a, front, back, rfl, spelledFront, spelledBack⟩ := spelled
    have ranFirst := first.complete _ _ spelledFront offset (back.flatten ++ rest)
    have ranSecond := (second a).complete _ _ spelledBack (offset + front.flatten.length) rest
    rw [List.flatten_append, List.append_assoc, bind_ok ranFirst, ranSecond, List.length_append,
      Nat.add_assoc]
  cut := by
    intro b before field later spelled offset part inside shorter
    obtain ⟨a, front, back, split, spelledFront, spelledBack⟩ := spelled
    rcases List.append_eq_append_iff.mp split with ⟨gap, isFront, isRest⟩ | ⟨gap, isBefore, isBack⟩
    · cases gap with
      | nil =>
        -- The field is the first one of the second decoder.
        rw [List.append_nil] at isFront
        subst isFront
        rw [List.nil_append] at isRest
        have ranFirst := first.complete _ _ spelledFront offset part
        rw [bind_ok ranFirst]
        exact (second a).cut b [] field later (by rw [List.nil_append, isRest]; exact spelledBack)
          _ part inside shorter
      | cons top gap =>
        rw [List.cons_append] at isRest
        obtain ⟨rfl, rfl⟩ := List.cons.inj isRest
        rw [isFront] at spelledFront
        exact bind_error (first.cut a before field gap spelledFront offset part inside shorter)
    · subst isBefore
      have ranFirst := first.complete _ _ spelledFront offset (gap.flatten ++ part)
      rw [List.flatten_append, List.append_assoc, bind_ok ranFirst, List.length_append,
        ← Nat.add_assoc]
      rw [isBack] at spelledBack
      exact (second a).cut b gap field later spelledBack _ part inside shorter
  refused := by
    intro offset input fault failed other more
    cases ranFirst : d ⟨offset, input⟩ with
    | error _ =>
      rw [bind_error ranFirst] at failed
      cases failed
      exact bind_error (first.refused offset input fault ranFirst other more)
    | ok result =>
      obtain ⟨a, middle⟩ := result
      rw [bind_ok ranFirst] at failed
      rw [bind_ok (first.more ranFirst more)]
      exact (second a).refused _ _ fault failed other more
  inside := by
    intro offset input place failed
    cases ranFirst : d ⟨offset, input⟩ with
    | error _ =>
      rw [bind_error ranFirst] at failed
      cases failed
      exact first.inside offset input place ranFirst
    | ok result =>
      obtain ⟨a, middle⟩ := result
      rw [bind_ok ranFirst] at failed
      have bounds := (second a).inside _ _ place failed
      obtain ⟨front, _, taken, moved⟩ := first.sound _ _ _ _ ranFirst
      rw [taken, List.length_append]
      omega
  advances := by
    intro offset input place failed more later failedLater
    cases ranFirst : d ⟨offset, input⟩ with
    | ok result =>
      obtain ⟨a, middle⟩ := result
      rw [bind_ok ranFirst] at failed
      rw [bind_ok (first.more ranFirst more)] at failedLater
      obtain ⟨front, _, taken, moved⟩ := first.sound _ _ _ _ ranFirst
      rcases (second a).advances _ _ place failed more later failedLater with same | past
      · exact .inl same
      · refine .inr ?_
        rw [taken, List.length_append]
        omega
    | error _ =>
      rw [bind_error ranFirst] at failed
      cases failed
      cases ranMore : d ⟨offset, input ++ more⟩ with
      | error _ =>
        rw [bind_error ranMore] at failedLater
        cases failedLater
        exact first.advances offset input place ranFirst more later ranMore
      | ok result =>
        -- The first decoder now gets through, so the second starts past the old end.
        obtain ⟨a, middle⟩ := result
        rw [bind_ok ranMore] at failedLater
        have started := (second a).inside _ _ later failedLater
        have past := first.longer ranFirst ranMore
        exact .inr (Nat.lt_of_lt_of_le past started.1)

theorem Follows.map (follows : Follows d layout) (make : α → β) :
    Follows (do return make (← d)) fun b fields => ∃ a, b = make a ∧ layout a fields :=
  (follows.bind fun a => follows_pure (make a)).congr fun b fields => by
    constructor
    · intro spelled
      obtain ⟨a, front, _, rfl, spelled, rfl, rfl⟩ := spelled
      rw [List.append_nil]
      exact ⟨a, rfl, spelled⟩
    · intro spelled
      obtain ⟨a, rfl, spelled⟩ := spelled
      exact ⟨a, fields, [], (List.append_nil fields).symm, spelled, rfl, rfl⟩

theorem follows_ite {p : Prop} [Decidable p] {e : Decoder α} (yes : Follows d layout)
    (no : Follows e other) :
    Follows (if p then d else e) fun value fields =>
      (p ∧ layout value fields) ∨ (¬ p ∧ other value fields) := by
  by_cases holds : p
  · rw [if_pos holds]
    exact yes.congr (by simp [holds])
  · rw [if_neg holds]
    exact no.congr (by simp [holds])

-- The usual layout: some values are spelled, each in one way.
abbrev Reads (d : Decoder α) (holds : α → Prop) (spelling : α → List Field) : Prop :=
  Follows d fun value fields => holds value ∧ fields = spelling value

theorem Follows.reads {holds : α → Prop} {spelling : α → List Field} (follows : Follows d layout)
    (same : ∀ value fields, layout value fields ↔ holds value ∧ fields = spelling value) :
    Reads d holds spelling :=
  follows.congr same

theorem Reads.bind {holds : α → Prop} {spelling : α → List Field} (first : Reads d holds spelling)
    (second : ∀ a, Follows (f a) (next a)) :
    Follows (d >>= f) fun b fields =>
      ∃ a back, holds a ∧ next a b back ∧ fields = spelling a ++ back :=
  (Follows.bind first second).congr fun b fields => by
    constructor
    · intro spelled
      obtain ⟨a, _, back, rfl, ⟨here, rfl⟩, there⟩ := spelled
      exact ⟨a, back, here, there, rfl⟩
    · intro spelled
      obtain ⟨a, back, here, there, rfl⟩ := spelled
      exact ⟨a, spelling a, back, rfl, ⟨here, rfl⟩, there⟩

-- The same item so many times over, each spelled by its own fields.
theorem reads_times_from {holds : α → Prop} {spelling : α → List Field}
    (item : Reads d holds spelling) (count : Nat) (sofar : List α) :
    Follows (timesFrom d count sofar) fun values fields => ∃ read, values = sofar.reverse ++ read ∧
      read.length = count ∧ (∀ value, value ∈ read → holds value) ∧
      fields = read.flatMap spelling := by
  induction count generalizing sofar with
  | zero =>
    refine (follows_pure sofar.reverse).congr fun values fields => ⟨?_, ?_⟩
    · intro spelled
      exact ⟨[], by simp [spelled.1], rfl, by simp, spelled.2⟩
    · intro spelled
      obtain ⟨read, isValues, length, _, isFields⟩ := spelled
      cases List.eq_nil_of_length_eq_zero length
      exact ⟨by rw [isValues, List.append_nil], isFields⟩
  | succ count ih =>
    refine (item.bind fun value => ih (value :: sofar)).congr fun values fields => ⟨?_, ?_⟩
    · intro spelled
      obtain ⟨value, _, here, ⟨read, rfl, length, all, rfl⟩, rfl⟩ := spelled
      exact ⟨value :: read, by simp, by rw [List.length_cons, length],
        List.forall_mem_cons.mpr ⟨here, all⟩, List.flatMap_cons.symm⟩
    · intro spelled
      obtain ⟨read, rfl, length, all, rfl⟩ := spelled
      cases read with
      | nil => cases length
      | cons value read =>
        obtain ⟨here, all⟩ := List.forall_mem_cons.mp all
        exact ⟨value, read.flatMap spelling, here, ⟨read, by simp, Nat.succ.inj length, all, rfl⟩,
          List.flatMap_cons⟩

theorem reads_times {holds : α → Prop} {spelling : α → List Field}
    (item : Reads d holds spelling) (count : Nat) :
    Reads (times count d)
      (fun values => values.length = count ∧ ∀ value, value ∈ values → holds value)
      (fun values => values.flatMap spelling) :=
  (reads_times_from item count []).reads (by simp [and_assoc])

end Decoder
end ClassAtlas.ClassFile
