import ClassAtlas.ClassFile.ModifiedUtf8
import ClassAtlas.Proofs.Text.Utf8

/-!
The text of string constants. It is taken exactly if its bytes are a row of tokens, each a code
point in its shortest form or the two bytes that stand for NUL; and the 16-bit units of a string
come back as they were written, so no two strings are taken for one another.
-/

namespace ClassAtlas.ModifiedUtf8

open Utf8 (spell planesEnd)

inductive Token where
  | nul
  | char (c : CodePoint) (inside : c < planesEnd)

namespace Token

def bytes : Token → List UInt8
  | nul => [0xC0, 0x80]
  | char c _ => spell c

def codePoint : Token → CodePoint
  | nul => 0
  | char c _ => c

end Token

-- The second text is the first with every high surrogate joined to a low one directly behind it.
inductive Joined : Text → Text → Prop where
  | nil : Joined [] []
  | pair {high low : CodePoint} {t joinedUp : Text} (isHigh : Text.isHighSurrogate high = true)
      (isLow : Text.isLowSurrogate low = true) (rest : Joined t joinedUp) :
      Joined (high :: low :: t) (joined high low :: joinedUp)
  | single {c : CodePoint} {t joinedUp : Text}
      (alone : Text.isHighSurrogate c = true → ∀ d ∈ t.head?, Text.isLowSurrogate d = false)
      (rest : Joined t joinedUp) : Joined (c :: t) (c :: joinedUp)

variable {bytes raw rest : List UInt8} {b : UInt8} {c d : Nat} {t u : Text}

/-! The two bytes that stand for NUL. -/

theorem shorten_nul_plain (plain : b ≠ 0xC0) (rest : List UInt8) : shortenNul b rest = b :: rest := by
  cases rest <;> simp [shortenNul, plain]

theorem shorten_plain (plain : ∀ b ∈ bytes, b ≠ 0xC0) (rest : List UInt8) :
    shortenNuls (bytes ++ rest) = bytes ++ shortenNuls rest := by
  induction bytes with
  | nil => rfl
  | cons b bytes ih =>
    have later := ih fun other member => plain other (.tail b member)
    rw [List.cons_append, shortenNuls, List.foldr_cons, ← shortenNuls, later,
      shorten_nul_plain (plain b List.mem_cons_self)]
    rfl

-- The first byte that is left was there, or stands for the two bytes.
theorem shorten_eq_cons (shortened : shortenNuls raw = b :: bytes) :
    (∃ rest, raw = b :: rest ∧ shortenNuls rest = bytes) ∨
      b = 0 ∧ ∃ rest, raw = 0xC0 :: 0x80 :: rest ∧ shortenNuls rest = bytes := by
  induction raw generalizing b bytes with
  | nil => cases shortened
  | cons a raw ih =>
    rw [shortenNuls, List.foldr_cons, ← shortenNuls] at shortened
    cases later : shortenNuls raw with
    | nil =>
      rw [later] at shortened
      cases shortened
      exact .inl ⟨raw, rfl, later⟩
    | cons d behind =>
      rw [later, shortenNul] at shortened
      split at shortened
      · rename_i spelled
        obtain ⟨rfl, rfl⟩ := spelled
        cases shortened
        rcases ih later with ⟨rest, rfl, same⟩ | ⟨impossible, _⟩
        · exact .inr ⟨rfl, rest, rfl, same⟩
        · cases impossible
      · cases shortened
        exact .inl ⟨raw, rfl, later⟩

theorem shorten_eq_nil (shortened : shortenNuls raw = []) : raw = [] := by
  cases raw with
  | nil => rfl
  | cons a raw =>
    rw [shortenNuls, List.foldr_cons] at shortened
    unfold shortenNul at shortened
    split at shortened
    · split at shortened <;> cases shortened
    · cases shortened

theorem shorten_eq_append (filled : ∀ b ∈ bytes, b ≠ 0) (shortened : shortenNuls raw = bytes ++ rest) :
    ∃ behind, raw = bytes ++ behind ∧ shortenNuls behind = rest := by
  induction bytes generalizing raw with
  | nil => exact ⟨raw, rfl, shortened⟩
  | cons b bytes ih =>
    rcases shorten_eq_cons shortened with ⟨later, rfl, same⟩ | ⟨isNul, _⟩
    · obtain ⟨behind, rfl, after⟩ := ih (fun other member => filled other (.tail b member)) same
      exact ⟨behind, rfl, after⟩
    · exact absurd isNul (filled b List.mem_cons_self)

theorem shorten_tokens (tokens : List Token) :
    shortenNuls (tokens.flatMap Token.bytes) = (tokens.map Token.codePoint).flatMap spell := by
  induction tokens with
  | nil => rfl
  | cons token tokens ih =>
    rw [List.flatMap_cons, List.map_cons, List.flatMap_cons, ← ih]
    cases token with
    | nul =>
      simp only [Token.bytes, List.cons_append, shortenNuls, List.foldr_cons]
      rw [shorten_nul_plain (b := 0x80) (by decide)]
      rfl
    | char c inside => exact shorten_plain (fun b member => (Utf8.mem_spell inside member).1) _

theorem tokens_of_shorten (inside : ∀ c ∈ t, c < planesEnd)
    (shortened : shortenNuls raw = t.flatMap spell) :
    ∃ tokens : List Token, raw = tokens.flatMap Token.bytes ∧ tokens.map Token.codePoint = t := by
  induction t generalizing raw with
  | nil => exact ⟨[], shorten_eq_nil shortened, rfl⟩
  | cons c t ih =>
    have first : c < planesEnd := inside c List.mem_cons_self
    have later : ∀ d ∈ t, d < planesEnd := fun d member => inside d (.tail c member)
    rw [List.flatMap_cons] at shortened
    by_cases isNul : c = 0
    · subst isNul
      rcases shorten_eq_cons shortened with ⟨rest, rfl, same⟩ | ⟨_, rest, rfl, same⟩
      · obtain ⟨tokens, rfl, points⟩ := ih later same
        exact ⟨.char 0 first :: tokens, rfl, by rw [List.map_cons, points]; rfl⟩
      · obtain ⟨tokens, rfl, points⟩ := ih later same
        exact ⟨.nul :: tokens, rfl, by rw [List.map_cons, points]; rfl⟩
    · have filled : ∀ b ∈ spell c, b ≠ 0 :=
        fun b member nul => isNul ((Utf8.mem_spell first member).2 nul)
      obtain ⟨behind, rfl, same⟩ := shorten_eq_append filled shortened
      obtain ⟨tokens, rfl, points⟩ := ih later same
      exact ⟨.char c first :: tokens, rfl, by rw [List.map_cons, points]; rfl⟩

/-! Pairs of surrogates. -/

theorem high_iff {c : Nat} :
    Text.isHighSurrogate c = true ↔ (0xD800 : Nat) ≤ c ∧ c ≤ (0xDBFF : Nat) := by
  simp only [Text.isHighSurrogate, Bool.and_eq_true, decide_eq_true_iff]

theorem low_iff {c : Nat} :
    Text.isLowSurrogate c = true ↔ (0xDC00 : Nat) ≤ c ∧ c ≤ (0xDFFF : Nat) := by
  simp only [Text.isLowSurrogate, Bool.and_eq_true, decide_eq_true_iff]

theorem low_not_high (isLow : Text.isLowSurrogate c = true) : Text.isHighSurrogate c = false := by
  rw [← Bool.not_eq_true, high_iff]
  rw [low_iff] at isLow
  omega

theorem beyond_not_low {c : Nat} (beyond : 0x10000 ≤ c) : Text.isLowSurrogate c = false := by
  rw [← Bool.not_eq_true, low_iff]
  omega

theorem joined_not_low (high low : Nat) : Text.isLowSurrogate (joined high low) = false :=
  beyond_not_low (Nat.le_trans (Nat.le_add_right _ _) (Nat.le_add_right _ _))

-- Joining brings no low surrogate to the front.
theorem Joined.low_head (rejoined : Joined t u) :
    ∀ d ∈ u.head?, Text.isLowSurrogate d = true → d ∈ t.head? := by
  cases rejoined with
  | nil => simp
  | pair isHigh isLow rest => simp [joined_not_low]
  | single alone rest => simp

theorem Joined.unique (rejoined : Joined t u) : joinSurrogates t = u := by
  induction rejoined with
  | nil => rfl
  | @pair high low t u isHigh isLow rest ih =>
    have kept : joinSurrogate low u = low :: u := by
      cases u <;> simp [joinSurrogate, low_not_high isLow]
    rw [joinSurrogates, List.foldr_cons, List.foldr_cons, ← joinSurrogates, ih, kept, joinSurrogate,
      isHigh, isLow]
    rfl
  | @single c t u alone rest ih =>
    rw [joinSurrogates, List.foldr_cons, ← joinSurrogates, ih]
    cases u with
    | nil => rfl
    | cons d u =>
      have apart : (Text.isHighSurrogate c && Text.isLowSurrogate d) = false := by
        rw [Bool.and_eq_false_imp]
        intro isHigh
        rw [← Bool.not_eq_true]
        intro isLow
        have front := rest.low_head d rfl isLow
        rw [alone isHigh d front] at isLow
        cases isLow
      rw [joinSurrogate, apart]
      rfl

-- One code point more in front, since a pair takes two at once.
theorem exists_joined (t : Text) : (∃ u, Joined t u) ∧ ∀ c, ∃ u, Joined (c :: t) u := by
  induction t with
  | nil => exact ⟨⟨[], .nil⟩, fun c => ⟨[c], .single (by simp) .nil⟩⟩
  | cons d t ih =>
    obtain ⟨⟨u, later⟩, one_more⟩ := ih
    obtain ⟨v, behind⟩ := one_more d
    refine ⟨⟨v, behind⟩, fun c => ?_⟩
    by_cases paired : Text.isHighSurrogate c = true ∧ Text.isLowSurrogate d = true
    · exact ⟨_, .pair paired.1 paired.2 later⟩
    · refine ⟨_, .single ?_ behind⟩
      simpa using paired

theorem joined_iff : Joined t u ↔ joinSurrogates t = u := by
  constructor
  · exact Joined.unique
  · intro same
    obtain ⟨v, rejoined⟩ := (exists_joined t).1
    rwa [← same, rejoined.unique]

theorem decode_ok_iff_joined : decode raw = .ok u ↔
    ∃ t, (∀ c ∈ t, c < planesEnd) ∧ shortenNuls raw = t.flatMap spell ∧ Joined t u := by
  unfold decode
  constructor
  · intro decoded
    split at decoded
    · rename_i t found
      cases decoded
      obtain ⟨inside, shortened⟩ := Utf8.decode_iff.mp found
      exact ⟨t, inside, shortened, joined_iff.mpr rfl⟩
    · cases decoded
  · intro given
    obtain ⟨t, inside, shortened, rejoined⟩ := given
    rw [Utf8.decode_iff.mpr ⟨inside, shortened⟩, ← rejoined.unique]

theorem Token.inside (token : Token) : token.codePoint < planesEnd := by
  cases token with
  | nul => exact (by decide : 0 < planesEnd)
  | char c inside => exact inside

theorem decode_ok_iff_tokens : decode raw = .ok u ↔
    ∃ tokens : List Token, raw = tokens.flatMap Token.bytes ∧ Joined (tokens.map Token.codePoint) u := by
  rw [decode_ok_iff_joined]
  constructor
  · intro given
    obtain ⟨t, inside, shortened, rejoined⟩ := given
    obtain ⟨tokens, same, rfl⟩ := tokens_of_shorten inside shortened
    exact ⟨tokens, same, rejoined⟩
  · intro given
    obtain ⟨tokens, rfl, rejoined⟩ := given
    refine ⟨_, ?_, shorten_tokens tokens, rejoined⟩
    intro c member
    obtain ⟨token, _, rfl⟩ := List.mem_map.mp member
    exact token.inside

/-! Strings of 16-bit units. -/

-- A code point beyond the basic plane takes a high and a low surrogate.
def unitsOf (c : Nat) : List UInt16 :=
  if c < 0x10000 then [.ofNat c]
  else [.ofNat (0xD800 + (c - 0x10000) / 0x400), .ofNat (0xDC00 + (c - 0x10000) % 0x400)]

def utf16 (t : Text) : List UInt16 := t.flatMap unitsOf

def Token.ofUnit (unit : UInt16) : Token :=
  if unit = 0 then .nul
  else .char unit.toNat (Nat.lt_trans unit.toNat_lt (by decide))

-- How a string is stored, unit by unit.
def encode (units : List UInt16) : List UInt8 :=
  (units.map Token.ofUnit).flatMap Token.bytes

theorem code_point_of_unit (unit : UInt16) : (Token.ofUnit unit).codePoint = unit.toNat := by
  unfold Token.ofUnit
  split
  · rename_i isNul
    rw [isNul]
    rfl
  · rfl

theorem units_joined {high low : Nat} (isHigh : Text.isHighSurrogate high = true)
    (isLow : Text.isLowSurrogate low = true) :
    unitsOf (joined high low) = [.ofNat high, .ofNat low] := by
  rw [high_iff] at isHigh
  rw [low_iff] at isLow
  have digits : ∀ c : Nat, c = 0x10000 + (high - 0xD800) * 0x400 + (low - 0xDC00) →
      unitsOf c = [.ofNat high, .ofNat low] := by
    intro c value
    have upper : 0xD800 + (c - 0x10000) / 0x400 = high := by omega
    have lower : 0xDC00 + (c - 0x10000) % 0x400 = low := by omega
    rw [unitsOf, if_neg (by omega), upper, lower]
  exact digits _ rfl

-- Joining leaves the units as they are.
theorem Joined.units (rejoined : Joined t u) (basic : ∀ c ∈ t, c < 0x10000) :
    utf16 u = t.map UInt16.ofNat := by
  induction rejoined with
  | nil => rfl
  | pair isHigh isLow rest ih =>
    rw [utf16, List.flatMap_cons, units_joined isHigh isLow]
    have later := ih fun c member => basic c (.tail _ (.tail _ member))
    simp [← later, utf16]
  | @single c t u alone rest ih =>
    have later := ih fun d member => basic d (.tail c member)
    have small : c < 0x10000 := basic c List.mem_cons_self
    rw [utf16, List.flatMap_cons, unitsOf, if_pos small]
    simp [← later, utf16]

theorem decode_encode (units : List UInt16) :
    ∃ t, decode (encode units) = .ok t ∧ utf16 t = units := by
  have points : (units.map Token.ofUnit).map Token.codePoint = units.map UInt16.toNat := by
    simp [code_point_of_unit]
  obtain ⟨t, rejoined⟩ := (exists_joined (units.map UInt16.toNat)).1
  refine ⟨t, decode_ok_iff_tokens.mpr ⟨_, rfl, by rwa [points]⟩, ?_⟩
  rw [rejoined.units]
  · simp [Function.comp_def]
  · intro c member
    obtain ⟨unit, _, rfl⟩ := List.mem_map.mp member
    exact unit.toNat_lt

-- What is taken and what it means, and that strings are told apart.
theorem decode_tokens :
    (∀ raw t, decode raw = .ok t ↔ ∃ tokens : List Token,
      raw = tokens.flatMap Token.bytes ∧ Joined (tokens.map Token.codePoint) t) ∧
    (∀ raw, (∃ t, decode raw = .ok t) ↔ ∃ tokens : List Token, raw = tokens.flatMap Token.bytes) ∧
    (∀ units, ∃ t, decode (encode units) = .ok t ∧ utf16 t = units) ∧
    ∀ units others, decode (encode units) = decode (encode others) → units = others := by
  refine ⟨fun _ _ => decode_ok_iff_tokens, ?_, decode_encode, ?_⟩
  · intro raw
    simp only [decode_ok_iff_tokens]
    constructor
    · intro given
      obtain ⟨t, tokens, same, _⟩ := given
      exact ⟨tokens, same⟩
    · intro given
      obtain ⟨tokens, same⟩ := given
      obtain ⟨t, rejoined⟩ := (exists_joined (tokens.map Token.codePoint)).1
      exact ⟨t, tokens, same, rejoined⟩
  · intro units others same
    obtain ⟨t, decoded, back⟩ := decode_encode units
    obtain ⟨u, decoded', back'⟩ := decode_encode others
    rw [decoded, decoded'] at same
    cases same
    exact back.symm.trans back'

end ClassAtlas.ModifiedUtf8
