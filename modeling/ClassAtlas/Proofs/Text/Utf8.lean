import Mathlib.Algebra.Group.Nat.Defs
import ClassAtlas.Text.Utf8

/-!
What UTF-8 takes when it takes surrogates as well: the code points of the seventeen planes, each
spelled in its shortest form, one after the other.
-/

namespace ClassAtlas.Utf8

-- The first code point that no plane has.
def planesEnd : Nat := 0x110000

def trail (n : Nat) : UInt8 := .ofNat (0x80 + n % 64)

-- The last `count` digits of a code point to the base 64.
def trails : (count : Nat) → Nat → List UInt8
  | 0, _ => []
  | count + 1, c => trail (c / 64 ^ count) :: trails count c

-- The shortest form. A surrogate takes three bytes like its neighbours.
def spell (c : Nat) : List UInt8 :=
  if c < 0x80 then [.ofNat c]
  else if c < 0x800 then .ofNat (0xC0 + c / 64) :: trails 1 c
  else if c < 0x10000 then .ofNat (0xE0 + c / 64 ^ 2) :: trails 2 c
  else .ofNat (0xF0 + c / 64 ^ 3) :: trails 3 c

variable {lead b : UInt8} {bytes rest : List UInt8} {c d taken missing width : Nat}

theorem is_continuation_iff : isContinuation b = true ↔ 0x80 ≤ b.toNat ∧ b.toNat ≤ 0xBF := by
  simp [isContinuation, UInt8.le_iff_toNat_le]

theorem trail_nat (n : Nat) : (trail n).toNat = 0x80 + n % 64 := by
  rw [trail, UInt8.toNat_ofNat']
  omega

theorem trail_continues (n : Nat) : isContinuation (trail n) = true := by
  rw [is_continuation_iff, trail_nat]
  omega

theorem payload_trail (n : Nat) : payload (trail n) = n % 64 := by
  rw [payload, trail_nat]
  omega

theorem payload_lt (b : UInt8) : payload b < 64 := Nat.mod_lt _ (by decide)

theorem extend_trail (n : Nat) : extend (n / 64) (trail n) = n := by
  rw [extend, payload_trail, Nat.div_add_mod']

theorem extend_div (c : Nat) (b : UInt8) : extend c b / 64 = c := by
  rw [extend, Nat.add_comm, Nat.add_mul_div_right _ _ (by decide), Nat.div_eq_of_lt (payload_lt b),
    Nat.zero_add]

theorem trail_extend (continues : isContinuation b = true) : trail (extend c b) = b := by
  rw [is_continuation_iff] at continues
  apply UInt8.toNat_inj.mp
  rw [trail_nat, extend, payload]
  omega

theorem div_pow_succ (n count : Nat) : n / 64 ^ (count + 1) = n / 64 ^ count / 64 := by
  rw [Nat.pow_succ, Nat.div_div_eq_div_mul]

/-! The bytes behind the first one. -/

theorem finish_trails (taken count c : Nat) (rest : List UInt8) :
    finish taken count (c / 64 ^ count) (trails count c ++ rest) = .char c (taken + count) rest := by
  induction count generalizing taken with
  | zero => simp [finish, trails]
  | succ count ih =>
    rw [trails, List.cons_append, finish, if_pos (trail_continues _), div_pow_succ, extend_trail, ih]
    congr 1
    omega

theorem finish_canonical (finished : finish taken missing c bytes = .char d width rest) :
    d / 64 ^ missing = c ∧ bytes = trails missing d ++ rest := by
  induction missing generalizing taken c bytes with
  | zero =>
    cases finished
    simp [trails]
  | succ missing ih =>
    cases bytes with
    | nil => cases finished
    | cons b bytes =>
      unfold finish at finished
      split at finished
      · rename_i continues
        obtain ⟨digits, behind⟩ := ih finished
        rw [div_pow_succ, digits, extend_div, trails, digits, trail_extend continues, behind]
        exact ⟨rfl, rfl⟩
      · cases finished

-- What the second byte has to be so that no shorter form would do and some plane has the outcome.
def Narrowed (lead b : UInt8) : Prop :=
  (lead = 0xE0 → 0xA0 ≤ b) ∧ (lead = 0xF0 → 0x90 ≤ b) ∧ (lead = 0xF4 → b < 0x90)

theorem allows_second_iff : allowsSecond lead b = true ↔
    isContinuation b = true ∧ Narrowed lead b ∧ (lead = 0xED → b < 0xA0) := by
  simp only [allowsSecond, Narrowed, Bool.and_eq_true, Bool.not_eq_true', Bool.and_eq_false_imp,
    beq_iff_eq, decide_eq_false_iff_not, UInt8.not_lt, UInt8.not_le]
  grind

theorem sequence_iff : sequence .taken lead missing c (b :: bytes) = .char d width rest ↔
    finish 1 (missing + 1) c (b :: bytes) = .char d width rest ∧ Narrowed lead b := by
  cases continues : isContinuation b with
  | false => simp [sequence, finish, continues, allowsSecond]
  | true =>
    by_cases surrogate : lead = 0xED
    · subst surrogate
      have narrowed : Narrowed 0xED b := by simp [Narrowed]
      simp only [sequence, finish, continues, narrowed, and_self, if_true, and_true]
      split
      · rfl
      · cases finish 2 missing (extend c b) bytes <;> simp
    · by_cases narrowed : Narrowed lead b
      · have allowed : allowsSecond lead b = true := by
          simp [allows_second_iff, continues, narrowed, surrogate]
        simp [sequence, finish, continues, narrowed, allowed]
      · have refused : allowsSecond lead b = false := by
          simp [← Bool.not_eq_true, allows_second_iff, narrowed]
        simp [sequence, surrogate, narrowed, refused]

theorem sequence_canonical (found : sequence .taken lead missing c bytes = .char d width rest) :
    d / 64 ^ (missing + 1) = c ∧ bytes = trails (missing + 1) d ++ rest ∧
      Narrowed lead (trail (d / 64 ^ missing)) := by
  cases bytes with
  | nil => cases found
  | cons b bytes =>
    obtain ⟨finished, narrowed⟩ := sequence_iff.mp found
    obtain ⟨digits, behind⟩ := finish_canonical finished
    refine ⟨digits, behind, ?_⟩
    rw [trails, List.cons_append, List.cons_eq_cons] at behind
    rwa [← behind.1]

theorem sequence_trails (missing : Nat) (rest : List UInt8)
    (narrowed : Narrowed lead (trail (c / 64 ^ missing))) :
    sequence .taken lead missing (c / 64 ^ (missing + 1)) (trails (missing + 1) c ++ rest) =
      .char c (missing + 2) rest := by
  rw [trails, List.cons_append, sequence_iff]
  refine ⟨?_, narrowed⟩
  rw [← List.cons_append, ← trails, finish_trails]
  congr 1
  omega

/-! One code point. -/

theorem narrowed_trail (n : Nat) : Narrowed lead (trail n) ↔
    (lead.toNat = 0xE0 → 32 ≤ n % 64) ∧ (lead.toNat = 0xF0 → 16 ≤ n % 64) ∧
      (lead.toNat = 0xF4 → n % 64 < 16) := by
  simp only [Narrowed, ← UInt8.toNat_inj, UInt8.le_iff_toNat_le, UInt8.lt_iff_toNat_lt, trail_nat,
    UInt8.reduceToNat]
  omega

theorem next_canonical (found : next .taken lead bytes = .char c width rest) :
    c < planesEnd ∧ lead :: bytes = spell c ++ rest := by
  have byte : ∀ n, n = lead.toNat → UInt8.ofNat n = lead := by
    intro n same
    rw [same, UInt8.ofNat_toNat]
  unfold next at found
  simp only [UInt8.lt_iff_toNat_lt, UInt8.reduceToNat] at found
  split at found
  · rename_i ascii
    cases found
    have inside : lead.toNat < planesEnd := Nat.lt_trans ascii (by decide)
    exact ⟨inside, by rw [spell, if_pos ascii, byte _ rfl]; rfl⟩
  split at found
  · cases found
  split at found
  · have finished : finish 1 1 (lead.toNat % 32) bytes = .char c width rest := by
      cases bytes <;> exact found
    obtain ⟨digits, behind⟩ := finish_canonical finished
    rw [behind, spell, if_neg (by omega), if_pos (by omega), byte _ (by omega)]
    exact ⟨by unfold planesEnd; omega, rfl⟩
  split at found
  · obtain ⟨digits, behind, narrowed⟩ := sequence_canonical found
    rw [narrowed_trail] at narrowed
    rw [behind, spell, if_neg (by omega), if_neg (by omega), if_pos (by omega), byte _ (by omega)]
    exact ⟨by unfold planesEnd; omega, rfl⟩
  split at found
  · obtain ⟨digits, behind, narrowed⟩ := sequence_canonical found
    rw [narrowed_trail] at narrowed
    rw [behind, spell, if_neg (by omega), if_neg (by omega), if_neg (by omega), byte _ (by omega)]
    exact ⟨by unfold planesEnd; omega, rfl⟩
  · cases found

theorem next_spell (inside : c < planesEnd) : ∃ lead bytes, spell c = lead :: bytes ∧
    ∀ rest, ∃ width, next .taken lead (bytes ++ rest) = .char c width rest := by
  unfold planesEnd at inside
  have byte : ∀ n, n < 256 → (UInt8.ofNat n).toNat = n := by
    intro n small
    rw [UInt8.toNat_ofNat', Nat.mod_eq_of_lt small]
  unfold spell next
  simp only [UInt8.lt_iff_toNat_lt, UInt8.reduceToNat]
  split
  · rename_i ascii
    refine ⟨_, _, rfl, fun rest => ⟨1, ?_⟩⟩
    rw [byte c (by omega), if_pos ascii]
    rfl
  split
  · have lead := byte (0xC0 + c / 64) (by omega)
    refine ⟨_, _, rfl, fun rest => ⟨2, ?_⟩⟩
    rw [lead, if_neg (by omega), if_neg (by omega), if_pos (by omega)]
    have digits : (0xC0 + c / 64) % 32 = c / 64 ^ 1 := by omega
    rw [digits]
    exact finish_trails 1 1 c rest
  split
  · have lead := byte (0xE0 + c / 64 ^ 2) (by omega)
    have narrowed : Narrowed (.ofNat (0xE0 + c / 64 ^ 2)) (trail (c / 64 ^ 1)) := by
      rw [narrowed_trail, lead]
      omega
    refine ⟨_, _, rfl, fun rest => ⟨3, ?_⟩⟩
    rw [lead, if_neg (by omega), if_neg (by omega), if_neg (by omega), if_pos (by omega)]
    have digits : (0xE0 + c / 64 ^ 2) % 16 = c / 64 ^ 2 := by omega
    rw [digits]
    exact sequence_trails 1 rest narrowed
  · have lead := byte (0xF0 + c / 64 ^ 3) (by omega)
    have narrowed : Narrowed (.ofNat (0xF0 + c / 64 ^ 3)) (trail (c / 64 ^ 2)) := by
      rw [narrowed_trail, lead]
      omega
    refine ⟨_, _, rfl, fun rest => ⟨4, ?_⟩⟩
    rw [lead, if_neg (by omega), if_neg (by omega), if_neg (by omega), if_neg (by omega),
      if_pos (by omega)]
    have digits : (0xF0 + c / 64 ^ 3) % 8 = c / 64 ^ 3 := by omega
    rw [digits]
    exact sequence_trails 2 rest narrowed

theorem mem_trails {count : Nat} (member : b ∈ trails count c) : isContinuation b = true := by
  induction count with
  | zero => cases member
  | succ count ih =>
    rcases List.mem_cons.mp member with rfl | later
    · exact trail_continues _
    · exact ih later

-- The lead byte C0 could begin only what has a shorter form, and NUL is in no other spelling.
theorem mem_spell (inside : c < planesEnd) (member : b ∈ spell c) : b ≠ 0xC0 ∧ (b = 0 → c = 0) := by
  unfold planesEnd at inside
  simp only [ne_eq, ← UInt8.toNat_inj, UInt8.reduceToNat]
  have later : ∀ {count}, b ∈ trails count c → b.toNat ≠ 0xC0 ∧ (b.toNat = 0 → c = 0) := by
    intro count trailing
    have range := is_continuation_iff.mp (mem_trails trailing)
    omega
  unfold spell at member
  split at member
  · rw [List.mem_singleton.mp member, UInt8.toNat_ofNat']
    omega
  split at member
  · rcases List.mem_cons.mp member with rfl | trailing
    · rw [UInt8.toNat_ofNat']
      omega
    · exact later trailing
  split at member
  · rcases List.mem_cons.mp member with rfl | trailing
    · rw [UInt8.toNat_ofNat']
      omega
    · exact later trailing
  · rcases List.mem_cons.mp member with rfl | trailing
    · rw [UInt8.toNat_ofNat']
      omega
    · exact later trailing

/-! A whole text. -/

variable {offset : Nat} {sofar t : Text}

theorem decode_from_next (found : next .taken lead bytes = .char c width rest) :
    decodeFrom .taken offset sofar (lead :: bytes) =
      decodeFrom .taken (offset + width) (c :: sofar) rest := by
  rw [decodeFrom]
  split <;> rename_i other
  · rw [found] at other
    cases other
    rfl
  · rw [found] at other
    cases other

theorem decode_from_spell (inside : ∀ c ∈ t, c < planesEnd) :
    decodeFrom .taken offset sofar (t.flatMap spell) = .ok (sofar.reverse ++ t) := by
  induction t generalizing offset sofar with
  | nil => simp [decodeFrom]
  | cons c t ih =>
    obtain ⟨lead, bytes, spelled, accepted⟩ := next_spell (inside c List.mem_cons_self)
    obtain ⟨width, found⟩ := accepted (t.flatMap spell)
    rw [List.flatMap_cons, spelled, List.cons_append, decode_from_next found,
      ih fun d member => inside d (.tail c member)]
    simp

theorem decode_from_canonical (decoded : decodeFrom .taken offset sofar bytes = .ok t) :
    ∃ later : Text, t = sofar.reverse ++ later ∧ (∀ c ∈ later, c < planesEnd) ∧
      bytes = later.flatMap spell := by
  induction offset, sofar, bytes using decodeFrom.induct .taken with
  | case1 offset sofar =>
    rw [decodeFrom] at decoded
    cases decoded
    exact ⟨[], by simp⟩
  | case2 offset sofar lead bytes c width rest found ih =>
    rw [decode_from_next found] at decoded
    obtain ⟨later, rfl, inside, behind⟩ := ih decoded
    obtain ⟨small, spelled⟩ := next_canonical found
    refine ⟨c :: later, by simp, ?_, ?_⟩
    · simpa [small] using inside
    · rw [spelled, List.flatMap_cons, ← behind]
  | case3 offset sofar lead bytes reason width found =>
    rw [decodeFrom] at decoded
    split at decoded <;> rename_i other
    · rw [found] at other
      cases other
    · cases decoded

theorem decode_iff : decode .taken bytes = .ok t ↔
    (∀ c ∈ t, c < planesEnd) ∧ bytes = t.flatMap spell := by
  constructor
  · intro decoded
    obtain ⟨later, rfl, canonical⟩ := decode_from_canonical decoded
    simpa using canonical
  · intro given
    obtain ⟨inside, rfl⟩ := given
    exact decode_from_spell inside

end ClassAtlas.Utf8
