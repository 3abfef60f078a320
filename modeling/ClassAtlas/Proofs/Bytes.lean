import ClassAtlas.Bytes

/-!
Numbers and the bytes that spell them, most significant byte first. A number fits a width when
nothing of it is left above that many bytes.
-/

namespace ClassAtlas.Bytes

def Fits : Nat → Nat → Prop
  | 0, n => n = 0
  | width + 1, n => Fits width (n / 256)

def spell : Nat → Nat → List UInt8
  | 0, _ => []
  | width + 1, n => spell width (n / 256) ++ [UInt8.ofNat n]

theorem big_endian_append (bytes : List UInt8) (b : UInt8) :
    bigEndian (bytes ++ [b]) = bigEndian bytes * 256 + b.toNat := by
  unfold bigEndian
  rw [List.foldl_append]
  rfl

@[simp]
theorem spell_length (width n : Nat) : (spell width n).length = width := by
  induction width generalizing n with
  | zero => rfl
  | succ width ih => rw [spell, List.length_append, ih, List.length_singleton]

theorem big_endian_spell {width n : Nat} (fits : Fits width n) :
    bigEndian (spell width n) = n := by
  induction width generalizing n with
  | zero => exact fits.symm
  | succ width ih =>
    have digit : (UInt8.ofNat n).toNat = n % 256 := UInt8.toNat_ofNat'
    rw [spell, big_endian_append, ih fits, digit]
    omega

-- A byte more below what `bytes` spell.
theorem fits_spell_big_endian {width : Nat} (bytes : List UInt8) (length : bytes.length = width) :
    Fits width (bigEndian bytes) ∧ spell width (bigEndian bytes) = bytes := by
  induction width generalizing bytes with
  | zero =>
    cases List.eq_nil_of_length_eq_zero length
    exact ⟨rfl, rfl⟩
  | succ width ih =>
    rcases List.eq_nil_or_concat bytes with rfl | ⟨high, b, rfl⟩
    · cases length
    · rw [List.concat_eq_append] at length ⊢
      have lengthHigh : high.length = width := by simpa using length
      obtain ⟨fits, spelled⟩ := ih high lengthHigh
      have small : b.toNat < 256 := b.toNat_lt
      have above : bigEndian (high ++ [b]) / 256 = bigEndian high := by
        rw [big_endian_append]
        omega
      refine ⟨?_, ?_⟩
      · unfold Fits
        rw [above]
        exact fits
      · rw [spell, above, spelled, big_endian_append]
        congr 2
        apply UInt8.toNat_inj.mp
        rw [UInt8.toNat_ofNat']
        omega

theorem fits_u8 (b : UInt8) : Fits 1 b.toNat := by
  have small : b.toNat < 256 := b.toNat_lt
  change b.toNat / 256 = 0
  omega

theorem fits_two {n : Nat} : Fits 2 n ↔ n < 65536 := by
  change n / 256 / 256 = 0 ↔ n < 65536
  omega

theorem fits_four {n : Nat} : Fits 4 n ↔ n < 4294967296 := by
  change n / 256 / 256 / 256 / 256 = 0 ↔ n < 4294967296
  omega

end ClassAtlas.Bytes
