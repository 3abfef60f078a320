import ClassAtlas.Compression.Basic

/-!
Compressed data as bits, the least significant bit of each byte first.
-/

namespace ClassAtlas.Compression

open Sized (size)

structure Bits where
  current : Nat := 0
  ahead : Nat := 0
  rest : List UInt8

namespace Bits

instance : Sized Bits where
  size bits := bits.ahead + 8 * bits.rest.length

def next? (bits : Bits) : Option (Nat × Bits) :=
  match bits.ahead with
  | ahead + 1 => some (bits.current % 2, { bits with current := bits.current / 2, ahead })
  | 0 =>
    match bits.rest with
    | [] => none
    | b :: rest => some (b.toNat % 2, ⟨b.toNat / 2, 7, rest⟩)

theorem next_size {bits later : Bits} {bit : Nat} (h : bits.next? = some (bit, later)) :
    size bits = size later + 1 := by
  unfold next? at h
  split at h
  · rename_i ahead found
    cases h
    simp only [size, found]
    omega
  · rename_i found
    split at h
    · cases h
    · rename_i b rest bytes
      cases h
      simp only [size, found, bytes, List.length_cons]
      omega

end Bits

namespace Reader

def bit : Reader Bits Nat := fun bits =>
  match bits.next? with
  | some result => .ok result
  | none => .error .truncated

-- A number of so many bits, the least significant one first.
def number : Nat → Reader Bits Nat
  | 0 => return 0
  | count + 1 => do
    let low ← bit
    return low + 2 * (← number count)

theorem shortens_bit : Shortens bit := by
  intro bits value later ran
  unfold bit at ran
  split at ran
  · rename_i found
    cases ran
    have := Bits.next_size found
    omega
  · cases ran

theorem consumes_number (count : Nat) : Consumes (number count) := by
  induction count with
  | zero => exact consumes_pure 0
  | succ count ih =>
    exact consumes_bind shortens_bit.consumes fun low =>
      consumes_bind ih fun high => consumes_pure _

theorem shortens_number (count : Nat) : Shortens (number (count + 1)) :=
  shortens_bind shortens_bit fun _ => consumes_bind (consumes_number count) fun _ => consumes_pure _

end Reader
end ClassAtlas.Compression
