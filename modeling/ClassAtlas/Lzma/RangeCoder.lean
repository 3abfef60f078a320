import ClassAtlas.Compression.Basic

/-!
Bits that take as little room as they are likely. The data is a place in a range, and each bit is a
part of it, the larger the more likely; the part that the place is in becomes the range. Bytes are
read only to see the place more closely.
-/

namespace ClassAtlas.Lzma

open Compression
open Sized (size)

def parts : Nat := 2048

-- How likely a zero is. Neither bit is ever certain, so that every bit makes the range smaller.
structure Chance where
  ofZero : Nat
  zero_possible : 0 < ofZero
  one_possible : ofZero < parts

namespace Chance

def even : Chance where
  ofZero := 1024
  zero_possible := by decide
  one_possible := by decide

def afterZero (c : Chance) : Chance where
  ofZero := c.ofZero + (parts - c.ofZero) / 32
  zero_possible := Nat.add_pos_left c.zero_possible _
  one_possible := by
    have := c.one_possible
    omega

def afterOne (c : Chance) : Chance where
  ofZero := c.ofZero - c.ofZero / 32
  zero_possible := by
    have := c.zero_possible
    omega
  one_possible := Nat.lt_of_le_of_lt (Nat.sub_le _ _) c.one_possible

end Chance

structure Coder where
  range : Nat
  place : Nat
  rest : List UInt8
  -- by what is decided
  chances : Array Chance

namespace Coder

def words : Nat := 0x100000000

instance : Sized Coder where
  size c := words * c.rest.length + c.range

def narrow : Nat := 0x1000000

-- A narrow range is widened by the next byte, and place with it.
def widen (chances : Array Chance) (range place : Nat) : List UInt8 → Option Coder
  | [] => if range < narrow then none else some ⟨range, place, [], chances⟩
  | b :: rest =>
    if range < narrow then widen chances (256 * range) ((256 * place + b.toNat) % words) rest
    else some ⟨range, place, b :: rest, chances⟩

theorem widen_size {chances : Array Chance} {range place : Nat} {rest : List UInt8} {c : Coder}
    (wide : widen chances range place rest = some c) :
    size c ≤ words * rest.length + range ∧ narrow ≤ c.range := by
  induction rest generalizing range place with
  | nil =>
    unfold widen at wide
    split at wide
    · cases wide
    · rename_i enough
      cases wide
      exact ⟨Nat.le_refl _, Nat.not_lt.mp enough⟩
  | cons b rest ih =>
    unfold widen at wide
    split at wide
    · rename_i less
      obtain ⟨smaller, enough⟩ := ih wide
      refine ⟨Nat.le_trans smaller ?_, enough⟩
      rw [List.length_cons]
      unfold narrow at less
      unfold words
      omega
    · rename_i enough
      cases wide
      exact ⟨Nat.le_refl _, Nat.not_lt.mp enough⟩

def wide? (c : Coder) : Option Coder := widen c.chances c.range c.place c.rest

theorem narrowed_size {c wide next : Coder} (found : c.wide? = some wide)
    (bytes : next.rest = wide.rest) (smaller : next.range < wide.range) : size next < size c := by
  have := (widen_size found).1
  simp only [size, bytes] at this ⊢
  omega

-- A bit of which it is known how likely it is, where that is told by the bits decided like it.
def bit (context : Nat) : Reader Coder Nat := fun c =>
  match c.wide? with
  | none => .error .truncated
  | some c =>
    let chance := c.chances.getD context .even
    let bound := c.range / parts * chance.ofZero
    if c.place < bound then
      .ok (0, { c with
        range := bound
        chances := c.chances.setIfInBounds context chance.afterZero })
    else
      .ok (1, { c with
        range := c.range - bound
        place := c.place - bound
        chances := c.chances.setIfInBounds context chance.afterOne })

theorem bound_inside {range : Nat} (wide : narrow ≤ range) (chance : Chance) :
    0 < range / parts * chance.ofZero ∧ range / parts * chance.ofZero < range := by
  have some_range : 0 < range / parts := by
    unfold narrow at wide
    unfold parts
    omega
  constructor
  · exact Nat.mul_pos some_range chance.zero_possible
  · calc range / parts * chance.ofZero
        < range / parts * parts := Nat.mul_lt_mul_of_pos_left chance.one_possible some_range
      _ ≤ range := Nat.div_mul_le_self ..

theorem shortens_bit (context : Nat) : Reader.Shortens (bit context) := by
  intro c value later ran
  unfold bit at ran
  split at ran
  · cases ran
  · rename_i wide found
    obtain ⟨positive, less⟩ := bound_inside (widen_size found).2 (wide.chances.getD context .even)
    dsimp only at ran
    split at ran
    · cases ran
      exact narrowed_size found rfl less
    · cases ran
      exact narrowed_size found rfl (Nat.sub_lt (Nat.lt_trans positive less) positive)

-- A bit that is as likely a one as a zero. Places are words, and one behind the range may be left.
def evenBit : Reader Coder Nat := fun c =>
  match c.wide? with
  | none => .error .truncated
  | some c =>
    let half := c.range / 2
    let beyond := (c.place + words - half) % words
    if words / 2 ≤ beyond then .ok (0, { c with range := half })
    else .ok (1, { c with range := half, place := beyond })

theorem shortens_even_bit : Reader.Shortens evenBit := by
  intro c value later ran
  unfold evenBit at ran
  split at ran
  · cases ran
  · rename_i wide found
    have enough := (widen_size found).2
    unfold narrow at enough
    have less : wide.range / 2 < wide.range := by omega
    dsimp only at ran
    split at ran
    · cases ran
      exact narrowed_size found rfl less
    · cases ran
      exact narrowed_size found rfl less

-- The data ends where the place is the start of the range.
def finish : Reader Coder Unit := fun c =>
  match c.wide? with
  | none => .error .truncated
  | some c => if c.place = 0 then .ok ((), c) else .error .corrupt

theorem consumes_finish : Reader.Consumes finish := by
  intro c value later ran
  unfold finish at ran
  split at ran
  · cases ran
  · rename_i wide found
    split at ran
    · cases ran
      exact (widen_size found).1
    · cases ran

-- So many bits, the highest first, each decided by those before it.
def tree (base : Nat) : (left node : Nat) → Reader Coder Nat
  | 0, node => return node
  | left + 1, node => do
    let value ← bit (base + node)
    tree base left (2 * node + value)

theorem consumes_tree (base left node : Nat) : Reader.Consumes (tree base left node) := by
  induction left generalizing node with
  | zero => exact Reader.consumes_pure _
  | succ left ih => exact Reader.consumes_bind (shortens_bit _).consumes fun value => ih _

-- The same, the lowest first.
def lowFirst (base : Nat) : (left node : Nat) → Reader Coder Nat
  | 0, _ => return 0
  | left + 1, node => do
    let low ← bit (base + node)
    return low + 2 * (← lowFirst base left (2 * node + low))

theorem consumes_low_first (base left node : Nat) : Reader.Consumes (lowFirst base left node) := by
  induction left generalizing node with
  | zero => exact Reader.consumes_pure _
  | succ left ih =>
    exact Reader.consumes_bind (shortens_bit _).consumes fun low =>
      Reader.consumes_bind (ih _) fun _ => Reader.consumes_pure _

def number (count : Nat) : Reader Coder Nat := do
  return (← Reader.times evenBit count).foldl (fun n bit => 2 * n + bit) 0

theorem consumes_number (count : Nat) : Reader.Consumes (number count) :=
  Reader.consumes_bind (Reader.consumes_times shortens_even_bit.consumes count) fun _ =>
    Reader.consumes_pure _

end Coder
end ClassAtlas.Lzma
