/-!
Reading compressed data. A reader takes something from what is left of the data, or shows that the
data is at its end or corrupt. What is left has a size, which no reader raises: the loops over
readers end by it.
-/

namespace ClassAtlas.Compression

inductive Stop where
  | truncated
  | corrupt
  deriving DecidableEq

-- How the reading of the data came to its end.
inductive Ending where
  | finished
  | truncated
  | corrupt
  deriving DecidableEq

def Stop.ending : Stop → Ending
  | .truncated => .truncated
  | .corrupt => .corrupt

-- The output is kept also when the data ends early.
structure Unpacked where
  output : Array UInt8
  ending : Ending

-- So many bytes, each the one that came so far before it.
def repeatFrom (distance : Nat) : (count : Nat) → Array UInt8 → Array UInt8
  | 0, output => output
  | count + 1, output =>
    repeatFrom distance count (output.push (output.getD (output.size - distance) 0))

class Sized (σ : Type) where
  size : σ → Nat

open Sized (size)

abbrev Reader (σ : Type) := StateT σ (Except Stop)

namespace Reader
variable {σ α β : Type}

def stop (why : Stop) : Reader σ α := fun _ => .error why

def ensure (condition : Bool) : Reader σ Unit := if condition then return () else stop .corrupt

def orCorrupt : Option α → Reader σ α
  | some value => return value
  | none => stop .corrupt

-- One reader after the other, and what each of them reads.
def each : List (Reader σ α) → Reader σ (List α)
  | [] => return []
  | reader :: readers => do
    let value ← reader
    return value :: (← each readers)

def times (reader : Reader σ α) (count : Nat) : Reader σ (List α) :=
  each (List.replicate count reader)

variable {reader : Reader σ α} {f : α → Reader σ β}

theorem bind_parts {s later : σ} {value : β} (ran : (reader >>= f) s = .ok (value, later)) :
    ∃ middle between, reader s = .ok (middle, between) ∧ f middle between = .ok (value, later) := by
  simp only [bind, StateT.bind, Except.bind] at ran
  cases first : reader s with
  | error why => rw [first] at ran; cases ran
  | ok result =>
    rw [first] at ran
    exact ⟨result.1, result.2, rfl, ran⟩

variable [Sized σ]

-- A reader that never ends with more than it was given.
def Consumes (reader : Reader σ α) : Prop :=
  ∀ s value later, reader s = .ok (value, later) → size later ≤ size s

-- A reader that always ends with less than it was given.
def Shortens (reader : Reader σ α) : Prop :=
  ∀ s value later, reader s = .ok (value, later) → size later < size s

theorem Shortens.consumes (shortens : Shortens reader) : Consumes reader :=
  fun s value later ran => Nat.le_of_lt (shortens s value later ran)

theorem consumes_pure (value : α) : Consumes (pure value : Reader σ α) := by
  intro s _ later ran
  cases ran
  exact Nat.le_refl _

theorem consumes_stop (why : Stop) : Consumes (stop why : Reader σ α) := by
  intro s value later ran
  cases ran

theorem consumes_bind (first : Consumes reader) (second : ∀ value, Consumes (f value)) :
    Consumes (reader >>= f) := by
  intro s value later ran
  obtain ⟨middle, between, read, rest⟩ := bind_parts ran
  exact Nat.le_trans (second _ _ _ _ rest) (first _ _ _ read)

theorem shortens_bind (first : Shortens reader) (second : ∀ value, Consumes (f value)) :
    Shortens (reader >>= f) := by
  intro s value later ran
  obtain ⟨middle, between, read, rest⟩ := bind_parts ran
  exact Nat.lt_of_le_of_lt (second _ _ _ _ rest) (first _ _ _ read)

theorem consumes_ensure (condition : Bool) : Consumes (ensure condition : Reader σ Unit) := by
  unfold ensure
  split
  · exact consumes_pure ()
  · exact consumes_stop _

theorem consumes_or_corrupt (value : Option α) : Consumes (orCorrupt value : Reader σ α) := by
  cases value with
  | some value => exact consumes_pure value
  | none => exact consumes_stop _

theorem consumes_each {readers : List (Reader σ α)} (all : ∀ reader ∈ readers, Consumes reader) :
    Consumes (each readers) := by
  induction readers with
  | nil => exact consumes_pure []
  | cons reader readers ih =>
    exact consumes_bind (all reader List.mem_cons_self) fun value =>
      consumes_bind (ih fun other later => all other (.tail _ later)) fun values => consumes_pure _

theorem consumes_times (once : Consumes reader) (count : Nat) : Consumes (times reader count) :=
  consumes_each fun _ member => (List.eq_of_mem_replicate member) ▸ once

end Reader
end ClassAtlas.Compression
