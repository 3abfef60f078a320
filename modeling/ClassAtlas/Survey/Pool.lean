/-!
Work split over a pool of workers. Payloads are cut into consecutive jobs, jobs may finish in
any order, and their results are put together again by the order in which they were handed in.
-/

namespace ClassAtlas.Pool

-- A few jobs for each worker, and never an empty one.
def jobSize (count workers : Nat) : Nat := max 1 (count / (workers * 4))

def cut {α : Type} (size : Nat) (payloads : List α) : List (List α) :=
  if size = 0 ∨ payloads = [] then []
  else payloads.take size :: cut size (payloads.drop size)
  termination_by payloads.length
  decreasing_by
    rename_i nonempty
    rw [not_or] at nonempty
    have := List.length_pos_iff.mpr nonempty.2
    simp only [List.length_drop]
    omega

structure Job (α : Type) where
  index : Nat
  payloads : List α

def jobs {α : Type} (workers : Nat) (payloads : List α) : List (Job α) :=
  (cut (jobSize payloads.length workers) payloads).zipIdx.map fun entry => ⟨entry.2, entry.1⟩

def Job.map {α β : Type} (f : α → β) (job : Job α) : Job β := ⟨job.index, job.payloads.map f⟩

def collate {β : Type} (finished : List (Job β)) : List β :=
  (finished.mergeSort fun a b => a.index ≤ b.index).flatMap (·.payloads)

-- The queue that feeds the workers has one place more than there are of them, and counts its
-- places in 32 bits with a sign. A single payload needs no queue.
def mostWorkers : Int := 0x7FFFFFFE

def isPossible {α : Type} (workers : Int) (payloads : List α) : Bool :=
  workers ≤ mostWorkers || payloads.length < 2

def map {α β : Type} (workers : Int) (f : α → β) (payloads : List α) : List β :=
  if workers ≤ 1 ∨ payloads.length < 2 then payloads.map f
  else collate ((jobs workers.toNat payloads).map (·.map f))

end ClassAtlas.Pool
