import Mathlib.Data.List.Nodup
import ClassAtlas.Survey.Pool

/-!
Work split over a pool comes back as if it had been done in order. The jobs are the payloads cut
up, each job carries the place it was cut from, and so the results can be put together again
whatever job is finished first.
-/

namespace ClassAtlas.Pool
variable {α β : Type} {size : Nat}

theorem cut_flatten (positive : 0 < size) (payloads : List α) :
    (cut size payloads).flatten = payloads := by
  induction payloads using cut.induct size with
  | case1 payloads stop =>
    have none_left := stop.resolve_left (Nat.ne_of_gt positive)
    rw [cut, if_pos stop, none_left]
    rfl
  | case2 payloads more ih =>
    rw [cut, if_neg more, List.flatten_cons, ih, List.take_append_drop]

theorem job_size_pos (count workers : Nat) : 0 < jobSize count workers :=
  Nat.le_max_left _ _

theorem jobs_payloads (workers : Nat) (payloads : List α) :
    (jobs workers payloads).flatMap (·.payloads) = payloads := by
  have parts := List.zipIdx_map_fst 0 (cut (jobSize payloads.length workers) payloads)
  rw [jobs, List.flatMap_map, List.flatMap, parts]
  exact cut_flatten (job_size_pos _ _) payloads

theorem jobs_ascend (workers : Nat) (payloads : List α) :
    (jobs workers payloads).Pairwise fun a b => a.index < b.index := by
  have places := List.zipIdx_map_snd 0 (cut (jobSize payloads.length workers) payloads)
  have ascend : (((cut (jobSize payloads.length workers) payloads).zipIdx).map Prod.snd).Pairwise
      (· < ·) := by
    rw [places]
    exact List.pairwise_lt_range'
  rw [jobs, List.pairwise_map]
  exact List.pairwise_map.mp ascend

-- Jobs sorted by their places are the jobs in order, since no two have the same place.
theorem collate_finished {jobs finished : List (Job β)}
    (ascend : jobs.Pairwise fun a b => a.index < b.index) (all : finished.Perm jobs) :
    collate finished = jobs.flatMap (·.payloads) := by
  have apart : (jobs.map (·.index)).Nodup :=
    (List.pairwise_map.mpr ascend).imp Nat.ne_of_lt
  have perm : (finished.mergeSort fun a b => a.index ≤ b.index).Perm jobs :=
    (List.mergeSort_perm ..).trans all
  have sorted : (finished.mergeSort fun a b => a.index ≤ b.index).Pairwise
      fun a b => a.index ≤ b.index := by
    refine (List.pairwise_mergeSort ?_ ?_ finished).imp of_decide_eq_true
    · intro a b c first second
      exact decide_eq_true (Nat.le_trans (of_decide_eq_true first) (of_decide_eq_true second))
    · intro a b
      simpa using Nat.le_total a.index b.index
  have equal : (finished.mergeSort fun a b => a.index ≤ b.index) = jobs := by
    refine List.Perm.eq_of_pairwise ?_ sorted (ascend.imp Nat.le_of_lt) perm
    intro a b left right before after
    exact List.inj_on_of_nodup_map apart (perm.subset left) right (Nat.le_antisymm before after)
  rw [collate, equal]

-- The same for the results of the jobs, in whatever order they arrive.
theorem collate_results (workers : Nat) (f : α → β) (payloads : List α) {finished : List (Job β)}
    (all : finished.Perm ((jobs workers payloads).map (·.map f))) :
    collate finished = payloads.map f := by
  have ascend : ((jobs workers payloads).map (Job.map f)).Pairwise fun a b => a.index < b.index :=
    List.pairwise_map.mpr (jobs_ascend workers payloads)
  have results : (jobs workers payloads).flatMap (fun job => job.payloads.map f) =
      ((jobs workers payloads).flatMap (·.payloads)).map f := List.map_flatMap.symm
  rw [collate_finished ascend all, List.flatMap_map]
  exact results.trans (congrArg (List.map f) (jobs_payloads workers payloads))

theorem map_eq (workers : Int) (f : α → β) (payloads : List α) :
    map workers f payloads = payloads.map f := by
  unfold map
  split
  · rfl
  · exact collate_results workers.toNat f payloads (.refl _)

-- Whether a pool can be that large depends on how many payloads there are, not on what they are.
theorem possible_of_length {payloads : List α} {others : List β} (workers : Int)
    (same : payloads.length = others.length) :
    isPossible workers payloads = isPossible workers others := by
  rw [isPossible, isPossible, same]

end ClassAtlas.Pool
