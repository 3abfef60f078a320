import Mathlib.Logic.Relation
import ClassAtlas.Proofs.Survey.Result

/-!
A pool of workers under way. Whoever has nothing in hand may take any job that waits, and any job in
hand may be the next to come back. However it goes, the pool comes to an end, and a survey that
decodes its files with it tells what a survey without a pool tells: the same result and the same log.
-/

namespace ClassAtlas

namespace Pool
variable {α β : Type}

-- The jobs nobody has taken, those in the hands of a worker, and the results that came back, in
-- the order in which they came.
structure Shift (α β : Type) where
  waiting : List (Job α)
  inHand : List (Nat × Job α) := []
  returned : List (Job β) := []

def opening (workers : Nat) (payloads : List α) : Shift α β := { waiting := jobs workers payloads }

inductive Works (f : α → β) (workers : Nat) : Shift α β → Shift α β → Prop where
  | take {s : Shift α β} {worker : Nat} {job : Job α} {before after : List (Job α)}
      (hired : worker < workers) (idle : ∀ held ∈ s.inHand, held.1 ≠ worker)
      (waits : s.waiting = before ++ job :: after) :
      Works f workers s { s with
        waiting := before ++ after
        inHand := (worker, job) :: s.inHand }
  | finish {s : Shift α β} {worker : Nat} {job : Job α} {before after : List (Nat × Job α)}
      (held : s.inHand = before ++ (worker, job) :: after) :
      Works f workers s { s with
        inHand := before ++ after
        returned := s.returned ++ [job.map f] }

-- By any number of steps.
def Leads (f : α → β) (workers : Nat) : Shift α β → Shift α β → Prop :=
  Relation.ReflTransGen (Works f workers)

namespace Shift

def Over (s : Shift α β) : Prop := s.waiting = [] ∧ s.inHand = []

-- A job that waits has two steps ahead of it, and one in hand has one.
def ahead (s : Shift α β) : Nat := 2 * s.waiting.length + s.inHand.length

-- What has come back, and what is still to come.
def results (f : α → β) (s : Shift α β) : List (Job β) :=
  s.waiting.map (·.map f) ++ s.inHand.map (·.2.map f) ++ s.returned

end Shift

variable {f : α → β} {workers : Nat} {payloads : List α} {s next : Shift α β}

theorem works_ahead (works : Works f workers s next) : next.ahead + 1 = s.ahead := by
  cases works with
  | take hired idle waits =>
    simp only [Shift.ahead, waits, List.length_append, List.length_cons]
    omega
  | finish held =>
    simp only [Shift.ahead, held, List.length_append, List.length_cons]
    omega

-- No job gets lost, and none is done twice.
theorem works_results (works : Works f workers s next) : (next.results f).Perm (s.results f) := by
  cases works with
  | @take worker job before after hired idle waits =>
    simp only [Shift.results, waits, List.map_append, List.map_cons, List.append_assoc,
      List.cons_append]
    refine .append_left _ ?_
    exact List.perm_middle
  | @finish worker job before after held =>
    simp only [Shift.results, held, List.map_append, List.map_cons, List.append_assoc,
      List.cons_append]
    refine .append_left _ (.append_left _ ?_)
    have came := List.perm_append_singleton (job.map f) (after.map (·.2.map f) ++ s.returned)
    simpa only [List.append_assoc] using came

theorem leads_results (leads : Leads f workers s next) : (next.results f).Perm (s.results f) := by
  induction leads with
  | refl => exact .refl _
  | tail _ works ih => exact (works_results works).trans ih

-- However the jobs were taken and came back, put together they are all the results in order.
theorem collate_returned (leads : Leads f workers (opening workers payloads) s) (ended : s.Over) :
    collate s.returned = payloads.map f := by
  have all := leads_results leads
  simp only [Shift.results, opening, ended.1, ended.2, List.map_nil, List.nil_append,
    List.append_nil] at all
  exact collate_results workers f payloads all

/-! A pool never gets stuck and never goes on for ever. -/

theorem works_on (hired : 0 < workers) (s : Shift α β) : s.Over ∨ ∃ next, Works f workers s next := by
  cases held : s.inHand with
  | cons first others =>
    have foremost : s.inHand = [] ++ (first.1, first.2) :: others := held
    exact .inr ⟨_, .finish foremost⟩
  | nil =>
    cases waits : s.waiting with
    | cons job jobs =>
      have foremost : s.waiting = [] ++ job :: jobs := waits
      exact .inr ⟨_, .take hired (by simp [held]) foremost⟩
    | nil => exact .inl ⟨waits, held⟩

-- Any worker may be the one who does a job, and the jobs may come back in any order.
theorem turns_lead (turns : List (Nat × Job α)) (hired : ∀ turn ∈ turns, turn.1 < workers)
    (idle : s.inHand = []) (all : (turns.map (·.2)).Perm s.waiting) :
    ∃ last, Leads f workers s last ∧ last.Over ∧
      last.returned = s.returned ++ turns.map (·.2.map f) := by
  induction turns generalizing s with
  | nil => exact ⟨s, .refl, ⟨all.nil_eq.symm, idle⟩, (List.append_nil _).symm⟩
  | cons turn turns ih =>
    obtain ⟨worker, job⟩ := turn
    obtain ⟨before, after, waits⟩ := List.append_of_mem (all.subset List.mem_cons_self)
    have taken : Works f workers s ⟨before ++ after, (worker, job) :: s.inHand, s.returned⟩ :=
      .take (hired _ List.mem_cons_self) (by simp [idle]) waits
    have finished : Works f workers ⟨before ++ after, [] ++ (worker, job) :: s.inHand, s.returned⟩
        ⟨before ++ after, [] ++ s.inHand, s.returned ++ [job.map f]⟩ := .finish rfl
    have rest : (turns.map (·.2)).Perm (before ++ after) := by
      rw [waits] at all
      exact (all.trans List.perm_middle).cons_inv
    obtain ⟨last, leads, ended, returned⟩ := ih
      (s := ⟨before ++ after, s.inHand, s.returned ++ [job.map f]⟩)
      (fun turn member => hired turn (List.mem_cons_of_mem _ member)) idle rest
    refine ⟨last, .head taken (.head finished leads), ended, ?_⟩
    rw [returned, List.map_cons, List.append_assoc]
    rfl

-- One worker can do all the jobs.
theorem opening_leads (f : α → β) (hired : 0 < workers) (payloads : List α) :
    ∃ last, Leads f workers (opening workers payloads) last ∧ last.Over := by
  have same : ((jobs workers payloads).map fun job => (0, job)).map Prod.snd =
      (opening workers payloads : Shift α β).waiting := by
    rw [List.map_map]
    exact List.map_id' _
  have first : ∀ turn ∈ (jobs workers payloads).map fun job => (0, job), turn.1 < workers := by
    simp [hired]
  obtain ⟨last, leads, ended, _⟩ := turns_lead (f := f) _ first rfl (.of_eq same)
  exact ⟨last, leads, ended⟩

end Pool

namespace Survey

-- What the files decode to as it is handed back: of one file after the other where there is no
-- pool, and otherwise whatever a pool has put together when it is over.
inductive HandsBack (workers : Int) (sources : List Source) : List Decoded → Prop where
  | alone (single : workers ≤ 1 ∨ sources.length < 2) :
      HandsBack workers sources (sources.map fun source => ClassInfo.decode source.bytes)
  | pooled {s : Pool.Shift (List UInt8) Decoded} (several : ¬ (workers ≤ 1 ∨ sources.length < 2))
      (leads : Pool.Leads ClassInfo.decode workers.toNat
        (Pool.opening workers.toNat (sources.map (·.bytes))) s)
      (ended : s.Over) : HandsBack workers sources (Pool.collate s.returned)

-- The part of a survey that follows the decoding.
def ofOutcomes (config : Config) (sources : List Source) (outcomes : List Decoded) :
    Telling Result :=
  let decoded := sources.zip outcomes
  let result := ofDecoded config.path decoded
  { log := found config.path sources.length :: complaints decoded ++ [mapped result]
    progress := scanningProgress ++ decodingProgress sources.length
    outcome := result }

-- A survey whose pool, if it has one, went about its jobs in some way or other.
inductive Conducted (config : Config) (tree : FileTree) : Telling (Except Failure Result) → Prop where
  | failed {log : Log} {why : Failure} (collected :
        Sources.collect (.ofPatterns config.skips) tree config.path = (log, .error why)) :
      Conducted config tree
        { log, progress := scanningProgress.take 1, outcome := .error why }
  | finished {log : Log} {sources : List Source} {outcomes : List Decoded} (collected :
        Sources.collect (.ofPatterns config.skips) tree config.path = (log, .ok sources))
      (decoded : HandsBack config.workers sources outcomes) :
      Conducted config tree
        { log := log ++ (ofOutcomes config sources outcomes).log
          progress := (ofOutcomes config sources outcomes).progress
          outcome := .ok (ofOutcomes config sources outcomes).outcome }

variable {config : Config} {tree : FileTree} {log : Log} {workers : Int} {sources : List Source}
  {outcomes : List Decoded}

theorem handed_back (hands : HandsBack workers sources outcomes) :
    outcomes = sources.map fun source => ClassInfo.decode source.bytes := by
  cases hands with
  | alone single => rfl
  | pooled several leads ended =>
    rw [Pool.collate_returned leads ended, List.map_map]
    rfl

theorem hands_back (workers : Int) (sources : List Source) :
    HandsBack workers sources (sources.map fun source => ClassInfo.decode source.bytes) := by
  by_cases single : workers ≤ 1 ∨ sources.length < 2
  · exact .alone single
  · have hired : 0 < workers.toNat := by omega
    obtain ⟨last, leads, ended⟩ :=
      Pool.opening_leads ClassInfo.decode hired (sources.map (·.bytes))
    have hands := HandsBack.pooled single leads ended
    rwa [handed_back hands] at hands

theorem of_sources_outcomes (config : Config) (sources : List Source) : ofSources config sources =
    ofOutcomes config sources (sources.map fun source => ClassInfo.decode source.bytes) := by
  have same : ofSources config sources = ofOutcomes config sources
    (Pool.map config.workers ClassInfo.decode (sources.map (·.bytes))) := rfl
  rw [same, Pool.map_eq, List.map_map]
  rfl

theorem run_collected (config : Config)
    (collected : Sources.collect (.ofPatterns config.skips) tree config.path = (log, .ok sources)) :
    run config tree =
      if Pool.isPossible config.workers sources then
        { log := log ++ (ofSources config sources).log
          progress := (ofSources config sources).progress
          outcome := .ok (ofSources config sources).outcome }
      else
        { log := log ++ [found config.path sources.length]
          progress := scanningProgress
          outcome := .error .tooManyWorkers } := by
  rw [run, collected]

theorem run_uncollected {why : Failure} (config : Config)
    (collected : Sources.collect (.ofPatterns config.skips) tree config.path = (log, .error why)) :
    run config tree = { log, progress := scanningProgress.take 1, outcome := .error why } := by
  rw [run, collected]

-- The number of workers shows nowhere in what a survey tells.
theorem of_sources_alone (config : Config) (sources : List Source) :
    ofSources config sources = ofSources { config with workers := 1 } sources := by
  rw [of_sources_outcomes, of_sources_outcomes]
  rfl

theorem run_alone
    (collected : Sources.collect (.ofPatterns config.skips) tree config.path = (log, .ok sources)) :
    run { config with workers := 1 } tree =
      { log := log ++ (ofSources config sources).log
        progress := (ofSources config sources).progress
        outcome := .ok (ofSources config sources).outcome } := by
  have possible : Pool.isPossible 1 sources = true := rfl
  rw [of_sources_alone]
  exact (run_collected { config with workers := 1 } collected).trans (if_pos possible)

-- However the pool of a survey goes about its jobs, the survey tells what it tells without one.
-- Every way to hand out the jobs and every order in which they come back is possible; no pool gets
-- stuck, and each step leaves less to do. What a survey itself tells is one such telling, unless
-- there is no pool of that size.
theorem pool_unseen (config : Config) (tree : FileTree) :
    let alone := run { config with workers := 1 } tree
    (∀ told, Conducted config tree told → told = alone) ∧
    Conducted config tree alone ∧
    (∀ (workers : Nat) (payloads : List (List UInt8)), 0 < workers →
      let start : Pool.Shift (List UInt8) Decoded := Pool.opening workers payloads
      (∀ turns : List (Nat × Pool.Job (List UInt8)), (∀ turn ∈ turns, turn.1 < workers) →
        (turns.map (·.2)).Perm (Pool.jobs workers payloads) →
        ∃ last, Pool.Leads ClassInfo.decode workers start last ∧ last.Over ∧
          last.returned = turns.map (·.2.map ClassInfo.decode)) ∧
      ∀ s : Pool.Shift (List UInt8) Decoded,
        (s.Over ∨ ∃ next, Pool.Works ClassInfo.decode workers s next) ∧
        ∀ next, Pool.Works ClassInfo.decode workers s next → next.ahead < s.ahead) ∧
    ∀ log sources,
      Sources.collect (.ofPatterns config.skips) tree config.path = (log, .ok sources) →
      run config tree =
        if Pool.isPossible config.workers sources then alone
        else
          { log := log ++ [found config.path sources.length]
            progress := scanningProgress
            outcome := .error .tooManyWorkers } := by
  intro alone
  refine ⟨?_, ?_, ?_, ?_⟩
  · intro told conducted
    cases conducted with
    | failed collected => exact (run_uncollected { config with workers := 1 } collected).symm
    | finished collected decoded =>
      rw [handed_back decoded, ← of_sources_outcomes]
      exact (run_alone collected).symm
  · cases collected : Sources.collect (.ofPatterns config.skips) tree config.path with
    | mk log found =>
      cases found with
      | error why =>
        have same : alone = _ := run_uncollected { config with workers := 1 } collected
        rw [same]
        exact .failed collected
      | ok sources =>
        have same : alone = _ := run_alone collected
        rw [same, of_sources_outcomes]
        exact .finished collected (hands_back config.workers sources)
  · intro workers payloads hired start
    refine ⟨?_, fun s => ⟨Pool.works_on hired s, ?_⟩⟩
    · intro turns each all
      exact Pool.turns_lead turns each rfl all
    · intro next works
      have less := Pool.works_ahead works
      omega
  · intro log sources collected
    rw [run_collected config collected, ← run_alone collected]

end Survey
end ClassAtlas
