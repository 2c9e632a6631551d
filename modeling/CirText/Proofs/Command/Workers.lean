import CirText.Command.Workers
import Mathlib.Data.List.FinRange
import Mathlib.Data.List.Perm.Basic

/-!
# Every job is done once

However workers take turns, and however many there are, every job is done exactly once, and its
result comes in its place. At every moment a job has either been taken by one worker or is left, and
a worker ends after so many turns as there can be steps for it.
-/

namespace CirText.Command

variable {α β : Type} {perform : α → β} {jobs : List α}

/-- The results of jobs with the numbers of the jobs, counted from a first one. -/
def numbered (perform : α → β) (jobs : List α) (first : Nat) : List (Nat × β) :=
  (jobs.zipIdx first).map fun (job, number) => (number, perform job)

/-- What a worker has done, with the job that it is busy with. -/
def Worker.taken (perform : α → β) (worker : Worker α β) : List (Nat × β) :=
  match worker.activity with
  | .busy number job => (number, perform job) :: worker.results
  | .free | .ended => worker.results

namespace Pool

variable {workers : Nat} {pool : Pool workers α β} {id : Fin workers} {worker : Worker α β}

/-! ## No job is lost or done twice -/

/-- What all workers have taken. -/
def taken (perform : α → β) (pool : Pool workers α β) : List (Nat × β) :=
  (List.finRange workers).flatMap fun id => (pool.crew id).taken perform

/-- Whether every job has been taken by one worker or is left. -/
def Complete (perform : α → β) (jobs : List α) (pool : Pool workers α β) : Prop :=
  (pool.taken perform ++ pool.remainder perform jobs).Perm (numbered perform jobs 0)

@[simp]
theorem crew_set (other : Fin workers) :
    (pool.set id worker).crew other = if other = id then worker else pool.crew other :=
  rfl

/-- The workers in front of one and those behind it. -/
theorem exists_finRange_eq (id : Fin workers) :
    ∃ before after, List.finRange workers = before ++ id :: after ∧ id ∉ before ∧ id ∉ after := by
  obtain ⟨before, after, split⟩ := List.append_of_mem (List.mem_finRange id)
  have distinct := List.nodup_finRange workers
  rw [split] at distinct
  have apart := List.nodup_middle.1 distinct
  have notAmong := (List.nodup_cons.1 apart).1
  rw [List.mem_append, not_or] at notAmong
  exact ⟨before, after, split, notAmong⟩

/-- What is taken when a worker is replaced by one that has taken something more, or nothing
more. -/
theorem taken_set {more : List (Nat × β)}
    (takes : worker.taken perform = more ++ (pool.crew id).taken perform) :
    ((pool.set id worker).taken perform).Perm (more ++ pool.taken perform) := by
  obtain ⟨before, after, split, notBefore, notAfter⟩ := exists_finRange_eq id
  have unchanged : ∀ {others : List (Fin workers)}, id ∉ others →
      others.flatMap (fun other => ((pool.set id worker).crew other).taken perform) =
        others.flatMap fun other => (pool.crew other).taken perform := by
    intro others absent
    apply List.flatMap_congr
    intro other member
    have apart : other ≠ id := fun same => absent (same ▸ member)
    rw [crew_set, if_neg apart]
  rw [taken, taken, split, List.flatMap_append, List.flatMap_append, List.flatMap_cons,
    List.flatMap_cons, unchanged notBefore, unchanged notAfter, crew_set, if_pos rfl, takes,
    List.append_assoc]
  exact List.perm_append_comm_assoc _ _ _

theorem remainder_of_some {job : α} (left : jobs[pool.next]? = some job) :
    pool.remainder perform jobs =
      (pool.next, perform job) :: numbered perform (jobs.drop (pool.next + 1)) (pool.next + 1) := by
  obtain ⟨inside, rfl⟩ := List.getElem?_eq_some_iff.1 left
  rw [remainder, List.drop_eq_getElem_cons inside]
  rfl

theorem remainder_of_none (none : jobs[pool.next]? = none) : pool.remainder perform jobs = [] := by
  rw [remainder, List.drop_eq_nil_of_le (List.getElem?_eq_none_iff.1 none)]
  rfl

/-- A turn keeps account of every job. -/
theorem Complete.turn (complete : pool.Complete perform jobs) (id : Fin workers) :
    (pool.turn perform jobs id).Complete perform jobs := by
  apply List.Perm.trans _ complete
  unfold Pool.turn
  cases activity : (pool.crew id).activity with
  | free =>
    have before : (pool.crew id).taken perform = (pool.crew id).results := by
      rw [Worker.taken, activity]
    cases left : jobs[pool.next]? with
    | some job =>
      have takes : ((pool.crew id).take jobs pool.next).taken perform =
          [(pool.next, perform job)] ++ (pool.crew id).taken perform := by
        rw [before, Worker.take, left]
        rfl
      rw [remainder_of_some left]
      exact ((taken_set takes).append_right _).trans List.perm_middle.symm
    | none =>
      have takes : ((pool.crew id).take jobs pool.next).taken perform =
          [] ++ (pool.crew id).taken perform := by
        rw [before, Worker.take, left]
        rfl
      have beyond : jobs.drop (pool.next + 1) = [] := by
        rw [List.drop_eq_nil_iff]
        exact Nat.le_succ_of_le (List.getElem?_eq_none_iff.1 left)
      rw [remainder_of_none left, remainder]
      simp only [beyond, List.zipIdx_nil, List.map_nil]
      exact (taken_set takes).append_right _
  | busy number job =>
    have takes : ((pool.crew id).finish perform number job).taken perform =
        [] ++ (pool.crew id).taken perform := by
      rw [Worker.taken, Worker.taken, activity]
      rfl
    exact (taken_set takes).append_right _
  | ended => exact .refl _

/-- At the start all jobs are left. -/
theorem complete_start : ({} : Pool workers α β).Complete perform jobs := by
  have nothing : ({} : Pool workers α β).taken perform = [] :=
    List.flatMap_eq_nil_iff.2 fun _ _ => rfl
  rw [Complete, nothing]
  exact .refl _

/-- Any turns keep account of every job. -/
theorem Complete.turns (complete : pool.Complete perform jobs) (turns : List (Fin workers)) :
    (turns.foldl (Pool.turn perform jobs) pool).Complete perform jobs := by
  induction turns generalizing pool with
  | nil => exact complete
  | cons id turns ih => exact ih (complete.turn id)

/-! ## Every worker ends -/

/-- How many turns a worker can have at most until it ends. -/
def turnsLeft (jobs : List α) (pool : Pool workers α β) (id : Fin workers) : Nat :=
  match (pool.crew id).activity with
  | .free => 2 * (jobs.length - pool.next) + 1
  | .busy _ _ => 2 * (jobs.length - pool.next) + 2
  | .ended => 0

theorem turnsLeft_le (pool : Pool workers α β) (id : Fin workers) :
    pool.turnsLeft jobs id ≤ 2 * jobs.length + 2 := by
  unfold turnsLeft
  split <;> omega

theorem turnsLeft_eq_zero_iff : pool.turnsLeft jobs id = 0 ↔ (pool.crew id).activity = .ended := by
  unfold turnsLeft
  split <;> simp_all

/-- The counter moves on or stays. -/
theorem next_le_turn (id : Fin workers) : pool.next ≤ (pool.turn perform jobs id).next := by
  unfold Pool.turn
  split
  · exact Nat.le_succ _
  · exact Nat.le_refl _
  · exact Nat.le_refl _

/-- A worker comes nearer to its end by a turn of its own. -/
theorem turnsLeft_turn_self (id : Fin workers) :
    (pool.turn perform jobs id).turnsLeft jobs id ≤ pool.turnsLeft jobs id - 1 := by
  unfold Pool.turn
  cases activity : (pool.crew id).activity with
  | free =>
    cases left : jobs[pool.next]? with
    | some job =>
      obtain ⟨inside, _⟩ := List.getElem?_eq_some_iff.1 left
      simp only [turnsLeft, activity, crew_set, if_pos, Worker.take, left]
      omega
    | none =>
      simp only [turnsLeft, activity, crew_set, if_pos, Worker.take, left]
      exact Nat.zero_le _
  | busy number job =>
    simp only [turnsLeft, activity, crew_set, if_pos, Worker.finish]
    exact Nat.le_refl _
  | ended =>
    simp only [turnsLeft, activity]
    exact Nat.zero_le _

/-- A worker does not come further from its end by a turn of another one. -/
theorem turnsLeft_turn_other {other : Fin workers} (apart : other ≠ id) :
    (pool.turn perform jobs id).turnsLeft jobs other ≤ pool.turnsLeft jobs other := by
  have onward : pool.next ≤ (pool.turn perform jobs id).next := next_le_turn id
  have same : (pool.turn perform jobs id).crew other = pool.crew other := by
    unfold Pool.turn
    split
    · exact if_neg apart
    · exact if_neg apart
    · rfl
  rw [turnsLeft, turnsLeft, same]
  cases (pool.crew other).activity with
  | free => simp only; omega
  | busy number job => simp only; omega
  | ended => exact Nat.le_refl _

/-- A worker comes nearer to its end by each of its turns among others. -/
theorem turnsLeft_turns (turns : List (Fin workers)) :
    (turns.foldl (Pool.turn perform jobs) pool).turnsLeft jobs id ≤
      pool.turnsLeft jobs id - turns.count id := by
  induction turns generalizing pool with
  | nil => exact Nat.le_refl _
  | cons first turns ih =>
    apply Nat.le_trans ih
    by_cases same : first = id
    · have nearer : (pool.turn perform jobs id).turnsLeft jobs id ≤ pool.turnsLeft jobs id - 1 :=
        turnsLeft_turn_self id
      rw [same, List.count_cons_self]
      omega
    · have nearer : (pool.turn perform jobs first).turnsLeft jobs id ≤ pool.turnsLeft jobs id :=
        turnsLeft_turn_other (Ne.symm same)
      rw [List.count_cons_of_ne same]
      omega

/-- Workers that are waited for have ended. -/
theorem ended_lastTurns (id : Fin workers) :
    (((lastTurns workers jobs.length).foldl (Pool.turn perform jobs) pool).crew id).activity =
      .ended := by
  have waited : (List.replicate (2 * jobs.length + 2) id).Sublist
      (lastTurns workers jobs.length) := by
    obtain ⟨before, after, split, _, _⟩ := exists_finRange_eq id
    rw [lastTurns, split, List.flatMap_append, List.flatMap_cons]
    exact (List.sublist_append_left _ _).trans (List.sublist_append_right _ _)
  have often : 2 * jobs.length + 2 ≤ (lastTurns workers jobs.length).count id := by
    have counted := waited.count_le id
    rwa [List.count_replicate_self] at counted
  have atMost : pool.turnsLeft jobs id ≤ 2 * jobs.length + 2 := turnsLeft_le pool id
  have enough := Nat.sub_eq_zero_of_le (Nat.le_trans atMost often)
  exact turnsLeft_eq_zero_iff.1 (Nat.le_zero.1 (enough ▸ turnsLeft_turns _))

/-! ## The order of the results -/

/-- The numbers of jobs ascend. -/
theorem pairwise_numbered (perform : α → β) (jobs : List α) (first : Nat) :
    (numbered perform jobs first).Pairwise fun a b => a.1 < b.1 := by
  induction jobs generalizing first with
  | nil => exact .nil
  | cons job jobs ih =>
    refine .cons ?_ (ih (first + 1))
    intro later member
    obtain ⟨⟨other, number⟩, listed, rfl⟩ := List.mem_map.1 member
    exact (List.mem_zipIdx listed).1

theorem map_numbered (perform : α → β) (jobs : List α) (first : Nat) :
    (numbered perform jobs first).map (·.2) = jobs.map perform := by
  induction jobs generalizing first with
  | nil => rfl
  | cons job jobs ih =>
    rw [List.map_cons, ← ih (first + 1)]
    rfl

/-- Sorting by number puts results into the order of the jobs. -/
theorem mergeSort_numbered {results : List (Nat × β)} {first : Nat}
    (all : results.Perm (numbered perform jobs first)) :
    (results.mergeSort fun a b => a.1 ≤ b.1) = numbered perform jobs first := by
  have ascending := pairwise_numbered perform jobs first
  have sorted : (results.mergeSort fun a b => a.1 ≤ b.1).Pairwise fun a b => a.1 ≤ b.1 := by
    refine (List.pairwise_mergeSort ?_ ?_ results).imp of_decide_eq_true
    · intro a b c
      simpa only [decide_eq_true_eq] using Nat.le_trans
    · intro a b
      simpa only [Bool.or_eq_true, decide_eq_true_eq] using Nat.le_total a.1 b.1
  have perm : (results.mergeSort fun a b => a.1 ≤ b.1).Perm (numbered perform jobs first) :=
    (List.mergeSort_perm _ _).trans all
  refine perm.eq_of_pairwise ?_ sorted (ascending.imp Nat.le_of_lt)
  -- No two jobs have the same number.
  intro a b inSorted inOrder below above
  have distinct : ((numbered perform jobs first).map (·.1)).Nodup :=
    (List.pairwise_map.2 ascending).imp Nat.ne_of_lt
  exact List.inj_on_of_nodup_map distinct (perm.mem_iff.1 inSorted) inOrder
    (Nat.le_antisymm below above)

/-- Once all workers have ended, the results of all jobs come in the order of the jobs. -/
theorem Complete.collect (complete : pool.Complete perform jobs)
    (ended : ∀ id, (pool.crew id).activity = .ended) :
    pool.collect perform jobs = jobs.map perform := by
  have done : pool.taken perform =
      (List.finRange workers).flatMap fun id => (pool.crew id).results := by
    apply List.flatMap_congr
    intro id _
    rw [Worker.taken, ended id]
  rw [Complete, done] at complete
  rw [Pool.collect, mergeSort_numbered complete, map_numbered]

end Pool

/-- However many workers there are and however they take turns, the results are those of the jobs in
their order. -/
theorem performAll_eq_map {workers : Nat} (perform : α → β) (jobs : List α)
    (turns : List (Fin workers)) : performAll perform jobs turns = jobs.map perform := by
  rw [performAll, List.foldl_append]
  exact ((Pool.complete_start.turns turns).turns _).collect fun id => Pool.ended_lastTurns id

end CirText.Command
