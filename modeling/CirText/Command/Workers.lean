/-!
# Sharing jobs among workers

Jobs come in a list, and a counter that all workers share gives out their numbers. A worker takes
the number that the counter points at, and the counter moves on in the same step; then the worker
does the job with that number; and so it goes on until it takes a number that no job has, with which
it ends. The workers do not decide whose turn it is to take a step, so what they do is described by
the list of turns. Those that have not ended when the list is used up are waited for. The jobs that
are left then, as when no worker could be started, are done at once, and the results are put into
the order of the jobs.
-/

namespace CirText.Command

variable {α β : Type}

/-- What a worker does at its next turn. -/
inductive Activity (α : Type) where
  /-- It takes a number. -/
  | free
  /-- It does the job whose number it has taken. -/
  | busy (number : Nat) (job : α)
  /-- Nothing, since no job had the number that it took. -/
  | ended

/-- A worker that does jobs of the type `α` with results of the type `β`. -/
structure Worker (α β : Type) where
  /-- What it does next. -/
  activity : Activity α := .free
  /-- What it has done: the numbers of its jobs with their results, the last one first. -/
  results : List (Nat × β) := []

namespace Worker

/-- A worker after it has taken a number. -/
def take (jobs : List α) (number : Nat) (worker : Worker α β) : Worker α β :=
  match jobs[number]? with
  | some job => { worker with activity := .busy number job }
  | none => { worker with activity := .ended }

/-- A worker after it has done a job. -/
def finish (perform : α → β) (number : Nat) (job : α) (worker : Worker α β) : Worker α β :=
  ⟨.free, (number, perform job) :: worker.results⟩

end Worker

/-- Workers that share jobs. -/
structure Pool (workers : Nat) (α β : Type) where
  /-- The number that is taken next. -/
  next : Nat := 0
  /-- The workers. -/
  crew : Fin workers → Worker α β := fun _ => {}

namespace Pool

variable {workers : Nat}

/-- Puts a worker in the place of another one. -/
def set (pool : Pool workers α β) (id : Fin workers) (worker : Worker α β) : Pool workers α β :=
  { pool with crew := fun other => if other = id then worker else pool.crew other }

/-- A turn of a worker. -/
def turn (perform : α → β) (jobs : List α) (pool : Pool workers α β) (id : Fin workers) :
    Pool workers α β :=
  match (pool.crew id).activity with
  | .free =>
    { pool.set id ((pool.crew id).take jobs pool.next) with next := pool.next + 1 }
  | .busy number job => pool.set id ((pool.crew id).finish perform number job)
  | .ended => pool

/-- The jobs whose numbers have not been taken, done at once. -/
def remainder (perform : α → β) (jobs : List α) (pool : Pool workers α β) : List (Nat × β) :=
  (jobs.drop pool.next).zipIdx pool.next |>.map fun (job, number) => (number, perform job)

/-- The results of all jobs in the order of the jobs, once all workers have ended. -/
def collect (perform : α → β) (jobs : List α) (pool : Pool workers α β) : List β :=
  let numbered :=
    ((List.finRange workers).flatMap fun id => (pool.crew id).results) ++
      pool.remainder perform jobs
  (numbered.mergeSort fun a b => a.1 ≤ b.1).map (·.2)

end Pool

/-- Turns in which workers with so many jobs are waited for, one after the other. A worker needs two
turns for each job, one to finish the job that it is busy with, and one to end. -/
def lastTurns (workers jobs : Nat) : List (Fin workers) :=
  (List.finRange workers).flatMap fun id => List.replicate (2 * jobs + 2) id

/-- The results of jobs that are done by workers who take the given turns. -/
def performAll {workers : Nat} (perform : α → β) (jobs : List α) (turns : List (Fin workers)) :
    List β :=
  let pool := (turns ++ lastTurns workers jobs.length).foldl (Pool.turn perform jobs) {}
  pool.collect perform jobs

/-- The number of workers for so many jobs: as many as are wanted, but at least one and, if there is
a job at all, no more than there are jobs. -/
def workerCount (wanted jobs : Nat) : Nat :=
  max 1 (min wanted (max jobs 1))

/-- Turns in rotation, enough of them for so many jobs. -/
def rotation (workers jobs : Nat) : List (Fin workers) :=
  (List.replicate (2 * (jobs / workers + 1)) (List.finRange workers)).flatten

end CirText.Command
