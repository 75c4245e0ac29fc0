/-! # Waiting for several tasks.

All tasks run to their end. Each value goes to the place of its task, so that values come back in the order
of the tasks, whatever order they finished in; of several failures the one that arrived first is kept. -/

namespace SiteServer.Join

variable {ε α : Type}

/-- How far a wait has come: the tasks that still run, a slot for the value of each task, and the failure
that arrived first. -/
structure Wait (ε α : Type) where
  pending : List Nat
  slots : List (Option α)
  failure : Option ε

namespace Wait

def start (count : Nat) : Wait ε α :=
  ⟨List.range count, List.replicate count none, none⟩

/-- A task finishes with a result. A failure counts if it is the first. -/
def finish (wait : Wait ε α) (task : Nat) (result : Except ε α) : Wait ε α :=
  let pending := wait.pending.filter (· ≠ task)
  match result with
  | .ok value => { wait with pending, slots := wait.slots.set task (some value) }
  | .error e => { wait with pending, failure := wait.failure.or (some e) }

/-- The result of a task arrives, if the task still runs. -/
def arrive (results : List (Except ε α)) (wait : Wait ε α) (task : Nat) : Wait ε α :=
  match results[task]? with
  | some result => if task ∈ wait.pending then wait.finish task result else wait
  | none => wait

/-- How far the wait for all tasks has come when some of them have finished, in this order. -/
def after (results : List (Except ε α)) (finished : List Nat) : Wait ε α :=
  finished.foldl (arrive results) (start results.length)

/-- What the slots and the failure come to. -/
def outcome (wait : Wait ε α) : Except ε (List α) :=
  match wait.failure with
  | some e => .error e
  | none => .ok (wait.slots.filterMap id)

/-- The answer to the one who waits; there is none as long as a task runs. -/
def answer? (wait : Wait ε α) : Option (Except ε (List α)) :=
  if wait.pending = [] then some wait.outcome else none

end Wait

/-- Puts the results of all tasks together; `order` lists the tasks as they finished, and a task that
it leaves out finishes after the others. -/
def settle (order : List Nat) (results : List (Except ε α)) : Except ε (List α) :=
  (Wait.after results (order ++ List.range results.length)).outcome

/-- The order in which tasks finish that wait for the given numbers of rounds. -/
def finishingOrder (rounds : List Nat) : List Nat :=
  ((rounds.zipIdx.mergeSort fun a b => a.1 ≤ b.1).map (·.2))

end SiteServer.Join
