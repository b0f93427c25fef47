import EntityIndex.Model.Error

/-!
# Computations over a world

The stateful parts of the index (stores, activated buckets, queues) are written as
computations over a world `W` that may fail. A failure does not undo what happened before it:
a write that failed after the in-memory state changed leaves the change in memory, and a fault
rule that counted down stays counted down. So the error layer sits above the state layer:
`Run W α` is `ExceptT Error (StateM W) α`.
-/

namespace EntityIndex

/-- A computation over a world `W` that may fail, keeping its changes to `W` when it does. -/
abbrev Run (W α : Type) := ExceptT Error (StateM W) α

namespace Run

/-- Run a computation from a world: its result and the world after it. -/
def exec {W α : Type} (m : Run W α) (w : W) : Except Error α × W :=
  (m.run).run w

/-- Run a computation on one part of a larger world. -/
def zoom {W V α : Type} (view : W → V) (update : W → V → W) (m : Run V α) : Run W α := do
  let w ← get
  let (r, v) := exec m (view w)
  set (update w v)
  match r with
  | .ok a => pure a
  | .error e => throw e

/-- Lift a result that needs no world. -/
def lift {W α : Type} : Except Error α → Run W α
  | .ok a => pure a
  | .error e => throw e

/-- Run a computation and catch its failure, keeping its changes either way. -/
def attempt {W α : Type} (m : Run W α) : Run W (Except Error α) :=
  tryCatch (m.map .ok) (fun e => pure (.error e))

/-- Run computations in order, each regardless of the others' failures; the failures in order. -/
def attemptAll {W : Type} : List (Run W Unit) → Run W (List Error)
  | [] => pure []
  | m :: ms => do
    let r ← attempt m
    let es ← attemptAll ms
    match r with
    | .ok () => pure es
    | .error e => pure (e :: es)

/-- Retries after a failed first try: `left` more tries, failing with the last error as a
persistence failure of `name` after `total` tries. -/
def retryRest {W α : Type} (total : Nat) (name : String) (step : Run W α) : Nat → Error → Run W α
  | 0, e => throw (.persistence name total e)
  | left + 1, _ => tryCatch step (retryRest total name step left)

/-- Try a store operation on `name` up to `attempts` times, at least once: a count below one
tries once. -/
def retry {W α : Type} (attempts : Int) (name : String) (step : Run W α) : Run W α :=
  let total := max attempts.toNat 1
  tryCatch step (retryRest total name step (total - 1))

end Run

end EntityIndex
