import EntityIndex.Cluster.Entities

/-!
# Draining the queues of a cluster

A draining queue runs passes: a pass takes every queued record that is not migrating, hands
them to the handler of the queue's interface, and on success drops them from the queue and
writes its log; a failed pass leaves them queued, to be taken again by the next pass.

A pass sends its confirmations and does not wait for them; they are delivered when something
waits for the handlers. A flush does: the confirmations sent before it are delivered while it
waits, and those of its own passes after each round.

Flushing runs passes until every draining queue is empty, queue by queue in address order and
again while some queue received records meanwhile. Passes that keep failing, or records that no
pass can take, make the flush give up after a bounded number of tries, as a deadline would.
-/

namespace EntityIndex.Cluster

open EntityIndex.Workflow

namespace World

/-- The failure of a flush that gave up. -/
def deadlineExceeded : Error := .fault .timeout "context deadline exceeded"

/-- Passes tried per queue before a flush gives up on it. -/
def passTries : Nat := 16

/-- Rounds over all queues before a flush gives up. -/
def flushRounds : Nat := 64

/-- Keep the confirmations a pass over entities of a type sent, to be delivered later. -/
def keepSent (typeName : String) (cs : List (EntityRef × List Uuid)) : Run World Unit :=
  modify fun w => { w with sent := w.sent ++ [(typeName, cs)] }

/-- Deliver every confirmation sent so far, in the order they were sent. -/
def deliverSent : Run World Unit := do
  let sent := (← get).sent
  modify fun w => { w with sent := [] }
  sent.forM fun p => PassHandler.confirm (entitiesOf p.1) p.2

/-- Run a pass over a batch of records with the handler of the queue's interface. -/
def handleBatch (qualified : String) (records : List WorkflowRecord) : Run World Unit := do
  match (← get).handlerOf qualified with
  | some (typeName, h) => keepSent typeName (← h.sendPass (entitiesOf typeName) records)
  | none => throw (.context ("interface " ++ qualified) Error.notFound)

/-- Run one pass of an active queue: none when no pass can start, else whether it succeeded. -/
def pass (id : String) : Run World (Option Bool) := do
  let a ← parseQueueId id
  match (← queueAt id).startPass with
  | (none, _) => pure none
  | (some batch, q) =>
    setQueue q
    match ← Run.attempt (handleBatch a.iface batch) with
    | .ok () =>
      let q := (← queueAt id).finishPass true
      setQueue q
      match ← Run.attempt (onStore q.save) with
      | .ok () => pure (some true)
      | .error _ => pure (some false)
    | .error _ =>
      setQueue ((← queueAt id).finishPass false)
      pure (some false)

/-- Run passes of a queue until it is empty, at most `n` of them; whether it is empty. -/
def drainQueue : Nat → String → Run World Bool
  | 0, id => do pure (← queueAt id).records.isEmpty
  | n + 1, id => do
    if (← queueAt id).records.isEmpty then return true
    match ← pass id with
    | none => pure false
    | some _ => drainQueue n id

/-- Drain the queues of one round in order; whether all were idle, or none when one could not
be emptied. -/
def drainRound : List String → Run World (Option Bool)
  | [] => pure (some true)
  | id :: rest => do
    match (← get).queue? id with
    | none => drainRound rest
    | some q =>
      if q.records.isEmpty then drainRound rest
      else if ← drainQueue passTries id then
        pure ((← drainRound rest).map fun _ => false)
      else pure none

/-- Run rounds until every draining queue is empty, at most `n` of them; after each round the
confirmations of its passes are delivered. -/
def flushFor : Nat → Run World Unit
  | 0 => throw deadlineExceeded
  | n + 1 => do
    match ← drainRound (← get).liveQueues with
    | none => throw deadlineExceeded
    | some idle =>
      deliverSent
      if idle then pure () else flushFor n

/-- Run passes until every draining queue is empty; the confirmations sent before are delivered
first, while the flush waits. -/
def flush : Run World Unit := do
  deliverSent
  flushFor flushRounds

end World

end EntityIndex.Cluster
