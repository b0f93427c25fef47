import EntityIndex.Store.Documents
import EntityIndex.Store.Forms
import EntityIndex.Workflow.QueueId

/-!
# Workflow queues

A queue is the durable log of workflow records of one interface shard. Records are appended in
order, each identifier at most once, and the log is written after every change. A pass hands
every queued record that is not being migrated to the handler; when the handler succeeds the
records of the pass leave the log, when it fails they stay for a later pass.

Recovery moves records between queues: `pendingIn` hands out the records with given identifiers
that the running pass does not hold, marking them as migrating so no pass picks them up, and
reports the identifiers the running pass holds as in flight; `release` returns migrating
records, `remove` drops records for good.

A passive queue never runs passes. A stopped queue refuses new records. The log is stored as
`{"records": [record]}`; a queue that never held a record list stores `null` there.
-/

namespace EntityIndex.Workflow

open EntityIndex.Json EntityIndex.Forms

/-- The in-memory state of an open queue. -/
structure Queue where
  /-- The queue identifier. -/
  id : String
  /-- The queued records, in order. -/
  records : List WorkflowRecord := []
  /-- Whether the record list exists, as opposed to never having been created. -/
  listed : Bool := false
  /-- Identifiers of the records of the running pass. -/
  running : List Uuid := []
  /-- Identifiers handed out for migration. -/
  migrating : List Uuid := []
  /-- Whether passes are suspended. -/
  paused : Bool := false
  /-- Whether the queue was stopped. -/
  stopped : Bool := false
  /-- Whether the queue never runs passes. -/
  passive : Bool := false
  deriving DecidableEq, Repr, Inhabited

namespace Queue

/-- The name of the queue's stored log. -/
def name (q : Queue) : String := QueueId.stateName q.id

/-- The identifiers of the queued records, in order. -/
def ids (q : Queue) : List Uuid := q.records.map (·.id)

/-- Whether a record with identifier `i` is queued. -/
def holds (q : Queue) (i : Uuid) : Bool := q.records.any (·.id = i)

/-- Append records in order, skipping identifiers already queued. -/
def append (q : Queue) (recs : List WorkflowRecord) : Queue :=
  recs.foldl (fun q r => if q.holds r.id then q else { q with records := q.records ++ [r], listed := true }) q

/-- Append records, unless the queue was stopped. -/
def enqueueAll (q : Queue) (recs : List WorkflowRecord) : Except Error Queue :=
  if q.stopped then .error (.context ("queue " ++ q.id) Error.closed) else .ok (q.append recs)

/-- The queued records with identifiers in `wanted` that the running pass does not hold, now
migrating, and the identifiers in `wanted` that it does hold, sorted. -/
def pendingIn (q : Queue) (wanted : List Uuid) : (List WorkflowRecord × List Uuid) × Queue :=
  let hit := q.records.filter fun r => wanted.contains r.id
  let inFlight := hit.filter fun r => q.running.contains r.id
  let handed := hit.filter fun r => !q.running.contains r.id
  let migrating := handed.foldl (fun m r => if m.contains r.id then m else m ++ [r.id]) q.migrating
  ((handed, Uuid.sorted (inFlight.map (·.id)).eraseDups), { q with migrating := migrating })

/-- Drop the records with the given identifiers; whether any was queued. -/
def remove (q : Queue) (drop : List Uuid) : Queue × Bool :=
  let kept := q.records.filter fun r => !drop.contains r.id
  ({ q with records := kept, migrating := q.migrating.filter (!drop.contains ·) },
    kept.length != q.records.length)

/-- Return migrating records to the queue. -/
def release (q : Queue) (back : List Uuid) : Queue :=
  { q with migrating := q.migrating.filter (!back.contains ·) }

/-- The records the next pass takes: every queued record not migrating, while the queue runs. -/
def batch (q : Queue) : List WorkflowRecord :=
  if q.stopped || q.paused || q.passive then []
  else q.records.filter fun r => !q.migrating.contains r.id

/-- Start a pass when there is something to take: its records, now running. -/
def startPass (q : Queue) : Option (List WorkflowRecord) × Queue :=
  if !q.running.isEmpty then (none, q)
  else
    match q.batch with
    | [] => (none, q)
    | b => (some b, { q with running := b.map (·.id) })

/-- End the running pass: on success its records leave the queue. -/
def finishPass (q : Queue) (ok : Bool) : Queue :=
  if ok then { q with records := q.records.filter fun r => !q.running.contains r.id, running := [] }
  else { q with running := [] }

/-- Stop the queue; a running pass is abandoned. -/
def stop (q : Queue) : Queue := { q with stopped := true, running := [] }

/-- The stored log. -/
def toDoc (q : Queue) : Value :=
  .object [("records", if q.listed then .array (q.records.map recordDoc) else .null)]

/-- The records and whether the list exists, read back from a stored log. -/
def ofDoc (v : Value) : Option (List WorkflowRecord × Bool) :=
  match v.field? "records" with
  | none | some .null => some ([], false)
  | some (.array xs) => (readItems recordOfDoc xs).map fun rs => (rs, true)
  | some _ => none

/-- Open queue `id` from its stored log. -/
def load (id : String) (passive paused : Bool) : Run Store.DocStore Queue := do
  match ← Run.attempt (Store.DocStore.load (QueueId.stateName id) ofDoc) with
  | .error e => throw (.context ("load queue " ++ id) e)
  | .ok stored =>
    let (records, listed) := stored.getD ([], false)
    pure { id := id, records := records, listed := listed, passive := passive, paused := paused }

/-- Write the queue's log. -/
def save (q : Queue) : Run Store.DocStore Unit := Store.DocStore.save q.name q.toDoc

end Queue

end EntityIndex.Workflow
