import EntityIndex.Requests.Indexes
import EntityIndex.Workflow.Queue

/-!
# Queue requests

Run a list of steps against one workflow queue over a faulty in-memory store. An active queue
is kept paused between steps; a pass is started on request, and its handler finishes, with
success or failure, when asked. Every step answers with the identifiers the queue holds after
it.
-/

namespace EntityIndex.Requests

open EntityIndex.Json EntityIndex.Wire EntityIndex.Workflow

/-- The world of a queue request: the store and the open queue. -/
structure Dock where
  /-- The store. -/
  store : Store.DocStore := {}
  /-- The open queue. -/
  queue : Queue
  deriving Inhabited

/-- Identifiers as a reply. -/
def uuidsValue (ids : List Uuid) : Value := .array (ids.map fun i => .string i.text)

/-- Write the queue's log. -/
def Dock.commit (d : Dock) : Except Error Unit × Dock :=
  let (r, s) := (d.queue.save).exec d.store
  (r, { d with store := s })

/-- The fields of a step result that is only a possible failure. -/
def failureFields (r : Except Error Unit) : List (String × Value) :=
  match r with
  | .ok () => []
  | .error e => errorFields e

/-- Run one step: its answer fields and the world after it. -/
def dockStep (d : Dock) (step : Value) : Read (List (String × Value) × Dock) := do
  match text step "op" with
  | "enqueue" =>
    -- the records are appended together and written once; when the write fails they stay
    -- queued in memory
    let recs ← readAll record (items step "records")
    match d.queue.enqueueAll recs with
    | .error e => pure (errorFields e, d)
    | .ok q =>
      let (r, d) := Dock.commit { d with queue := q }
      pure (failureFields r, d)
  | "pending_in" =>
    let wanted ← readAll uuid (items step "ids")
    let ((recs, inFlight), q) := d.queue.pendingIn wanted
    pure ([("records", uuidsValue (recs.map (·.id))), ("in_flight", uuidsValue inFlight)],
      { d with queue := q })
  | "remove" =>
    let drop ← readAll uuid (items step "ids")
    let (q, removed) := d.queue.remove drop
    let d := { d with queue := q }
    if removed then
      let (r, d) := d.commit
      pure (failureFields r, d)
    else pure ([], d)
  | "release" =>
    let back ← readAll uuid (items step "ids")
    pure ([], { d with queue := d.queue.release back })
  | "len" => pure ([("len", .nat d.queue.records.length)], d)
  | "records" => pure ([("records", .array (d.queue.records.map (recordValue true)))], d)
  | "stop" => pure ([], { d with queue := d.queue.stop })
  | "reopen" =>
    let old := d.queue.stop
    let (r, s) := (Queue.load old.id old.passive true).exec d.store
    match r with
    | .ok q => pure ([], { store := s, queue := q })
    | .error e => pure (errorFields e, { store := s, queue := old })
  | "fault" =>
    let (pre, f) := faultRule step
    pure ([], { d with store := { d.store with blobs := d.store.blobs.addRule pre f } })
  | "clear_faults" =>
    pure ([], { d with store := { d.store with blobs := d.store.blobs.clearRules } })
  | "start_pass" =>
    if d.queue.passive then refuse "start_pass needs an active queue"
    else if !d.queue.running.isEmpty then refuse "a pass is already running"
    else
    let (b, q) := { d.queue with paused := false }.startPass
    pure ([("batch", match b with
      | some recs => uuidsValue (recs.map (·.id))
      | none => .null)], { d with queue := { q with paused := true } })
  | "finish_pass" =>
    if d.queue.running.isEmpty then refuse "no pass is running"
    else if flag step "fail" then
      pure ([], { d with queue := d.queue.finishPass false })
    else
      let (_, d) := Dock.commit { d with queue := d.queue.finishPass true }
      pure ([], d)
  | other => refuse ("unknown step " ++ other)

/-- Run the steps in order, each answer carrying the queued identifiers. -/
def dockSteps : Dock → List Value → Read (List Value)
  | _, [] => pure []
  | d, step :: rest => do
    let (fields, d') ← dockStep d step
    pure (.object (fields ++ [("ids", uuidsValue d'.queue.ids)]) :: (← dockSteps d' rest))

/-- The `queue` request. -/
def queueRequest (req : Value) : Read Value := do
  let id := if (text req "id").isEmpty then "queue/I/0@n1" else text req "id"
  let passive := text req "mode" = "passive"
  let (r, s) := (Queue.load id passive true).exec ({} : Store.DocStore)
  match r with
  | .error e => pure (errorReply e)
  | .ok q => pure (.object [("steps", .array (← dockSteps ⟨s, q⟩ (items req "ops")))])

end EntityIndex.Requests
