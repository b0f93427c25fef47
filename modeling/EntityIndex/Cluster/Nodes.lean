import EntityIndex.Cluster.Drain

/-!
# Node failures, recovery and shutdown

Crashing a node drops every activation it hosts without writing anything: its queues stop, its
entities' handles become unreachable, its buckets are read again from the store when next used.
The node stays down until it is the placement node again.

Recovering a failed node takes over its queues. Each stored queue log of the node is opened as a
reincarnation on the placement node; every fault-tolerant entity with records in one is
activated and recovers, which moves its pending records to live queues. The records left over,
which no entity claims, run once through the handler of their interface (unconfirmed unique
updates are undone there) and leave the log. The recovery drains the reincarnations it opened
even when one was retired meanwhile, because an entity's recovery opened its queue again: the
retired copy still holds the records it read, and still writes the log. Failures along the way
are collected and reported together at the end.

Closing the cluster stops every queue and writes every active bucket once more; queued records
stay in their logs.
-/

namespace EntityIndex.Cluster

open EntityIndex.Workflow

namespace World

/-- Fail a node: drop its activations, marking its entities' handles unreachable. -/
def crashNode (node : String) : Run World Unit :=
  modify fun w =>
    let (dropped, d) := w.dir.failNode node
    dropped.foldl (fun w a =>
      match a.value with
      | .entity h =>
        match w.entities[h]? with
        | some e => { w with entities := w.entities.set h { e with crashed := true } }
        | none => w
      | _ => w) (w.setDir d)

/-- The reincarnation at `rid` as the node recovery that opened it holds it: the active one, or
else the one retired since. -/
def heldReincarnation (rid : String) : Run World Queue := do
  match (← get).queue? rid with
  | some q => pure q
  | none =>
    match (← get).retired.lookup rid with
    | some q => pure q
    | none => throw (.context ("queue " ++ rid) Error.notFound)

/-- Drop records from the reincarnation a node recovery holds, writing its log when some were
queued; a retired reincarnation still writes the log it shares with its queue. -/
def removeOrphans (rid : String) (ids : List Uuid) : Run World Unit := do
  if ((← get).queue? rid).isSome then removeFrom rid ids
  else
    let (q, removed) := (← heldReincarnation rid).remove ids
    modify fun w => { w with retired := insertByName rid q w.retired }
    if removed then onStore q.save

/-- Run the records left in a reincarnation through their handler and drop them from its log;
the number of records. -/
def drainOrphans (rid : String) : Run World Nat := do
  let records := (← heldReincarnation rid).records
  if records.isEmpty then return 0
  let a ← parseQueueId rid
  match (← get).handlerOf a.iface with
  | none => throw (.context ("queue " ++ rid ++ ": interface " ++ a.iface) Error.notFound)
  | some (typeName, h) =>
    match ← Run.attempt (h.sendPass (entitiesOf typeName) records) with
    | .error e => throw (.context ("drain " ++ rid) e)
    | .ok cs =>
      keepSent typeName cs
      match ← Run.attempt (removeOrphans rid (records.map (·.id))) with
      | .error e => throw (.context ("drain " ++ rid) e)
      | .ok () => pure records.length

/-- Open the reincarnations of a node's stored queue logs, in name order: their addresses, the
entities with records in them, and the failures to open. -/
def reincarnateAll (node : String) :
    List String → Run World (List String × List EntityRef × List Error)
  | [] => pure ([], [], [])
  | name :: rest => do
    let here ← match QueueId.parse name with
      | .ok a =>
        if a.node = node && !a.reincarnated then do
          match ← Run.attempt (reincarnation name) with
          | .ok rid => pure (some (Except.ok (rid, (← queueAt rid).records.map (·.entity))))
          | .error e => pure (some (.error e))
        else pure none
      | .error _ => pure none
    let (rids, refs, errs) ← reincarnateAll node rest
    match here with
    | some (.ok (rid, rs)) => pure (rid :: rids, rs ++ refs, errs)
    | some (.error e) => pure (rids, refs, e :: errs)
    | none => pure (rids, refs, errs)

/-- Activate and recover each fault-tolerant entity in turn; the failures. -/
def reconcileAll : List EntityRef → Run World (List Error)
  | [] => pure []
  | ref :: rest => do
    let err ← match (← get).type? ref.type with
      | some t =>
        if t.schema.faultTolerant then do
          match ← Run.attempt (reconcile ref.type ref.key) with
          | .ok () => pure none
          | .error e => pure (some (Error.context ("reconcile " ++ ref.text) e))
        else pure none
      | none => pure none
    let errs ← reconcileAll rest
    pure (err.toList ++ errs)

/-- Drain the orphans of each reincarnation in turn; the failures. -/
def drainAll : List String → Run World (List Error)
  | [] => pure []
  | rid :: rest => do
    let r ← Run.attempt (drainOrphans rid)
    let errs ← drainAll rest
    match r with
    | .ok _ => pure errs
    | .error e => pure (e :: errs)

/-- Take over the queues of a failed node. -/
def recoverNode (node : String) : Run World Unit := do
  checkOpen
  if node = (← get).placement then
    throw (.other ("recover " ++ node ++ ": node is the placement node"))
  modify fun w => { w with retired := [] }
  let names := (← get).store.blobs.names "queue/"
  let (rids, refs, openErrs) ← reincarnateAll node names
  let refs := (refs.mergeSort fun a b => EntityRef.compare a b ≤ 0).eraseDups
  let reconcileErrs ← reconcileAll refs
  let drainErrs ← drainAll rids
  match Error.join (openErrs ++ reconcileErrs ++ drainErrs) with
  | some e => throw e
  | none => pure ()

/-- Write every active bucket, in address order; the failures. -/
def writeBuckets : List (Activation Instance) → Run World (List Error)
  | [] => pure []
  | a :: rest => do
    let r ← match a.value with
      | .bucket s => Run.attempt (onStore (Store.DocStore.save a.addr s.toDoc))
      | _ => pure (.ok ())
    let errs ← writeBuckets rest
    match r with
    | .ok () => pure errs
    | .error e => pure (e :: errs)

/-- Close the cluster: stop every queue, wait for the confirmations still on their way, which
the closed cluster refuses, and write every active bucket. Closing twice does nothing. -/
def close : Run World Unit := do
  if (← get).closed then return
  modify fun w =>
    let w := { w with closed := true }
    (w.dir.activations "queue/").foldl (fun w a =>
      match a.value with
      | .queue q => w.setDir (w.dir.update a.addr (.queue q.stop))
      | _ => w) w
  -- confirmations still on their way reach a closed cluster and are lost
  deliverSent
  let errs ← writeBuckets ((← get).dir.activations "bucket/")
  match Error.join errs with
  | some e => throw e
  | none => pure ()

end World

end EntityIndex.Cluster
