import EntityIndex.Cluster.World

/-!
# Queues of a cluster

Each interface of an entity type has one workflow queue per shard and node, addressed
`queue/<type>.<interface>/<shard>@<node>`; an entity writes to the queue of its shard on the
placement node. A queue is activated on the node its address names and drains there. When that
node is down, its stored log is served by a reincarnation: a passive queue at the address with
`#reincarnated` appended, on the placement node, which never drains. Opening the queue itself
again retires its reincarnation, since both share one log.

A draining queue follows the cluster's pause switch from the moment it opens.
-/

namespace EntityIndex.Cluster

open EntityIndex.Workflow

namespace World

/-- The parts of a queue address. -/
def parseQueueId (id : String) : Run World QueueId.Address :=
  match QueueId.parse id with
  | .ok a => pure a
  | .error msg => throw (.other msg)

/-- Retire the reincarnation of queue `id`, if one is active: it leaves the directory and stops,
but a node recovery that opened it keeps it. -/
def dropReincarnation (id : String) : Run World Unit :=
  modify fun w =>
    let rid := QueueId.reincarnation id
    match w.dir.find? rid with
    | some ⟨_, _, .queue q⟩ =>
      { w.setDir (w.dir.drop rid) with retired := insertByName rid q.stop w.retired }
    | some _ => w.setDir (w.dir.drop rid)
    | none => w

/-- The queue at `id`, activated on `node` from its stored log when it is not active. A queue
that drains must belong to a registered interface. -/
def openQueue (id node : String) (passive : Bool) : Run World String := do
  let a ← parseQueueId id
  if !passive && ((← get).handlerOf a.iface).isNone then
    throw (.context ("queue " ++ id ++ ": interface " ++ a.iface) Error.notFound)
  let act ← activate World.dir World.setDir id (some node) fun _ => do
    checkOpen
    if !passive then dropReincarnation id
    let paused := (← get).paused
    pure (.queue (← onStore (Queue.load id passive paused)))
  match act.value with
  | .queue q =>
    if !passive then setQueue { q with paused := (← get).paused }
    pure id
  | _ => throw (.other ("activation " ++ id ++ " is not a queue"))

/-- The passive stand-in of queue `id` on the placement node. -/
def reincarnation (id : String) : Run World String := do
  openQueue (QueueId.reincarnation id) (← get).placement true

/-- The queue at `id` on its own node; unreachable while that node is down. -/
def resolveQueue (id : String) : Run World String := do
  let a ← parseQueueId id
  if a.reincarnated then reincarnation (QueueId.stateName id)
  else if (← get).dir.isDown a.node then throw (.context ("queue " ++ id) Error.unreachable)
  else openQueue id a.node false

/-- The queue serving an entity for a qualified interface on the placement node. -/
def currentQueue (qualified : String) (ref : EntityRef) : Run World String := do
  let w ← get
  openQueue (QueueId.make qualified (ref.shard w.shards) w.placement) w.placement false

/-- Append records to an active queue and write its log. -/
def enqueueInto (id : String) (recs : List WorkflowRecord) : Run World Unit := do
  match (← queueAt id).enqueueAll recs with
  | .ok q => commitQueue q
  | .error e => throw e

/-- The records of an active queue with the given identifiers, now migrating, and those held by
its running pass. -/
def pendingIn (id : String) (ids : List Uuid) : Run World (List WorkflowRecord × List Uuid) := do
  let (out, q) := (← queueAt id).pendingIn ids
  setQueue q
  pure out

/-- Drop records from an active queue, writing its log when some were queued. -/
def removeFrom (id : String) (ids : List Uuid) : Run World Unit := do
  let (q, removed) := (← queueAt id).remove ids
  if removed then commitQueue q else setQueue q

/-- Return migrating records to an active queue. -/
def releaseIn (id : String) (ids : List Uuid) : Run World Unit := do
  setQueue ((← queueAt id).release ids)

/-- Suspend or restart draining, for every draining queue and those opened later. -/
def setPaused (paused : Bool) : Run World Unit :=
  modify fun w =>
    let w := { w with paused := paused }
    w.liveQueues.foldl (fun w id =>
      match w.queue? id with
      | some q => w.setDir (w.dir.update id (.queue { q with paused := paused }))
      | none => w) w

end World

end EntityIndex.Cluster
