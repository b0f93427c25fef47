import EntityIndex.Cluster.Queues
import EntityIndex.Indexing.Recovery

/-!
# Entities of a cluster

An entity is activated on the placement node the first time it is asked for: its stored form
is read (an entity never stored starts empty), the images of its indexes are computed from its
state, a fault-tolerant entity with unconfirmed records recovers them (moving them from queues
that are gone to the queues that now serve it), and its active-only indexes learn that it is
active. Writes go through the coordinator of its type, with the entity's queues behind it:
a record of an interface goes to the queue the entity last wrote to while that queue is
reachable, else to the current queue of the interface, which the entity then remembers. A
fault-tolerant entity whose remembered queue is unreachable refuses to write there and
recovers before writing. Deactivating an entity takes it out of its active-only indexes and
closes the activation.
-/

namespace EntityIndex.Cluster

open EntityIndex.Indexing EntityIndex.Workflow

namespace World

/-- Write an entity's stored form with the given state. -/
def saveEntity (h : Nat) (state : Fields) : Run World Unit := do
  let e ← entityAt h
  onStore (Store.DocStore.save (Entity.addr e.ref) (e.recordDoc state))

/-- The queue a new record of an interface goes to: the remembered one while reachable,
otherwise the current one, which is then remembered. -/
def entityQueue (h : Nat) (iface : String) : Run World String := do
  let e ← entityAt h
  let t ← typeOf e.ref.type
  let cached ← match e.queues.lookup iface with
    | some id =>
      if id.isEmpty then pure none
      else
        match ← Run.attempt (resolveQueue id) with
        | .ok q => pure (some q)
        | .error err =>
          if !err.mentions .unreachable then throw err
          else if t.schema.faultTolerant then
            throw (.context ("pending workflows of " ++ e.ref.text) err)
          else pure none
    | none => pure none
  match cached with
  | some q => pure q
  | none =>
    let q ← currentQueue (qualify e.ref.type iface) e.ref
    modifyEntity h fun e => { e with queues := insertByName iface q e.queues }
    pure q

/-- The writer of the entity behind a handle. -/
def writer (h : Nat) (ref : EntityRef) : Writer World where
  ref := ref
  enqueue rec := do
    let q ← match ← Run.attempt (entityQueue h rec.iface) with
      | .ok q => pure q
      | .error e => throw (.context ("queue " ++ rec.iface) e)
    enqueueInto q [rec]
  addActive ids w :=
    match w.entities[h]? with
    | some e => { w with entities := w.entities.set h (e.addActive ids) }
    | none => w
  removeActive ids w :=
    match w.entities[h]? with
    | some e => { w with entities := w.entities.set h (e.removeActive ids) }
    | none => w
  freshId := do
    let w ← get
    set { w with issued := w.issued + 1 }
    pure (recordId (w.issued + 1))

/-- How the entity behind a handle reaches queues while it recovers. -/
def locator (ref : EntityRef) : Locator World where
  current iface := currentQueue (qualify ref.type iface) ref
  resolve := resolveQueue
  reincarnation := reincarnation
  pendingIn := pendingIn
  enqueueAll := enqueueInto
  remove := removeFrom
  release := releaseIn

/-- Reconcile an entity's active set and remembered queues with the queues serving it now,
storing the entity when they changed. -/
def recoverEntity (h : Nat) : Run World Unit := do
  let e ← entityAt h
  let t ← typeOf e.ref.type
  let r ← recover (locator e.ref) t.schema.interfaces e.active e.queues
  if r.changed then
    modifyEntity h fun e => { e with active := r.active, queues := r.queues }
    saveEntity h (← entityAt h).state

/-- Recover a fault-tolerant entity before it writes when a queue it remembers is on a node
that is down. -/
def ensureQueues (h : Nat) : Run World Unit := do
  let e ← entityAt h
  let t ← typeOf e.ref.type
  let w ← get
  let stale := e.queues.any fun (_, id) =>
    match QueueId.parse id with
    | .ok a => w.dir.isDown a.node
    | .error _ => false
  if t.schema.faultTolerant && stale then recoverEntity h

/-- Make a new activation of an entity on a node; its handle. -/
def activateEntity (t : EntityType) (ref : EntityRef) (node : String) : Run World Nat := do
  let h := (← get).entities.length
  modify fun w => { w with entities := w.entities ++ [{ ref := ref, node := node }] }
  let stored ← match ← Run.attempt (onStore (Store.DocStore.load (Entity.addr ref) Stored.ofDoc)) with
    | .ok s => pure (s.getD {})
    | .error e => throw (.context ("load entity " ++ ref.text) e)
  let images ← match t.schema.extract stored.state with
    | .ok im => pure im
    | .error e => throw (.context ("entity " ++ ref.text) e)
  modifyEntity h fun e =>
    { e with state := stored.state, active := stored.active, queues := stored.queues, images := images }
  if t.schema.faultTolerant && !stored.active.isEmpty then recoverEntity h
  let e ← entityAt h
  let us ← Run.lift (generate t.schema e.images e.state .activate true)
  if !us.empty then
    match ← Run.attempt (t.coordinator.apply (writer h ref) e.images us (saveEntity h e.state)) with
    | .ok im => modifyEntity h fun e => { e with images := im }
    | .error err => throw (.context ("activate " ++ ref.text) err)
  pure h

/-- The live activation of an entity, activating it on the placement node when there is none;
its handle. -/
def getEntity (typeName key : String) : Run World Nat := do
  checkOpen
  let t ← typeOf typeName
  let ref : EntityRef := ⟨typeName, key⟩
  let a ← activate World.dir World.setDir (Entity.addr ref) none fun node => do
    pure (.entity (← activateEntity t ref node))
  match a.value with
  | .entity h => pure h
  | _ => throw (.other ("activation " ++ Entity.addr ref ++ " is not an entity"))

/-- Write a new state computed from the current one; the entity keeps its state when the
change or the write fails. -/
def updateEntity (h : Nat) (change : Fields → Except Error Fields) : Run World Unit := do
  let e ← entityAt h
  Run.lift e.check
  let t ← typeOf e.ref.type
  let next ← Run.lift (change e.state)
  ensureQueues h
  let e ← entityAt h
  let us ← Run.lift (generate t.schema e.images next .write false)
  let im ← t.coordinator.apply (writer h e.ref) e.images us (saveEntity h next)
  modifyEntity h fun e => { e with images := im, state := next }

/-- Take an entity out of its active-only indexes and close its activation. -/
def deactivateEntity (h : Nat) : Run World Unit := do
  let e ← entityAt h
  Run.lift e.check
  let t ← typeOf e.ref.type
  let us ← Run.lift (generate t.schema e.images e.state .deactivate true)
  if !us.empty then
    ensureQueues h
    let e ← entityAt h
    match ← Run.attempt (t.coordinator.apply (writer h e.ref) e.images us (saveEntity h e.state)) with
    | .ok im => modifyEntity h fun e => { e with images := im }
    | .error err => throw (.context ("deactivate " ++ e.ref.text) err)
  modifyEntity h fun e => { e with deactivated := true }
  modify fun w =>
    let addr := Entity.addr e.ref
    match w.dir.find? addr with
    | some ⟨_, _, .entity h'⟩ => if h' = h then w.setDir (w.dir.drop addr) else w
    | _ => w

/-- The unconfirmed record identifiers of a usable activation, sorted. -/
def activeIds (h : Nat) : Run World (List Uuid) := do
  let e ← entityAt h
  Run.lift e.check
  pure e.active

/-- Forget confirmed records and store the smaller set; when storing fails, the set is kept. -/
def forgetIds (h : Nat) (ids : List Uuid) : Run World Unit := do
  let e ← entityAt h
  Run.lift e.check
  let removed := ids.filter e.active.contains
  if removed.isEmpty then return
  modifyEntity h (·.removeActive removed)
  match ← Run.attempt (saveEntity h e.state) with
  | .ok () => pure ()
  | .error err =>
    modifyEntity h (·.addActive removed)
    throw err

/-- An entity of a type by reference; another type's entity is not found. -/
def entityOfType (typeName : String) (ref : EntityRef) : Run World Nat := do
  if ref.type != typeName then
    throw (.context ("entity " ++ ref.text ++ " is not a " ++ typeName) Error.notFound)
  getEntity typeName ref.key

/-- The entities of a type as the passes of its queues see them. -/
def entitiesOf (typeName : String) : Entities World where
  activeIds ref := do activeIds (← entityOfType typeName ref)
  forget ref ids := do forgetIds (← entityOfType typeName ref) ids

/-- Activate an entity and recover its unconfirmed records. -/
def reconcile (typeName key : String) : Run World Unit := do
  let h ← getEntity typeName key
  let e ← entityAt h
  Run.lift e.check
  if !e.active.isEmpty then recoverEntity h

end World

end EntityIndex.Cluster
