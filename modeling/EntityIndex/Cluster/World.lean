import EntityIndex.Cluster.Directory
import EntityIndex.Cluster.Entity
import EntityIndex.Bucket.Shelf
import EntityIndex.Indexing.Coordinator
import EntityIndex.Workflow.Queue
import EntityIndex.Workflow.Handler

/-!
# A cluster

A cluster hosts entity types on a set of nodes that share one document store. Every addressable
instance (index bucket, entity, workflow queue) is an activation in the cluster's directory, on
the node that was the placement node when it was activated. Entities are kept by handle: the
directory points at the handle of an entity's live activation, and a handle outlives its
activation, so that a caller holding it learns that it was closed or that its node crashed.

Buckets are activated from their stored state the first time an index uses them, and every
change is written at once.
-/

namespace EntityIndex.Cluster

open EntityIndex.Indexing EntityIndex.Workflow

/-- What the directory of a cluster activates. -/
inductive Instance where
  /-- An index bucket and its state. -/
  | bucket (s : Bucket.State)
  /-- An entity, by handle. -/
  | entity (handle : Nat)
  /-- A workflow queue. -/
  | queue (q : Queue)
  deriving Inhabited

/-- A registered entity type: its schema and the coordinator of its writes. -/
structure EntityType where
  /-- The schema. -/
  schema : Schema Fields
  /-- The coordinator, over the type's indexes. -/
  coordinator : Coordinator

/-- The state of a cluster. -/
structure World where
  /-- The shared store. -/
  store : Store.DocStore
  /-- The activations. -/
  dir : Directory Instance
  /-- Every entity activation made, by handle. -/
  entities : List Entity := []
  /-- The registered types by name. -/
  types : List (String × EntityType) := []
  /-- The number of queue shards per interface. -/
  shards : Nat := 4
  /-- Whether the cluster was closed. -/
  closed : Bool := false
  /-- Whether queue draining is suspended. -/
  paused : Bool := false
  /-- Workflow record identifiers handed out so far. -/
  issued : Nat := 0
  /-- Reincarnations retired from the directory while a node recovery that opened them runs,
  stopped, by address; the recovery goes on using them. -/
  retired : List (String × Queue) := []
  /-- Confirmations that passes sent and entities have not received yet, per pass with the type
  of its entities, in the order they were sent. -/
  sent : List (String × List (EntityRef × List Uuid)) := []

/-- A workflow record identifier: the `n`-th handed out. -/
def recordId (n : Nat) : Uuid := ⟨0xffffffff * Nat.pow 2 96 + n⟩

/-- The qualified name of an interface or index of an entity type. -/
def qualify (typeName name : String) : String := typeName ++ "." ++ name

namespace World

/-- Replace the directory. -/
def setDir (w : World) (d : Directory Instance) : World := { w with dir := d }

/-- Run a store operation on the cluster's store. -/
def onStore {α : Type} (m : Run Store.DocStore α) : Run World α :=
  Run.zoom World.store (fun w s => { w with store := s }) m

/-- Fail once the cluster is closed. -/
def checkOpen : Run World Unit := do
  if (← get).closed then throw (.context "system" Error.closed)

/-- The node new activations go to. -/
def placement (w : World) : String := w.dir.placement

/-- A registered type by name. -/
def type? (w : World) (name : String) : Option EntityType := w.types.lookup name

/-- The registered type of an entity. -/
def typeOf (name : String) : Run World EntityType := do
  match (← get).type? name with
  | some t => pure t
  | none => throw (.context ("entity type " ++ name) Error.notFound)

/-- The activation behind a handle. -/
def entityAt (h : Nat) : Run World Entity := do
  match (← get).entities[h]? with
  | some e => pure e
  | none => throw (.other ("no entity handle " ++ toString h))

/-- Change the activation behind a handle. -/
def modifyEntity (h : Nat) (f : Entity → Entity) : Run World Unit :=
  modify fun w =>
    match w.entities[h]? with
    | some e => { w with entities := w.entities.set h (f e) }
    | none => w

/-- The active queue at an address. -/
def queue? (w : World) (id : String) : Option Queue :=
  match w.dir.find? id with
  | some ⟨_, _, .queue q⟩ => some q
  | _ => none

/-- The active queue at an address, which must be active. -/
def queueAt (id : String) : Run World Queue := do
  match (← get).queue? id with
  | some q => pure q
  | none => throw (.context ("queue " ++ id) Error.notFound)

/-- Replace an active queue. -/
def setQueue (q : Queue) : Run World Unit :=
  modify fun w => w.setDir (w.dir.update q.id (.queue q))

/-- Replace an active queue and write its log. -/
def commitQueue (q : Queue) : Run World Unit := do
  setQueue q
  onStore q.save

/-- The addresses of the active queues that drain, by address. -/
def liveQueues (w : World) : List String :=
  (w.dir.activations "queue/").filterMap fun a =>
    match a.value with
    | .queue q => if q.passive then none else some a.addr
    | _ => none

/-- The handler of the queues of a qualified interface, with the entities of its type. -/
def handlerOf (w : World) (qualified : String) : Option (String × PassHandler) :=
  w.types.findSome? fun (name, t) =>
    t.schema.interfaces.findSome? fun iface =>
      if qualify name iface = qualified then
        some (name, ⟨t.schema.faultTolerant,
          t.coordinator.indexes.filter fun (n, _) => (t.schema.find? n).any (·.iface = iface)⟩)
      else none

end World

/-- Buckets live in the directory: a bucket is activated on the placement node from its stored
state, and written on every change. -/
instance : Bucket.Host World where
  active? w id :=
    match w.dir.find? id with
    | some ⟨_, _, .bucket s⟩ => some s
    | _ => none
  activate id := do
    let a ← activate World.dir World.setDir id none fun _ => do
      pure (.bucket (← World.onStore (Bucket.Shelf.loadState id)))
    match a.value with
    | .bucket s => pure s
    | _ => throw (.other ("activation " ++ id ++ " is not a bucket"))
  keep id s w := w.setDir (w.dir.update id (.bucket s))
  persist id s := World.onStore (Store.DocStore.save id s.toDoc)
  grew w := w

end EntityIndex.Cluster
