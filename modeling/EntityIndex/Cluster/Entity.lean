import EntityIndex.Cluster.Fields
import EntityIndex.Indexing.Schema
import EntityIndex.Store.Forms

/-!
# Entity activations

An entity lives in a cluster as an activation on one node. The activation holds the entity's
state, the images of its indexes, its active set (identifiers of workflow records written but
not yet confirmed) and the queue each of its interfaces last wrote to. A handle to an
activation stays usable until the activation is deactivated, which closes it, or its node
crashes, which makes it unreachable.

The stored form of an entity is its state with the active set, sorted, and the remembered
queues; an empty set or map is left out.
-/

namespace EntityIndex.Cluster

open EntityIndex.Json EntityIndex.Indexing

/-- One activation of an entity. -/
structure Entity where
  /-- The entity. -/
  ref : EntityRef
  /-- The node it lives on. -/
  node : String
  /-- Its state. -/
  state : Fields := []
  /-- The images of its indexes. -/
  images : Images := {}
  /-- Identifiers of its unconfirmed workflow records, sorted. -/
  active : List Uuid := []
  /-- The queue each interface last wrote to. -/
  queues : List (String × String) := []
  /-- Whether the activation was deactivated. -/
  deactivated : Bool := false
  /-- Whether its node crashed. -/
  crashed : Bool := false
  deriving Inhabited

namespace Entity

/-- The address of an entity: also the name of its stored form. -/
def addr (ref : EntityRef) : String := "entity/" ++ ref.text

/-- Whether the activation can still be used: not after a crash of its node, nor after
deactivation. -/
def check (e : Entity) : Except Error Unit :=
  if e.crashed then .error (.context ("entity " ++ e.ref.text ++ " on " ++ e.node) Error.unreachable)
  else if e.deactivated then .error (.context ("entity " ++ e.ref.text) Error.closed)
  else .ok ()

/-- Add identifiers to the active set. -/
def addActive (e : Entity) (ids : List Uuid) : Entity :=
  { e with active := Uuid.sorted (e.active ++ ids.filter (!e.active.contains ·)).eraseDups }

/-- Drop identifiers from the active set. -/
def removeActive (e : Entity) (ids : List Uuid) : Entity :=
  { e with active := e.active.filter (!ids.contains ·) }

/-- The stored form of an entity with the given state. -/
def recordDoc (e : Entity) (state : Fields) : Value :=
  .object ([("state", state.toDoc)] ++
    (if e.active.isEmpty then [] else [("active", .array (e.active.map fun u => .string u.text))]) ++
    (if e.queues.isEmpty then [] else
      [("queues", .object (e.queues.map fun (k, v) => (k, .string v)))]))

end Entity

/-- What the stored form of an entity holds. -/
structure Stored where
  /-- The state. -/
  state : Fields := []
  /-- The active set, sorted. -/
  active : List Uuid := []
  /-- The remembered queues. -/
  queues : List (String × String) := []
  deriving Inhabited

/-- Read the stored form of an entity. -/
def Stored.ofDoc (v : Value) : Option Stored := do
  let state ← Fields.ofDoc ((v.field? "state").getD .null)
  let active ← (Forms.itemsField v "active").bind fun xs =>
    xs.mapM fun x => match x with
      | .string s => Uuid.parse? s
      | _ => none
  let queues ← match v.field? "queues" with
    | none | some .null => some []
    | some (.object kvs) =>
      kvs.foldlM (fun acc (k, x) =>
        match x with
        | .string s => some (insertByName k s acc)
        | _ => none) []
    | some _ => none
  pure ⟨state, Uuid.sorted active.eraseDups, queues⟩

end EntityIndex.Cluster
