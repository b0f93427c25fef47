import EntityIndex.Indexing.Generate
import EntityIndex.Bucket.Index

/-!
# Driving updates to the indexes

A write of an entity produces updates (`generate`); the coordinator drives them to the indexes
and persists the entity, in this order:

1. Updates of unique indexes are applied first, in index-name order, so that a conflict is found
   before anything else happens. When more than one unique index changes, or one loses a value,
   they are applied as tentative updates, hidden from readers until made final. A uniqueness
   violation undoes the unique updates applied so far (and the failed one, which is harmless
   because reverses are idempotent) and is returned without persisting.
2. Eager indexes then get the remaining updates, and the tentative unique ones are made final,
   while the entity is persisted.
3. Lazy indexes get workflow records instead, one per interface. Without fault tolerance the
   records are enqueued while the entity is persisted (records holding only unique updates that
   were already applied for good are not needed). With fault tolerance every record is enqueued
   first and its identifier joins the entity's active set before the entity is persisted; if
   persisting fails, the identifiers leave the set again.

Steps said to run "while" another runs are concurrent: all of them run, and the failure reported
is the persist's if it failed, else the first other one in interface and index order.

On success the images move past the updates.
-/

namespace EntityIndex.Indexing

/-- What a write needs from the entity it belongs to. -/
structure Writer (W : Type) where
  /-- The entity. -/
  ref : EntityRef
  /-- Enqueue a record on the entity's queue for the record's interface. -/
  enqueue : WorkflowRecord → Run W Unit
  /-- Add identifiers to the entity's active set. -/
  addActive : List Uuid → W → W
  /-- Remove identifiers from the entity's active set. -/
  removeActive : List Uuid → W → W
  /-- A fresh record identifier. -/
  freshId : Run W Uuid

/-- The indexes of an entity type, by index name, and how lazy updates are made durable. -/
structure Coordinator where
  /-- Whether records are made durable before the entity. -/
  faultTolerant : Bool
  /-- The indexes by name. -/
  indexes : List (String × Bucket.Index)
  deriving Repr, Inhabited

namespace Coordinator

variable {W : Type} [Bucket.Host W]

/-- The coordinator of a schema; every index of the schema must be given. -/
def make {σ : Type} (s : Schema σ) (indexes : List (String × Bucket.Index)) : Except Error Coordinator :=
  match s.defs.find? fun d => (indexes.lookup d.desc.name).isNone with
  | some d => .error (.context ("index " ++ d.desc.name) Error.notFound)
  | none => .ok ⟨s.faultTolerant, indexes⟩

/-- Whether an index is unique. -/
def isUnique (c : Coordinator) (name : String) : Bool :=
  match c.indexes.lookup name with
  | some x => x.desc.unique
  | none => false

/-- Apply an update to an index by name. -/
def applyTo (c : Coordinator) (name : String) (r : EntityRef) (u : IndexUpdate) : Run W Unit :=
  match c.indexes.lookup name with
  | some x => x.apply r u
  | none => throw (.context ("index " ++ name) Error.notFound)

/-- The updates of unique indexes, by index name. -/
def uniqueUpdates (c : Coordinator) (us : Updates) : List (String × IndexUpdate) :=
  let all := us.byInterface.flatMap fun (_, ms) =>
    (ms.filter fun (name, _) => c.isUnique name).map fun (name, m) => (name, IndexUpdate.plain m)
  all.mergeSort fun a b => a.1 ≤ b.1

/-- Undo applied unique updates by applying their reverses; failures are ignored. -/
def undo (c : Coordinator) (r : EntityRef) (applied : List (String × IndexUpdate)) : Run W Unit :=
  applied.forM fun (name, u) => do
    let _ ← Run.attempt (c.applyTo name r u.reverse)
    pure ()

/-- Apply unique updates in order, `done` being those applied before; a uniqueness violation
undoes them all. -/
def applyUniqueFrom (c : Coordinator) (r : EntityRef) (tentative : Bool) :
    List (String × IndexUpdate) → List (String × IndexUpdate) → Run W Unit
  | _, [] => pure ()
  | done, (name, u) :: rest => do
    let u' := if tentative then u.asTentative else u
    match ← Run.attempt (c.applyTo name r u') with
    | .ok () => applyUniqueFrom c r tentative (done ++ [(name, u)]) rest
    | .error e =>
      if e.kind = .uniqueness then c.undo r (done ++ [(name, u)])
      throw e

/-- Whether unique updates are applied tentatively: more than one, or one that deletes. -/
def tentativeFor (unique : List (String × IndexUpdate)) : Bool :=
  1 < unique.length || unique.any fun (_, u) => u.op = .delete

/-- Apply the unique updates; whether they were applied tentatively. -/
def applyUnique (c : Coordinator) (r : EntityRef) (us : Updates) : Run W Bool := do
  let unique := c.uniqueUpdates us
  let tentative := tentativeFor unique
  applyUniqueFrom c r tentative [] unique
  pure tentative

/-- The first failure among results, if any. -/
def firstFailure : List (Except Error Unit) → Option Error
  | [] => none
  | .error e :: _ => some e
  | .ok () :: rest => firstFailure rest

/-- Throw the first failure among results, if any. -/
def throwFirst (rs : List (Except Error Unit)) : Run W Unit :=
  match firstFailure rs with
  | some e => throw e
  | none => pure ()

/-- Apply the eager updates while persisting: every non-unique update, and the unique ones again
as final updates when they were tentative. -/
def applyEager (c : Coordinator) (r : EntityRef) (us : Updates) (tentative : Bool)
    (persist : Run W Unit) : Run W Unit := do
  let p ← Run.attempt persist
  let todo := us.byInterface.flatMap fun (_, ms) =>
    ms.filter fun (name, _) => !(c.isUnique name && !tentative)
  let rs ← todo.mapM fun (name, m) => Run.attempt (c.applyTo name r (IndexUpdate.plain m))
  throwFirst (p :: rs)

/-- One record per interface, in interface order, leaving out those `skip` refuses. -/
def records (w : Writer W) (us : Updates) (skip : List (String × MemberUpdate) → Bool) :
    Run W (List WorkflowRecord) :=
  (us.byInterface.filter fun (_, ms) => !skip ms).mapM fun (iface, ms) => do
    pure ⟨← w.freshId, w.ref, iface, ms⟩

/-- Enqueue every record; the first failure in order, after all were tried. -/
def enqueueAll (w : Writer W) (recs : List WorkflowRecord) : Run W Unit := do
  let rs ← recs.mapM fun rec => Run.attempt (w.enqueue rec)
  throwFirst rs

/-- Make the lazy updates durable as workflow records and persist the entity. -/
def applyLazy (c : Coordinator) (w : Writer W) (us : Updates) (tentative : Bool)
    (persist : Run W Unit) : Run W Unit := do
  if c.faultTolerant then
    let recs ← records w us fun _ => false
    enqueueAll w recs
    let ids := recs.map (·.id)
    modify (w.addActive ids)
    match ← Run.attempt persist with
    | .ok () => pure ()
    | .error e =>
      modify (w.removeActive ids)
      throw e
  else
    let recs ← records w us fun ms => !tentative && ms.all fun (name, _) => c.isUnique name
    let p ← Run.attempt persist
    let q ← Run.attempt (enqueueAll w recs)
    throwFirst [p, q]

/-- Drive the updates of one write and persist the entity; the images after the updates. -/
def apply (c : Coordinator) (w : Writer W) (images : Images) (us : Updates)
    (persist : Run W Unit) : Run W Images := do
  if us.empty then
    persist
    return images
  let tentative ← if 0 < us.numUnique then c.applyUnique w.ref us else pure false
  if us.eager then c.applyEager w.ref us tentative persist
  else c.applyLazy w us tentative persist
  pure (images.commit us.byInterface)

end Coordinator

end EntityIndex.Indexing
