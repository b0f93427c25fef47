import EntityIndex.Bucket.Index
import EntityIndex.Workflow.Queue

/-!
# Applying a pass of records

A pass applies the records of one interface to its indexes: each real update of a record goes,
as a plain update, into the batch of its index (updates of indexes the handler does not know
are dropped), and every index applies its batch in record order.

With fault tolerance a record only counts once its entity confirms it: the entity's active set
must still hold the record's identifier. A record the entity does not confirm was abandoned by
its write (the entity was never persisted), so its unique updates, which the write applied up
front, are undone by applying their reverses, and its other updates are dropped. After the
batches are applied, the pass sends each entity a confirmation of the identifiers it applied
(`sendPass`) and returns without waiting for them. Delivering a confirmation (`confirm`) asks the
entity to forget those identifiers; failures to forget are not reported. Until its confirmation
is delivered an entity still lists the identifiers as active, and a confirmation that is never
delivered leaves them there. `handle` is a pass followed by the delivery of its confirmations.

Entities are asked for their active sets in the order they first appear in the pass, indexes
apply their batches in name order; the first failure is reported.
-/

namespace EntityIndex.Workflow

/-- What a fault-tolerant pass needs from entities. -/
structure Entities (W : Type) where
  /-- The active set of an entity. -/
  activeIds : EntityRef → Run W (List Uuid)
  /-- Ask an entity to forget identifiers. -/
  forget : EntityRef → List Uuid → Run W Unit

/-- The handler of one interface's passes. -/
structure PassHandler where
  /-- Whether records need their entity's confirmation. -/
  faultTolerant : Bool
  /-- The indexes by name. -/
  indexes : List (String × Bucket.Index)
  deriving Repr, Inhabited

namespace PassHandler

variable {W : Type} [Bucket.Host W]

/-- The identifiers of records with a real update, per entity in order of first appearance. -/
def passIds (records : List WorkflowRecord) : List (EntityRef × List Uuid) :=
  records.foldl (fun acc r =>
    if !r.hasRealUpdate then acc
    else
      match acc.lookup r.entity with
      | some ids =>
        if ids.contains r.id then acc
        else acc.map fun (e, is) => if e = r.entity then (e, is ++ [r.id]) else (e, is)
      | none => acc ++ [(r.entity, [r.id])]) []

/-- Ask every entity of the pass for its active set, all of them even when one fails; per entity,
the active set or the failure. -/
def askAll (ents : Entities W) :
    List (EntityRef × List Uuid) → Run W (List (EntityRef × List Uuid × Except Error (List Uuid)))
  | [] => pure []
  | (ref, ids) :: rest => do
    let r ← Run.attempt (ents.activeIds ref)
    let more ← askAll ents rest
    pure ((ref, ids, r) :: more)

/-- The confirmed identifiers of this pass per entity: its active set met with the pass; the
first failure to answer, naming its entity. -/
def fetchActive (ents : Entities W) (pass : List (EntityRef × List Uuid)) :
    Run W (List (EntityRef × List Uuid)) := do
  let answers ← askAll ents pass
  answers.mapM fun (ref, ids, r) =>
    match r with
    | .ok set => pure (ref, ids.filter set.contains)
    | .error e => throw (.context ("active workflows of " ++ ref.text) e)

/-- Add an item to the batch of an index, keeping batches by index name. -/
def addItem (name : String) (it : Bucket.Item) (bs : List (String × List Bucket.Item)) :
    List (String × List Bucket.Item) :=
  insertByName name ((bs.lookup name).getD [] ++ [it]) bs

/-- The batches of a pass per index, given which records are confirmed. -/
def batches (h : PassHandler) (confirmed : WorkflowRecord → Bool) (records : List WorkflowRecord) :
    List (String × List Bucket.Item) :=
  records.foldl (fun bs r =>
    r.updates.foldl (fun bs (name, m) =>
      if !m.isReal then bs
      else
        match h.indexes.lookup name with
        | none => bs
        | some x =>
          let u := IndexUpdate.plain m
          if confirmed r then addItem name ⟨r.entity, u⟩ bs
          else if x.desc.unique then addItem name ⟨r.entity, u.reverse⟩ bs
          else bs) bs) []

/-- Apply every index's batch; the first failure, naming its index, after all were tried. -/
def applyBatches (h : PassHandler) (bs : List (String × List Bucket.Item)) : Run W Unit := do
  let errs ← Run.attemptAll (bs.map fun (name, items) =>
    match h.indexes.lookup name with
    | some x => do
      match ← Run.attempt (x.applyBatch items) with
      | .ok () => pure ()
      | .error e => throw (.context ("index " ++ name) e)
    | none => pure ())
  match errs with
  | e :: _ => throw e
  | [] => pure ()

/-- Run one pass over the records; the confirmations it sends, per entity the identifiers of the
pass it applied, sorted, for entities with any. -/
def sendPass (h : PassHandler) (ents : Entities W) (records : List WorkflowRecord) :
    Run W (List (EntityRef × List Uuid)) := do
  if records.isEmpty then return []
  let active ← if h.faultTolerant then fetchActive ents (passIds records) else pure []
  let confirmed := fun (r : WorkflowRecord) =>
    !h.faultTolerant || ((active.lookup r.entity).getD []).contains r.id
  applyBatches h (h.batches confirmed records)
  if h.faultTolerant then
    pure ((active.filter fun c => !c.2.isEmpty).map fun c => (c.1, Uuid.sorted c.2))
  else pure []

/-- Deliver confirmations: each entity forgets the identifiers sent to it; a failure to forget is
not reported. -/
def confirm (ents : Entities W) (cs : List (EntityRef × List Uuid)) : Run W Unit :=
  cs.forM fun c => do
    let _ ← Run.attempt (ents.forget c.1 c.2)

/-- Run one pass and wait until its confirmations are delivered. -/
def handle (h : PassHandler) (ents : Entities W) (records : List WorkflowRecord) : Run W Unit := do
  confirm ents (← h.sendPass ents records)

end PassHandler

end EntityIndex.Workflow
