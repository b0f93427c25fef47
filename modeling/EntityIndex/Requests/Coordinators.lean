import EntityIndex.Requests.Schemas
import EntityIndex.Requests.Indexes
import EntityIndex.Indexing.Coordinator

/-!
# Coordinator requests

Drive writes, activations and deactivations of entities of one type through a coordinator whose
indexes share one in-memory store. Each entity has a stand-in: it keeps the images and the active
set, and its queues only record what is enqueued, refusing on request. Persisting the entity
only records that it was asked for, failing on request.
-/

namespace EntityIndex.Requests

open EntityIndex.Json EntityIndex.Wire EntityIndex.Bucket EntityIndex.Indexing

/-- What the stand-in of one entity keeps. -/
structure StandIn where
  /-- The images of the entity's indexes. -/
  images : Images := {}
  /-- The identifiers of records not yet confirmed. -/
  active : List Uuid := []
  deriving Inhabited

/-- The world of a coordinator request. -/
structure Desk where
  /-- The buckets of every index and their store. -/
  shelf : Shelf := {}
  /-- The stand-ins by entity key. -/
  standIns : List (String × StandIn) := []
  /-- Record identifiers handed out so far. -/
  issued : Nat := 0
  /-- Records enqueued during the current step, in order. -/
  enqueued : List WorkflowRecord := []
  /-- Whether the current step asked to persist the entity. -/
  persisted : Bool := false
  deriving Inhabited

instance : Host Desk := Shelf.hostVia Desk.shelf fun d s => { d with shelf := s }

/-- A record identifier that no serial-numbered input identifier can equal. -/
def issuedId (n : Nat) : Uuid := ⟨0xffffffff * Nat.pow 2 96 + n⟩

/-- The stand-in of an entity key. -/
def Desk.standIn (d : Desk) (k : String) : StandIn := (d.standIns.lookup k).getD {}

/-- Change the stand-in of an entity key. -/
def Desk.withStandIn (d : Desk) (k : String) (f : StandIn → StandIn) : Desk :=
  { d with standIns := insertByName k (f (d.standIn k)) d.standIns }

/-- The writer of an entity key whose enqueues to the `refused` interfaces fail. -/
def deskWriter (entityType k : String) (refused : List String) : Writer Desk where
  ref := ⟨entityType, k⟩
  enqueue rec := do
    if refused.contains rec.iface then throw (.injected ("enqueue failed: " ++ rec.iface))
    modify fun d => { d with enqueued := d.enqueued ++ [rec] }
  addActive ids d := d.withStandIn k fun s => { s with active := s.active ++ ids.filter (!s.active.contains ·) }
  removeActive ids d := d.withStandIn k fun s => { s with active := s.active.filter (!ids.contains ·) }
  freshId := do
    let d ← get
    set { d with issued := d.issued + 1 }
    pure (issuedId (d.issued + 1))

/-- Persisting an entity: recorded, and refused when asked to fail. -/
def deskPersist (fail : Bool) : Run Desk Unit := do
  modify fun d => { d with persisted := true }
  if fail then throw (.injected "persist failed")

/-- The updates of one event as a reply, without the event. -/
def updatesFields (us : Updates) : Value :=
  .object [("by_interface", updatesValue us.byInterface), ("eager", .bool us.eager),
    ("only_unique_updated", .bool us.onlyUniqueUpdated), ("num_unique", .nat us.numUnique),
    ("len", .nat us.len), ("empty", .bool us.empty)]

/-- Generate and drive the updates of one event for entity `k`. -/
def deskEvent (s : Schema FieldState) (c : Coordinator) (d : Desk) (k : String) (st : FieldState)
    (r : Reason) (onlyActive failPersist : Bool) (refused : List String) :
    List (String × Value) × Desk :=
  let before := d.standIn k
  match generate s before.images st r onlyActive with
  | .error e => (errorFields e ++ [("images", imagesValue before.images)], d)
  | .ok us =>
    let d := { d with enqueued := [], persisted := false }
    let (res, d) := (c.apply (deskWriter s.entityType k refused) before.images us
      (deskPersist failPersist)).exec d
    let d := match res with
      | .ok im => d.withStandIn k fun x => { x with images := im }
      | .error _ => d
    let after := d.standIn k
    let recs := d.enqueued.mergeSort fun a b => a.iface ≤ b.iface
    ([("updates", updatesFields us), ("records", .array (recs.map (recordValue false))),
      ("persisted", .bool d.persisted), ("active", .nat after.active.length),
      ("images", imagesValue after.images)] ++
      (match res with
        | .ok _ => []
        | .error e => errorFields e), d)

/-- Run one step: its answer fields and the world after it. -/
def deskStep (s : Schema FieldState) (c : Coordinator) (d : Desk) (step : Value) :
    Read (List (String × Value) × Desk) := do
  let op := text step "op"
  match op with
  | "write" | "activate" | "deactivate" =>
    -- the entity key defaults to "a", also when given empty
    let k := if (text step "key").isEmpty then "a" else text step "key"
    let st ← fieldState (member step "state")
    let r : Reason := if op = "write" then .write else if op = "activate" then .activate else .deactivate
    let onlyActive := match step.opt? "only_active" with
      | some b => flagOf b
      | none => op != "write"
    let refused := texts step "fail_enqueue"
    pure (deskEvent s c d k st r onlyActive (flag step "fail_persist") refused)
  | "lookup" =>
    let name := text step "index"
    let k := key (member step "value")
    match c.indexes.lookup name with
    | none => refuse ("unknown index " ++ name)
    | some x =>
      let (res, d) := (x.visible k).exec d
      pure (resultFields res fun vs => [("refs", .array (vs.map refValue))], d)
  | "dump" =>
    pure ([("indexes", .object (c.indexes.map fun (name, x) => (name, indexDump d.shelf x.name)))], d)
  | other => refuse ("unknown step " ++ other)

/-- Run the steps in order. -/
def deskSteps (s : Schema FieldState) (c : Coordinator) : Desk → List Value → Read (List Value)
  | _, [] => pure []
  | d, step :: rest => do
    let (fields, d') ← deskStep s c d step
    pure (.object fields :: (← deskSteps s c d' rest))

/-- The `coordinator` request. -/
def coordinatorRequest (req : Value) : Read Value := do
  match schemaOf (member req "schema") with
  | .error e => pure (errorReply e)
  | .ok s =>
    let omitted := texts req "omit_indexes"
    let indexes := (s.defs.filter fun d => !omitted.contains d.desc.name).map fun d =>
      (d.desc.name, (⟨s.entityType ++ "." ++ d.desc.name, d.desc⟩ : Index))
    match Coordinator.make s (mapOfPairs indexes) with
    | .error e => pure (errorReply e)
    | .ok c => pure (.object [("steps", .array (← deskSteps s c {} (items req "ops")))])

end EntityIndex.Requests
