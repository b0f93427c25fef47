import EntityIndex.Requests.Indexes
import EntityIndex.Requests.Buckets
import EntityIndex.Cluster.Nodes
import EntityIndex.Cluster.Register

/-!
# Cluster requests

Open a cluster over an in-memory store, register entity types whose state is a map of fields to
text, and run steps against it: entity activations and writes, lookups, index status, pausing
and flushing the queues, node crashes and recovery, store faults, closing and reopening.

Before every step but `pause`, `resume` and `placement`, the queues are flushed unless draining
is paused or the cluster is closed, so that the passes of earlier writes have run; a flush that
gives up is reported next to the step's own answer. `pause` flushes before it pauses.

Entity handles are kept per entity: `get` always activates and replaces the handle, the other
entity steps use the handle kept, activating only when there is none. A kept handle therefore
reports a deactivation or a crash of its node.
-/

namespace EntityIndex.Requests

open EntityIndex.Json EntityIndex.Wire EntityIndex.Indexing EntityIndex.Cluster

/-- How a cluster is opened. -/
structure Setup where
  /-- The first placement node. -/
  node : String := "node-0"
  /-- Queue shards per interface. -/
  shards : Nat := 4
  /-- The codec of stored documents. -/
  codec : Codec := .fast
  /-- The compression of stored documents. -/
  compression : Compression := .none

/-- The world of a cluster request: the cluster and the entity handles kept, by `type/key`. -/
structure Session where
  /-- The cluster. -/
  cluster : World
  /-- The handles kept. -/
  handles : List (String × Nat) := []

/-- A fresh cluster over the given blobs, handing out record identifiers after `issued`. -/
def Setup.open (s : Setup) (blobs : Store.Blobs) (issued : Nat) : World :=
  { store := { blobs := blobs, codec := s.codec, compression := s.compression }
    dir := { placement := s.node }
    shards := s.shards
    issued := issued }

/-- The options `{"node", "shards", "codec", "compression"}`. -/
def setupOf (o : Value) : Read Setup := do
  let node := text o "node"
  let shards := intOr o "shards" 0
  let codec := text o "codec"
  let codec ← if codec = "" ∨ codec = "go-json" then pure Codec.fast
    else if codec = "json" then pure Codec.standard
    else refuse ("unknown codec " ++ codec)
  pure { node := if node.isEmpty then "node-0" else node
         shards := if 0 < shards then shards.toNat else 4
         codec := codec
         compression := Compression.ofCode (intOr o "compression" 0 % 256).toNat }

/-- One index declaration of a type: the index reads the state's field of its `field` (its own
name when empty) by its `kind` (text when empty). -/
def fieldIndex (v : Value) : Read (IndexDef Fields) := do
  let desc := indexMeta v
  let field := if (text v "field").isEmpty then desc.name else text v "field"
  let kind ← match text v "kind" with
    | "" => pure FieldKind.text
    | n =>
      match FieldKind.ofName? n with
      | some kind => pure kind
      | none => refuse ("unknown kind " ++ n)
  let extract := if flag v "no_extract" then none else some (kind.extract field)
  pure ⟨text v "interface", desc, extract⟩

/-- A type `{"name", "fault_tolerant", "indexes"}`: its name, fault tolerance and declarations. -/
def typeSpec (v : Value) : Read (String × Bool × List (IndexDef Fields)) := do
  pure (text v "name", flag v "fault_tolerant", ← readAll fieldIndex (items v "indexes"))

/-- Register types in order; each one's answer. -/
def registerAll : List (String × Bool × List (IndexDef Fields)) → World → List Value × World
  | [], c => ([], c)
  | (name, ft, defs) :: rest, c =>
    let (r, c) := (World.register name ft defs).exec c
    let (more, c) := registerAll rest c
    (resultValue r :: more, c)
where
  /-- A registration's answer. -/
  resultValue (r : Except Error Unit) : Value :=
    match r with
    | .ok () => .object [("ok", .bool true)]
    | .error e => errorReply e

/-- Refs sorted by type, then key. -/
def sortRefs (rs : List EntityRef) : List EntityRef := rs.mergeSort fun a b => EntityRef.compare a b ≤ 0

/-- A state as a reply. -/
def fieldsValue (fs : Fields) : Value := fs.toDoc

/-- The registered type of a step. -/
def stepType (c : World) (step : Value) : Read (String × EntityType) := do
  let name := text step "type"
  match c.type? name with
  | some t => pure (name, t)
  | none => refuse ("unregistered entity type " ++ name)

/-- The index of a type by name. -/
def indexNamed (typeName : String) (t : EntityType) (name : String) : Except Error Bucket.Index :=
  match t.coordinator.indexes.lookup name with
  | some x => .ok x
  | none => .error (.context ("index " ++ name ++ " of " ++ typeName) Error.notFound)

/-- The index and key a lookup step names. -/
def lookupTarget (typeName : String) (t : EntityType) (step : Value) :
    Read (Except Error (Bucket.Index × Key)) := do
  let name := text step "index"
  let v ← indexValue (member step "value")
  pure (do
    let x ← indexNamed typeName t name
    let k ← v.keyOf
    pure (x, k))

/-- The handle of an entity: the one kept, or a new activation. -/
def handleFor (s : Session) (typeName key : String) : Run World Nat :=
  match s.handles.lookup (typeName ++ "/" ++ key) with
  | some h => pure h
  | none => World.getEntity typeName key

/-- Keep a handle. -/
def Session.keep (s : Session) (typeName key : String) (h : Nat) : Session :=
  { s with handles := insertByName (typeName ++ "/" ++ key) h s.handles }

/-- Run a step on the entity behind a handle: its answer from the handle and the outcome. -/
def entityStep (s : Session) (typeName key : String) {α : Type} (m : Nat → Run World α)
    (fields : Entity → Except Error α → List (String × Value)) : List (String × Value) × Session :=
  match (handleFor s typeName key).exec s.cluster with
  | (.error e, c) => (errorFields e, { s with cluster := c })
  | (.ok h, c) =>
    let s := s.keep typeName key h
    let (r, c) := (m h).exec c
    let e := (c.entities[h]?).getD default
    (fields e r, { s with cluster := c })

/-- The change a write step makes: set fields, then unset fields, or fail. -/
def stateChange (step : Value) : Read (Fields → Except Error Fields) := do
  let sets := textFields step "set"
  let unsets := texts step "unset"
  let fail := flag step "fail"
  pure fun st =>
    if fail then .error (.injected "callback failed")
    else .ok (unsets.foldl Fields.unset (sets.foldl (fun st (k, v) => st.set k v) st))

/-- The fields of an outcome that has no answer of its own. -/
def doneFields (r : Except Error Unit) : List (String × Value) :=
  match r with
  | .ok () => []
  | .error e => errorFields e

/-- Run a cluster operation, answering with its failure if any. -/
def clusterStep (s : Session) (m : Run World Unit) : List (String × Value) × Session :=
  let (r, c) := m.exec s.cluster
  (doneFields r, { s with cluster := c })

/-- Flush the queues, unless drains are paused or the system is closed. -/
def flushIfDraining (c : World) : Except Error Unit × World :=
  if c.paused || c.closed then (.ok (), c) else World.flush.exec c

/-- Run one step, without the flush before it. -/
def sessionStep (setup : Setup) (types : List Value) (s : Session) (step : Value) :
    Read (List (String × Value) × Session) := do
  let op := text step "op"
  let c := s.cluster
  match op with
  | "register" =>
    let (name, ft, defs) ← typeSpec (member step "spec")
    let (r, c) := (World.register name ft defs).exec c
    pure ([registerAll.resultValue r].flatMap (fun v => match v with
      | .object fs => fs
      | _ => []), { s with cluster := c })
  | "get" =>
    let (name, _) ← stepType c step
    let key := text step "key"
    match (World.getEntity name key).exec c with
    | (.error e, c) => pure (errorFields e, { s with cluster := c })
    | (.ok h, c) =>
      let e := (c.entities[h]?).getD default
      pure ([("node", .string e.node), ("ref", .string e.ref.text), ("state", fieldsValue e.state)],
        ({ s with cluster := c }).keep name key h)
  | "update" =>
    let (name, _) ← stepType c step
    let change ← stateChange step
    pure (entityStep s name (text step "key") (fun h => World.updateEntity h change)
      fun e r => [("state", fieldsValue e.state)] ++ doneFields r)
  | "deactivate" =>
    let (name, _) ← stepType c step
    pure (entityStep s name (text step "key") World.deactivateEntity fun _ r => doneFields r)
  | "state" =>
    let (name, _) ← stepType c step
    pure (entityStep s name (text step "key") (fun _ => pure ()) fun e _ =>
      [("state", fieldsValue e.state)])
  | "handle_node" =>
    let (name, _) ← stepType c step
    pure (entityStep s name (text step "key") (fun _ => pure ()) fun e _ =>
      [("node", .string e.node)])
  | "active_ids" =>
    let (name, _) ← stepType c step
    pure (entityStep s name (text step "key") World.activeIds fun _ r =>
      match r with
      | .ok ids => [("count", .nat ids.length)]
      | .error e => errorFields e)
  | "lookup" =>
    let (name, t) ← stepType c step
    match ← lookupTarget name t step with
    | .error e => pure (errorFields e, s)
    | .ok (x, k) =>
      let (r, c) := (x.visible k).exec c
      pure (resultFields r (fun rs => [("refs", .array ((sortRefs rs).map refValue))]), { s with cluster := c })
  | "lookup_unique" =>
    let (name, t) ← stepType c step
    match ← lookupTarget name t step with
    | .error e => pure (errorFields e, s)
    | .ok (x, k) =>
      let (r, c) := (x.lookupUnique k).exec c
      pure (resultFields r (fun ref => [("ref", refValue ref)]), { s with cluster := c })
  | "lookup_stream" =>
    let (name, t) ← stepType c step
    let limit := intOr step "limit" 0
    match ← lookupTarget name t step with
    | .error e => pure ([("refs", .array []), ("errors", .array [errorReply e])], s)
    | .ok (x, k) =>
      let (r, c) := (x.visible k).exec c
      let s := { s with cluster := c }
      match r with
      | .ok rs =>
        let rs := if 0 < limit then rs.take limit.toNat else rs
        pure ([("refs", .array ((sortRefs rs).map refValue))], s)
      | .error e => pure ([("refs", .array []), ("errors", .array [errorReply e])], s)
  | "lookup_streamed" =>
    let (name, t) ← stepType c step
    let failed := fun (e : Error) =>
      [("batches", Value.array []), ("completed", .bool false), ("observed_error", errorReply e)] ++
        errorFields e
    match ← lookupTarget name t step with
    | .error e => pure (failed e, s)
    | .ok (x, k) =>
      let (r, c) := (x.visible k).exec c
      let s := { s with cluster := c }
      match r with
      | .ok rs =>
        let batches := if rs.isEmpty then [] else [Value.array ((sortRefs rs).map refValue)]
        pure ([("batches", .array batches), ("completed", .bool true)], s)
      | .error e => pure (failed e, s)
  | "is_available" =>
    let (name, t) ← stepType c step
    match indexNamed name t (text step "index") with
    | .error e => pure (errorFields e, s)
    | .ok x =>
      let (r, c) := x.isAvailable.exec c
      pure (resultFields r (fun b => [("available", .bool b)]), { s with cluster := c })
  | "set_status" =>
    let (name, t) ← stepType c step
    let index := text step "index"
    let st ← status (member step "status")
    match indexNamed name t index with
    | .error e => pure (errorFields e, s)
    | .ok x =>
      pure (clusterStep s do
        match ← Run.attempt (x.setStatus st) with
        | .ok () => pure ()
        | .error e => throw (.context ("index " ++ index) e))
  | "buckets" =>
    let (name, t) ← stepType c step
    match indexNamed name t (text step "index") with
    | .error e => pure (errorFields e, s)
    | .ok x =>
      let (r, c) := x.count.exec c
      pure (resultFields r (fun n => [("count", .nat n)]), { s with cluster := c })
  | "flush" => pure (clusterStep s World.flush)
  | "pause" =>
    -- a pause makes its own flush, by the same rule, and answers that flush's failure itself
    let (r, c) := flushIfDraining c
    let (_, c) := (World.setPaused true).exec c
    pure (doneFields r, { s with cluster := c })
  | "resume" => pure (clusterStep s (World.setPaused false))
  | "crash_node" => pure (clusterStep s (World.crashNode (text step "node")))
  | "place_on" =>
    pure ([], { s with cluster := c.setDir (c.dir.setPlacement (text step "node")) })
  | "placement" => pure ([("placement", .string c.placement)], s)
  | "recover_node" => pure (clusterStep s (World.recoverNode (text step "node")))
  | "fault" =>
    let (pre, f) := faultRule step
    pure ([], { s with cluster := { c with store := { c.store with blobs := c.store.blobs.addRule pre f } } })
  | "clear_faults" =>
    pure ([], { s with cluster := { c with store := { c.store with blobs := c.store.blobs.clearRules } } })
  | "close" => pure (clusterStep s World.close)
  | "reopen" =>
    let specs ← match step.opt? "types" with
      | some v => readAll typeSpec (itemsOf v)
      | none => readAll typeSpec types
    let (_, c) := World.close.exec c
    let (regs, c) := registerAll specs (setup.open c.store.blobs c.issued)
    pure ([("register", .array regs)], { cluster := c })
  | other => refuse ("unknown step " ++ other)

/-- Whether a step has the flush before it: all but `pause`, which flushes itself, `resume` and
`placement`. -/
def flushesFirst (op : String) : Bool :=
  !(op = "pause" ∨ op = "resume" ∨ op = "placement")

/-- Run one step with the flush before it. -/
def systemStep (setup : Setup) (types : List Value) (s : Session) (step : Value) :
    Read (List (String × Value) × Session) := do
  let op := text step "op"
  let (flushed, s) :=
    if flushesFirst op then
      let (r, c) := flushIfDraining s.cluster
      (match r with
        | .ok () => []
        | .error e => [("flush_error", errorReply e)], { s with cluster := c })
    else ([], s)
  let (fields, s) ← sessionStep setup types s step
  pure (fields ++ flushed, s)

/-- Run the steps in order. -/
def systemSteps (setup : Setup) (types : List Value) : Session → List Value → Read (List Value)
  | _, [] => pure []
  | s, step :: rest => do
    let (fields, s') ← systemStep setup types s step
    pure (.object fields :: (← systemSteps setup types s' rest))

/-- The `system` request. -/
def systemRequest (req : Value) : Read Value := do
  let opts := member req "options"
  if flag opts "nil_store" then return errorReply (.config "blob store is nil")
  let setup ← setupOf opts
  let types := items req "types"
  let (regs, c) := registerAll (← readAll typeSpec types) (setup.open {} 0)
  pure (.object [("register", .array regs),
    ("steps", .array (← systemSteps setup types { cluster := c } (items req "ops")))])

end EntityIndex.Requests
