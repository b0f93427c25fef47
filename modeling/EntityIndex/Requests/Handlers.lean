import EntityIndex.Requests.Queues
import EntityIndex.Workflow.Handler

/-!
# Pass handler requests

Run passes of records against indexes named `player.<name>` over one faulty in-memory store.
Entities are stand-ins that only keep active sets: some cannot be reached, and some fail to
forget identifiers when asked. Every pass answers with the active sets and the indexes' buckets.
-/

namespace EntityIndex.Requests

open EntityIndex.Json EntityIndex.Wire EntityIndex.Bucket EntityIndex.Workflow

/-- The world of a handler request. -/
structure Bench where
  /-- The buckets of every index and their store. -/
  shelf : Shelf := {}
  /-- The active sets of the known entities. -/
  active : List (EntityRef × List Uuid) := []
  /-- Entities that cannot be reached. -/
  unreachable : List EntityRef := []
  /-- Entities that fail to forget identifiers. -/
  stubborn : List EntityRef := []
  deriving Inhabited

instance : Host Bench := Shelf.hostVia Bench.shelf fun b s => { b with shelf := s }

/-- Set an entity's active set; an identifier given twice is held once. -/
def Bench.setActive (b : Bench) (ref : EntityRef) (ids : List Uuid) : Bench :=
  let ids := ids.eraseDups
  if (b.active.lookup ref).isSome then
    { b with active := b.active.map fun (e, is) => if e = ref then (e, ids) else (e, is) }
  else { b with active := b.active ++ [(ref, ids)] }

/-- The entities of a handler request. -/
def benchEntities : Entities Bench where
  activeIds ref := do
    let b ← get
    if b.unreachable.contains ref then throw (.context ("entity " ++ ref.text) Error.unreachable)
    pure ((b.active.lookup ref).getD [])
  forget ref ids := do
    let b ← get
    if b.stubborn.contains ref then throw (.injected ("remove failed: " ++ ref.text))
    match b.active.lookup ref with
    | some is => set (b.setActive ref (is.filter (!ids.contains ·)))
    | none => pure ()

/-- The active sets as a reply. -/
def activeValue (b : Bench) : Value :=
  .object (b.active.map fun (ref, ids) => (ref.text, uuidsValue (Uuid.sorted ids)))

/-- The buckets of every index as a reply. -/
def indexesDump (indexes : List (String × Index)) (w : Shelf) : Value :=
  .object (indexes.map fun (name, x) => (name, indexDump w x.name))

/-- Run one step: its answer fields and the world after it. -/
def benchStep (h : PassHandler) (b : Bench) (step : Value) : Read (List (String × Value) × Bench) := do
  match text step "op" with
  | "handle" =>
    let recs ← readAll record (items step "records")
    let (r, b) := (h.handle benchEntities recs).exec b
    pure ([("chain_len", .nat recs.length), ("active", activeValue b),
      ("indexes", indexesDump h.indexes b.shelf)] ++ failureFields r, b)
  | "lookup" =>
    let name := text step "index"
    let k := key (member step "value")
    match h.indexes.lookup name with
    | none => refuse ("unknown index " ++ name)
    | some x =>
      let (res, b) := (x.visible k).exec b
      pure (resultFields res fun vs => [("refs", .array (vs.map refValue))], b)
  | "set_active" =>
    let ref ← entityRef (member step "entity")
    let ids ← readAll uuid (items step "ids")
    let b := b.setActive ref ids
    pure ([("active", activeValue b)], b)
  | "fault" =>
    let (pre, f) := faultRule step
    let w := b.shelf
    pure ([], { b with shelf := { w with store := { w.store with blobs := w.store.blobs.addRule pre f } } })
  | "clear_faults" =>
    let w := b.shelf
    pure ([], { b with shelf := { w with store := { w.store with blobs := w.store.blobs.clearRules } } })
  | other => refuse ("unknown step " ++ other)

/-- Run the steps in order. -/
def benchSteps (h : PassHandler) : Bench → List Value → Read (List Value)
  | _, [] => pure []
  | b, step :: rest => do
    let (fields, b') ← benchStep h b step
    pure (.object fields :: (← benchSteps h b' rest))

/-- The `handler` request. -/
def handlerRequest (req : Value) : Read Value := do
  let metas := (items req "indexes").map indexMeta
  let indexes := mapOfPairs (metas.map fun m => (m.name, (⟨"player." ++ m.name, m⟩ : Index)))
  let active ← (entries req "entities").mapM fun (r, ids) => do
    let ref ← entityRef (.string r)
    pure (ref, (← readAll uuid (itemsOf ids)).eraseDups)
  let unreachable ← readAll entityRef (items req "unreachable")
  let stubborn ← readAll entityRef (items req "fail_remove")
  let h : PassHandler := ⟨flag req "fault_tolerant", indexes⟩
  let b : Bench := { active := active, unreachable := unreachable, stubborn := stubborn }
  pure (.object [("steps", .array (← benchSteps h b (items req "ops")))])

end EntityIndex.Requests
