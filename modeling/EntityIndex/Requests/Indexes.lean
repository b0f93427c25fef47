import EntityIndex.Requests.Buckets
import EntityIndex.Bucket.Shelf

/-!
# Index requests

Run a list of steps against one index whose buckets live on a shelf over a faulty in-memory
store: apply updates one at a time or in batches, change statuses, look keys up in the ways a
reader can, count buckets, forget the activations, inject store faults. Steps that change the
index answer with the active buckets after them; a failing step carries the failure and the
sequence goes on.
-/

namespace EntityIndex.Requests

open EntityIndex.Json EntityIndex.Wire EntityIndex.Bucket

/-- The active buckets sorted by address, each with its state. -/
def shelfDump (w : Shelf) : Value :=
  .array (w.active.map fun (id, s) => .object [("id", .string id), ("state", stateValue s)])

/-- The active buckets of one index, sorted by address. -/
def indexDump (w : Shelf) (index : String) : Value :=
  .array ((w.active.filter fun (id, _) => owns index id).map fun (id, s) =>
    .object [("id", .string id), ("state", stateValue s)])

/-- A failure rule `{"prefix", "fail_puts"?, "fail_open"?}`; writes fail always by default. -/
def faultRule (step : Value) : String × Store.Fault :=
  (text step "prefix", ⟨intOr step "fail_puts" (-1), flag step "fail_open"⟩)

/-- One batch item `{"entity", "update"}`. -/
def batchItem (v : Value) : Read Item := do
  pure ⟨← entityRef (member v "entity"), ← indexUpdate (member v "update")⟩

/-- The answer fields of a step that changes the index: the dump, and the failure if any. -/
def changed (r : Except Error Unit) (w : Shelf) : List (String × Value) :=
  [("buckets", shelfDump w)] ++
    match r with
    | .ok () => []
    | .error e => errorFields e

/-- The answer fields of a result, or of its failure. -/
def resultFields {α : Type} (r : Except Error α) (f : α → List (String × Value)) :
    List (String × Value) :=
  match r with
  | .ok a => f a
  | .error e => errorFields e

/-- The visible entities under a key, handed to an observer that may stop the lookup; the lookup is
counted, as failed when the walk or the observer fails. -/
def observedLookup (x : Index) (k : Key) (judge : List EntityRef → Option Error) (w : Shelf) :
    Except Error (List EntityRef) × Option Error × Shelf :=
  let (r, w) := (x.visible k).exec w
  match r with
  | .error e => (.error e, none, w.looked true)
  | .ok vs =>
    let verdict := if vs.isEmpty then none else judge vs
    (.ok vs, verdict, w.looked verdict.isSome)

/-- The failure an observer gives when it stops a lookup. -/
def observerStop : Error := .injected "observer stop"

/-- Run one step: its answer fields and the world after it. -/
def indexStep (x : Index) (w : Shelf) (step : Value) : Read (List (String × Value) × Shelf) := do
  match text step "op" with
  | "apply" =>
    let r ← entityRef (member step "entity")
    let u ← indexUpdate (member step "update")
    let (res, w) := (x.apply r u).exec w
    pure (changed res w, w)
  | "apply_batch" =>
    let items ← readAll batchItem (items step "items")
    let (res, w) := (x.applyBatch items).exec w
    pure (changed res w, w)
  | "set_status" =>
    let st ← status (member step "status")
    let (res, w) := (x.setStatus st).exec w
    pure (changed res w, w)
  | "set_bucket_status" =>
    let id := text step "id"
    let st ← status (member step "status")
    -- a bucket that cannot be activated answers its failure alone
    match (resolve id : Run Shelf State).exec w with
    | (.error e, w) => pure (errorFields e, w)
    | (.ok _, w) =>
      let (res, w) := (setStatusAt id st : Run Shelf Unit).exec w
      pure (changed res w, w)
  | "lookup" =>
    let k := key (member step "key")
    let (res, _, w) := observedLookup x k (fun _ => none) w
    pure (resultFields res fun vs => [("refs", .array (vs.map refValue))], w)
  | "lookup_unique" =>
    let k := key (member step "key")
    let (res, w) := (x.lookupUnique k).exec w
    pure (resultFields res fun r => [("ref", refValue r)], w)
  | "lookup_stream" =>
    let k := key (member step "key")
    -- a negative limit, or none, is no limit
    let n := intOr step "limit" (-1)
    let limit := if 0 ≤ n then some n.toNat else none
    let cut := fun (xs : List Value) => match limit with
      | some n => xs.take n
      | none => xs
    let judge := fun (vs : List EntityRef) => match limit with
      | some n => if n < vs.length then some observerStop else none
      | none => none
    let (res, _, w) := observedLookup x k judge w
    let items := match res with
      | .ok vs => vs.map refValue
      | .error e => [errorReply e]
    pure ([("items", .array (cut items))], w)
  | "lookup_batches" =>
    let k := key (member step "key")
    -- the observer stops once it has seen more batches than allowed; a negative allowance
    -- never stops it
    let failAfter := intOr step "fail_after" (-1)
    let judge := fun (_ : List EntityRef) =>
      if 0 ≤ failAfter ∧ failAfter < 1 then some observerStop else none
    let (res, verdict, w) := observedLookup x k judge w
    match res with
    | .error e => pure ([("batches", .array [])] ++ errorFields e, w)
    | .ok vs =>
      let batches := if vs.isEmpty then [] else [Value.array (vs.map refValue)]
      pure ([("batches", .array batches)] ++ (verdict.map errorFields).getD [], w)
  | "is_available" =>
    let (res, w) := x.isAvailable.exec w
    pure (resultFields res fun b => [("available", .bool b)], w)
  | "buckets" =>
    let (res, w) := x.count.exec w
    pure (resultFields res fun n => [("count", .nat n)], w)
  | "dump" => pure ([("buckets", shelfDump w)], w)
  | "reload" => pure ([], w.forget)
  | "stats" =>
    let c := w.counters
    pure ([("chain_growths", .nat c.chainGrowths), ("lookups", .nat c.lookups),
      ("lookup_errors", .nat c.lookupErrors)], w)
  | "fault" =>
    let (pre, f) := faultRule step
    pure ([], { w with store := { w.store with blobs := w.store.blobs.addRule pre f } })
  | "clear_faults" =>
    pure ([], { w with store := { w.store with blobs := w.store.blobs.clearRules } })
  | other => refuse ("unknown step " ++ other)

/-- Run the steps in order. -/
def indexSteps (x : Index) : Shelf → List Value → Read (List Value)
  | _, [] => pure []
  | w, step :: rest => do
    let (fields, w') ← indexStep x w step
    pure (.object fields :: (← indexSteps x w' rest))

/-- The `index` request. -/
def indexRequest (req : Value) : Read Value := do
  let m := indexMeta (member req "meta")
  let name := if (text req "name").isEmpty then "player." ++ m.name else text req "name"
  pure (.object [("steps", .array (← indexSteps ⟨name, m⟩ {} (items req "ops")))])

end EntityIndex.Requests
