import EntityIndex.Requests.Wire
import EntityIndex.Bucket.State

/-!
# Bucket state requests

Run a list of steps against one bucket state: apply updates, change the status, look keys up,
set the successor, copy the state, count its keys. Every step's answer carries the state after
the step, entries sorted by key.
-/

namespace EntityIndex.Requests

open EntityIndex.Json EntityIndex.Wire EntityIndex.Bucket

/-- A status: an integer modulo 256, or a name. -/
def status (v : Value) : Read Status :=
  match intOf? v with
  | some i => pure (Status.ofCode (i % 256).toNat)
  | none =>
    let s := textOf v
    match Status.ofName? s with
    | some st => pure st
    | none => refuse ("bad status " ++ Quote.quote s)

/-- A marker: an integer modulo 256, or a name. -/
def marker (v : Value) : Read Marker :=
  match intOf? v with
  | some i => pure (Marker.ofCode (i % 256).toNat)
  | none =>
    let s := textOf v
    match Marker.ofName? s with
    | some m => pure m
    | none => refuse ("bad tentative " ++ Quote.quote s)

/-- One entry `{"key", "values", "tentative"}`. -/
def entryOf (v : Value) : Read (Key × Entry) := do
  let k := key (member v "key")
  let values ← readAll entityRef (items v "values")
  let m ← match v.opt? "tentative" with
    | some t => marker t
    | none => pure .none
  pure (k, ⟨values, m⟩)

/-- One recorded delete `{"key", "entity"}`. -/
def repairOf (v : Value) : Read Repair := do
  pure ⟨key (member v "key"), ← entityRef (member v "entity")⟩

/-- A bucket state `{"entries", "status", "next", "repairs"}`. -/
def bucketState (v : Value) : Read State := do
  let entries ← readAll entryOf (items v "entries")
  let st ← match v.opt? "status" with
    | some x => status x
    | none => pure .available
  pure {
    entries := entries.foldl (fun acc (k, e) => putEntry k e acc) []
    status := st
    next := text v "next"
    repairs := ← readAll repairOf (items v "repairs") }

/-- A bucket state as a reply. -/
def stateValue (s : State) : Value :=
  .object [
    ("entries", .array (s.entries.map fun (k, e) => .object [("key", keyValue k),
      ("tentative", .string e.marker.name), ("values", .array (e.values.map refValue))])),
    ("next", .string s.next),
    ("repairs", .array (s.repairs.map fun r => .object [("key", keyValue r.key),
      ("entity", refValue r.entity)])),
    ("status", .string s.status.name)]

/-- Run one step: its answer fields and the state after it. -/
def bucketStep (m : IndexMeta) (s : State) (step : Value) : Read (List (String × Value) × State) := do
  match text step "op" with
  | "apply" =>
    let r ← entityRef (member step "entity")
    let u ← indexUpdate (member step "update")
    let unique := match step.opt? "unique" with
      | some b => flagOf b
      | none => m.unique
    match s.apply r u unique m with
    | .ok (o, s') => pure ([("result", .string o.name)], s')
    | .error e => pure (errorFields e, s)
  | "set_status" =>
    let (n, s') := s.setStatus (← status (member step "status"))
    pure ([("enforced", .nat n)], s')
  | "lookup" =>
    let sight := s.lookup (key (member step "key"))
    pure ([("values", .array (sight.values.map refValue)), ("tentative", .bool sight.tentative),
      ("found", .bool sight.found)], s)
  | "set_next" => pure ([], { s with next := text step "next" })
  | "clone" => pure ([], s)
  | "len" => pure ([("len", .nat s.size)], s)
  | other => refuse ("unknown step " ++ other)

/-- Run the steps in order, answering each with the state after it. -/
def bucketSteps (m : IndexMeta) : State → List Value → Read (List Value)
  | _, [] => pure []
  | s, step :: rest => do
    let (fields, s') ← bucketStep m s step
    let answers ← bucketSteps m s' rest
    pure (.object (fields ++ [("state", stateValue s')]) :: answers)

/-- The `bucket_state` request. -/
def bucketRequest (req : Value) : Read Value := do
  let m := indexMeta (member req "meta")
  let s ← match req.opt? "init" with
    | some v => bucketState v
    | none => pure {}
  pure (.object [("steps", .array (← bucketSteps m s (items req "ops")))])

end EntityIndex.Requests
