import EntityIndex.Bucket.State
import EntityIndex.Store.Forms

/-!
# Stored bucket state

A bucket is persisted as `{"entries": {key: {"values": [ref], "tentative"?: n}}, "status": n,
"next"?: id, "repairs"?: [{"key", "entity"}]}`: entries keyed by key, a settled marker, an empty
successor and no repairs left out.
-/

namespace EntityIndex.Bucket

open EntityIndex.Json EntityIndex.Forms

/-- An entry as stored. -/
def Entry.toDoc (e : Entry) : Value :=
  .object ([("values", Value.array (e.values.map refDoc))] ++
    (if e.marker.code = 0 then [] else [("tentative", .nat e.marker.code)]))

/-- An entry read back. -/
def Entry.ofDoc (v : Value) : Option Entry := do
  pure ⟨← readItems refOfDoc (← itemsField v "values"), Marker.ofCode (← natField v "tentative" 8)⟩

/-- A recorded delete as stored. -/
def Repair.toDoc (r : Repair) : Value :=
  .object [("key", .string r.key.text), ("entity", refDoc r.entity)]

/-- A recorded delete read back. -/
def Repair.ofDoc (v : Value) : Option Repair := do
  let entity ← match v.field? "entity" with
    | some e => refOfDoc e
    | none => some ⟨"", ""⟩
  pure ⟨⟨← textField v "key"⟩, entity⟩

/-- A bucket state as stored. -/
def State.toDoc (s : State) : Value :=
  .object ([("entries", Value.object (s.entries.map fun (k, e) => (k.text, e.toDoc))),
    ("status", .nat s.status.code)] ++
    (if s.next.isEmpty then [] else [("next", .string s.next)]) ++
    (if s.repairs.isEmpty then [] else [("repairs", .array (s.repairs.map Repair.toDoc))]))

/-- A bucket state read back; a `null` entry reads as an empty one. -/
def State.ofDoc (v : Value) : Option State := do
  let entries ← readFields (fun e => match e with
      | .null => some { values := [] }
      | _ => Entry.ofDoc e)
    (← fieldsField v "entries")
  pure {
    entries := entries.foldl (fun acc (k, e) => putEntry ⟨k⟩ e acc) []
    status := Status.ofCode (← natField v "status" 8)
    next := ← textField v "next"
    repairs := ← readItems Repair.ofDoc (← itemsField v "repairs") }

end EntityIndex.Bucket
