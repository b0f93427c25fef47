import EntityIndex.Json.Value
import EntityIndex.Model.Record
import EntityIndex.Numeric.Decimal

/-!
# Stored forms of the model

How model values are written into persisted documents, and read back. Records are objects with
fixed field names; maps are objects; an update's empty images and other empty optional fields
are left out. Reading is lenient the way decoding into a zero value is: a missing field keeps
its zero value, `null` reads as the zero value, and only a field of the wrong type fails.
-/

namespace EntityIndex.Forms

open EntityIndex.Json

/-- A string field: missing or null is empty. -/
def textField (v : Value) (k : String) : Option String :=
  match v.field? k with
  | none | some .null => some ""
  | some (.string s) => some s
  | some _ => none

/-- A natural number below `2^bits`: missing or null is zero. -/
def natField (v : Value) (k : String) (bits : Nat) : Option Nat :=
  match v.field? k with
  | none | some .null => some 0
  | some (.number t) => (Decimal.parseUnsigned bits t)
  | some _ => none

/-- A Boolean field: missing or null is false. -/
def boolField (v : Value) (k : String) : Option Bool :=
  match v.field? k with
  | none | some .null => some false
  | some (.bool b) => some b
  | some _ => none

/-- An array field: missing or null is empty. -/
def itemsField (v : Value) (k : String) : Option (List Value) :=
  match v.field? k with
  | none | some .null => some []
  | some (.array xs) => some xs
  | some _ => none

/-- An object field: missing or null is empty. -/
def fieldsField (v : Value) (k : String) : Option (List (String × Value)) :=
  match v.field? k with
  | none | some .null => some []
  | some (.object fs) => some fs
  | some _ => none

/-- Read every item, failing when one fails. -/
def readItems {α : Type} (f : Value → Option α) : List Value → Option (List α)
  | [] => some []
  | x :: xs => (f x).bind fun a => (readItems f xs).map (a :: ·)

/-- Read every field's value, failing when one fails. -/
def readFields {α : Type} (f : Value → Option α) : List (String × Value) → Option (List (String × α))
  | [] => some []
  | (k, x) :: xs => (f x).bind fun a => (readFields f xs).map ((k, a) :: ·)

/-- An entity reference `{"type", "key"}`. -/
def refDoc (r : EntityRef) : Value := .object [("type", .string r.type), ("key", .string r.key)]

/-- An entity reference read back; anything but an object reads as the zero reference. -/
def refOfDoc (v : Value) : Option EntityRef :=
  match v with
  | .object _ => do pure ⟨← textField v "type", ← textField v "key"⟩
  | .null => some ⟨"", ""⟩
  | _ => none

/-- A member update `{"op", "before"?, "after"?}`. -/
def memberDoc (u : MemberUpdate) : Value :=
  .object ([("op", Value.nat u.op.code)] ++
    (if u.before.isNull then [] else [("before", .string u.before.text)]) ++
    (if u.after.isNull then [] else [("after", .string u.after.text)]))

/-- A member update read back. -/
def memberOfDoc (v : Value) : Option MemberUpdate := do
  pure ⟨Operation.ofCode (← natField v "op" 8), ⟨← textField v "before"⟩, ⟨← textField v "after"⟩⟩

/-- A workflow record `{"id", "entity", "interface", "updates"}`; no updates is `null`. -/
def recordDoc (r : WorkflowRecord) : Value :=
  .object [("id", .string r.id.text), ("entity", refDoc r.entity), ("interface", .string r.iface),
    ("updates", if r.updates.isEmpty then .null
      else .object (r.updates.map fun (k, u) => (k, memberDoc u)))]

/-- A workflow record read back. -/
def recordOfDoc (v : Value) : Option WorkflowRecord := do
  let id ← match v.field? "id" with
    | some (.string s) => Uuid.parse? s
    | none | some .null => some ⟨0⟩
    | some _ => none
  let entity ← match v.field? "entity" with
    | some e => refOfDoc e
    | none => some ⟨"", ""⟩
  let ups ← readFields memberOfDoc (← fieldsField v "updates")
  pure ⟨id, entity, ← textField v "interface", mapOfPairs ups⟩

end EntityIndex.Forms
