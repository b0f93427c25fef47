import EntityIndex.Model.Key
import EntityIndex.Model.Record
import EntityIndex.Json.Value
import EntityIndex.Numeric.Decimal
import EntityIndex.Text.Time
import EntityIndex.Bytes.Hex

/-!
# Entity state as fields

The entities of a cluster hold their state as a map from field names to text, kept sorted by
name with one entry per name. An index reads one field and turns its text into the value it
indexes by a `FieldKind`: as text, as optional text where the empty text is no value, or by
reading a number, a truth value, bytes in hexadecimal or an instant. Text that does not read is
no value, and so is a missing field, whatever the kind.
-/

namespace EntityIndex.Cluster

open EntityIndex.Json

/-- An entity's state: field names to text, sorted by name, one entry per name. -/
abbrev Fields := List (String × String)

namespace Fields

/-- Give a field a text. -/
def set (fs : Fields) (k v : String) : Fields := insertByName k v fs

/-- Drop a field. -/
def unset (fs : Fields) (k : String) : Fields := fs.filter (·.1 != k)

/-- The state as a document: an object of texts. -/
def toDoc (fs : Fields) : Value := .object (fs.map fun (k, v) => (k, .string v))

/-- The state in a document: `null` is the empty state, and the last of equal names wins. -/
def ofDoc : Value → Option Fields
  | .null => some []
  | .object kvs =>
    kvs.foldlM (fun acc (k, v) =>
      match v with
      | .string s => some (insertByName k s acc)
      | .null => some (insertByName k "" acc)
      | _ => none) []
  | _ => none

end Fields

/-- How an index reads the text of a field. -/
inductive FieldKind where
  /-- The text itself. -/
  | text
  /-- The text, the empty text being no value. -/
  | optional
  /-- A signed 64-bit decimal integer. -/
  | int
  /-- An unsigned 64-bit decimal integer. -/
  | uint
  /-- A 64-bit float literal. -/
  | float
  /-- A truth value: `1`, `t`, `T`, `TRUE`, `true`, `True` or their negations. -/
  | bool
  /-- Bytes in hexadecimal. -/
  | bytes
  /-- An RFC 3339 instant. -/
  | time
  /-- A value of a type no index accepts. -/
  | unsupported
  deriving DecidableEq, Repr, Inhabited

namespace FieldKind

/-- The kind of a name, if it is one. -/
def ofName? : String → Option FieldKind
  | "string" => some .text
  | "optional" => some .optional
  | "int" => some .int
  | "uint" => some .uint
  | "float" => some .float
  | "bool" => some .bool
  | "bytes" => some .bytes
  | "time" => some .time
  | "bad" => some .unsupported
  | _ => none

/-- A truth value in text. -/
def readBool (s : String) : Option Bool :=
  if s = "1" ∨ s = "t" ∨ s = "T" ∨ s = "TRUE" ∨ s = "true" ∨ s = "True" then some true
  else if s = "0" ∨ s = "f" ∨ s = "F" ∨ s = "FALSE" ∨ s = "false" ∨ s = "False" then some false
  else none

/-- The value of a field's text; text that does not read is no value. -/
def read (k : FieldKind) (s : String) : IndexValue :=
  let orNull {α : Type} (x : Option α) (f : α → IndexValue) : IndexValue :=
    match x with
    | some a => f a
    | none => .null
  match k with
  | .text => .string s
  | .optional => if s.isEmpty then .null else .string s
  | .int => orNull (Decimal.parseSigned 64 s) .int
  | .uint => orNull (Decimal.parseUnsigned 64 s) .uint
  | .float => orNull (Decimal.parseFloat Binary.binary64 s) (.float Binary.binary64)
  | .bool => orNull (readBool s) .bool
  | .bytes => orNull (Hex.decode? s) .bytes
  | .time => orNull (Time.parse? s) .time
  | .unsupported => .unsupported "struct \x7b\x7d"

/-- The value an index of this kind reads from field `name` of a state. -/
def extract (k : FieldKind) (name : String) (fs : Fields) : IndexValue :=
  match fs.lookup name with
  | some s => k.read s
  | none => .null

end FieldKind

end EntityIndex.Cluster
