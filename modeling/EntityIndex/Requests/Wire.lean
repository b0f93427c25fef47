import EntityIndex.Json.Value
import EntityIndex.Numeric.Decimal
import EntityIndex.Model.Error
import EntityIndex.Model.Record
import EntityIndex.Model.Meta

/-!
# Wire forms of the domain values

Requests and replies are JSON documents. This module reads the domain values out of request
fields and writes them into reply fields.

Fields are read leniently, the way a decoder that asserts types without checking them reads a
document: a field that is absent, null or of another type than expected reads as the zero of its
type (the empty string, false, an empty list, or a stated default for numbers), and a number
counts as an integer only when it is written as one that fits 64 bits. Only values that name
something are checked:

* keys are plain strings, the empty string being the null key;
* entity references are `type/key` strings split at the first slash, with a non-empty type;
* workflow identifiers are UUID strings, or a number `n` standing for the identifier whose last
  group is `n` in decimal, zero-padded to twelve places; a number that names no identifier is a
  failure of the identifier reader, not of the request;
* operations are names, integers modulo 256, or decimal strings of a byte; wrappers, statuses,
  markers and reasons are names or integers modulo 256;
* indexed values are plain JSON values or `{"t": type, "v": value}` objects naming the type;
* failures are `{"error": kind, "message": text}`.

A value that cannot be read refuses the whole request with a message naming it.
-/

namespace EntityIndex.Wire

open EntityIndex.Json

/-- Why a request is refused before it runs. -/
inductive Refusal where
  /-- The request cannot be read; the text says which value was wrong. -/
  | badInput (why : String)
  /-- A value of the request is refused by the domain reader itself. -/
  | failed (e : Error)

/-- Reading a request: a value, or why the request is refused. -/
abbrev Read (α : Type) := Except Refusal α

/-- Refuse a request that cannot be read. -/
def refuse {α : Type} (why : String) : Read α := .error (.badInput why)

/-! ## Fields -/

/-- The field `k` of an object; null when it is absent or `v` is no object. -/
def member (v : Value) (k : String) : Value := (v.field? k).getD .null

/-- The text of a string; any other value reads as the empty string. -/
def textOf (v : Value) : String := v.str?.getD ""

/-- A string field. -/
def text (v : Value) (k : String) : String := textOf (member v k)

/-- A boolean; any other value reads as false. -/
def flagOf (v : Value) : Bool := v.bool?.getD false

/-- A boolean field. -/
def flag (v : Value) (k : String) : Bool := flagOf (member v k)

/-- An integer: a JSON number written as an integer that fits 64 bits. -/
def intOf? : Value → Option Int
  | .number t => Decimal.parseSigned 64 t
  | _ => none

/-- An integer field, `d` when it is not an integer. -/
def intOr (v : Value) (k : String) (d : Int) : Int := (intOf? (member v k)).getD d

/-- The items of an array; any other value reads as no items. -/
def itemsOf (v : Value) : List Value := v.arr?.getD []

/-- An array field. -/
def items (v : Value) (k : String) : List Value := itemsOf (member v k)

/-- The fields of an object; any other value reads as no fields. -/
def entriesOf (v : Value) : List (String × Value) := v.obj?.getD []

/-- An object field. -/
def entries (v : Value) (k : String) : List (String × Value) := entriesOf (member v k)

/-- The strings of an array field, other items skipped. -/
def texts (v : Value) (k : String) : List String := (items v k).filterMap Value.str?

/-- The string fields of an object field, other fields skipped. -/
def textFields (v : Value) (k : String) : List (String × String) :=
  (entriesOf (member v k)).filterMap fun (n, x) => x.str?.map (n, ·)

/-- Read every item of a list. -/
def readAll {α : Type} (f : Value → Read α) (xs : List Value) : Read (List α) :=
  xs.mapM f

mutual

/-- A value as default formatting shows a decoded document: strings bare, numbers as written,
`<nil>` for null, arrays as `[a b]` and objects as `map[k:v]`, names in the order given. -/
def shown : Value → String
  | .null => "<nil>"
  | .bool b => if b then "true" else "false"
  | .number t => t
  | .string s => s
  | .array xs => "[" ++ shownItems xs ++ "]"
  | .object fs => "map[" ++ shownFields fs ++ "]"

/-- Items separated by spaces. -/
def shownItems : List Value → String
  | [] => ""
  | [x] => shown x
  | x :: xs => shown x ++ " " ++ shownItems xs

/-- Fields `k:v` separated by spaces. -/
def shownFields : List (String × Value) → String
  | [] => ""
  | [(k, v)] => k ++ ":" ++ shown v
  | (k, v) :: fs => k ++ ":" ++ shown v ++ " " ++ shownFields fs

end

/-- Bytes written in hexadecimal, spaces between them allowed. -/
def hexBytes (s : String) : Read (List UInt8) :=
  match Hex.decode? (String.ofList (s.toList.filter (· ≠ ' '))) with
  | some bs => pure bs
  | none => refuse "bad hex"

/-! ## Domain values -/

/-- A key. -/
def key (v : Value) : Key := ⟨textOf v⟩

/-- An entity reference `type/key`. -/
def entityRef (v : Value) : Read EntityRef :=
  match EntityRef.parse (textOf v) with
  | .ok r => pure r
  | .error m => refuse m

/-- An operation: a name, an integer modulo 256, or the decimal text of a byte. -/
def operation (v : Value) : Read Operation :=
  match v with
  | .number t =>
    match Decimal.parseSigned 64 t with
    | some i => pure (Operation.ofCode (i % 256).toNat)
    | none => refuse ("bad operation " ++ t)
  | _ =>
    let s := textOf v
    match Operation.ofName? s with
    | some op => pure op
    | none =>
      match Decimal.parseUnsigned 8 s with
      | some n => pure (Operation.ofCode n)
      | none => refuse ("bad operation " ++ Quote.quote s)

/-- A wrapper: a name or an integer modulo 256. -/
def wrapper (v : Value) : Read Wrapper :=
  let bad : Read Wrapper := refuse ("bad wrapper " ++ shown v)
  match v with
  | .number t =>
    match Decimal.parseSigned 64 t with
    | some i => pure (Wrapper.ofCode (i % 256).toNat)
    | none => bad
  | .string s =>
    match Wrapper.ofName? s with
    | some w => pure w
    | none => bad
  | _ => bad

/-- A workflow identifier: a UUID string or a serial number. -/
def uuid (v : Value) : Read Uuid :=
  let byText (s : String) : Read Uuid :=
    match Uuid.parse? s with
    | some u => pure u
    | none => refuse ("bad uuid " ++ Quote.quote s)
  match v with
  | .number t =>
    match Decimal.parseSigned 64 t with
    | some n =>
      match Uuid.ofSerial n with
      | .ok u => pure u
      | .error m => throw (Refusal.failed (.other m))
    | none => byText ""
  | _ => byText (textOf v)

/-- A member update `{"op", "before"?, "after"?}`. -/
def memberUpdate (v : Value) : Read MemberUpdate := do
  let op ← operation (member v "op")
  pure ⟨op, ⟨text v "before"⟩, ⟨text v "after"⟩⟩

/-- An index update: `{"diff": [before, after], "tentative"?}` or the raw fields. -/
def indexUpdate (v : Value) : Read IndexUpdate := do
  match v.opt? "diff" with
  | some d =>
    let pair := itemsOf d
    let u := IndexUpdate.plain (diff (key (pair.getD 0 .null)) (key (pair.getD 1 .null)))
    if flag v "tentative" then pure u.asTentative else pure u
  | none =>
    let op ← operation (member v "op")
    let w ← match v.opt? "wrapper" with
      | some x => wrapper x
      | none => pure Wrapper.plain
    pure ⟨op, ⟨text v "before"⟩, ⟨text v "after"⟩, flag v "tentative", w⟩

/-- A workflow record `{"id", "entity", "interface", "updates": {index: member update}}`. -/
def record (v : Value) : Read WorkflowRecord := do
  let id ← uuid (member v "id")
  let entity ← entityRef (member v "entity")
  let ups ← (entries v "updates").mapM fun (k, x) => do pure (k, ← memberUpdate x)
  pure ⟨id, entity, text v "interface", mapOfPairs ups⟩

/-- Index metadata `{"name", "unique", "eager", "active_only", "max", "partitions"}`. -/
def indexMeta (v : Value) : IndexMeta :=
  { name := text v "name"
    unique := flag v "unique"
    eager := flag v "eager"
    activeOnly := flag v "active_only"
    maxEntries := intOr v "max" 0
    partitions := intOr v "partitions" 0 }

/-- A value of a named type, from the text of its argument. Integers are read in decimal
within their width, floats at their precision; instants are RFC 3339 text; byte strings are
hexadecimal; other types take a string or a boolean as they are, reading anything else as the
zero of the type. -/
def typedValue (t : String) (arg : Value) : Read IndexValue :=
  let written := shown arg
  let signed (bits : Nat) : Read IndexValue :=
    match Decimal.parseSigned bits written with
    | some i => pure (.int i)
    | none => refuse ("bad int" ++ toString bits ++ " " ++ written)
  let unsigned (bits : Nat) : Read IndexValue :=
    match Decimal.parseUnsigned bits written with
    | some n => pure (.uint n)
    | none => refuse ("bad uint" ++ toString bits ++ " " ++ written)
  let float (f : Binary.Format) : Read IndexValue :=
    match Decimal.parseFloat f written with
    | some x => pure (.float f x)
    | none => refuse ("bad float " ++ written)
  match t with
  | "int" | "int64" => signed 64
  | "int8" => signed 8
  | "int16" => signed 16
  | "int32" => signed 32
  | "uint" | "uint64" => unsigned 64
  | "uint8" => unsigned 8
  | "uint16" => unsigned 16
  | "uint32" => unsigned 32
  | "float32" => float Binary.binary32
  | "float64" => float Binary.binary64
  | "time" =>
    let s := textOf arg
    match Time.parse? s with
    | some i => pure (.time i)
    | none => refuse ("bad time " ++ Quote.quote s)
  | "bytes" => do return .bytes (← hexBytes (textOf arg))
  | "stringer" => pure (.described (textOf arg))
  | "key" => pure (.key ⟨textOf arg⟩)
  | "string" => pure (.string (textOf arg))
  | "bool" => pure (.bool (flagOf arg))
  | "nil" => pure .null
  | "struct" => pure (.unsupported "struct \x7b\x7d")
  | "int_slice" => pure (.unsupported "[]int")
  | "map" => pure (.unsupported "map[string]int")
  | other => refuse ("unknown value type " ++ other)

/-- A value offered to an index: a plain JSON value, or a typed one. Integers that fit 64 bits
are signed integers, other numbers 64-bit floats; an array stands for itself, a value of a
type no index accepts. -/
def indexValue (v : Value) : Read IndexValue :=
  match v with
  | .null => pure .null
  | .string s => pure (.string s)
  | .bool b => pure (.bool b)
  | .number t =>
    match Decimal.parseSigned 64 t with
    | some i => pure (.int i)
    | none =>
      match Decimal.parseFloat Binary.binary64 t with
      | some f => pure (.float Binary.binary64 f)
      | none => refuse ("bad number " ++ t)
  | .object _ => typedValue (text v "t") (member v "v")
  | .array _ => pure (.unsupported "[]interface \x7b\x7d")

/-! ## Replies -/

/-- The reply word for a kind of failure. -/
def kindLabel : Kind → String
  | .uniqueness => "UniquenessError"
  | .integrity => "IntegrityError"
  | .config => "ConfigError"
  | .persistence => "PersistenceError"
  | .splitRequired => "SplitRequired"
  | .tentativeNonUnique => "TentativeNonUnique"
  | .unavailable => "IndexUnavailable"
  | .unreachable => "Unreachable"
  | .closed => "Closed"
  | .notFound => "NotFound"
  | .invalidMagic => "InvalidMagic"
  | .invalidVersion => "InvalidVersion"
  | .checksum => "Checksum"
  | .truncated => "Truncated"
  | .unknownCodec => "UnknownCodec"
  | .timeout => "Timeout"
  | .injected => "Injected"
  | .codec => "CodecError"
  | .decompress => "DecompressError"
  | .other => "Error"

/-- The two fields that report a failure. -/
def errorFields (e : Error) : List (String × Value) :=
  [("error", .string (kindLabel e.kind)), ("message", .string e.message)]

/-- A failure as a reply. -/
def errorReply (e : Error) : Value := .object (errorFields e)

/-- A request that could not be read, as a reply. -/
def badInput (why : String) : Value :=
  .object [("error", .string "BadInput"), ("message", .string why)]

/-- A key as a reply field. -/
def keyValue (k : Key) : Value := .string k.text

/-- A reference as a reply field. -/
def refValue (r : EntityRef) : Value := .string r.text

/-- A member update `{"op", "before", "after"}`. -/
def memberFields (u : MemberUpdate) : List (String × Value) :=
  [("op", .string u.op.name), ("before", keyValue u.before), ("after", keyValue u.after)]

/-- An index update with its flags and its description. -/
def indexUpdateValue (u : IndexUpdate) : Value :=
  .object [("op", .string u.op.name), ("before", keyValue u.before), ("after", keyValue u.after),
    ("tentative", .bool u.tentative), ("wrapper", .string u.wrapper.name),
    ("real", .bool u.isReal), ("string", .string u.describe)]

/-- A workflow record, with or without its identifier. -/
def recordValue (withId : Bool) (r : WorkflowRecord) : Value :=
  let body := [("entity", refValue r.entity), ("interface", Value.string r.iface),
    ("updates", Value.object (r.updates.map fun (k, u) => (k, Value.object (memberFields u)))),
    ("index_names", Value.strs r.indexNames), ("has_real_update", Value.bool r.hasRealUpdate)]
  .object (if withId then ("id", .string r.id.text) :: body else body)

/-- A 64-bit hash as decimal text. -/
def hashValue (h : UInt64) : Value := .string (toString h.toNat)

end EntityIndex.Wire
