import EntityIndex.Requests.Wire
import EntityIndex.Indexing.Generate

/-!
# Schema requests

Build a schema from declarations whose values are read from a state given as a map of fields to
typed values, then report it: its interfaces and declarations, which names it knows, and the
images of a state. Or generate the updates of one event from recorded images.
-/

namespace EntityIndex.Requests

open EntityIndex.Json EntityIndex.Wire EntityIndex.Indexing

/-- A state given as fields with typed values. -/
abbrev FieldState := List (String × IndexValue)

/-- One declaration: `{"interface", "field"?, "no_extract"?}` with the index description; the
value is the state's field of that name (the index name when empty), nil when absent. -/
def indexDef (v : Value) : IndexDef FieldState :=
  let desc := indexMeta v
  let field := if (text v "field").isEmpty then desc.name else text v "field"
  let extract : Option (FieldState → IndexValue) :=
    if flag v "no_extract" then none else some fun st => (st.lookup field).getD .null
  ⟨text v "interface", desc, extract⟩

/-- A state `{field: typed}`. -/
def fieldState (v : Value) : Read FieldState :=
  (entriesOf v).mapM fun (k, t) => do pure (k, ← indexValue t)

/-- A schema `{"entity_type", "fault_tolerant", "defs"}`. -/
def schemaOf (v : Value) : Except Error (Schema FieldState) :=
  Schema.make (text v "entity_type") (flag v "fault_tolerant") ((items v "defs").map indexDef)

/-- Images as a reply `{iface: {index: key}}`. -/
def imagesValue (im : Images) : Value :=
  .object (im.byIface.map fun (iface, ks) => (iface, .object (ks.map fun (i, k) => (i, keyValue k))))

/-- Images `{iface: {index: key}}`; an interface appears once it has an index. -/
def imagesOf (v : Value) : Images :=
  ⟨mapOfPairs ((entriesOf v).filterMap fun (iface, ks) =>
    match entriesOf ks with
    | [] => none
    | ks => some (iface, mapOfPairs (ks.map fun (i, k) => (i, key k))))⟩

/-- The `schema` request. -/
def schemaRequest (req : Value) : Read Value := do
  match schemaOf req with
  | .error e => pure (errorReply e)
  | .ok s =>
    let names := texts req "find"
    let st ← fieldState (member req "state")
    pure (.object [
      ("entity_type", .string s.entityType),
      ("fault_tolerant", .bool s.faultTolerant),
      ("interfaces", if s.interfaces.isEmpty then .null else Value.strs s.interfaces),
      ("defs", .array (s.defs.map fun d =>
        .object [("interface", .string d.iface), ("name", .string d.desc.name)])),
      ("found", .array (names.map fun n => .bool (s.find? n).isSome)),
      ("extract", match s.extract st with
        | .ok im => imagesValue im
        | .error e => errorReply e)])

/-- A reason: an integer modulo 256, or a name. -/
def reason (v : Value) : Read Reason :=
  match intOf? v with
  | some i => pure (Reason.ofCode (i % 256).toNat)
  | none =>
    let s := textOf v
    match Reason.ofName? s with
    | some r => pure r
    | none => refuse ("bad reason " ++ Quote.quote s)

/-- Updates by interface as a reply `{iface: {index: M}}`. -/
def updatesValue (us : List (String × List (String × MemberUpdate))) : Value :=
  .object (us.map fun (iface, ms) => (iface, .object (ms.map fun (i, m) => (i, .object (memberFields m)))))

/-- The `generate` request. -/
def generateRequest (req : Value) : Read Value := do
  match schemaOf (member req "schema") with
  | .error e => pure (errorReply e)
  | .ok s =>
    let images := imagesOf (member req "images")
    let st ← fieldState (member req "state")
    let r ← reason (member req "reason")
    match generate s images st r (flag req "only_active") with
    | .error e => pure (errorReply e)
    | .ok us => pure (.object [
        ("by_interface", updatesValue us.byInterface),
        ("eager", .bool us.eager),
        ("only_unique_updated", .bool us.onlyUniqueUpdated),
        ("num_unique", .nat us.numUnique),
        ("len", .nat us.len),
        ("empty", .bool us.empty),
        ("reason", .string r.name),
        ("committed", imagesValue (images.commit us.byInterface))])

end EntityIndex.Requests
