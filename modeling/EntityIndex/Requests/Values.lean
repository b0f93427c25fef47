import EntityIndex.Requests.Wire
import EntityIndex.Workflow.QueueId
import EntityIndex.Bytes.Crc32c

/-!
# Requests on single values

Requests that look at one value at a time: the key of an indexed value, the classification of a
pair of images, the life of an index update through its transformations, entity references,
queue identifiers and checksums. Each takes the request document and answers the reply
document.
-/

namespace EntityIndex.Requests

open EntityIndex.Json EntityIndex.Wire

/-- The key of a value with its hash and partitions; with `must`, a failure is reported as a
panic with the failure's text. -/
def keyOf (req : Value) : Read Value := do
  let v ← indexValue (member req "value")
  let ns := (items req "ns").map fun n => (intOf? n).getD 0
  let must := flag req "must"
  match v.keyOf with
  | .ok k =>
    pure (.object [("key", keyValue k), ("null", .bool k.isNull), ("hash", hashValue k.hash),
      ("partitions", .array (ns.map fun n => Value.nat (k.partition n)))])
  | .error e =>
    if must then pure (.object [("error", .string "Panic"), ("message", .string e.message)])
    else pure (errorReply e)

/-- The classification of two images and what it implies. -/
def diffRequest (req : Value) : Read Value := do
  let before := key (member req "before")
  let after := key (member req "after")
  let current := key (member req "current")
  let u := diff before after
  pure (.object (memberFields u ++ [("real", .bool u.isReal),
    ("next_image", keyValue (u.nextImage current)), ("string", .string u.describe),
    ("plain", indexUpdateValue (IndexUpdate.plain u))]))

/-- One transformation of an index update, by name. -/
def chainStep (u : IndexUpdate) (step : String) : Read IndexUpdate :=
  match step with
  | "tentative" => .ok u.asTentative
  | "final" => .ok u.asFinal
  | "reverse" => .ok u.reverse
  | "split_insert" => .ok u.split.1
  | "split_delete" => .ok u.split.2
  | s =>
    if s.startsWith "override:" then
      (operation (.string (s.drop 9).toString)).map u.override
    else refuse ("unknown step " ++ s)

/-- Apply transformations in turn, answering the update after each. -/
def runChain : IndexUpdate → List String → Read (List IndexUpdate)
  | _, [] => .ok []
  | u, s :: rest => do
    let u' ← chainStep u s
    pure (u' :: (← runChain u' rest))

/-- The update after each transformation. -/
def updateChain (req : Value) : Read Value := do
  let start ← match req.opt? "start" with
    | some s => indexUpdate s
    | none => IndexUpdate.plain <$> memberUpdate (member req "member")
  let steps := texts req "steps"
  let us ← runChain start steps
  pure (.object [("steps", .array (us.map indexUpdateValue))])

/-- A reference given as `{"type", "key"}`. -/
def refParts (v : Value) : EntityRef := ⟨text v "type", text v "key"⟩

/-- Texts, hashes and shards of references; parses; comparisons. -/
def entityRefs (req : Value) : Read Value := do
  let refs := (items req "refs").map refParts
  let ns := (items req "ns").map fun n => (intOf? n).getD 0
  let parses := texts req "parse"
  let pairs := (items req "compare").map fun p =>
    (refParts ((itemsOf p).getD 0 .null), refParts ((itemsOf p).getD 1 .null))
  let refOut := refs.map fun r => Value.object [("string", .string r.text), ("hash", hashValue r.hash),
    ("zero", .bool r.isZero), ("shards", .array (ns.map fun n => Value.nat (r.shard n)))]
  let parseOut := parses.map fun s =>
    match EntityRef.parse s with
    | .ok r => Value.object [("type", .string r.type), ("key", .string r.key)]
    | .error m => Value.object [("error", .string "Error"), ("message", .string m)]
  let cmpOut := pairs.map fun (a, b) => Value.int (EntityRef.compare a b)
  pure (.object [("refs", .array refOut), ("parse", .array parseOut), ("compare", .array cmpOut)])

/-- The parts of a queue identifier, or the reason it has none. -/
def addressValue (withState : Bool) (id : String) : Value :=
  let state := if withState then [("state_name", Value.string (QueueId.stateName id))] else []
  match QueueId.parse id with
  | .ok a => .object ([("interface", .string a.iface), ("shard", .int a.shard),
      ("node", .string a.node), ("reincarnated", .bool a.reincarnated)] ++ state)
  | .error m => .object ([("error", .string "Error"), ("message", .string m)] ++ state)

/-- Queue identifiers built from parts, and parsed. -/
def queueIds (req : Value) : Read Value := do
  let parses := texts req "parse"
  let parsed := ("parse", Value.array (parses.map (addressValue true)))
  match member req "iface" with
  | .string iface =>
    let shard := intOr req "shard" 0
    let node := text req "node"
    let id := QueueId.make iface shard node
    let re := QueueId.reincarnation id
    pure (.object [("id", .string id), ("reincarnation", .string re),
      ("state_name", .string (QueueId.stateName id)),
      ("reincarnation_state_name", .string (QueueId.stateName re)),
      ("parsed", addressValue false id), ("reincarnation_parsed", addressValue false re), parsed])
  | _ => pure (.object [parsed])

/-- The CRC-32C of bytes given in hexadecimal, one-shot and streamed, and a verification. -/
def crc (req : Value) : Read Value := do
  let bytes ← hexBytes (text req "hex")
  let sum := Crc32c.checksum bytes
  let base := [("crc", Value.nat sum.toNat), ("streamed", Value.nat (Crc32c.streamed 7 bytes).toNat)]
  match req.opt? "want" with
  | some w =>
    let want := (intOf? w).getD 0
    pure (.object (base ++ [("verify", .bool (Crc32c.verify bytes want.toNat.toUInt32 && want < Nat.pow 2 32 && 0 ≤ want))]))
  | none => pure (.object base)

end EntityIndex.Requests
