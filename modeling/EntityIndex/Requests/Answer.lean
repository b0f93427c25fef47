import EntityIndex.Requests.Values
import EntityIndex.Requests.Frames
import EntityIndex.Requests.Buckets
import EntityIndex.Requests.Indexes
import EntityIndex.Requests.Schemas
import EntityIndex.Requests.Coordinators
import EntityIndex.Requests.Queues
import EntityIndex.Requests.Handlers
import EntityIndex.Requests.Recoveries
import EntityIndex.Requests.Directories
import EntityIndex.Requests.Systems
import EntityIndex.Json.Parse
import EntityIndex.Json.Print

/-!
# Answering requests

A request is one JSON object whose `op` field names what to do; the answer is one JSON object.
A request that cannot be read is answered with a `BadInput` failure, so every line of input has
exactly one line of output.
-/

namespace EntityIndex.Requests

open EntityIndex.Json EntityIndex.Wire

/-- The answer to a request document. -/
def answer (req : Value) : Value :=
  let run : Read Value := do
    match text req "op" with
    | "key_of" => keyOf req
    | "diff" => diffRequest req
    | "update_chain" => updateChain req
    | "entity_ref" => entityRefs req
    | "queue_id" => queueIds req
    | "crc32c" => crc req
    | "frame_encode" => frameEncode req
    | "frame_decode" => frameDecode req
    | "bucket_state" => bucketRequest req
    | "index" => indexRequest req
    | "schema" => schemaRequest req
    | "generate" => generateRequest req
    | "coordinator" => coordinatorRequest req
    | "queue" => queueRequest req
    | "handler" => handlerRequest req
    | "recover" => recoverRequest req
    | "directory" => directoryRequest req
    | "system" => systemRequest req
    | other => refuse ("unknown op " ++ other)
  match run with
  | .ok v => v
  | .error (.badInput why) => badInput why
  | .error (.failed e) => errorReply e

/-- The answer to one line of request text, as one line of reply text. -/
def answerLine (line : String) : String :=
  match parseString line with
  | some req => render false (answer req)
  | none => render false (badInput "request is not JSON")

end EntityIndex.Requests
