import EntityIndex.Store.Blobs
import EntityIndex.Persist.Builtin

/-!
# Documents in blobs

A store writes JSON documents into blobs as frames, in its codec and compression, and reads
them back with the codec each frame records; the JSON libraries and compressors it does this
with are part of its configuration. Every blob operation is retried: a write or read
that keeps failing is a persistence failure naming the blob and the number of tries. A missing
blob reads as nothing; a blob that is not a readable frame fails the load.
-/

namespace EntityIndex.Store

open EntityIndex.Json

/-- A document store over blobs. -/
structure DocStore where
  /-- The blobs. -/
  blobs : Blobs := {}
  /-- The codec new frames are written in. -/
  codec : Codec := .fast
  /-- The compression of new frames. -/
  compression : Compression := .none
  /-- The JSON libraries of the codecs. -/
  json : JsonLibraries := .builtin
  /-- The compressors of frames. -/
  compressors : Compressors := .builtin
  /-- Tries per blob operation; a count below one tries once. -/
  attempts : Int := 2
  deriving Inhabited

namespace DocStore

/-- Run a blob operation on the store's blobs. -/
def onBlobs {α : Type} (m : Run Blobs α) : Run DocStore α :=
  Run.zoom DocStore.blobs (fun s b => { s with blobs := b }) m

/-- Write a framed payload under `name`, with retries. -/
def putFrame (name : String) (data : List UInt8) : Run DocStore Unit := do
  let s ← get
  Run.retry s.attempts name (onBlobs (Blobs.put name data))

/-- Write a document under `name`. -/
def save (name : String) (doc : Value) : Run DocStore Unit := do
  let s ← get
  match Frame.frame s.compressors s.codec.name s.compression (s.codec.write s.json doc) with
  | .error e => throw (.context ("save " ++ name) e)
  | .ok data => putFrame name data

/-- Read the document under `name` and read it with `decode`; none when there is no such blob. -/
def load {α : Type} (name : String) (decode : Value → Option α) : Run DocStore (Option α) := do
  let s ← get
  match ← Run.retry s.attempts name (onBlobs (Blobs.read name)) with
  | none => pure none
  | some data =>
    match Frame.decode s.compressors data (fun c raw => (c.read s.json raw).bind decode) with
    | .ok (_, v) => pure (some v)
    | .error e => throw (.context ("load " ++ name) e)

/-- Remove a blob; removing from memory cannot fail. -/
def remove (name : String) : Run DocStore Unit := do
  modify fun s => { s with blobs := s.blobs.delete name }

end DocStore

end EntityIndex.Store
