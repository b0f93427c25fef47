import EntityIndex.Json.Value
import EntityIndex.Numeric.Decimal
import EntityIndex.Numeric.FloatText

/-!
# Payload codecs

Persisted values are JSON, written and read by a JSON library that the store is given
(`JsonLibrary`). Two codecs exist, recorded in each frame by name: `json` and `go-json` (the
default), each with its own library. Any other name writes with the library of `json` but is
recorded as given, and a frame recorded under a name that is not one of the two cannot be read
back.

Numbers reach the libraries as text already: a dynamic value is a map, object names sorted by
bytes, the last of equal names winning, every number the text of a 64-bit float in the codec's
style, where `json` drops the leading zero of a one-digit negative exponent (`1e-7`) and
`go-json` keeps it (`1e-07`).
-/

namespace EntityIndex

open EntityIndex.Json

/-- A JSON library as payloads use it: the bytes it writes for a document, and the document it
reads from bytes, if they hold one. -/
structure JsonLibrary where
  /-- The payload bytes of a document. -/
  write : Value → List UInt8
  /-- The document in payload bytes, if they hold one. -/
  read : List UInt8 → Option Value
  deriving Inhabited

/-- The JSON libraries of the two codecs. -/
structure JsonLibraries where
  /-- The library of `json`. -/
  json : JsonLibrary
  /-- The library of `go-json`. -/
  goJson : JsonLibrary
  deriving Inhabited

/-- A payload codec. -/
inductive Codec where
  /-- The `json` writer. -/
  | standard
  /-- The `go-json` writer, the default. -/
  | fast
  /-- Another name: written like `json`, unreadable on the way back. -/
  | named (name : String)
  deriving DecidableEq, Repr, Inhabited

namespace Codec

/-- The name recorded in frames. -/
def name : Codec → String
  | .standard => "json"
  | .fast => "go-json"
  | .named n => n

/-- The codec of a configured name; the empty name is the default. -/
def ofName (n : String) : Codec :=
  if n = "json" then .standard else if n = "go-json" ∨ n = "" then .fast else .named n

/-- The codec that reads frames recorded under a name, if there is one. -/
def reader? (n : String) : Option Codec :=
  if n = "json" then some .standard else if n = "go-json" then some .fast else none

/-- Whether scientific floats lose the leading zero of a one-digit negative exponent. -/
def shortExponent : Codec → Bool
  | .fast => false
  | _ => true

/-- The library a codec writes and reads with: `go-json` its own, every other name that of
`json`. -/
def library (libs : JsonLibraries) : Codec → JsonLibrary
  | .fast => libs.goJson
  | _ => libs.json

/-- The payload bytes of a document. -/
def write (libs : JsonLibraries) (c : Codec) (v : Value) : List UInt8 :=
  (c.library libs).write v

/-- The document in payload bytes, if they hold one. -/
def read (libs : JsonLibraries) (c : Codec) (bytes : List UInt8) : Option Value :=
  (c.library libs).read bytes

end Codec

/-- A number literal as the text of the nearest 64-bit float, in a codec's style; none when it
overflows. -/
def floatText (shortExp : Bool) (lit : String) : Option String :=
  (Decimal.parseFloat Binary.binary64 lit).bind (FloatText.json Binary.binary64 shortExp)

mutual

/-- A document as a dynamic value: objects become maps, numbers 64-bit floats; none when a
number does not fit. -/
def dynamic (shortExp : Bool) : Value → Option Value
  | .number t => (floatText shortExp t).map Value.number
  | .array xs => (dynamicItems shortExp xs).map Value.array
  | .object fs => (dynamicFields shortExp fs).map fun fs => Value.object (Value.sortFields fs)
  | v => some v

/-- Items of an array as dynamic values. -/
def dynamicItems (shortExp : Bool) : List Value → Option (List Value)
  | [] => some []
  | x :: xs => (dynamic shortExp x).bind fun y => (dynamicItems shortExp xs).map (y :: ·)

/-- Fields of an object as dynamic values. -/
def dynamicFields (shortExp : Bool) : List (String × Value) → Option (List (String × Value))
  | [] => some []
  | (k, x) :: xs => (dynamic shortExp x).bind fun y => (dynamicFields shortExp xs).map ((k, y) :: ·)

end

end EntityIndex
