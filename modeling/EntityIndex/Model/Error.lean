import EntityIndex.Model.Update
import EntityIndex.Model.EntityRef

/-!
# Failures

A failure is a tree: the specific causes of the index protocol at the leaves, text that says
where a failure happened around them, store retries that gave up, and several failures reported
together. `message` renders the tree as one line; `kind` classifies it by the most significant
cause anywhere in it, in the order of `Kind`, so a uniqueness violation reported through two
layers of context is still a uniqueness violation.
-/

namespace EntityIndex

/-- What a failure is, most significant first. -/
inductive Kind where
  /-- A unique index already holds the key for another entity. -/
  | uniqueness
  /-- A unique key has no value, several values, or only a tentative one. -/
  | integrity
  /-- The index configuration is unusable. -/
  | config
  /-- A store operation kept failing. -/
  | persistence
  /-- An update must be split because its halves belong to different buckets. -/
  | splitRequired
  /-- A tentative update reached a non-unique index. -/
  | tentativeNonUnique
  /-- An index is not available. -/
  | unavailable
  /-- A node or instance cannot be reached. -/
  | unreachable
  /-- The thing used is closed. -/
  | closed
  /-- The thing asked for does not exist. -/
  | notFound
  /-- A frame does not start with the magic bytes. -/
  | invalidMagic
  /-- A frame has an unknown version. -/
  | invalidVersion
  /-- A frame's payload does not match its checksum. -/
  | checksum
  /-- A frame is shorter or longer than its header says. -/
  | truncated
  /-- A frame names an unknown codec. -/
  | unknownCodec
  /-- A deadline passed. -/
  | timeout
  /-- A failure injected on purpose. -/
  | injected
  /-- A payload could not be decoded. -/
  | codec
  /-- A payload could not be decompressed. -/
  | decompress
  /-- Anything else. -/
  | other
  deriving DecidableEq, Repr, Inhabited

/-- The precedence of a kind: lower is more significant. -/
def Kind.rank : Kind → Nat
  | .uniqueness => 0
  | .integrity => 1
  | .config => 2
  | .persistence => 3
  | .splitRequired => 4
  | .tentativeNonUnique => 5
  | .unavailable => 6
  | .unreachable => 7
  | .closed => 8
  | .notFound => 9
  | .invalidMagic => 10
  | .invalidVersion => 11
  | .checksum => 12
  | .truncated => 13
  | .unknownCodec => 14
  | .timeout => 15
  | .injected => 16
  | .codec => 17
  | .decompress => 18
  | .other => 19

/-- The more significant of two kinds. -/
def Kind.first (a b : Kind) : Kind := if b.rank < a.rank then b else a

/-- A failure. -/
inductive Error where
  /-- A unique index already holds `key` for another entity; `writer` tried to take it. -/
  | uniqueness (index : String) (key : Key) (writer : EntityRef)
  /-- A unique key does not have exactly one settled value. -/
  | integrity (index : String) (key : Key) (found : Nat) (tentative : Bool)
  /-- Unusable configuration. -/
  | config (detail : String)
  /-- An update spans two buckets and must be split. -/
  | splitRequired (update : IndexUpdate)
  /-- A tentative update reached a non-unique index. -/
  | tentativeNonUnique (update : IndexUpdate)
  /-- Any other cause, with its kind and its own text. -/
  | fault (kind : Kind) (text : String)
  /-- `pre: inner`: where an inner failure happened. -/
  | context (pre : String) (inner : Error)
  /-- A store operation on `name` failed `attempts` times, the last time with `cause`. -/
  | persistence (name : String) (attempts : Nat) (cause : Error)
  /-- Several failures reported together. -/
  | joined (parts : List Error)
  deriving Repr, Inhabited

namespace Error

/-- The sentinel "index unavailable". -/
def unavailable : Error := .fault .unavailable "index unavailable"

/-- The sentinel "instance unreachable". -/
def unreachable : Error := .fault .unreachable "instance unreachable"

/-- The sentinel "closed". -/
def closed : Error := .fault .closed "closed"

/-- The sentinel "not found". -/
def notFound : Error := .fault .notFound "not found"

/-- A failure of no particular kind. -/
def other (text : String) : Error := .fault .other text

/-- An injected failure. -/
def injected (text : String) : Error := .fault .injected text

mutual

/-- The one-line text of a failure. -/
def message : Error → String
  | .uniqueness index key writer =>
    "uniqueness constraint violated: index " ++ index ++ " already holds key " ++
      Quote.quote key.text ++ " (writer " ++ writer.text ++ ")"
  | .integrity index key found tentative =>
    if tentative then "index " ++ index ++ ": key " ++ Quote.quote key.text ++ " only has a tentative value"
    else "index " ++ index ++ ": unique key " ++ Quote.quote key.text ++ " has " ++ toString found ++ " values"
  | .config detail => "configuration: " ++ detail
  | .splitRequired u => "bucket: update must be split: " ++ u.describe
  | .tentativeNonUnique u => "bucket: tentative update on non-unique index: " ++ u.describe
  | .fault _ text => text
  | .context pre inner => pre ++ ": " ++ message inner
  | .persistence name attempts cause =>
    "persistence failed: " ++ name ++ " after " ++ toString attempts ++ " attempts: " ++ message cause
  | .joined parts => messages parts

/-- Messages of several failures, `; `-separated. -/
def messages : List Error → String
  | [] => ""
  | [e] => message e
  | e :: es => message e ++ "; " ++ messages es

end

mutual

/-- The most significant cause of a failure. -/
def kind : Error → Kind
  | .uniqueness .. => .uniqueness
  | .integrity .. => .integrity
  | .config _ => .config
  | .splitRequired _ => .splitRequired
  | .tentativeNonUnique _ => .tentativeNonUnique
  | .fault k _ => k
  | .context _ inner => kind inner
  | .persistence _ _ cause => Kind.first .persistence (kind cause)
  | .joined parts => kinds parts

/-- The most significant cause among several failures. -/
def kinds : List Error → Kind
  | [] => .other
  | [e] => kind e
  | e :: es => Kind.first (kind e) (kinds es)

end

mutual

/-- Whether a failure of kind `k` is anywhere in a failure. -/
def mentions (k : Kind) : Error → Bool
  | .uniqueness .. => k = .uniqueness
  | .integrity .. => k = .integrity
  | .config _ => k = .config
  | .splitRequired _ => k = .splitRequired
  | .tentativeNonUnique _ => k = .tentativeNonUnique
  | .fault k' _ => k = k'
  | .context _ inner => mentions k inner
  | .persistence _ _ cause => k = .persistence || mentions k cause
  | .joined parts => mentionsAny k parts

/-- Whether a failure of kind `k` is anywhere in several failures. -/
def mentionsAny (k : Kind) : List Error → Bool
  | [] => false
  | e :: es => mentions k e || mentionsAny k es

end

/-- Join failures: none stays none, one stays itself. -/
def join : List Error → Option Error
  | [] => none
  | [e] => some e
  | es => some (.joined es)

end Error

/-- The key of an indexed value; values of unsupported types are a configuration error. -/
def IndexValue.keyOf (v : IndexValue) : Except Error Key :=
  match v.key? with
  | .ok k => .ok k
  | .error typeName => .error (.config ("unsupported index value type " ++ typeName))

end EntityIndex
