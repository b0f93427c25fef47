import EntityIndex.Bytes.XXHash64
import EntityIndex.Text.Quote

/-!
# Entity references

An entity is named by its type and its key, written `type/key`. The text splits at the first
`/`, so keys may contain further slashes while types may not; a reference with an empty type is
refused. References order by type, then by key, both by bytes, and are spread over shards by the
hash of their text.
-/

namespace EntityIndex

/-- A reference to an entity. -/
structure EntityRef where
  /-- The entity type. -/
  type : String
  /-- The key of the entity within its type. -/
  key : String
  deriving DecidableEq, Hashable, Repr, Inhabited

namespace EntityRef

/-- `type/key`. -/
def text (r : EntityRef) : String := r.type ++ "/" ++ r.key

/-- Whether both parts are empty. -/
def isZero (r : EntityRef) : Bool := r.type.isEmpty && r.key.isEmpty

/-- The 64-bit hash of the text. -/
def hash (r : EntityRef) : UInt64 := XXHash64.hashString r.text

/-- The shard of the reference among `n` shards. -/
def shard (r : EntityRef) (n : Int) : Nat :=
  if n ≤ 1 then 0 else r.hash.toNat % n.toNat

/-- Split `type/key` at the first slash; refuses a missing slash and an empty type. -/
def parse (s : String) : Except String EntityRef :=
  match s.splitOn "/" with
  | [] | [_] => .error ("invalid entity reference " ++ Quote.quote s)
  | t :: rest =>
    if t.isEmpty then .error ("invalid entity reference " ++ Quote.quote s)
    else .ok ⟨t, "/".intercalate rest⟩

/-- Order by type, then key: `-1`, `0` or `1`. -/
def compare (a b : EntityRef) : Int :=
  if a.type < b.type then -1
  else if b.type < a.type then 1
  else if a.key < b.key then -1
  else if b.key < a.key then 1
  else 0

/-- Whether `a` comes strictly before `b`. -/
def lt (a b : EntityRef) : Bool := compare a b < 0

end EntityRef

end EntityIndex
