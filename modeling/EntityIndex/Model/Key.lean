import EntityIndex.Bytes.XXHash64
import EntityIndex.Bytes.Base64
import EntityIndex.Numeric.FloatText
import EntityIndex.Text.Time

/-!
# Index keys

An index maps keys to the entities holding them. A key is the type-tagged text of an indexed
value, so that values of different types never collide: `s:` for strings, `b:` for booleans,
`i:` and `u:` for signed and unsigned integers, `f:` for floats, `t:` for instants, `y:` for
byte strings and `x:` for values that describe themselves as text. The empty text is the null
key: the image of an absent value, never stored in a bucket.

A key is placed by its 64-bit hash: partition `p` of `n` is `hash % n`, and everything is
partition 0 when there is at most one.
-/

namespace EntityIndex

/-- An index key; the empty text is the null key. -/
structure Key where
  /-- The tagged text of the key. -/
  text : String
  deriving DecidableEq, Hashable, Repr, Inhabited

namespace Key

/-- The null key, the image of an absent value. -/
def null : Key := ⟨""⟩

/-- Whether this is the null key. -/
def isNull (k : Key) : Bool := k.text.isEmpty

/-- The 64-bit hash of the key text. -/
def hash (k : Key) : UInt64 := XXHash64.hashString k.text

/-- The partition of the key among `n` partitions. -/
def partition (k : Key) (n : Int) : Nat :=
  if n ≤ 1 then 0 else k.hash.toNat % n.toNat

instance : LT Key := ⟨fun a b => a.text < b.text⟩

instance (a b : Key) : Decidable (a < b) := inferInstanceAs (Decidable (a.text < b.text))

instance : LE Key := ⟨fun a b => a.text ≤ b.text⟩

instance (a b : Key) : Decidable (a ≤ b) := inferInstanceAs (Decidable (a.text ≤ b.text))

end Key

/-- A value offered to an index, by the type it has. -/
inductive IndexValue where
  /-- No value. -/
  | null
  /-- A key given as is. -/
  | key (k : Key)
  /-- Text. -/
  | string (s : String)
  /-- A truth value. -/
  | bool (b : Bool)
  /-- A signed integer. -/
  | int (v : Int)
  /-- An unsigned integer. -/
  | uint (v : Nat)
  /-- A float of the given format. -/
  | float (format : Binary.Format) (v : Binary.Value)
  /-- An instant. -/
  | time (t : Time.Instant)
  /-- A byte string. -/
  | bytes (b : List UInt8)
  /-- A value that describes itself by the given text. -/
  | described (text : String)
  /-- A value of a type no index accepts, by the name of that type. -/
  | unsupported (typeName : String)
  deriving Repr

/-- The key of an indexed value, or the name of its type when no key can be made. -/
def IndexValue.key? : IndexValue → Except String Key
  | .null => .ok Key.null
  | .key k => .ok k
  | .string s => .ok ⟨"s:" ++ s⟩
  | .bool b => .ok ⟨if b then "b:true" else "b:false"⟩
  | .int v => .ok ⟨"i:" ++ (if v < 0 then "-" ++ toString v.natAbs else toString v.toNat)⟩
  | .uint v => .ok ⟨"u:" ++ toString v⟩
  | .float f v => .ok ⟨"f:" ++ FloatText.general f v⟩
  | .time t => .ok ⟨"t:" ++ Time.formatUtc t⟩
  | .bytes b => .ok ⟨"y:" ++ Base64.encode b⟩
  | .described s => .ok ⟨"x:" ++ s⟩
  | .unsupported name => .error name

end EntityIndex
