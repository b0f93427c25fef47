/-!
# Index descriptions

An index is described once and never changes: its name, whether a key may belong to at most one
entity (`unique`), whether updates reach it during the write (`eager`) or later through a
workflow queue, whether only active entities are indexed (`activeOnly`), and its layout. The
layout is a number of partitions, each a chain of buckets; a bucket of a chained index holds at
most `maxEntries` distinct keys and grows a successor when full. A non-positive `maxEntries`
means one unbounded bucket per partition; fewer than one partition means one.
-/

namespace EntityIndex

/-- The description of an index. -/
structure IndexMeta where
  /-- The index name. -/
  name : String
  /-- Whether a key belongs to at most one entity. -/
  unique : Bool := false
  /-- Whether updates are applied during the write. -/
  eager : Bool := false
  /-- Whether only active entities are indexed. -/
  activeOnly : Bool := false
  /-- Distinct keys per bucket; non-positive for unbounded buckets. -/
  maxEntries : Int := 0
  /-- Number of partitions. -/
  partitions : Int := 1
  deriving DecidableEq, Repr, Inhabited

namespace IndexMeta

/-- Whether buckets are bounded and chained. -/
def chained (m : IndexMeta) : Bool := 0 < m.maxEntries

/-- Whether a bucket holding `n` distinct keys is full. -/
def atCapacity (m : IndexMeta) (n : Nat) : Bool := 0 < m.maxEntries && m.maxEntries ≤ (n : Int)

/-- The number of partitions, at least one. -/
def partitionCount (m : IndexMeta) : Nat := if m.partitions < 1 then 1 else m.partitions.toNat

end IndexMeta

end EntityIndex
