import EntityIndex.Bucket.Host

/-!
# Indexes over bucket chains

An index spreads its keys over partitions by key hash; each partition is a chain of buckets
starting at `bucket/<name>/<partition>`, each successor adding `/next`. A key lives in exactly
one bucket of its chain: the first that holds it, or else the tail, which takes new keys until
it is full and then grows a successor. A successor starts with its predecessor's status.

An update moves between partitions (or, on a chained index, between buckets) as two halves:
the insert of the after-image first, then the delete of the before-image. A batch is routed the
same way and applied partition by partition, each partition's items in order; failures of
different partitions are reported together. Readers see a key only while every bucket on the
way to it is available.

Chains are walked with a bound on their length, far beyond any chain the index grows.
-/

namespace EntityIndex.Bucket

/-- The longest chain walked. -/
def chainLimit : Nat := 1000000

/-- The failure of a walk past `chainLimit` buckets. -/
def chainTooLong : Error := .other "bucket chain too long"

/-- An index: the namespace of its bucket addresses and its description. -/
structure Index where
  /-- The index name, used in bucket addresses and failures. -/
  name : String
  /-- The index description. -/
  desc : IndexMeta
  deriving DecidableEq, Repr, Inhabited

/-- The address of the head bucket of a partition. -/
def headId (index : String) (p : Nat) : String := "bucket/" ++ index ++ "/" ++ toString p

/-- Whether a list of characters is `/next` repeated. -/
def onlySuccessorSteps : List Char → Bool
  | [] => true
  | '/' :: 'n' :: 'e' :: 'x' :: 't' :: rest => onlySuccessorSteps rest
  | _ => false

/-- Whether a bucket address belongs to an index: the head of a partition, `bucket/<name>/<p>`,
or a successor of one, which adds `/next` at each step. -/
def owns (index id : String) : Bool :=
  let pre := ("bucket/" ++ index ++ "/").toList
  let cs := id.toList
  if pre.isPrefixOf cs then
    let rest := cs.drop pre.length
    let ds := rest.takeWhile Char.isDigit
    !ds.isEmpty && onlySuccessorSteps (rest.drop ds.length)
  else false

namespace Index

variable {W : Type} [Host W]

/-- The partition of a key. -/
def partitionOf (x : Index) (k : Key) : Nat := k.partition x.desc.partitionCount

/-- The parts of an update by partition, in the order they are applied. -/
def route (x : Index) (u : IndexUpdate) : List (Nat × IndexUpdate) :=
  match u.op with
  | .none => []
  | .insert => [(x.partitionOf u.after, u)]
  | .delete => [(x.partitionOf u.before, u)]
  | _ =>
    let src := x.partitionOf u.before
    let dst := x.partitionOf u.after
    if src = dst && !x.desc.chained then [(src, u)]
    else [(dst, u.split.1), (src, u.split.2)]

/-- The failure of a read through a bucket that is not available. -/
def unavailableAs (x : Index) (st : Status) : Error :=
  .context ("index " ++ x.name ++ " is " ++ st.name) Error.unavailable

/-- The successor of bucket `id`, linked now when `id` is the tail; a new successor takes the
status of `id`. -/
def successor (id : String) : Run W String := do
  let (next, created) ← grow id
  if created then
    modify Host.grew
    let st := (← resolve id).status
    if st ≠ .available then setStatusAt next st
  pure next

/-- Apply an update along a chain from bucket `id` until a bucket takes it. -/
def applyChain (x : Index) (r : EntityRef) (u : IndexUpdate) : Nat → String → Run W Unit
  | 0, _ => throw chainTooLong
  | fuel + 1, id => do
    match ← applyAt x.desc id r u with
    | .applied => pure ()
    | .notFoundHere => applyChain x r u fuel (← successor id)

/-- Apply an update for an entity, written before returning. -/
def apply (x : Index) (r : EntityRef) (u : IndexUpdate) : Run W Unit :=
  (x.route u).forM fun (p, part) => applyChain x r part chainLimit (headId x.name p)

/-- Apply a batch along a chain from bucket `id`, each bucket passing on what is not its own. -/
def applyChainBatch (x : Index) : Nat → String → List Item → Run W Unit
  | 0, _, _ => throw chainTooLong
  | fuel + 1, id, items =>
    if items.isEmpty then pure ()
    else do
      let rest ← applyBatchAt x.desc id items
      if rest.isEmpty then pure ()
      else applyChainBatch x fuel (← successor id) rest

/-- Add an item to the part of its partition, keeping parts sorted by partition. -/
def addPart (p : Nat) (it : Item) : List (Nat × List Item) → List (Nat × List Item)
  | [] => [(p, [it])]
  | (q, its) :: rest =>
    if p = q then (q, its ++ [it]) :: rest
    else if p < q then (p, [it]) :: (q, its) :: rest
    else (q, its) :: addPart p it rest

/-- The routed items of a batch by partition, sorted by partition, each in batch order. -/
def parts (x : Index) (items : List Item) : List (Nat × List Item) :=
  items.foldl (fun acc it =>
    (x.route it.update).foldl (fun acc (p, part) => addPart p ⟨it.entity, part⟩ acc) acc) []

/-- Apply a batch: every partition is applied, and their failures are reported together. -/
def applyBatch (x : Index) (items : List Item) : Run W Unit := do
  let errs ← Run.attemptAll ((x.parts items).map fun (p, its) =>
    applyChainBatch x chainLimit (headId x.name p) its)
  match Error.join errs with
  | some e => throw e
  | none => pure ()

/-- The visible entities under a key along the chain from bucket `id`: empty when no bucket
holds the key or its entry is hidden. -/
def visibleFrom (x : Index) (k : Key) : Nat → String → Run W (List EntityRef)
  | 0, _ => throw chainTooLong
  | fuel + 1, id =>
    if id.isEmpty then pure []
    else do
      let s ← resolve id
      if s.status ≠ .available then throw (x.unavailableAs s.status)
      let sight := s.lookup k
      if sight.found then pure sight.values else visibleFrom x k fuel s.next

/-- The visible entities under a key, in the order they were added. -/
def visible (x : Index) (k : Key) : Run W (List EntityRef) :=
  visibleFrom x k chainLimit (headId x.name (x.partitionOf k))

/-- The single visible entity under a key along the chain from bucket `id`. -/
def uniqueFrom (x : Index) (k : Key) : Nat → String → Run W EntityRef
  | 0, _ => throw chainTooLong
  | fuel + 1, id =>
    if id.isEmpty then throw (.integrity x.name k 0 false)
    else do
      let s ← resolve id
      if s.status ≠ .available then throw (x.unavailableAs s.status)
      let sight := s.lookup k
      if sight.found then
        match sight.values with
        | [r] => pure r
        | vs => throw (.integrity x.name k vs.length sight.tentative)
      else uniqueFrom x k fuel s.next

/-- The single visible entity under a key; none, several, or only a tentative one is an
integrity failure. -/
def lookupUnique (x : Index) (k : Key) : Run W EntityRef :=
  uniqueFrom x k chainLimit (headId x.name (x.partitionOf k))

/-- Whether every partition's head bucket is available, stopping at the first that is not. -/
def headsAvailable (x : Index) : List Nat → Run W Bool
  | [] => pure true
  | p :: ps => do
    let s ← resolve (headId x.name p)
    if s.status ≠ .available then pure false else headsAvailable x ps

/-- Whether the index is available for reads. -/
def isAvailable (x : Index) : Run W Bool := headsAvailable x (List.range x.desc.partitionCount)

/-- Visit the chain from bucket `id`, running `f` on each bucket before moving on; the number
of buckets visited. -/
def walkFrom (f : String → Run W Unit) : Nat → String → Run W Nat
  | 0, _ => throw chainTooLong
  | fuel + 1, id =>
    if id.isEmpty then pure 0
    else do
      let _ ← resolve id
      f id
      let n ← walkFrom f fuel (← resolve id).next
      pure (n + 1)

/-- Visit every bucket of every partition in order; the number of buckets visited. -/
def walk (x : Index) (f : String → Run W Unit) : Run W Nat :=
  (List.range x.desc.partitionCount).foldlM (fun n p => do
    pure (n + (← walkFrom f chainLimit (headId x.name p)))) 0

/-- Set the status of every bucket. -/
def setStatus (x : Index) (st : Status) : Run W Unit := do
  let _ ← x.walk (setStatusAt · st)
  pure ()

/-- The number of buckets of the index. -/
def count (x : Index) : Run W Nat := x.walk fun _ => pure ()

end Index

end EntityIndex.Bucket
