import EntityIndex.Bucket.State
import EntityIndex.Model.Run

/-!
# Active buckets

A bucket is used through its activation: the state held in memory, loaded from the store the
first time its address is used. Every change is made in memory first and then written; when
the write fails the change stays in memory and the failure is returned, so a later write of the
same bucket persists it.

Where activations live and how they are stored depends on the program around the index, so it
is a class: `Host W` says how a world `W` keeps active buckets and writes them.
-/

namespace EntityIndex.Bucket

/-- How a world keeps and persists active buckets. -/
class Host (W : Type) where
  /-- The state of an active bucket. -/
  active? : W → String → Option State
  /-- Activate a bucket that is not active: read its persisted state and keep it in memory. -/
  activate : String → Run W State
  /-- Replace the in-memory state of an active bucket. -/
  keep : String → State → W → W
  /-- Write a bucket's state to the store. -/
  persist : String → State → Run W Unit
  /-- Count one growth of a chain. -/
  grew : W → W

/-- The address of a bucket's successor. -/
def nextId (id : String) : String := id ++ "/next"

variable {W : Type} [Host W]

/-- The state of bucket `id`, activating it if needed. -/
def resolve (id : String) : Run W State := do
  match Host.active? (← get) id with
  | some s => pure s
  | none => Host.activate id

/-- Replace bucket `id`'s state in memory and write it. -/
def commit (id : String) (s : State) : Run W Unit := do
  modify (Host.keep id s)
  Host.persist id s

/-- Apply one update to bucket `id`; an applied update is written before returning. -/
def applyAt (m : IndexMeta) (id : String) (r : EntityRef) (u : IndexUpdate) : Run W Outcome := do
  let s ← resolve id
  match s.apply r u m.unique m with
  | .error e => throw e
  | .ok (.notFoundHere, _) => pure .notFoundHere
  | .ok (.applied, s') =>
    commit id s'
    pure .applied

/-- One update of a batch. -/
structure Item where
  /-- The entity the update is for. -/
  entity : EntityRef
  /-- The update. -/
  update : IndexUpdate
  deriving DecidableEq, Repr, Inhabited

/-- The keys an update touches. -/
def updateKeys (u : IndexUpdate) : List Key :=
  match u.op with
  | .insert => [u.after]
  | .delete => [u.before]
  | .update => [u.before, u.after]
  | _ => []

/-- The progress of a batch through one bucket. -/
structure BatchPass where
  /-- The state so far. -/
  state : State
  /-- Items passed on to the next bucket, in order. -/
  rest : List Item
  /-- Keys of the items passed on. -/
  deferred : List Key
  /-- How many items were applied. -/
  applied : Nat
  /-- Failures of items that were skipped. -/
  skipped : List Error

/-- Take one item of a batch. An item touching a key of an item already passed on is passed on
too, so the updates of a key reach its bucket in batch order; an item that fails is skipped. -/
def batchStep (m : IndexMeta) (p : BatchPass) (it : Item) : BatchPass :=
  let keys := updateKeys it.update
  if keys.any p.deferred.contains then
    { p with rest := p.rest ++ [it], deferred := p.deferred ++ keys }
  else
    match p.state.apply it.entity it.update m.unique m with
    | .error e => { p with skipped := p.skipped ++ [e] }
    | .ok (.notFoundHere, _) => { p with rest := p.rest ++ [it], deferred := p.deferred ++ keys }
    | .ok (.applied, s') => { p with state := s', applied := p.applied + 1 }

/-- Apply a batch to bucket `id` with one write, when anything was applied; the items for later
buckets, in order. -/
def applyBatchAt (m : IndexMeta) (id : String) (items : List Item) : Run W (List Item) := do
  let s ← resolve id
  let p := items.foldl (batchStep m) ⟨s, [], [], 0, []⟩
  if 0 < p.applied then commit id p.state
  pure p.rest

/-- Link a successor to bucket `id` when it has none: the successor's address, and whether it
was linked now. -/
def grow (id : String) : Run W (String × Bool) := do
  let s ← resolve id
  if s.next.isEmpty then
    let s' := { s with next := nextId id }
    commit id s'
    pure (s'.next, true)
  else pure (s.next, false)

/-- Set bucket `id`'s status, writing it when it changes. -/
def setStatusAt (id : String) (st : Status) : Run W Unit := do
  let s ← resolve id
  if s.status = st then pure ()
  else commit id (s.setStatus st).2

end EntityIndex.Bucket
