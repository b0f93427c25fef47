import EntityIndex.Workflow.Queue

/-!
# Recovering an entity's workflows

When an entity activates, its active set (identifiers of records written but not yet applied)
and its remembered queue per interface are reconciled with the queues that now serve it. For
each interface:

* records of the active set already in the current queue stay there (identifiers held by a
  running pass count as pending too);
* if the remembered queue is another one, its pending records of the active set move to the
  current queue and leave the remembered one. An unreachable remembered queue is read through
  its reincarnation, a passive stand-in over the same stored log. If the move fails, the
  records are released back; if only their removal fails, they sit in both queues.

The new active set holds exactly the identifiers still pending. When some interface cannot be
examined, its remembered queue is kept and the whole active set is kept as it was, so a later
activation can try again; failures are never returned.
-/

namespace EntityIndex.Indexing

/-- How recovery reaches the queues of one entity; queues are named by identifier. -/
structure Locator (W : Type) where
  /-- Open the queue now serving an interface. -/
  current : String → Run W String
  /-- Open a queue; fails as unreachable when its node is down. -/
  resolve : String → Run W String
  /-- Open the passive stand-in of an unreachable queue. -/
  reincarnation : String → Run W String
  /-- The pending records with the given identifiers and the identifiers in flight. -/
  pendingIn : String → List Uuid → Run W (List WorkflowRecord × List Uuid)
  /-- Append records to a queue. -/
  enqueueAll : String → List WorkflowRecord → Run W Unit
  /-- Drop records from a queue. -/
  remove : String → List Uuid → Run W Unit
  /-- Release migrating records. -/
  release : String → List Uuid → Run W Unit

/-- The outcome of a recovery. -/
structure Recovery where
  /-- The identifiers still pending, sorted. -/
  active : List Uuid
  /-- The queue serving each interface. -/
  queues : List (String × String)
  /-- Records moved to a new queue. -/
  migrated : Nat
  /-- Whether the active set or the queues changed. -/
  changed : Bool
  deriving DecidableEq, Repr, Inhabited

/-- Add identifiers to a set kept sorted. -/
def addIds (set ids : List Uuid) : List Uuid := Uuid.sorted (set ++ ids.filter (!set.contains ·)).eraseDups

/-- Whether two identifier sets are equal. -/
def sameIds (a b : List Uuid) : Bool := a.all b.contains && b.all a.contains

/-- Whether two maps are equal: as many names, and every pair of `a` found in `b`, where a name
missing from `b` reads as the empty queue identifier. -/
def sameQueues (a b : List (String × String)) : Bool :=
  a.length = b.length && a.all fun (k, v) => (b.lookup k).getD "" = v

variable {W : Type}

/-- Move the records of the active set that queue `old` holds to queue `cur`, adding the
identifiers to `pending`: the current queue, the identifiers pending for it, and the number of
records moved. The records go back to `old` when `cur` refuses them, or when `old` cannot drop
them. -/
def migrate (loc : Locator W) (cur old : String) (active pending : List Uuid) :
    Run W (String × List Uuid × Nat) := do
  let (records, inFlight) ← loc.pendingIn old active
  let pending := addIds pending inFlight
  if records.isEmpty then return (cur, pending, 0)
  let ids := records.map (·.id)
  match ← Run.attempt (loc.enqueueAll cur records) with
  | .error e =>
    loc.release old ids
    throw (.context ("migrate " ++ toString records.length ++ " records to " ++ cur) e)
  | .ok () =>
    let pending := addIds pending ids
    match ← Run.attempt (loc.remove old ids) with
    | .error _ => loc.release old ids
    | .ok () => pure ()
    pure (cur, pending, records.length)

/-- Recover one interface: the current queue, the identifiers pending for it, and the number of
records moved. -/
def recoverInterface (loc : Locator W) (iface : String) (active : List Uuid) (oldId : Option String) :
    Run W (String × List Uuid × Nat) := do
  let cur ← match ← Run.attempt (loc.current iface) with
    | .ok q => pure q
    | .error e => throw (.context "resolve current queue" e)
  let (records, inFlight) ← loc.pendingIn cur active
  let ids := records.map (·.id)
  loc.release cur ids
  let pending := addIds (addIds [] ids) inFlight
  match oldId with
  | none => pure (cur, pending, 0)
  | some oldId =>
  if oldId.isEmpty || oldId = cur then return (cur, pending, 0)
  let old ← match ← Run.attempt (loc.resolve oldId) with
    | .ok q => pure (Except.ok q)
    | .error e =>
      if e.mentions .unreachable then Run.attempt (loc.reincarnation oldId) else pure (.error e)
  let old ← match old with
    | .ok q => pure q
    | .error e => throw (.context ("resolve queue " ++ oldId) e)
  migrate loc cur old active pending

/-- Recover interfaces in order, from the remembered queues, adding to what the interfaces
before them gave: pending identifiers, current queues, records moved, and whether one failed. -/
def recoverAll (loc : Locator W) (active : List Uuid) (queues : List (String × String)) :
    List String → List Uuid × List (String × String) × Nat × Bool →
      Run W (List Uuid × List (String × String) × Nat × Bool)
  | [], acc => pure acc
  | iface :: rest, (act, qs, n, failed) => do
    let r ← Run.attempt (recoverInterface loc iface active (queues.lookup iface))
    let acc := match r with
      | .ok (cur, pending, moved) => (addIds act pending, insertByName iface cur qs, n + moved, failed)
      | .error _ =>
        let qs := match queues.lookup iface with
          | some old => insertByName iface old qs
          | none => qs
        (act, qs, n, true)
    recoverAll loc active queues rest acc

/-- Reconcile an entity's active set and remembered queues with the queues serving it now. -/
def recover (loc : Locator W) (interfaces : List String) (active : List Uuid)
    (queues : List (String × String)) : Run W Recovery := do
  let (act, qs, n, failed) ← recoverAll loc active queues interfaces ([], [], 0, false)
  let act := if failed then Uuid.sorted active.eraseDups else act
  pure ⟨act, qs, n, !sameIds act active || !sameQueues qs queues⟩

end EntityIndex.Indexing
