import EntityIndex.Requests.Queues
import EntityIndex.Indexing.Recovery

/-!
# Recovery requests

Recover one entity's workflows, one run or several in a row, against queues over an in-memory
store. Queues can be pre-filled; some queue identifiers are on a node that is down, some cannot
be resolved at all, some have no reincarnation, and some refuse new records or removals.
-/

namespace EntityIndex.Requests

open EntityIndex.Json EntityIndex.Wire EntityIndex.Workflow EntityIndex.Indexing

/-- The world of a recovery request: the store and the open queues by identifier. -/
structure Yard where
  /-- The store. -/
  store : Store.DocStore := {}
  /-- The open queues, sorted by identifier. -/
  queues : List (String × Queue) := []
  deriving Inhabited

/-- How the queues of a recovery request behave. -/
structure YardRules where
  /-- The current queue of each interface. -/
  current : List (String × String)
  /-- Queues whose node is down. -/
  down : List String
  /-- Queues that cannot be resolved. -/
  unresolvable : List String
  /-- Queues without a reincarnation. -/
  noReincarnation : List String
  /-- Queues that refuse new records. -/
  refuseEnqueue : List String
  /-- Queues that refuse removals. -/
  refuseRemove : List String

/-- Run a store operation on the yard's store. -/
def Yard.onStore {α : Type} (m : Run Store.DocStore α) : Run Yard α :=
  Run.zoom Yard.store (fun y s => { y with store := s }) m

/-- The open queue with an identifier, opening it passive from the store when needed. -/
def Yard.queue (id : String) : Run Yard Queue := do
  match (← get).queues.lookup id with
  | some q => pure q
  | none =>
    let q ← Yard.onStore (Queue.load id true false)
    modify fun y => { y with queues := insertByName id q y.queues }
    pure q

/-- Replace an open queue. -/
def Yard.keep (q : Queue) : Run Yard Unit :=
  modify fun y => { y with queues := insertByName q.id q y.queues }

/-- Replace an open queue and write its log. -/
def Yard.commit (q : Queue) : Run Yard Unit := do
  Yard.keep q
  Yard.onStore q.save

/-- The locator of a recovery request. -/
def yardLocator (rules : YardRules) : Locator Yard where
  current iface := do
    match rules.current.lookup iface with
    | some id => pure (← Yard.queue id).id
    | none => throw (.injected ("no current queue for " ++ iface))
  resolve id := do
    if rules.down.contains id then throw (.context ("queue " ++ id) Error.unreachable)
    if rules.unresolvable.contains id then throw (.injected ("cannot resolve " ++ id))
    pure (← Yard.queue id).id
  reincarnation id := do
    if rules.noReincarnation.contains id then throw (.injected ("no reincarnation of " ++ id))
    pure (← Yard.queue (QueueId.reincarnation id)).id
  pendingIn id ids := do
    let (out, q) := (← Yard.queue id).pendingIn ids
    Yard.keep q
    pure out
  enqueueAll id recs := do
    if rules.refuseEnqueue.contains id then throw (.injected ("enqueue failed: " ++ id))
    match (← Yard.queue id).enqueueAll recs with
    | .ok q => Yard.commit q
    | .error e => throw e
  remove id ids := do
    if rules.refuseRemove.contains id then throw (.injected ("remove failed: " ++ id))
    let (q, removed) := (← Yard.queue id).remove ids
    if removed then Yard.commit q else Yard.keep q
  release id ids := do
    Yard.keep ((← Yard.queue id).release ids)

/-- Fill a queue with records through a passive queue, closing it unless kept open. -/
def Yard.prefill (keepOpen : Bool) (id : String) (recs : List WorkflowRecord) : Run Yard Unit := do
  let q ← Yard.queue id
  match q.enqueueAll recs with
  | .ok q => Yard.commit q
  | .error e => throw e
  if !keepOpen then modify fun y => { y with queues := y.queues.filter (·.1 != id) }

/-- Run recovery `n` times, each run starting from the previous one's outcome. -/
def recoverRuns (loc : Locator Yard) (interfaces : List String) :
    Nat → List Uuid → List (String × String) → Run Yard (List Recovery)
  | 0, _, _ => pure []
  | n + 1, active, queues => do
    let r ← recover loc interfaces active queues
    pure (r :: (← recoverRuns loc interfaces n r.active r.queues))

/-- A recovery as a reply. -/
def recoveryValue (r : Recovery) : Value :=
  .object [("active", uuidsValue r.active),
    ("queues", .object (r.queues.map fun (k, v) => (k, .string v))),
    ("migrated", .nat r.migrated), ("changed", .bool r.changed)]

/-- The `recover` request. -/
def recoverRequest (req : Value) : Read Value := do
  let interfaces := texts req "interfaces"
  let active ← readAll uuid (items req "active")
  let cached := mapOfPairs (textFields req "cached")
  let rules : YardRules := {
    current := mapOfPairs (textFields req "current")
    down := texts req "down"
    unresolvable := texts req "unresolvable"
    noReincarnation := texts req "no_reincarnation"
    refuseEnqueue := texts req "fail_enqueue"
    refuseRemove := texts req "fail_remove" }
  let filled ← (entries req "queues").mapM fun (id, rs) => do
    pure (id, ← readAll record (itemsOf rs))
  let keepOpen := flag req "keep_open"
  let runs := intOr req "runs" 1
  let setup : Run Yard Unit := (mapOfPairs filled).forM fun (id, rs) => Yard.prefill keepOpen id rs
  let work : Run Yard (List Recovery) := do
    setup
    recoverRuns (yardLocator rules) interfaces runs.toNat active cached
  let (r, y) := work.exec {}
  match r with
  | .error e => pure (errorReply e)
  | .ok rs => pure (.object [("runs", .array (rs.map recoveryValue)),
      ("queue_records", .object (y.queues.map fun (id, q) => (id, uuidsValue q.ids)))])

end EntityIndex.Requests
