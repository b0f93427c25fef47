import EntityIndex.Bucket.Index
import EntityIndex.Bucket.Stored
import EntityIndex.Store.Documents

/-!
# A shelf of buckets

The simplest home for buckets: a document store and the buckets activated from it, each address
activated once and kept until the shelf forgets them. A bucket with no stored state starts empty
and available. The shelf also counts what an index reports about its work: chain growths,
lookups and failed lookups.
-/

namespace EntityIndex.Bucket

/-- Counters of index work. -/
structure Counters where
  /-- Successors linked. -/
  chainGrowths : Nat := 0
  /-- Lookups made. -/
  lookups : Nat := 0
  /-- Lookups that failed. -/
  lookupErrors : Nat := 0
  deriving DecidableEq, Repr, Inhabited

/-- A store and the buckets activated from it. -/
structure Shelf where
  /-- The store. -/
  store : Store.DocStore := {}
  /-- The active buckets, sorted by address. -/
  active : List (String × State) := []
  /-- Counters of index work. -/
  counters : Counters := {}
  deriving Inhabited

namespace Shelf

/-- Run a store operation on the shelf's store. -/
def onStore {α : Type} (m : Run Store.DocStore α) : Run Shelf α :=
  Run.zoom Shelf.store (fun w s => { w with store := s }) m

/-- Read a bucket's stored state, empty when there is none. -/
def loadState (id : String) : Run Store.DocStore State := do
  match ← Run.attempt (Store.DocStore.load id State.ofDoc) with
  | .ok s => pure (s.getD {})
  | .error e => throw (.context ("load bucket " ++ id) e)

instance : Host Shelf where
  active? w id := w.active.lookup id
  activate id := do
    let s ← onStore (loadState id)
    modify fun w => { w with active := insertByName id s w.active }
    pure s
  keep id s w := { w with active := insertByName id s w.active }
  persist id s := onStore (Store.DocStore.save id s.toDoc)
  grew w := { w with counters := { w.counters with chainGrowths := w.counters.chainGrowths + 1 } }

/-- The bucket home of a world that holds a shelf as one of its parts. -/
abbrev hostVia {W : Type} (view : W → Shelf) (update : W → Shelf → W) : Host W where
  active? w id := Host.active? (view w) id
  activate id := Run.zoom view update (Host.activate id)
  keep id s w := update w (Host.keep id s (view w))
  persist id s := Run.zoom view update (Host.persist id s)
  grew w := update w (Host.grew (view w))

/-- Forget every activation; buckets are read from the store again when next used. -/
def forget (w : Shelf) : Shelf := { w with active := [] }

/-- Count a lookup, and whether it failed. -/
def looked (w : Shelf) (failed : Bool) : Shelf :=
  let c := w.counters
  { w with counters := { c with
    lookups := c.lookups + 1
    lookupErrors := c.lookupErrors + (if failed then 1 else 0) } }

end Shelf

end EntityIndex.Bucket
