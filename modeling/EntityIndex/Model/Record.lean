import EntityIndex.Model.Update
import EntityIndex.Model.EntityRef
import EntityIndex.Model.Uuid

/-!
# Workflow records

A lazy index update travels as a workflow record: the updates one write made to the indexes of
one interface of one entity, under a fresh identifier. The updates form a map from index name to
member update, kept sorted by name with one entry per name.
-/

namespace EntityIndex

/-- The pending index updates of one write for one interface. -/
structure WorkflowRecord where
  /-- The record identifier. -/
  id : Uuid
  /-- The entity written. -/
  entity : EntityRef
  /-- The interface whose indexes the updates are for. -/
  iface : String
  /-- Updates by index name, sorted by name, one per name. -/
  updates : List (String × MemberUpdate)
  deriving DecidableEq, Repr, Inhabited

namespace WorkflowRecord

/-- Whether some update changes something. -/
def hasRealUpdate (r : WorkflowRecord) : Bool := r.updates.any fun p => p.2.isReal

/-- The index names, sorted. -/
def indexNames (r : WorkflowRecord) : List String := r.updates.map (·.1)

end WorkflowRecord

/-- Insert into a name-sorted map, replacing an entry of the same name. -/
def insertByName {α : Type} (k : String) (v : α) : List (String × α) → List (String × α)
  | [] => [(k, v)]
  | (k', v') :: rest =>
    if k = k' then (k, v) :: rest
    else if k < k' then (k, v) :: (k', v') :: rest
    else (k', v') :: insertByName k v rest

/-- A name-sorted map from pairs, the last pair of a name winning. -/
def mapOfPairs {α : Type} (ps : List (String × α)) : List (String × α) :=
  ps.foldl (fun acc p => insertByName p.1 p.2 acc) []

end EntityIndex
