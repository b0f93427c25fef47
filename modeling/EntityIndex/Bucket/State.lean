import EntityIndex.Model.Error
import EntityIndex.Model.Meta

/-!
# Bucket state

A bucket holds, per key, the entities indexed under it (`Entry`), together with a lifecycle
status, the identifier of its successor in a chain (empty at the tail), and the deletes recorded
while it was not available (`Repair`).

An entry may carry a tentative marker: a pending insert or delete of a unique index, which hides
the entry from readers until the update is made final. Applying an update is idempotent: applying
it again, or applying its reverse again, changes nothing more. A failed update leaves the state
as it was. Only the tail of a chain takes new keys (`canCreate`), so each key lives in exactly
one bucket of a chain; an update whose after-image would need a new key in a bucket that cannot
take one must be split into an insert and a delete.

Deletes made while the bucket is under construction are remembered, and enforced when the bucket
becomes available again, unless the entry is then tentative: a delete recorded during a rebuild
wins over an insert of the same pair that the rebuild replays.
-/

namespace EntityIndex.Bucket

/-- The lifecycle status of a bucket, stored as one byte. -/
inductive Status where
  /-- Serves reads. -/
  | available
  /-- Accepts writes but not reads. -/
  | underConstruction
  /-- Belongs to a dropped index. -/
  | disposed
  /-- An unnamed code, 3 to 255. -/
  | other (code : Nat)
  deriving DecidableEq, Repr, Inhabited

namespace Status

/-- The status of a byte code. -/
def ofCode (n : Nat) : Status :=
  match n % 256 with
  | 0 => .available
  | 1 => .underConstruction
  | 2 => .disposed
  | c => .other c

/-- The byte code. -/
def code : Status → Nat
  | .available => 0
  | .underConstruction => 1
  | .disposed => 2
  | .other c => c

/-- The name: `available`, `under-construction`, `disposed` or `status(N)`. -/
def name : Status → String
  | .available => "available"
  | .underConstruction => "under-construction"
  | .disposed => "disposed"
  | .other c => "status(" ++ toString c ++ ")"

/-- The status of a name, if it is one. -/
def ofName? : String → Option Status
  | "available" => some .available
  | "under-construction" => some .underConstruction
  | "disposed" => some .disposed
  | _ => none

end Status

/-- The pending operation marked on an entry, stored as one byte. -/
inductive Marker where
  /-- Settled. -/
  | none
  /-- A tentative insert. -/
  | insert
  /-- A tentative delete. -/
  | delete
  /-- An unnamed code, 3 to 255. -/
  | other (code : Nat)
  deriving DecidableEq, Repr, Inhabited

namespace Marker

/-- The marker of a byte code. -/
def ofCode (n : Nat) : Marker :=
  match n % 256 with
  | 0 => .none
  | 1 => .insert
  | 2 => .delete
  | c => .other c

/-- The byte code. -/
def code : Marker → Nat
  | .none => 0
  | .insert => 1
  | .delete => 2
  | .other c => c

/-- The name: `none`, `insert`, `delete` or `tentative(N)`. -/
def name : Marker → String
  | .none => "none"
  | .insert => "insert"
  | .delete => "delete"
  | .other c => "tentative(" ++ toString c ++ ")"

/-- The marker of a name, if it is one. -/
def ofName? : String → Option Marker
  | "none" => some .none
  | "insert" => some .insert
  | "delete" => some .delete
  | _ => Option.none

end Marker

/-- The entities indexed under one key, in the order they arrived, and the entry's marker. -/
structure Entry where
  /-- The entities. -/
  values : List EntityRef
  /-- The pending operation; only entries of unique indexes carry one. -/
  marker : Marker := .none
  deriving DecidableEq, Repr, Inhabited

namespace Entry

/-- Whether the entry holds `r`. -/
def contains (e : Entry) (r : EntityRef) : Bool := e.values.contains r

/-- Whether readers may see the entry: settled and not empty. -/
def visible (e : Entry) : Bool := e.marker = .none && !e.values.isEmpty

/-- Whether the entry holds an entity other than `r`. -/
def holdsOther (e : Entry) (r : EntityRef) : Bool := e.values.any (· != r)

end Entry

/-- A delete recorded while the bucket was not available. -/
structure Repair where
  /-- The key deleted from. -/
  key : Key
  /-- The entity deleted. -/
  entity : EntityRef
  deriving DecidableEq, Repr, Inhabited

/-- What applying an update to one bucket of a chain did. -/
inductive Outcome where
  /-- The bucket owns the key and applied the update. -/
  | applied
  /-- The key belongs to a later bucket of the chain. -/
  | notFoundHere
  deriving DecidableEq, Repr, Inhabited

/-- The name: `applied` or `not-found-here`. -/
def Outcome.name : Outcome → String
  | .applied => "applied"
  | .notFoundHere => "not-found-here"

/-- The content of one bucket. Entries are kept sorted by key, one per key. -/
structure State where
  /-- The entries, sorted by key. -/
  entries : List (Key × Entry) := []
  /-- The lifecycle status. -/
  status : Status := .available
  /-- The successor in the chain; empty at the tail. -/
  next : String := ""
  /-- Deletes to enforce when the bucket becomes available, in the order recorded. -/
  repairs : List Repair := []
  deriving DecidableEq, Repr, Inhabited

/-- Put `e` under `k` in entries sorted by key, replacing an entry already there. -/
def putEntry (k : Key) (e : Entry) : List (Key × Entry) → List (Key × Entry)
  | [] => [(k, e)]
  | (k', e') :: rest =>
    if k = k' then (k, e) :: rest
    else if k < k' then (k, e) :: (k', e') :: rest
    else (k', e') :: putEntry k e rest

namespace State

/-- The entry under a key. -/
def entry? (s : State) (k : Key) : Option Entry := s.entries.lookup k

/-- The number of distinct keys. -/
def size (s : State) : Nat := s.entries.length

/-- Whether a new key may be added here: only the tail of a chain takes new keys, and only
while it is not full. -/
def canCreate (s : State) (m : IndexMeta) : Bool := s.next.isEmpty && !m.atCapacity s.size

/-- Put an entry under a key. -/
def put (s : State) (k : Key) (e : Entry) : State := { s with entries := putEntry k e s.entries }

/-- Drop the entry under a key. -/
def drop (s : State) (k : Key) : State := { s with entries := s.entries.filter (·.1 != k) }

/-- Add `r` under `k`, creating the entry if needed; the entry becomes a tentative insert or
settled. -/
def add (s : State) (k : Key) (r : EntityRef) (tentative : Bool) : State :=
  let e := (s.entry? k).getD { values := [] }
  let values := if e.contains r then e.values else e.values ++ [r]
  s.put k ⟨values, if tentative then .insert else .none⟩

/-- Remove `r` from `k`: a tentative remove only marks the entry, a settled one drops the entity
and then the entry if it became empty. Nothing happens when `k` does not hold `r`. -/
def remove (s : State) (k : Key) (r : EntityRef) (tentative : Bool) : State :=
  match s.entry? k with
  | none => s
  | some e =>
    if !e.contains r then s
    else if tentative then s.put k { e with marker := .delete }
    else
      let values := e.values.filter (· != r)
      if values.isEmpty then s.drop k else s.put k ⟨values, .none⟩

/-- Record a delete when the bucket is not available, once per pair. -/
def trackDelete (s : State) (k : Key) (r : EntityRef) : State :=
  if s.status = .available then s
  else
    let rep : Repair := ⟨k, r⟩
    if s.repairs.contains rep then s else { s with repairs := s.repairs ++ [rep] }

/-- Insert `r` under `k`. -/
def insert (s : State) (r : EntityRef) (k : Key) (tentative unique : Bool) (m : IndexMeta) :
    Except Error (Outcome × State) :=
  match s.entry? k with
  | none => if s.canCreate m then .ok (.applied, s.add k r tentative) else .ok (.notFoundHere, s)
  | some e =>
    if unique && e.holdsOther r then .error (.uniqueness m.name k r)
    else .ok (.applied, s.add k r tentative)

/-- Delete `r` from `k`. On a chained index a key that is not here belongs further down the
chain, unless this is the tail. -/
def delete (s : State) (r : EntityRef) (k : Key) (tentative : Bool) (m : IndexMeta) :
    Except Error (Outcome × State) :=
  if (s.entry? k).isNone && m.chained && !s.next.isEmpty then .ok (.notFoundHere, s)
  else .ok (.applied, (s.remove k r tentative).trackDelete k r)

/-- Move `r` from the before-image to the after-image of `u`. When the before-image does not
hold `r` the update is an insert of the after-image. -/
def change (s : State) (r : EntityRef) (u : IndexUpdate) (unique : Bool) (m : IndexMeta) :
    Except Error (Outcome × State) :=
  let holds := match s.entry? u.before with
    | some e => e.contains r
    | none => false
  if !holds then s.insert r u.after u.tentative unique m
  else
    match s.entry? u.after with
    | none =>
      if s.canCreate m then
        .ok (.applied, ((s.add u.after r u.tentative).remove u.before r u.tentative).trackDelete u.before r)
      else .error (.splitRequired u)
    | some e =>
      if unique && e.holdsOther r then .error (.uniqueness m.name u.after r)
      else .ok (.applied, ((s.add u.after r u.tentative).remove u.before r u.tentative).trackDelete u.before r)

/-- Apply `u` on behalf of `r`. A tentative update reaches only unique indexes, since a marker
covers a whole entry; an index that is unique never gets a second entity under one key. -/
def apply (s : State) (r : EntityRef) (u : IndexUpdate) (unique : Bool) (m : IndexMeta) :
    Except Error (Outcome × State) :=
  if u.tentative && !unique && u.op != .none then .error (.tentativeNonUnique u)
  else
    match u.op with
    | .none => .ok (.applied, s)
    | .insert => s.insert r u.after u.tentative unique m
    | .delete => s.delete r u.before u.tentative m
    | .update => s.change r u unique m
    | .other c => .error (.other ("bucket: unknown operation " ++ (Operation.other c).name))

/-- Enforce recorded deletes in order, skipping those whose entry is gone, no longer holds the
entity, or is tentative; the number enforced and the state after. -/
def enforce (s : State) : List Repair → Nat × State
  | [] => (0, s)
  | rep :: rest =>
    match s.entry? rep.key with
    | some e =>
      if e.contains rep.entity && e.marker = .none then
        let (n, s') := enforce (s.remove rep.key rep.entity false) rest
        (n + 1, s')
      else enforce s rest
    | none => enforce s rest

/-- Change the status. Becoming available again enforces and forgets the recorded deletes; the
number enforced is returned. -/
def setStatus (s : State) (st : Status) : Nat × State :=
  if st = .available && s.status != .available then
    let (n, s') := enforce s s.repairs
    (n, { s' with repairs := [], status := st })
  else (0, { s with status := st })

/-- What a reader sees under a key: the visible entities, whether a hidden entry holds some, and
whether the key lives here at all. -/
structure Sight where
  /-- The visible entities. -/
  values : List EntityRef
  /-- Whether the entry is hidden but not empty. -/
  tentative : Bool
  /-- Whether the key lives in this bucket. -/
  found : Bool
  deriving DecidableEq, Repr

/-- Look up a key. -/
def lookup (s : State) (k : Key) : Sight :=
  match s.entry? k with
  | none => ⟨[], false, false⟩
  | some e => if e.visible then ⟨e.values, false, true⟩ else ⟨[], !e.values.isEmpty, true⟩

end State

end EntityIndex.Bucket
