import EntityIndex.Model.Error
import EntityIndex.Model.Meta
import EntityIndex.Model.Record

/-!
# Index schemas

An entity type declares its indexes: each belongs to an interface (the indexes of an interface
share a workflow queue), has a description, and reads its value from the entity state. A schema
keeps the declarations sorted by interface and then by name (declarations that tie keep their
order), and accepts them only when

* the entity type has a name,
* every index has an interface, a name and a way to read its value,
* no bucket limit is negative,
* all indexes are eager or all are lazy, and a fault-tolerant type has only lazy ones,
* no two indexes share a name.

The declarations are checked in sorted order and the first refusal is reported. The images of
an entity are the keys its indexes hold for it, per interface and index.
-/

namespace EntityIndex.Indexing

/-- The declaration of one index of an entity type whose states are `σ`. -/
structure IndexDef (σ : Type) where
  /-- The interface the index belongs to. -/
  iface : String
  /-- The index description. -/
  desc : IndexMeta
  /-- How the indexed value is read from a state; none when not given. -/
  extract : Option (σ → IndexValue)

/-- The value a declaration reads from a state; nothing is read without a reader. -/
def IndexDef.valueOf {σ : Type} (d : IndexDef σ) (st : σ) : IndexValue :=
  match d.extract with
  | some f => f st
  | none => .null

/-- The validated index declarations of an entity type. -/
structure Schema (σ : Type) where
  /-- The entity type. -/
  entityType : String
  /-- Whether the type uses the fault-tolerant protocol. -/
  faultTolerant : Bool
  /-- The declarations, sorted by interface and then name. -/
  defs : List (IndexDef σ)
  /-- The interfaces, in order. -/
  interfaces : List String

/-- The keys an entity's indexes hold for it, per interface and index name, both sorted. -/
structure Images where
  /-- Index keys by interface. -/
  byIface : List (String × List (String × Key)) := []
  deriving DecidableEq, Repr, Inhabited

namespace Images

/-- The image of an index, the null key when unset. -/
def get (im : Images) (iface index : String) : Key :=
  ((im.byIface.lookup iface).bind (·.lookup index)).getD Key.null

/-- Record the image of an index. -/
def set (im : Images) (iface index : String) (k : Key) : Images :=
  ⟨insertByName iface (insertByName index k ((im.byIface.lookup iface).getD [])) im.byIface⟩

/-- Advance the images past applied updates. -/
def commit (im : Images) (updates : List (String × List (String × MemberUpdate))) : Images :=
  updates.foldl (fun im (iface, us) =>
    us.foldl (fun im (index, u) => im.set iface index (u.nextImage (im.get iface index))) im) im

end Images

namespace Schema

variable {σ : Type}

/-- The declaration order: by interface, then by name. -/
def before (a b : IndexDef σ) : Bool :=
  a.iface < b.iface || (a.iface = b.iface && a.desc.name ≤ b.desc.name)

/-- What is wrong with one declaration, given the first in order and whether the type is
fault-tolerant. -/
def refusal (entityType : String) (faultTolerant : Bool) (first d : IndexDef σ) : Option String :=
  let name := Quote.quote d.desc.name
  if d.iface.isEmpty then some (entityType ++ ": index " ++ name ++ " has no interface")
  else if d.desc.name.isEmpty then
    some (entityType ++ ": unnamed index in interface " ++ Quote.quote d.iface)
  else if d.extract.isNone then some (entityType ++ ": index " ++ name ++ " has no extractor")
  else if d.desc.maxEntries < 0 || d.desc.partitions < 0 then
    some (entityType ++ ": index " ++ name ++ " has negative bucket limits")
  else if d.desc.eager != first.desc.eager then
    some (entityType ++ ": indexes " ++ Quote.quote first.desc.name ++ " and " ++ name ++
      " mix eager and lazy updates")
  else if faultTolerant && d.desc.eager then
    some (entityType ++ ": fault-tolerant index " ++ name ++ " must be lazy")
  else none

/-- Check sorted declarations in order, collecting the interfaces. -/
def check (entityType : String) (faultTolerant : Bool) (first : IndexDef σ) :
    List String → List String → List (IndexDef σ) → Except Error (List String)
  | _, ifaces, [] => .ok ifaces
  | seen, ifaces, d :: ds =>
    match refusal entityType faultTolerant first d with
    | some why => .error (.config why)
    | none =>
      if seen.contains d.desc.name then
        .error (.config (entityType ++ ": duplicate index " ++ Quote.quote d.desc.name))
      else
        let ifaces := if ifaces.getLast? = some d.iface then ifaces else ifaces ++ [d.iface]
        check entityType faultTolerant first (seen ++ [d.desc.name]) ifaces ds

/-- Validate the declarations of an entity type. -/
def make (entityType : String) (faultTolerant : Bool) (defs : List (IndexDef σ)) :
    Except Error (Schema σ) :=
  if entityType.isEmpty then .error (.config "entity type name is empty")
  else
    let sorted := defs.mergeSort before
    match sorted with
    | [] => .ok ⟨entityType, faultTolerant, [], []⟩
    | first :: _ =>
      (check entityType faultTolerant first [] [] sorted).map fun ifaces =>
        ⟨entityType, faultTolerant, sorted, ifaces⟩

/-- The declaration of an index by name. -/
def find? (s : Schema σ) (name : String) : Option (IndexDef σ) :=
  s.defs.find? (·.desc.name = name)

/-- The key of one index for a state. -/
def keyAt (d : IndexDef σ) (st : σ) : Except Error Key :=
  match (d.valueOf st).keyOf with
  | .ok k => .ok k
  | .error e => .error (.context ("index " ++ d.desc.name) e)

/-- The images of a state for every index. -/
def extract (s : Schema σ) (st : σ) : Except Error Images :=
  s.defs.foldlM (fun im d => do pure (im.set d.iface d.desc.name (← keyAt d st))) {}

end Schema

end EntityIndex.Indexing
