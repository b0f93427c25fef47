import EntityIndex.Indexing.Schema

/-!
# Generating index updates

Three events change what an entity's indexes hold. Activation inserts the recorded images back
into active-only indexes, deactivation deletes them, and a write compares the recorded images
with the keys of the new state. Generation only computes the updates; the images move on
(`Images.commit`) once the updates are applied.

Only real updates are kept, grouped by interface and index. The result also says whether the
touched indexes are eager, how many of the updates are for unique indexes, and whether all of
them are (which is false when there are none).
-/

namespace EntityIndex.Indexing

/-- The event that generates updates, stored as one byte. -/
inductive Reason where
  /-- An entity became active. -/
  | activate
  /-- An entity became inactive. -/
  | deactivate
  /-- An entity's state was written. -/
  | write
  /-- An unnamed code, 3 to 255; it generates nothing. -/
  | other (code : Nat)
  deriving DecidableEq, Repr, Inhabited

namespace Reason

/-- The reason of a byte code. -/
def ofCode (n : Nat) : Reason :=
  match n % 256 with
  | 0 => .activate
  | 1 => .deactivate
  | 2 => .write
  | c => .other c

/-- The name: `activate`, `deactivate`, `write` or `reason(N)`. -/
def name : Reason → String
  | .activate => "activate"
  | .deactivate => "deactivate"
  | .write => "write"
  | .other c => "reason(" ++ toString c ++ ")"

/-- The reason of a name, if it is one. -/
def ofName? : String → Option Reason
  | "activate" => some .activate
  | "deactivate" => some .deactivate
  | "write" => some .write
  | _ => none

end Reason

/-- The updates one event generates. -/
structure Updates where
  /-- The real updates by interface and index, both sorted. -/
  byInterface : List (String × List (String × MemberUpdate)) := []
  /-- Whether the touched indexes are eager. -/
  eager : Bool := false
  /-- Whether every update is for a unique index; false when there is none. -/
  onlyUniqueUpdated : Bool := false
  /-- How many updates are for unique indexes. -/
  numUnique : Nat := 0
  deriving DecidableEq, Repr, Inhabited

namespace Updates

/-- Whether no index changes. -/
def empty (u : Updates) : Bool := u.byInterface.isEmpty

/-- The number of updates. -/
def len (u : Updates) : Nat := (u.byInterface.map (·.2.length)).foldr (· + ·) 0

/-- Add the update of one index. -/
def add (u : Updates) (iface index : String) (m : MemberUpdate) : Updates :=
  { u with byInterface :=
      insertByName iface (insertByName index m ((u.byInterface.lookup iface).getD [])) u.byInterface }

end Updates

variable {σ : Type}

/-- The update one event makes to one index, given its image. -/
def updateFor (d : IndexDef σ) (before : Key) (st : σ) : Reason → Except Error MemberUpdate
  | .activate => .ok (if before.isNull then ⟨.none, Key.null, Key.null⟩ else ⟨.insert, Key.null, before⟩)
  | .deactivate => .ok (if before.isNull then ⟨.none, Key.null, Key.null⟩ else ⟨.delete, before, Key.null⟩)
  | .write => (Schema.keyAt d st).map (diff before)
  | .other _ => .ok ⟨.none, Key.null, Key.null⟩

/-- Generation so far: the updates, and the eagerness and name of the first index updated. -/
structure Progress where
  /-- The updates so far. -/
  updates : Updates
  /-- The eagerness and name of the first index updated. -/
  first : Option (Bool × String)

/-- Take one declaration: add its update when real, refusing a mix of eager and lazy indexes. -/
def generateStep (images : Images) (st : σ) (reason : Reason) (onlyActive : Bool) (p : Progress)
    (d : IndexDef σ) : Except Error Progress := do
  if onlyActive && !d.desc.activeOnly then return p
  let u ← updateFor d (images.get d.iface d.desc.name) st reason
  if !u.isReal then return p
  let first ← match p.first with
    | none => pure (d.desc.eager, d.desc.name)
    | some (eager, name) =>
      if eager != d.desc.eager then
        throw (.config ("indexes " ++ Quote.quote name ++ " and " ++ Quote.quote d.desc.name ++
          " mix eager and lazy updates"))
      else pure (eager, name)
  let us := p.updates.add d.iface d.desc.name u
  let us := if d.desc.unique then { us with numUnique := us.numUnique + 1 }
    else { us with onlyUniqueUpdated := false }
  pure ⟨us, some first⟩

/-- The updates of one event for an entity with recorded `images` and state `st`; when
`onlyActive` is set, only active-only indexes are considered. -/
def generate (s : Schema σ) (images : Images) (st : σ) (reason : Reason) (onlyActive : Bool) :
    Except Error Updates := do
  let p ← s.defs.foldlM (generateStep images st reason onlyActive) ⟨{ onlyUniqueUpdated := true }, none⟩
  let eager := match p.first with
    | some (e, _) => e
    | none => false
  let us := { p.updates with eager := eager }
  pure (if us.empty then { us with onlyUniqueUpdated := false } else us)

end EntityIndex.Indexing
