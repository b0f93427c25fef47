import EntityIndex.Model.Key
import EntityIndex.Text.Quote

/-!
# Index updates

A change of an entity's indexed value is a `MemberUpdate`: an operation with the key before and
the key after. `diff` classifies a pair of images: from null to a key is an insert, from a key to
null a delete, between two different keys an update, and anything else no change (keeping both
images, so the update still says what was seen).

An `IndexUpdate` is a member update as applied to an index, together with how it came to be
(`Wrapper`) and whether it is tentative. Tentative updates mark unique-index entries as
provisional until a final update or a reversal settles them:

* `plain` applies the change as it is;
* `asTentative` makes it provisional, `asFinal` settles it;
* `reverse` undoes it: insert and delete swap, the images swap, and it is never tentative;
* `override op` reclassifies it, which is how an update whose halves live in different buckets
  is split into its insert half and its delete half.
-/

namespace EntityIndex

/-- What an update does to an index. Operations are stored as one byte; codes 4 to 255 have no
name and are kept so that they can be reported. -/
inductive Operation where
  /-- Nothing changed. -/
  | none
  /-- A value appeared. -/
  | insert
  /-- The value changed. -/
  | update
  /-- The value disappeared. -/
  | delete
  /-- An unnamed code, 4 to 255. -/
  | other (code : Nat)
  deriving DecidableEq, Repr, Inhabited

namespace Operation

/-- The operation of a byte value (taken modulo 256). -/
def ofCode (n : Nat) : Operation :=
  match n % 256 with
  | 0 => .none
  | 1 => .insert
  | 2 => .update
  | 3 => .delete
  | c => .other c

/-- The byte value of an operation. -/
def code : Operation → Nat
  | .none => 0
  | .insert => 1
  | .update => 2
  | .delete => 3
  | .other c => c

/-- The name of an operation; unnamed codes read `operation(N)`. -/
def name : Operation → String
  | .none => "none"
  | .insert => "insert"
  | .update => "update"
  | .delete => "delete"
  | .other c => "operation(" ++ toString c ++ ")"

/-- The operation of a name, if it is one of the four. -/
def ofName? : String → Option Operation
  | "none" => some .none
  | "insert" => some .insert
  | "update" => some .update
  | "delete" => some .delete
  | _ => Option.none

end Operation

/-- How an index update came to be. Stored as one byte like `Operation`. -/
inductive Wrapper where
  /-- Taken from a member update as it is. -/
  | plain
  /-- Made provisional. -/
  | tentative
  /-- The reversal of an update. -/
  | reverseTentative
  /-- Reclassified as one half of an update. -/
  | overridden
  /-- An unnamed code, 4 to 255. -/
  | other (code : Nat)
  deriving DecidableEq, Repr, Inhabited

namespace Wrapper

/-- The wrapper of a byte value (taken modulo 256). -/
def ofCode (n : Nat) : Wrapper :=
  match n % 256 with
  | 0 => .plain
  | 1 => .tentative
  | 2 => .reverseTentative
  | 3 => .overridden
  | c => .other c

/-- The name of a wrapper; unnamed codes read `wrapper(N)`. -/
def name : Wrapper → String
  | .plain => "plain"
  | .tentative => "tentative"
  | .reverseTentative => "reverse-tentative"
  | .overridden => "overridden"
  | .other c => "wrapper(" ++ toString c ++ ")"

/-- The wrapper of a name, if it is one of the four. -/
def ofName? : String → Option Wrapper
  | "plain" => some .plain
  | "tentative" => some .tentative
  | "reverse-tentative" => some .reverseTentative
  | "overridden" => some .overridden
  | _ => none

end Wrapper

/-- A change of one entity's value for one index. -/
structure MemberUpdate where
  /-- What changed. -/
  op : Operation
  /-- The key before the change (null when there was none). -/
  before : Key
  /-- The key after the change (null when there is none). -/
  after : Key
  deriving DecidableEq, Repr, Inhabited

/-- Classify the change between two images. -/
def diff (before after : Key) : MemberUpdate :=
  if before.isNull ∧ !after.isNull then ⟨.insert, Key.null, after⟩
  else if !before.isNull ∧ after.isNull then ⟨.delete, before, Key.null⟩
  else if !before.isNull ∧ before ≠ after then ⟨.update, before, after⟩
  else ⟨.none, before, after⟩

namespace MemberUpdate

/-- Whether the update changes anything. -/
def isReal (u : MemberUpdate) : Bool := u.op != .none

/-- The image after the update, given the current one. -/
def nextImage (u : MemberUpdate) (current : Key) : Key :=
  match u.op with
  | .insert | .update => u.after
  | .delete => Key.null
  | _ => current

/-- `op("before" -> "after")`. -/
def describe (u : MemberUpdate) : String :=
  u.op.name ++ "(" ++ Quote.quote u.before.text ++ " -> " ++ Quote.quote u.after.text ++ ")"

end MemberUpdate

/-- A member update as applied to an index. -/
structure IndexUpdate where
  /-- What the update does. -/
  op : Operation
  /-- The key removed or replaced. -/
  before : Key
  /-- The key added. -/
  after : Key
  /-- Whether the change is provisional. -/
  tentative : Bool
  /-- How the update came to be. -/
  wrapper : Wrapper
  deriving DecidableEq, Repr, Inhabited

namespace IndexUpdate

/-- A member update applied as it is. -/
def plain (u : MemberUpdate) : IndexUpdate := ⟨u.op, u.before, u.after, false, .plain⟩

/-- The provisional form. -/
def asTentative (u : IndexUpdate) : IndexUpdate := { u with tentative := true, wrapper := .tentative }

/-- The settled form; a tentative wrapper becomes plain, others stay. -/
def asFinal (u : IndexUpdate) : IndexUpdate :=
  { u with tentative := false, wrapper := if u.wrapper = .tentative then .plain else u.wrapper }

/-- The update that undoes this one. -/
def reverse (u : IndexUpdate) : IndexUpdate :=
  let op := match u.op with
    | .insert => .delete
    | .delete => .insert
    | o => o
  ⟨op, u.after, u.before, false, .reverseTentative⟩

/-- The same update reclassified as `op`. -/
def override (u : IndexUpdate) (op : Operation) : IndexUpdate := { u with op := op, wrapper := .overridden }

/-- The insert half and the delete half of an update. -/
def split (u : IndexUpdate) : IndexUpdate × IndexUpdate := (u.override .insert, u.override .delete)

/-- Whether the update changes anything. -/
def isReal (u : IndexUpdate) : Bool := u.op != .none

/-- `op[wrapper,tentative=b]("before" -> "after")`. -/
def describe (u : IndexUpdate) : String :=
  u.op.name ++ "[" ++ u.wrapper.name ++ ",tentative=" ++ (if u.tentative then "true" else "false") ++
    "](" ++ Quote.quote u.before.text ++ " -> " ++ Quote.quote u.after.text ++ ")"

end IndexUpdate

end EntityIndex
