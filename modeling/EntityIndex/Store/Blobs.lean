import EntityIndex.Model.Run
import EntityIndex.Model.Record

/-!
# Blobs

Persisted state lives in named blobs, kept in memory. Failures can be injected per name prefix:
a rule makes writes fail a number of times (or always) and reads fail always. When several rules
match a name, the one with the longest prefix applies; a rule added for a prefix replaces the
rule already there. A write that a rule lets through, and only such a write, is counted.
-/

namespace EntityIndex.Store

/-- A failure rule for the blobs under a prefix. -/
structure Fault where
  /-- Writes left to fail: negative fails every write, zero lets writes through. -/
  failPuts : Int := -1
  /-- Whether every read fails. -/
  failOpen : Bool := false
  deriving DecidableEq, Repr, Inhabited

/-- The failure an injected fault gives. -/
def injectedFault : Error := .injected "injected fault"

/-- Blobs in memory with their fault rules. -/
structure Blobs where
  /-- The blobs, sorted by name. -/
  data : List (String × List UInt8) := []
  /-- The rules, one per prefix. -/
  rules : List (String × Fault) := []
  /-- Writes that reached the blobs. -/
  puts : Nat := 0
  deriving DecidableEq, Repr, Inhabited

namespace Blobs

/-- The rule with the longest prefix of `name`, with its prefix. -/
def rule? (b : Blobs) (name : String) : Option (String × Fault) :=
  b.rules.foldl (fun best r =>
    if r.1.isPrefixOf name then
      match best with
      | some q => if q.1.length < r.1.length then some r else best
      | none => some r
    else best) none

/-- Add a rule, replacing the rule for the same prefix. -/
def addRule (b : Blobs) (pre : String) (f : Fault) : Blobs :=
  { b with rules := insertByName pre f b.rules }

/-- Remove every rule. -/
def clearRules (b : Blobs) : Blobs := { b with rules := [] }

/-- The blob under a name. -/
def get? (b : Blobs) (name : String) : Option (List UInt8) := b.data.lookup name

/-- One write: refused while a matching rule has writes left to fail, which counts one down. -/
def put (name : String) (bytes : List UInt8) : Run Blobs Unit := do
  let b ← get
  match b.rule? name with
  | some (pre, f) =>
    if f.failPuts ≠ 0 then
      let f' := if 0 < f.failPuts then { f with failPuts := f.failPuts - 1 } else f
      set { b with rules := insertByName pre f' b.rules }
      throw injectedFault
    else set { b with data := insertByName name bytes b.data, puts := b.puts + 1 }
  | none => set { b with data := insertByName name bytes b.data, puts := b.puts + 1 }

/-- One read: the blob, none when there is no such blob, refused under a rule that fails reads. -/
def read (name : String) : Run Blobs (Option (List UInt8)) := do
  let b ← get
  match b.rule? name with
  | some (_, f) => if f.failOpen then throw injectedFault else pure (b.get? name)
  | none => pure (b.get? name)

/-- Remove a blob. -/
def delete (b : Blobs) (name : String) : Blobs :=
  { b with data := b.data.filter (·.1 != name) }

/-- The names under a prefix, sorted. -/
def names (b : Blobs) (pre : String) : List String :=
  (b.data.filter (pre.isPrefixOf ·.1)).map (·.1)

end Blobs

end EntityIndex.Store
