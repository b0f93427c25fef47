import EntityIndex.Cluster.Directory

/-!
# The directory under concurrent calls

`activate` on a `Directory` runs the create call inline. Concurrent callers see more: an entry
is published before its create call runs and completed after it, outside the lock, and callers
that find an entry wait until it is ready. Here the table is a `Directory` whose entries point
at shared entry records, and each activation is a sequence of atomic steps:

* entering: an empty node asked for is refused at once; otherwise, under the lock, the caller
  finds the address's entry and waits on it, or picks the node (`Directory.target`), publishes a
  pending entry there and runs create;
* completing: the create call returns a value or fails; under the lock the entry takes the
  outcome, and a failed entry leaves the table if it is still the address's entry; the caller
  returns;
* waking: a waiter sees the entry ready and returns its outcome, or gives up on its context.

`Remove`, `FailNode` and `SetPlacement` are single steps. Entries are named by position, in the
order they were published.
-/

namespace EntityIndex.Cluster

/-- How an entry's create call went. -/
inductive SharedDirectory.Outcome (α : Type) where
  | pending
  | created (v : α)
  | failed
  deriving DecidableEq, Repr

/-- An entry: the node it was placed on and its create call's outcome. -/
structure SharedDirectory.Entry (α : Type) where
  node : String
  outcome : SharedDirectory.Outcome α
  deriving DecidableEq, Repr

/-- What an activation returned. -/
inductive SharedDirectory.Reply (α : Type) where
  | activated (v : α) (node : String)
  | failed
  | canceled
  | refused (e : Error)

/-- Where an activation stands. -/
inductive SharedDirectory.Stage (α : Type) where
  /-- Found the address's entry and waits for it. -/
  | waiting
  /-- Published the entry and runs create. -/
  | creating
  | returned (r : SharedDirectory.Reply α)

/-- An activation of an address, with the entry it found or published. -/
structure SharedDirectory.Call (α : Type) where
  addr : String
  entry : Option Nat
  stage : SharedDirectory.Stage α

/-- The table, the entries ever published, and the activations. -/
structure SharedDirectory (α : Type) where
  dir : Directory Nat
  entries : List (SharedDirectory.Entry α) := []
  calls : List (SharedDirectory.Call α) := []

namespace SharedDirectory

variable {α : Type}

/-- The value an entry holds: none until its create call succeeded. -/
def Entry.value? (e : Entry α) : Option α :=
  match e.outcome with
  | .created v => some v
  | _ => none

/-- What happens next. -/
inductive Event (α : Type) where
  /-- `Activate` (no node) or `ActivateOn` (a node) of an address. -/
  | activate (addr : String) (node? : Option String)
  /-- The create call of activation `i` returns a value, or fails. -/
  | complete (i : Nat) (v? : Option α)
  /-- Activation `i` sees its entry ready. -/
  | wake (i : Nat)
  /-- Activation `i`, waiting, gives up on its context. -/
  | cancel (i : Nat)
  /-- `Remove` of an address, with the value it must hold (any value when none is given). -/
  | remove (addr : String) (v? : Option α)
  | failNode (node : String)
  | setPlacement (node : String)

/-- The directory after an event; none when the event cannot happen now. -/
def step [DecidableEq α] (t : SharedDirectory α) : Event α → Option (SharedDirectory α)
  | .activate addr node? =>
    if node? = some "" then
      some { t with calls := t.calls ++
        [⟨addr, none, .returned (.refused (.other ("activate " ++ addr ++ ": empty node")))⟩] }
    else
      match t.dir.find? addr with
      | some a => some { t with calls := t.calls ++ [⟨addr, some a.value, .waiting⟩] }
      | none =>
        match t.dir.target addr node? with
        | .error e => some { t with calls := t.calls ++ [⟨addr, none, .returned (.refused e)⟩] }
        | .ok node => some { t with
            dir := t.dir.put addr node t.entries.length
            entries := t.entries ++ [⟨node, .pending⟩]
            calls := t.calls ++ [⟨addr, some t.entries.length, .creating⟩] }
  | .complete i v? =>
    match t.calls[i]? with
    | some ⟨addr, some c, .creating⟩ =>
      match t.entries[c]? with
      | some e =>
        match v? with
        | some v => some { t with
            entries := t.entries.set c ⟨e.node, .created v⟩
            calls := t.calls.set i ⟨addr, some c, .returned (.activated v e.node)⟩ }
        | none => some { t with
            dir := if (t.dir.find? addr).map (·.value) = some c then t.dir.drop addr else t.dir
            entries := t.entries.set c ⟨e.node, .failed⟩
            calls := t.calls.set i ⟨addr, some c, .returned .failed⟩ }
      | none => none
    | _ => none
  | .wake i =>
    match t.calls[i]? with
    | some ⟨addr, some c, .waiting⟩ =>
      match t.entries[c]? with
      | some ⟨node, .created v⟩ =>
        some { t with calls := t.calls.set i ⟨addr, some c, .returned (.activated v node)⟩ }
      | some ⟨_, .failed⟩ => some { t with calls := t.calls.set i ⟨addr, some c, .returned .failed⟩ }
      | _ => none
    | _ => none
  | .cancel i =>
    match t.calls[i]? with
    | some ⟨addr, c, .waiting⟩ => some { t with calls := t.calls.set i ⟨addr, c, .returned .canceled⟩ }
    | _ => none
  | .remove addr v? =>
    match t.dir.find? addr, v? with
    | none, _ => some t
    | some _, none => some { t with dir := t.dir.drop addr }
    | some a, some v =>
      if (t.entries[a.value]?).bind Entry.value? = some v then some { t with dir := t.dir.drop addr }
      else some t
  | .failNode n => some { t with dir := (t.dir.failNode n).2 }
  | .setPlacement n => some { t with dir := t.dir.setPlacement n }

/-- What `FailNode` returns: the entries the node hosted, by address, with their values (none
while their create call runs). -/
def dropped (t : SharedDirectory α) (n : String) : List (Activation (Option α)) :=
  (t.dir.failNode n).1.map fun a => ⟨a.addr, a.node, (t.entries[a.value]?).bind Entry.value?⟩

/-- The states some interleaving reaches from an empty table. -/
inductive Reachable [DecidableEq α] (placement : String) : SharedDirectory α → Prop where
  | init : Reachable placement ⟨{ placement }, [], []⟩
  | step {t t' : SharedDirectory α} {e : Event α} :
      Reachable placement t → t.step e = some t' → Reachable placement t'

/-- Run events in order. -/
def run [DecidableEq α] : SharedDirectory α → List (Event α) → Option (SharedDirectory α)
  | t, [] => some t
  | t, e :: rest => (t.step e).bind (run · rest)

theorem reachable_of_run [DecidableEq α] {placement : String} :
    ∀ {t t' : SharedDirectory α} {l : List (Event α)},
      Reachable placement t → run t l = some t' → Reachable placement t'
  | t, t', [], ht, h => by simp only [run, Option.some.injEq] at h; exact h ▸ ht
  | t, t', e :: rest, ht, h => by
    simp only [run] at h
    cases hn : t.step e with
    | none => simp [hn] at h
    | some t1 =>
      simp only [hn, Option.bind_some] at h
      exact reachable_of_run (Reachable.step ht hn) h

end SharedDirectory

end EntityIndex.Cluster
