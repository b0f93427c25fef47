import EntityIndex.Model.Run
import EntityIndex.Model.Record

/-!
# The activation directory

Every addressable instance (entity, bucket, queue) has at most one activation, recorded with
the node it lives on. A new activation is created on the current placement node, or on a node
asked for; a node marked down takes no new activations, and failing a node drops every
activation it hosts. Choosing a node as placement brings it back up.

An activation whose creation fails is not recorded, so the next use tries again.
-/

namespace EntityIndex.Cluster

/-- One live instance. -/
structure Activation (α : Type) where
  /-- Its address. -/
  addr : String
  /-- The node it lives on. -/
  node : String
  /-- The instance. -/
  value : α
  deriving Repr, Inhabited

/-- Where instances are activated. -/
structure Directory (α : Type) where
  /-- The node that receives new activations. -/
  placement : String
  /-- Nodes that failed. -/
  down : List String := []
  /-- The activations, sorted by address. -/
  entries : List (String × String × α) := []
  deriving Repr, Inhabited

namespace Directory

variable {α : Type}

/-- The activation at an address. -/
def find? (d : Directory α) (addr : String) : Option (Activation α) :=
  (d.entries.lookup addr).map fun (node, v) => ⟨addr, node, v⟩

/-- Whether a node failed. -/
def isDown (d : Directory α) (node : String) : Bool := d.down.contains node

/-- Make `node` the placement node, bringing it back up. -/
def setPlacement (d : Directory α) (node : String) : Directory α :=
  { d with placement := node, down := d.down.filter (· != node) }

/-- Record an activation. -/
def put (d : Directory α) (addr node : String) (v : α) : Directory α :=
  { d with entries := insertByName addr (node, v) d.entries }

/-- Replace the instance of an existing activation, keeping its node. -/
def update (d : Directory α) (addr : String) (v : α) : Directory α :=
  match d.entries.lookup addr with
  | some (node, _) => d.put addr node v
  | none => d

/-- Drop the activation at an address. -/
def drop (d : Directory α) (addr : String) : Directory α :=
  { d with entries := d.entries.filter (·.1 != addr) }

/-- The node a new activation of `addr` goes to: the placement node or the one asked for, which
must be named and up. -/
def target (d : Directory α) (addr : String) (node? : Option String) : Except Error String :=
  let node := node?.getD d.placement
  if d.isDown node then .error (.context ("activate " ++ addr ++ " on " ++ node) Error.unreachable)
  else .ok node

/-- Mark a node down and drop its activations; the dropped ones, by address. -/
def failNode (d : Directory α) (node : String) : List (Activation α) × Directory α :=
  let dropped := d.entries.filter fun (_, n, _) => n = node
  (dropped.map fun (addr, n, v) => ⟨addr, n, v⟩,
    { d with down := if d.down.contains node then d.down else d.down ++ [node],
             entries := d.entries.filter fun (_, n, _) => n != node })

/-- The activations under an address prefix, by address. -/
def activations (d : Directory α) (pre : String) : List (Activation α) :=
  (d.entries.filter fun (addr, _, _) => pre.isPrefixOf addr).map fun (addr, n, v) => ⟨addr, n, v⟩

/-- The number of activations. -/
def size (d : Directory α) : Nat := d.entries.length

end Directory

variable {W α : Type}

/-- The activation at `addr` in the directory a world holds, created with `create` on its node
when there is none. Asking for a node that is empty fails before anything else. -/
def activate (view : W → Directory α) (update : W → Directory α → W) (addr : String)
    (node? : Option String) (create : String → Run W α) : Run W (Activation α) := do
  if node? = some "" then throw (.other ("activate " ++ addr ++ ": empty node"))
  let d := view (← get)
  match d.find? addr with
  | some a => pure a
  | none =>
    match d.target addr node? with
    | .error e => throw e
    | .ok node =>
      let v ← create node
      modify fun w => update w ((view w).put addr node v)
      pure ⟨addr, node, v⟩

/-- Drop the activation at `addr` when its instance is `v?` (any instance when none is given);
whether it was dropped. -/
def remove [BEq α] (d : Directory α) (addr : String) (v? : Option α) : Bool × Directory α :=
  match d.find? addr, v? with
  | none, _ => (false, d)
  | some a, some v => if a.value == v then (true, d.drop addr) else (false, d)
  | some _, none => (true, d.drop addr)

end EntityIndex.Cluster
