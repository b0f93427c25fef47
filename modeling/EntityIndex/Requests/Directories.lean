import EntityIndex.Requests.Wire
import EntityIndex.Cluster.Directory

/-!
# Directory requests

Run steps against an activation directory whose instances are text: creating one counts the
creation and gives `v<count>@<node>`, or fails on request.
-/

namespace EntityIndex.Requests

open EntityIndex.Json EntityIndex.Wire EntityIndex.Cluster

/-- The world of a directory request: the directory and the number of creations. -/
structure Lobby where
  /-- The directory. -/
  dir : Directory String
  /-- Creations so far, failed ones included. -/
  creates : Nat := 0
  deriving Inhabited

/-- Create an instance on a node, failing when asked to. -/
def lobbyCreate (fail : Bool) (node : String) : Run Lobby String := do
  let l ← get
  set { l with creates := l.creates + 1 }
  if fail then throw (.injected "create failed")
  pure ("v" ++ toString (l.creates + 1) ++ "@" ++ node)

/-- An activation as a reply. -/
def activationValue (a : Activation String) : Value :=
  .object [("addr", .string a.addr), ("node", .string a.node), ("value", .string a.value)]

/-- Run one step: its answer fields and the world after it. -/
def lobbyStep (l : Lobby) (step : Value) : Read (List (String × Value) × Lobby) := do
  let op := text step "op"
  match op with
  | "activate" | "activate_on" =>
    let addr := text step "addr"
    let node? := if op = "activate_on" then some (text step "node") else none
    let fail := flag step "fail"
    let (r, l) := (activate Lobby.dir (fun l d => { l with dir := d }) addr node?
      (lobbyCreate fail)).exec l
    pure ((match r with
      | .ok a => [("value", Value.string a.value)]
      | .error e => errorFields e) ++ [("creates", .nat l.creates)], l)
  | "lookup" =>
    match l.dir.find? (text step "addr") with
    | some a => pure ([("found", .bool true), ("node", .string a.node), ("value", .string a.value)], l)
    | none => pure ([("found", .bool false)], l)
  | "remove" =>
    let v? := (step.opt? "value").map textOf
    let (removed, d) := remove l.dir (text step "addr") v?
    pure ([("removed", .bool removed)], { l with dir := d })
  | "set_placement" => pure ([], { l with dir := l.dir.setPlacement (text step "node") })
  | "placement" => pure ([("placement", .string l.dir.placement)], l)
  | "is_down" => pure ([("down", .bool (l.dir.isDown (text step "node")))], l)
  | "fail_node" =>
    let (dropped, d) := l.dir.failNode (text step "node")
    pure ([("dropped", .array (dropped.map activationValue))], { l with dir := d })
  | "activations" =>
    pure ([("activations", .array ((l.dir.activations (text step "prefix")).map activationValue))], l)
  | "len" => pure ([("len", .nat l.dir.size)], l)
  | other => refuse ("unknown step " ++ other)

/-- Run the steps in order. -/
def lobbySteps : Lobby → List Value → Read (List Value)
  | _, [] => pure []
  | l, step :: rest => do
    let (fields, l') ← lobbyStep l step
    pure (.object fields :: (← lobbySteps l' rest))

/-- The `directory` request. -/
def directoryRequest (req : Value) : Read Value := do
  let node := if (text req "node").isEmpty then "n1" else text req "node"
  pure (.object [("steps", .array (← lobbySteps { dir := { placement := node } } (items req "ops")))])

end EntityIndex.Requests
