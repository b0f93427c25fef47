import EntityIndex.Text.Quote

/-!
# Queue identifiers

A workflow queue is named `queue/<interface>/<shard>@<node>`. When a node is lost, a passive copy
of its queue is opened elsewhere under the same name with `#reincarnated` appended; both read and
write the same persisted state, named by the identifier without that suffix.

Reading an identifier takes the interface up to the last `/` and the node after the last `@`, so
interfaces may contain slashes and nodes may not contain `@` after the shard. The shard is read
as a 64-bit signed decimal: an optional sign and digits, scanned left to right, where the first
non-digit is a syntax error and a value that no longer fits is a range error.
-/

namespace EntityIndex.QueueId

/-- The suffix of a reincarnated queue's identifier. -/
def reincarnatedSuffix : String := "#reincarnated"

/-- The identifier of the queue of `iface`, `shard` on `node`. -/
def make (iface : String) (shard : Int) (node : String) : String :=
  "queue/" ++ iface ++ "/" ++ toString shard ++ "@" ++ node

/-- The identifier of the reincarnation of a queue. -/
def reincarnation (id : String) : String := id ++ reincarnatedSuffix

/-- The name of a queue's persisted state: the identifier without the reincarnation suffix. -/
def stateName (id : String) : String :=
  if id.endsWith reincarnatedSuffix then
    String.ofList (id.toList.take (id.length - reincarnatedSuffix.length))
  else id

/-- The parts of a queue identifier. -/
structure Address where
  /-- The interface. -/
  iface : String
  /-- The shard. -/
  shard : Int
  /-- The node. -/
  node : String
  /-- Whether this is a reincarnation. -/
  reincarnated : Bool
  deriving DecidableEq, Repr

/-- Why shard text is not a 64-bit integer. -/
inductive NumberFault where
  /-- A character that is not a digit, or no digits. -/
  | malformed
  /-- Digits whose value does not fit. -/
  | range
  deriving DecidableEq, Repr

/-- Scan digits left to right into `n`, failing at the first non-digit or when the value no
longer fits in 64 unsigned bits. -/
def scanDigits : List Char → Nat → Except NumberFault Nat
  | [], n => .ok n
  | c :: rest, n =>
    if '0' ≤ c ∧ c ≤ '9' then
      let n' := n * 10 + (c.toNat - 48)
      if n' < Nat.pow 2 64 then scanDigits rest n' else .error .range
    else .error .malformed

/-- Read a 64-bit signed decimal. -/
def readInt (s : String) : Except NumberFault Int :=
  let (neg, body) := match s.toList with
    | '-' :: r => (true, r)
    | '+' :: r => (false, r)
    | r => (false, r)
  if body.isEmpty then .error .malformed
  else
    match scanDigits body 0 with
    | .error e => .error e
    | .ok n =>
      if neg then (if n ≤ Nat.pow 2 63 then .ok (-(n : Int)) else .error .range)
      else if n < Nat.pow 2 63 then .ok n else .error .range

/-- The text of a failed shard read. -/
def NumberFault.describe (shardText : String) : NumberFault → String
  | .malformed => "strconv.Atoi: parsing " ++ Quote.quote shardText ++ ": invalid syntax"
  | .range => "strconv.Atoi: parsing " ++ Quote.quote shardText ++ ": value out of range"

/-- The position of the last occurrence of `c`, if any. -/
def lastIndex (cs : List Char) (c : Char) : Option Nat :=
  (cs.zipIdx.filter (·.1 = c)).getLast?.map (·.2)

/-- Read a queue identifier; the error is the message. -/
def parse (id : String) : Except String Address :=
  let invalid := "invalid queue id " ++ Quote.quote id
  if !id.startsWith "queue/" then .error invalid
  else
    let rest := id.toList.drop 6
    let reinc := (String.ofList rest).endsWith reincarnatedSuffix
    let rest := if reinc then rest.take (rest.length - reincarnatedSuffix.length) else rest
    match lastIndex rest '@', lastIndex rest '/' with
    | some at_, some slash =>
      if at_ < slash then .error invalid
      else
        let shardText := String.ofList ((rest.drop (slash + 1)).take (at_ - slash - 1))
        match readInt shardText with
        | .error e => .error (invalid ++ ": " ++ e.describe shardText)
        | .ok shard =>
          .ok ⟨String.ofList (rest.take slash), shard, String.ofList (rest.drop (at_ + 1)), reinc⟩
    | _, _ => .error invalid

end EntityIndex.QueueId
