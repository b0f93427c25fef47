import EntityIndex.Persist.Zstd.Fse

/-!
# Prefix codes of literals

Compressed literals use a prefix code given by a weight per byte value: a symbol of weight
`w > 0` has a code of `log + 1 - w` bits, where `2^log` is the total of `2^(w-1)` over all
symbols. The description lists the weights of all symbols but the last present one, whose
weight is what makes the total a power of two. Weights are given four bits each, or coded with
a finite state entropy table of two interleaved states.

The decoding table has `2^log` cells; symbols take `2^(w-1)` consecutive cells each, by weight
from the lightest and then by symbol, so that the next `log` bits of a stream index the cell
of the code they start with. Literals come in one stream, or in four whose sizes a six-byte
jump table gives; every stream must be used up exactly.
-/

namespace EntityIndex.Zstd

/-- A prefix-code decoding table: `2^log` cells, each the symbol whose code the cell's index
starts with and the length of that code. -/
structure HuffTable where
  /-- The longest code length. -/
  log : Nat
  /-- Symbol and code length by the next `log` bits. -/
  cells : Array (UInt8 × Nat)

/-- The largest code length. -/
def maxCodeLength : Nat := 11

/-- The table of the given weights of symbols `0, 1, …`, completed by the implied weight of the
next symbol. Refused when a weight or the total is too large, when the remainder is not a power
of two, or when the number of weight-one symbols is odd or below two. -/
def HuffTable.ofWeights? (given : List Nat) : Option HuffTable := do
  if given.any (maxCodeLength < ·) then none
  let total := given.foldr (fun w acc => acc + Nat.pow 2 w / 2) 0
  if total = 0 then none
  let log := Nat.log2 total + 1
  if maxCodeLength < log then none
  let rest := Nat.pow 2 log - total
  if Nat.pow 2 (Nat.log2 rest) ≠ rest then none
  let weights := given ++ [Nat.log2 rest + 1]
  let ones := (weights.filter (· = 1)).length
  if ones < 2 ∨ ones % 2 = 1 then none
  let cells := (List.range log).flatMap fun i =>
    weights.zipIdx.flatMap fun (w, s) =>
      if w = i + 1 then List.replicate (Nat.pow 2 i) (s.toUInt8, log - i) else []
  pure ⟨log, cells.toArray⟩

/-- Decode weights with two interleaved states of `table`, alternately, until the stream is
used up: when a state would need bits that are not there, its symbol and the other state's
end the list. At most 254 weights are decoded by pairs. -/
def weightLoop (table : Array Cell) :
    Nat → Nat → Nat → BitReader → List Nat → Option (List Nat)
  | 0, _, _, _, _ => none
  | fuel + 1, s1, s2, r, acc => do
    let c1 := table.getD s1 default
    let c2 := table.getD s2 default
    if r.left = 0 ∧ 0 < c1.bits then some (acc ++ [c1.symbol, c2.symbol])
    else
      let (v, r) ← r.read c1.bits
      let s1 := c1.base + v
      let acc := acc ++ [c1.symbol]
      if r.left = 0 ∧ 0 < c2.bits then some (acc ++ [c2.symbol, (table.getD s1 default).symbol])
      else
        let (v, r) ← r.read c2.bits
        let acc := acc ++ [c2.symbol]
        if 255 ≤ acc.length then none
        else weightLoop table fuel s1 (c2.base + v) r acc

/-- Weights coded with a finite state entropy table: its description, then the stream. -/
def codedWeights (bytes : Array UInt8) : Option (List Nat) := do
  let (d, after) ← readDistribution bytes 0 15 255
  let table ← d.table?
  let r ← BitReader.open? (slice bytes after bytes.size)
  let (s1, r) ← r.read d.log
  let (s2, r) ← r.read d.log
  let ws ← weightLoop table 256 s1 s2 r []
  if 255 < ws.length then none else pure ws

/-- The weights described at `start`, within the bytes before `stop`, and the position after
the description. A first byte of 128 or more gives `byte - 127` weights four bits each, high
half first; a smaller one is the length of coded weights. -/
def readWeights (bytes : Array UInt8) (start stop : Nat) : Option (List Nat × Nat) := do
  if stop ≤ start + 1 then none
  let head := (bytes.getD start 0).toNat
  if 128 ≤ head then
    let n := head - 127
    let len := (n + 1) / 2
    if stop < start + 1 + len then none
    let ws := (List.range n).map fun i =>
      let b := (bytes.getD (start + 1 + i / 2) 0).toNat
      if i % 2 = 0 then b / 16 else b % 16
    pure (ws, start + 1 + len)
  else
    if stop < start + 1 + head then none
    let ws ← codedWeights (bytes.extract (start + 1) (start + 1 + head))
    pure (ws, start + 1 + head)

/-- Decode `n` symbols, the latest first in the accumulator. -/
def HuffTable.symbols (t : HuffTable) :
    Nat → BitReader → List UInt8 → Option (List UInt8 × BitReader)
  | 0, r, acc => some (acc, r)
  | n + 1, r, acc => do
    let (s, len) := t.cells.getD (r.peek t.log) (0, 0)
    let r ← r.skip len
    t.symbols n r (s :: acc)

/-- Decode one stream of exactly `n` symbols. -/
def HuffTable.stream (t : HuffTable) (bytes : List UInt8) (n : Nat) : Option (List UInt8) := do
  let r ← BitReader.open? bytes
  let (out, r) ← t.symbols n r []
  if r.left = 0 then pure out.reverse else none

/-- Decode four streams holding `n` symbols: the first three a quarter each, rounded up, the
last the rest. -/
def HuffTable.fourStreams (t : HuffTable) (bytes : List UInt8) (n : Nat) : Option (List UInt8) := do
  if bytes.length < 10 then none
  let l1 := fromLE (bytes.take 2)
  let l2 := fromLE ((bytes.drop 2).take 2)
  let l3 := fromLE ((bytes.drop 4).take 2)
  let body := bytes.drop 6
  if body.length ≤ l1 + l2 + l3 then none
  let every := (n + 3) / 4
  if n < 3 * every then none
  let a ← t.stream (body.take l1) every
  let b ← t.stream ((body.drop l1).take l2) every
  let c ← t.stream ((body.drop (l1 + l2)).take l3) every
  let d ← t.stream (body.drop (l1 + l2 + l3)) (n - 3 * every)
  pure (a ++ b ++ c ++ d)

end EntityIndex.Zstd
