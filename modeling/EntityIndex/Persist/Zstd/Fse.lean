import EntityIndex.Persist.Zstd.Bits
import Std.Data.HashMap

/-!
# Finite state entropy tables

A normalized distribution gives each symbol a number of cells out of `2^log`, or `-1` for a
symbol rarer than one cell. Its decoding table has one cell per state: the symbol the state
yields, and how many bits to read and what to add to them for the next state. Symbols of count
`-1` take one cell each at the top of the table; the others are spread over the remaining cells
by stepping `5/8` of the table plus three, so that each symbol's cells are scattered.

A frame describes a distribution with the accuracy log in four bits, then one count per symbol
in a field whose width shrinks as the cells run out, and after a zero count two-bit flags that
say how many further symbols have count zero. A description is refused when its counts do not
fill the table exactly, when it names only one symbol, or when a cell would lead back to itself
without reading a bit.
-/

namespace EntityIndex.Zstd

/-- One state of a decoding table: the symbol it yields and how the next state is read. -/
structure Cell where
  /-- The symbol decoded in this state. -/
  symbol : Nat
  /-- Bits read for the next state. -/
  bits : Nat
  /-- Added to the bits read to give the next state. -/
  base : Nat
  deriving Inhabited, Repr

/-- A normalized distribution: the accuracy log and a count per symbol, `-1` for a symbol of
less than one cell. -/
structure Distribution where
  /-- The table has `2^log` cells. -/
  log : Nat
  /-- Cells per symbol, from symbol zero. -/
  counts : List Int

/-- Step from a cell to the next free one: on by `step`, then on past the cells kept at the top
(above `high`) for low-probability symbols. -/
def nextFree (size high step : Nat) : Nat → Nat → Nat
  | 0, p => p
  | fuel + 1, p => if high < p then nextFree size high step fuel ((p + step) % size) else p

/-- Spread symbols over the table, each symbol's count of cells in symbol order; the table and
the cell where the walk ends, which is the first cell again exactly when the counts fit. -/
def spread (size high : Nat) (counts : List (Nat × Nat)) (cells : Array Nat) : Array Nat × Nat :=
  let step := size / 2 + size / 8 + 3
  let (pos, cells) := counts.foldl (fun (pos, cells) (s, c) =>
    (List.range c).foldl (fun (pos, cells) _ =>
      (nextFree size high step size ((pos + step) % size), cells.setIfInBounds pos s)) (pos, cells))
    (0, cells)
  (cells, pos)

/-- The decoding table of a distribution, with the cell where spreading ended. -/
def Distribution.build (d : Distribution) : Array Cell × Nat :=
  let size := Nat.pow 2 d.log
  let indexed := d.counts.zipIdx
  let lows := indexed.filter (·.1 = -1)
  let (cells1, high) := lows.foldl (fun (cs, h) (_, s) => (cs.setIfInBounds h s, h - 1))
    (Array.replicate size 0, size - 1)
  let counts := (indexed.filter (0 < ·.1)).map fun (c, s) => (s, c.toNat)
  let (symbols, ends) := spread size high counts cells1
  let start := fun (s : Nat) => match d.counts[s]? with
    | some c => if c = -1 then 1 else c.toNat
    | none => 1
  let (_, cells) := (List.range size).foldl (fun (next, acc) u =>
    let s := symbols.getD u 0
    let v := next.getD s (start s)
    let nb := d.log - Nat.log2 v
    (next.insert s (v + 1), acc.push ⟨s, nb, v * Nat.pow 2 nb - size⟩))
    ((∅ : Std.HashMap Nat Nat), (#[] : Array Cell))
  (cells, ends)

/-- The decoding table of a distribution; none when spreading does not come back to the first
cell or a cell leads back to itself without reading a bit. -/
def Distribution.table? (d : Distribution) : Option (Array Cell) :=
  let (cells, ends) := d.build
  if ends ≠ 0 then none
  else if cells.toList.zipIdx.any (fun (c, u) => c.bits = 0 ∧ c.base = u) then none
  else some cells

/-! ## Reading a description -/

/-- Progress through a distribution description. -/
structure Reading where
  /-- Bit position in the bytes. -/
  pos : Nat
  /-- Cells not yet given to a symbol, plus one. -/
  remaining : Nat
  /-- Counts read so far, by symbol. -/
  counts : Array Int
  /-- Whether the last count read was zero, so that zero-run flags come next. -/
  afterZero : Bool

/-- The next count field at `pos` while `remaining` cells are left: the value (the count plus
one) and the bits it takes. The field is one bit narrower for small values, so that exactly the
values up to `remaining` can be written. -/
def countField (bytes : Array UInt8) (pos remaining : Nat) : Nat × Nat :=
  let width := Nat.log2 remaining + 1
  let t := Nat.pow 2 (width - 1)
  let max := 2 * t - 1 - remaining
  let low := forwardBits bytes pos (width - 1)
  if low < max then (low, width - 1)
  else
    let v := forwardBits bytes pos width
    (if t ≤ v then v - max else v, width)

/-- Read two-bit zero-run flags, `n` symbols counted so far: each flag 3 adds three symbols
and asks for another flag, a smaller flag adds itself and ends the run. The run may not pass
`maxSymbol`. -/
def zeroRun (bytes : Array UInt8) (maxSymbol : Nat) : Nat → Reading → Nat → Option Reading
  | 0, _, _ => none
  | fuel + 1, st, n =>
    let flag := forwardBits bytes st.pos 2
    let st := { st with pos := st.pos + 2 }
    if flag = 3 then zeroRun bytes maxSymbol fuel st (n + 3)
    else if maxSymbol < n + flag then none
    else some { st with counts := st.counts ++ Array.replicate (n + flag - st.counts.size) 0 }

/-- Read counts until the cells are given out or every symbol up to `maxSymbol` has one. -/
def readCounts (bytes : Array UInt8) (maxSymbol : Nat) : Nat → Reading → Option Reading
  | 0, _ => none
  | fuel + 1, st =>
    if st.remaining ≤ 1 ∨ maxSymbol < st.counts.size then some st
    else do
      let st ← if st.afterZero then zeroRun bytes maxSymbol (maxSymbol + 2) st st.counts.size
        else some st
      let (v, used) := countField bytes st.pos st.remaining
      readCounts bytes maxSymbol fuel
        { pos := st.pos + used
          remaining := st.remaining - (if v = 0 then 1 else v - 1)
          counts := st.counts.push ((v : Int) - 1)
          afterZero := v = 1 }

/-- Read a distribution description starting at byte `start`; the distribution and the byte
after it. At least four bytes must be left at the start; the accuracy log is at most `maxLog`
and the symbols at most `maxSymbol`. -/
def readDistribution (bytes : Array UInt8) (start maxLog maxSymbol : Nat) :
    Option (Distribution × Nat) := do
  if bytes.size < start + 4 then none
  let log := forwardBits bytes (8 * start) 4 + 5
  if maxLog < log then none
  let st ← readCounts bytes maxSymbol (maxSymbol + 2)
    ⟨8 * start + 4, Nat.pow 2 log + 1, #[], false⟩
  if st.counts.size ≤ 1 ∨ st.remaining ≠ 1 then none
  let next := (st.pos + 7) / 8
  if bytes.size < next then none
  pure (⟨log, st.counts.toList⟩, next)

/-! ## Predefined distributions -/

/-- Predefined literal-length distribution. -/
def literalNorm : Distribution :=
  ⟨6, [4, 3, 2, 2, 2, 2, 2, 2, 2, 2, 2, 2, 2, 1, 1, 1, 2, 2, 2, 2, 2, 2, 2, 2, 2, 3, 2, 1, 1, 1,
    1, 1, -1, -1, -1, -1]⟩

/-- Predefined match-length distribution. -/
def matchNorm : Distribution :=
  ⟨6, [1, 4, 3, 2, 2, 2, 2, 2, 2, 1, 1, 1, 1, 1, 1, 1, 1, 1, 1, 1, 1, 1, 1, 1, 1, 1, 1, 1, 1, 1,
    1, 1, 1, 1, 1, 1, 1, 1, 1, 1, 1, 1, 1, 1, 1, 1, -1, -1, -1, -1, -1, -1, -1]⟩

/-- Predefined offset-code distribution. -/
def offsetNorm : Distribution :=
  ⟨5, [1, 1, 1, 1, 1, 1, 2, 2, 2, 1, 1, 1, 1, 1, 1, 1, 1, 1, 1, 1, 1, 1, 1, 1, -1, -1, -1, -1,
    -1]⟩

/-- The predefined literal-length table. -/
def literalTable : Array Cell := literalNorm.build.1
/-- The predefined match-length table. -/
def matchTable : Array Cell := matchNorm.build.1
/-- The predefined offset table. -/
def offsetTable : Array Cell := offsetNorm.build.1

end EntityIndex.Zstd
