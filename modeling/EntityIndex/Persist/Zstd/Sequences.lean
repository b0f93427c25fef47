import EntityIndex.Persist.Zstd.Codes
import EntityIndex.Persist.Zstd.Literals

/-!
# The sequences section of a compressed block

After the literals come the number of sequences, a byte of three modes (literal lengths,
offsets, match lengths), the tables the modes call for, and one bitstream read backwards. A
mode takes the predefined table, a single symbol, a described table, or the table of the same
kind used by the last block with sequences in the frame.

Each sequence reads the extra bits of its offset, match length and literal length codes, copies
that many literals, then copies the match from earlier content of the frame, and the three
states step on (literal lengths, match lengths, offsets) unless it was the last sequence. The
literals left over end the block. A block may not outgrow the window nor the largest block, a
match may not reach before the frame's content nor beyond the window, and the bitstream must be
used up exactly.
-/

namespace EntityIndex.Zstd

/-- One state machine of the sequence decoder. -/
inductive Machine where
  /-- A state table with `2^log` states. -/
  | table (cells : Array Cell) (log : Nat)
  /-- Always the same symbol, reading no bits. -/
  | single (symbol : Nat)

/-- The initial state of a machine. -/
def Machine.start (m : Machine) (r : BitReader) : Option (Nat × BitReader) :=
  match m with
  | .table _ log => r.read log
  | .single _ => some (0, r)

/-- The symbol of a state. -/
def Machine.symbol (m : Machine) (state : Nat) : Nat :=
  match m with
  | .table cells _ => (cells.getD state default).symbol
  | .single s => s

/-- The next state. -/
def Machine.next (m : Machine) (state : Nat) (r : BitReader) : Option (Nat × BitReader) :=
  match m with
  | .table cells _ =>
    let c := cells.getD state default
    (r.read c.bits).map fun (v, r) => (c.base + v, r)
  | .single _ => some (0, r)

/-- The machines of the three kinds: literal lengths, offsets, match lengths. -/
structure Machines where
  /-- Literal lengths. -/
  literalLengths : Machine
  /-- Offsets. -/
  offsets : Machine
  /-- Match lengths. -/
  matchLengths : Machine

/-- The largest accuracy log of a described sequence table. -/
def maxSequenceLog : Nat := 9

/-- The machine a mode selects, and the position after what it read: 0 predefined, 1 a single
symbol from the next byte, 2 a described table, 3 the previous machine. -/
def readMachine (body : Array UInt8) (pos mode : Nat) (predefined : Machine) (maxSymbol : Nat)
    (previous : Option Machine) : Option (Machine × Nat) :=
  match mode with
  | 0 => some (predefined, pos)
  | 1 => do
    let b ← body[pos]?
    if maxSymbol < b.toNat then none else some (.single b.toNat, pos + 1)
  | 2 => do
    let (d, next) ← readDistribution body pos maxSequenceLog maxSymbol
    let cells ← d.table?
    some (.table cells d.log, next)
  | _ => previous.map (·, pos)

/-- The number of sequences at `pos` and the position after it. -/
def readCount (body : Array UInt8) (pos : Nat) : Option (Nat × Nat) := do
  let c0 := (← body[pos]?).toNat
  if c0 < 128 then pure (c0, pos + 1)
  else if c0 < 255 then pure ((c0 - 128) * 256 + (← body[pos + 1]?).toNat, pos + 2)
  else pure (0x7F00 + (← body[pos + 1]?).toNat + (← body[pos + 2]?).toNat * 256, pos + 3)

/-- Where decoding a block's sequences stands. -/
structure Decoding where
  /-- Literal-length, offset and match-length states. -/
  states : Nat × Nat × Nat
  /-- The repeat offsets. -/
  reps : Repeats
  /-- Literals not yet copied. -/
  lits : List UInt8
  /-- The frame's content so far. -/
  out : Array UInt8

/-- Copy a match byte by byte, so that it may overlap what it copies. -/
def copyBack (out : Array UInt8) (offset : Nat) : Nat → Array UInt8
  | 0 => out
  | n + 1 => copyBack (out.push (out.getD (out.size - offset) 0)) offset n

/-- Decode and execute `count` sequences of a block that started at `begin` of the content; the
block may hold `limit` bytes and a match may reach back `window` bytes. -/
def runSequences (m : Machines) (begin limit window : Nat) :
    Nat → Decoding → BitReader → Option (Decoding × BitReader)
  | 0, run, r => some (run, r)
  | count + 1, run, r => do
    let (sl, so, sm) := run.states
    let ofc := m.offsets.symbol so
    let (mlb, mln) ← matchBase (m.matchLengths.symbol sm)
    let (llb, lln) ← literalBase (m.literalLengths.symbol sl)
    let (ofx, r) ← r.read ofc
    let (mlx, r) ← r.read mln
    let (llx, r) ← r.read lln
    let litLen := llb + llx
    let matchLen := mlb + mlx
    let (offset, reps) := run.reps.resolve (Nat.pow 2 ofc + ofx) litLen
    if run.lits.length < litLen then none
    if limit < run.out.size - begin + litLen + matchLen then none
    let out := run.out ++ (run.lits.take litLen).toArray
    if out.size < offset ∨ window < offset then none
    let run := { run with
      reps := reps, lits := run.lits.drop litLen, out := copyBack out offset matchLen }
    if count = 0 then pure (run, r)
    else
      let (sl, r) ← m.literalLengths.next sl r
      let (sm, r) ← m.matchLengths.next sm r
      let (so, r) ← m.offsets.next so r
      runSequences m begin limit window count { run with states := (sl, so, sm) } r

/-- Decode the sequences section at `pos` of a block body and execute it over the literals,
extending the frame's content; the new content, repeat offsets and machines. -/
def readSequences (body : Array UInt8) (pos window : Nat) (lits : List UInt8)
    (out : Array UInt8) (reps : Repeats) (previous : Option Machines) :
    Option (Array UInt8 × Repeats × Option Machines) := do
  let (count, pos) ← readCount body pos
  if count = 0 then
    if pos = body.size then pure (out ++ lits.toArray, reps, previous) else none
  else
    let modes := (← body[pos]?).toNat
    if modes % 4 ≠ 0 then none
    let (ll, pos) ← readMachine body (pos + 1) (modes / 64) (.table literalTable 6)
      maxLiteralCode (previous.map (·.literalLengths))
    let (of, pos) ← readMachine body pos (modes / 16 % 4) (.table offsetTable 5)
      maxOffsetCode (previous.map (·.offsets))
    let (ml, pos) ← readMachine body pos (modes / 4 % 4) (.table matchTable 6)
      maxMatchCode (previous.map (·.matchLengths))
    let m : Machines := ⟨ll, of, ml⟩
    let r ← BitReader.open? (slice body pos body.size)
    let (sl, r) ← ll.start r
    let (so, r) ← of.start r
    let (sm, r) ← ml.start r
    let limit := min window blockMax
    let (run, r) ←
      runSequences m out.size limit window count ⟨(sl, so, sm), reps, lits, out⟩ r
    if limit < run.out.size - out.size + run.lits.length then none
    if r.left ≠ 0 then none
    pure (run.out ++ run.lits.toArray, run.reps, some m)

end EntityIndex.Zstd
