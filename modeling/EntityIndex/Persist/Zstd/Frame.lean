import EntityIndex.Persist.Zstd.Sequences
import EntityIndex.Bytes.XXHash64

/-!
# Reading Zstandard frames

Content is a run of frames. A skippable frame (magic `0x184D2A50` to `0x184D2A5F`) is a length
and that many bytes to pass over. A Zstandard frame is the magic number, a header, blocks up to
the one marked last, and, when the header says so, the low four bytes of the XXH64 of the frame's
content.

The header byte gives the sizes of the fields after it; its reserved bit must be clear. A frame
that is not a single segment gives its window, which may not exceed 512 MiB; a single segment's
window is its content size, at least 1 KiB. A dictionary is never available, so a frame that
names one is refused. The content size, when given, must be the size of the content.

Blocks are raw, one byte repeated, or compressed; none may exceed the window or 128 KiB. Each
frame starts afresh: its matches reach only into its own content, and its repeat offsets,
prefix code and sequence tables start unset.
-/

namespace EntityIndex.Zstd

/-- What one block passes on to the next within a frame. -/
structure History where
  /-- The frame's content so far. -/
  out : Array UInt8 := #[]
  /-- The repeat offsets. -/
  reps : Repeats := Repeats.initial
  /-- The prefix code of the last coded literals. -/
  code : Option HuffTable := none
  /-- The sequence machines of the last block with sequences. -/
  machines : Option Machines := none

/-- Decode a compressed block body. -/
def History.compressed (h : History) (body : Array UInt8) (window : Nat) : Option History := do
  if body.size < 2 then none
  let (lits, pos, code) ← readLiterals body window h.code
  let (out, reps, machines) ← readSequences body pos window lits h.out h.reps h.machines
  pure { out := out, reps := reps, code := code, machines := machines }

/-- Decode blocks from `pos` until the last one; the content and the position after the
blocks. -/
def readBlocks (data : Array UInt8) (window : Nat) (contentSize : Option Nat) :
    Nat → Nat → History → Option (Array UInt8 × Nat)
  | 0, _, _ => none
  | fuel + 1, pos, h => do
    if data.size < pos + 3 then none
    let head := fromLE (slice data pos (pos + 3))
    let last := head % 2 = 1
    let kind := head / 2 % 4
    let size := head / 8
    let pos := pos + 3
    if kind = 3 ∨ window < size ∨ blockMax < size then none
    let (h, pos) ← match kind with
      | 0 =>
        if data.size < pos + size then none
        else some ({ h with out := h.out ++ data.extract pos (pos + size) }, pos + size)
      | 1 => do
        let b ← data[pos]?
        some ({ h with out := h.out ++ Array.replicate size b }, pos + 1)
      | _ => do
        if size < 2 ∨ data.size < pos + size then none
        let h ← h.compressed (data.extract pos (pos + size)) window
        some (h, pos + size)
    if contentSize.any (· < h.out.size) then none
    if last then pure (h.out, pos) else readBlocks data window contentSize fuel pos h

/-- The magic number of a Zstandard frame. -/
def magic : List UInt8 := [0x28, 0xB5, 0x2F, 0xFD]

/-- The largest window accepted. -/
def maxWindow : Nat := Nat.pow 2 29

/-- The smallest window. -/
def minWindow : Nat := 1024

/-- Read the Zstandard frame whose header byte is at `pos`: its content and the position after
it. -/
def readFrame (data : Array UInt8) (pos : Nat) : Option (Array UInt8 × Nat) := do
  let d := (← data[pos]?).toNat
  let single := d / 32 % 2 = 1
  let checksum := d / 4 % 2 = 1
  if d / 8 % 2 = 1 then none
  let pos := pos + 1
  let (window, pos) ← if single then some (0, pos) else do
    let wd := (← data[pos]?).toNat
    let base := Nat.pow 2 (10 + wd / 8)
    some (base + base / 8 * (wd % 8), pos + 1)
  if maxWindow < window then none
  let dictLen := match d % 4 with
    | 0 => 0
    | 1 => 1
    | 2 => 2
    | _ => 4
  if data.size < pos + dictLen then none
  if fromLE (slice data pos (pos + dictLen)) ≠ 0 then none
  let pos := pos + dictLen
  let fcsLen := match d / 64 with
    | 0 => if single then 1 else 0
    | 1 => 2
    | 2 => 4
    | _ => 8
  if data.size < pos + fcsLen then none
  let raw := fromLE (slice data pos (pos + fcsLen))
  let contentSize : Option Nat :=
    if fcsLen = 0 then none else if fcsLen = 2 then some (raw + 256) else some raw
  let pos := pos + fcsLen
  let window := if single then max (contentSize.getD 0) minWindow else window
  let (out, pos) ← readBlocks data window contentSize (data.size + 1) pos {}
  if contentSize.any (· ≠ out.size) then none
  if checksum then
    if data.size < pos + 4 then none
    let sum := (XXHash64.hash out.toList).toNat % Nat.pow 2 32
    if fromLE (slice data pos (pos + 4)) ≠ sum then none
    pure (out, pos + 4)
  else pure (out, pos)

/-- Read frames from `pos` to the end of the input, appending their contents to `acc`. The input
may end only where a frame ends. -/
def readFrames (data : Array UInt8) : Nat → Nat → Array UInt8 → Option (Array UInt8)
  | 0, _, _ => none
  | fuel + 1, pos, acc => do
    if data.size ≤ pos then pure acc
    else if data.size < pos + 4 then none
    else
      let sig := slice data pos (pos + 4)
      if sig.drop 1 = [0x2A, 0x4D, 0x18] ∧ (sig.headD 0) / 16 = 5 then
        if data.size < pos + 8 then none
        let skip := fromLE (slice data (pos + 4) (pos + 8))
        if data.size < pos + 8 + skip then none
        readFrames data fuel (pos + 8 + skip) acc
      else if sig = magic then
        let (out, next) ← readFrame data (pos + 4)
        if next = data.size then pure (acc ++ out)
        else readFrames data fuel next (acc ++ out)
      else none

/-- The content of a run of frames; none when a frame is malformed or damaged, or the input
ends inside one. -/
def decompress (input : List UInt8) : Option (List UInt8) :=
  let data := input.toArray
  (readFrames data (data.size + 1) 0 #[]).map (·.toList)

end EntityIndex.Zstd
