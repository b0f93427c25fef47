import EntityIndex.Persist.Zstd.Codes
import EntityIndex.Persist.Zstd.Literals
import EntityIndex.Persist.Zstd.Matches
import EntityIndex.Bytes.XXHash64

/-!
# Writing Zstandard frames

The writer makes one frame with the content size and a checksum; content over 1 KiB is a single
segment, smaller content announces a window of at least 1 KiB. It takes the matches of
`findMatches`, keeps literals raw, and codes the sequences with the predefined distributions,
offsets always as new distances. A block that does not shrink is stored raw, and a block of one
repeated byte as that byte.

The states of each machine are chosen from the last sequence backwards: the last state is any
that yields the last symbol, and each earlier one is the state of its symbol whose range of next
states holds the state after it.
-/

namespace EntityIndex.Zstd

/-- The state before `next` that yields `symbol`: the unique cell of that symbol whose range of
next states holds `next`; with the bits to write. -/
def predecessor (table : Array Cell) (symbol next : Nat) : Option (Nat × Nat × Nat) :=
  (table.toList.zipIdx.find? fun (c, _) =>
    c.symbol = symbol ∧ c.base ≤ next ∧ next < c.base + Nat.pow 2 c.bits).map fun (c, u) =>
      (u, next - c.base, c.bits)

/-- Some state that yields `symbol`. -/
def firstState (table : Array Cell) (symbol : Nat) : Nat :=
  ((table.toList.zipIdx.find? fun (c, _) => c.symbol = symbol).map (·.2)).getD 0

/-- The literals section header for `size` raw bytes. -/
def literalsHeader (size : Nat) : List UInt8 :=
  if size < 32 then [(size * 8).toUInt8]
  else if size < 4096 then [(4 + (size % 16) * 16).toUInt8, (size / 16).toUInt8]
  else [(12 + (size % 16) * 16).toUInt8, (size / 16 % 256).toUInt8, (size / 4096).toUInt8]

/-- The sequence count header. -/
def countHeader (n : Nat) : List UInt8 :=
  if n < 128 then [n.toUInt8]
  else if n < 0x7F00 then [(n / 256 + 128).toUInt8, (n % 256).toUInt8]
  else [255, ((n - 0x7F00) % 256).toUInt8, ((n - 0x7F00) / 256).toUInt8]

/-- The three codes and extra bits of a sequence. -/
structure Coded where
  /-- Literal-length code and its extra bits (value, count). -/
  ll : Nat × Nat × Nat
  /-- Offset code and its extra bits. -/
  of : Nat × Nat × Nat
  /-- Match-length code and its extra bits. -/
  ml : Nat × Nat × Nat

/-- Code one sequence; offsets are sent as distance plus three, never as repeats. -/
def code (s : Found) : Coded :=
  let llc := codeOf 0 16 literalCodes s.lits
  let (llb, lln) := (literalBase llc).getD (0, 0)
  let mlc := codeOf 3 32 matchCodes s.len
  let (mlb, mln) := (matchBase mlc).getD (0, 0)
  let v := s.dist + 3
  let ofc := Nat.log2 v
  ⟨(llc, s.lits - llb, lln), (ofc, v - Nat.pow 2 ofc, ofc), (mlc, s.len - mlb, mln)⟩

/-- The states of one machine for a list of symbols, chosen from the last symbol backwards:
each state with the bits that lead from it to the next one. -/
def chooseStates (table : Array Cell) (symbols : List Nat) : Option (List (Nat × Nat × Nat)) :=
  match symbols.reverse with
  | [] => some []
  | last :: earlier =>
    let lastState := firstState table last
    let step (acc : Option (List (Nat × Nat × Nat) × Nat)) (s : Nat) :=
      acc.bind fun (states, next) =>
        (predecessor table s next).map fun (u, v, nb) => ((u, v, nb) :: states, u)
    (earlier.foldl step (some ([(lastState, 0, 0)], lastState))).map (·.1)

/-- The sequences bitstream with predefined codes. -/
def sequenceStream (cs : List Coded) : Option (List UInt8) := do
  let lls ← chooseStates literalTable (cs.map (·.ll.1))
  let ofs ← chooseStates offsetTable (cs.map (·.of.1))
  let mls ← chooseStates matchTable (cs.map (·.ml.1))
  let items := (cs.zip (lls.zip (ofs.zip mls))).reverse
  -- the reader takes, per sequence: offset, match and literal extras, then the transitions of
  -- the literal, match and offset machines; the writer puts everything in reverse
  let w := items.zipIdx.foldl (fun (w : BitWriter) ((c, (ll, of, ml)), i) =>
    let w := if i = 0 then w else
      let w := w.put of.2.1 of.2.2
      let w := w.put ml.2.1 ml.2.2
      w.put ll.2.1 ll.2.2
    let w := w.put c.ll.2.1 c.ll.2.2
    let w := w.put c.ml.2.1 c.ml.2.2
    w.put c.of.2.1 c.of.2.2) {}
  match lls.head?, ofs.head?, mls.head? with
  | some ll, some of, some ml =>
    let w := w.put ml.1 6
    let w := w.put of.1 5
    let w := w.put ll.1 6
    pure w.finish
  | _, _, _ => none

/-- A compressed block body for `src`, if one can be made. -/
def compressedBody (src : Array UInt8) : Option (List UInt8) := do
  let seqs := (findMatches src).toList
  let (lits, pos) := seqs.foldl (fun (acc : Array UInt8 × Nat) f =>
    (acc.1 ++ src.extract acc.2 (acc.2 + f.lits), acc.2 + f.lits + f.len)) (#[], 0)
  let lits := (lits ++ src.extract pos src.size).toList
  let literals := literalsHeader lits.length ++ lits
  if seqs.isEmpty then pure (literals ++ [0])
  else
    let stream ← sequenceStream (seqs.map code)
    pure (literals ++ countHeader seqs.length ++ [0] ++ stream)

/-- One block: raw, repeated byte, or compressed, whichever is smallest. -/
def block (chunk : List UInt8) (last : Bool) : List UInt8 :=
  let size := chunk.length
  let lastBit := if last then 1 else 0
  let header (kind len : Nat) := le 3 (lastBit + kind * 2 + len * 8)
  let raw := header 0 size ++ chunk
  match chunk with
  | b :: rest =>
    if rest.all (· = b) then header 1 size ++ [b]
    else
      match compressedBody chunk.toArray with
      | some body => if body.length < size then header 2 body.length ++ body else raw
      | none => raw
  | [] => raw

/-- Split content into blocks of at most `blockMax` bytes. -/
def chunks : Nat → List UInt8 → List (List UInt8)
  | 0, _ => []
  | fuel + 1, bs =>
    if bs.length ≤ blockMax then [bs] else bs.take blockMax :: chunks fuel (bs.drop blockMax)

/-- The window log the header announces: the bits of the content size, at least 10, or 23 for
empty content. -/
def windowLog (size : Nat) : Nat :=
  if size = 0 then 23 else min 23 (max 10 (Nat.log2 size + 1))

/-- The frame header: magic, descriptor, window byte unless the content (over 1 KiB) is a single
segment, and the content size in the fewest bytes its range allows. -/
def frameHeader (size : Nat) : List UInt8 :=
  let single := 1024 < size ∧ size ≤ Nat.pow 2 23
  let (flag, fcs) :=
    if size < 256 then (0, if single then le 1 size else [])
    else if size < 65792 then (0x40, le 2 (size - 256))
    else if size < 0xFFFFFFFF then (0x80, le 4 size)
    else (0xC0, le 8 size)
  let wd := if single then [] else [((windowLog size - 10) * 8).toUInt8]
  [0x28, 0xB5, 0x2F, 0xFD, (flag + (if single then 0x20 else 0) + 0x04).toUInt8] ++ wd ++ fcs

/-- A frame holding `content`. -/
def compress (content : List UInt8) : List UInt8 :=
  let size := content.length
  let parts := chunks (size / blockMax + 1) content
  let n := parts.length
  let blocks := parts.zipIdx.flatMap fun (c, i) => block c (i + 1 = n)
  let sum := (XXHash64.hash content).toNat
  frameHeader size ++ blocks ++ le 4 sum

end EntityIndex.Zstd
