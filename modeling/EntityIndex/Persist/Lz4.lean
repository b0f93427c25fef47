/-!
# LZ4 blocks

A block is a sequence of commands. Each starts with a token byte: its high nibble is a literal
count, its low nibble a match length minus four, a nibble of 15 continuing in bytes that add up
until one below 255. The literals follow, then (except after the last literals) a two-byte
little-endian distance back into the output and the bytes of the match, copied one at a time
so that a match may overlap what it produces.

The compressor is a greedy single pass. At each position it hashes the next six bytes
(`blockHash`) and tries the positions remembered for the hash at `p`, `p+1` and `p+2`, in that
order; the table remembers the last position per hash and counts an empty slot as position 0.
A match is extended backwards over pending literals and forwards eight bytes at a time, but
never into the last twelve bytes; after a miss the step grows by one for every 128 bytes since
the last match. The last five bytes are always literals. The decoder checks every bound: a
distance of zero or beyond the output, a count that runs past the input or past the expected
size, is a failure.
-/

namespace EntityIndex.Lz4

/-- Bytes from the end of the input that a match may not start in. -/
def matchLimit : Nat := 14

/-- The window: distances are below `2^16`. -/
def window : Nat := 65536

/-- Little-endian value of `n` bytes at `i` (missing bytes read as zero). -/
def readLE (src : Array UInt8) (i n : Nat) : Nat :=
  (List.range n).foldr (fun k acc => acc * 256 + (src.getD (i + k) 0).toNat) 0

/-- The hash of the low six bytes of `x`, 16 bits: the bytes shifted to the top of a 64-bit word,
multiplied by a large prime, the top 16 bits of the product kept. -/
def blockHash (x : Nat) : Nat :=
  ((x % Nat.pow 2 48) * Nat.pow 2 16 * 227718039650203 % Nat.pow 2 64) / Nat.pow 2 48

/-- The remembered position for hash `h`, seen from position `si`: the table holds positions
modulo the window, read within the window of `si`; a value not before `si` belongs to the
window before and is pushed back (possibly below zero, which never matches). -/
def lookup (table : Array Nat) (h si : Nat) : Int :=
  let i := table.getD h 0 + si / window * window
  if si ≤ i then (i : Int) - window else i

/-- Remember position `si` for hash `h`. -/
def remember (table : Array Nat) (h si : Nat) : Array Nat :=
  table.setIfInBounds h (si % window)

/-- Whether a match at distance `offset` from `si` is usable and its first four bytes agree. -/
def usable (src : Array UInt8) (si : Nat) (ref : Int) : Bool :=
  let offset := (si : Int) - ref
  0 < offset ∧ offset < window ∧ readLE src si 4 = readLE src ref.toNat 4

/-- A length field continued in bytes: 255 for as long as it lasts, then the rest. -/
def lengthBytes : Nat → Nat → List UInt8
  | 0, n => [n.toUInt8]
  | fuel + 1, n => if 255 ≤ n then 255 :: lengthBytes fuel (n - 255) else [n.toUInt8]

/-- The command for `lits` literal bytes followed by a match of `mlen + 4` bytes at `offset`. -/
def command (lits : List UInt8) (offset mlen : Nat) : List UInt8 :=
  let l := lits.length
  let token := (min l 15) * 16 + min mlen 15
  let litExt := if 15 ≤ l then lengthBytes l (l - 15) else []
  let matchExt := if 15 ≤ mlen then lengthBytes mlen (mlen - 15) else []
  token.toUInt8 :: litExt ++ lits ++ [offset.toUInt8, (offset / 256).toUInt8] ++ matchExt

/-- The final command: literals only. -/
def lastCommand (lits : List UInt8) : List UInt8 :=
  let l := lits.length
  if l < 15 then (l * 16).toUInt8 :: lits
  else 0xF0 :: lengthBytes l (l - 15) ++ lits

/-- Bytes `[a, b)` of the input. -/
def slice (src : Array UInt8) (a b : Nat) : List UInt8 :=
  (src.extract a b).toList

/-- Count equal bytes forwards from `si` against `si - offset`, eight at a time while a whole
group stays before `limit`. -/
def extendForward (src : Array UInt8) (offset limit : Nat) : Nat → Nat → Nat
  | 0, si => si
  | fuel + 1, si =>
    if si + 8 ≤ limit then
      let same := (List.range 8).takeWhile fun k =>
        src.getD (si + k) 0 = src.getD (si - offset + k) 0
      if same.length = 8 then extendForward src offset limit fuel (si + 8)
      else si + same.length
    else si

/-- Count equal bytes backwards from `si` over the pending literals from `anchor`. -/
def extendBackward (src : Array UInt8) (offset anchor : Nat) : Nat → Nat → Nat
  | 0, si => si
  | fuel + 1, si =>
    if anchor < si ∧ offset < si ∧ src.getD (si - 1) 0 = src.getD (si - 1 - offset) 0 then
      extendBackward src offset anchor fuel (si - 1)
    else si

/-- The state of the compressor's scan. -/
structure Scan where
  /-- The position being searched. -/
  si : Nat
  /-- The first byte not yet written out. -/
  anchor : Nat
  /-- The commands written so far. -/
  out : Array UInt8
  /-- The last position seen per hash. -/
  table : Array Nat

/-- Emit the command for a match found at `si` with distance `offset`, and move past it. -/
def emitMatch (src : Array UInt8) (sn : Nat) (st : Scan) (si offset : Nat) : Scan × Bool :=
  let start := extendBackward src offset st.anchor si si
  let stop := extendForward src offset sn (src.size + 1) (si + 4)
  let cmd := command (slice src st.anchor start) offset (stop - start - 4)
  let st := { st with si := stop, anchor := stop, out := st.out ++ cmd.toArray }
  if sn ≤ stop then (st, true)
  else
    let h := blockHash (readLE src (stop - 2) 8)
    ({ st with table := remember st.table h (stop - 2) }, false)

/-- The scan loop; fuel bounds the number of steps, each of which advances by at least four. -/
def scan (src : Array UInt8) (sn : Nat) : Nat → Scan → Scan
  | 0, st => st
  | fuel + 1, st =>
    if sn ≤ st.si then st
    else
      let si := st.si
      let word := readLE src si 8
      let h := blockHash word
      let h2 := blockHash (word / 256)
      let ref := lookup st.table h si
      let ref2 := lookup st.table h2 (si + 1)
      let table := remember (remember st.table h si) h2 (si + 1)
      let st := { st with table := table }
      if usable src si ref then
        let (st', done) := emitMatch src sn st si (si - ref).toNat
        if done then st' else scan src sn fuel st'
      else
        let h3 := blockHash (word / 65536)
        let ref3 := lookup st.table h3 (si + 2)
        if usable src (si + 1) ref2 then
          let (st', done) := emitMatch src sn st (si + 1) ((si + 1 : Int) - ref2).toNat
          if done then st' else scan src sn fuel st'
        else
          let st := { st with table := remember st.table h3 (si + 2) }
          if usable src (si + 2) ref3 then
            let (st', done) := emitMatch src sn st (si + 2) ((si + 2 : Int) - ref3).toNat
            if done then st' else scan src sn fuel st'
          else
            scan src sn fuel { st with si := si + 4 + (si + 2 - st.anchor) / 128 }

/-- Compress a block. -/
def compress (input : List UInt8) : List UInt8 :=
  let src := input.toArray
  let start : Scan := ⟨0, 0, #[], Array.replicate window 0⟩
  let st :=
    if matchLimit < src.size then scan src (src.size - matchLimit) (src.size + 1) start
    else start
  st.out.toList ++ lastCommand (slice src st.anchor src.size)

/-- A length continued in bytes at `si`: the total and the position after it. -/
def readLength (src : Array UInt8) : Nat → Nat → Nat → Option (Nat × Nat)
  | 0, _, _ => none
  | fuel + 1, si, acc =>
    match src[si]? with
    | none => none
    | some x =>
      if x = 255 then readLength src fuel (si + 1) (acc + 255) else some (acc + x.toNat, si + 1)

/-- Copy a match of `len` bytes from `offset` back, one byte at a time. -/
def copyMatch (out : Array UInt8) (offset : Nat) : Nat → Array UInt8
  | 0 => out
  | len + 1 => copyMatch (out.push (out.getD (out.size - offset) 0)) offset len

/-- Decode commands from `si`, producing at most `limit` bytes. -/
def decodeFrom (src : Array UInt8) (limit : Nat) : Nat → Nat → Array UInt8 → Option (Array UInt8)
  | 0, _, _ => none
  | fuel + 1, si, out =>
    if src.size ≤ si then some out
    else
      let b := (src.getD si 0).toNat
      let si := si + 1
      let lits : Option (Nat × Nat) :=
        if b / 16 = 15 then readLength src (src.size + 1) si 15 else some (b / 16, si)
      match lits with
      | none => none
      | some (lLen, si) =>
        if src.size < si + lLen ∨ limit < out.size + lLen then none
        else
          let out := out ++ src.extract si (si + lLen)
          let si := si + lLen
          let m := b % 16
          if si = src.size ∧ m = 0 then some out
          else if src.size < si + 2 then none
          else
            let offset := readLE src si 2
            let si := si + 2
            let mlen : Option (Nat × Nat) :=
              if m = 15 then readLength src (src.size + 1) si 19 else some (m + 4, si)
            match mlen with
            | none => none
            | some (mLen, si) =>
              if offset = 0 ∨ out.size < offset ∨ limit < out.size + mLen then none
              else decodeFrom src limit fuel si (copyMatch out offset mLen)

/-- Decompress a block that should produce `size` bytes; none when it is malformed or produces
another size. An empty block produces nothing. -/
def decompress (block : List UInt8) (size : Nat) : Option (List UInt8) :=
  let src := block.toArray
  if src.size = 0 then (if size = 0 then some [] else none)
  else
    match decodeFrom src size (src.size + 1) 0 #[] with
    | some out => if out.size = size then some out.toList else none
    | none => none

end EntityIndex.Lz4
