/-!
# Bit streams of Zstandard frames

A frame holds bit streams of two kinds. Distribution descriptions are read forwards, from the
lowest bit of their first byte upwards. Entropy-coded streams are written forwards and read
backwards: the last byte holds a marker bit above the last bit written, and reading starts just
below the marker, taking the bits written last first.

A backward reader is the stream's bytes together with the count of bits not yet read, so that
"the stream is used up" is the count being zero; reading `n` bits takes them from the bytes
that hold bit positions `left - n` up to `left`.
-/

namespace EntityIndex.Zstd

/-- A little-endian number from bytes. -/
def fromLE (bs : List UInt8) : Nat := bs.foldr (fun b acc => acc * 256 + b.toNat) 0

/-- Little-endian bytes of `v`, `n` of them. -/
def le (n v : Nat) : List UInt8 := (List.range n).map fun i => (v / Nat.pow 256 i % 256).toUInt8

/-- The bytes of `bytes` from `start` up to `stop`, as a list. -/
def slice (bytes : Array UInt8) (start stop : Nat) : List UInt8 := (bytes.extract start stop).toList

/-- `n` bits of `bytes` from bit `pos` on, the first one lowest; bits past the end read as
zero. -/
def forwardBits (bytes : Array UInt8) (pos n : Nat) : Nat :=
  (List.range n).foldr (fun k acc =>
    acc * 2 + (bytes.getD ((pos + k) / 8) 0).toNat / Nat.pow 2 ((pos + k) % 8) % 2) 0

/-! ## Writing -/

/-- Bits appended low end first, as the writer produces them: whole bytes so far, and the bits
of the byte being filled. -/
structure BitWriter where
  /-- Completed bytes. -/
  bytes : Array UInt8 := #[]
  /-- Bits not yet in a completed byte, the first one lowest. -/
  acc : Nat := 0
  /-- How many such bits there are. -/
  count : Nat := 0

/-- Move completed bytes out of the pending bits. -/
def BitWriter.flush : Nat → BitWriter → BitWriter
  | 0, w => w
  | fuel + 1, w =>
    if w.count < 8 then w
    else BitWriter.flush fuel ⟨w.bytes.push (w.acc % 256).toUInt8, w.acc / 256, w.count - 8⟩

/-- Append the low `n` bits of `v`. -/
def BitWriter.put (w : BitWriter) (v n : Nat) : BitWriter :=
  let count := w.count + n
  BitWriter.flush (count / 8) ⟨w.bytes, w.acc + (v % Nat.pow 2 n) * Nat.pow 2 w.count, count⟩

/-- Close the stream with the marker bit and pad it to whole bytes, little-endian. -/
def BitWriter.finish (w : BitWriter) : List UInt8 :=
  let acc := w.acc + Nat.pow 2 w.count
  let tail := (List.range (w.count / 8 + 1)).map fun i => (acc / Nat.pow 2 (8 * i) % 256).toUInt8
  w.bytes.toList ++ tail

/-! ## Reading backwards -/

/-- A stream being read backwards: its bytes and the number of bits not yet read. -/
structure BitReader where
  /-- The stream. -/
  bytes : Array UInt8
  /-- Bits still unread, below the marker. -/
  left : Nat

/-- Open a stream: it must have a last byte, and that byte must hold the marker bit. -/
def BitReader.open? (bytes : List UInt8) : Option BitReader :=
  match bytes.getLast? with
  | none => none
  | some last =>
    if last = 0 then none
    else some ⟨bytes.toArray, 8 * (bytes.length - 1) + Nat.log2 last.toNat⟩

/-- `n` bits of the stream from bit `p` on, the first one lowest. -/
def BitReader.bitsAt (r : BitReader) (p n : Nat) : Nat :=
  fromLE (slice r.bytes (p / 8) ((p + n + 7) / 8)) / Nat.pow 2 (p % 8) % Nat.pow 2 n

/-- Read the `n` bits written last; none when fewer are left. -/
def BitReader.read (r : BitReader) (n : Nat) : Option (Nat × BitReader) :=
  if r.left < n then none
  else some (r.bitsAt (r.left - n) n, ⟨r.bytes, r.left - n⟩)

/-- The next `n` bits without reading them; when fewer are left, the missing low bits are
zero. -/
def BitReader.peek (r : BitReader) (n : Nat) : Nat :=
  if n ≤ r.left then r.bitsAt (r.left - n) n
  else r.bitsAt 0 r.left * Nat.pow 2 (n - r.left)

/-- Pass over `n` bits; none when fewer are left. -/
def BitReader.skip (r : BitReader) (n : Nat) : Option BitReader :=
  if r.left < n then none else some ⟨r.bytes, r.left - n⟩

end EntityIndex.Zstd
