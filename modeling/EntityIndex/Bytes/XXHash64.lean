/-!
# XXH64

The 64-bit xxHash of a byte string with seed zero. Keys and entity references are spread over
partitions and shards by this hash, so it has to be bit-exact: four accumulators consume
32-byte stripes, the remainder is mixed in 8-, 4- and 1-byte pieces, and a final avalanche
spreads every input bit over the result. All arithmetic wraps modulo `2^64`.
-/

namespace EntityIndex.XXHash64

/-- First of the five odd multipliers of the hash. -/
def prime1 : UInt64 := 11400714785074694791
/-- Second multiplier. -/
def prime2 : UInt64 := 14029467366897019727
/-- Third multiplier. -/
def prime3 : UInt64 := 1609587929392839161
/-- Fourth multiplier. -/
def prime4 : UInt64 := 9650029242287828579
/-- Fifth multiplier. -/
def prime5 : UInt64 := 2870177450012600261

/-- Rotate left by `r` bits, `0 < r < 64`. -/
def rotl (x : UInt64) (r : UInt64) : UInt64 :=
  (x <<< r) ||| (x >>> (64 - r))

/-- The little-endian word of the first `n` bytes (missing bytes read as zero). -/
def readLE : Nat → List UInt8 → UInt64
  | 0, _ => 0
  | _ + 1, [] => 0
  | n + 1, b :: rest => b.toUInt64 ||| (readLE n rest <<< 8)

/-- One accumulator round over an 8-byte lane. -/
def round (acc lane : UInt64) : UInt64 :=
  rotl (acc + lane * prime2) 31 * prime1

/-- Fold an accumulator into the running hash. -/
def mergeRound (h acc : UInt64) : UInt64 :=
  (h ^^^ round 0 acc) * prime1 + prime4

/-- The four accumulators of the stripe loop. -/
structure Lanes where
  /-- First accumulator. -/
  v1 : UInt64
  /-- Second accumulator. -/
  v2 : UInt64
  /-- Third accumulator. -/
  v3 : UInt64
  /-- Fourth accumulator. -/
  v4 : UInt64

/-- Consume `n` 32-byte stripes; answers the lanes and the bytes after the last stripe. -/
def stripes : Nat → Lanes → List UInt8 → Lanes × List UInt8
  | 0, l, bytes => (l, bytes)
  | n + 1, l, bytes =>
    let l' : Lanes :=
      { v1 := round l.v1 (readLE 8 bytes)
        v2 := round l.v2 (readLE 8 (bytes.drop 8))
        v3 := round l.v3 (readLE 8 (bytes.drop 16))
        v4 := round l.v4 (readLE 8 (bytes.drop 24)) }
    stripes n l' (bytes.drop 32)

/-- Mix the tail of fewer than 32 bytes into the hash: 8-byte words, then one 4-byte word,
then single bytes. -/
def tail : Nat → UInt64 → List UInt8 → UInt64
  | 0, h, _ => h
  | fuel + 1, h, bytes =>
    if 8 ≤ bytes.length then
      let h := h ^^^ round 0 (readLE 8 bytes)
      tail fuel (rotl h 27 * prime1 + prime4) (bytes.drop 8)
    else if 4 ≤ bytes.length then
      let h := h ^^^ (readLE 4 bytes * prime1)
      tail fuel (rotl h 23 * prime2 + prime3) (bytes.drop 4)
    else
      match bytes with
      | [] => h
      | b :: rest =>
        let h := h ^^^ (b.toUInt64 * prime5)
        tail fuel (rotl h 11 * prime1) rest

/-- The final avalanche. -/
def avalanche (h : UInt64) : UInt64 :=
  let h := (h ^^^ (h >>> 33)) * prime2
  let h := (h ^^^ (h >>> 29)) * prime3
  h ^^^ (h >>> 32)

/-- XXH64 with seed zero. -/
def hash (bytes : List UInt8) : UInt64 :=
  let len := bytes.length
  let (h, rest) :=
    if 32 ≤ len then
      let start : Lanes := { v1 := prime1 + prime2, v2 := prime2, v3 := 0, v4 := 0 - prime1 }
      let (l, rest) := stripes (len / 32) start bytes
      let h := rotl l.v1 1 + rotl l.v2 7 + rotl l.v3 12 + rotl l.v4 18
      let h := mergeRound (mergeRound (mergeRound (mergeRound h l.v1) l.v2) l.v3) l.v4
      (h, rest)
    else (prime5, bytes)
  avalanche (tail (rest.length + 1) (h + len.toUInt64) rest)

/-- XXH64 of the UTF-8 bytes of a text. -/
def hashString (s : String) : UInt64 :=
  hash s.toUTF8.toList

end EntityIndex.XXHash64
