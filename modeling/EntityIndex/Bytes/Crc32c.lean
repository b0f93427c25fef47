/-!
# CRC-32C

The Castagnoli cyclic redundancy check guards frame payloads. It is the reflected CRC with
polynomial `0x82F63B78`, initial register all ones and the register complemented at the end.
The register steps one bit at a time; a byte is eight bit steps after folding the byte into the
low end of the register, and a byte string is the left fold of the byte step.
-/

namespace EntityIndex.Crc32c

/-- The reflected Castagnoli polynomial. -/
def polynomial : UInt32 := 0x82F63B78

/-- One bit of the reflected division: shift right, and subtract the polynomial when a one
falls out. -/
def bitStep (r : UInt32) : UInt32 :=
  if r &&& 1 = 1 then (r >>> 1) ^^^ polynomial else r >>> 1

/-- `n` bit steps. -/
def bitSteps : Nat → UInt32 → UInt32
  | 0, r => r
  | n + 1, r => bitSteps n (bitStep r)

/-- The register after one more byte. -/
def byteStep (r : UInt32) (b : UInt8) : UInt32 :=
  bitSteps 8 (r ^^^ b.toUInt32)

/-- Continue a checksum `crc` over more bytes; `update (update c a) b = update c (a ++ b)`,
which is why a streamed checksum agrees with the one-shot one. -/
def update (crc : UInt32) (bytes : List UInt8) : UInt32 :=
  ~~~ (bytes.foldl byteStep (~~~ crc))

/-- The CRC-32C of a byte string. -/
def checksum (bytes : List UInt8) : UInt32 :=
  update 0 bytes

/-- The checksum computed in chunks of `size` bytes, the way a streaming hasher sees them. -/
def streamed (size : Nat) (bytes : List UInt8) : UInt32 :=
  go bytes.length bytes 0
where
  /-- Feed the remaining bytes one chunk at a time; `fuel` bounds the number of chunks. -/
  go : Nat → List UInt8 → UInt32 → UInt32
    | 0, _, crc => crc
    | fuel + 1, rest, crc =>
      match rest with
      | [] => crc
      | _ => go fuel (rest.drop (max size 1)) (update crc (rest.take (max size 1)))

/-- Whether `bytes` carry the checksum `want`. -/
def verify (bytes : List UInt8) (want : UInt32) : Bool :=
  checksum bytes == want

end EntityIndex.Crc32c
