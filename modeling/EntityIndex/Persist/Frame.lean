import EntityIndex.Persist.Codec
import EntityIndex.Bytes.Crc32c
import EntityIndex.Text.Quote
import EntityIndex.Text.Utf8
import EntityIndex.Model.Error

/-!
# Frames

Every persisted value is stored as a frame:

| bytes | field |
|---|---|
| 4 | magic `AIX1` |
| 2 | version, little-endian, 1 |
| 1 | compression of the payload |
| 1 | length of the codec name, then the name |
| 4 | length of the encoded value before compression, little-endian |
| 4 | length of the payload |
| 4 | CRC-32C of the payload |
| … | the payload |

The compressors are libraries the format is given (`Compressors`), not part of it: a frame
stores a compressor's output only when it is not empty and shorter than the encoded value, and
payloads under 256 bytes are never compressed. The encoder refuses an encoded value too long
for the 32-bit raw length (`encode`); stores frame their documents with `frame`, which leaves
the length unchecked. Reading checks, in this order: that the header is there, the magic, the
version, that the name and lengths fit, that exactly the payload follows, the checksum, the
decompression (which must give the recorded length), and that the codec is known; only then is
the payload decoded.
-/

namespace EntityIndex

/-- How a payload is compressed, as recorded in byte 6 of a frame. -/
inductive Compression where
  /-- Stored as encoded. -/
  | none
  /-- LZ4 block. -/
  | lz4
  /-- Zstandard frame. -/
  | zstd
  /-- An unknown code. -/
  | other (code : Nat)
  deriving DecidableEq, Repr, Inhabited

namespace Compression

/-- The compression of a byte code. -/
def ofCode (n : Nat) : Compression :=
  match n % 256 with
  | 0 => .none
  | 1 => .lz4
  | 2 => .zstd
  | c => .other c

/-- The byte code. -/
def code : Compression → Nat
  | .none => 0
  | .lz4 => 1
  | .zstd => 2
  | .other c => c

/-- The name: `none`, `lz4`, `zstd` or `compression(N)`. -/
def name : Compression → String
  | .none => "none"
  | .lz4 => "lz4"
  | .zstd => "zstd"
  | .other c => "compression(" ++ toString c ++ ")"

end Compression

/-- A compression library as frames use it: what it writes for a value, and what it reads back
from its output given the length the frame records for the value. An empty output means the
library gave up. -/
structure Compressor where
  /-- The compressed bytes of a value. -/
  compress : List UInt8 → List UInt8
  /-- The value read back from compressed bytes and the recorded length, if they read. -/
  decompress : List UInt8 → Nat → Option (List UInt8)
  deriving Inhabited

/-- The two compression libraries a frame may name. -/
structure Compressors where
  /-- The LZ4 block library. -/
  lz4 : Compressor
  /-- The Zstandard library. -/
  zstd : Compressor
  deriving Inhabited

namespace Frame

/-- The magic bytes `AIX1`. -/
def magic : List UInt8 := [65, 73, 88, 49]

/-- The only frame version. -/
def version : Nat := 1

/-- Payloads shorter than this are stored uncompressed. -/
def minCompressed : Nat := 256

/-- The longest encoded value a frame records: its length must fit 32 bits. -/
def maxRawLen : Nat := Nat.pow 2 32 - 1

/-- Little-endian bytes of `v`, `n` of them. -/
def le (n v : Nat) : List UInt8 := (List.range n).map fun i => (v / Nat.pow 256 i % 256).toUInt8

/-- A little-endian number. -/
def fromLE (bs : List UInt8) : Nat := bs.foldr (fun b acc => acc * 256 + b.toNat) 0

/-- A compressor's output under its compression when it is not empty and shorter than the
value; otherwise the value, uncompressed. -/
def keepShorter (raw out : List UInt8) (c : Compression) : List UInt8 × Compression :=
  if out.isEmpty ∨ raw.length ≤ out.length then (raw, .none) else (out, c)

/-- The payload and the compression actually used. -/
def compress (cs : Compressors) (raw : List UInt8) (c : Compression) :
    Except Error (List UInt8 × Compression) :=
  if c = .none ∨ raw.length < minCompressed then .ok (raw, .none)
  else
    match c with
    | .lz4 => .ok (keepShorter raw (cs.lz4.compress raw) .lz4)
    | .zstd => .ok (keepShorter raw (cs.zstd.compress raw) .zstd)
    | _ => .error (.context ("compress with " ++ c.name) (.other ("unknown compression " ++ c.name)))

/-- The bytes of a frame: compression code, codec name, raw length and payload in the header
layout, the checksum computed from the payload. -/
def layout (comp : UInt8) (name : List UInt8) (rawLen : Nat) (payload : List UInt8) : List UInt8 :=
  magic ++ le 2 version ++ [comp, name.length.toUInt8] ++ name ++
    le 4 rawLen ++ le 4 payload.length ++ le 4 (Crc32c.checksum payload).toNat ++ payload

/-- Frame an encoded value under a codec name, refused when the name is longer than 255 bytes or
a value of at least `minCompressed` bytes is asked for under an unknown compression. Nothing
bounds the value's length here: the layout records it modulo `2 ^ 32`. -/
def frame (cs : Compressors) (codecName : String) (c : Compression) (raw : List UInt8) :
    Except Error (List UInt8) :=
  let name := codecName.toUTF8.toList
  if 255 < name.length then .error (.other ("codec name " ++ Quote.quote codecName ++ " too long"))
  else
    (compress cs raw c).map fun (payload, used) => layout used.code.toUInt8 name raw.length payload

/-- Frame an encoded value as the frame format's encoder does: as `frame`, and once the codec
name passed, a value longer than `maxRawLen` is refused before it is compressed. -/
def encode (cs : Compressors) (codecName : String) (c : Compression) (raw : List UInt8) :
    Except Error (List UInt8) :=
  if codecName.toUTF8.toList.length ≤ 255 ∧ maxRawLen < raw.length then
    .error (.other "payload too large")
  else frame cs codecName c raw

/-- What a frame header says. -/
structure Header where
  /-- The frame version. -/
  version : Nat
  /-- The payload compression. -/
  compression : Compression
  /-- The codec name as stored. -/
  codec : List UInt8
  /-- The length of the encoded value. -/
  rawLen : Nat
  deriving Repr

/-- The encoded value of a payload: an uncompressed payload is the value itself; a compressed
one must decompress to the recorded length. -/
def expand (cs : Compressors) (comp : Compression) (rawLen : Nat) (payload : List UInt8) :
    Option (List UInt8) :=
  match comp with
  | .none => some payload
  | .lz4 => (cs.lz4.decompress payload rawLen).filter (·.length == rawLen)
  | .zstd => (cs.zstd.decompress payload rawLen).filter (·.length == rawLen)
  | .other _ => Option.none

/-- A frame-level failure of a kind with its text. -/
def fault (k : Kind) (text : String) : Error := .fault k text

/-- The header and the encoded value of a frame. -/
def unwrap (cs : Compressors) (data : List UInt8) : Except Error (Header × List UInt8) :=
  if data.length < 8 then .error (fault .truncated "truncated frame")
  else if data.take 4 ≠ magic then .error (fault .invalidMagic "invalid frame magic")
  else
    let v := fromLE ((data.drop 4).take 2)
    if v ≠ version then .error (fault .invalidVersion ("unsupported frame version: " ++ toString v))
    else
      let comp := Compression.ofCode (data.getD 6 0).toNat
      let nameLen := (data.getD 7 0).toNat
      if data.length < 8 + nameLen + 12 then .error (fault .truncated "truncated frame")
      else
        let name := (data.drop 8).take nameLen
        let rest := data.drop (8 + nameLen)
        let rawLen := fromLE (rest.take 4)
        let payloadLen := fromLE ((rest.drop 4).take 4)
        let sum := fromLE ((rest.drop 8).take 4)
        let payload := rest.drop 12
        let h : Header := ⟨v, comp, name, rawLen⟩
        if payload.length ≠ payloadLen then .error (fault .truncated "truncated frame")
        else if (Crc32c.checksum payload).toNat ≠ sum then .error (fault .checksum "frame checksum mismatch")
        else
          match expand cs comp rawLen payload with
          | some raw => .ok (h, raw)
          | Option.none => .error (fault .decompress ("decompress " ++ comp.name))

/-- Read a frame with `decode`, which reads the encoded value with the recorded codec. -/
def decode {α : Type} (cs : Compressors) (data : List UInt8)
    (decode : Codec → List UInt8 → Option α) : Except Error (Header × α) := do
  let (h, raw) ← unwrap cs data
  let name := Utf8.decodeLossy h.codec
  match Codec.reader? name with
  | none => throw (fault .unknownCodec ("unknown codec: " ++ Quote.quoteBytes h.codec))
  | some c =>
    match decode c raw with
    | some v => pure (h, v)
    | none => throw (fault .codec ("decode with " ++ Utf8.decodeLossy h.codec))

end Frame

end EntityIndex
