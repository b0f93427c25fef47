import EntityIndex.Requests.Wire
import EntityIndex.Persist.Builtin

/-!
# Frame requests

Encode a JSON value into a frame and read it back, optionally after damaging the frame on
purpose; or read a frame given in hexadecimal. Damage is applied in order: flip bits of one byte,
cut the frame short, append bytes, or reset the payload length and checksum to match whatever
payload now follows the header.
-/

namespace EntityIndex.Requests

open EntityIndex.Json EntityIndex.Wire

/-- One deliberate change to a frame's bytes. -/
inductive Damage where
  /-- Exclusive-or the byte at an offset with a mask. -/
  | flip (offset : Int) (mask : UInt8)
  /-- Keep only the first bytes. -/
  | cut (length : Int)
  /-- Append bytes. -/
  | extend (bytes : List UInt8)
  /-- Make the payload length and checksum agree with the payload. -/
  | reseal

/-- Apply one change, refused when it does not fit the frame: an offset outside it, a length
beyond it, or a frame too short to hold a header. -/
def Damage.apply (data : List UInt8) : Damage → Except String (List UInt8)
  | .flip offset mask =>
    if 0 ≤ offset ∧ offset < data.length then
      .ok (data.zipIdx.map fun (b, i) => if i = offset.toNat then b ^^^ mask else b)
    else .error "xor offset out of range"
  | .cut n =>
    if 0 ≤ n ∧ n ≤ data.length then .ok (data.take n.toNat) else .error "truncate out of range"
  | .extend bs => .ok (data ++ bs)
  | .reseal =>
    let off := 8 + (data.getD 7 0).toNat
    if data.length < 8 ∨ data.length < off + 12 then .error "frame too short to fix crc"
    else
      let payload := data.drop (off + 12)
      .ok (data.take (off + 4) ++ Frame.le 4 payload.length ++
        Frame.le 4 (Crc32c.checksum payload).toNat ++ payload)

/-- Read one change: the first of `xor: [offset, mask]`, `truncate`, `append` (hexadecimal)
and `fix_crc` that is given. The mask is taken modulo 256. -/
def damage (v : Value) : Read Damage := do
  match v.opt? "xor" with
  | some x =>
    let parts := itemsOf x
    let offset := (intOf? (parts.getD 0 .null)).getD 0
    let mask := (intOf? (parts.getD 1 .null)).getD 0
    return .flip offset (mask % 256).toNat.toUInt8
  | none =>
  match v.opt? "truncate" with
  | some n => return .cut ((intOf? n).getD 0)
  | none =>
  match v.opt? "append" with
  | some h => return .extend (← hexBytes (textOf h))
  | none => if flag v "fix_crc" then pure .reseal else refuse "unknown mutation"

/-- Read and apply changes in order; the first that is malformed or does not fit refuses the
request. -/
def damageAll (data : List UInt8) : List Value → Read (List UInt8)
  | [] => pure data
  | m :: rest => do
    match (← damage m).apply data with
    | .ok data => damageAll data rest
    | .error why => refuse why

/-- What reading a frame gives: its header fields and value, or the failure. -/
def frameReport (data : List UInt8) : Value :=
  match Frame.decode .builtin data fun c raw => (c.read .builtin raw).bind (dynamic true) with
  | .ok (h, v) => .object [("version", .nat h.version), ("compression", .string h.compression.name),
      ("codec", .string (Utf8.decodeLossy h.codec)), ("raw_len", .nat h.rawLen), ("value", v)]
  | .error e => errorReply e

/-- Encode a value into a frame, read it back, and read it again after damage, with the
libraries of this library. -/
def frameEncode (req : Value) : Read Value := do
  let codec := Codec.ofName (text req "codec")
  let comp := Compression.ofCode (intOr req "compression" 0 % 256).toNat
  let value ← match dynamic codec.shortExponent (member req "value") with
    | some v => pure v
    | none => refuse "value: number out of range"
  let raw := codec.write .builtin value
  match Frame.encode .builtin codec.name comp raw with
  | .error e => pure (errorReply e)
  | .ok data =>
    let used := Compression.ofCode (data.getD 6 0).toNat
    let base := [("used", Value.string used.name), ("raw_len", .nat raw.length),
      ("decoded", frameReport data)]
    let hex := if used = .none then [("hex", Value.string (Hex.encode data))] else []
    let damages := items req "mutate"
    let mutated ←
      if damages.isEmpty then pure []
      else do pure [("mutated", frameReport (← damageAll data damages))]
    pure (.object (base ++ hex ++ mutated))

/-- Read a frame given in hexadecimal. -/
def frameDecode (req : Value) : Read Value := do
  pure (frameReport (← hexBytes (text req "hex")))

end EntityIndex.Requests
