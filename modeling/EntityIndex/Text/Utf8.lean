/-!
# Reading UTF-8 one character at a time

Names read back from frames are raw bytes and need not be UTF-8. A reader takes the longest
well-formed character (RFC 3629) at the front of the bytes; when none starts there it gives up
exactly one byte, which callers escape or replace by U+FFFD. So every byte string splits into
well-formed characters and stray bytes, and well-formed text splits into its characters.
-/

namespace EntityIndex.Utf8

/-- One piece of a byte string: a well-formed character or a byte that starts none. -/
inductive Piece where
  /-- A Unicode scalar value and the bytes that spelled it. -/
  | char (code : Nat) (width : Nat)
  /-- A byte with no well-formed character at it. -/
  | stray (b : UInt8)
  deriving DecidableEq, Repr

/-- Whether `b` is a continuation byte within `[lo, hi]`. -/
def within (lo hi : Nat) (b : UInt8) : Bool :=
  lo ≤ b.toNat && b.toNat ≤ hi

/-- The low six bits of a continuation byte. -/
def low6 (b : UInt8) : Nat := b.toNat % 64

/-- The character at the front of the bytes, or a stray first byte. The ranges of the second
byte exclude overlong forms, surrogates and values above U+10FFFF. -/
def front : List UInt8 → Option (Piece × List UInt8)
  | [] => none
  | b0 :: rest =>
    let a := b0.toNat
    let stray := some (.stray b0, rest)
    if a < 0x80 then some (.char a 1, rest)
    else if 0xC2 ≤ a ∧ a ≤ 0xDF then
      match rest with
      | b1 :: r => if within 0x80 0xBF b1 then some (.char ((a % 32) * 64 + low6 b1) 2, r) else stray
      | [] => stray
    else if 0xE0 ≤ a ∧ a ≤ 0xEF then
      let lo := if a = 0xE0 then 0xA0 else 0x80
      let hi := if a = 0xED then 0x9F else 0xBF
      match rest with
      | b1 :: b2 :: r =>
        if within lo hi b1 && within 0x80 0xBF b2 then
          some (.char ((a % 16) * 4096 + low6 b1 * 64 + low6 b2) 3, r)
        else stray
      | _ => stray
    else if 0xF0 ≤ a ∧ a ≤ 0xF4 then
      let lo := if a = 0xF0 then 0x90 else 0x80
      let hi := if a = 0xF4 then 0x8F else 0xBF
      match rest with
      | b1 :: b2 :: b3 :: r =>
        if within lo hi b1 && within 0x80 0xBF b2 && within 0x80 0xBF b3 then
          some (.char ((a % 8) * 262144 + low6 b1 * 4096 + low6 b2 * 64 + low6 b3) 4, r)
        else stray
      | _ => stray
    else stray

/-- The pieces of a byte string, front to back. -/
def pieces (bytes : List UInt8) : List Piece :=
  go bytes.length bytes
where
  /-- Split with fuel at least the number of bytes left (each piece takes one byte or more). -/
  go : Nat → List UInt8 → List Piece
    | 0, _ => []
    | fuel + 1, bs =>
      match front bs with
      | none => []
      | some (p, rest) => p :: go fuel rest

/-- UTF-8 bytes of a scalar value. -/
def encodeCode (c : Nat) : List UInt8 :=
  if c < 0x80 then [c.toUInt8]
  else if c < 0x800 then [(0xC0 + c / 64).toUInt8, (0x80 + c % 64).toUInt8]
  else if c < 0x10000 then
    [(0xE0 + c / 4096).toUInt8, (0x80 + (c / 64) % 64).toUInt8, (0x80 + c % 64).toUInt8]
  else
    [(0xF0 + c / 262144).toUInt8, (0x80 + (c / 4096) % 64).toUInt8,
      (0x80 + (c / 64) % 64).toUInt8, (0x80 + c % 64).toUInt8]

/-- The text of a byte string with every stray byte replaced by U+FFFD. -/
def decodeLossy (bytes : List UInt8) : String :=
  String.ofList ((pieces bytes).map fun
    | .char c _ => Char.ofNat c
    | .stray _ => Char.ofNat 0xFFFD)

end EntityIndex.Utf8
