/-!
# Hexadecimal text of byte strings

Byte strings are lists of octets. Their text form is two lowercase hexadecimal digits per octet,
high nibble first; the reader accepts either case and refuses odd lengths and stray characters.
-/

namespace EntityIndex.Hex

/-- The lowercase hexadecimal digit of `n % 16`. -/
def digit (n : Nat) : Char :=
  let d := n % 16
  if d < 10 then Char.ofNat (48 + d) else Char.ofNat (87 + d)

/-- The two digits of one octet, high nibble first. -/
def ofByte (b : UInt8) : List Char :=
  [digit (b.toNat / 16), digit b.toNat]

/-- Lowercase hexadecimal text of a byte string. -/
def encode (bytes : List UInt8) : String :=
  String.ofList (bytes.flatMap ofByte)

/-- The value of a hexadecimal digit of either case. -/
def digitValue? (c : Char) : Option Nat :=
  if '0' ≤ c ∧ c ≤ '9' then some (c.toNat - 48)
  else if 'a' ≤ c ∧ c ≤ 'f' then some (c.toNat - 87)
  else if 'A' ≤ c ∧ c ≤ 'F' then some (c.toNat - 55)
  else none

/-- Octets of a digit list read two at a time; none on an odd count or a non-digit. -/
def decodeChars? : List Char → Option (List UInt8)
  | [] => some []
  | [_] => none
  | hi :: lo :: rest => do
    let h ← digitValue? hi
    let l ← digitValue? lo
    let tail ← decodeChars? rest
    pure ((h * 16 + l).toUInt8 :: tail)

/-- The byte string a hexadecimal text spells, or none when it spells none. -/
def decode? (s : String) : Option (List UInt8) :=
  decodeChars? s.toList

end EntityIndex.Hex
