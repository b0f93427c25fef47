/-!
# Unpadded standard base64

Byte keys are written in the standard base64 alphabet without `=` padding: every three bytes
become four characters, a final pair three, a final single byte two.
-/

namespace EntityIndex.Base64

/-- The character of a six-bit value in the standard alphabet. -/
def symbol (n : Nat) : Char :=
  let v := n % 64
  if v < 26 then Char.ofNat (65 + v)
  else if v < 52 then Char.ofNat (97 + v - 26)
  else if v < 62 then Char.ofNat (48 + v - 52)
  else if v = 62 then '+'
  else '/'

/-- Characters of a byte string, three bytes at a time. -/
def encodeChars : List UInt8 → List Char
  | [] => []
  | [a] =>
    let n := a.toNat * 65536
    [symbol (n / 262144), symbol (n / 4096)]
  | [a, b] =>
    let n := a.toNat * 65536 + b.toNat * 256
    [symbol (n / 262144), symbol (n / 4096), symbol (n / 64)]
  | a :: b :: c :: rest =>
    let n := a.toNat * 65536 + b.toNat * 256 + c.toNat
    symbol (n / 262144) :: symbol (n / 4096) :: symbol (n / 64) :: symbol n :: encodeChars rest

/-- Unpadded standard base64 text of a byte string. -/
def encode (bytes : List UInt8) : String :=
  String.ofList (encodeChars bytes)

end EntityIndex.Base64
