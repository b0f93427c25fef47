import EntityIndex.Bytes.Hex
import EntityIndex.Text.Utf8
import EntityIndex.Text.Printable

/-!
# Quoted text

Messages name keys, codecs and references in double quotes. Inside the quotes the double quote
and the backslash are backslashed; printable characters stand as they are; the seven C control
characters with a one-letter escape use it (`\a \b \f \n \r \t \v`); other characters below the
space and DEL become `\xHH`; any other character becomes `\uHHHH`, or `\UHHHHHHHH` above the
basic plane. A byte that starts no well-formed character becomes `\xHH`, so quoting is total on
byte strings and the quoted text is always ASCII-safe to read back.
-/

namespace EntityIndex.Quote

/-- `n` lowercase hexadecimal digits of `v`, most significant first. -/
def hexDigits (n v : Nat) : List Char :=
  (List.range n).reverse.map fun i => Hex.digit (v / Nat.pow 16 i)

/-- The escaped form of one character of a text quoted with `"`. -/
def escapeCode (c : Nat) : List Char :=
  if c = 34 then ['\\', '"']
  else if c = 92 then ['\\', '\\']
  else if Printable.isPrintable c then [Char.ofNat c]
  else if c = 7 then ['\\', 'a']
  else if c = 8 then ['\\', 'b']
  else if c = 12 then ['\\', 'f']
  else if c = 10 then ['\\', 'n']
  else if c = 13 then ['\\', 'r']
  else if c = 9 then ['\\', 't']
  else if c = 11 then ['\\', 'v']
  else if c < 32 ∨ c = 127 then ['\\', 'x'] ++ hexDigits 2 c
  else if c < 0x10000 then ['\\', 'u'] ++ hexDigits 4 c
  else ['\\', 'U'] ++ hexDigits 8 c

/-- The escaped form of one piece of a byte string. -/
def escapePiece : Utf8.Piece → List Char
  | .char c _ => escapeCode c
  | .stray b => ['\\', 'x'] ++ hexDigits 2 b.toNat

/-- A byte string in double quotes, escaped as described above. -/
def quoteBytes (bytes : List UInt8) : String :=
  String.ofList ('"' :: (Utf8.pieces bytes).flatMap escapePiece ++ ['"'])

/-- A text in double quotes. -/
def quote (s : String) : String :=
  quoteBytes s.toUTF8.toList

end EntityIndex.Quote
