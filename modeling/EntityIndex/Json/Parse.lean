import EntityIndex.Json.Value
import EntityIndex.Text.Utf8
import EntityIndex.Numeric.Decimal

/-!
# Reading JSON

An RFC 8259 reader over bytes. Whitespace is space, tab, line feed and carriage return;
numbers follow the JSON grammar and keep their text; strings refuse raw control characters and
unknown escapes. Inside strings a byte that starts no well-formed UTF-8 character, and a `\u`
escape of an unpaired surrogate, each read as U+FFFD, so every accepted document holds valid
text. Nothing but whitespace may follow the document.

Some readers are more lenient, in three ways that a `Leniency` switches on: a number is any run
of digits, signs, points and exponent letters that starts with a digit or a minus and reads as
a float (so `01` and `1.` are numbers); a string may hold raw control characters other than
NUL; and a NUL byte after the document ends the input.

Each function answers the value read and the bytes after it. Recursion into arrays and objects
spends one unit of fuel per level; fuel equal to the input length is never exhausted, because
every level starts with a bracket.
-/

namespace EntityIndex.Json

/-- What a reader accepts beyond the strict grammar. -/
structure Leniency where
  /-- Numbers are runs of number characters that read as floats. -/
  looseNumbers : Bool := false
  /-- Raw control characters other than NUL may stand in strings. -/
  rawControls : Bool := false
  /-- A NUL byte after the document ends the input. -/
  nulEnds : Bool := false

/-- The strict reader. -/
def Leniency.strict : Leniency := {}

/-- Whether a byte is JSON whitespace. -/
def isSpace (b : UInt8) : Bool := b = 32 || b = 9 || b = 10 || b = 13

/-- Drop leading whitespace. -/
def skipSpace : List UInt8 → List UInt8
  | b :: rest => if isSpace b then skipSpace rest else b :: rest
  | [] => []

/-- Whether a byte is a decimal digit. -/
def isDigitByte (b : UInt8) : Bool := 48 ≤ b && b ≤ 57

/-- The run of decimal digits at the front. -/
def digitRun (bs : List UInt8) : List UInt8 × List UInt8 :=
  (bs.takeWhile isDigitByte, bs.dropWhile isDigitByte)

/-- The integer part of a number: `0` alone, or a non-zero digit and more digits. -/
def intDigits : List UInt8 → Option (List UInt8 × List UInt8)
  | 48 :: r => some ([48], r)
  | b :: r =>
    if isDigitByte b then
      let (ds, r') := digitRun r
      some (b :: ds, r')
    else none
  | [] => none

/-- An optional fraction: a point and at least one digit. -/
def fracDigits : List UInt8 → Option (List UInt8 × List UInt8)
  | 46 :: r =>
    let (ds, r') := digitRun r
    if ds = [] then none else some (46 :: ds, r')
  | r => some ([], r)

/-- An optional exponent: `e` or `E`, an optional sign and at least one digit. -/
def expDigits : List UInt8 → Option (List UInt8 × List UInt8)
  | e :: r =>
    if e = 101 ∨ e = 69 then
      let (sg, r) : List UInt8 × List UInt8 := match r with
        | 43 :: r' => ([43], r')
        | 45 :: r' => ([45], r')
        | r' => ([], r')
      let (ds, r') := digitRun r
      if ds = [] then none else some (e :: sg ++ ds, r')
    else some ([], e :: r)
  | [] => some ([], [])

/-- A number: `-? (0 | [1-9][0-9]*) (. [0-9]+)? ([eE] [+-]? [0-9]+)?`. -/
def readNumber (bs : List UInt8) : Option (Value × List UInt8) :=
  let (sign, rest) : List UInt8 × List UInt8 := match bs with
    | 45 :: r => ([45], r)
    | r => ([], r)
  (intDigits rest).bind fun (ip, rest) =>
  (fracDigits rest).bind fun (fp, rest) =>
  (expDigits rest).map fun (ep, rest) =>
    let text := sign ++ ip ++ fp ++ ep
    (.number (String.ofList (text.map fun b => Char.ofNat b.toNat)), rest)

/-- Whether a byte may appear in a loose number. -/
def isNumberByte (b : UInt8) : Bool :=
  isDigitByte b || b = 46 || b = 101 || b = 69 || b = 43 || b = 45

/-- A loose number: the run of number characters at the front, when it reads as a float. -/
def readLooseNumber (bs : List UInt8) : Option (Value × List UInt8) :=
  let run := bs.takeWhile isNumberByte
  let text := String.ofList (run.map fun b => Char.ofNat b.toNat)
  match Decimal.parseFloat Binary.binary64 text with
  | some _ => some (.number text, bs.drop run.length)
  | none => none

/-- The value of four hexadecimal digits. -/
def hex4 (bs : List UInt8) : Option Nat :=
  match bs with
  | [a, b, c, d] =>
    let v (x : UInt8) : Option Nat :=
      let n := x.toNat
      if 48 ≤ n ∧ n ≤ 57 then some (n - 48)
      else if 97 ≤ n ∧ n ≤ 102 then some (n - 87)
      else if 65 ≤ n ∧ n ≤ 70 then some (n - 55)
      else none
    do pure ((((← v a) * 16 + (← v b)) * 16 + (← v c)) * 16 + (← v d))
  | _ => none

/-- Whether a code is a UTF-16 surrogate. -/
def isSurrogate (c : Nat) : Bool := 0xD800 ≤ c && c < 0xE000

/-- Read string contents after the opening quote, accumulating characters in reverse; answers
the text and the bytes after the closing quote. Fuel bounds the bytes consumed. -/
def readChars (lax : Leniency) : Nat → List UInt8 → List Char → Option (String × List UInt8)
  | 0, _, _ => none
  | fuel + 1, bs, acc =>
    match bs with
    | [] => none
    | 34 :: rest => some (String.ofList acc.reverse, rest)
    | 92 :: e :: rest =>
      let simple (c : Char) := readChars lax fuel rest (c :: acc)
      if e = 34 then simple '"'
      else if e = 92 then simple '\\'
      else if e = 47 then simple '/'
      else if e = 98 then simple (Char.ofNat 8)
      else if e = 102 then simple (Char.ofNat 12)
      else if e = 110 then simple '\n'
      else if e = 114 then simple '\r'
      else if e = 116 then simple '\t'
      else if e = 117 then
        match hex4 (rest.take 4) with
        | none => none
        | some c =>
          let after := rest.drop 4
          if isSurrogate c then
            -- a high surrogate followed by an escaped low one is one character
            let pair : Option Nat :=
              match after with
              | 92 :: 117 :: more =>
                match hex4 (more.take 4) with
                | some c2 =>
                  if 0xD800 ≤ c ∧ c < 0xDC00 ∧ 0xDC00 ≤ c2 ∧ c2 < 0xE000 then
                    some (0x10000 + (c - 0xD800) * 1024 + (c2 - 0xDC00))
                  else none
                | none => none
              | _ => none
            match pair with
            | some code => readChars lax fuel (after.drop 6) (Char.ofNat code :: acc)
            | none => readChars lax fuel after (Char.ofNat 0xFFFD :: acc)
          else readChars lax fuel after (Char.ofNat c :: acc)
      else none
    | b :: rest =>
      if b.toNat < 32 ∧ (b = 0 ∨ !lax.rawControls) then none
      else if b.toNat < 128 then readChars lax fuel rest (Char.ofNat b.toNat :: acc)
      else
        match Utf8.front (b :: rest) with
        | some (.char c _, r) => readChars lax fuel r (Char.ofNat c :: acc)
        | some (.stray _, r) => readChars lax fuel r (Char.ofNat 0xFFFD :: acc)
        | none => none

/-- A string literal starting at its opening quote, in a document of `room` bytes, which
bounds the bytes the literal can take. -/
def readString (lax : Leniency) (room : Nat) (bs : List UInt8) : Option (String × List UInt8) :=
  match bs with
  | 34 :: rest => readChars lax room rest []
  | _ => none

/-- Whether `word` is a prefix of the bytes; answers the bytes after it. -/
def keyword (word : List UInt8) (bs : List UInt8) : Option (List UInt8) :=
  if bs.take word.length = word then some (bs.drop word.length) else none

mutual

/-- One value after optional whitespace. -/
def readValue (lax : Leniency) (room : Nat) : Nat → List UInt8 → Option (Value × List UInt8)
  | 0, _ => none
  | fuel + 1, bs =>
    match skipSpace bs with
    | [] => none
    | b :: rest =>
      if b = 123 then readObject lax room fuel (skipSpace rest) []
      else if b = 91 then readArray lax room fuel (skipSpace rest) []
      else if b = 34 then (readString lax room (b :: rest)).map fun (s, r) => (.string s, r)
      else if b = 116 then (keyword [114, 117, 101] rest).map fun r => (.bool true, r)
      else if b = 102 then (keyword [97, 108, 115, 101] rest).map fun r => (.bool false, r)
      else if b = 110 then (keyword [117, 108, 108] rest).map fun r => (.null, r)
      else if lax.looseNumbers then
        if isDigitByte b || b = 45 then readLooseNumber (b :: rest) else none
      else readNumber (b :: rest)

/-- The rest of an array after `[`, items so far in reverse. -/
def readArray (lax : Leniency) (room : Nat) :
    Nat → List UInt8 → List Value → Option (Value × List UInt8)
  | 0, _, _ => none
  | fuel + 1, bs, acc =>
    match bs with
    -- a closing bracket right after a comma is refused
    | 93 :: rest => if acc.isEmpty then some (.array [], rest) else none
    | _ =>
      match readValue lax room fuel bs with
      | none => none
      | some (v, rest) =>
        match skipSpace rest with
        | 44 :: more => readArray lax room fuel (skipSpace more) (v :: acc)
        | 93 :: more => some (.array (v :: acc).reverse, more)
        | _ => none

/-- The rest of an object after `{`, fields so far in reverse. -/
def readObject (lax : Leniency) (room : Nat) :
    Nat → List UInt8 → List (String × Value) → Option (Value × List UInt8)
  | 0, _, _ => none
  | fuel + 1, bs, acc =>
    match bs with
    | 125 :: rest => if acc.isEmpty then some (.object [], rest) else none
    | _ =>
      match readString lax room bs with
      | none => none
      | some (k, rest) =>
        match skipSpace rest with
        | 58 :: more =>
          match readValue lax room fuel more with
          | none => none
          | some (v, rest) =>
            match skipSpace rest with
            | 44 :: more => readObject lax room fuel (skipSpace more) ((k, v) :: acc)
            | 125 :: more => some (.object ((k, v) :: acc).reverse, more)
            | _ => none
        | _ => none

end

/-- Read a whole document: one value and nothing after it but whitespace (or, when the reader
allows it, whitespace and then a NUL byte and anything). -/
def parse (lax : Leniency) (bs : List UInt8) : Option Value :=
  let n := bs.length
  match readValue lax n (n + 1) bs with
  | some (v, rest) =>
    match skipSpace rest with
    | [] => some v
    | 0 :: _ => if lax.nulEnds then some v else none
    | _ => none
  | none => none

/-- Read a whole document from text, strictly. -/
def parseString (s : String) : Option Value :=
  parse .strict s.toUTF8.toList

end EntityIndex.Json
