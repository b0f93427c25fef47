import EntityIndex.Numeric.Binary

/-!
# Reading numbers from text

Two syntaxes are read here. Integer text is an optional sign and decimal digits, checked
against the range of a fixed-width integer. Float text is the literal syntax of a programming
language: an optional sign, then `inf`, `infinity` or `nan` in any case, or decimal digits with
at most one point and an optional exponent `e±d…`, or `0x` hexadecimal digits with a mandatory
binary exponent `p±d…`; single underscores may separate digits. The literal is kept exact and
rounded once, to nearest, into the target format, so reading a 32-bit float never rounds twice.
-/

namespace EntityIndex.Decimal

open EntityIndex.Binary

/-- An exactly read float literal. -/
inductive Literal where
  /-- `nan`. -/
  | nan
  /-- `inf` or `infinity` with a sign. -/
  | inf (neg : Bool)
  /-- `(-1)^neg * mant * base^exp`, where `base` is 10, or 2 for a hexadecimal literal. -/
  | num (neg : Bool) (mant : Nat) (exp : Int) (binaryExp : Bool)
  deriving DecidableEq, Repr

/-- Lowercase of an ASCII letter. -/
def lower (c : Char) : Char :=
  if 'A' ≤ c ∧ c ≤ 'Z' then Char.ofNat (c.toNat + 32) else c

/-- Whether `c` is a decimal digit. -/
def isDigit (c : Char) : Bool := '0' ≤ c && c ≤ '9'

/-- The value of a digit of base `base` (10 or 16), if it is one. -/
def digitIn (base : Nat) (c : Char) : Option Nat :=
  if isDigit c then some (c.toNat - 48)
  else if base = 16 ∧ 'a' ≤ lower c ∧ lower c ≤ 'f' then some ((lower c).toNat - 87)
  else none

/-- Read an optional sign. -/
def sign : List Char → Bool × List Char
  | '+' :: rest => (false, rest)
  | '-' :: rest => (true, rest)
  | cs => (false, cs)

/-- Whether underscores sit only between digits (or right after a base prefix). -/
def underscoresFit (cs : List Char) : Bool :=
  let cs := (sign cs).2
  let (hex, start, body) :=
    match cs with
    | '0' :: x :: rest => if lower x = 'x' then (true, '0', rest)
      else if lower x = 'b' ∨ lower x = 'o' then (false, '0', rest) else (false, '^', cs)
    | _ => (false, '^', cs)
  let step : Option Char → Char → Option Char := fun st c =>
    match st with
    | none => none
    | some saw =>
      if isDigit c || (hex && 'a' ≤ lower c && lower c ≤ 'f') then some '0'
      else if c = '_' then (if saw = '0' then some '_' else none)
      else if saw = '_' then none
      else some '!'
  match body.foldl step (some start) with
  | some saw => saw ≠ '_'
  | none => false

/-- The mantissa digits: digits (skipping underscores) with at most one point. Answers the
mantissa, the count of digits after the point, whether any digit was seen, whether an
underscore was seen, and the rest of the text. -/
def mantissa (base : Nat) : List Char → Nat → Nat → Bool → Bool → Bool →
    Nat × Nat × Bool × Bool × List Char
  | [], m, frac, _, saw, und => (m, frac, saw, und, [])
  | c :: rest, m, frac, dot, saw, und =>
    if c = '_' then mantissa base rest m frac dot saw true
    else if c = '.' then
      if dot then (m, frac, saw, und, c :: rest)
      else mantissa base rest m frac true saw und
    else
      match digitIn base c with
      | some d => mantissa base rest (m * base + d) (if dot then frac + 1 else frac) dot true und
      | none => (m, frac, saw, und, c :: rest)

/-- Exponent digits, skipping underscores: the value and whether an underscore was seen. -/
def expDigits : List Char → Nat → Bool → Option (Nat × Bool)
  | [], e, und => some (e, und)
  | c :: rest, e, und =>
    if c = '_' then expDigits rest e true
    else if isDigit c then expDigits rest (e * 10 + (c.toNat - 48)) und
    else none

/-- The special literals `inf`, `infinity` and `nan` (the last without a sign). -/
def special (cs : List Char) : Option Literal :=
  let lowered := String.ofList (cs.map lower)
  let (neg, body) := sign (cs.map lower)
  let word := String.ofList body
  if lowered = "nan" then some .nan
  else if word = "inf" ∨ word = "infinity" then some (.inf neg)
  else none

/-- Read a whole float literal, or none when the text is not one. -/
def parseLiteral (s : String) : Option Literal :=
  let cs := s.toList
  match special cs with
  | some l => some l
  | none =>
    let (neg, body) := sign cs
    let (hex, body) :=
      match body with
      | '0' :: x :: rest => if lower x = 'x' ∧ rest ≠ [] then (true, rest) else (false, body)
      | _ => (false, body)
    let base := if hex then 16 else 10
    let (m, frac, saw, und, rest) := mantissa base body 0 0 false false false
    if !saw then none
    else
      let expo : Option (Int × Bool) :=
        match rest with
        | [] => if hex then none else some (0, false)
        | c :: more =>
          if lower c = (if hex then 'p' else 'e') then
            let (eneg, digits) := sign more
            match digits with
            | d :: _ =>
              if isDigit d then
                (expDigits digits 0 false).map fun (e, u) => (if eneg then -(e : Int) else e, u)
              else none
            | [] => none
          else none
      match expo with
      | none => none
      | some (e, und2) =>
        if (und || und2) && !underscoresFit cs then none
        else if hex then some (.num neg m (e - 4 * frac) true)
        else some (.num neg m (e - frac) false)

/-- The nearest value of format `f` to a literal, and whether it overflowed to an infinity. -/
def toBinary (f : Format) : Literal → Value × Bool
  | .nan => (.nan, false)
  | .inf neg => (.inf neg, false)
  | .num neg m e binaryExp =>
    if m = 0 then (zero f neg, false)
    else
      let scale := if binaryExp then Binary.pow2Scale e else Binary.pow10Scale e
      -- beyond these magnitudes the result is an infinity or a zero in every format in use
      let mag := (Binary.digitCount m : Int) + (if binaryExp then e / 3 else e)
      if 5000 < mag then (.inf neg, true)
      else if mag < -5000 then (zero f neg, false)
      else
        let (a, b) := scale
        let v := roundRat f neg (m * a) b
        match v with
        | .inf _ => (v, true)
        | _ => (v, false)

/-- Read float text into format `f`; none on bad syntax or overflow. -/
def parseFloat (f : Format) (s : String) : Option Value :=
  match parseLiteral s with
  | none => none
  | some l =>
    let (v, overflow) := toBinary f l
    if overflow then none else some v

/-- Decimal digits of a natural number, at least one. -/
def parseDigits (cs : List Char) : Option Nat :=
  if cs = [] then none
  else cs.foldl (fun acc c => acc.bind fun n => if isDigit c then some (n * 10 + (c.toNat - 48)) else none) (some 0)

/-- Read integer text as an integer in `[-2^(bits-1), 2^(bits-1))`; none on bad syntax or when
out of range. -/
def parseSigned (bits : Nat) (s : String) : Option Int :=
  let (neg, body) := sign s.toList
  match parseDigits body with
  | none => none
  | some n =>
    let v : Int := if neg then -(n : Int) else n
    if -(Nat.pow 2 (bits - 1) : Int) ≤ v ∧ v < (Nat.pow 2 (bits - 1) : Int) then some v else none

/-- Read unsigned integer text (no sign) as a natural number below `2^bits`. -/
def parseUnsigned (bits : Nat) (s : String) : Option Nat :=
  match parseDigits s.toList with
  | none => none
  | some n => if n < Nat.pow 2 bits then some n else none

end EntityIndex.Decimal
