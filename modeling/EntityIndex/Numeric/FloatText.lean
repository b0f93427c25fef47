import EntityIndex.Numeric.Binary

/-!
# Writing floats as text

Float keys and JSON numbers are written from the shortest digits that read back as the same
value (`Binary.shortest`). Two layouts place those digits:

* positional, `123.45`, `0.001`, `1000`;
* scientific, `1.2345e+02`: one digit, the rest after a point, then `e`, the sign of the exponent
  and at least two exponent digits.

A key uses the general layout: scientific when the decimal exponent is below -4 or at least 6,
positional otherwise; infinities and not-a-number are `+Inf`, `-Inf` and `NaN`. A JSON number uses
positional form unless the magnitude is below `1e-6` or at least `1e21`; one JSON writer then
drops the leading zero of a one-digit negative exponent (`1e-7`), the other keeps it (`1e-07`).
-/

namespace EntityIndex.FloatText

open EntityIndex.Binary

/-- The decimal digits of a positive natural number, most significant first. -/
def digitChars (n : Nat) : List Char := Nat.toDigits 10 n

/-- Positional layout of `0.d1…dn * 10^point`, with as many fraction digits as the digits
need. -/
def positional (d : Digits) : List Char :=
  let ds := if d.digits = 0 then [] else digitChars d.digits
  let nd : Int := ds.length
  let intPart : List Char :=
    if 0 < d.point then
      (List.range d.point.toNat).map fun i => ds.getD i '0'
    else ['0']
  let fracCount := (nd - d.point).toNat
  let fracPart : List Char :=
    (List.range fracCount).map fun (i : Nat) =>
      let j : Int := d.point + (i : Int)
      if 0 ≤ j then ds.getD j.toNat '0' else '0'
  if fracCount = 0 then intPart else intPart ++ ['.'] ++ fracPart

/-- Scientific layout of `0.d1…dn * 10^point`: `d1.d2…dn e±XX`. -/
def scientific (d : Digits) : List Char :=
  let ds := if d.digits = 0 then ['0'] else digitChars d.digits
  let mant := match ds with
    | [] => ['0']
    | [c] => [c]
    | c :: rest => c :: '.' :: rest
  let x : Int := if d.digits = 0 then 0 else d.point - 1
  let expSign := if x < 0 then '-' else '+'
  let mag := x.natAbs
  let expDigits := if mag < 10 then ['0', Char.ofNat (48 + mag)] else digitChars mag
  mant ++ ['e', expSign] ++ expDigits

/-- The general layout used for float keys: scientific when the decimal exponent of the
shortest digits is below -4 or at least 6. -/
def general (f : Format) : Value → String
  | .nan => "NaN"
  | .inf neg => if neg then "-Inf" else "+Inf"
  | .finite neg mant exp =>
    let d := shortest f mant exp
    let x : Int := d.point - 1
    let body := if d.digits ≠ 0 ∧ (x < -4 ∨ 6 ≤ x) then scientific d else positional d
    String.ofList (if neg then '-' :: body else body)

/-- Whether a magnitude calls for scientific JSON layout: below the format's nearest value to
`1e-6`, or at least the format's nearest value to `1e21`. -/
def jsonScientific (f : Format) (mant : Nat) (exp : Int) : Bool :=
  let below := match roundRat f false 1 1000000 with
    | .finite _ m e => magLt mant exp m e
    | _ => false
  let above := match roundRat f false (Nat.pow 10 21) 1 with
    | .finite _ m e => !magLt mant exp m e
    | _ => false
  mant != 0 && (below || above)

/-- JSON text of a finite value; none for infinities and not-a-number, which JSON cannot
hold. `shortExp` drops the leading zero of a one-digit negative exponent. -/
def json (f : Format) (shortExp : Bool) : Value → Option String
  | .finite neg mant exp =>
    let d := shortest f mant exp
    let body :=
      if jsonScientific f mant exp then
        let s := scientific d
        if shortExp then
          match s.reverse with
          | c :: '0' :: '-' :: 'e' :: more => (c :: '-' :: 'e' :: more).reverse
          | _ => s
        else s
      else positional d
    some (String.ofList (if neg then '-' :: body else body))
  | _ => none

end EntityIndex.FloatText
