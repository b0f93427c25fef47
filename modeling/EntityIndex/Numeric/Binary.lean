/-!
# Binary floating-point values

Index values may be 32- or 64-bit floats, and JSON numbers are carried as 64-bit floats. This
module keeps such a value as the format stores it, a sign, an integer mantissa and a power of two,
and works on it with exact natural-number arithmetic only:

* `roundRat` rounds an exact non-negative rational to the nearest value of a format, ties to even,
  overflowing to infinity and underflowing through the subnormals to zero;
* `shortest` finds the fewest significant decimal digits that read back as the same value; when
  both neighbours at that length read back, the nearer one is taken.

Both are total and need no machine float, so their results are the same on every platform and
can be evaluated inside proofs.
-/

namespace EntityIndex.Binary

/-- An IEEE 754 binary interchange format, by the widths of its fields. -/
structure Format where
  /-- Stored fraction bits; normal values have one more, implicit, leading bit. -/
  fracBits : Nat
  /-- Bits of the biased exponent field. -/
  expBits : Nat
  deriving DecidableEq, Repr

/-- The 64-bit format (double precision). -/
def binary64 : Format := ⟨52, 11⟩

/-- The 32-bit format (single precision). -/
def binary32 : Format := ⟨23, 8⟩

/-- The exponent bias `2^(expBits-1) - 1`. -/
def Format.bias (f : Format) : Nat := Nat.pow 2 (f.expBits - 1) - 1

/-- The exponent of the unit in the last place of subnormals and of the least normals. -/
def Format.minExp (f : Format) : Int := 1 - (f.bias : Int) - f.fracBits

/-- The exponent of the unit in the last place of the greatest finite values. -/
def Format.maxExp (f : Format) : Int := (f.bias : Int) - f.fracBits

/-- The least mantissa of a normal value, `2^fracBits`. -/
def Format.hidden (f : Format) : Nat := Nat.pow 2 f.fracBits

/-- A value of a binary format. A finite value is `(-1)^neg * mant * 2^exp`, where
`minExp ≤ exp ≤ maxExp`, `mant < 2 * hidden`, and `hidden ≤ mant` unless `exp = minExp`. -/
inductive Value where
  /-- Not a number. -/
  | nan
  /-- An infinity of the given sign. -/
  | inf (neg : Bool)
  /-- A finite value, zero included (`mant = 0`, `exp = minExp`). -/
  | finite (neg : Bool) (mant : Nat) (exp : Int)
  deriving DecidableEq, Repr

/-- The zero of a format with the given sign. -/
def zero (f : Format) (neg : Bool) : Value := .finite neg 0 f.minExp

/-- `2^e` as a pair of natural scale factors: multiply the numerator by the first and the
denominator by the second. -/
def pow2Scale (e : Int) : Nat × Nat :=
  if 0 ≤ e then (Nat.pow 2 e.toNat, 1) else (1, Nat.pow 2 (-e).toNat)

/-- `n / d` rounded to the nearest natural number, ties to even; `d > 0`. -/
def roundHalfEven (n d : Nat) : Nat :=
  let q := n / d
  let r := n % d
  if 2 * r < d then q
  else if d < 2 * r then q + 1
  else if q % 2 = 0 then q else q + 1

/-- `floor (log2 (n / d))` for `n, d > 0`: the `k` with `2^k ≤ n/d < 2^(k+1)`. -/
def floorLog2 (n d : Nat) : Int :=
  let k : Int := (Nat.log2 n : Int) - Nat.log2 d
  let (a, b) := pow2Scale k
  -- `n/d ≥ 2^k` iff `n * b ≥ d * a`; the estimate is `k` or one more than the answer
  if n * b < d * a then k - 1 else k

/-- The nearest value of format `f` to the non-negative rational `n / d` (`d > 0`), with sign
`neg`, ties to even. -/
def roundRat (f : Format) (neg : Bool) (n d : Nat) : Value :=
  if n = 0 then zero f neg
  else
    let e := max (floorLog2 n d - f.fracBits) f.minExp
    let (a, b) := pow2Scale (-e)
    let m := roundHalfEven (n * a) (d * b)
    let (m, e) := if m = 2 * f.hidden then (f.hidden, e + 1) else (m, e)
    if f.maxExp < e then .inf neg
    else if m = 0 then zero f neg
    else .finite neg m e

/-- The exact magnitude of a finite value as a fraction `(numerator, denominator)`. -/
def magnitude (mant : Nat) (exp : Int) : Nat × Nat :=
  let (a, b) := pow2Scale exp
  (mant * a, b)

/-- Whether the magnitude `m * 2^e` is below the magnitude `m' * 2^e'`. -/
def magLt (m : Nat) (e : Int) (m' : Nat) (e' : Int) : Bool :=
  let (n, d) := magnitude m e
  let (n', d') := magnitude m' e'
  n * d' < n' * d

/-- `10^t` as a pair of natural scale factors, like `pow2Scale`. -/
def pow10Scale (t : Int) : Nat × Nat :=
  if 0 ≤ t then (Nat.pow 10 t.toNat, 1) else (1, Nat.pow 10 (-t).toNat)

/-- Number of decimal digits of a positive natural number. -/
def digitCount (n : Nat) : Nat := (Nat.toDigits 10 n).length

/-- `floor (log10 (n / d))` for `n, d > 0`. When `n < d` and `q = d / n` (rounded down) has `j`
digits, `n / d` lies in `(10^-j, 10^-(j-1)]`, so the answer is `-j` or `-(j-1)`. -/
def floorLog10 (n d : Nat) : Int :=
  if n / d = 0 then
    let j : Int := (digitCount (d / n) : Int)
    let (a, b) := pow10Scale (-(j - 1))
    if d * a ≤ n * b then -(j - 1) else -j
  else (digitCount (n / d) : Int) - 1

/-- The decimal digits of a value: `digits * 10^(point - count digits)`, with no trailing zero
in `digits`; `point` is where the decimal point goes counting from the first digit. -/
structure Digits where
  /-- The significant digits as a number, without trailing zeros (zero for zero). -/
  digits : Nat
  /-- The position of the decimal point: the value is `0.d1d2… * 10^point`. -/
  point : Int
  deriving DecidableEq, Repr

/-- Strip trailing zeros of `c`, counting how many were removed. -/
def stripZeros : Nat → Nat → Nat × Nat
  | 0, c => (c, 0)
  | fuel + 1, c =>
    if c ≠ 0 ∧ c % 10 = 0 then
      let (c', k) := stripZeros fuel (c / 10)
      (c', k + 1)
    else (c, 0)

/-- The digits of `c * 10^t` in the form of `Digits`. -/
def toDigits (c : Nat) (t : Int) : Digits :=
  if c = 0 then ⟨0, 0⟩
  else
    let (c', k) := stripZeros (digitCount c) c
    ⟨c', t + k + digitCount c'⟩

/-- Choose between the two neighbours at one precision: `lo * 10^t` and `(lo+1) * 10^t`
around the exact value `v`; the bounds of the values that read back are `low` and `high`
(all fractions over the common denominator `den`), inclusive when `incl`. -/
def pick (incl : Bool) (v low high den : Nat) (lo : Nat) (t : Int) : Option Nat :=
  let (a, b) := pow10Scale t
  -- candidate `c * 10^t` compared with `x / den`: `c * a * den` against `x * b`
  let okDown := if incl then low * b ≤ lo * a * den else low * b < lo * a * den
  let hi := lo + 1
  let okUp := if incl then hi * a * den ≤ high * b else hi * a * den < high * b
  if okDown && okUp then
    -- nearest; an exact tie goes to the even digit
    let dDown := v * b - lo * a * den
    let dUp := hi * a * den - v * b
    if dDown < dUp then some lo
    else if dUp < dDown then some hi
    else if lo % 2 = 0 then some lo else some hi
  else if okDown then some lo
  else if okUp then some hi
  else none

/-- Search precisions `n = 1, 2, …` for the shortest digits in the read-back interval. The
exact value always qualifies once the precision reaches its own digit count, so the fuel of
`digitCount` of the scaled value suffices. -/
def searchDigits (incl : Bool) (v low high den : Nat) (p : Int) : Nat → Nat → Option Digits
  | 0, _ => none
  | fuel + 1, n =>
    let t := p - n + 1
    let (a, b) := pow10Scale t
    let lo := (v * b) / (den * a)
    match pick incl v low high den lo t with
    | some c => some (toDigits c t)
    | none => searchDigits incl v low high den p fuel (n + 1)

/-- The shortest decimal digits of a non-zero finite magnitude `mant * 2^exp` of format `f`
that read back as the same value. -/
def shortest (f : Format) (mant : Nat) (exp : Int) : Digits :=
  if mant = 0 then ⟨0, 0⟩
  else
    -- the neighbour below: half a step closer at the bottom of a binade
    let (mlo, elo) : Nat × Int :=
      if f.hidden < mant ∨ exp = f.minExp then (mant - 1, exp) else (2 * mant - 1, exp - 1)
    -- everything over the common power of two `2^s`
    let s := min exp elo - 1
    let v := mant * Nat.pow 2 (exp - s).toNat
    let high := (2 * mant + 1) * Nat.pow 2 (exp - 1 - s).toNat
    let low := (2 * mlo + 1) * Nat.pow 2 (elo - 1 - s).toNat
    let (a, b) := pow2Scale s
    -- the value is `v * a / b`; use `den = b` and scale the numerators by `a`
    let v := v * a
    let high := high * a
    let low := low * a
    let p := floorLog10 v b
    let incl := mant % 2 = 0
    match searchDigits incl v low high b p (digitCount (v / b) + b.log2 + 2) 1 with
    | some d => d
    | none => toDigits mant 0

end EntityIndex.Binary
