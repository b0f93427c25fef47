/-!
# Timestamps

Time index values are read as RFC 3339 text with any UTC offset and keyed by the same instant
written in UTC. An instant is whole seconds from 1970-01-01T00:00:00Z plus nanoseconds; dates use
the proleptic Gregorian calendar through the day-count formulas of H. Hinnant, which are exact
for every year because they work in 400-year eras.

Reading checks every field's range (the day against its month, leap years included), takes at
most nine fraction digits (further digits are dropped), and accepts `.` or `,` before the
fraction. The hour may have one digit; every other field has its full width. A zone offset may
reach 24 hours and 60 minutes, as some writers produce. Writing gives `YYYY-MM-DDTHH:MM:SS`, then a point and the fraction with its trailing
zeros removed when the nanoseconds are not zero, then `Z`.
-/

namespace EntityIndex.Time

/-- An instant: seconds since the epoch and nanoseconds within the second. -/
structure Instant where
  /-- Whole seconds since 1970-01-01T00:00:00Z. -/
  seconds : Int
  /-- Nanoseconds, below `10^9`. -/
  nanos : Nat
  deriving DecidableEq, Repr

/-- Whether a year is a leap year of the Gregorian calendar. -/
def isLeap (y : Int) : Bool := y % 4 = 0 ∧ (y % 100 ≠ 0 ∨ y % 400 = 0)

/-- Days in month `m` (1–12) of year `y`. -/
def daysIn (m : Nat) (y : Int) : Nat :=
  if m = 2 then (if isLeap y then 29 else 28)
  else if m = 4 ∨ m = 6 ∨ m = 9 ∨ m = 11 then 30
  else 31

/-- Days from 1970-01-01 to the date `y-m-d`. Euclidean division makes each era count from
its own first day. -/
def daysFromCivil (y : Int) (m d : Nat) : Int :=
  let y := if m ≤ 2 then y - 1 else y
  let era := y / 400
  let yoe := y - era * 400
  let mp : Int := if m > 2 then (m : Int) - 3 else (m : Int) + 9
  let doy := (153 * mp + 2) / 5 + d - 1
  let doe := yoe * 365 + yoe / 4 - yoe / 100 + doy
  era * 146097 + doe - 719468

/-- The date `(y, m, d)` of a day count from 1970-01-01; inverse of `daysFromCivil`. -/
def civilFromDays (z : Int) : Int × Nat × Nat :=
  let z := z + 719468
  let era := z / 146097
  let doe := z - era * 146097
  let yoe := (doe - doe / 1460 + doe / 36524 - doe / 146096) / 365
  let y := yoe + era * 400
  let doy := doe - (365 * yoe + yoe / 4 - yoe / 100)
  let mp := (5 * doy + 2) / 153
  let d := doy - (153 * mp + 2) / 5 + 1
  let m := if mp < 10 then mp + 3 else mp - 9
  ((if m ≤ 2 then y + 1 else y), m.toNat, d.toNat)

/-- The number spelled by a list of decimal digits, all required to be digits. -/
def digits? (cs : List Char) : Option Nat :=
  cs.foldl (fun acc c => acc.bind fun n =>
    if '0' ≤ c ∧ c ≤ '9' then some (n * 10 + (c.toNat - 48)) else none) (some 0)

/-- A decimal digit's value. -/
def digitValue? (c : Char) : Option Nat :=
  if '0' ≤ c ∧ c ≤ '9' then some (c.toNat - 48) else none

/-- Two digits at the front. -/
def twoDigits : List Char → Option (Nat × List Char)
  | a :: b :: rest => do pure ((← digitValue? a) * 10 + (← digitValue? b), rest)
  | _ => none

/-- One or two digits at the front, as many as there are. -/
def oneOrTwoDigits : List Char → Option (Nat × List Char)
  | a :: rest => do
    let x ← digitValue? a
    match rest with
    | b :: more =>
      match digitValue? b with
      | some y => pure (x * 10 + y, more)
      | none => pure (x, rest)
    | [] => pure (x, rest)
  | [] => none

/-- The given character at the front. -/
def expect (c : Char) : List Char → Option (List Char)
  | d :: rest => if c = d then some rest else none
  | [] => none

/-- Nanoseconds of a fraction's digits: the first nine, padded with zeros. -/
def fractionNanos (ds : List Char) : Nat :=
  let nine := (ds.take 9) ++ List.replicate (9 - min 9 ds.length) '0'
  (digits? nine).getD 0

/-- An optional fraction of a second: a point or a comma and at least one digit, all digits
taken and the first nine kept. -/
def fractionPart (cs : List Char) : Nat × List Char :=
  match cs with
  | p :: c :: more =>
    if (p = '.' ∨ p = ',') ∧ '0' ≤ c ∧ c ≤ '9' then
      let ds := (c :: more).takeWhile fun c => '0' ≤ c ∧ c ≤ '9'
      (fractionNanos ds, (c :: more).drop ds.length)
    else (0, cs)
  | _ => (0, cs)

/-- The zone: `Z`, or a sign and `hh:mm` with at most 24 hours and 60 minutes; its offset
from UTC in seconds. -/
def zone : List Char → Option (Int × List Char)
  | 'Z' :: rest => some (0, rest)
  | sg :: h1 :: h2 :: ':' :: m1 :: m2 :: rest => do
    let (oh, _) ← twoDigits [h1, h2]
    let (om, _) ← twoDigits [m1, m2]
    guard (oh ≤ 24 ∧ om ≤ 60)
    let off : Int := ((oh * 60 + om) * 60 : Nat)
    if sg = '+' then pure (off, rest)
    else if sg = '-' then pure (-off, rest)
    else none
  | _ => none

/-- Read RFC 3339 text: a four-digit year, two-digit month and day, an hour of one or two
digits, two-digit minutes and seconds, an optional fraction, and a zone; every field in its
range, the day within its month. -/
def parse? (s : String) : Option Instant := do
  let cs := s.toList
  let yearDs := cs.take 4
  guard (yearDs.length = 4)
  let year ← digits? yearDs
  let cs ← expect '-' (cs.drop 4)
  let (month, cs) ← twoDigits cs
  let cs ← expect '-' cs
  let (day, cs) ← twoDigits cs
  let cs ← expect 'T' cs
  let (hour, cs) ← oneOrTwoDigits cs
  let cs ← expect ':' cs
  let (minute, cs) ← twoDigits cs
  let cs ← expect ':' cs
  let (second, cs) ← twoDigits cs
  let (nanos, cs) := fractionPart cs
  let (offset, cs) ← zone cs
  guard cs.isEmpty
  guard (1 ≤ month ∧ month ≤ 12 ∧ hour < 24 ∧ minute < 60 ∧ second < 60)
  guard (1 ≤ day ∧ day ≤ daysIn month year)
  let days := daysFromCivil year month day
  let secs := days * 86400 + ((hour * 3600 + minute * 60 + second : Nat) : Int) - offset
  pure ⟨secs, nanos⟩

/-- `n` written with at least `w` digits. -/
def padded (w n : Nat) : List Char :=
  let ds := Nat.toDigits 10 n
  List.replicate (w - ds.length) '0' ++ ds

/-- The fraction digits of nanoseconds with trailing zeros removed (none for zero). -/
def fraction (nanos : Nat) : List Char :=
  if nanos = 0 then []
  else '.' :: ((padded 9 nanos).reverse.dropWhile (· = '0')).reverse

/-- RFC 3339 text of an instant in UTC with the shortest exact fraction. -/
def formatUtc (t : Instant) : String :=
  let days := t.seconds / 86400
  let secOfDay := (t.seconds % 86400).toNat
  let (y, m, d) := civilFromDays days
  let year := if y < 0 then '-' :: padded 4 y.natAbs else padded 4 y.toNat
  String.ofList (year ++ ['-'] ++ padded 2 m ++ ['-'] ++ padded 2 d ++ ['T'] ++
    padded 2 (secOfDay / 3600) ++ [':'] ++ padded 2 (secOfDay / 60 % 60) ++ [':'] ++
    padded 2 (secOfDay % 60) ++ fraction t.nanos ++ ['Z'])

end EntityIndex.Time
