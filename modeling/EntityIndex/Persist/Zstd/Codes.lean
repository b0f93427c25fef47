import EntityIndex.Persist.Zstd.Fse

/-!
# Sequence codes

A sequence is sent as three codes, for its literal length, its offset and its match length,
each followed by extra bits. Small lengths are their own codes; larger ones fall into ranges
given by a base and a number of extra bits. An offset code `n` stands for the offset value
`2^n` plus `n` extra bits; values up to three name repeat offsets, larger ones a distance of
the value less three.
-/

namespace EntityIndex.Zstd

/-- Literal-length codes 16 to 35: base value and extra bits. -/
def literalCodes : List (Nat × Nat) :=
  [(16, 1), (18, 1), (20, 1), (22, 1), (24, 2), (28, 2), (32, 3), (40, 3), (48, 4), (64, 6),
    (128, 7), (256, 8), (512, 9), (1024, 10), (2048, 11), (4096, 12), (8192, 13), (16384, 14),
    (32768, 15), (65536, 16)]

/-- Match-length codes 32 to 52: base value and extra bits. -/
def matchCodes : List (Nat × Nat) :=
  [(35, 1), (37, 1), (39, 1), (41, 1), (43, 2), (47, 2), (51, 3), (59, 3), (67, 4), (83, 4),
    (99, 5), (131, 7), (259, 8), (515, 9), (1027, 10), (2051, 11), (4099, 12), (8195, 13),
    (16387, 14), (32771, 15), (65539, 16)]

/-- The largest literal-length code. -/
def maxLiteralCode : Nat := 35
/-- The largest offset code. -/
def maxOffsetCode : Nat := 31
/-- The largest match-length code. -/
def maxMatchCode : Nat := 52

/-- Base and extra bits of a literal-length code. -/
def literalBase (code : Nat) : Option (Nat × Nat) :=
  if code < 16 then some (code, 0) else literalCodes[code - 16]?

/-- Base and extra bits of a match-length code. -/
def matchBase (code : Nat) : Option (Nat × Nat) :=
  if code < 32 then some (code + 3, 0) else matchCodes[code - 32]?

/-- The code of a length: the last code whose base is not above it. -/
def codeOf (first : Nat) (direct : Nat) (codes : List (Nat × Nat)) (v : Nat) : Nat :=
  if v < direct + first then v - first
  else
    let i := ((codes.zipIdx.filter fun ((b, _), _) => b ≤ v).getLast?.map (·.2)).getD 0
    direct + i

/-- The three most recent offsets, the latest first. -/
abbrev Repeats := Nat × Nat × Nat

/-- The repeat offsets at the start of a frame. -/
def Repeats.initial : Repeats := (1, 4, 8)

/-- The distance an offset value stands for after `litLen` literals, and the repeat offsets
after it. A value above three is a new distance. Otherwise the value picks a repeat offset,
shifted by one place when no literals come first; the fourth choice is the latest offset less
one, and a distance that would be zero is taken as one. -/
def Repeats.resolve (reps : Repeats) (value litLen : Nat) : Nat × Repeats :=
  let (r1, r2, r3) := reps
  if 3 < value then (value - 3, (value - 3, r1, r2))
  else
    let idx := if litLen = 0 then value else value - 1
    if idx = 0 then (r1, reps)
    else
      let d := if idx = 1 then r2 else if idx = 2 then r3 else r1 - 1
      let d := if d = 0 then 1 else d
      if idx = 1 then (d, (d, r1, r3)) else (d, (d, r1, r2))

end EntityIndex.Zstd
