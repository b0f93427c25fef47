import Mathlib.Algebra.Order.Field.Power
import Mathlib.Data.Rat.Cast.Order
import Mathlib.Tactic.Linarith
import Mathlib.Tactic.Positivity
import Mathlib.Tactic.Ring
import Mathlib.Tactic.FieldSimp
import Mathlib.Tactic.SplitIfs
import EntityIndex.Numeric.FloatText

/-!
# Shortest digits round back

`Binary.shortest` searches precisions `10^t`, coarsest first, for a decimal candidate within the
halfway points to a magnitude's two neighbours, the points themselves allowed when the mantissa
is even. This module proves that the search always answers within its fuel and that its answer
is such a candidate: the digits end in a non-zero digit and stand for a number that rounds to the
magnitude (`shortest_spec`).

The search is exact arithmetic on naturals; its statements here are about rationals. A candidate
`c * 10^t` is compared with bounds over a common denominator exactly as `pick` compares them
(`between_scaled_iff`), and whatever `pick` answers lies within the bounds (`pick_between`). The
search answers because the magnitude's denominator is a power of two: at every precision fine
enough to hold that power, the value itself is a candidate (`candidateAt_exact`), and the fuel
reaches such a precision (`searchDigits_found`).
-/

namespace EntityIndex.Binary

/-! ## Scale factors -/

/-- A power `base^e` with an integer exponent, as a fraction of two powers with natural
exponents, one of them `1`. -/
theorem scale_ratio (base : Nat) (hb : 0 < base) (e : Int) :
    let r := if 0 ≤ e then (Nat.pow base e.toNat, 1) else (1, Nat.pow base (-e).toNat)
    0 < r.1 ∧ 0 < r.2 ∧ (r.1 : ℚ) / r.2 = (base : ℚ) ^ e := by
  intro r
  have hpos : ∀ k, 0 < Nat.pow base k := fun k => by rw [Nat.pow_eq]; exact Nat.pow_pos hb
  have hcast : ∀ k, ((Nat.pow base k : Nat) : ℚ) = (base : ℚ) ^ k := fun k => by
    rw [Nat.pow_eq, Nat.cast_pow]
  by_cases h : 0 ≤ e
  · simp only [r, h, if_true]
    refine ⟨hpos _, Nat.one_pos, ?_⟩
    rw [hcast, Nat.cast_one, div_one, ← zpow_natCast, Int.toNat_of_nonneg h]
  · simp only [r, h, if_false]
    refine ⟨Nat.one_pos, hpos _, ?_⟩
    rw [hcast, Nat.cast_one, ← zpow_natCast, Int.toNat_of_nonneg (by omega), one_div,
      ← zpow_neg, neg_neg]

theorem pow2Scale_ratio (e : Int) :
    0 < (pow2Scale e).1 ∧ 0 < (pow2Scale e).2 ∧
      ((pow2Scale e).1 : ℚ) / (pow2Scale e).2 = 2 ^ e := by
  exact scale_ratio 2 (by decide) e

theorem pow10Scale_ratio (t : Int) :
    0 < (pow10Scale t).1 ∧ 0 < (pow10Scale t).2 ∧
      ((pow10Scale t).1 : ℚ) / (pow10Scale t).2 = 10 ^ t := by
  exact scale_ratio 10 (by decide) t

theorem pow10Scale_of_nonpos {t : Int} (h : t ≤ 0) : pow10Scale t = (1, Nat.pow 10 (-t).toNat) := by
  unfold pow10Scale
  split
  · rename_i h0
    have ht : t = 0 := by omega
    subst ht
    rfl
  · rfl

theorem pow2Scale_den (s : Int) : (pow2Scale s).2 = 2 ^ (pow2Scale s).2.log2 := by
  unfold pow2Scale
  split
  · rfl
  · simp only [Nat.pow_eq, Nat.log2_two_pow]

/-! ## Digits -/

theorem digitCount_pos (n : Nat) : 0 < digitCount n :=
  List.length_pos_iff.2 Nat.toDigits_ne_nil

theorem lt_pow_digitCount (n : Nat) : n < 10 ^ digitCount n :=
  (Nat.length_toDigits_le_iff (by decide) (digitCount_pos n)).1 (Nat.le_refl _)

/-- Stripping trailing zeros keeps the number, as the digits left times a power of ten; with
fuel for every digit, the digits left end in a non-zero digit. -/
theorem stripZeros_spec : ∀ (fuel c : Nat),
    c = (stripZeros fuel c).1 * 10 ^ (stripZeros fuel c).2 ∧
      (c ≠ 0 → c < 10 ^ fuel → (stripZeros fuel c).1 % 10 ≠ 0)
  | 0, c => ⟨by simp [stripZeros], fun h0 h => by simp at h; omega⟩
  | fuel + 1, c => by
    by_cases hz : c ≠ 0 ∧ c % 10 = 0
    · have hrec := stripZeros_spec fuel (c / 10)
      rcases hs : stripZeros fuel (c / 10) with ⟨c', k⟩
      rw [hs] at hrec
      have hstep : stripZeros (fuel + 1) c = (c', k + 1) := by rw [stripZeros, if_pos hz, hs]
      rw [hstep]
      refine ⟨?_, fun _ hlt => hrec.2 (by omega) ?_⟩
      · calc c = c / 10 * 10 := (Nat.div_mul_cancel (Nat.dvd_of_mod_eq_zero hz.2)).symm
          _ = c' * 10 ^ (k + 1) := by rw [hrec.1, Nat.pow_succ, Nat.mul_assoc]
      · rw [Nat.pow_succ] at hlt
        omega
    · simp only [stripZeros, hz, if_false, Nat.pow_zero, Nat.mul_one]
      exact ⟨trivial, fun h0 _ => by omega⟩

/-- The number that decimal digits stand for: `digits * 10^(point - number of digits)`. -/
def Digits.value (d : Digits) : ℚ := d.digits * 10 ^ (d.point - digitCount d.digits)

/-- `toDigits c t` writes `c * 10^t` with its trailing zeros moved into the exponent. -/
theorem toDigits_spec {c : Nat} (hc : c ≠ 0) (t : Int) :
    (toDigits c t).digits % 10 ≠ 0 ∧ (toDigits c t).value = c * 10 ^ t := by
  obtain ⟨hsplit, hlast⟩ := stripZeros_spec (digitCount c) c
  unfold toDigits
  rw [if_neg hc]
  rcases hs : stripZeros (digitCount c) c with ⟨c', k⟩
  rw [hs] at hsplit hlast
  refine ⟨hlast hc (lt_pow_digitCount c), ?_⟩
  simp only [Digits.value]
  rw [show t + (k : Int) + (digitCount c' : Int) - (digitCount c' : Int) = k + t by ring,
    zpow_add₀ (by norm_num), zpow_natCast, hsplit]
  push_cast
  ring

/-- The decimal exponent estimate never exceeds the number of digits of the whole part. -/
theorem floorLog10_le (n d : Nat) : floorLog10 n d ≤ digitCount (n / d) := by
  have hpos := digitCount_pos (n / d)
  have hpos' := digitCount_pos (d / n)
  unfold floorLog10
  split
  · dsimp only
    split <;> omega
  · omega

/-! ## One precision -/

/-- `x` lies between `lo` and `hi`, the ends included when `incl`. -/
def Between (incl : Bool) (lo hi x : ℚ) : Prop :=
  (if incl then lo ≤ x else lo < x) ∧ (if incl then x ≤ hi else x < hi)

theorem Between.le_le {incl : Bool} {lo hi x : ℚ} (h : Between incl lo hi x) : lo ≤ x ∧ x ≤ hi := by
  cases incl <;> simp only [Between, Bool.false_eq_true, if_true, if_false] at h
  · exact ⟨h.1.le, h.2.le⟩
  · exact h

/-- A strict comparison passes a check of `pick`, with or without its ends. -/
theorem check_of_lt {incl : Bool} {a b : Nat} (h : a < b) : if incl then a ≤ b else a < b := by
  cases incl
  · simpa only [Bool.false_eq_true, if_false] using h
  · simpa only [if_true] using Nat.le_of_lt h

/-- The candidate `searchDigits` tries at precision `10^t`: the value's digits down to that
precision. -/
def candidateAt (v den : Nat) (t : Int) : Nat := v * (pow10Scale t).2 / (den * (pow10Scale t).1)

/-- `pick` answers the candidate below when it passes the lower check, or the one above when
it passes the upper check. -/
theorem pick_cases {incl : Bool} {v low high den lo c A B : Nat} {t : Int}
    (hAB : pow10Scale t = (A, B)) (h : pick incl v low high den lo t = some c) :
    (c = lo ∧ (if incl then low * B ≤ lo * A * den else low * B < lo * A * den)) ∨
      (c = lo + 1 ∧
        (if incl then (lo + 1) * A * den ≤ high * B else (lo + 1) * A * den < high * B)) := by
  unfold pick at h
  rw [hAB] at h
  dsimp only at h
  -- the two checks, each a condition on `incl`
  by_cases hd : (if incl = true then low * B ≤ lo * A * den else low * B < lo * A * den) <;>
  by_cases hu : (if incl = true then (lo + 1) * A * den ≤ high * B
    else (lo + 1) * A * den < high * B) <;>
  simp only [hd, hu, decide_true, decide_false, Bool.and_true, Bool.and_false,
    Bool.false_eq_true, if_true, if_false, Option.some.injEq] at h
  · -- both pass: the nearer candidate, or the even one on a tie
    have hc : c = lo ∨ c = lo + 1 := by
      split_ifs at h <;> simp only [Option.some.injEq] at h <;> omega
    rcases hc with rfl | rfl
    · exact Or.inl ⟨rfl, hd⟩
    · exact Or.inr ⟨rfl, hu⟩
  · exact Or.inl ⟨h.symm, hd⟩
  · exact Or.inr ⟨h.symm, hu⟩
  · exact absurd h (by simp)

/-- A candidate `c * (A / B)` against bounds over `den`, compared over the common denominator
`den * B` as `pick` compares them. -/
theorem between_scaled_iff {incl : Bool} {low high den c A B : Nat} (hden : 0 < den)
    (hB : 0 < B) :
    Between incl ((low : ℚ) / den) ((high : ℚ) / den) (c * ((A : ℚ) / B)) ↔
      (if incl then low * B ≤ c * A * den else low * B < c * A * den) ∧
        (if incl then c * A * den ≤ high * B else c * A * den < high * B) := by
  have hq : (0 : ℚ) < ((den * B : Nat) : ℚ) := by positivity
  have hx : ∀ x : Nat, (x : ℚ) / den = ((x * B : Nat) : ℚ) / ((den * B : Nat) : ℚ) := by
    intro x
    push_cast
    field_simp
  have hc : (c : ℚ) * ((A : ℚ) / B) = ((c * A * den : Nat) : ℚ) / ((den * B : Nat) : ℚ) := by
    push_cast
    field_simp
  rw [hx low, hx high, hc]
  cases incl <;>
    simp only [Between, Bool.false_eq_true, if_true, if_false, div_le_div_iff_of_pos_right hq,
      div_lt_div_iff_of_pos_right hq, Nat.cast_le, Nat.cast_lt]

/-- Around a value strictly inside the bounds, whatever `pick` answers at the candidate just
below the value lies within the bounds. -/
theorem pick_between {incl : Bool} {v low high den c : Nat} {t : Int} (hden : 0 < den)
    (hlow : low < v) (hhigh : v < high)
    (h : pick incl v low high den (candidateAt v den t) t = some c) :
    Between incl ((low : ℚ) / den) ((high : ℚ) / den) (c * 10 ^ t) := by
  obtain ⟨hA, hB, hr⟩ := pow10Scale_ratio t
  rcases hAB : pow10Scale t with ⟨A, B⟩
  rw [candidateAt, hAB] at h
  rw [hAB] at hA hB hr
  dsimp only at hA hB hr h
  rw [← hr, between_scaled_iff hden hB]
  -- the candidates below and above the value, over the denominator `den * B`
  have hbelow : v * B / (den * A) * A * den ≤ v * B := by
    have := Nat.div_mul_le_self (v * B) (den * A)
    calc v * B / (den * A) * A * den = v * B / (den * A) * (den * A) := by ring
      _ ≤ v * B := this
  have habove : v * B < (v * B / (den * A) + 1) * A * den := by
    have := Nat.lt_mul_div_succ (v * B) (Nat.mul_pos hden hA)
    calc v * B < den * A * (v * B / (den * A) + 1) := this
      _ = (v * B / (den * A) + 1) * A * den := by ring
  have hvlow : low * B < v * B := Nat.mul_lt_mul_of_pos_right hlow hB
  have hvhigh : v * B < high * B := Nat.mul_lt_mul_of_pos_right hhigh hB
  rcases pick_cases hAB h with ⟨rfl, hd⟩ | ⟨rfl, hu⟩
  · exact ⟨hd, check_of_lt (by omega)⟩
  · exact ⟨check_of_lt (by omega), hu⟩

/-- At a precision where the value itself is a candidate, `pick` answers. -/
theorem pick_isSome_of_exact {incl : Bool} {v low high den lo : Nat} {t : Int} (hlow : low < v)
    (hexact : lo * (pow10Scale t).1 * den = v * (pow10Scale t).2) :
    (pick incl v low high den lo t).isSome := by
  obtain ⟨-, hB, -⟩ := pow10Scale_ratio t
  rcases hAB : pow10Scale t with ⟨A, B⟩
  rw [hAB] at hB hexact
  dsimp only at hB hexact
  have hd : (if incl = true then low * B ≤ lo * A * den else low * B < lo * A * den) := by
    apply check_of_lt
    rw [hexact]
    exact Nat.mul_lt_mul_of_pos_right hlow hB
  unfold pick
  rw [hAB]
  dsimp only
  simp only [hd, decide_true, Bool.true_and, if_true]
  split_ifs <;> rfl

/-- Over a power-of-two denominator, the value is a candidate at every precision at or below
`10^-log2 den`. -/
theorem candidateAt_exact {v den : Nat} (hden : den = 2 ^ den.log2) {t : Int}
    (ht : t ≤ -(den.log2 : Int)) :
    candidateAt v den t * (pow10Scale t).1 * den = v * (pow10Scale t).2 := by
  rw [candidateAt, pow10Scale_of_nonpos (by omega)]
  dsimp only
  -- `2^log2 den` divides `10^j` once `j ≥ log2 den`
  have hdvd : den ∣ v * Nat.pow 10 (-t).toNat := by
    refine Dvd.dvd.mul_left ?_ v
    rw [hden, Nat.pow_eq, show (10 : Nat) = 2 * 5 by rfl, Nat.mul_pow]
    exact Dvd.dvd.mul_right (Nat.pow_dvd_pow 2 (by omega)) _
  rw [Nat.mul_one, Nat.mul_one, Nat.div_mul_cancel hdvd]

/-! ## The search over precisions -/

theorem searchDigits_succ (incl : Bool) (v low high den : Nat) (p : Int) (fuel n : Nat) :
    searchDigits incl v low high den p (fuel + 1) n =
      match pick incl v low high den (candidateAt v den (p - n + 1)) (p - n + 1) with
      | some c => some (toDigits c (p - n + 1))
      | none => searchDigits incl v low high den p fuel (n + 1) := rfl

section Search

variable {incl : Bool} {v low high den : Nat} {p : Int}

/-- What the search answers comes from the first precision at which `pick` answers. -/
theorem searchDigits_some : ∀ {fuel n : Nat} {d : Digits},
    searchDigits incl v low high den p fuel n = some d →
      ∃ k < fuel, ∃ c, pick incl v low high den (candidateAt v den (p - (n + k : Nat) + 1))
        (p - (n + k : Nat) + 1) = some c ∧ d = toDigits c (p - (n + k : Nat) + 1)
  | 0, _, _, h => by simp [searchDigits] at h
  | fuel + 1, n, d, h => by
    rw [searchDigits_succ] at h
    rcases hp : pick incl v low high den (candidateAt v den (p - n + 1)) (p - n + 1) with _ | c
    · rw [hp] at h
      obtain ⟨k, hk, c, hc, rfl⟩ := searchDigits_some h
      have hidx : n + (k + 1) = n + 1 + k := by omega
      exact ⟨k + 1, by omega, c, hidx ▸ hc, by rw [hidx]⟩
    · rw [hp] at h
      exact ⟨0, by omega, c, hp, (Option.some.inj h).symm⟩

/-- The search answers when `pick` answers at one of the precisions its fuel reaches. -/
theorem searchDigits_isSome : ∀ {fuel n k : Nat}, k < fuel →
    (pick incl v low high den (candidateAt v den (p - (n + k : Nat) + 1))
      (p - (n + k : Nat) + 1)).isSome →
    (searchDigits incl v low high den p fuel n).isSome
  | 0, _, _, hk, _ => absurd hk (Nat.not_lt_zero _)
  | fuel + 1, n, k, hk, h => by
    rw [searchDigits_succ]
    rcases hp : pick incl v low high den (candidateAt v den (p - n + 1)) (p - n + 1) with _ | c
    · cases k with
      | zero => simp [hp] at h
      | succ k =>
        refine searchDigits_isSome (k := k) (by omega) ?_
        rwa [show n + 1 + k = n + (k + 1) by omega]
    · rfl

end Search

/-- The search of `shortest` answers within its fuel, with the digits of a positive candidate
within the bounds: over a denominator that is a power of two, the value itself becomes a
candidate before the fuel runs out. -/
theorem searchDigits_found (incl : Bool) {v low high den : Nat} (hden : den = 2 ^ den.log2)
    (hlow0 : 0 < low) (hlow : low < v) (hhigh : v < high) :
    ∃ c t, 0 < c ∧
      searchDigits incl v low high den (floorLog10 v den) (digitCount (v / den) + den.log2 + 2) 1 =
        some (toDigits c t) ∧
      Between incl ((low : ℚ) / den) ((high : ℚ) / den) (c * 10 ^ t) := by
  have hden0 : 0 < den := by
    rw [hden]
    exact Nat.pow_pos (by decide)
  have hp := floorLog10_le v den
  -- the precision at which the value itself is a candidate
  obtain ⟨k, hk, ht⟩ : ∃ k, k < digitCount (v / den) + den.log2 + 2 ∧
      floorLog10 v den - ((1 + k : Nat) : Int) + 1 ≤ -(den.log2 : Int) :=
    ⟨(floorLog10 v den + den.log2).toNat, by omega, by omega⟩
  have hsome : (searchDigits incl v low high den (floorLog10 v den)
      (digitCount (v / den) + den.log2 + 2) 1).isSome :=
    searchDigits_isSome hk (pick_isSome_of_exact hlow (candidateAt_exact hden ht))
  obtain ⟨d, hd⟩ := Option.isSome_iff_exists.1 hsome
  obtain ⟨j, -, c, hc, rfl⟩ := searchDigits_some hd
  have hbetween := pick_between hden0 hlow hhigh hc
  refine ⟨c, _, Nat.pos_of_ne_zero fun hc0 => ?_, hd, hbetween⟩
  -- a candidate above a positive lower bound is positive
  have hlowq : (0 : ℚ) < (low : ℚ) / den := by positivity
  have h1 := hbetween.le_le.1
  rw [hc0, Nat.cast_zero, zero_mul] at h1
  linarith

/-! ## Shortest digits -/

/-- The least magnitude that rounds to `mant * 2^exp`: halfway to the value below, which at the
bottom of a binade above the subnormals is half as far. -/
def lowerBound (f : Format) (mant : Nat) (exp : Int) : ℚ :=
  if f.hidden < mant ∨ exp = f.minExp then (2 * mant - 1) * 2 ^ (exp - 1)
  else (4 * mant - 1) * 2 ^ (exp - 2)

/-- The greatest magnitude that rounds to `mant * 2^exp`: halfway to the value above. -/
def upperBound (mant : Nat) (exp : Int) : ℚ := (2 * mant + 1) * 2 ^ (exp - 1)

/-- `x` rounds to the magnitude `mant * 2^exp`: it lies between the halfway points to the
neighbours, which round to the even one of the two. -/
def RoundsTo (f : Format) (mant : Nat) (exp : Int) (x : ℚ) : Prop :=
  Between (mant % 2 = 0) (lowerBound f mant exp) (upperBound mant exp) x

/-- The search `shortest` runs over the magnitudes `v0 * 2^s`, `low0 * 2^s` and `high0 * 2^s`. -/
def shortestSearch (incl : Bool) (v0 low0 high0 : Nat) (s : Int) : Option Digits :=
  let (a, den) := pow2Scale s
  searchDigits incl (v0 * a) (low0 * a) (high0 * a) den (floorLog10 (v0 * a) den)
    (digitCount (v0 * a / den) + den.log2 + 2) 1

/-- Over magnitudes with the value strictly inside positive bounds, the search answers with
digits that end in a non-zero digit and stand within the bounds. -/
theorem shortestSearch_spec (incl : Bool) (v0 low0 high0 : Nat) (s : Int) (hlow0 : 0 < low0)
    (hlow : low0 < v0) (hhigh : v0 < high0) :
    ∃ d, shortestSearch incl v0 low0 high0 s = some d ∧ d.digits % 10 ≠ 0 ∧
      Between incl (low0 * 2 ^ s) (high0 * 2 ^ s) d.value := by
  obtain ⟨ha, hden, hr⟩ := pow2Scale_ratio s
  have hpow := pow2Scale_den s
  unfold shortestSearch
  rcases hs : pow2Scale s with ⟨a, den⟩
  rw [hs] at ha hden hr hpow
  dsimp only at ha hden hr hpow ⊢
  obtain ⟨c, t, hc, hsearch, hbet⟩ := searchDigits_found incl hpow
    (Nat.mul_pos hlow0 ha) (Nat.mul_lt_mul_of_pos_right hlow ha)
    (Nat.mul_lt_mul_of_pos_right hhigh ha)
  obtain ⟨hnz, hval⟩ := toDigits_spec (Nat.pos_iff_ne_zero.1 hc) t
  refine ⟨_, hsearch, hnz, ?_⟩
  -- the bounds over `den` are the magnitudes times `a / den = 2^s`
  have hscale : ∀ x : Nat, ((x * a : Nat) : ℚ) / den = x * 2 ^ s := by
    intro x
    rw [← hr]
    push_cast
    ring
  rw [hval, ← hscale, ← hscale]
  exact hbet

/-- `shortest` searches over the value and the halfway points to its neighbours, all over the
power of two one below the lower neighbour's. -/
theorem shortest_eq_search (f : Format) {mant : Nat} (hm : mant ≠ 0) (exp : Int) :
    shortest f mant exp =
      (if f.hidden < mant ∨ exp = f.minExp then
        shortestSearch (mant % 2 = 0) (2 * mant) (2 * mant - 1) (2 * mant + 1) (exp - 1)
      else shortestSearch (mant % 2 = 0) (4 * mant) (4 * mant - 1) (4 * mant + 2) (exp - 2)).getD
        (toDigits mant 0) := by
  unfold shortest shortestSearch
  rw [if_neg hm]
  by_cases hb : f.hidden < mant ∨ exp = f.minExp
  · have hs : min exp exp - 1 = exp - 1 := by omega
    have hv : exp - (exp - 1) = 1 := by omega
    have hh : exp - 1 - (exp - 1) = 0 := by omega
    have p1 : Nat.pow 2 (Int.toNat 1) = 2 := rfl
    have p0 : Nat.pow 2 (Int.toNat 0) = 1 := rfl
    simp only [hb, if_true, hs, hv, hh, p1, p0, Nat.mul_one, Nat.mul_comm mant 2]
    rw [show 2 * (mant - 1) + 1 = 2 * mant - 1 by omega]
    split <;> next h => simp only [h, Option.getD_some, Option.getD_none]
  · have hs : min exp (exp - 1) - 1 = exp - 2 := by omega
    have hv : exp - (exp - 2) = 2 := by omega
    have hh : exp - 1 - (exp - 2) = 1 := by omega
    have hl : exp - 1 - 1 - (exp - 2) = 0 := by omega
    have p2 : Nat.pow 2 (Int.toNat 2) = 4 := rfl
    have p1 : Nat.pow 2 (Int.toNat 1) = 2 := rfl
    have p0 : Nat.pow 2 (Int.toNat 0) = 1 := rfl
    simp only [hb, if_false, hs, hv, hh, hl, p2, p1, p0, Nat.mul_one, Nat.mul_comm mant 4]
    rw [show 2 * (2 * mant - 1) + 1 = 4 * mant - 1 by omega,
      show (2 * mant + 1) * 2 = 4 * mant + 2 by omega]
    split <;> next h => simp only [h, Option.getD_some, Option.getD_none]

theorem shortest_zero (f : Format) (exp : Int) : shortest f 0 exp = ⟨0, 0⟩ := rfl

/-- The shortest digits of a non-zero magnitude end in a non-zero digit and stand for a number
that rounds to the magnitude. -/
theorem shortest_spec (f : Format) {mant : Nat} (hm : mant ≠ 0) (exp : Int) :
    (shortest f mant exp).digits % 10 ≠ 0 ∧ RoundsTo f mant exp (shortest f mant exp).value := by
  rw [shortest_eq_search f hm]
  have h1 : (1 : ℚ) ≤ mant := by exact_mod_cast Nat.one_le_iff_ne_zero.2 hm
  unfold RoundsTo lowerBound upperBound
  by_cases hb : f.hidden < mant ∨ exp = f.minExp
  · obtain ⟨d, hd, hnz, hbet⟩ := shortestSearch_spec (mant % 2 = 0) (2 * mant) (2 * mant - 1) (2 * mant + 1) (exp - 1)
      (by omega) (by omega) (Nat.lt_succ_self _)
    rw [if_pos hb, hd, Option.getD_some, if_pos hb]
    refine ⟨hnz, ?_⟩
    rw [Nat.cast_sub (by omega)] at hbet
    push_cast at hbet
    exact hbet
  · obtain ⟨d, hd, hnz, hbet⟩ := shortestSearch_spec (mant % 2 = 0) (4 * mant) (4 * mant - 1) (4 * mant + 2) (exp - 2)
      (by omega) (by omega) (by omega)
    rw [if_neg hb, hd, Option.getD_some, if_neg hb]
    refine ⟨hnz, ?_⟩
    -- the halfway point above, written over `2^(exp-2)`
    have hhigh : ((4 * mant + 2 : Nat) : ℚ) * 2 ^ (exp - 2) = (2 * mant + 1) * 2 ^ (exp - 1) := by
      rw [show exp - 1 = exp - 2 + 1 by ring, zpow_add_one₀ (by norm_num)]
      push_cast
      ring
    rw [hhigh, Nat.cast_sub (by omega)] at hbet
    push_cast at hbet
    exact hbet

theorem Digits.eq_of_fields {d d' : Digits} (h1 : d.digits = d'.digits) (h2 : d.point = d'.point) :
    d = d' := by
  cases d
  cases d'
  cases h1
  cases h2
  rfl

/-- Digits in normal form: zero as `⟨0, 0⟩`, any other number without a trailing zero digit. -/
def Digits.Normal (d : Digits) : Prop := d.digits % 10 ≠ 0 ∨ d = ⟨0, 0⟩

theorem shortest_normal (f : Format) (mant : Nat) (exp : Int) : (shortest f mant exp).Normal := by
  rcases Nat.eq_zero_or_pos mant with rfl | hm
  · exact Or.inr (shortest_zero f exp)
  · exact Or.inl (shortest_spec f (Nat.pos_iff_ne_zero.1 hm) exp).1

end EntityIndex.Binary
