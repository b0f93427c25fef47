import Mathlib
import EntityIndex.Text.Time
import EntityIndex.Proofs.Text.Fields

/-!
# Written instants determine the instant

`formatUtc` writes an instant as a date, a time of day and a fraction, and every field is read
back from the text. The year is the run of digits before the first `-`, after a sign for the
years before 0; the other fields have fixed widths; the fraction is padded back to nine digits
with the zeros it lost. The date determines the day because `civilFromDays` is injective: within
an era of 400 years the Hinnant formulas give a year of the era below 400 and a day of the year
at most 365 (`dayOfYear_bounds`), and from those the day count is recovered.

Main statement: two instants whose nanoseconds are below a second and whose texts agree are the
same instant (`formatUtc_injective`).
-/

namespace EntityIndex.Time

/-! ## Padded numbers -/

/-- Leading zeros do not change the number a padded field spells. -/
theorem ofDigitChars_padded (w n : Nat) : Nat.ofDigitChars 10 (padded w n) 0 = n := by
  rw [padded, Text.ofDigitChars_zeros_append, Nat.ofDigitChars_ten_toDigits]

theorem padded_injective {w n n' : Nat} (h : padded w n = padded w n') : n = n' := by
  rw [← ofDigitChars_padded w n, h, ofDigitChars_padded]

theorem length_padded {w n : Nat} (hw : 0 < w) (h : n < 10 ^ w) : (padded w n).length = w := by
  have hle := (Nat.length_toDigits_le_iff (by decide) hw).2 h
  simp only [padded, List.length_append, List.length_replicate]
  omega

theorem isDigit_of_mem_padded {w n : Nat} {c : Char} (h : c ∈ padded w n) : c.isDigit := by
  rcases List.mem_append.1 h with h | h
  · rw [List.eq_of_mem_replicate h]; rfl
  · exact Nat.isDigit_of_mem_toDigits (by decide) (by decide) h

/-- A padded field starts with a digit, whatever follows it. -/
theorem head?_padded_append (w n : Nat) (t : List Char) :
    ∃ c, (padded w n ++ t).head? = some c ∧ c.isDigit := by
  have hne : padded w n ≠ [] := by
    intro h
    have hlen := congrArg List.length h
    simp only [padded, List.length_append, List.length_replicate, List.length_nil] at hlen
    have hpos := Nat.toDigits_ne_nil (b := 10) (n := n)
    have := List.length_pos_iff.2 hpos
    omega
  obtain ⟨c, r, hcr⟩ := List.exists_cons_of_ne_nil hne
  exact ⟨c, by rw [hcr, List.cons_append, List.head?_cons],
    isDigit_of_mem_padded (hcr ▸ List.mem_cons_self)⟩

/-- Two fields of two digits each, followed by anything, are the same fields. -/
theorem padded_two_append_cancel {a a' : Nat} {r r' : List Char} (ha : a < 100) (ha' : a' < 100)
    (h : padded 2 a ++ r = padded 2 a' ++ r') : a = a' ∧ r = r' := by
  have hlen : (padded 2 a).length = (padded 2 a').length := by
    rw [length_padded (by decide) ha, length_padded (by decide) ha']
  obtain ⟨hp, hr⟩ := List.append_inj h hlen
  exact ⟨padded_injective hp, hr⟩

/-! ## The fraction -/

/-- A list is what remains after removing its trailing zeros, followed by those zeros. -/
theorem eq_trimmed_append_zeros (l : List Char) :
    l = (l.reverse.dropWhile (· = '0')).reverse ++
      List.replicate (l.length - (l.reverse.dropWhile (· = '0')).reverse.length) '0' := by
  have hsplit := List.takeWhile_append_dropWhile (p := fun c => decide (c = '0')) (l := l.reverse)
  have hzeros : (l.reverse.takeWhile (· = '0')).reverse =
      List.replicate (l.reverse.takeWhile (· = '0')).length '0' := by
    refine List.eq_replicate_iff.2 ⟨List.length_reverse, fun c hc => ?_⟩
    simpa using List.mem_takeWhile_imp (List.mem_reverse.1 hc)
  have hlen := congrArg List.length hsplit
  simp only [List.length_append, List.length_reverse] at hlen
  calc l = (l.reverse.takeWhile (· = '0') ++ l.reverse.dropWhile (· = '0')).reverse := by
        rw [hsplit, List.reverse_reverse]
    _ = _ := by
        rw [List.reverse_append, hzeros, List.length_reverse]
        congr 2
        omega

/-- Nanoseconds below a second are read back from their fraction: the zeros that were removed
are those that pad the digits back to nine. -/
theorem fraction_injective {n n' : Nat} (hn : n < 10 ^ 9) (hn' : n' < 10 ^ 9)
    (h : fraction n = fraction n') : n = n' := by
  unfold fraction at h
  by_cases h0 : n = 0 <;> by_cases h0' : n' = 0
  · rw [h0, h0']
  · simp [h0, h0'] at h
  · simp [h0, h0'] at h
  · simp only [h0, h0', if_false, List.cons.injEq, true_and] at h
    apply padded_injective (w := 9)
    rw [eq_trimmed_append_zeros (padded 9 n), eq_trimmed_append_zeros (padded 9 n'), h,
      length_padded (by decide) hn, length_padded (by decide) hn']

/-! ## The year -/

/-- A run of digits ends at the first `-`, so the digits and what follows are read back. -/
theorem digits_dash_cancel {l l' r r' : List Char} (hl : ∀ c ∈ l, c.isDigit)
    (hl' : ∀ c ∈ l', c.isDigit) (h : l ++ '-' :: r = l' ++ '-' :: r') : l = l' ∧ r = r' :=
  Text.append_cons_cancel (fun hm => absurd (hl _ hm) (by decide))
    (fun hm => absurd (hl' _ hm) (by decide)) h

/-- A padded field ends at the first `-`, so its number and what follows are read back. -/
theorem padded_dash_cancel {w n n' : Nat} {r r' : List Char}
    (h : padded w n ++ '-' :: r = padded w n' ++ '-' :: r') : n = n' ∧ r = r' := by
  obtain ⟨hp, hr⟩ := digits_dash_cancel (fun _ => isDigit_of_mem_padded)
    (fun _ => isDigit_of_mem_padded) h
  exact ⟨padded_injective hp, hr⟩

/-- The year field, with a sign before the years before 0, and what follows its dash. -/
theorem year_dash_cancel {y y' : Int} {r r' : List Char}
    (h : (if y < 0 then '-' :: padded 4 y.natAbs else padded 4 y.toNat) ++ '-' :: r =
      (if y' < 0 then '-' :: padded 4 y'.natAbs else padded 4 y'.toNat) ++ '-' :: r') :
    y = y' ∧ r = r' := by
  have hdash : ¬ '-'.isDigit := by decide
  -- a negative year starts with a sign and a nonnegative one with a digit
  by_cases hy : y < 0
  · by_cases hy' : y' < 0
    · simp only [hy, hy', if_true, List.cons_append, List.cons.injEq, true_and] at h
      obtain ⟨hyy, hr⟩ := padded_dash_cancel h
      exact ⟨by omega, hr⟩
    · simp only [hy, hy', if_true, if_false, List.cons_append] at h
      obtain ⟨c, hc, hd⟩ := head?_padded_append 4 y'.toNat ('-' :: r')
      rw [← h, List.head?_cons, Option.some.injEq] at hc
      exact absurd (hc ▸ hd) hdash
  · by_cases hy' : y' < 0
    · simp only [hy, hy', if_true, if_false, List.cons_append] at h
      obtain ⟨c, hc, hd⟩ := head?_padded_append 4 y.toNat ('-' :: r)
      rw [h, List.head?_cons, Option.some.injEq] at hc
      exact absurd (hc ▸ hd) hdash
    · simp only [hy, hy', if_false] at h
      obtain ⟨hyy, hr⟩ := padded_dash_cancel h
      exact ⟨by omega, hr⟩

/-! ## The calendar -/

/-- Within an era of 146097 days, the Hinnant formula gives a year of the era below 400 and a day
of that year, counted from the first of March, at most 365. -/
theorem dayOfYear_bounds {doe yoe : Int} (h0 : 0 ≤ doe) (h1 : doe ≤ 146096)
    (hyoe : yoe = (doe - doe / 1460 + doe / 36524 - doe / 146096) / 365) :
    0 ≤ yoe ∧ yoe ≤ 399 ∧ 0 ≤ doe - (365 * yoe + yoe / 4 - yoe / 100) ∧
      doe - (365 * yoe + yoe / 4 - yoe / 100) ≤ 365 := by
  by_cases hlast : doe = 146096
  · -- the last day of an era is the 366th day of its year 399
    subst hlast
    omega
  · -- otherwise the day is `c` centuries of 36524 days, `q` spans of 1461 days and `s` days
    obtain ⟨c, q, s, hdoe, hc0, hc1, hq0, hq1, hs0, hs1, hqs⟩ : ∃ c q s : Int,
        doe = 36524 * c + 1461 * q + s ∧ 0 ≤ c ∧ c ≤ 3 ∧ 0 ≤ q ∧ q ≤ 24 ∧ 0 ≤ s ∧ s ≤ 1460 ∧
          1461 * q + s ≤ 36523 :=
      ⟨doe / 36524, doe % 36524 / 1461, doe % 36524 % 1461, by omega⟩
    subst hdoe
    have hcent : (36524 * c + 1461 * q + s) / 36524 = c := by omega
    have hera : (36524 * c + 1461 * q + s) / 146096 = 0 := by omega
    have hquad : (36524 * c + 1461 * q + s) / 1460 = 25 * c + q + (24 * c + q + s) / 1460 := by
      omega
    have hy : yoe = 100 * c + 4 * q + (s - (24 * c + q + s) / 1460) / 365 := by omega
    have hk : (s - (24 * c + q + s) / 1460) / 365 ≤ 3 := by omega
    have h4 : yoe / 4 = 25 * c + q := by omega
    have h100 : yoe / 100 = c := by omega
    omega

/-- `civilFromDays` gives a month and a day in range, and `daysFromCivil` reads its date back. -/
theorem civilFromDays_spec (z : Int) :
    daysFromCivil (civilFromDays z).1 (civilFromDays z).2.1 (civilFromDays z).2.2 = z ∧
      1 ≤ (civilFromDays z).2.1 ∧ (civilFromDays z).2.1 ≤ 12 ∧
      1 ≤ (civilFromDays z).2.2 ∧ (civilFromDays z).2.2 ≤ 31 := by
  obtain ⟨era, hera⟩ : ∃ era, (z + 719468) / 146097 = era := ⟨_, rfl⟩
  obtain ⟨doe, hdoe⟩ : ∃ doe, z + 719468 - era * 146097 = doe := ⟨_, rfl⟩
  obtain ⟨yoe, hyoe⟩ : ∃ yoe, (doe - doe / 1460 + doe / 36524 - doe / 146096) / 365 = yoe :=
    ⟨_, rfl⟩
  obtain ⟨doy, hdoy⟩ : ∃ doy, doe - (365 * yoe + yoe / 4 - yoe / 100) = doy := ⟨_, rfl⟩
  obtain ⟨mp, hmp⟩ : ∃ mp, (5 * doy + 2) / 153 = mp := ⟨_, rfl⟩
  have hb := dayOfYear_bounds (by omega) (by omega) hyoe.symm
  have hyear : (yoe + era * 400) / 400 = era := by omega
  have hday : 0 ≤ doy - (153 * mp + 2) / 5 + 1 := by omega
  simp only [civilFromDays, hera, hdoe, hyoe, hdoy, hmp]
  by_cases hm : mp < 10
  · -- March to December: the calendar year is the year of the era's count
    have hm3 : ¬ mp + 3 ≤ 2 := by omega
    have hm3' : ¬ (mp + 3).toNat ≤ 2 := by omega
    have hm3'' : (mp + 3).toNat > 2 := by omega
    simp only [hm, hm3, hm3', hm3'', if_true, if_false, daysFromCivil, hyear, Int.add_sub_cancel,
      Int.toNat_of_nonneg (by omega : 0 ≤ mp + 3), Int.toNat_of_nonneg hday]
    omega
  · -- January and February belong to the next calendar year
    have hm9 : mp - 9 ≤ 2 := by omega
    have hm9' : (mp - 9).toNat ≤ 2 := by omega
    have hm9'' : ¬ (mp - 9).toNat > 2 := by omega
    simp only [hm, hm9, hm9', hm9'', if_true, if_false, daysFromCivil, hyear, Int.add_sub_cancel,
      Int.toNat_of_nonneg (by omega : 0 ≤ mp - 9), Int.sub_add_cancel, Int.toNat_of_nonneg hday]
    omega

theorem civilFromDays_injective {z z' : Int} (h : civilFromDays z = civilFromDays z') : z = z' := by
  rw [← (civilFromDays_spec z).1, ← (civilFromDays_spec z').1, h]

/-! ## The whole text -/

/-- Two instants with nanoseconds below a second and the same text are the same instant. -/
theorem formatUtc_injective {t t' : Instant} (hn : t.nanos < 10 ^ 9) (hn' : t'.nanos < 10 ^ 9)
    (h : formatUtc t = formatUtc t') : t = t' := by
  obtain ⟨s, n⟩ := t
  obtain ⟨s', n'⟩ := t'
  dsimp only at hn hn'
  have hspec := civilFromDays_spec (s / 86400)
  have hspec' := civilFromDays_spec (s' / 86400)
  rcases hc : civilFromDays (s / 86400) with ⟨y, m, d⟩
  rcases hc' : civilFromDays (s' / 86400) with ⟨y', m', d'⟩
  rw [hc] at hspec
  rw [hc'] at hspec'
  dsimp only at hspec hspec'
  unfold formatUtc at h
  dsimp only at h
  rw [hc, hc'] at h
  have hl := String.ofList_injective h
  simp only [List.append_assoc, List.singleton_append] at hl
  -- read the fields back from the left: the year up to its dash, then fixed widths
  obtain ⟨rfl, hmonth⟩ := year_dash_cancel hl
  obtain ⟨rfl, hday⟩ := padded_two_append_cancel (by omega) (by omega) hmonth
  obtain ⟨rfl, hhour⟩ := padded_two_append_cancel (by omega) (by omega) (List.cons.inj hday).2
  obtain ⟨hh, hmin⟩ := padded_two_append_cancel (by omega) (by omega) (List.cons.inj hhour).2
  obtain ⟨hm, hsec⟩ := padded_two_append_cancel (by omega) (by omega) (List.cons.inj hmin).2
  obtain ⟨hs, hfrac⟩ := padded_two_append_cancel (by omega) (by omega) (List.cons.inj hsec).2
  have hnn := fraction_injective hn hn' (List.append_cancel_right hfrac)
  have hdays := civilFromDays_injective (hc.trans hc'.symm)
  simp only [Instant.mk.injEq]
  omega

end EntityIndex.Time
