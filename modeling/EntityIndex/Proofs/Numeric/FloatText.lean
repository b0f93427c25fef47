import EntityIndex.Proofs.Numeric.Rounding
import EntityIndex.Proofs.Text.Fields

/-!
# Float text determines the float

A float's key text is its sign and the layout of its shortest digits, or `NaN`, `+Inf` or
`-Inf`. This module reads every part back. Positional text has three shapes, below one, with
the point inside the digits, and with the point after them, told apart by whether the text holds
a point and starts with a zero; each shape gives its digits and point back
(`positional_injective`). Scientific text is read up to its `e`, then the exponent from its
sign and digits (`scientific_injective`); it holds an `e` and positional text never does. The
first character of a finite value's text is the sign or a digit, so it is never one of the
special texts.

Main statements: two floats have the same text exactly when they are written alike, with one
sign and the same shortest digits (`general_eq_iff`), and within one format, values the format
holds have the same text exactly when they are the same value (`general_eq_iff_eq`), since
distinct magnitudes have distinct shortest digits.
-/

namespace EntityIndex.FloatText

open EntityIndex.Binary

/-- The digits read at positions `0, 1, …, k-1` of `ds` followed by zeros: the first `k`
digits, padded with zeros. -/
theorem map_range_getD (ds : List Char) (k : Nat) :
    (List.range k).map (fun i => ds.getD i '0') = ds.take k ++ List.replicate (k - ds.length) '0' := by
  apply List.ext_getElem
  · simp only [List.length_map, List.length_range, List.length_append, List.length_take,
      List.length_replicate]
    omega
  · intro i h1 h2
    simp only [List.getElem_map, List.getElem_range, List.getD_eq_getElem?_getD]
    rw [List.getElem_append]
    split
    · rename_i hi
      simp only [List.length_take] at hi
      rw [List.getElem_take, List.getElem?_eq_getElem (by omega), Option.getD_some]
    · rename_i hi
      simp only [List.length_take] at hi
      rw [List.getElem_replicate, List.getElem?_eq_none (by simp at h1; omega), Option.getD_none]

/-- The fraction digits of `0.ds * 10^p` for `p ≤ 0`: `-p` zeros, then all the digits. -/
theorem map_range_frac_of_nonpos (ds : List Char) {p : Int} (hp : p ≤ 0) :
    (List.range ((ds.length : Int) - p).toNat).map
        (fun i : Nat => if 0 ≤ p + i then ds.getD (p + i).toNat '0' else '0') =
      List.replicate (-p).toNat '0' ++ ds := by
  apply List.ext_getElem
  · simp only [List.length_map, List.length_range, List.length_append, List.length_replicate]
    omega
  · intro i h1 h2
    simp only [List.length_map, List.length_range] at h1
    simp only [List.getElem_map, List.getElem_range]
    by_cases hi : i < (-p).toNat
    · -- before the digits: the zeros after the point
      rw [List.getElem_append_left (by simpa using hi), List.getElem_replicate, if_neg (by omega)]
    · rw [List.getElem_append_right (by simpa using hi), if_pos (by omega),
        List.getD_eq_getElem?_getD, List.getElem?_eq_getElem (by omega), Option.getD_some]
      congr 1
      simp only [List.length_replicate]
      omega

/-- The fraction digits of `0.ds * 10^p` for `p ≥ 0`: the digits after the first `p`. -/
theorem map_range_frac_of_nonneg (ds : List Char) {p : Int} (hp : 0 ≤ p) :
    (List.range ((ds.length : Int) - p).toNat).map
        (fun i : Nat => if 0 ≤ p + i then ds.getD (p + i).toNat '0' else '0') =
      ds.drop p.toNat := by
  apply List.ext_getElem
  · simp only [List.length_map, List.length_range, List.length_drop]
    omega
  · intro i h1 h2
    simp only [List.length_map, List.length_range] at h1
    simp only [List.getElem_map, List.getElem_range, List.getElem_drop]
    rw [if_pos (by omega), List.getD_eq_getElem?_getD, List.getElem?_eq_getElem (by omega),
      Option.getD_some]
    congr 1
    omega

/-! ## Digits of a normal number -/

theorem dot_not_mem_digitChars (n : Nat) : '.' ∉ digitChars n := fun h =>
  absurd (Nat.isDigit_of_mem_toDigits (by decide) (by decide) h) (by decide)

theorem e_not_mem_digitChars (n : Nat) : 'e' ∉ digitChars n := fun h =>
  absurd (Nat.isDigit_of_mem_toDigits (by decide) (by decide) h) (by decide)

theorem head?_digitChars {n : Nat} (hn : n ≠ 0) : (digitChars n).head? ≠ some '0' :=
  Text.head?_toDigits (Nat.pos_of_ne_zero hn)

theorem getLast?_digitChars {n : Nat} (hn : n % 10 ≠ 0) : (digitChars n).getLast? ≠ some '0' := by
  rw [digitChars, Text.getLast?_toDigits, ne_eq, Option.some.injEq, Nat.digitChar_eq_zero]
  exact hn

theorem digitChars_ne_nil (n : Nat) : digitChars n ≠ [] := Nat.toDigits_ne_nil

/-! ## The three positional shapes -/

section Positional

variable {d : Digits}

theorem positional_zero : positional ⟨0, 0⟩ = ['0'] := rfl

/-- Below one: a zero, the point, `-point` zeros and the digits. -/
theorem positional_of_nonpos (hd : d.digits ≠ 0) (hp : d.point ≤ 0) :
    positional d =
      '0' :: '.' :: (List.replicate (-d.point).toNat '0' ++ digitChars d.digits) := by
  have hpos : 0 < (digitChars d.digits).length := digitCount_pos d.digits
  unfold positional
  simp only [hd, if_false]
  rw [if_neg (not_lt.2 hp), if_neg (by omega), map_range_frac_of_nonpos _ hp]
  rfl

/-- With the point inside the digits: the digits before it, the point, the digits after. -/
theorem positional_of_lt (hd : d.digits ≠ 0) (hp : 0 < d.point)
    (hlt : d.point < (digitChars d.digits).length) :
    positional d = (digitChars d.digits).take d.point.toNat ++
      '.' :: (digitChars d.digits).drop d.point.toNat := by
  unfold positional
  simp only [hd, if_false]
  rw [if_pos hp, if_neg (by omega), map_range_getD, map_range_frac_of_nonneg _ hp.le,
    show d.point.toNat - (digitChars d.digits).length = 0 by omega, List.replicate_zero,
    List.append_nil, List.append_assoc, List.singleton_append]

/-- With the point at or after the last digit: the digits and zeros up to the point. -/
theorem positional_of_ge (hd : d.digits ≠ 0) (hle : ((digitChars d.digits).length : Int) ≤ d.point) :
    positional d = digitChars d.digits ++
      List.replicate (d.point.toNat - (digitChars d.digits).length) '0' := by
  have hpos : 0 < (digitChars d.digits).length := digitCount_pos d.digits
  unfold positional
  simp only [hd, if_false]
  rw [if_pos (by omega), if_pos (by omega), map_range_getD,
    List.take_of_length_le (by omega)]

/-- The point is written exactly when digits stand after it. -/
theorem dot_mem_positional_iff (hd : d.digits ≠ 0) :
    '.' ∈ positional d ↔ d.point < (digitChars d.digits).length := by
  have hpos : 0 < (digitChars d.digits).length := digitCount_pos d.digits
  by_cases hp : d.point ≤ 0
  · rw [positional_of_nonpos hd hp]
    exact ⟨fun _ => by omega, fun _ => List.mem_cons_of_mem _ List.mem_cons_self⟩
  · by_cases hlt : d.point < (digitChars d.digits).length
    · rw [positional_of_lt hd (by omega) hlt]
      exact ⟨fun _ => hlt, fun _ => List.mem_append_right _ List.mem_cons_self⟩
    · rw [positional_of_ge hd (by omega)]
      refine ⟨fun h => ?_, fun h => absurd h hlt⟩
      rcases List.mem_append.1 h with h | h
      · exact absurd h (dot_not_mem_digitChars _)
      · exact absurd (List.eq_of_mem_replicate h) (by decide)

/-- Positional text starts with a zero below one and with the first digit otherwise. -/
theorem head?_positional (hd : d.digits ≠ 0) :
    (positional d).head? = if d.point ≤ 0 then some '0' else (digitChars d.digits).head? := by
  obtain ⟨c, rest, hcr⟩ := List.exists_cons_of_ne_nil (digitChars_ne_nil d.digits)
  by_cases hp : d.point ≤ 0
  · rw [positional_of_nonpos hd hp, if_pos hp]
    rfl
  · rw [if_neg hp, hcr]
    by_cases hlt : d.point < (digitChars d.digits).length
    · rw [positional_of_lt hd (by omega) hlt, hcr,
        show d.point.toNat = (d.point.toNat - 1) + 1 by omega, List.take_succ_cons]
      rfl
    · rw [positional_of_ge hd (by omega), hcr]
      rfl

/-- The text starts with a zero exactly below one. -/
theorem head?_positional_eq_zero_iff (hd : d.digits ≠ 0) :
    (positional d).head? = some '0' ↔ d.point ≤ 0 := by
  rw [head?_positional hd]
  by_cases hp : d.point ≤ 0
  · simp only [hp, if_true]
  · simp only [hp, if_false, iff_false]
    exact head?_digitChars hd

/-- Normal non-zero digits are read back from their positional text, within each shape: after
the leading zeros below one, around the point inside the digits, before the trailing zeros. -/
theorem positional_injective_of_ne_zero {d d' : Digits} (hd : d.digits % 10 ≠ 0)
    (hd' : d'.digits % 10 ≠ 0) (h : positional d = positional d') : d = d' := by
  have hnz : d.digits ≠ 0 := by omega
  have hnz' : d'.digits ≠ 0 := by omega
  -- the two texts have the same shape
  have hdot := (dot_mem_positional_iff hnz).symm.trans (h ▸ dot_mem_positional_iff hnz')
  have hhead := (head?_positional_eq_zero_iff hnz).symm.trans (h ▸ head?_positional_eq_zero_iff hnz')
  have hds : digitChars d.digits = digitChars d'.digits → d.digits = d'.digits :=
    Text.toDigits_injective
  by_cases hp : d.point ≤ 0
  · -- below one: the zeros after the point, then the digits
    have hp' := hhead.1 hp
    rw [positional_of_nonpos hnz hp, positional_of_nonpos hnz' hp'] at h
    obtain ⟨hk, hdigits⟩ := Text.zeros_append_cancel (head?_digitChars hnz)
      (head?_digitChars hnz') (List.cons.inj (List.cons.inj h).2).2
    exact Digits.eq_of_fields (hds hdigits) (by omega)
  · have hp' : ¬ d'.point ≤ 0 := fun h' => hp (hhead.2 h')
    by_cases hlt : d.point < (digitChars d.digits).length
    · -- the point inside the digits: the digits before and after it
      have hlt' := hdot.1 hlt
      rw [positional_of_lt hnz (by omega) hlt, positional_of_lt hnz' (by omega) hlt'] at h
      obtain ⟨htake, hdrop⟩ := Text.append_cons_cancel
        (fun hm => dot_not_mem_digitChars _ (List.mem_of_mem_take hm))
        (fun hm => dot_not_mem_digitChars _ (List.mem_of_mem_take hm)) h
      have hdigits : digitChars d.digits = digitChars d'.digits := by
        rw [← List.take_append_drop d.point.toNat (digitChars d.digits), htake, hdrop,
          List.take_append_drop]
      have hlen := congrArg List.length htake
      simp only [List.length_take] at hlen
      exact Digits.eq_of_fields (hds hdigits) (by omega)
    · -- the point after the digits: the trailing zeros, read from the end
      have hlt' : ¬ d'.point < (digitChars d'.digits).length := fun h' => hlt (hdot.2 h')
      rw [positional_of_ge hnz (by omega), positional_of_ge hnz' (by omega)] at h
      have hrev := congrArg List.reverse h
      simp only [List.reverse_append, List.reverse_replicate] at hrev
      obtain ⟨hk, hdigits⟩ := Text.zeros_append_cancel
        (by rw [List.head?_reverse]; exact getLast?_digitChars hd)
        (by rw [List.head?_reverse]; exact getLast?_digitChars hd') hrev
      have hdigits' := List.reverse_inj.1 hdigits
      have hlen := congrArg List.length hdigits'
      exact Digits.eq_of_fields (hds hdigits') (by omega)

/-- Normal digits are read back from their positional text. -/
theorem positional_injective {d d' : Digits} (hd : d.Normal) (hd' : d'.Normal)
    (h : positional d = positional d') : d = d' := by
  -- zero is written `0`: no point, a leading zero, which no other digits write
  have hzero : ∀ {d : Digits}, d.digits % 10 ≠ 0 → positional d ≠ positional ⟨0, 0⟩ := by
    intro d hd heq
    have hnz : d.digits ≠ 0 := by omega
    have hdot := dot_mem_positional_iff hnz
    have hhead := head?_positional_eq_zero_iff hnz
    have hpos : 0 < (digitChars d.digits).length := digitCount_pos d.digits
    rw [heq, positional_zero] at hdot hhead
    have hp := hhead.1 rfl
    exact absurd (hdot.2 (by omega)) (by decide)
  rcases hd with hd | rfl <;> rcases hd' with hd' | rfl
  · exact positional_injective_of_ne_zero hd hd' h
  · exact absurd h (hzero hd)
  · exact absurd h.symm (hzero hd')
  · rfl

end Positional

/-! ## Scientific text -/

section Scientific

variable {d : Digits}

/-- The exponent's digits spell its magnitude, with or without the leading zero of a one-digit
exponent. -/
theorem ofDigitChars_exponent (mag : Nat) :
    Nat.ofDigitChars 10
      (if mag < 10 then ['0', Char.ofNat (48 + mag)] else digitChars mag) 0 = mag := by
  have hsmall : ∀ k < 10, Nat.ofDigitChars 10 ['0', Char.ofNat (48 + k)] 0 = k := by decide
  split
  · exact hsmall mag ‹_›
  · exact Nat.ofDigitChars_ten_toDigits

/-- Scientific text of non-zero digits: the first digit, the point and the other digits if
there are any, then `e`, the sign and the digits of the exponent. -/
theorem scientific_of_ne_zero (hd : d.digits ≠ 0) :
    ∃ c rest, digitChars d.digits = c :: rest ∧
      scientific d = c :: ((if rest = [] then [] else '.' :: rest) ++
        'e' :: (if d.point - 1 < 0 then '-' else '+') ::
          (if (d.point - 1).natAbs < 10 then ['0', Char.ofNat (48 + (d.point - 1).natAbs)]
            else digitChars (d.point - 1).natAbs)) := by
  obtain ⟨c, rest, hcr⟩ := List.exists_cons_of_ne_nil (digitChars_ne_nil d.digits)
  refine ⟨c, rest, hcr, ?_⟩
  unfold scientific
  simp only [hd, if_false, hcr]
  cases rest <;> simp

theorem e_mem_scientific (hd : d.digits ≠ 0) : 'e' ∈ scientific d := by
  obtain ⟨c, rest, -, hs⟩ := scientific_of_ne_zero hd
  rw [hs]
  exact List.mem_cons_of_mem _ (List.mem_append_right _ List.mem_cons_self)

/-- Normal non-zero digits are read back from their scientific text: the digits up to the `e`,
then the exponent from its sign and digits. -/
theorem scientific_injective {d d' : Digits} (hd : d.digits % 10 ≠ 0) (hd' : d'.digits % 10 ≠ 0)
    (h : scientific d = scientific d') : d = d' := by
  obtain ⟨c, rest, hcr, hs⟩ := scientific_of_ne_zero (show d.digits ≠ 0 by omega)
  obtain ⟨c', rest', hcr', hs'⟩ := scientific_of_ne_zero (show d'.digits ≠ 0 by omega)
  rw [hs, hs'] at h
  obtain ⟨rfl, hafter⟩ := List.cons.inj h
  -- the digits after the first hold no `e`, and neither does the point
  have hnoe : ∀ {n : Nat} {rest : List Char}, digitChars n = c :: rest →
      'e' ∉ (if rest = [] then [] else '.' :: rest) := by
    intro n rest hr hm
    split at hm
    · exact absurd hm List.not_mem_nil
    · rcases List.mem_cons.1 hm with hm | hm
      · exact absurd hm (by decide)
      · exact e_not_mem_digitChars n (hr ▸ List.mem_cons_of_mem _ hm)
  obtain ⟨htail, hexp⟩ := Text.append_cons_cancel (hnoe hcr) (hnoe hcr') hafter
  have hrest : rest = rest' := by
    by_cases h0 : rest = [] <;> by_cases h0' : rest' = [] <;>
      simp only [h0, h0', if_true, if_false, List.cons.injEq, true_and] at htail
    · rw [h0, h0']
    · exact absurd htail (by simp)
    · exact absurd htail (by simp)
    · exact htail
  have hdigits : d.digits = d'.digits :=
    Text.toDigits_injective (show digitChars d.digits = digitChars d'.digits by rw [hcr, hcr', hrest])
  -- the exponent: its sign and the number its digits spell
  obtain ⟨hsign, hexpDigits⟩ := List.cons.inj hexp
  have hmag := congrArg (fun l => Nat.ofDigitChars 10 l 0) hexpDigits
  simp only [ofDigitChars_exponent] at hmag
  have hx : d.point - 1 = d'.point - 1 := by
    by_cases hneg : d.point - 1 < 0 <;> by_cases hneg' : d'.point - 1 < 0 <;>
      simp only [hneg, hneg', if_true, if_false] at hsign
    · omega
    · exact absurd hsign (by decide)
    · exact absurd hsign (by decide)
    · omega
  exact Digits.eq_of_fields hdigits (by omega)

end Scientific

/-! ## The general layout -/

section Layout

variable {d : Digits}

/-- Every character of positional text is a digit of the number, a padding zero or the point. -/
theorem mem_positional {c : Char} (hd : d.digits ≠ 0) (hc : c ∈ positional d) :
    c ∈ digitChars d.digits ∨ c = '0' ∨ c = '.' := by
  by_cases hp : d.point ≤ 0
  · rw [positional_of_nonpos hd hp] at hc
    simp only [List.mem_cons, List.mem_append, List.mem_replicate] at hc
    rcases hc with hc | hc | hc | hc
    · exact Or.inr (Or.inl hc)
    · exact Or.inr (Or.inr hc)
    · exact Or.inr (Or.inl hc.2)
    · exact Or.inl hc
  · by_cases hlt : d.point < (digitChars d.digits).length
    · rw [positional_of_lt hd (by omega) hlt] at hc
      simp only [List.mem_append, List.mem_cons] at hc
      rcases hc with hc | hc | hc
      · exact Or.inl (List.mem_of_mem_take hc)
      · exact Or.inr (Or.inr hc)
      · exact Or.inl (List.mem_of_mem_drop hc)
    · rw [positional_of_ge hd (by omega)] at hc
      simp only [List.mem_append, List.mem_replicate] at hc
      rcases hc with hc | hc
      · exact Or.inl hc
      · exact Or.inr (Or.inl hc.2)

theorem e_not_mem_positional (hd : d.Normal) : 'e' ∉ positional d := by
  rcases hd with hd | rfl
  · intro he
    rcases mem_positional (show d.digits ≠ 0 by omega) he with he | he | he
    · exact e_not_mem_digitChars _ he
    · exact absurd he (by decide)
    · exact absurd he (by decide)
  · decide

/-- The layout of the key of a finite value: scientific for decimal exponents below -4 or from
6 on, positional otherwise. -/
def layout (d : Digits) : List Char :=
  if d.digits ≠ 0 ∧ (d.point - 1 < -4 ∨ 6 ≤ d.point - 1) then scientific d else positional d

theorem general_finite (f : Format) (neg : Bool) (mant : Nat) (exp : Int) :
    general f (.finite neg mant exp) =
      String.ofList (if neg then '-' :: layout (shortest f mant exp)
        else layout (shortest f mant exp)) := rfl

/-- Normal digits are read back from their layout: scientific text holds an `e`, positional
text none. -/
theorem layout_injective {d d' : Digits} (hd : d.Normal) (hd' : d'.Normal)
    (h : layout d = layout d') : d = d' := by
  unfold layout at h
  split_ifs at h with hs hs' hs'
  · exact scientific_injective (hd.resolve_right fun h0 => hs.1 (by rw [h0]))
      (hd'.resolve_right fun h0 => hs'.1 (by rw [h0])) h
  · exact absurd (h ▸ e_mem_scientific hs.1) (e_not_mem_positional hd')
  · exact absurd (h ▸ e_mem_scientific hs'.1) (e_not_mem_positional hd)
  · exact positional_injective hd hd' h

/-- The layout of normal digits starts with a digit. -/
theorem head?_layout (hd : d.Normal) : ∃ c, (layout d).head? = some c ∧ c.isDigit := by
  unfold layout
  split_ifs with hs
  · obtain ⟨c, rest, hcr, hsci⟩ := scientific_of_ne_zero hs.1
    exact ⟨c, by rw [hsci, List.head?_cons], Nat.isDigit_of_mem_toDigits (by decide) (by decide)
      (show c ∈ digitChars d.digits by rw [hcr]; exact List.mem_cons_self)⟩
  · rcases hd with hd | rfl
    · -- a zero below one, the first digit otherwise
      have hnz : d.digits ≠ 0 := by omega
      obtain ⟨c, rest, hcr⟩ := List.exists_cons_of_ne_nil (digitChars_ne_nil d.digits)
      rw [head?_positional hnz, hcr]
      split
      · exact ⟨'0', rfl, rfl⟩
      · exact ⟨c, rfl, Nat.isDigit_of_mem_toDigits (by decide) (by decide)
          (show c ∈ digitChars d.digits by rw [hcr]; exact List.mem_cons_self)⟩
    · exact ⟨'0', rfl, rfl⟩

theorem layout_eq_cons (hd : d.Normal) : ∃ c rest, layout d = c :: rest ∧ c.isDigit := by
  obtain ⟨c, hc, hdig⟩ := head?_layout hd
  obtain ⟨rest, hrest⟩ : ∃ rest, layout d = c :: rest := by
    cases hl : layout d with
    | nil => rw [hl] at hc; exact absurd hc (by simp)
    | cons c' rest =>
      rw [hl, List.head?_cons, Option.some.injEq] at hc
      exact ⟨rest, by rw [hc]⟩
  exact ⟨c, rest, hrest, hdig⟩

/-- A sign, when there is one, and a layout: the sign is told from the first character, which
otherwise is a digit. -/
theorem signed_layout_cancel {neg neg' : Bool} {d d' : Digits} (hd : d.Normal) (hd' : d'.Normal)
    (h : (if neg then '-' :: layout d else layout d) = (if neg' then '-' :: layout d' else layout d')) :
    neg = neg' ∧ d = d' := by
  obtain ⟨c, rest, hl, hdig⟩ := layout_eq_cons hd
  obtain ⟨c', rest', hl', hdig'⟩ := layout_eq_cons hd'
  cases neg <;> cases neg' <;> simp only [Bool.false_eq_true, if_true, if_false] at h
  · exact ⟨rfl, layout_injective hd hd' h⟩
  · rw [hl] at h
    obtain ⟨rfl, -⟩ := List.cons.inj h
    exact absurd hdig (by decide)
  · rw [hl'] at h
    obtain ⟨rfl, -⟩ := List.cons.inj h
    exact absurd hdig' (by decide)
  · exact ⟨rfl, layout_injective hd hd' (List.cons.inj h).2⟩

end Layout

/-! ## Float keys -/

/-- Two floats written alike: both not a number, infinities of one sign, or finite values of
one sign with the same shortest digits. -/
def WrittenAlike (f : Format) (v : Value) (f' : Format) (v' : Value) : Prop :=
  match v, v' with
  | .nan, .nan => True
  | .inf neg, .inf neg' => neg = neg'
  | .finite neg m e, .finite neg' m' e' => neg = neg' ∧ shortest f m e = shortest f' m' e'
  | _, _ => False

section Keys

variable {f f' : Format} {neg neg' : Bool} {m m' : Nat} {e e' : Int}

/-- A finite value is not written as not-a-number: its text starts with a sign or a digit. -/
theorem general_finite_ne_nan : general f (.finite neg m e) ≠ general f' .nan := by
  obtain ⟨c, rest, hl, hdig⟩ := layout_eq_cons (shortest_normal f m e)
  intro h
  have hchars := congrArg String.toList h
  have hnan : (general f' .nan).toList = ['N', 'a', 'N'] := by simp [general]
  rw [general_finite, hl, hnan] at hchars
  cases neg <;> simp only [Bool.false_eq_true, if_true, if_false, String.toList_ofList] at hchars
  · obtain ⟨rfl, -⟩ := List.cons.inj hchars
    exact absurd hdig (by decide)
  · exact absurd (List.cons.inj hchars).1 (by decide)

/-- A finite value is not written as an infinity. -/
theorem general_finite_ne_inf : general f (.finite neg m e) ≠ general f' (.inf neg') := by
  obtain ⟨c, rest, hl, hdig⟩ := layout_eq_cons (shortest_normal f m e)
  intro h
  have hchars := congrArg String.toList h
  have hinf : (general f' (.inf neg')).toList = if neg' then ['-', 'I', 'n', 'f'] else ['+', 'I', 'n', 'f'] := by
    cases neg' <;> simp [general]
  rw [general_finite, hl, hinf] at hchars
  cases neg <;> cases neg' <;>
    simp only [Bool.false_eq_true, if_true, if_false, String.toList_ofList] at hchars
  · obtain ⟨rfl, -⟩ := List.cons.inj hchars
    exact absurd hdig (by decide)
  · obtain ⟨rfl, -⟩ := List.cons.inj hchars
    exact absurd hdig (by decide)
  · exact absurd (List.cons.inj hchars).1 (by decide)
  · obtain ⟨rfl, -⟩ := List.cons.inj (List.cons.inj hchars).2
    exact absurd hdig (by decide)

/-- Two floats have the same text exactly when they are written alike. -/
theorem general_eq_iff {v v' : Value} : general f v = general f' v' ↔ WrittenAlike f v f' v' := by
  constructor
  · intro h
    cases v with
    | nan =>
      cases v' with
      | nan => trivial
      | inf neg' => cases neg' <;> simp [general] at h
      | finite neg' m' e' => exact general_finite_ne_nan h.symm
    | inf neg =>
      cases v' with
      | nan => cases neg <;> simp [general] at h
      | inf neg' => cases neg <;> cases neg' <;> simp [general, WrittenAlike] at h ⊢
      | finite neg' m' e' => exact general_finite_ne_inf h.symm
    | finite neg m e =>
      cases v' with
      | nan => exact general_finite_ne_nan h
      | inf neg' => exact general_finite_ne_inf h
      | finite neg' m' e' =>
        rw [general_finite, general_finite] at h
        exact signed_layout_cancel (shortest_normal f m e) (shortest_normal f' m' e')
          (String.ofList_injective h)
  · intro h
    cases v <;> cases v' <;> simp only [WrittenAlike] at h
    · rfl
    · subst h
      rfl
    · obtain ⟨rfl, hd⟩ := h
      rw [general_finite, general_finite, hd]

/-- Within one format, two values the format holds have the same text exactly when they are
the same value: the sign of a zero counts, and not-a-number is written alike. -/
theorem general_eq_iff_eq {v v' : Value} (hv : v.Valid f) (hv' : v'.Valid f) :
    general f v = general f v' ↔ v = v' := by
  rw [general_eq_iff]
  constructor
  · intro h
    cases v <;> cases v' <;> simp only [WrittenAlike] at h
    · rfl
    · rw [h]
    · obtain ⟨rfl, hd⟩ := h
      obtain ⟨rfl, rfl⟩ := shortest_injective hv hv' hd
      rfl
  · rintro rfl
    cases v <;> simp [WrittenAlike]

end Keys

end EntityIndex.FloatText
