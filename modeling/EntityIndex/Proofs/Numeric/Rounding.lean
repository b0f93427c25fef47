import EntityIndex.Proofs.Numeric.Shortest

/-!
# Rounding intervals do not overlap

A magnitude of a binary format owns the numbers between the halfway points to its neighbours,
each point going to the neighbour with the even mantissa (`RoundsTo`). For the magnitudes a
format holds (`Format.Holds`: the exponent in range, the mantissa normal above the least
exponent), these intervals do not overlap: the halfway point above a smaller magnitude is at
most the one below a larger (`upperBound_le_lowerBound`), and where the two meet one of the
mantissas is odd, so the point goes to one side only. Hence no number rounds to two magnitudes
(`roundsTo_unique`), and since shortest digits round to their magnitude, distinct magnitudes
have distinct shortest digits (`shortest_injective`).
-/

namespace EntityIndex.Binary

/-- The format holds the magnitude `mant * 2^exp` as it stores it: the exponent in range, the
mantissa below twice the hidden bit, and at least the hidden bit unless the exponent is the
least one. -/
structure Format.Holds (f : Format) (mant : Nat) (exp : Int) : Prop where
  minExp_le : f.minExp ≤ exp
  le_maxExp : exp ≤ f.maxExp
  lt_twice : mant < 2 * f.hidden
  normal : f.hidden ≤ mant ∨ exp = f.minExp

/-- A value a format holds: a finite value as `Format.Holds` says, or an infinity, or not a
number. -/
def Value.Valid (f : Format) : Value → Prop
  | .finite _ mant exp => f.Holds mant exp
  | _ => True

variable {f : Format} {m m' : Nat} {e e' : Int}

/-- A power of two, doubled, is at most any power of two with a larger exponent. -/
theorem two_zpow_mul_two_le {a b : Int} (h : a < b) : (2 : ℚ) ^ a * 2 ≤ 2 ^ b := by
  rw [← zpow_add_one₀ (by norm_num)]
  exact zpow_le_zpow_right₀ (by norm_num) (by omega)

theorem Format.hidden_pos (f : Format) : 0 < f.hidden := by
  unfold Format.hidden
  rw [Nat.pow_eq]
  exact Nat.pow_pos (by decide)

/-- Above the least exponent every magnitude a format holds is normal. -/
theorem Format.Holds.hidden_le (h : f.Holds m e) (he : f.minExp < e) : f.hidden ≤ m :=
  h.normal.resolve_right (by omega)

/-- Of two magnitudes a format holds, the one with the smaller exponent is the smaller. -/
theorem magnitude_lt_of_exp_lt (h : f.Holds m e) (h' : f.Holds m' e') (he : e < e') :
    (m : ℚ) * 2 ^ e < m' * 2 ^ e' := by
  have hm : (m : ℚ) + 1 ≤ 2 * f.hidden := by exact_mod_cast h.lt_twice
  have hm' : (f.hidden : ℚ) ≤ m' := by exact_mod_cast h'.hidden_le (by linarith [h.minExp_le])
  have hpow : (2 : ℚ) ^ e * 2 ≤ 2 ^ e' := two_zpow_mul_two_le he
  have hpos : (0 : ℚ) < 2 ^ e := by positivity
  calc (m : ℚ) * 2 ^ e < 2 * f.hidden * 2 ^ e := by nlinarith
    _ = f.hidden * (2 ^ e * 2) := by ring
    _ ≤ m' * 2 ^ e' := by
      apply mul_le_mul hm' hpow (by positivity) (by positivity)

/-- A format holds each magnitude in one way only. -/
theorem eq_of_magnitude_eq (h : f.Holds m e) (h' : f.Holds m' e')
    (heq : (m : ℚ) * 2 ^ e = m' * 2 ^ e') : m = m' ∧ e = e' := by
  rcases lt_trichotomy e e' with he | rfl | he
  · exact absurd heq (ne_of_lt (magnitude_lt_of_exp_lt h h' he))
  · have hpos : (0 : ℚ) < 2 ^ e := by positivity
    exact ⟨by exact_mod_cast mul_right_cancel₀ (ne_of_gt hpos) heq, rfl⟩
  · exact absurd heq (ne_of_gt (magnitude_lt_of_exp_lt h' h he))

/-- Between two magnitudes a format holds, the halfway point above the smaller is at most the
halfway point below the larger, and the two meet only where one of the mantissas is odd. -/
theorem upperBound_le_lowerBound (h : f.Holds m e) (h' : f.Holds m' e')
    (hlt : (m : ℚ) * 2 ^ e < m' * 2 ^ e') :
    upperBound m e ≤ lowerBound f m' e' ∧
      (upperBound m e = lowerBound f m' e' → m % 2 = 1 ∨ m' % 2 = 1) := by
  unfold upperBound lowerBound
  have hQ : (0 : ℚ) < 2 ^ (e - 1) := by positivity
  have hm : (2 * m + 1 : ℚ) ≤ 4 * f.hidden - 1 := by
    have : (m : ℚ) + 1 ≤ 2 * f.hidden := by exact_mod_cast h.lt_twice
    linarith
  rcases lt_trichotomy e e' with he | rfl | he
  · -- the larger exponent holds a normal mantissa
    have hn' := h'.hidden_le (by linarith [h.minExp_le])
    by_cases hA : f.hidden < m' ∨ e' = f.minExp
    · rw [if_pos hA]
      have hA' : f.hidden < m' := hA.resolve_right (by linarith [h.minExp_le])
      have h2 : (2 * f.hidden + 1 : ℚ) ≤ 2 * m' - 1 := by
        have : (f.hidden : ℚ) + 1 ≤ m' := by exact_mod_cast hA'
        linarith
      have hpow : (2 : ℚ) ^ (e - 1) * 2 ≤ 2 ^ (e' - 1) := two_zpow_mul_two_le (by omega)
      have hlt' : (2 * m + 1 : ℚ) * 2 ^ (e - 1) < (2 * m' - 1) * 2 ^ (e' - 1) :=
        calc (2 * m + 1 : ℚ) * 2 ^ (e - 1) ≤ (4 * f.hidden - 1) * 2 ^ (e - 1) :=
              mul_le_mul_of_nonneg_right hm hQ.le
          _ < (2 * f.hidden + 1) * (2 ^ (e - 1) * 2) := by nlinarith
          _ ≤ (2 * m' - 1) * 2 ^ (e' - 1) :=
              mul_le_mul h2 hpow (by positivity) (by linarith)
      exact ⟨hlt'.le, fun heq => absurd heq (ne_of_lt hlt')⟩
    · -- the larger is the first of its binade: the halfway points may meet
      rw [if_neg hA]
      have hmid : m' = f.hidden := by omega
      subst hmid
      have hpow : (2 : ℚ) ^ (e - 1) ≤ 2 ^ (e' - 2) := zpow_le_zpow_right₀ (by norm_num) (by omega)
      have hle : (4 * f.hidden - 1 : ℚ) * 2 ^ (e - 1) ≤ (4 * f.hidden - 1) * 2 ^ (e' - 2) :=
        mul_le_mul_of_nonneg_left hpow (by linarith [(Nat.one_le_cast (α := ℚ)).2 f.hidden_pos])
      refine ⟨(mul_le_mul_of_nonneg_right hm hQ.le).trans hle, fun heq => Or.inl ?_⟩
      -- meeting forces the smaller to be the last mantissa of its binade, which is odd
      have hend : (2 * m + 1 : ℚ) * 2 ^ (e - 1) = (4 * f.hidden - 1) * 2 ^ (e - 1) :=
        le_antisymm (mul_le_mul_of_nonneg_right hm hQ.le) (heq ▸ hle)
      have hm2 : (2 * m + 1 : ℚ) = 4 * f.hidden - 1 := mul_right_cancel₀ (ne_of_gt hQ) hend
      have hm2' : 2 * m + 2 = 4 * f.hidden := by exact_mod_cast (by linarith : (2 * m + 2 : ℚ) = 4 * f.hidden)
      omega
  · -- one exponent: the mantissas are ordered
    have hmm : m < m' := by
      have := lt_of_mul_lt_mul_right hlt (by positivity)
      exact_mod_cast this
    have hle : (2 * m + 1 : ℚ) ≤ 2 * m' - 1 := by
      have : (m : ℚ) + 1 ≤ m' := by exact_mod_cast hmm
      linarith
    by_cases hA : f.hidden < m' ∨ e = f.minExp
    · rw [if_pos hA]
      refine ⟨mul_le_mul_of_nonneg_right hle hQ.le, fun heq => ?_⟩
      have hadj : (2 * m + 1 : ℚ) = 2 * m' - 1 := mul_right_cancel₀ (ne_of_gt hQ) heq
      have hadj' : m' = m + 1 := by exact_mod_cast (by linarith : (m' : ℚ) = m + 1)
      omega
    · -- at the bottom of a binade the halfway point below is nearer: strictly above
      rw [if_neg hA]
      have h2 : (2 : ℚ) ^ (e - 1) = 2 ^ (e - 2) * 2 := by
        rw [← zpow_add_one₀ (by norm_num)]
        ring_nf
      have hP : (0 : ℚ) < 2 ^ (e - 2) := by positivity
      have hlt' : (2 * m + 1 : ℚ) * 2 ^ (e - 1) < (4 * m' - 1) * 2 ^ (e - 2) := by
        rw [h2]
        nlinarith
      exact ⟨hlt'.le, fun heq => absurd heq (ne_of_lt hlt')⟩
  · exact absurd hlt (not_lt.2 (magnitude_lt_of_exp_lt h' h he).le)

/-- An odd mantissa keeps both halfway points out of its rounding interval. -/
theorem RoundsTo.strict {x : ℚ} (hx : RoundsTo f m e x) (hodd : m % 2 = 1) :
    lowerBound f m e < x ∧ x < upperBound m e := by
  simpa only [RoundsTo, Between, hodd, Nat.one_ne_zero, decide_false, Bool.false_eq_true,
    if_false] using hx

/-- Nothing rounds to two magnitudes: if a number rounded to a smaller and a larger one, it would
lie on the point where their rounding intervals meet, which goes to the even mantissa only. -/
theorem not_roundsTo_of_lt {x : ℚ} (h : f.Holds m e) (h' : f.Holds m' e')
    (hx : RoundsTo f m e x) (hx' : RoundsTo f m' e' x) : ¬ (m : ℚ) * 2 ^ e < m' * 2 ^ e' := by
  intro hlt
  obtain ⟨hle, hmeet⟩ := upperBound_le_lowerBound h h' hlt
  have hup := hx.le_le.2
  have hlo := hx'.le_le.1
  rcases hmeet (by linarith) with hodd | hodd
  · linarith [(hx.strict hodd).2]
  · linarith [(hx'.strict hodd).1]

/-- A number rounds to at most one magnitude a format holds. -/
theorem roundsTo_unique {x : ℚ} (h : f.Holds m e) (h' : f.Holds m' e')
    (hx : RoundsTo f m e x) (hx' : RoundsTo f m' e' x) : m = m' ∧ e = e' := by
  rcases lt_trichotomy ((m : ℚ) * 2 ^ e) (m' * 2 ^ e') with hlt | heq | hgt
  · exact absurd hlt (not_roundsTo_of_lt h h' hx hx')
  · exact eq_of_magnitude_eq h h' heq
  · exact absurd hgt (not_roundsTo_of_lt h' h hx' hx)

/-- Distinct magnitudes of one format have distinct shortest digits. -/
theorem shortest_injective (h : f.Holds m e) (h' : f.Holds m' e')
    (heq : shortest f m e = shortest f m' e') : m = m' ∧ e = e' := by
  -- zero is held only with the least exponent
  have hzero : ∀ {m e}, f.Holds m e → m = 0 → e = f.minExp := fun h hm =>
    h.normal.resolve_left (by rw [hm]; exact Nat.not_le.2 f.hidden_pos)
  rcases Nat.eq_zero_or_pos m with rfl | hm <;> rcases Nat.eq_zero_or_pos m' with rfl | hm'
  · exact ⟨rfl, (hzero h rfl).trans (hzero h' rfl).symm⟩
  · have := (shortest_spec f (Nat.pos_iff_ne_zero.1 hm') e').1
    rw [← heq, shortest_zero] at this
    exact absurd rfl this
  · have := (shortest_spec f (Nat.pos_iff_ne_zero.1 hm) e).1
    rw [heq, shortest_zero] at this
    exact absurd rfl this
  · have hx := (shortest_spec f (Nat.pos_iff_ne_zero.1 hm) e).2
    have hx' := (shortest_spec f (Nat.pos_iff_ne_zero.1 hm') e').2
    rw [← heq] at hx'
    exact roundsTo_unique h h' hx hx'

end EntityIndex.Binary
