/-!
# Reading fields back out of text

Written values are fields laid side by side: runs of digits, separators, padding zeros. The
lemmas here cut such text back into its fields: at a separator that no field before it holds
(`append_cons_cancel`), and after a run of padding zeros when what follows does not start with
a zero (`zeros_append_cancel`). Leading zeros add nothing to the number a field spells
(`ofDigitChars_zeros_append`), and the decimal digits of a positive number neither start nor,
when it is not a multiple of ten, end with a zero.
-/

namespace EntityIndex.Text

/-- Text cut at the first occurrence of a separator: the parts before and after it. -/
theorem append_cons_cancel {α : Type} {c : α} : ∀ {l l' r r' : List α}, c ∉ l → c ∉ l' →
    l ++ c :: r = l' ++ c :: r' → l = l' ∧ r = r'
  | [], [], _, _, _, _, h => ⟨rfl, (List.cons.inj h).2⟩
  | [], a :: _, _, _, _, hl', h => absurd ((List.cons.inj h).1 ▸ List.mem_cons_self) hl'
  | a :: _, [], _, _, hl, _, h => absurd ((List.cons.inj h).1 ▸ List.mem_cons_self) hl
  | a :: l, a' :: l', _, _, hl, hl', h => by
    obtain ⟨rfl, htail⟩ := List.cons.inj h
    obtain ⟨rfl, rfl⟩ := append_cons_cancel (List.not_mem_of_not_mem_cons hl)
      (List.not_mem_of_not_mem_cons hl') htail
    exact ⟨rfl, rfl⟩

/-- A run of padding zeros ends where the text after it starts with another character. -/
theorem zeros_append_cancel : ∀ {k k' : Nat} {l l' : List Char}, l.head? ≠ some '0' →
    l'.head? ≠ some '0' →
    List.replicate k '0' ++ l = List.replicate k' '0' ++ l' → k = k' ∧ l = l'
  | 0, 0, _, _, _, _, h => ⟨rfl, h⟩
  | 0, _ + 1, l, _, hl, _, h => by
    have hl0 : l = _ := h
    rw [hl0] at hl
    exact absurd rfl hl
  | _ + 1, 0, _, l', _, hl', h => by
    have hl0 : l' = _ := h.symm
    rw [hl0] at hl'
    exact absurd rfl hl'
  | k + 1, k' + 1, _, _, hl, hl', h => by
    obtain ⟨hk, hrest⟩ := zeros_append_cancel hl hl' (List.cons.inj h).2
    exact ⟨by rw [hk], hrest⟩

/-- Leading zeros add nothing to the number a field of digits spells. -/
theorem ofDigitChars_zeros_append (k : Nat) (l : List Char) :
    Nat.ofDigitChars 10 (List.replicate k '0' ++ l) 0 = Nat.ofDigitChars 10 l 0 := by
  induction k with
  | zero => rfl
  | succ k ih => rw [List.replicate_succ, List.cons_append, Nat.ofDigitChars_cons]; exact ih

/-! ## Decimal digits -/

theorem toDigits_injective {n n' : Nat} (h : Nat.toDigits 10 n = Nat.toDigits 10 n') : n = n' := by
  have hread := congrArg (fun ds => Nat.ofDigitChars 10 ds 0) h
  simpa only [Nat.ofDigitChars_ten_toDigits] using hread

/-- The last digit of a number is the digit of its remainder by ten. -/
theorem getLast?_toDigits (n : Nat) :
    (Nat.toDigits 10 n).getLast? = some (Nat.digitChar (n % 10)) := by
  rw [Nat.toDigits_eq_if (by decide)]
  split
  · rename_i h
    rw [Nat.mod_eq_of_lt h]
    rfl
  · rw [List.getLast?_append, List.getLast?_singleton, Option.some_or]

/-- A positive number is written without a leading zero. -/
theorem head?_toDigits {n : Nat} (hn : 0 < n) : (Nat.toDigits 10 n).head? ≠ some '0' := by
  induction n using Nat.strongRecOn with
  | ind n ih =>
    rw [Nat.toDigits_eq_if (by decide)]
    split
    · rw [List.head?_singleton, ne_eq, Option.some.injEq, Nat.digitChar_eq_zero]
      omega
    · rename_i h
      -- the leading digit is that of the number without its last digit
      have hih := ih (n / 10) (by omega) (by omega)
      obtain ⟨c, rest, hcr⟩ := List.exists_cons_of_ne_nil (Nat.toDigits_ne_nil (b := 10) (n := n / 10))
      rw [hcr, List.head?_cons] at hih
      rw [hcr, List.cons_append, List.head?_cons]
      exact hih

end EntityIndex.Text
