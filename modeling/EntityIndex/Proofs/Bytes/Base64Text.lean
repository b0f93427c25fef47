import EntityIndex.Bytes.Base64

/-!
# Base64 text determines its bytes

Each six-bit value has a symbol of its own (`symbolValue_symbol`), and a group of three bytes is a
24-bit number whose four six-bit digits are written in order; a final group of one or two bytes
writes the leading two or three digits of the same number. Reading the digits back recovers every
group, and a group of three bytes writes four symbols where a final group writes fewer, so the
groups of two texts line up: `Base64.encode` is injective.
-/

namespace EntityIndex.Base64

/-- The six-bit value of a symbol of the standard alphabet. -/
def symbolValue (c : Char) : Nat :=
  if 'A' ≤ c ∧ c ≤ 'Z' then c.toNat - 65
  else if 'a' ≤ c ∧ c ≤ 'z' then c.toNat - 97 + 26
  else if '0' ≤ c ∧ c ≤ '9' then c.toNat - 48 + 52
  else if c = '+' then 62 else 63

theorem symbolValue_symbol_of_lt : ∀ n < 64, symbolValue (symbol n) = n := by decide

/-- A symbol gives back its value modulo 64, the digit it was written for. -/
theorem symbolValue_symbol (n : Nat) : symbolValue (symbol n) = n % 64 := by
  have hsym : symbol n = symbol (n % 64) := by simp only [symbol, Nat.mod_mod]
  rw [hsym, symbolValue_symbol_of_lt _ (Nat.mod_lt _ (by decide))]

theorem mod_eq_of_symbol_eq {n n' : Nat} (h : symbol n = symbol n') : n % 64 = n' % 64 := by
  rw [← symbolValue_symbol, ← symbolValue_symbol, h]

/-- Three bytes are read back from the four digits of their 24-bit number. -/
theorem triple_eq {a b c a' b' c' : UInt8}
    (h1 : (a.toNat * 65536 + b.toNat * 256 + c.toNat) / 262144 % 64 =
      (a'.toNat * 65536 + b'.toNat * 256 + c'.toNat) / 262144 % 64)
    (h2 : (a.toNat * 65536 + b.toNat * 256 + c.toNat) / 4096 % 64 =
      (a'.toNat * 65536 + b'.toNat * 256 + c'.toNat) / 4096 % 64)
    (h3 : (a.toNat * 65536 + b.toNat * 256 + c.toNat) / 64 % 64 =
      (a'.toNat * 65536 + b'.toNat * 256 + c'.toNat) / 64 % 64)
    (h4 : (a.toNat * 65536 + b.toNat * 256 + c.toNat) % 64 =
      (a'.toNat * 65536 + b'.toNat * 256 + c'.toNat) % 64) :
    a = a' ∧ b = b' ∧ c = c' := by
  have ha := a.toNat_lt
  have hb := b.toNat_lt
  have hc := c.toNat_lt
  have ha' := a'.toNat_lt
  have hb' := b'.toNat_lt
  have hc' := c'.toNat_lt
  refine ⟨UInt8.toNat_inj.1 ?_, UInt8.toNat_inj.1 ?_, UInt8.toNat_inj.1 ?_⟩ <;> omega

/-- The groups of two texts line up, and each pair of groups holds the same bytes. -/
theorem encodeChars_injective : ∀ {l l' : List UInt8}, encodeChars l = encodeChars l' → l = l'
  | [], l', h => by
    match l' with
    | [] => rfl
    | [_] | [_, _] | _ :: _ :: _ :: _ => simp [encodeChars] at h
  | [a], l', h => by
    match l' with
    | [a'] =>
      simp only [encodeChars, List.cons.injEq, and_true] at h
      have h1 := mod_eq_of_symbol_eq h.1
      have h2 := mod_eq_of_symbol_eq h.2
      have ha := a.toNat_lt
      have ha' := a'.toNat_lt
      have haa : a = a' := UInt8.toNat_inj.1 (by omega)
      rw [haa]
    | [] | [_, _] | _ :: _ :: _ :: _ => simp [encodeChars] at h
  | [a, b], l', h => by
    match l' with
    | [a', b'] =>
      simp only [encodeChars, List.cons.injEq, and_true] at h
      have h1 := mod_eq_of_symbol_eq h.1
      have h2 := mod_eq_of_symbol_eq h.2.1
      have h3 := mod_eq_of_symbol_eq h.2.2
      have ha := a.toNat_lt
      have hb := b.toNat_lt
      have ha' := a'.toNat_lt
      have hb' := b'.toNat_lt
      have haa : a = a' := UInt8.toNat_inj.1 (by omega)
      have hbb : b = b' := UInt8.toNat_inj.1 (by omega)
      rw [haa, hbb]
    | [] | [_] | _ :: _ :: _ :: _ => simp [encodeChars] at h
  | a :: b :: c :: r, l', h => by
    match l' with
    | a' :: b' :: c' :: r' =>
      simp only [encodeChars, List.cons.injEq] at h
      obtain ⟨h1, h2, h3, h4, hr⟩ := h
      obtain ⟨rfl, rfl, rfl⟩ := triple_eq (mod_eq_of_symbol_eq h1) (mod_eq_of_symbol_eq h2)
        (mod_eq_of_symbol_eq h3) (mod_eq_of_symbol_eq h4)
      rw [encodeChars_injective hr]
    | [] | [_] | [_, _] => simp [encodeChars] at h

/-- Unpadded base64 text determines the bytes it was written from. -/
theorem encode_injective {b b' : List UInt8} (h : encode b = encode b') : b = b' := by
  unfold encode at h
  exact encodeChars_injective (String.ofList_injective h)

end EntityIndex.Base64
