import EntityIndex.Model.Key
import EntityIndex.Proofs.Numeric.FloatText
import EntityIndex.Proofs.Text.TimeText
import EntityIndex.Proofs.Bytes.Base64Text

/-!
# Keys separate values

The key of an indexed value is a two-character tag naming its class followed by the value's
text in that class (`key?_eq_tag_body`); the absent value has the empty key. Each class's text
is read back: integers from their sign and digits, floats from their sign and shortest digits,
instants from their fields, byte strings from their base64 symbols. So two values have the same
key exactly when they are of one class and alike within it, and only the absent value has the
null key (`keys_separate_values`).

Floats are alike when written alike, not when numerically equal: the key keeps the sign of a
zero, writes every not-a-number alike, and writes a 32-bit and a 64-bit float alike when their
shortest digits agree, as for the two nearest values to `0.1`
(`float_keys_split_zeros_and_join_tenths`). Within one format, values are alike exactly when
they are the same stored value.
-/

namespace EntityIndex

namespace IndexValue

/-- A value whose key the index computes from it: neither a key given as is nor a value of an
unsupported type, and well formed: an instant's nanoseconds below a second, a float one its
format holds. -/
def Keyable : IndexValue → Prop
  | .key _ | .unsupported _ => False
  | .time t => t.nanos < 10 ^ 9
  | .float f v => v.Valid f
  | _ => True

/-- Two values alike for their keys: of one class and equal within it. Integers compare by
value, instants as instants, byte strings by content and self-described values by their text.
Floats of one format compare as stored, the sign of a zero counting and not-a-number alike with
itself; floats of two formats are alike when written alike, with one sign and the same shortest
digits. -/
def Alike : IndexValue → IndexValue → Prop
  | .null, .null => True
  | .string s, .string s' => s = s'
  | .bool b, .bool b' => b = b'
  | .int v, .int v' => v = v'
  | .uint v, .uint v' => v = v'
  | .float f v, .float f' v' => if f = f' then v = v' else FloatText.WrittenAlike f v f' v'
  | .time t, .time t' => t = t'
  | .bytes b, .bytes b' => b = b'
  | .described s, .described s' => s = s'
  | _, _ => False

/-- The tag that starts the keys of a class of values; the absent value has none. -/
def tag : IndexValue → List Char
  | .string _ => ['s', ':']
  | .bool _ => ['b', ':']
  | .int _ => ['i', ':']
  | .uint _ => ['u', ':']
  | .float _ _ => ['f', ':']
  | .time _ => ['t', ':']
  | .bytes _ => ['y', ':']
  | .described _ => ['x', ':']
  | _ => []

/-- The text of a value after the tag of its key. -/
def body : IndexValue → List Char
  | .string s => s.toList
  | .bool b => if b then "true".toList else "false".toList
  | .int v => if v < 0 then '-' :: Nat.toDigits 10 v.natAbs else Nat.toDigits 10 v.toNat
  | .uint v => Nat.toDigits 10 v
  | .float f v => (FloatText.general f v).toList
  | .time t => (Time.formatUtc t).toList
  | .bytes b => (Base64.encode b).toList
  | .described s => s.toList
  | _ => []

variable {x y : IndexValue}

/-- The key of a keyable value is its tag followed by its text. -/
theorem key?_eq_tag_body (hx : x.Keyable) : x.key? = .ok ⟨String.ofList (x.tag ++ x.body)⟩ := by
  cases x with
  | null => rfl
  | key k => exact absurd hx id
  | unsupported n => exact absurd hx id
  | bool b => cases b <;> rfl
  | int v =>
    by_cases hv : v < 0 <;>
      simp [key?, tag, body, hv, Nat.toString_eq_repr, Nat.toList_repr, String.ext_iff]
  | _ => simp [key?, tag, body, Nat.toString_eq_repr, Nat.toList_repr, String.ext_iff]

/-- A signed integer is read back from its text: a sign before the digits of a negative one. -/
theorem int_body_injective {v v' : Int} (h : (int v).body = (int v').body) : v = v' := by
  -- the digits of a number never start with a sign
  have hdigits : ∀ (n : Nat) (rest : List Char), Nat.toDigits 10 n ≠ '-' :: rest :=
    fun n rest he => absurd (Nat.isDigit_of_mem_toDigits (by decide) (by decide)
      (show '-' ∈ Nat.toDigits 10 n by rw [he]; exact List.mem_cons_self)) (by decide)
  simp only [body] at h
  by_cases hv : v < 0 <;> by_cases hv' : v' < 0 <;> simp only [hv, hv', if_true, if_false] at h
  · have := Text.toDigits_injective (List.cons.inj h).2
    omega
  · exact absurd h.symm (hdigits _ _)
  · exact absurd h (hdigits _ _)
  · have := Text.toDigits_injective h
    omega

/-- Keyable values with one tag and the same text are alike. -/
theorem alike_of_body (hx : x.Keyable) (hy : y.Keyable) (htag : x.tag = y.tag) (hne : x.tag ≠ [])
    (hbody : x.body = y.body) : x.Alike y := by
  -- values of distinct classes have distinct tags
  cases x <;> cases y <;> simp [tag] at htag hne
  case string.string s s' => exact String.toList_injective hbody
  case bool.bool b b' => cases b <;> cases b' <;> simp [body, Alike] at hbody ⊢
  case int.int v v' => exact int_body_injective hbody
  case uint.uint v v' => exact Text.toDigits_injective hbody
  case float.float f v f' v' =>
    have htext := FloatText.general_eq_iff.1 (String.toList_injective hbody)
    simp only [Alike]
    split
    · rename_i hf
      subst hf
      exact (FloatText.general_eq_iff_eq hx hy).1 (String.toList_injective hbody)
    · exact htext
  case time.time t t' => exact Time.formatUtc_injective hx hy (String.toList_injective hbody)
  case bytes.bytes b b' => exact Base64.encode_injective (String.toList_injective hbody)
  case described.described s s' => exact String.toList_injective hbody

/-- Alike values have one tag and the same text. -/
theorem tag_body_eq_of_alike (h : x.Alike y) : x.tag = y.tag ∧ x.body = y.body := by
  cases x <;> cases y <;> simp only [Alike] at h
  case null.null => exact ⟨rfl, rfl⟩
  case float.float f v f' v' =>
    split at h
    · rename_i hf
      subst hf h
      exact ⟨rfl, rfl⟩
    · exact ⟨rfl, congrArg String.toList (FloatText.general_eq_iff.2 h)⟩
  all_goals
    subst h
    exact ⟨rfl, rfl⟩

/-- Every keyable value but the absent one has a tag of two characters. -/
theorem length_tag (hx : x.Keyable) (hnull : x ≠ .null) : x.tag.length = 2 := by
  cases x with
  | null => exact absurd rfl hnull
  | key _ | unsupported _ => exact absurd hx id
  | _ => rfl

/-- The text of a key is empty only for the absent value. -/
theorem tag_append_body_eq_nil_iff (hx : x.Keyable) : x.tag ++ x.body = [] ↔ x = .null := by
  refine ⟨fun h => ?_, fun h => by rw [h]; rfl⟩
  by_contra hnull
  have hlen := congrArg List.length h
  rw [List.length_append, length_tag hx hnull, List.length_nil] at hlen
  omega

/-- Keyable values have the same key exactly when their tags and texts together agree. -/
theorem key?_eq_iff (hx : x.Keyable) (hy : y.Keyable) :
    x.key? = y.key? ↔ x.tag ++ x.body = y.tag ++ y.body := by
  rw [key?_eq_tag_body hx, key?_eq_tag_body hy, Except.ok.injEq, Key.mk.injEq]
  exact ⟨String.ofList_injective, congrArg _⟩

/-- Keyable values whose tags and texts together agree are alike. -/
theorem alike_of_text_eq (hx : x.Keyable) (hy : y.Keyable)
    (h : x.tag ++ x.body = y.tag ++ y.body) : x.Alike y := by
  -- the absent value has the empty text; the others are cut after their tags
  by_cases hxn : x = .null
  · subst hxn
    obtain rfl := (tag_append_body_eq_nil_iff hy).1 h.symm
    trivial
  · by_cases hyn : y = .null
    · subst hyn
      exact absurd ((tag_append_body_eq_nil_iff hx).1 h) hxn
    · obtain ⟨ht, hb⟩ := List.append_inj h (by rw [length_tag hx hxn, length_tag hy hyn])
      have hne : x.tag ≠ [] := fun h0 => by simpa [h0] using length_tag hx hxn
      exact alike_of_body hx hy ht hne hb

end IndexValue

open IndexValue in
/-- Keys separate the values they are computed from: two keyable values have the same key
exactly when they are alike, and the absent value is the only one with the null key. -/
theorem keys_separate_values {x y : IndexValue} (hx : x.Keyable) (hy : y.Keyable) :
    (x.key? = y.key? ↔ x.Alike y) ∧ (x.key? = .ok Key.null ↔ x = .null) := by
  refine ⟨(key?_eq_iff hx hy).trans ⟨alike_of_text_eq hx hy, fun h => ?_⟩, ?_⟩
  · obtain ⟨ht, hb⟩ := tag_body_eq_of_alike h
    rw [ht, hb]
  · -- the null key is the key of the absent value
    rw [show (Except.ok Key.null : Except String Key) = IndexValue.null.key? from rfl,
      key?_eq_iff hx (show IndexValue.null.Keyable from trivial)]
    exact tag_append_body_eq_nil_iff hx

/-- Half a second past the epoch and the float one are keyable, and keys separate them. -/
theorem half_second_and_one_separate :
    let x := IndexValue.time ⟨0, 500000000⟩
    let y := IndexValue.float Binary.binary64 (.finite false (Nat.pow 2 52) (-52))
    x.Keyable ∧ y.Keyable ∧
      ((x.key? = y.key? ↔ x.Alike y) ∧ (x.key? = .ok Key.null ↔ x = .null)) := by
  intro x y
  have hx : x.Keyable := show 500000000 < 10 ^ 9 by decide
  have hy : y.Keyable := ⟨by decide, by decide, by decide, by decide⟩
  exact ⟨hx, hy, keys_separate_values hx hy⟩

/-- Float keys follow the written text, not the number: the two zeros are equal numbers with
different keys, and the 32-bit and 64-bit floats nearest to `0.1` are different numbers with one
key. -/
theorem float_keys_split_zeros_and_join_tenths :
    (IndexValue.float Binary.binary64 (Binary.zero Binary.binary64 true)).key? ≠
        (IndexValue.float Binary.binary64 (Binary.zero Binary.binary64 false)).key? ∧
      (13421773 : ℚ) * 2 ^ (-27 : Int) ≠ 7205759403792794 * 2 ^ (-56 : Int) ∧
      (IndexValue.float Binary.binary32 (.finite false 13421773 (-27))).key? =
        (IndexValue.float Binary.binary64 (.finite false 7205759403792794 (-56))).key? := by
  have hneg : (IndexValue.float Binary.binary64 (Binary.zero Binary.binary64 true)).key? =
      .ok ⟨"f:-0"⟩ := rfl
  have hpos : (IndexValue.float Binary.binary64 (Binary.zero Binary.binary64 false)).key? =
      .ok ⟨"f:0"⟩ := rfl
  have h32 : (IndexValue.float Binary.binary32 (.finite false 13421773 (-27))).key? =
      .ok ⟨"f:0.1"⟩ := rfl
  have h64 : (IndexValue.float Binary.binary64 (.finite false 7205759403792794 (-56))).key? =
      .ok ⟨"f:0.1"⟩ := rfl
  refine ⟨?_, by norm_num, h32.trans h64.symm⟩
  rw [hneg, hpos]
  intro h
  exact absurd (Key.mk.inj (Except.ok.inj h)) (by decide)

end EntityIndex
