import EntityIndex.Proofs.Text.Utf8Bytes
import EntityIndex.Persist.Builtin

/-!
# Reading back what was written

The JSON libraries of this library write compact JSON with `render true` and read it back by
`parse` with the leniency of the frame's codec. This module proves that every reader takes every
written document back whole (`parse_render`), so both libraries read what they write
(`JsonLibraries.builtin_readsBack`), which is what stores assume of a JSON library
(`JsonLibrary.ReadsBack`). The only condition is on numbers: the writer puts a number's text as it
is, so a document reads back when each number is a plain decimal natural that a 64-bit float
holds (`isPlainNumber`), the only numbers stored documents hold.

The proof follows the reader. A string is read one escape at a time: every character's escaped
form gives that character back (`readChars_escapeChar`), whether it is a short escape, four
hexadecimal digits, or the character's own UTF-8 bytes. Arrays and objects are read by the
three mutually recursive readers, and the proof is by the same mutual recursion over the
document (`readValue_render`). Reading spends one unit of fuel per item and level, and the
byte length of what is left always suffices.
-/

namespace EntityIndex.Json

/-! ## Escapes in hexadecimal digits -/

/-- The value of one hexadecimal digit byte, as the reader of `\u` escapes takes it. -/
def hexNibble (x : UInt8) : Option Nat :=
  let n := x.toNat
  if 48 ≤ n ∧ n ≤ 57 then some (n - 48)
  else if 97 ≤ n ∧ n ≤ 102 then some (n - 87)
  else if 65 ≤ n ∧ n ≤ 70 then some (n - 55)
  else none

theorem hex4_cons (a b c d : UInt8) :
    hex4 [a, b, c, d] = (hexNibble a).bind fun w => (hexNibble b).bind fun x =>
      (hexNibble c).bind fun y => (hexNibble d).bind fun z =>
        some (((w * 16 + x) * 16 + y) * 16 + z) :=
  rfl

theorem hexNibble_digit (k : Nat) :
    hexNibble (UInt8.ofNat (Hex.digit k).toNat) = some (k % 16) := by
  have h : ∀ d < 16, hexNibble (UInt8.ofNat (Hex.digit d).toNat) = some d := by decide
  rw [← Hex.digit_mod, h _ (Nat.mod_lt _ (by decide))]

theorem hex4_hexDigits (n : Nat) :
    hex4 ((Quote.hexDigits 4 n).map fun d => UInt8.ofNat d.toNat) = some (n % 65536) := by
  rw [Quote.hexDigits_four, List.map_cons, List.map_cons, List.map_cons, List.map_cons,
    List.map_nil, hex4_cons, hexNibble_digit, hexNibble_digit, hexNibble_digit, hexNibble_digit]
  simp only [Option.bind_some, Option.some.injEq]
  omega

/-! ## Strings -/

section Chars

variable (lax : Leniency) (fuel : Nat) (rest : List UInt8) (acc : List Char)

/-- `\u` and four digits of a code that is no surrogate stand for that character. -/
theorem readChars_hex (n : Nat) (h : n < 0xD800 ∨ (0xE000 ≤ n ∧ n < 65536)) :
    readChars lax (fuel + 1)
        (92 :: 117 :: (((Quote.hexDigits 4 n).map fun d => UInt8.ofNat d.toNat) ++ rest)) acc =
      readChars lax fuel rest (Char.ofNat n :: acc) := by
  have hl : ((Quote.hexDigits 4 n).map fun d => UInt8.ofNat d.toNat).length = 4 := by
    simp [Quote.hexDigits_four]
  have hs : isSurrogate n = false := by simp [isSurrogate]; omega
  rw [readChars]
  simp [List.take_left' hl, List.drop_left' hl, hex4_hexDigits,
    Nat.mod_eq_of_lt (show n < 65536 by omega), hs]

/-- A printable ASCII character other than the quote and the backslash stands for itself. -/
theorem readChars_ascii {c : Char} (h32 : 32 ≤ c.toNat) (h128 : c.toNat < 128) (h34 : c ≠ '"')
    (h92 : c ≠ '\\') :
    readChars lax (fuel + 1) (String.utf8EncodeChar c ++ rest) acc =
      readChars lax fuel rest (c :: acc) := by
  have hb : (UInt8.ofNat c.toNat).toNat = c.toNat := by
    simp only [UInt8.toNat_ofNat', Nat.reducePow]; omega
  -- the byte is neither the closing quote nor the backslash
  have hq : UInt8.ofNat c.toNat ≠ 34 := fun he => h34 (Char.toNat_inj.mp (by
    simpa [hb] using congrArg UInt8.toNat he))
  have hbs : UInt8.ofNat c.toNat ≠ 92 := fun he => h92 (Char.toNat_inj.mp (by
    simpa [hb] using congrArg UInt8.toNat he))
  rw [utf8EncodeChar_of_lt h128, List.singleton_append, readChars]
  · rw [hb, if_neg (by omega), if_pos h128, Char.ofNat_toNat]
  · exact hq
  · exact fun _ _ he _ => hbs he

/-- A character from 128 on is read back from its UTF-8 bytes. -/
theorem readChars_wide {c : Char} (h128 : 128 ≤ c.toNat) :
    readChars lax (fuel + 1) (String.utf8EncodeChar c ++ rest) acc =
      readChars lax fuel rest (c :: acc) := by
  obtain ⟨b, bs, he, hb⟩ := utf8EncodeChar_head h128
  have hf := Utf8.front_utf8EncodeChar c rest
  rw [he] at hf ⊢
  rw [List.cons_append, readChars]
  · rw [if_neg (by omega), if_neg (by omega), ← List.cons_append, hf]
    show readChars lax fuel rest (Char.ofNat c.toNat :: acc) = _
    rw [Char.ofNat_toNat]
  · rintro rfl
    exact absurd hb (by decide)
  · rintro _ _ rfl
    exact absurd hb (by decide)

/-- Every character's escaped form is read back as that character. -/
theorem readChars_escapeChar (c : Char) :
    readChars lax (fuel + 1) ((escapeChar true c).toUTF8.toList ++ rest) acc =
      readChars lax fuel rest (c :: acc) := by
  have hv := Char.toNat_valid c
  simp only [escapeChar]
  -- the conditions are taken one at a time, each `if` rewritten by `rw`: a split of the whole
  -- nest simplifies every later condition under every earlier one, which takes seconds;
  -- first the short escapes
  by_cases h1 : c = '"'
  · subst h1; rw [if_pos rfl, String.toUTF8_toList]; rfl
  rw [if_neg h1]
  by_cases h2 : c = '\\'
  · subst h2; rw [if_pos rfl, String.toUTF8_toList]; rfl
  rw [if_neg h2]
  by_cases h3 : c = '\n'
  · subst h3; rw [if_pos rfl, String.toUTF8_toList]; rfl
  rw [if_neg h3]
  by_cases h4 : c = '\r'
  · subst h4; rw [if_pos rfl, String.toUTF8_toList]; rfl
  rw [if_neg h4]
  by_cases h5 : c = '\t'
  · subst h5; rw [if_pos rfl, String.toUTF8_toList]; rfl
  rw [if_neg h5]
  by_cases h6 : c.toNat = 8
  · rw [if_pos h6]
    obtain rfl : c = Char.ofNat 8 := by rw [← h6, Char.ofNat_toNat]
    rw [String.toUTF8_toList]; rfl
  rw [if_neg h6]
  by_cases h7 : c.toNat = 12
  · rw [if_pos h7]
    obtain rfl : c = Char.ofNat 12 := by rw [← h7, Char.ofNat_toNat]
    rw [String.toUTF8_toList]; rfl
  rw [if_neg h7]
  by_cases h8 : c.toNat < 32 ∨ c.toNat = 0x2028 ∨ c.toNat = 0x2029
  · -- a control character or a line or paragraph separator: `\u` and four digits
    rw [if_pos h8, String.toUTF8_toList_append, toUTF8_hexDigits,
      show "\\u".toUTF8.toList = [92, 117] by rw [String.toUTF8_toList]; rfl]
    simp only [List.cons_append, List.nil_append]
    rw [readChars_hex lax fuel rest acc _ (by omega), Char.ofNat_toNat]
  rw [if_neg h8]
  by_cases h9 : c = '<' ∨ c = '>' ∨ c = '&'
  · -- `<`, `>` and `&`: `\u00` and two digits, which are the four digits of a byte
    have h256 : c.toNat < 256 := by
      rcases h9 with rfl | rfl | rfl <;> decide
    have hb : [92, 117, 48, 48] ++ (Quote.hexDigits 2 c.toNat).map (fun d => UInt8.ofNat d.toNat) =
        [92, 117] ++ (Quote.hexDigits 4 c.toNat).map (fun d => UInt8.ofNat d.toNat) := by
      rw [Quote.hexDigits_four_of_lt h256]; rfl
    rw [if_pos ⟨trivial, h9⟩, String.toUTF8_toList_append, toUTF8_hexDigits,
      show "\\u00".toUTF8.toList = [92, 117, 48, 48] by rw [String.toUTF8_toList]; rfl, hb]
    simp only [List.cons_append, List.nil_append]
    rw [readChars_hex lax fuel rest acc _ (by omega), Char.ofNat_toNat]
  -- any other character stands for itself
  have hs : c.toString.toUTF8.toList = String.utf8EncodeChar c := by
    rw [String.toUTF8_toList, Char.toString_eq_singleton, String.toList_singleton,
      List.flatMap_singleton]
  rw [if_neg fun h => h9 h.2, hs]
  by_cases h128 : c.toNat < 128
  · exact readChars_ascii lax fuel rest acc (by omega) h128 h1 h2
  · exact readChars_wide lax fuel rest acc (by omega)

/-- The escaped characters of a text, then the closing quote, read back as the text. -/
theorem readChars_escaped (l : List Char) :
    readChars lax (fuel + l.length + 1)
        ((l.flatMap fun c => (escapeChar true c).toUTF8.toList) ++ 34 :: rest) acc =
      some (String.ofList (acc.reverse ++ l), rest) := by
  induction l generalizing acc with
  | nil => simp [readChars]
  | cons c l ih =>
    rw [List.flatMap_cons, List.append_assoc, List.length_cons, ← Nat.add_assoc,
      readChars_escapeChar, ih]
    simp

end Chars

theorem toUTF8_foldl_append (f : Char → String) (l : List Char) (a : String) :
    (l.foldl (fun acc c => acc ++ f c) a).toUTF8.toList =
      a.toUTF8.toList ++ l.flatMap fun c => (f c).toUTF8.toList := by
  induction l generalizing a with
  | nil => simp
  | cons c l ih =>
    rw [List.foldl_cons, ih, String.toUTF8_toList_append, List.flatMap_cons, List.append_assoc]

theorem toUTF8_quoteString (e : Bool) (s : String) :
    (quoteString e s).toUTF8.toList =
      34 :: ((s.toList.flatMap fun c => (escapeChar e c).toUTF8.toList) ++ [34]) := by
  have hq : "\"".toUTF8.toList = [34] := by rw [String.toUTF8_toList]; rfl
  have he : "".toUTF8.toList = [] := by rw [String.toUTF8_toList]; rfl
  rw [quoteString, String.toUTF8_toList_append, String.toUTF8_toList_append, toUTF8_foldl_append,
    hq, he]
  rfl

theorem escapeChar_ne_nil (e : Bool) (c : Char) : (escapeChar e c).toUTF8.toList ≠ [] := by
  rw [String.toUTF8_toList]
  simp only [escapeChar]
  -- one condition at a time, as in `readChars_escapeChar`
  by_cases h1 : c = '"'
  · rw [if_pos h1]; decide
  rw [if_neg h1]
  by_cases h2 : c = '\\'
  · rw [if_pos h2]; decide
  rw [if_neg h2]
  by_cases h3 : c = '\n'
  · rw [if_pos h3]; decide
  rw [if_neg h3]
  by_cases h4 : c = '\r'
  · rw [if_pos h4]; decide
  rw [if_neg h4]
  by_cases h5 : c = '\t'
  · rw [if_pos h5]; decide
  rw [if_neg h5]
  by_cases h6 : c.toNat = 8
  · rw [if_pos h6]; decide
  rw [if_neg h6]
  by_cases h7 : c.toNat = 12
  · rw [if_pos h7]; decide
  rw [if_neg h7]
  by_cases h8 : c.toNat < 32 ∨ c.toNat = 0x2028 ∨ c.toNat = 0x2029
  · rw [if_pos h8, String.toList_append, List.flatMap_append]; simp
  rw [if_neg h8]
  split
  · rw [String.toList_append, List.flatMap_append]; simp
  · simp [String.utf8EncodeChar_ne_nil]

/-- A quoted text takes at least two bytes more than it has characters. -/
theorem length_quoteString (e : Bool) (s : String) :
    s.length + 2 ≤ (quoteString e s).toUTF8.toList.length := by
  have h := length_le_length_flatMap (escapeChar_ne_nil e) s.toList
  rw [toUTF8_quoteString, ← String.length_toList]
  simp only [List.length_cons, List.length_append]
  omega

/-- A quoted text is read back, given room for its characters. -/
theorem readString_quoteString (lax : Leniency) (s : String) {room : Nat} (h : s.length < room)
    (rest : List UInt8) :
    readString lax room ((quoteString true s).toUTF8.toList ++ rest) = some (s, rest) := by
  obtain ⟨k, rfl⟩ : ∃ k, room = k + s.toList.length + 1 := ⟨room - s.length - 1, by
    rw [String.length_toList]; omega⟩
  rw [toUTF8_quoteString, List.cons_append, readString, List.append_assoc, List.singleton_append,
    readChars_escaped]
  simp

/-! ## Numbers -/

/-- A number text that every reader takes back as written: decimal digits without a leading
zero, of a value that a 64-bit float holds. -/
def isPlainNumber (t : String) : Bool :=
  match t.toList with
  | [] => false
  | d :: ds => (d :: ds).all Decimal.isDigit && (d != '0' || ds.isEmpty) &&
      (Decimal.parseFloat Binary.binary64 t).isSome

/-- What may follow a value for reading to stop right after it: nothing, or a byte that
continues no number. -/
def Stops (rest : List UInt8) : Prop := ∀ b ∈ rest.head?, isNumberByte b = false

theorem stops_cons {b : UInt8} (h : isNumberByte b = false) (bs : List UInt8) :
    Stops (b :: bs) := by
  intro x hx
  cases hx
  exact h

theorem isDigit_toNat {d : Char} (h : Decimal.isDigit d = true) :
    48 ≤ d.toNat ∧ d.toNat ≤ 57 := by
  simp only [Decimal.isDigit, Bool.and_eq_true, decide_eq_true_eq] at h
  exact ⟨h.1, h.2⟩

theorem isDigit_ascii {d : Char} (h : Decimal.isDigit d = true) : d.toNat < 128 := by
  have := isDigit_toNat h
  omega

theorem isDigitByte_iff (b : UInt8) :
    isDigitByte b = true ↔ 48 ≤ b.toNat ∧ b.toNat ≤ 57 := by
  simp [isDigitByte, UInt8.le_iff_toNat_le]

theorem ne_of_toNat_ne {b c : UInt8} (h : b.toNat ≠ c.toNat) : b ≠ c :=
  fun e => h (congrArg _ e)

theorem byte_digit {c : Char} (h : Decimal.isDigit c = true) :
    (UInt8.ofNat c.toNat).toNat = c.toNat := by
  have := isDigit_toNat h
  simp only [UInt8.toNat_ofNat', Nat.reducePow]
  omega

theorem isDigitByte_digit {c : Char} (h : Decimal.isDigit c = true) :
    isDigitByte (UInt8.ofNat c.toNat) = true := by
  rw [isDigitByte_iff, byte_digit h]
  exact isDigit_toNat h

theorem digit_byte_ne {d : Char} (h : Decimal.isDigit d = true) {k : UInt8}
    (hk : k.toNat < 48 ∨ 57 < k.toNat) : UInt8.ofNat d.toNat ≠ k :=
  ne_of_toNat_ne (by rw [byte_digit h]; have := isDigit_toNat h; omega)

theorem exists_digits {t : String} (ht : isPlainNumber t = true) :
    ∃ d ds, t.toList = d :: ds ∧ (∀ c ∈ d :: ds, Decimal.isDigit c = true) ∧
      (d = '0' → ds = []) ∧ (Decimal.parseFloat Binary.binary64 t).isSome = true := by
  unfold isPlainNumber at ht
  split at ht
  · exact absurd ht (by decide)
  · rename_i d ds hdd
    simp only [Bool.and_eq_true, List.all_eq_true, bne_iff_ne, ne_eq, Bool.or_eq_true,
      List.isEmpty_iff] at ht
    obtain ⟨⟨hdig, hz⟩, hf⟩ := ht
    exact ⟨d, ds, hdd, hdig, fun h => hz.resolve_left (not_not.mpr h), hf⟩

/-- The bytes of a plain number: its digits, one byte each. -/
theorem toUTF8_plainNumber {t : String} {d : Char} {ds : List Char} (ht : t.toList = d :: ds)
    (hd : ∀ c ∈ d :: ds, Decimal.isDigit c = true) :
    t.toUTF8.toList = (d :: ds).map fun c => UInt8.ofNat c.toNat := by
  rw [String.toUTF8_toList, ht,
    flatMap_utf8EncodeChar_of_ascii fun c hc => isDigit_ascii (hd c hc)]

theorem ofList_bytes {l : List Char} (hl : ∀ c ∈ l, Decimal.isDigit c = true) :
    (l.map fun c => UInt8.ofNat c.toNat).map (fun b => Char.ofNat b.toNat) = l := by
  have ha : ∀ c ∈ l, c.toNat < 128 := fun c hc => isDigit_ascii (hl c hc)
  rw [← flatMap_utf8EncodeChar_of_ascii ha, chars_of_ascii_bytes ha]

section Stop

variable {rest : List UInt8} (hs : Stops rest)
include hs

theorem fracDigits_stops : fracDigits rest = some ([], rest) := by
  cases rest with
  | nil => rfl
  | cons b r =>
    have hb : isNumberByte b = false := hs b rfl
    rw [fracDigits]
    intro _ h
    obtain ⟨rfl, -⟩ := List.cons.inj h
    exact absurd hb (by decide)

theorem expDigits_stops : expDigits rest = some ([], rest) := by
  cases rest with
  | nil => rfl
  | cons b r =>
    have hb : isNumberByte b = false := hs b rfl
    rw [expDigits.eq_def]
    simp only
    rw [if_neg]
    rintro (rfl | rfl) <;> exact absurd hb (by decide)

theorem digitRun_digits {l : List Char} (hl : ∀ c ∈ l, Decimal.isDigit c = true) :
    digitRun ((l.map fun c => UInt8.ofNat c.toNat) ++ rest) =
      (l.map fun c => UInt8.ofNat c.toNat, rest) := by
  have hl' : ∀ b ∈ l.map (fun c => UInt8.ofNat c.toNat), isDigitByte b = true := by
    intro b hb
    obtain ⟨c, hc, rfl⟩ := List.mem_map.mp hb
    exact isDigitByte_digit (hl c hc)
  -- the byte after the digits, if any, is no digit
  have hr : rest.takeWhile isDigitByte = [] ∧ rest.dropWhile isDigitByte = rest := by
    cases rest with
    | nil => simp
    | cons b r =>
      have hb : isDigitByte b = false := by
        have := hs b rfl
        simp only [isNumberByte, Bool.or_eq_false_iff] at this
        exact this.1.1.1.1.1
      simp [hb]
  simp only [digitRun, List.takeWhile_append_of_pos hl', List.dropWhile_append_of_pos hl', hr.1,
    hr.2, List.append_nil]

/-- The strict reader takes a plain number back, whatever stops it. -/
theorem readNumber_plain {t : String} (ht : isPlainNumber t = true) :
    readNumber (t.toUTF8.toList ++ rest) = some (.number t, rest) := by
  obtain ⟨d, ds, hdd, hdig, hz, -⟩ := exists_digits ht
  have ht' : t = String.ofList (d :: ds) := by rw [← hdd, String.ofList_toList]
  rw [toUTF8_plainNumber hdd hdig, List.map_cons, List.cons_append]
  have hd := isDigit_toNat (hdig d (by simp))
  have hbd := byte_digit (hdig d (by simp))
  unfold readNumber
  split
  rename_i sign r' heq
  -- no minus sign
  split at heq
  · rename_i h
    obtain ⟨h45, -⟩ := List.cons.inj h
    exact absurd (congrArg UInt8.toNat h45) (by rw [hbd]; simp; omega)
  · obtain ⟨rfl, rfl⟩ := Prod.mk.inj heq
    by_cases h0 : d = '0'
    · -- a lone zero
      obtain rfl := hz h0
      subst h0
      rw [show UInt8.ofNat '0'.toNat = 48 from rfl, List.map_nil, List.nil_append, intDigits]
      simp only [Option.bind_some, fracDigits_stops hs, expDigits_stops hs, Option.map_some, ht']
      rfl
    · -- a non-zero digit and the digits after it
      rw [intDigits, if_pos (isDigitByte_digit (hdig d (by simp)))]
      · simp only [digitRun_digits hs (fun c hc => hdig c (List.mem_cons_of_mem d hc)),
          Option.bind_some, fracDigits_stops hs, expDigits_stops hs, Option.map_some, ht']
        congr
        rw [List.nil_append, List.append_nil, List.append_nil]
        exact ofList_bytes hdig
      · intro h48
        exact h0 (Char.toNat_inj.mp (by simpa [hbd] using congrArg UInt8.toNat h48))

/-- The lenient reader takes a plain number back, whatever stops it. -/
theorem readLooseNumber_plain {t : String} (ht : isPlainNumber t = true) :
    readLooseNumber (t.toUTF8.toList ++ rest) = some (.number t, rest) := by
  obtain ⟨d, ds, hdd, hdig, -, hf⟩ := exists_digits ht
  have ht' : t = String.ofList (d :: ds) := by rw [← hdd, String.ofList_toList]
  rw [toUTF8_plainNumber hdd hdig]
  have hl : ∀ b ∈ (d :: ds).map (fun c => UInt8.ofNat c.toNat), isNumberByte b = true := by
    intro b hb
    obtain ⟨c, hc, rfl⟩ := List.mem_map.mp hb
    simp [isNumberByte, isDigitByte_digit (hdig c hc)]
  have hr : rest.takeWhile isNumberByte = [] := by
    cases rest with
    | nil => rfl
    | cons b r => simp [hs b rfl]
  unfold readLooseNumber
  simp only [List.takeWhile_append_of_pos hl, hr, List.append_nil, ofList_bytes hdig, ← ht']
  obtain ⟨x, hx⟩ := Option.isSome_iff_exists.mp hf
  rw [hx]
  simp

end Stop

/-! ## Documents -/

mutual

/-- Every number of a document is plain. -/
def Value.PlainNumbers : Value → Prop
  | .number t => isPlainNumber t = true
  | .array xs => Value.ItemsPlain xs
  | .object fs => Value.FieldsPlain fs
  | _ => True

/-- Every number of the items is plain. -/
def Value.ItemsPlain : List Value → Prop
  | [] => True
  | x :: xs => Value.PlainNumbers x ∧ Value.ItemsPlain xs

/-- Every number of the fields' values is plain. -/
def Value.FieldsPlain : List (String × Value) → Prop
  | [] => True
  | (_, x) :: fs => Value.PlainNumbers x ∧ Value.FieldsPlain fs

end

theorem Value.itemsPlain_iff : ∀ {xs : List Value},
    Value.ItemsPlain xs ↔ ∀ x ∈ xs, Value.PlainNumbers x
  | [] => by simp [Value.ItemsPlain]
  | x :: xs => by simp [Value.ItemsPlain, @Value.itemsPlain_iff xs]

theorem Value.fieldsPlain_iff : ∀ {fs : List (String × Value)},
    Value.FieldsPlain fs ↔ ∀ p ∈ fs, Value.PlainNumbers p.2
  | [] => by simp [Value.FieldsPlain]
  | (_, x) :: fs => by simp [Value.FieldsPlain, @Value.fieldsPlain_iff fs]

theorem Value.plainNumbers_array {xs : List Value} :
    Value.PlainNumbers (.array xs) ↔ ∀ x ∈ xs, Value.PlainNumbers x := by
  rw [Value.PlainNumbers, Value.itemsPlain_iff]

theorem Value.plainNumbers_object {fs : List (String × Value)} :
    Value.PlainNumbers (.object fs) ↔ ∀ p ∈ fs, Value.PlainNumbers p.2 := by
  rw [Value.PlainNumbers, Value.fieldsPlain_iff]

section Render

variable (e : Bool)

theorem toUTF8_render_array (xs : List Value) :
    (render e (.array xs)).toUTF8.toList = 91 :: ((renderItems e xs).toUTF8.toList ++ [93]) := by
  rw [render, String.toUTF8_toList_append, String.toUTF8_toList_append]
  simp only [String.toUTF8_toList]
  rfl

theorem toUTF8_render_object (fs : List (String × Value)) :
    (render e (.object fs)).toUTF8.toList =
      123 :: ((renderFields e fs).toUTF8.toList ++ [125]) := by
  rw [render, String.toUTF8_toList_append, String.toUTF8_toList_append]
  simp only [String.toUTF8_toList]
  rfl

theorem renderItems_single (x : Value) : renderItems e [x] = render e x := by
  rw [renderItems]

theorem toUTF8_renderItems_cons (x y : Value) (ys : List Value) :
    (renderItems e (x :: y :: ys)).toUTF8.toList =
      (render e x).toUTF8.toList ++ 44 :: (renderItems e (y :: ys)).toUTF8.toList := by
  rw [renderItems, String.toUTF8_toList_append, String.toUTF8_toList_append,
    show ",".toUTF8.toList = [44] by rw [String.toUTF8_toList]; rfl]
  · simp
  · exact List.cons_ne_nil y ys

theorem toUTF8_renderFields_single (k : String) (v : Value) :
    (renderFields e [(k, v)]).toUTF8.toList =
      (quoteString e k).toUTF8.toList ++ 58 :: (render e v).toUTF8.toList := by
  rw [renderFields, String.toUTF8_toList_append, String.toUTF8_toList_append,
    show ":".toUTF8.toList = [58] by rw [String.toUTF8_toList]; rfl]
  simp

theorem toUTF8_renderFields_cons (k : String) (v : Value) (f : String × Value)
    (fs : List (String × Value)) :
    (renderFields e ((k, v) :: f :: fs)).toUTF8.toList =
      (quoteString e k).toUTF8.toList ++ 58 :: ((render e v).toUTF8.toList ++
        44 :: (renderFields e (f :: fs)).toUTF8.toList) := by
  rw [renderFields, String.toUTF8_toList_append, String.toUTF8_toList_append,
    String.toUTF8_toList_append, String.toUTF8_toList_append,
    show ":".toUTF8.toList = [58] by rw [String.toUTF8_toList]; rfl,
    show ",".toUTF8.toList = [44] by rw [String.toUTF8_toList]; rfl]
  · simp
  · exact List.cons_ne_nil f fs

end Render

theorem skipSpace_cons {b : UInt8} (h : isSpace b = false) (bs : List UInt8) :
    skipSpace (b :: bs) = b :: bs := by
  rw [skipSpace, if_neg (by simp [h])]

theorem isSpace_digit {d : Char} (h : Decimal.isDigit d = true) :
    isSpace (UInt8.ofNat d.toNat) = false := by
  simp only [isSpace, Bool.or_eq_false_iff, decide_eq_false_iff_not]
  exact ⟨⟨⟨digit_byte_ne h (by decide), digit_byte_ne h (by decide)⟩,
    digit_byte_ne h (by decide)⟩, digit_byte_ne h (by decide)⟩

/-- A written document starts with a byte that is no whitespace and no closing bracket. -/
theorem render_head (v : Value) (hv : Value.PlainNumbers v) :
    ∃ b bs, (render true v).toUTF8.toList = b :: bs ∧ isSpace b = false ∧ b ≠ 93 := by
  cases v with
  | null => exact ⟨110, _, by rw [render, String.toUTF8_toList]; rfl, by decide, by decide⟩
  | bool b =>
    cases b <;> exact ⟨_, _, by rw [render, String.toUTF8_toList]; rfl, by decide, by decide⟩
  | number t =>
    obtain ⟨d, ds, hdd, hdig, -, -⟩ := exists_digits hv
    have hd := hdig d (by simp)
    exact ⟨_, _, by rw [render, toUTF8_plainNumber hdd hdig, List.map_cons], isSpace_digit hd,
      digit_byte_ne hd (by decide)⟩
  | string s => exact ⟨34, _, by rw [render, toUTF8_quoteString], by decide, by decide⟩
  | array xs => exact ⟨91, _, toUTF8_render_array true xs, by decide, by decide⟩
  | object fs => exact ⟨123, _, toUTF8_render_object true fs, by decide, by decide⟩

theorem skipSpace_render {v : Value} (hv : Value.PlainNumbers v) (rest : List UInt8) :
    skipSpace ((render true v).toUTF8.toList ++ rest) = (render true v).toUTF8.toList ++ rest := by
  obtain ⟨b, bs, hbs, hsp, -⟩ := render_head v hv
  rw [hbs, List.cons_append, skipSpace_cons hsp]

theorem skipSpace_renderItems {x : Value} (hx : Value.PlainNumbers x) (xs : List Value)
    (r : List UInt8) :
    skipSpace ((renderItems true (x :: xs)).toUTF8.toList ++ r) =
      (renderItems true (x :: xs)).toUTF8.toList ++ r := by
  cases xs with
  | nil => rw [renderItems_single, skipSpace_render hx]
  | cons y ys => rw [toUTF8_renderItems_cons, List.append_assoc, skipSpace_render hx]

theorem skipSpace_renderFields (k : String) (x : Value) (fs : List (String × Value))
    (r : List UInt8) :
    skipSpace ((renderFields true ((k, x) :: fs)).toUTF8.toList ++ r) =
      (renderFields true ((k, x) :: fs)).toUTF8.toList ++ r := by
  cases fs with
  | nil => rw [toUTF8_renderFields_single, toUTF8_quoteString, List.cons_append, List.cons_append,
      skipSpace_cons (by decide)]
  | cons f fs => rw [toUTF8_renderFields_cons, toUTF8_quoteString, List.cons_append,
      List.cons_append, skipSpace_cons (by decide)]

section Read

variable (lax : Leniency)

theorem readValue_plainNumber {t : String} (ht : isPlainNumber t = true) (room fuel : Nat)
    {rest : List UInt8} (hs : Stops rest) :
    readValue lax room (fuel + 1) (t.toUTF8.toList ++ rest) = some (.number t, rest) := by
  obtain ⟨d, ds, hdd, hdig, -, -⟩ := exists_digits ht
  have hd := hdig d (by simp)
  have hbytes : t.toUTF8.toList = UInt8.ofNat d.toNat :: ds.map fun c => UInt8.ofNat c.toNat := by
    rw [toUTF8_plainNumber hdd hdig, List.map_cons]
  rw [hbytes, List.cons_append, readValue, skipSpace_cons (isSpace_digit hd)]
  simp only
  -- a digit opens no object, array, string or keyword
  rw [if_neg (digit_byte_ne hd (by decide)), if_neg (digit_byte_ne hd (by decide)),
    if_neg (digit_byte_ne hd (by decide)), if_neg (digit_byte_ne hd (by decide)),
    if_neg (digit_byte_ne hd (by decide)), if_neg (digit_byte_ne hd (by decide)),
    ← List.cons_append, ← hbytes]
  split
  · rw [if_pos (by simp [isDigitByte_digit hd]), readLooseNumber_plain hs ht]
  · exact readNumber_plain hs ht

/-! The three readers recurse into each other, one unit of fuel per level and per item: the
fuel hypotheses bound the fuel by the bytes of what is written, two more for the brackets of
an array or an object. -/

mutual

theorem readValue_render (v : Value) (hv : Value.PlainNumbers v) {room fuel : Nat}
    {rest : List UInt8} (hroom : (render true v).toUTF8.toList.length ≤ room)
    (hfuel : (render true v).toUTF8.toList.length ≤ fuel) (hs : Stops rest) :
    readValue lax room (fuel + 1) ((render true v).toUTF8.toList ++ rest) = some (v, rest) := by
  match v, hv with
  | .null, _ =>
    rw [show (render true .null).toUTF8.toList = [110, 117, 108, 108] by
      rw [render, String.toUTF8_toList]; rfl]
    rfl
  | .bool true, _ =>
    rw [show (render true (.bool true)).toUTF8.toList = [116, 114, 117, 101] by
      rw [render, String.toUTF8_toList]; rfl]
    rfl
  | .bool false, _ =>
    rw [show (render true (.bool false)).toUTF8.toList = [102, 97, 108, 115, 101] by
      rw [render, String.toUTF8_toList]; rfl]
    rfl
  | .number t, ht => exact readValue_plainNumber lax ht room fuel hs
  | .string s, _ =>
    have hlen := length_quoteString true s
    rw [render] at hroom ⊢
    rw [toUTF8_quoteString, List.cons_append, readValue, skipSpace_cons (by decide)]
    simp only
    rw [if_neg (by decide), if_neg (by decide), if_pos trivial, ← List.cons_append,
      ← toUTF8_quoteString, readString_quoteString lax s (by omega)]
    rfl
  | .array xs, hxs =>
    rw [toUTF8_render_array] at hroom hfuel ⊢
    obtain ⟨F, rfl⟩ : ∃ F, fuel = F + 1 := ⟨fuel - 1, by simp at hfuel; omega⟩
    rw [List.cons_append, readValue, skipSpace_cons (by decide)]
    simp only
    rw [if_neg (by decide), if_pos trivial, List.append_assoc, List.singleton_append]
    match xs, hxs with
    | [], _ =>
      rw [show (renderItems true []).toUTF8.toList = [] by
          rw [renderItems, String.toUTF8_toList]; rfl,
        List.nil_append, skipSpace_cons (by decide), readArray]
      rfl
    | x :: xs', hxs' =>
      rw [skipSpace_renderItems hxs'.1, readArray_renderItems (x :: xs') hxs'
        (List.cons_ne_nil _ _) (by simp at hroom ⊢; omega) (by simp at hfuel ⊢; omega)]
      rfl
  | .object fs, hfs =>
    rw [toUTF8_render_object] at hroom hfuel ⊢
    obtain ⟨F, rfl⟩ : ∃ F, fuel = F + 1 := ⟨fuel - 1, by simp at hfuel; omega⟩
    rw [List.cons_append, readValue, skipSpace_cons (by decide)]
    simp only
    rw [if_pos trivial, List.append_assoc, List.singleton_append]
    match fs, hfs with
    | [], _ =>
      rw [show (renderFields true []).toUTF8.toList = [] by
          rw [renderFields, String.toUTF8_toList]; rfl,
        List.nil_append, skipSpace_cons (by decide), readObject]
      rfl
    | (k, x) :: fs', hfs' =>
      rw [skipSpace_renderFields, readObject_renderFields ((k, x) :: fs') hfs'
        (List.cons_ne_nil _ _) (by simp at hroom ⊢; omega) (by simp at hfuel ⊢; omega)]
      rfl

theorem readArray_renderItems (xs : List Value) (hxs : Value.ItemsPlain xs) (hne : xs ≠ [])
    {room fuel : Nat} {rest : List UInt8} {acc : List Value}
    (hroom : (renderItems true xs).toUTF8.toList.length ≤ room)
    (hfuel : (renderItems true xs).toUTF8.toList.length + 2 ≤ fuel) :
    readArray lax room fuel ((renderItems true xs).toUTF8.toList ++ 93 :: rest) acc =
      some (.array (acc.reverse ++ xs), rest) := by
  obtain ⟨F, rfl⟩ : ∃ F, fuel = F + 1 := ⟨fuel - 1, by omega⟩
  match xs, hxs with
  | [x], ⟨hx, _⟩ =>
    rw [renderItems_single] at hroom hfuel ⊢
    obtain ⟨F', rfl⟩ : ∃ F', F = F' + 1 := ⟨F - 1, by omega⟩
    obtain ⟨b, bs, hbs, -, h93⟩ := render_head x hx
    rw [hbs, List.cons_append, readArray, ← List.cons_append, ← hbs,
      readValue_render x hx hroom (by omega) (stops_cons (by decide) rest)]
    · dsimp only
      rw [skipSpace_cons (by decide)]
      simp
    · intro r h
      exact h93 (List.cons.inj h).1
  | x :: y :: ys, ⟨hx, hys⟩ =>
    rw [toUTF8_renderItems_cons] at hroom hfuel ⊢
    simp only [List.length_append, List.length_cons] at hroom hfuel
    obtain ⟨F', rfl⟩ : ∃ F', F = F' + 1 := ⟨F - 1, by omega⟩
    obtain ⟨b, bs, hbs, -, h93⟩ := render_head x hx
    rw [List.append_assoc, List.cons_append, hbs, List.cons_append, readArray, ← List.cons_append,
      ← hbs, readValue_render x hx (by omega) (by omega) (stops_cons (by decide) _)]
    · dsimp only
      rw [skipSpace_cons (by decide)]
      show readArray lax room (F' + 1) (skipSpace ((renderItems true (y :: ys)).toUTF8.toList ++
        93 :: rest)) (x :: acc) = _
      rw [skipSpace_renderItems hys.1, readArray_renderItems (y :: ys) hys (List.cons_ne_nil _ _)
        (by omega) (by omega)]
      simp
    · intro r h
      exact h93 (List.cons.inj h).1

theorem readObject_renderFields (fs : List (String × Value)) (hfs : Value.FieldsPlain fs)
    (hne : fs ≠ []) {room fuel : Nat} {rest : List UInt8} {acc : List (String × Value)}
    (hroom : (renderFields true fs).toUTF8.toList.length ≤ room)
    (hfuel : (renderFields true fs).toUTF8.toList.length + 2 ≤ fuel) :
    readObject lax room fuel ((renderFields true fs).toUTF8.toList ++ 125 :: rest) acc =
      some (.object (acc.reverse ++ fs), rest) := by
  obtain ⟨F, rfl⟩ : ∃ F, fuel = F + 1 := ⟨fuel - 1, by omega⟩
  match fs, hfs with
  | [(k, x)], ⟨hx, _⟩ =>
    rw [toUTF8_renderFields_single] at hroom hfuel ⊢
    simp only [List.length_append, List.length_cons] at hroom hfuel
    obtain ⟨F', rfl⟩ : ∃ F', F = F' + 1 := ⟨F - 1, by omega⟩
    have hk := length_quoteString true k
    rw [List.append_assoc, List.cons_append, toUTF8_quoteString, List.cons_append, readObject,
      ← List.cons_append, ← toUTF8_quoteString, readString_quoteString lax k (by omega)]
    · dsimp only
      rw [skipSpace_cons (b := 58) (by decide)]
      show (match readValue lax room (F' + 1) ((render true x).toUTF8.toList ++ 125 :: rest) with
        | none => none | some (v, r) => _) = _
      rw [readValue_render x hx (by omega) (by omega) (stops_cons (by decide) rest)]
      dsimp only
      rw [skipSpace_cons (b := 125) (by decide)]
      show some (Value.object ((k, x) :: acc).reverse, rest) = _
      simp
    · intro r h
      exact absurd (List.cons.inj h).1 (by decide)
  | (k, x) :: (k', x') :: fs', ⟨hx, hfs'⟩ =>
    rw [toUTF8_renderFields_cons] at hroom hfuel ⊢
    simp only [List.length_append, List.length_cons] at hroom hfuel
    obtain ⟨F', rfl⟩ : ∃ F', F = F' + 1 := ⟨F - 1, by omega⟩
    have hk := length_quoteString true k
    simp only [List.append_assoc, List.cons_append]
    rw [toUTF8_quoteString, List.cons_append, readObject, ← List.cons_append,
      ← toUTF8_quoteString, readString_quoteString lax k (by omega)]
    · dsimp only
      rw [skipSpace_cons (b := 58) (by decide)]
      show (match readValue lax room (F' + 1) ((render true x).toUTF8.toList ++
        44 :: ((renderFields true ((k', x') :: fs')).toUTF8.toList ++ 125 :: rest)) with
        | none => none | some (v, r) => _) = _
      rw [readValue_render x hx (by omega) (by omega) (stops_cons (by decide) _)]
      dsimp only
      rw [skipSpace_cons (b := 44) (by decide)]
      show readObject lax room (F' + 1)
          (skipSpace ((renderFields true ((k', x') :: fs')).toUTF8.toList ++ 125 :: rest))
          ((k, x) :: acc) = _
      rw [skipSpace_renderFields, readObject_renderFields ((k', x') :: fs') hfs'
        (List.cons_ne_nil _ _) (by omega) (by omega)]
      simp
    · intro r h
      exact absurd (List.cons.inj h).1 (by decide)

end

/-- Every reader takes a written document back whole. -/
theorem parse_render (v : Value) (hv : Value.PlainNumbers v) :
    parse lax (render true v).toUTF8.toList = some v := by
  -- the room and the fuel are the written length, and nothing follows the document
  have h := @readValue_render lax v hv _ _ [] le_rfl le_rfl (fun _ hb => by cases hb)
  rw [List.append_nil] at h
  rw [parse, h]
  rfl

end Read

end EntityIndex.Json

namespace EntityIndex

/-- What stores assume of a JSON library: it reads back every document it writes whose numbers
are plain. -/
def JsonLibrary.ReadsBack (j : JsonLibrary) : Prop :=
  ∀ v, Json.Value.PlainNumbers v → j.read (j.write v) = some v

/-- The JSON libraries of this library read back what they write, in both codecs. -/
theorem JsonLibraries.builtin_readsBack (c : Codec) : (c.library .builtin).ReadsBack := by
  intro v hv
  cases c <;> exact Json.parse_render _ v hv

end EntityIndex
