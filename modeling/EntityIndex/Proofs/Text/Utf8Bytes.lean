import Mathlib.Tactic.Ring
import EntityIndex.Text.Quote

/-!
# Text as bytes

Stored documents and frame headers are byte strings written from text as UTF-8
(`String.toUTF8`), and readers take them apart again one character at a time (`Utf8.front`).
Escapes and identifiers spell numbers in lowercase hexadecimal digits (`Quote.hexDigits`).
This module ties the writing and the reading directions together:

* the bytes of a text are the UTF-8 forms of its characters, one after another
  (`toUTF8_toList`), so the bytes of a concatenation are the concatenated bytes;
* `Utf8.front` reads the UTF-8 form of every character back as that character, whatever bytes
  follow (`front_utf8EncodeChar`), so lossy decoding gives every text back from its bytes
  (`decodeLossy_toUTF8`);
* digits read back most significant first give the number modulo `16 ^ n`
  (`foldl_hexDigits`), and a single digit gives its nibble (`digitValue_digit`).
-/

namespace EntityIndex

/-! ## The bytes of a text -/

theorem ByteArray.toList_loop (b : ByteArray) (i : Nat) (r : List UInt8) :
    ByteArray.toList.loop b i r = r.reverse ++ b.data.toList.drop i := by
  fun_induction ByteArray.toList.loop b i r with
  | case1 i r h ih =>
    have hi : i < b.data.toList.length := by simpa using h
    rw [ih, List.drop_eq_getElem_cons hi]
    simp [ByteArray.get!, h]
  | case2 i r h =>
    have hi : b.data.toList.length ≤ i := by simp at h ⊢; omega
    simp [List.drop_eq_nil_of_le hi]

theorem ByteArray.toList_eq (b : ByteArray) : b.toList = b.data.toList := by
  simp [ByteArray.toList, ByteArray.toList_loop]

/-- The bytes of a text are the UTF-8 forms of its characters, in order. -/
theorem String.toUTF8_toList (s : String) :
    s.toUTF8.toList = s.toList.flatMap String.utf8EncodeChar := by
  rw [ByteArray.toList_eq, String.toUTF8_eq_toByteArray, ← String.ofList_toList (s := s),
    String.toByteArray_ofList]
  simp [List.utf8Encode]

theorem String.toUTF8_toList_append (s t : String) :
    (s ++ t).toUTF8.toList = s.toUTF8.toList ++ t.toUTF8.toList := by
  rw [String.toUTF8_toList, String.toUTF8_toList, String.toUTF8_toList, String.toList_append,
    List.flatMap_append]

/-- A character below 128 is its own single byte. -/
theorem utf8EncodeChar_of_lt {c : Char} (h : c.toNat < 128) :
    String.utf8EncodeChar c = [UInt8.ofNat c.toNat] := by
  have h' : c.val.toNat ≤ 127 := by change c.toNat ≤ 127; omega
  simp only [String.utf8EncodeChar, if_pos h']
  rfl

/-- Characters below 128 are their own bytes. -/
theorem flatMap_utf8EncodeChar_of_ascii {l : List Char} (h : ∀ c ∈ l, c.toNat < 128) :
    l.flatMap String.utf8EncodeChar = l.map fun c => UInt8.ofNat c.toNat := by
  induction l with
  | nil => rfl
  | cons c l ih =>
    rw [List.flatMap_cons, List.map_cons, utf8EncodeChar_of_lt (h c (by simp)),
      ih fun x hx => h x (by simp [hx])]
    rfl

/-- The first byte of a character at or above 128 is at least `0xC0`, so it is no ASCII
byte. -/
theorem utf8EncodeChar_head {c : Char} (h : 128 ≤ c.toNat) :
    ∃ b bs, String.utf8EncodeChar c = b :: bs ∧ 0xC0 ≤ b.toNat := by
  have hc : c.val.toNat = c.toNat := rfl
  simp only [String.utf8EncodeChar, hc]
  split
  · omega
  · split
    · exact ⟨_, _, rfl, by simp only [UInt8.toNat_ofNat', Nat.reducePow]; omega⟩
    · split
      · exact ⟨_, _, rfl, by simp only [UInt8.toNat_ofNat', Nat.reducePow]; omega⟩
      · exact ⟨_, _, rfl, by simp only [UInt8.toNat_ofNat', Nat.reducePow]; omega⟩

/-- Bytes of ASCII characters taken back one character per byte give the characters. -/
theorem chars_of_ascii_bytes {l : List Char} (h : ∀ c ∈ l, c.toNat < 128) :
    (l.flatMap String.utf8EncodeChar).map (fun b => Char.ofNat b.toNat) = l := by
  rw [flatMap_utf8EncodeChar_of_ascii h, List.map_map]
  conv => rhs; rw [← List.map_id l]
  apply List.map_congr_left
  intro c hc
  have hb : (UInt8.ofNat c.toNat).toNat = c.toNat := by
    have := h c hc
    simp only [UInt8.toNat_ofNat', Nat.reducePow]
    omega
  simp only [Function.comp, hb, Char.ofNat_toNat, id]

theorem length_le_length_flatMap {α β : Type} {f : α → List β} (hf : ∀ a, f a ≠ [])
    (l : List α) : l.length ≤ (l.flatMap f).length := by
  induction l with
  | nil => simp
  | cons a l ih =>
    have := List.length_pos_iff.mpr (hf a)
    simp only [List.flatMap_cons, List.length_append, List.length_cons]
    omega

/-! ## Reading one character back -/

theorem Char.toNat_valid (c : Char) :
    c.toNat < 0xd800 ∨ (0xdfff < c.toNat ∧ c.toNat < 0x110000) := by
  have h := c.valid
  simp only [UInt32.isValidChar, Nat.isValidChar] at h
  exact h

namespace Utf8

/-- A byte that adds a multiple of `m` to a value below `m` keeps the value in its residue
modulo `m`: the marker bits of a lead or continuation byte do not disturb the bits it carries. -/
theorem byte_mod_of_lt {x k m : Nat} (hx : x < m) (hk : k % m = 0) (h : x + k < 256) :
    (x + k) % 256 % m = x := by
  rw [Nat.mod_eq_of_lt h, Nat.add_mod, hk, Nat.add_zero, Nat.mod_mod, Nat.mod_eq_of_lt hx]

section Front

variable (c : Char) (rest : List UInt8)

theorem front_one (h : c.toNat ≤ 127) :
    front ([UInt8.ofNat c.toNat] ++ rest) = some (.char c.toNat 1, rest) := by
  simp [front, Nat.mod_eq_of_lt (show c.toNat < 256 by omega)]
  omega

theorem front_two (h1 : ¬ c.toNat ≤ 127) (h2 : c.toNat ≤ 2047) :
    front ([UInt8.ofNat (c.toNat / 64 % 32 + 192), UInt8.ofNat (c.toNat % 64 + 128)] ++ rest) =
      some (.char c.toNat 2, rest) := by
  simp only [front, within, low6, List.cons_append, List.nil_append, UInt8.toNat_ofNat',
    Bool.and_eq_true, decide_eq_true_eq, Nat.reducePow]
  rw [if_neg (by omega), if_pos (by omega), if_pos (by omega),
    byte_mod_of_lt (by omega) rfl (by omega), byte_mod_of_lt (by omega) rfl (by omega)]
  congr 3
  omega

/-- Three bytes: the lead byte `0xE0` needs a second byte of `0xA0` or more (no overlong form),
and `0xED` one of `0x9F` or less (no surrogate), which the character's range gives. -/
theorem front_three (h1 : ¬ c.toNat ≤ 2047) (h2 : c.toNat ≤ 65535)
    (hs : c.toNat < 0xd800 ∨ 0xdfff < c.toNat) :
    front ([UInt8.ofNat (c.toNat / 4096 % 16 + 224), UInt8.ofNat (c.toNat / 64 % 64 + 128),
      UInt8.ofNat (c.toNat % 64 + 128)] ++ rest) = some (.char c.toNat 3, rest) := by
  simp only [front, within, low6, List.cons_append, List.nil_append, UInt8.toNat_ofNat',
    Bool.and_eq_true, decide_eq_true_eq, Nat.reducePow]
  rw [if_neg (by omega), if_neg (by omega), if_pos (by omega), if_pos]
  · rw [byte_mod_of_lt (by omega) rfl (by omega), byte_mod_of_lt (by omega) rfl (by omega),
      byte_mod_of_lt (by omega) rfl (by omega)]
    congr 3
    omega
  · constructor <;> constructor <;> first | omega | (split <;> omega)

theorem front_four (h1 : ¬ c.toNat ≤ 65535) (h2 : c.toNat < 0x110000) :
    front ([UInt8.ofNat (c.toNat / 262144 % 8 + 240), UInt8.ofNat (c.toNat / 4096 % 64 + 128),
      UInt8.ofNat (c.toNat / 64 % 64 + 128), UInt8.ofNat (c.toNat % 64 + 128)] ++ rest) =
      some (.char c.toNat 4, rest) := by
  simp only [front, within, low6, List.cons_append, List.nil_append, UInt8.toNat_ofNat',
    Bool.and_eq_true, decide_eq_true_eq, Nat.reducePow]
  rw [if_neg (by omega), if_neg (by omega), if_neg (by omega), if_pos (by omega), if_pos]
  · rw [byte_mod_of_lt (by omega) rfl (by omega), byte_mod_of_lt (by omega) rfl (by omega),
      byte_mod_of_lt (by omega) rfl (by omega), byte_mod_of_lt (by omega) rfl (by omega)]
    congr 3
    omega
  · refine ⟨⟨⟨?_, ?_⟩, by omega, by omega⟩, by omega, by omega⟩ <;> split <;> omega

/-- The UTF-8 form of a character reads back as that character, whatever follows it. -/
theorem front_utf8EncodeChar :
    front (String.utf8EncodeChar c ++ rest) =
      some (.char c.toNat (String.utf8EncodeChar c).length, rest) := by
  have hv := Char.toNat_valid c
  simp only [String.utf8EncodeChar]
  split
  · exact front_one c rest ‹_›
  · split
    · exact front_two c rest ‹_› ‹_›
    · split
      · exact front_three c rest ‹_› ‹_› (by omega)
      · exact front_four c rest ‹_› (by omega)

end Front

/-- Splitting the UTF-8 form of characters gives one piece per character, given fuel for each. -/
theorem pieces_go_flatMap (l : List Char) {fuel : Nat} (h : l.length ≤ fuel) :
    pieces.go fuel (l.flatMap String.utf8EncodeChar) =
      l.map fun c => .char c.toNat (String.utf8EncodeChar c).length := by
  induction l generalizing fuel with
  | nil => cases fuel <;> rfl
  | cons c l ih =>
    obtain ⟨f, rfl⟩ : ∃ f, fuel = f + 1 := ⟨fuel - 1, by simp at h; omega⟩
    rw [List.flatMap_cons, pieces.go, front_utf8EncodeChar]
    simp only [List.map_cons]
    rw [ih (by simp at h; omega)]

/-- Lossy decoding gives a text back from its UTF-8 form: only stray bytes are replaced. -/
theorem decodeLossy_toUTF8 (s : String) : decodeLossy s.toUTF8.toList = s := by
  have hlen := length_le_length_flatMap (fun c => String.utf8EncodeChar_ne_nil (c := c)) s.toList
  rw [decodeLossy, pieces, String.toUTF8_toList, pieces_go_flatMap _ hlen, List.map_map]
  conv => rhs; rw [← String.ofList_toList (s := s)]
  congr 1
  exact List.map_id'' (fun c => Char.ofNat_toNat c) _

end Utf8

/-! ## Hexadecimal digits -/

theorem Hex.digit_mod (k : Nat) : Hex.digit (k % 16) = Hex.digit k := by
  simp [Hex.digit]

theorem Hex.digitValue_digit (k : Nat) : Hex.digitValue? (Hex.digit k) = some (k % 16) := by
  have h : ∀ d < 16, Hex.digitValue? (Hex.digit d) = some d := by decide
  rw [← Hex.digit_mod, h _ (Nat.mod_lt _ (by decide))]

theorem Hex.digit_toNat_lt (k : Nat) : (Hex.digit k).toNat < 128 := by
  have h : ∀ d < 16, (Hex.digit d).toNat < 128 := by decide
  rw [← Hex.digit_mod]
  exact h _ (Nat.mod_lt _ (by decide))

theorem Quote.hexDigits_succ (n v : Nat) :
    Quote.hexDigits (n + 1) v = Hex.digit (v / 16 ^ n) :: Quote.hexDigits n v := by
  simp [Quote.hexDigits, List.range_succ, Nat.pow_eq]

theorem Quote.hexDigits_four (n : Nat) : Quote.hexDigits 4 n =
    [Hex.digit (n / 4096), Hex.digit (n / 256), Hex.digit (n / 16), Hex.digit n] := by
  rw [Quote.hexDigits_succ, Quote.hexDigits_succ, Quote.hexDigits_succ, Quote.hexDigits_succ]
  simp [Quote.hexDigits]

/-- The four digits of a byte are two zeros and its two digits. -/
theorem Quote.hexDigits_four_of_lt {n : Nat} (h : n < 256) :
    Quote.hexDigits 4 n = '0' :: '0' :: Quote.hexDigits 2 n := by
  rw [Quote.hexDigits_succ, Quote.hexDigits_succ, Nat.div_eq_of_lt (by omega),
    Nat.div_eq_of_lt (by omega)]
  rfl

theorem Quote.length_hexDigits (n v : Nat) : (Quote.hexDigits n v).length = n := by
  simp [Quote.hexDigits]

theorem Quote.hexDigits_ascii {n v : Nat} : ∀ c ∈ Quote.hexDigits n v, c.toNat < 128 := by
  intro c hc
  obtain ⟨i, -, rfl⟩ := List.mem_map.mp hc
  exact Hex.digit_toNat_lt _

/-- Hexadecimal digits are ASCII: their text is one byte per digit. -/
theorem toUTF8_hexDigits (m n : Nat) :
    (String.ofList (Quote.hexDigits m n)).toUTF8.toList =
      (Quote.hexDigits m n).map fun d => UInt8.ofNat d.toNat := by
  rw [String.toUTF8_toList, String.toList_ofList,
    flatMap_utf8EncodeChar_of_ascii Quote.hexDigits_ascii]

/-- Digits read most significant first, each through `Hex.digitValue?`, give the number
modulo `16 ^ n`, after whatever was read before. -/
theorem foldl_hexDigits (n v a : Nat) :
    (Quote.hexDigits n v).foldl
        (fun acc c => acc.bind fun m => (Hex.digitValue? c).map fun d => m * 16 + d) (some a) =
      some (a * 16 ^ n + v % 16 ^ n) := by
  induction n generalizing a with
  | zero => simp [Quote.hexDigits, Nat.mod_one]
  | succ n ih =>
    rw [Quote.hexDigits_succ, List.foldl_cons, Option.bind_some, Hex.digitValue_digit,
      Option.map_some, ih, Nat.mod_pow_succ]
    congr 1
    ring

end EntityIndex
