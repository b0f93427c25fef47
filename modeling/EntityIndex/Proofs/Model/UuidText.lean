import EntityIndex.Proofs.Text.Utf8Bytes
import EntityIndex.Model.Uuid

/-!
# Identifiers read back from their text

A workflow record is stored with its identifier as canonical text: 32 lowercase hexadecimal
digits grouped 8-4-4-4-12 by dashes. Reading that text takes the dashed form apart
(`undash_text`) and reads the digits most significant first (`ofDigits_digits`), so every
identifier below `2^128` reads back from its text (`parse?_text`). The text is ASCII, so its
bytes are its characters.
-/

namespace EntityIndex.Uuid

theorem undash_dashed {a b c d e : List Char} (ha : a.length = 8) (hb : b.length = 4)
    (hc : c.length = 4) (hd : d.length = 4) (he : e.length = 12) :
    undash (a ++ ['-'] ++ b ++ ['-'] ++ c ++ ['-'] ++ d ++ ['-'] ++ e) =
      some (a ++ b ++ c ++ d ++ e) := by
  simp only [List.append_assoc, List.singleton_append]
  unfold undash
  rw [if_pos]
  · simp [List.drop_append, List.drop_eq_nil_of_le, List.take_of_length_le, ha, hb, hc, hd, he]
  · simp [List.getD_eq_getElem?_getD, ha, hb, hc, hd, he]

/-- The groups of the dashed form put back together are the digits. -/
theorem groups_append (ds : List Char) :
    ds.take 8 ++ (ds.drop 8).take 4 ++ (ds.drop 12).take 4 ++ (ds.drop 16).take 4 ++ ds.drop 20 =
      ds := by
  have h20 : ds.drop 20 = (((ds.drop 8).drop 4).drop 4).drop 4 := by simp [List.drop_drop]
  have h16 : ds.drop 16 = ((ds.drop 8).drop 4).drop 4 := by simp [List.drop_drop]
  have h12 : ds.drop 12 = (ds.drop 8).drop 4 := by simp [List.drop_drop]
  rw [h20, h16, h12]
  simp only [List.append_assoc, List.take_append_drop]

theorem text_toList (u : Uuid) :
    u.text.toList = u.digits.take 8 ++ ['-'] ++ (u.digits.drop 8).take 4 ++ ['-'] ++
      (u.digits.drop 12).take 4 ++ ['-'] ++ (u.digits.drop 16).take 4 ++ ['-'] ++
      u.digits.drop 20 := by
  rw [text, String.toList_ofList]

theorem length_digits (u : Uuid) : u.digits.length = 32 := Quote.length_hexDigits 32 u.value

theorem undash_text (u : Uuid) : undash u.text.toList = some u.digits := by
  have hl := length_digits u
  rw [text_toList, undash_dashed (by simp [hl]) (by simp [hl]) (by simp [hl]) (by simp [hl])
    (by simp [hl]), groups_append]

theorem text_ascii (u : Uuid) : ∀ c ∈ u.text.toList, c.toNat < 128 := by
  have hd : ∀ c ∈ u.digits, c.toNat < 128 := Quote.hexDigits_ascii
  intro c hc
  rw [text_toList] at hc
  simp only [List.append_assoc, List.mem_append, List.mem_singleton] at hc
  -- a character of the text is a digit of one of the five groups or a dash
  rcases hc with h | rfl | h | rfl | h | rfl | h | rfl | h
  · exact hd c (List.mem_of_mem_take h)
  · decide
  · exact hd c (List.mem_of_mem_drop (List.mem_of_mem_take h))
  · decide
  · exact hd c (List.mem_of_mem_drop (List.mem_of_mem_take h))
  · decide
  · exact hd c (List.mem_of_mem_drop (List.mem_of_mem_take h))
  · decide
  · exact hd c (List.mem_of_mem_drop h)

theorem ofDigits_digits (u : Uuid) (h : u.value < 2 ^ 128) : ofDigits? u.digits = some u := by
  have hf := foldl_hexDigits 32 u.value 0
  rw [ofDigits?, if_pos (length_digits u)]
  show Option.map Uuid.mk ((Quote.hexDigits 32 u.value).foldl _ (some 0)) = _
  rw [hf, Nat.mod_eq_of_lt (by simpa using h)]
  simp

/-- The canonical text of an identifier reads back as that identifier. -/
theorem parse_text (u : Uuid) (h : u.value < 2 ^ 128) : parse u.text = .ok u := by
  have hbs : (u.text.toUTF8.toList.map fun b => Char.ofNat b.toNat) = u.text.toList := by
    rw [String.toUTF8_toList, chars_of_ascii_bytes (text_ascii u)]
  have hlen : u.text.toList.length = 36 := by
    rw [text_toList]
    simp [length_digits]
  unfold parse
  simp only [hbs, hlen, undash_text, Option.bind_some, ofDigits_digits u h]

theorem parse?_text (u : Uuid) (h : u.value < 2 ^ 128) : parse? u.text = some u := by
  rw [parse?, parse_text u h]

end EntityIndex.Uuid
