import Mathlib
import EntityIndex.Workflow.QueueId

/-!
# Queue identifiers read back

A queue identifier `queue/<interface>/<shard>@<node>` is read by cutting the prefix and an
optional `#reincarnated` suffix, then splitting at the last `@` and the last `/`. The interface
is whatever stands before that `/`, so it may hold slashes and at signs of its own; the node is
whatever stands after the `@`, so it can hold neither (`splitRest_node`). Hence an identifier
reads back as the address it was made from exactly when the node is free of both separators and,
for a queue that is not a reincarnation, does not itself end with the suffix
(`queue_identifiers_read_back`). The shard is any 64-bit integer: its decimal text reads back
(`readInt_toString`).

Reading is total, and where it slices the text the positions are in range: the cut between
shard and node comes after the one between interface and shard, and both fall inside the text
(`separators_in_bounds`).
-/

namespace EntityIndex.QueueId

/-! ## Text patterns -/

theorem endsWith_iff_suffix (s pat : String) :
    s.endsWith pat = true ↔ pat.toList <:+ s.toList := by
  rw [String.endsWith_eq_endsWith_toSlice, String.Slice.endsWith_string_iff, String.copy_toSlice]

theorem stateName_reincarnation (x : String) : stateName (reincarnation x) = x := by
  have h : (reincarnation x).endsWith reincarnatedSuffix = true := by
    rw [endsWith_iff_suffix, reincarnation, String.toList_append]
    exact List.suffix_append _ _
  rw [stateName, if_pos h]
  simp [reincarnation, List.take_left' (String.length_toList (s := x))]

/-! ## The last occurrence of a character -/

theorem lastIndex_append_of_not_mem {xs ys : List Char} {c : Char} (h : c ∉ ys) :
    lastIndex (xs ++ ys) c = lastIndex xs c := by
  have hnil : (ys.zipIdx xs.length).filter (·.1 = c) = [] := by
    rw [List.filter_eq_nil_iff]
    intro p hp hpc
    have hp1 : p.1 = c := by simpa using hpc
    exact h (hp1 ▸ List.fst_mem_of_mem_zipIdx hp)
  simp [lastIndex, List.zipIdx_append, hnil]

theorem lastIndex_snoc (xs : List Char) (c : Char) : lastIndex (xs ++ [c]) c = some xs.length := by
  simp [lastIndex, List.zipIdx_append]

theorem lastIndex_append_cons {xs ys : List Char} {c : Char} (h : c ∉ ys) :
    lastIndex (xs ++ c :: ys) c = some xs.length := by
  rw [List.append_cons, lastIndex_append_of_not_mem h, lastIndex_snoc]

/-- The last occurrence cuts the text into what stands before it and a rest without `c`. -/
theorem eq_append_cons_of_lastIndex {cs : List Char} {c : Char} {k : Nat}
    (h : lastIndex cs c = some k) : ∃ xs ys, cs = xs ++ c :: ys ∧ xs.length = k ∧ c ∉ ys := by
  induction cs using List.reverseRecOn with
  | nil => simp [lastIndex] at h
  | append_singleton xs d ih =>
    by_cases hd : d = c
    · subst hd
      rw [lastIndex_snoc] at h
      exact ⟨xs, [], by simp, Option.some_inj.1 h, by simp⟩
    · rw [lastIndex_append_of_not_mem (by simpa [eq_comm] using hd)] at h
      obtain ⟨ys, zs, rfl, hlen, hz⟩ := ih h
      exact ⟨ys, zs ++ [d], by simp, hlen, by simp [hz, Ne.symm hd]⟩

/-! ## Shard text -/

theorem isDigit_of_mem_toDigits {n : Nat} {c : Char} (h : c ∈ Nat.toDigits 10 n) :
    c.isDigit = true :=
  Nat.isDigit_of_mem_toDigits (by decide) (by decide) h

theorem le_ofDigitChars (cs : List Char) (acc : Nat) : acc ≤ Nat.ofDigitChars 10 cs acc := by
  rw [Nat.ofDigitChars_eq_ofDigitChars_zero]
  have : 1 ≤ 10 ^ cs.length := Nat.one_le_pow _ _ (by decide)
  exact Nat.le_add_right_of_le (Nat.le_mul_of_pos_left acc this)

/-- Digits scan to their value while it fits in 64 bits; every prefix is worth no more than the
whole, so no intermediate value overflows first. -/
theorem scanDigits_of_isDigit (cs : List Char) (acc : Nat) (hd : ∀ c ∈ cs, c.isDigit = true)
    (h : Nat.ofDigitChars 10 cs acc < 2 ^ 64) :
    scanDigits cs acc = .ok (Nat.ofDigitChars 10 cs acc) := by
  induction cs generalizing acc with
  | nil => rfl
  | cons c cs ih =>
    have hc : '0' ≤ c ∧ c ≤ '9' := by
      have := hd c (by simp)
      simp only [Char.isDigit, Bool.and_eq_true, decide_eq_true_eq] at this
      exact ⟨this.1, this.2⟩
    rw [Nat.ofDigitChars_cons, show '0'.toNat = 48 from rfl] at h ⊢
    have hstep := le_ofDigitChars cs (10 * acc + (c.toNat - 48))
    rw [scanDigits, if_pos hc, if_pos (by simp only [Nat.pow_eq] at h ⊢; omega)]
    rw [Nat.mul_comm acc]
    exact ih _ (fun d hd' => hd d (by simp [hd'])) h

theorem scanDigits_toDigits {n : Nat} (h : n < 2 ^ 64) :
    scanDigits (Nat.toDigits 10 n) 0 = .ok n := by
  have hd : ∀ c ∈ Nat.toDigits 10 n, c.isDigit = true := fun _ hc => isDigit_of_mem_toDigits hc
  rw [scanDigits_of_isDigit _ 0 hd (by rwa [Nat.ofDigitChars_ten_toDigits]),
    Nat.ofDigitChars_ten_toDigits]

theorem readInt_digits {n : Nat} {d : Char} {ds : List Char} (hn : n < 2 ^ 63)
    (hs : Nat.toDigits 10 n = d :: ds) : readInt (String.ofList (d :: ds)) = .ok (n : Int) := by
  have hdig : d.isDigit = true := isDigit_of_mem_toDigits (hs ▸ List.mem_cons_self)
  have hminus : d ≠ '-' := by rintro rfl; simp at hdig
  have hplus : d ≠ '+' := by rintro rfl; simp at hdig
  unfold readInt
  simp only [String.toList_ofList]
  -- the text starts with a digit, so it has no sign
  split
  · next r h => exact absurd (List.cons.inj h).1 hminus
  · next r h => exact absurd (List.cons.inj h).1 hplus
  · have hn' : n < Nat.pow 2 63 := by rw [Nat.pow_eq]; exact hn
    rw [← hs, scanDigits_toDigits (by omega)]
    simp only [hs, List.isEmpty_cons, Bool.false_eq_true, ↓reduceIte, if_pos hn']

/-- The decimal text of every 64-bit integer reads back as that integer. -/
theorem readInt_toString (s : Int64) : readInt (toString s.toInt) = .ok s.toInt := by
  have hlo := s.le_toInt
  have hhi := s.toInt_lt
  rw [Int.toString_eq_repr, Int.repr_eq_if]
  split
  · next h =>
    obtain ⟨d, ds, hs⟩ :=
      List.exists_cons_of_ne_nil (Nat.toDigits_ne_nil (n := s.toInt.toNat) (b := 10))
    rw [Nat.repr_eq_ofList_toDigits, hs, readInt_digits (by omega) hs, Int.toNat_of_nonneg h]
  · next h =>
    have hm : (-s.toInt).toNat < 2 ^ 64 := by omega
    unfold readInt
    simp [Nat.pow_eq, scanDigits_toDigits hm]
    rw [if_pos (by omega)]
    congr 1
    omega

/-- An integer's text is a sign and digits: no separator of an identifier. -/
theorem mem_toString_int {v : Int} {c : Char} (h : c ∈ (toString v).toList) :
    c = '-' ∨ c.isDigit = true := by
  rw [Int.toString_eq_repr, Int.repr_eq_if] at h
  split at h
  · exact .inr (isDigit_of_mem_toDigits (by simpa using h))
  · simp only [String.toList_append, List.mem_append] at h
    rcases h with h | h
    · exact .inl (by simpa using h)
    · exact .inr (isDigit_of_mem_toDigits (by simpa using h))

theorem separators_not_mem_toString (v : Int) :
    '@' ∉ (toString v).toList ∧ '/' ∉ (toString v).toList := by
  constructor <;> intro h <;> rcases mem_toString_int h with h | h <;> simp at h

/-! ## Splitting at the separators -/

/-- Reading once the prefix and the suffix are settled: `rest` split at its last `/` and its
last `@`, with `invalid` the message for a text that does not split. -/
def splitRest (invalid : String) (rest : List Char) (reinc : Bool) : Except String Address :=
  match lastIndex rest '@', lastIndex rest '/' with
  | some at_, some slash =>
    if at_ < slash then .error invalid
    else
      let shardText := String.ofList ((rest.drop (slash + 1)).take (at_ - slash - 1))
      match readInt shardText with
      | .error e => .error (invalid ++ ": " ++ e.describe shardText)
      | .ok shard =>
        .ok ⟨String.ofList (rest.take slash), shard, String.ofList (rest.drop (at_ + 1)), reinc⟩
  | _, _ => .error invalid

/-- Every address read has the flag it was given and a node with neither separator: the node
is what follows the last `@`, and that `@` stands after the last `/`. -/
theorem splitRest_node {invalid : String} {rest : List Char} {reinc : Bool} {a : Address}
    (h : splitRest invalid rest reinc = .ok a) :
    '@' ∉ a.node.toList ∧ '/' ∉ a.node.toList ∧ a.reincarnated = reinc := by
  unfold splitRest at h
  split at h
  · next at_ slash hat hslash =>
    split at h
    · cases h
    · next hle =>
      dsimp only at h
      split at h
      · cases h
      · cases h
        obtain ⟨xs, ys, rfl, rfl, hys⟩ := eq_append_cons_of_lastIndex hat
        obtain ⟨us, vs, hus, rfl, hvs⟩ := eq_append_cons_of_lastIndex hslash
        -- what follows the last `@` lies within what follows the last `/`
        have hdrop : ys = vs.drop (xs.length - us.length) := by
          have h1 : (xs ++ '@' :: ys).drop (xs.length + 1) = ys := by simp
          have h2 : (us ++ '/' :: vs).drop (xs.length + 1) = vs.drop (xs.length - us.length) := by
            rw [show xs.length + 1 = us.length + (xs.length - us.length + 1) by omega,
              List.drop_length_add_append, List.drop_succ_cons]
          rw [← h1, hus, h2]
        refine ⟨by simpa using hys, ?_, rfl⟩
        simpa [hdrop] using fun h => hvs (List.mem_of_mem_drop h)
  · cases h

/-- Where reading slices the text, the positions are in range: the `@` found last stands after
the `/` found last, and within the text. -/
theorem separators_in_bounds {rest : List Char} {at_ slash : Nat}
    (hat : lastIndex rest '@' = some at_) (hslash : lastIndex rest '/' = some slash)
    (hle : ¬ at_ < slash) : slash + 1 ≤ at_ ∧ at_ < rest.length := by
  obtain ⟨xs, ys, rfl, rfl, -⟩ := eq_append_cons_of_lastIndex hat
  obtain ⟨us, vs, hus, rfl, -⟩ := eq_append_cons_of_lastIndex hslash
  -- the two positions hold different characters, so they differ
  have hne : us.length ≠ xs.length := by
    intro heq
    have := congrArg (·[xs.length]?) hus
    simp [← heq] at this
  refine ⟨by omega, by simp⟩

/-- The text of an identifier after its prefix, with a node free of separators, splits into the
interface, shard and node it was made from. -/
theorem splitRest_make (invalid i n : String) (s : Int64) (reinc : Bool)
    (hat : '@' ∉ n.toList) (hslash : '/' ∉ n.toList) :
    splitRest invalid (i.toList ++ '/' :: ((toString s.toInt).toList ++ '@' :: n.toList)) reinc =
      .ok ⟨i, s.toInt, n, reinc⟩ := by
  obtain ⟨hdAt, hdSlash⟩ := separators_not_mem_toString s.toInt
  have hread := readInt_toString s
  rw [← String.ofList_toList (s := toString s.toInt)] at hread
  generalize (toString s.toInt).toList = d at hdAt hdSlash hread ⊢
  have hlastAt : lastIndex (i.toList ++ '/' :: (d ++ '@' :: n.toList)) '@' =
      some (i.toList.length + 1 + d.length) := by
    rw [show i.toList ++ '/' :: (d ++ '@' :: n.toList) = (i.toList ++ '/' :: d) ++ '@' :: n.toList
      by simp, lastIndex_append_cons hat]
    simp
    omega
  have hlastSlash : lastIndex (i.toList ++ '/' :: (d ++ '@' :: n.toList)) '/' =
      some i.toList.length :=
    lastIndex_append_cons (by simp [hslash, hdSlash])
  unfold splitRest
  rw [hlastAt, hlastSlash]
  dsimp only
  rw [if_neg (by omega)]
  have hshard : ((i.toList ++ '/' :: (d ++ '@' :: n.toList)).drop (i.toList.length + 1)).take
      (i.toList.length + 1 + d.length - i.toList.length - 1) = d := by
    rw [show i.toList.length + 1 + d.length - i.toList.length - 1 = d.length by omega]
    simp
  have hnode : (i.toList ++ '/' :: (d ++ '@' :: n.toList)).drop
      (i.toList.length + 1 + d.length + 1) = n.toList := by
    rw [show i.toList.length + 1 + d.length + 1 = i.toList.length + (d.length + 1 + 1) by omega,
      List.drop_length_add_append]
    simp
  rw [hshard, hread, hnode]
  simp

/-! ## Reading whole identifiers -/

/-- Reading an identifier with the queue prefix is splitting what follows the prefix, less the
reincarnation suffix where it ends with one. -/
theorem parse_queue (rest : List Char) :
    parse (String.ofList ("queue/".toList ++ rest)) =
      splitRest ("invalid queue id " ++ Quote.quote (String.ofList ("queue/".toList ++ rest)))
        (if reincarnatedSuffix.toList <:+ rest then
          rest.take (rest.length - reincarnatedSuffix.length) else rest)
        (decide (reincarnatedSuffix.toList <:+ rest)) := by
  have hstart : (String.ofList ("queue/".toList ++ rest)).startsWith "queue/" = true := by
    simp
  have hdrop : (String.ofList ("queue/".toList ++ rest)).toList.drop 6 = rest := by simp
  have hend : (String.ofList rest).endsWith reincarnatedSuffix =
      decide (reincarnatedSuffix.toList <:+ rest) := by
    rw [Bool.eq_iff_iff, endsWith_iff_suffix, String.toList_ofList, decide_eq_true_iff]
  unfold parse
  simp only [hstart, hdrop, hend, Bool.not_true, Bool.false_eq_true, if_false, decide_eq_true_eq]
  rfl

theorem make_eq (i : String) (s : Int) (n : String) :
    make i s n = String.ofList ("queue/".toList ++
      (i.toList ++ '/' :: ((toString s).toList ++ '@' :: n.toList))) := by
  rw [← String.toList_inj]
  simp [make]

theorem reincarnation_make_eq (i : String) (s : Int) (n : String) :
    reincarnation (make i s n) = String.ofList ("queue/".toList ++
      ((i.toList ++ '/' :: ((toString s).toList ++ '@' :: n.toList)) ++
        reincarnatedSuffix.toList)) := by
  rw [← String.toList_inj]
  simp [make, reincarnation]

/-- The suffix holds no `@`, so an identifier ends with it only if its node does. -/
theorem suffix_of_suffix_at {xs ns : List Char} (h : reincarnatedSuffix.toList <:+ xs ++ '@' :: ns) :
    reincarnatedSuffix.toList <:+ ns := by
  have hat : ('@' :: ns) <:+ xs ++ '@' :: ns := List.suffix_append _ _
  rcases List.suffix_or_suffix_of_suffix h hat with h' | h'
  · rcases List.suffix_cons_iff.1 h' with heq | h''
    · exact absurd (congrArg List.head? heq) (by simp [reincarnatedSuffix])
    · exact h''
  · exact absurd (h'.subset List.mem_cons_self) (by simp [reincarnatedSuffix])

/-- A plain identifier reads back as its address exactly when the node holds no separator and
does not end with the reincarnation suffix. -/
theorem parse_make_iff (i : String) (s : Int64) (n : String) :
    parse (make i s.toInt n) = .ok ⟨i, s.toInt, n, false⟩ ↔
      '@' ∉ n.toList ∧ '/' ∉ n.toList ∧ ¬ reincarnatedSuffix.toList <:+ n.toList := by
  rw [make_eq, parse_queue]
  constructor
  · intro h
    obtain ⟨hat, hslash, hreinc⟩ := splitRest_node h
    refine ⟨hat, hslash, fun hn => ?_⟩
    -- a node ending with the suffix makes the whole identifier end with it
    have : reincarnatedSuffix.toList <:+ i.toList ++ '/' :: ((toString s.toInt).toList ++
        '@' :: n.toList) :=
      hn.trans (by simpa using List.suffix_append (i.toList ++ '/' :: (toString s.toInt).toList ++ ['@']) n.toList)
    rw [decide_eq_true this] at hreinc
    cases hreinc
  · rintro ⟨hat, hslash, hn⟩
    have hplain : ¬ reincarnatedSuffix.toList <:+ i.toList ++ '/' :: ((toString s.toInt).toList ++
        '@' :: n.toList) := by
      intro h
      have h' : reincarnatedSuffix.toList <:+
          (i.toList ++ '/' :: (toString s.toInt).toList) ++ '@' :: n.toList := by simpa using h
      exact hn (suffix_of_suffix_at h')
    rw [if_neg hplain, decide_eq_false hplain]
    exact splitRest_make _ i n s false hat hslash

/-- A reincarnation's identifier reads back as its address, flagged, exactly when the node holds
no separator. -/
theorem parse_reincarnation_make_iff (i : String) (s : Int64) (n : String) :
    parse (reincarnation (make i s.toInt n)) = .ok ⟨i, s.toInt, n, true⟩ ↔
      '@' ∉ n.toList ∧ '/' ∉ n.toList := by
  rw [reincarnation_make_eq, parse_queue]
  have hsuf : reincarnatedSuffix.toList <:+ (i.toList ++ '/' :: ((toString s.toInt).toList ++
      '@' :: n.toList)) ++ reincarnatedSuffix.toList := List.suffix_append _ _
  have htake : ((i.toList ++ '/' :: ((toString s.toInt).toList ++ '@' :: n.toList)) ++
      reincarnatedSuffix.toList).take ((i.toList ++ '/' :: ((toString s.toInt).toList ++
        '@' :: n.toList) ++ reincarnatedSuffix.toList).length - reincarnatedSuffix.length) =
      i.toList ++ '/' :: ((toString s.toInt).toList ++ '@' :: n.toList) := by
    rw [List.length_append, ← String.length_toList (s := reincarnatedSuffix), Nat.add_sub_cancel]
    exact List.take_left
  rw [if_pos hsuf, decide_eq_true hsuf, htake]
  constructor
  · intro h
    obtain ⟨hat, hslash, -⟩ := splitRest_node h
    exact ⟨hat, hslash⟩
  · rintro ⟨hat, hslash⟩
    exact splitRest_make _ i n s true hat hslash

/-- Queue identifiers read back: a reincarnation's state is the state of the queue it replaces;
an identifier reads back as the address it was made from, whatever the interface and the
64-bit shard, exactly when the node holds neither `@` nor `/` and, for a queue that is not a
reincarnation, does not end with `#reincarnated`; and wherever reading slices a text, the
positions it slices at are in range. -/
theorem queue_identifiers_read_back :
    (∀ x, stateName (reincarnation x) = x) ∧
    (∀ (i : String) (s : Int64) (n : String),
      (parse (make i s.toInt n) = .ok ⟨i, s.toInt, n, false⟩ ↔
        '@' ∉ n.toList ∧ '/' ∉ n.toList ∧ ¬ reincarnatedSuffix.toList <:+ n.toList) ∧
      (parse (reincarnation (make i s.toInt n)) = .ok ⟨i, s.toInt, n, true⟩ ↔
        '@' ∉ n.toList ∧ '/' ∉ n.toList)) ∧
    (∀ (rest : List Char) (at_ slash : Nat), lastIndex rest '@' = some at_ →
      lastIndex rest '/' = some slash → ¬ at_ < slash → slash + 1 ≤ at_ ∧ at_ < rest.length) :=
  ⟨stateName_reincarnation,
    fun i s n => ⟨parse_make_iff i s n, parse_reincarnation_make_iff i s n⟩,
    fun _ _ _ => separators_in_bounds⟩

/-- The queue of shard 3 of `shop/IPlayer` on `node-1` reads back, and its text is sliced in
range. -/
theorem shop_queue_reads_back :
    parse (make "shop/IPlayer" (3 : Int64).toInt "node-1") =
        .ok ⟨"shop/IPlayer", (3 : Int64).toInt, "node-1", false⟩ ∧
      (12 + 1 ≤ 14 ∧ 14 < "shop/IPlayer/3@node-1".toList.length) :=
  ⟨(queue_identifiers_read_back.2.1 "shop/IPlayer" 3 "node-1").1.2
      ⟨by decide, by decide, by decide⟩,
    queue_identifiers_read_back.2.2 "shop/IPlayer/3@node-1".toList 14 12 (by decide) (by decide)
      (by decide)⟩

end EntityIndex.QueueId
