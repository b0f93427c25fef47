import EntityIndex.Proofs.Bucket.Shelf
import EntityIndex.Proofs.Bucket.Interleaving

/-!
# Chains of an index against one flat bucket

An index spreads its keys over chains of buckets; the flat bucket it is compared with holds all
of them in one unbounded bucket. `Refines x b F len` relates the buckets `b` of index `x`, by
address, to the flat bucket `F`:

* the chain of partition `p` is the buckets at depths below `len p`, each linking to the next,
  the last with no successor, and every bucket past it untouched;
* a key lives in one bucket, on the chain of its own partition;
* under every key, `F` holds exactly the entry that a bucket holds.

Every key has an owner on its chain (`Refines.owner`): the bucket that holds it, or else the tail.
A walk of an index passes every bucket before the owner, so its update lands where the flat
bucket's would. Writing the owner keeps the relation (`Refines.write`); growing a full tail
does too (`Refines.grow`). The walks of an insert half and of a delete half are proved here from
these facts, one bucket step at a time.
-/

namespace EntityIndex.Bucket

open EntityIndex.Bucket.Shelf

/-! ## Bucket addresses -/

theorem toList_bucketAt (x : Index) (p d : Nat) :
    (x.bucketAt p d).toList = ("bucket/" ++ x.name ++ "/").toList ++ Nat.toDigits 10 p ++
      (List.replicate d "/next".toList).flatten := by
  induction d with
  | zero => simp [Index.bucketAt, headId, Nat.toList_repr]
  | succ d ih => simp [Index.bucketAt, nextId, ih, List.replicate_succ']

/-- Digits followed by text that does not start with a digit: the digits are determined. -/
theorem digits_eq_of_append_eq {l₁ l₂ r₁ r₂ : List Char} (h₁ : ∀ c ∈ l₁, c.isDigit)
    (h₂ : ∀ c ∈ l₂, c.isDigit) (hr₁ : ∀ c ∈ r₁.head?, c.isDigit = false)
    (hr₂ : ∀ c ∈ r₂.head?, c.isDigit = false) (h : l₁ ++ r₁ = l₂ ++ r₂) : l₁ = l₂ := by
  induction l₁ generalizing l₂ with
  | nil =>
    cases l₂ with
    | nil => rfl
    | cons c t =>
      have hc := h₂ c (by simp)
      simp only [List.nil_append, List.cons_append] at h
      simp [h, hc] at hr₁
  | cons c t ih =>
    cases l₂ with
    | nil =>
      have hc := h₁ c (by simp)
      simp only [List.nil_append, List.cons_append] at h
      simp [← h, hc] at hr₂
    | cons c' t' =>
      simp only [List.cons_append, List.cons.injEq] at h
      obtain ⟨rfl, ht⟩ := h
      rw [ih (fun a ha => h₁ a (by simp [ha])) (fun a ha => h₂ a (by simp [ha])) ht]

theorem head?_steps (d : Nat) :
    ∀ c ∈ (List.replicate d "/next".toList).flatten.head?, c.isDigit = false := by
  cases d with
  | zero => simp
  | succ d => simp [List.replicate_succ]

theorem length_steps (d : Nat) : (List.replicate d "/next".toList).flatten.length = 5 * d := by
  simp [List.length_flatten, Nat.mul_comm]

/-- Bucket addresses name one partition and depth each: the partition is written in decimal
and followed by `/next` once per step down the chain. -/
theorem Index.bucketAt_inj {x : Index} {p p' d d' : Nat} :
    x.bucketAt p d = x.bucketAt p' d' ↔ p = p' ∧ d = d' := by
  constructor
  · intro h
    have hl := congrArg String.toList h
    rw [toList_bucketAt, toList_bucketAt, List.append_assoc, List.append_assoc] at hl
    have hl' := List.append_cancel_left hl
    have hp : Nat.toDigits 10 p = Nat.toDigits 10 p' :=
      digits_eq_of_append_eq (fun c hc => Nat.isDigit_of_mem_toDigits (by decide) (by decide) hc)
        (fun c hc => Nat.isDigit_of_mem_toDigits (by decide) (by decide) hc) (head?_steps d)
        (head?_steps d') hl'
    have hpp : p = p' := by
      rw [← @Nat.ofDigitChars_ten_toDigits p, hp, Nat.ofDigitChars_ten_toDigits]
    subst hpp
    have hs := congrArg List.length (List.append_cancel_left hl')
    rw [length_steps, length_steps] at hs
    exact ⟨rfl, by omega⟩
  · rintro ⟨rfl, rfl⟩
    rfl

theorem nextId_bucketAt (x : Index) (p d : Nat) : nextId (x.bucketAt p d) = x.bucketAt p (d + 1) :=
  rfl

theorem Index.bucketAt_ne_empty (x : Index) (p d : Nat) : x.bucketAt p d ≠ "" := by
  intro h
  have hl := congrArg String.toList h
  simp [toList_bucketAt] at hl

/-! ## One bucket against the flat bucket -/

namespace State

variable {s s' : State} {r : EntityRef} {k x : Key} {t uq : Bool} {m : IndexMeta} {e : Entry}
  {u : IndexUpdate}

theorem insert_of_entry (he : s.entry? k = some e) :
    s.insert r k t uq m =
      if uq && e.holdsOther r then .error (.uniqueness m.name k r) else .ok (.applied, s.add k r t) := by
  simp [State.insert, he]

theorem insert_of_canCreate (he : s.entry? k = none) (hc : s.canCreate m = true) :
    s.insert r k t uq m = .ok (.applied, s.add k r t) := by
  simp [State.insert, he, hc]

theorem insert_of_full (he : s.entry? k = none) (hc : s.canCreate m = false) :
    s.insert r k t uq m = .ok (.notFoundHere, s) := by
  simp [State.insert, he, hc]

theorem trackDelete_of_available (h : s.status = .available) : s.trackDelete k r = s := by
  simp [trackDelete, h]

theorem delete_of_owned (h : (s.entry? k).isSome ∨ m.chained = false ∨ s.next = "") :
    s.delete r k t m = .ok (.applied, (s.remove k r t).trackDelete k r) := by
  unfold State.delete
  rw [if_neg]
  rcases h with h | h | h <;> simp_all [Option.isSome_iff_ne_none]

theorem delete_of_passed (he : s.entry? k = none) (hc : m.chained = true) (hn : s.next ≠ "") :
    s.delete r k t m = .ok (.notFoundHere, s) := by
  simp [State.delete, he, hc, hn]

/-- Removing an entity from a key that does not hold it changes nothing. -/
theorem remove_of_not_holds (h : ∀ e, s.entry? k = some e → e.contains r = false) :
    s.remove k r t = s := by
  unfold State.remove
  cases he : s.entry? k with
  | none => rfl
  | some e => simp [h e he]

theorem status_add : (s.add k r t).status = s.status := rfl

/-- What adding leaves under the key depends only on the entry there. -/
theorem entry?_add_congr (h : s.entry? k = s'.entry? k) :
    State.entry? (s.add k r t) k = State.entry? (s'.add k r t) k := by
  simp [State.add, h]

/-- What removing leaves under the key depends only on the entry there. -/
theorem entry?_remove_congr (h : s.entry? k = s'.entry? k) :
    State.entry? (s.remove k r t) k = State.entry? (s'.remove k r t) k := by
  cases he : s'.entry? k with
  | none => simp [State.remove, h, he]
  | some e =>
    by_cases hc : e.contains r = true
    · by_cases ht : t = true
      · simp [State.remove, h, he, hc, ht]
      · by_cases hv : (e.values.filter (· != r)).isEmpty = true
        · simp [State.remove, h, he, hc, ht, hv]
        · simp [State.remove, h, he, hc, ht, hv]
    · simp [State.remove, h, he, hc]

/-- On a bucket that can take keys, a change between two different keys is its insert half
followed by its delete half. -/
theorem change_eq_halves (hc : s.canCreate m = true) (hs : s.status = .available)
    (hba : u.before ≠ u.after) :
    s.change r u uq m = (s.insert r u.after u.tentative uq m).bind fun (_, s₁) =>
      .ok (.applied, (s₁.remove u.before r u.tentative).trackDelete u.before r) := by
  -- when the entity is not under the before-image the delete half finds nothing to remove
  have hnot : (∀ e, s.entry? u.before = some e → e.contains r = false) →
      s.insert r u.after u.tentative uq m = (s.insert r u.after u.tentative uq m).bind fun (_, s₁) =>
        .ok (.applied, (s₁.remove u.before r u.tentative).trackDelete u.before r) := by
    intro hn
    have hrem : (s.add u.after r u.tentative).remove u.before r u.tentative =
        s.add u.after r u.tentative :=
      remove_of_not_holds (by simpa [entry?_add_of_ne s r _ hba] using hn)
    have htr : (s.add u.after r u.tentative).trackDelete u.before r = s.add u.after r u.tentative :=
      trackDelete_of_available (by simpa [status_add] using hs)
    cases ha : s.entry? u.after with
    | none => simp [insert_of_canCreate ha hc, Except.bind, hrem, htr]
    | some e =>
      rw [insert_of_entry ha]
      split
      · rfl
      · simp [Except.bind, hrem, htr]
  unfold State.change
  dsimp only
  cases hb : s.entry? u.before with
  | none =>
    simpa using hnot (by simp [hb])
  | some e =>
    by_cases hcon : e.contains r = true
    · simp only [hcon, Bool.not_true, Bool.false_eq_true, ↓reduceIte]
      cases ha : s.entry? u.after with
      | none => simp [insert_of_canCreate ha hc, hc, Except.bind]
      | some e' =>
        rw [insert_of_entry ha]
        by_cases ho : (uq && e'.holdsOther r) = true
        · simp [ho, Except.bind]
        · simp only [ho, Bool.false_eq_true, ↓reduceIte]
          rfl
    · simp only [hcon, Bool.not_false, ↓reduceIte]
      exact hnot (by simpa [hb] using hcon)

theorem apply_of_none (hop : u.op = .none) : s.apply r u uq m = .ok (.applied, s) := by
  simp [State.apply, hop]

theorem apply_of_insert (hop : u.op = .insert) (ht : (u.tentative && !uq) = false) :
    s.apply r u uq m = s.insert r u.after u.tentative uq m := by
  simp [State.apply, hop, ht]

theorem apply_of_delete (hop : u.op = .delete) (ht : (u.tentative && !uq) = false) :
    s.apply r u uq m = s.delete r u.before u.tentative m := by
  simp [State.apply, hop, ht]

theorem apply_of_update (hop : u.op = .update) (ht : (u.tentative && !uq) = false) :
    s.apply r u uq m = s.change r u uq m := by
  simp [State.apply, hop, ht]

/-- A tentative update with an operation is refused on a non-unique index, whatever the bucket. -/
theorem apply_of_tentative (ht : (u.tentative && !uq) = true) (hop : u.op ≠ .none) :
    s.apply r u uq m = .error (.tentativeNonUnique u) := by
  simp [State.apply, ht, hop]

end State

/-- The description of the flat bucket an index is compared with: the index's own, unbounded. -/
def Index.flatMeta (x : Index) : IndexMeta := { x.desc with maxEntries := 0 }

theorem Index.flatMeta_chained (x : Index) : x.flatMeta.chained = false := by
  simp [Index.flatMeta, IndexMeta.chained]

theorem Index.canCreate_flatMeta (x : Index) {F : State} (h : F.next = "") :
    F.canCreate x.flatMeta = true := by
  simp [State.canCreate, IndexMeta.atCapacity, Index.flatMeta, h]

/-- The empty bucket a new link starts as can take a key. -/
theorem canCreate_empty (m : IndexMeta) : State.canCreate {} m = true := by
  by_cases h : m.maxEntries ≤ 0 <;> simp [State.canCreate, IndexMeta.atCapacity, State.size, h]

/-- The tail of an unbounded chain takes every key. -/
theorem canCreate_of_unchained {s : State} {m : IndexMeta} (hn : s.next = "")
    (hc : m.chained = false) : s.canCreate m = true := by
  simp only [IndexMeta.chained, decide_eq_false_iff_not, Int.not_lt] at hc
  simp [State.canCreate, IndexMeta.atCapacity, hn, Int.not_lt.2 hc]

/-- A full tail belongs to a chained index. -/
theorem chained_of_full {s : State} {m : IndexMeta} (hn : s.next = "")
    (hc : s.canCreate m = false) : m.chained = true := by
  simp [State.canCreate, hn, IndexMeta.atCapacity] at hc
  simp [IndexMeta.chained, hc.1]

/-! ## The refinement relation -/

/-- The buckets `b` of index `x` keep chains of `len p` buckets per partition, and hold under
each key exactly what the flat bucket `F` holds. -/
structure Refines (x : Index) (b : String → State) (F : State) (len : Nat → Nat) : Prop where
  /-- Every bucket is available. -/
  available : ∀ id, (b id).status = .available
  /-- A chain has at least its head. -/
  pos : ∀ p, 0 < len p
  /-- Each bucket but the last links to the next. -/
  link : ∀ p d, d + 1 < len p → (b (x.bucketAt p d)).next = x.bucketAt p (d + 1)
  /-- The last has no successor. -/
  tail : ∀ p, (b (x.bucketAt p (len p - 1))).next = ""
  /-- Buckets past the tail are untouched. -/
  beyond : ∀ p d, len p ≤ d → b (x.bucketAt p d) = {}
  /-- An unbounded index has one bucket per partition. -/
  flat : x.desc.chained = false → ∀ p, len p = 1
  /-- A key lives on the chain of its partition. -/
  home : ∀ id k, (b id).hasKey k = true →
    ∃ d < len (x.partitionOf k), id = x.bucketAt (x.partitionOf k) d
  /-- A key lives in one bucket. -/
  once : ∀ id id' k, (b id).hasKey k = true → (b id').hasKey k = true → id = id'
  /-- The flat bucket holds under each key the entry a bucket holds there. -/
  holds : ∀ k e, F.entry? k = some e ↔ ∃ id, State.entry? (b id) k = some e
  /-- The flat bucket has no successor. -/
  flatNext : F.next = ""
  /-- The flat bucket is available. -/
  flatAvailable : F.status = .available

/-- Empty buckets, chains of one bucket each, and an empty flat bucket. -/
theorem Refines.empty (x : Index) : Refines x (fun _ => {}) {} (fun _ => 1) where
  available _ := rfl
  pos _ := Nat.one_pos
  link _ _ h := by omega
  tail _ := rfl
  beyond _ _ _ := rfl
  flat _ _ := rfl
  home _ _ h := by simp [State.hasKey, State.entry?] at h
  once _ _ _ h := by simp [State.hasKey, State.entry?] at h
  holds _ _ := by simp [State.entry?]
  flatNext := rfl
  flatAvailable := rfl

section Owner

variable {x : Index} {b : String → State} {F : State} {len : Nat → Nat}

/-- A key that the flat bucket lacks is in no bucket. -/
theorem Refines.entry?_eq_none (h : Refines x b F len) {k : Key} (hF : F.entry? k = none)
    (id : String) : State.entry? (b id) k = none := by
  cases he : State.entry? (b id) k with
  | none => rfl
  | some e => simpa [hF] using (h.holds k e).2 ⟨id, he⟩

/-- Every key has an owner on its chain: the bucket that holds it, or the tail when none does.
The owner's entry is the flat bucket's, and no other bucket has one. -/
theorem Refines.owner (h : Refines x b F len) (k : Key) :
    ∃ d < len (x.partitionOf k),
      State.entry? (b (x.bucketAt (x.partitionOf k) d)) k = F.entry? k ∧
      (∀ id, id ≠ x.bucketAt (x.partitionOf k) d → State.entry? (b id) k = none) ∧
      (F.entry? k = none → d + 1 = len (x.partitionOf k)) := by
  cases hF : F.entry? k with
  | some e =>
    obtain ⟨id, hid⟩ := (h.holds k e).1 hF
    obtain ⟨d, hd, rfl⟩ := h.home id k (by simp [State.hasKey, hid])
    refine ⟨d, hd, hid, fun id' hne => ?_, by simp⟩
    cases he' : State.entry? (b id') k with
    | none => rfl
    | some e' =>
      exact absurd (h.once _ _ k (by simp [State.hasKey, he']) (by simp [State.hasKey, hid])) hne
  | none =>
    -- no bucket holds the key, so the owner is the tail
    have hp := h.pos (x.partitionOf k)
    exact ⟨len (x.partitionOf k) - 1, by omega, h.entry?_eq_none hF _,
      fun id _ => h.entry?_eq_none hF id, fun _ => by omega⟩

/-- Writing the owner of key `k` keeps the relation, when the new state differs from the old
only under `k`, keeps the link, and has under `k` what the new flat bucket has. -/
theorem Refines.write (h : Refines x b F len) {k : Key} {d : Nat} {s F' : State}
    (hd : d < len (x.partitionOf k))
    (hown : ∀ id, id ≠ x.bucketAt (x.partitionOf k) d → State.entry? (b id) k = none)
    (hk : s.entry? k = F'.entry? k)
    (hs : ∀ y, y ≠ k → s.entry? y = State.entry? (b (x.bucketAt (x.partitionOf k) d)) y)
    (hF : ∀ y, y ≠ k → F'.entry? y = F.entry? y)
    (hnext : s.next = (b (x.bucketAt (x.partitionOf k) d)).next) (hst : s.status = .available)
    (hFn : F'.next = "") (hFs : F'.status = .available) :
    Refines x (Function.update b (x.bucketAt (x.partitionOf k) d) s) F' len := by
  generalize hc : x.bucketAt (x.partitionOf k) d = c at hown hs hnext ⊢
  have hnx : ∀ id, (Function.update b c s id).next = (b id).next := by
    intro id
    by_cases hid : id = c
    · subst hid
      simp [hnext]
    · simp [hid]
  -- under other keys every bucket is as it was; under `k` only the owner has an entry
  have hent : ∀ id y, y ≠ k → State.entry? (Function.update b c s id) y = State.entry? (b id) y := by
    intro id y hy
    by_cases hid : id = c
    · subst hid
      simp [hs y hy]
    · simp [hid]
  have hentk : ∀ id, id ≠ c → State.entry? (Function.update b c s id) k = none := by
    intro id hid
    simp [hid, hown id hid]
  refine ⟨fun id => ?_, h.pos, fun p' d' hlt => ?_, fun p' => ?_, fun p' d' hle => ?_, h.flat,
    fun id y hy => ?_, fun id id' y hy hy' => ?_, fun y e => ?_, hFn, hFs⟩
  · by_cases hid : id = c
    · subst hid
      simp [hst]
    · simp [hid, h.available id]
  · rw [hnx]
    exact h.link p' d' hlt
  · rw [hnx]
    exact h.tail p'
  · have hne : x.bucketAt p' d' ≠ c := by
      intro heq
      obtain ⟨rfl, rfl⟩ := Index.bucketAt_inj.1 (heq.trans hc.symm)
      omega
    simp [hne, h.beyond p' d' hle]
  · by_cases hyk : y = k
    · subst hyk
      by_cases hid : id = c
      · exact ⟨d, hd, hid.trans hc.symm⟩
      · simp [State.hasKey, hentk id hid] at hy
    · exact h.home id y (by simpa [State.hasKey, hent id y hyk] using hy)
  · by_cases hyk : y = k
    · subst hyk
      have h1 : id = c := by
        by_cases hid : id = c
        · exact hid
        · simp [State.hasKey, hentk id hid] at hy
      have h2 : id' = c := by
        by_cases hid : id' = c
        · exact hid
        · simp [State.hasKey, hentk id' hid] at hy'
      rw [h1, h2]
    · exact h.once id id' y (by simpa [State.hasKey, hent id y hyk] using hy)
        (by simpa [State.hasKey, hent id' y hyk] using hy')
  · by_cases hyk : y = k
    · subst hyk
      constructor
      · intro hy
        exact ⟨c, by simpa [hk] using hy⟩
      · rintro ⟨id, hid⟩
        by_cases hic : id = c
        · subst hic
          simpa [hk] using hid
        · simp [hentk id hic] at hid
    · rw [hF y hyk, h.holds y e]
      simp only [hent _ y hyk]

/-- Growing the tail of a chain keeps the relation, with the chain one bucket longer. -/
theorem Refines.grow (h : Refines x b F len) (hc : x.desc.chained = true) {p d : Nat}
    (hd : d + 1 = len p) :
    Refines x (Function.update b (x.bucketAt p d)
        { b (x.bucketAt p d) with next := nextId (x.bucketAt p d) }) F
      (Function.update len p (d + 2)) := by
  rw [nextId_bucketAt]
  generalize hT : x.bucketAt p d = T
  -- growing changes only the link of the tail
  have hent : ∀ id y, State.entry? (Function.update b T { b T with next := x.bucketAt p (d + 1) } id) y =
      State.entry? (b id) y := by
    intro id y
    by_cases hid : id = T
    · subst hid
      simp [State.entry?]
    · simp [hid]
  have hne : ∀ p' d', x.bucketAt p' d' = T → p' = p ∧ d' = d := fun p' d' heq =>
    Index.bucketAt_inj.1 (heq.trans hT.symm)
  have hlen : ∀ q, len q ≤ Function.update len p (d + 2) q := by
    intro q
    by_cases hq : q = p
    · subst hq
      simp only [Function.update_self]
      omega
    · simp [hq]
  refine ⟨fun id => ?_, fun q => ?_, fun p' d' hlt => ?_, fun p' => ?_, fun p' d' hle => ?_,
    fun hf => by simp [hc] at hf, fun id y hy => ?_, fun id id' y hy hy' => ?_, fun y e => ?_,
    h.flatNext, h.flatAvailable⟩
  · by_cases hid : id = T
    · subst hid
      simp [h.available]
    · simp [hid, h.available id]
  · exact Nat.lt_of_lt_of_le (h.pos q) (hlen q)
  · by_cases hq : p' = p
    · subst hq
      simp only [Function.update_self] at hlt
      by_cases hdd : d' = d
      · subst hdd
        simp [hT]
      · have hne' : x.bucketAt p' d' ≠ T := fun heq => hdd (hne p' d' heq).2
        simp [hne', h.link p' d' (by omega)]
    · have hne' : x.bucketAt p' d' ≠ T := fun heq => hq (hne p' d' heq).1
      simp [hne', h.link p' d' (by simpa [hq] using hlt)]
  · by_cases hq : p' = p
    · subst hq
      have hne' : x.bucketAt p' (d + 1) ≠ T := fun heq => by have := (hne _ _ heq).2; omega
      simp [show d + 2 - 1 = d + 1 by omega, hne', h.beyond p' (d + 1) (by omega)]
    · have hne' : x.bucketAt p' (len p' - 1) ≠ T := fun heq => hq (hne _ _ heq).1
      simp [hne', hq, h.tail p']
  · by_cases hq : p' = p
    · subst hq
      simp only [Function.update_self] at hle
      have hne' : x.bucketAt p' d' ≠ T := fun heq => by have := (hne _ _ heq).2; omega
      simp [hne', h.beyond p' d' (by omega)]
    · have hne' : x.bucketAt p' d' ≠ T := fun heq => hq (hne _ _ heq).1
      simp [hne', h.beyond p' d' (by simpa [hq] using hle)]
  · obtain ⟨d, hd, rfl⟩ := h.home id y (by simpa [State.hasKey, hent] using hy)
    exact ⟨d, Nat.lt_of_lt_of_le hd (hlen _), rfl⟩
  · exact h.once id id' y (by simpa [State.hasKey, hent] using hy)
      (by simpa [State.hasKey, hent] using hy')
  · simp only [hent]
    exact h.holds y e

/-- Adding under a key at its owner keeps the relation with the flat bucket after the same add. -/
theorem Refines.add_at (h : Refines x b F len) {k : Key} {d : Nat} (hd : d < len (x.partitionOf k))
    (hent : State.entry? (b (x.bucketAt (x.partitionOf k) d)) k = F.entry? k)
    (hown : ∀ id, id ≠ x.bucketAt (x.partitionOf k) d → State.entry? (b id) k = none)
    (r : EntityRef) (t : Bool) :
    Refines x (Function.update b (x.bucketAt (x.partitionOf k) d)
      ((b (x.bucketAt (x.partitionOf k) d)).add k r t)) (F.add k r t) len :=
  h.write hd hown (State.entry?_add_congr hent) (fun y hy => State.entry?_add_of_ne _ r t hy)
    (fun y hy => State.entry?_add_of_ne _ r t hy) (State.next_add _ _ _ t)
    (by rw [State.status_add]; exact h.available _) (by simp [h.flatNext])
    (by rw [State.status_add]; exact h.flatAvailable)

/-- Removing under a key at its owner keeps the relation with the flat bucket after the same
remove. -/
theorem Refines.remove_at (h : Refines x b F len) {k : Key} {d : Nat}
    (hd : d < len (x.partitionOf k))
    (hent : State.entry? (b (x.bucketAt (x.partitionOf k) d)) k = F.entry? k)
    (hown : ∀ id, id ≠ x.bucketAt (x.partitionOf k) d → State.entry? (b id) k = none)
    (r : EntityRef) (t : Bool) :
    Refines x (Function.update b (x.bucketAt (x.partitionOf k) d)
      ((b (x.bucketAt (x.partitionOf k) d)).remove k r t)) (F.remove k r t) len :=
  h.write hd hown (State.entry?_remove_congr hent) (fun y hy => State.entry?_remove_of_ne _ r t hy)
    (fun y hy => State.entry?_remove_of_ne _ r t hy) (State.next_remove _ _ _ t)
    (by rw [State.status_remove]; exact h.available _) (by simp [h.flatNext])
    (by rw [State.status_remove]; exact h.flatAvailable)

end Owner

/-! ## Walks along a chain -/

section Walks

variable {x : Index} {b b' : String → State} {r : EntityRef} {v : IndexUpdate} {id : String}
  {fuel : Nat} {res : Except Error Unit}

theorem Runs.applyChain_applied {s' : State}
    (h : (b id).apply r v x.desc.unique x.desc = .ok (.applied, s')) :
    Runs (x.applyChain r v (fuel + 1) id) b (.ok ()) (Function.update b id s') := by
  rw [Index.applyChain]
  exact Runs.bind (Runs.applyAt_applied h) (Runs.pure () _)

theorem Runs.applyChain_error {e : Error} (h : (b id).apply r v x.desc.unique x.desc = .error e) :
    Runs (x.applyChain r v (fuel + 1) id) b (.error e) b := by
  rw [Index.applyChain]
  exact Runs.bind_error (Runs.applyAt_error h)

/-- A bucket that passes the update on leaves the walk to the bucket after it. -/
theorem Runs.applyChain_succ {b₁ : String → State} {next : String} {s' : State}
    (h : (b id).apply r v x.desc.unique x.desc = .ok (.notFoundHere, s'))
    (hs : Runs (Index.successor id) b (.ok next) b₁)
    (hrest : Runs (x.applyChain r v fuel next) b₁ res b') :
    Runs (x.applyChain r v (fuel + 1) id) b res b' := by
  rw [Index.applyChain]
  exact Runs.bind (Runs.applyAt_notFoundHere h) (Runs.bind hs hrest)

/-- A bucket that passes the update on, and has a successor, leaves the walk to it. -/
theorem Runs.applyChain_pass {s' : State}
    (h : (b id).apply r v x.desc.unique x.desc = .ok (.notFoundHere, s')) (hn : (b id).next ≠ "")
    (hrest : Runs (x.applyChain r v fuel (b id).next) b res b') :
    Runs (x.applyChain r v (fuel + 1) id) b res b' :=
  Runs.applyChain_succ h (Runs.successor_linked hn) hrest

/-- A tail that passes the update on grows a successor and leaves the walk to it. -/
theorem Runs.applyChain_grow {s' : State}
    (h : (b id).apply r v x.desc.unique x.desc = .ok (.notFoundHere, s')) (hn : (b id).next = "")
    (hs : (b id).status = .available)
    (hrest : Runs (x.applyChain r v fuel (nextId id))
      (Function.update b id { b id with next := nextId id }) res b') :
    Runs (x.applyChain r v (fuel + 1) id) b res b' :=
  Runs.applyChain_succ h (Runs.successor_tail hn hs) hrest

/-- A walk that moves from each bucket above depth `d₀` on to the next, one fuel each, runs from
the head as it runs from depth `d₀` with the fuel left. -/
theorem Runs.chain_skip {α : Type} {walk : Nat → String → Run Shelf α} {p d₀ : Nat}
    {res : Except Error α}
    (hstep : ∀ f i, i < d₀ → Runs (walk f (x.bucketAt p (i + 1))) b res b' →
      Runs (walk (f + 1) (x.bucketAt p i)) b res b')
    (hrest : Runs (walk fuel (x.bucketAt p d₀)) b res b') :
    Runs (walk (fuel + d₀) (x.bucketAt p 0)) b res b' := by
  -- from depth `d`, with `n` buckets left to pass
  suffices hn : ∀ n d, d + n = d₀ → Runs (walk (fuel + n) (x.bucketAt p d)) b res b' from
    hn d₀ 0 (Nat.zero_add d₀)
  intro n
  induction n with
  | zero =>
    intro d hd
    rw [Nat.add_zero] at hd
    subst hd
    exact hrest
  | succ n ih =>
    intro d hd
    exact hstep (fuel + n) d (by omega) (ih (d + 1) (by omega))

/-- An update walks past the buckets above depth `d₀` that pass it on. -/
theorem Runs.applyChain_skip {p d₀ : Nat}
    (hlink : ∀ i < d₀, (b (x.bucketAt p i)).next = x.bucketAt p (i + 1))
    (hpass : ∀ i < d₀, ∃ s',
      (b (x.bucketAt p i)).apply r v x.desc.unique x.desc = .ok (.notFoundHere, s'))
    (hrest : Runs (x.applyChain r v fuel (x.bucketAt p d₀)) b res b') :
    Runs (x.applyChain r v (fuel + d₀) (x.bucketAt p 0)) b res b' := by
  refine Runs.chain_skip (fun f i hi hnext => ?_) hrest
  obtain ⟨s', hs'⟩ := hpass i hi
  have hl := hlink i hi
  refine Runs.applyChain_pass hs' (by rw [hl]; exact Index.bucketAt_ne_empty x p (i + 1)) ?_
  rwa [hl]

end Walks

section Halves

variable {x : Index} {b : String → State} {F : State} {len : Nat → Nat} (r : EntityRef)
  {v : IndexUpdate} {fuel : Nat}

/-- The flat bucket applies every delete where it is. -/
theorem flat_delete (h : Refines x b F len) (k : Key) (t : Bool) :
    F.delete r k t x.flatMeta = .ok (.applied, F.remove k r t) := by
  rw [State.delete_of_owned (.inr (.inl x.flatMeta_chained)),
    State.trackDelete_of_available (by rw [State.status_remove]; exact h.flatAvailable)]

/-- A full tail that lacks the key grows an empty successor, which takes the key: the walk from
the tail adds the entity one bucket further down, and the chain is one bucket longer. -/
theorem Refines.grow_walk (h : Refines x b F len) (hop : v.op = .insert)
    (ht : (v.tentative && !x.desc.unique) = false) {d₀ f : Nat}
    (hd : d₀ + 1 = len (x.partitionOf v.after)) (hFa : F.entry? v.after = none)
    (hcc : (b (x.bucketAt (x.partitionOf v.after) d₀)).canCreate x.desc = false) :
    ∃ b', Runs (x.applyChain r v (f + 1 + 1) (x.bucketAt (x.partitionOf v.after) d₀)) b (.ok ()) b' ∧
      Refines x b' (F.add v.after r v.tentative)
        (Function.update len (x.partitionOf v.after) (d₀ + 2)) := by
  have happly : ∀ s : State, s.apply r v x.desc.unique x.desc =
      s.insert r v.after v.tentative x.desc.unique x.desc := fun s => State.apply_of_insert hop ht
  have hnext : (b (x.bucketAt (x.partitionOf v.after) d₀)).next = "" := by
    have := h.tail (x.partitionOf v.after)
    rwa [show len (x.partitionOf v.after) - 1 = d₀ by omega] at this
  have hfull := happly (b (x.bucketAt (x.partitionOf v.after) d₀))
  rw [State.insert_of_full (h.entry?_eq_none hFa _) hcc] at hfull
  have h₁ := h.grow (chained_of_full hnext hcc) hd
  rw [nextId_bucketAt] at h₁
  generalize hb₁ : Function.update b (x.bucketAt (x.partitionOf v.after) d₀)
    { b (x.bucketAt (x.partitionOf v.after) d₀) with
      next := x.bucketAt (x.partitionOf v.after) (d₀ + 1) } = b₁ at h₁
  have hnew : b₁ (x.bucketAt (x.partitionOf v.after) (d₀ + 1)) = {} := by
    have hne : x.bucketAt (x.partitionOf v.after) (d₀ + 1) ≠
        x.bucketAt (x.partitionOf v.after) d₀ := fun heq => by
      have := (Index.bucketAt_inj.1 heq).2; omega
    rw [← hb₁, Function.update_of_ne hne, h.beyond _ _ (by omega)]
  -- linking the tail changes no entry, so still no bucket holds the key
  have hnone : ∀ id, State.entry? (b₁ id) v.after = none := by
    intro id
    rw [← hb₁]
    by_cases hid : id = x.bucketAt (x.partitionOf v.after) d₀
    · subst hid
      simpa [State.entry?] using h.entry?_eq_none hFa (x.bucketAt (x.partitionOf v.after) d₀)
    · rw [Function.update_of_ne hid]
      exact h.entry?_eq_none hFa id
  have hins := happly (b₁ (x.bucketAt (x.partitionOf v.after) (d₀ + 1)))
  rw [State.insert_of_canCreate (hnone _) (by rw [hnew]; exact canCreate_empty _)] at hins
  refine ⟨_, Runs.applyChain_grow hfull hnext (h.available _) ?_,
    h₁.add_at (show d₀ + 1 < Function.update len (x.partitionOf v.after) (d₀ + 2)
      (x.partitionOf v.after) by simp) ((hnone _).trans hFa.symm) (fun id _ => hnone id) r
      v.tentative⟩
  rw [nextId_bucketAt, hb₁]
  exact Runs.applyChain_applied hins

/-- The walk of an insert half does what the flat bucket's insert does. It is refused alike and
changes nothing, or it adds the entity at the key's owner; a full tail first grows a successor,
which takes the key. -/
theorem Refines.insert_walk (h : Refines x b F len) (hop : v.op = .insert)
    (ht : (v.tentative && !x.desc.unique) = false) (hfuel : len (x.partitionOf v.after) < fuel) :
    match F.insert r v.after v.tentative x.desc.unique x.flatMeta with
    | .error e => Runs (x.applyChain r v fuel (x.bucketAt (x.partitionOf v.after) 0)) b (.error e) b
    | .ok (_, F') => ∃ b' len',
        Runs (x.applyChain r v fuel (x.bucketAt (x.partitionOf v.after) 0)) b (.ok ()) b' ∧
        Refines x b' F' len' ∧ ∀ q, len' q ≤ len q + 1 := by
  obtain ⟨d₀, hd₀, hent, hown, htail⟩ := h.owner v.after
  have happly : ∀ s : State, s.apply r v x.desc.unique x.desc =
      s.insert r v.after v.tentative x.desc.unique x.desc := fun s => State.apply_of_insert hop ht
  have hlink : ∀ i < d₀, (b (x.bucketAt (x.partitionOf v.after) i)).next =
      x.bucketAt (x.partitionOf v.after) (i + 1) := fun i hi => h.link _ i (by omega)
  -- a bucket above the owner lacks the key and has a successor, so it passes the insert on
  have hpass : ∀ i < d₀, ∃ s', (b (x.bucketAt (x.partitionOf v.after) i)).apply r v
      x.desc.unique x.desc = .ok (.notFoundHere, s') := by
    intro i hi
    have hne : x.bucketAt (x.partitionOf v.after) i ≠ x.bucketAt (x.partitionOf v.after) d₀ :=
      fun heq => by have := (Index.bucketAt_inj.1 heq).2; omega
    refine ⟨b (x.bucketAt (x.partitionOf v.after) i), ?_⟩
    rw [happly, State.insert_of_full (hown _ hne)]
    simp [State.canCreate, hlink i hi, Index.bucketAt_ne_empty]
  obtain ⟨f, rfl⟩ : ∃ f, fuel = f + 1 + 1 + d₀ := ⟨fuel - d₀ - 2, by omega⟩
  cases hFa : F.entry? v.after with
  | some e =>
    -- the owner holds the key and decides as the flat bucket does
    rw [hFa] at hent
    have hins := happly (b (x.bucketAt (x.partitionOf v.after) d₀))
    rw [State.insert_of_entry hent] at hins
    rw [State.insert_of_entry hFa]
    by_cases hu : (x.desc.unique && e.holdsOther r) = true
    · rw [if_pos hu] at hins ⊢
      exact Runs.applyChain_skip hlink hpass (Runs.applyChain_error hins)
    · rw [if_neg hu] at hins ⊢
      exact ⟨_, len, Runs.applyChain_skip hlink hpass (Runs.applyChain_applied hins),
        h.add_at hd₀ (hent.trans hFa.symm) hown r v.tentative, fun q => Nat.le_succ _⟩
  | none =>
    rw [hFa] at hent
    rw [State.insert_of_canCreate hFa (x.canCreate_flatMeta h.flatNext)]
    -- no bucket holds the key: the owner is the tail
    have hd : d₀ + 1 = len (x.partitionOf v.after) := htail hFa
    cases hcc : (b (x.bucketAt (x.partitionOf v.after) d₀)).canCreate x.desc with
    | true =>
      have hins := happly (b (x.bucketAt (x.partitionOf v.after) d₀))
      rw [State.insert_of_canCreate hent hcc] at hins
      exact ⟨_, len, Runs.applyChain_skip hlink hpass (Runs.applyChain_applied hins),
        h.add_at hd₀ (hent.trans hFa.symm) hown r v.tentative, fun q => Nat.le_succ _⟩
    | false =>
      -- a full tail grows a successor, empty, which takes the key
      obtain ⟨b', hrun, h'⟩ := h.grow_walk r hop ht hd hFa hcc
      refine ⟨b', _, Runs.applyChain_skip hlink hpass hrun, h', fun q => ?_⟩
      by_cases hq : q = x.partitionOf v.after
      · subst hq
        simp only [Function.update_self]
        omega
      · simp [hq]

/-- The walk of a delete half removes the entity at the key's owner: the bucket that holds the
key, or else the tail, where there is nothing to remove. -/
theorem Refines.delete_walk (h : Refines x b F len) (hop : v.op = .delete)
    (ht : (v.tentative && !x.desc.unique) = false) (hfuel : len (x.partitionOf v.before) ≤ fuel) :
    ∃ b', Runs (x.applyChain r v fuel (x.bucketAt (x.partitionOf v.before) 0)) b (.ok ()) b' ∧
      Refines x b' (F.remove v.before r v.tentative) len := by
  obtain ⟨d₀, hd₀, hent, hown, htail⟩ := h.owner v.before
  have happly : ∀ s : State, s.apply r v x.desc.unique x.desc =
      s.delete r v.before v.tentative x.desc := fun s => State.apply_of_delete hop ht
  have hlink : ∀ i < d₀, (b (x.bucketAt (x.partitionOf v.before) i)).next =
      x.bucketAt (x.partitionOf v.before) (i + 1) := fun i hi => h.link _ i (by omega)
  -- a bucket above the owner, which only a chained index has, lacks the key and passes it on
  have hpass : ∀ i < d₀, ∃ s', (b (x.bucketAt (x.partitionOf v.before) i)).apply r v
      x.desc.unique x.desc = .ok (.notFoundHere, s') := by
    intro i hi
    have hne : x.bucketAt (x.partitionOf v.before) i ≠ x.bucketAt (x.partitionOf v.before) d₀ :=
      fun heq => by have := (Index.bucketAt_inj.1 heq).2; omega
    have hc : x.desc.chained = true := by
      cases hch : x.desc.chained with
      | true => rfl
      | false => have := h.flat hch (x.partitionOf v.before); omega
    refine ⟨b (x.bucketAt (x.partitionOf v.before) i), ?_⟩
    rw [happly, State.delete_of_passed (hown _ hne) hc
      (by rw [hlink i hi]; exact Index.bucketAt_ne_empty _ _ _)]
  obtain ⟨f, rfl⟩ : ∃ f, fuel = f + 1 + d₀ := ⟨fuel - d₀ - 1, by omega⟩
  -- the owner holds the key, or it is the tail
  have howned : (State.entry? (b (x.bucketAt (x.partitionOf v.before) d₀)) v.before).isSome ∨
      x.desc.chained = false ∨ (b (x.bucketAt (x.partitionOf v.before) d₀)).next = "" := by
    cases hFb : F.entry? v.before with
    | some e => exact .inl (by simp [hent, hFb])
    | none =>
      have := h.tail (x.partitionOf v.before)
      rw [show len (x.partitionOf v.before) - 1 = d₀ by have := htail hFb; omega] at this
      exact .inr (.inr this)
  have hdel := happly (b (x.bucketAt (x.partitionOf v.before) d₀))
  rw [State.delete_of_owned howned, State.trackDelete_of_available
    (by rw [State.status_remove]; exact h.available _)] at hdel
  exact ⟨_, Runs.applyChain_skip hlink hpass (Runs.applyChain_applied hdel),
    h.remove_at hd₀ hent hown r v.tentative⟩

end Halves

end EntityIndex.Bucket
