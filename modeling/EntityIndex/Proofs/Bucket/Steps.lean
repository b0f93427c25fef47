import EntityIndex.Proofs.Bucket.Entries

/-!
# What one bucket step does to its keys

An update applied to a bucket keeps the successor link. It gives a new entry only to the
after-image of an insert or an update (`newKeys`), and only when the bucket can take new keys.
It touches no entry outside the keys of the update. When it answers that the key belongs
further down the chain, it changes nothing, and the key it would have added is not in the
bucket. A batch through one bucket is a fold of such updates, so it inherits all of this. For an
index whose updates arrive split into halves, the items it passes on also name only keys the
bucket does not hold. Changing the status only removes entities.

On a unique index every step also keeps at most one entity per entry.
-/

namespace EntityIndex.Bucket

/-- Whether the bucket has an entry under `k`. -/
def State.hasKey (s : State) (k : Key) : Bool := (s.entry? k).isSome

/-- The keys an update may add an entry for: the after-image of an insert or an update. -/
def newKeys (u : IndexUpdate) : List Key :=
  match u.op with
  | .insert | .update => [u.after]
  | _ => []

/-- The update a write makes when an entity's value appears as key `k`. -/
def insertOf (k : Key) : IndexUpdate := IndexUpdate.plain ⟨.insert, Key.null, k⟩

/-- The update a write makes when an entity's value `k` disappears. -/
def deleteOf (k : Key) : IndexUpdate := IndexUpdate.plain ⟨.delete, k, Key.null⟩

/-- Whether an update is one half of a split update: a plain insert or delete. -/
def isHalf (u : IndexUpdate) : Bool := u.op == .insert || u.op == .delete

theorem newKeys_subset_updateKeys (u : IndexUpdate) : ∀ k ∈ newKeys u, k ∈ updateKeys u := by
  intro k hk
  unfold newKeys at hk
  unfold updateKeys
  split at hk <;> simp_all

namespace State

variable {s s' : State} {r : EntityRef} {k x : Key} {t uq : Bool} {m : IndexMeta} {o : Outcome}
  {u : IndexUpdate}

theorem hasKey_add : (s.add k r t).hasKey x = (decide (x = k) || s.hasKey x) := by
  by_cases h : x = k <;> simp [hasKey, add, h]

theorem hasKey_of_hasKey_remove (h : (s.remove k r t).hasKey x = true) : s.hasKey x = true := by
  simpa [hasKey] using entry?_remove_isSome s k x r h

@[simp]
theorem hasKey_trackDelete : (s.trackDelete k r).hasKey x = s.hasKey x := by
  simp [hasKey]

/-! ## Insert, delete, change -/

/-- An insert passes the key on when it is not here and the bucket can take no new key;
otherwise, unless refused, it adds the entity, under a key already here or one the bucket can
take. -/
theorem insert_result (h : s.insert r k t uq m = .ok (o, s')) :
    (o = .notFoundHere ∧ s' = s ∧ s.entry? k = none ∧ s.canCreate m = false) ∨
      (o = .applied ∧ s' = s.add k r t ∧ ((s.entry? k).isSome ∨ s.canCreate m = true)) := by
  unfold State.insert at h
  split at h
  · rename_i he
    split at h
    · rename_i hc
      simp only [Except.ok.injEq, Prod.mk.injEq] at h
      exact Or.inr ⟨h.1.symm, h.2.symm, Or.inr hc⟩
    · rename_i hc
      simp only [Except.ok.injEq, Prod.mk.injEq] at h
      exact Or.inl ⟨h.1.symm, h.2.symm, he, by simpa using hc⟩
  · rename_i e he
    split at h
    · cases h
    · simp only [Except.ok.injEq, Prod.mk.injEq] at h
      exact Or.inr ⟨h.1.symm, h.2.symm, Or.inl (by simp [he])⟩

theorem insert_next (h : s.insert r k t uq m = .ok (o, s')) : s'.next = s.next := by
  rcases insert_result h with ⟨-, rfl, -, -⟩ | ⟨-, rfl, -⟩ <;> simp

theorem insert_status (h : s.insert r k t uq m = .ok (o, s')) : s'.status = s.status := by
  rcases insert_result h with ⟨-, rfl, -, -⟩ | ⟨-, rfl, -⟩ <;> rfl

theorem insert_hasKey (h : s.insert r k t uq m = .ok (o, s')) (hx : s'.hasKey x = true) :
    s.hasKey x = true ∨ (s.canCreate m = true ∧ x = k) := by
  rcases insert_result h with ⟨-, rfl, -, -⟩ | ⟨-, rfl, hk⟩
  · exact Or.inl hx
  · by_cases hxk : x = k
    · subst hxk
      rcases hk with hk | hc
      · exact Or.inl hk
      · exact Or.inr ⟨hc, rfl⟩
    · exact Or.inl (by simpa [hasKey_add, hxk] using hx)

theorem insert_notFoundHere (h : s.insert r k t uq m = .ok (.notFoundHere, s')) :
    s' = s ∧ s.hasKey k = false ∧ s.canCreate m = false := by
  rcases insert_result h with ⟨-, rfl, he, hc⟩ | ⟨ho, -, -⟩
  · exact ⟨rfl, by simp [hasKey, he], hc⟩
  · cases ho

theorem insert_entry?_of_ne (h : s.insert r k t uq m = .ok (o, s')) (hx : x ≠ k) :
    s'.entry? x = s.entry? x := by
  rcases insert_result h with ⟨-, rfl, -, -⟩ | ⟨-, rfl, -⟩
  · rfl
  · exact entry?_add_of_ne s r t hx

theorem delete_result (h : s.delete r k t m = .ok (o, s')) :
    (o = .notFoundHere ∧ s' = s ∧ s.hasKey k = false ∧ m.chained = true) ∨
      (o = .applied ∧ s' = (s.remove k r t).trackDelete k r) := by
  unfold State.delete at h
  split at h
  · rename_i hc
    simp only [Except.ok.injEq, Prod.mk.injEq] at h
    obtain ⟨rfl, rfl⟩ := h
    simp only [Bool.and_eq_true, Option.isNone_iff_eq_none] at hc
    exact Or.inl ⟨rfl, rfl, by simp [hasKey, hc.1.1], hc.1.2⟩
  · simp only [Except.ok.injEq, Prod.mk.injEq] at h
    obtain ⟨rfl, rfl⟩ := h
    exact Or.inr ⟨rfl, rfl⟩

theorem delete_next (h : s.delete r k t m = .ok (o, s')) : s'.next = s.next := by
  rcases delete_result h with ⟨-, rfl, -, -⟩ | ⟨-, rfl⟩ <;> simp

theorem delete_status (h : s.delete r k t m = .ok (o, s')) : s'.status = s.status := by
  rcases delete_result h with ⟨-, rfl, -, -⟩ | ⟨-, rfl⟩ <;> simp

theorem delete_hasKey (h : s.delete r k t m = .ok (o, s')) (hx : s'.hasKey x = true) :
    s.hasKey x = true := by
  rcases delete_result h with ⟨-, rfl, -, -⟩ | ⟨-, rfl⟩
  · exact hx
  · exact hasKey_of_hasKey_remove (by simpa using hx)

theorem delete_entry?_of_ne (h : s.delete r k t m = .ok (o, s')) (hx : x ≠ k) :
    s'.entry? x = s.entry? x := by
  rcases delete_result h with ⟨-, rfl, -, -⟩ | ⟨-, rfl⟩
  · rfl
  · simpa using entry?_remove_of_ne s r t hx

/-- A change is either an insert of the after-image, when the entity is not under the
before-image, or a move of the entity, for which the after-image is already here or the bucket
can take it. -/
theorem change_cases (hm : s.change r u uq m = .ok (o, s')) :
    s.insert r u.after u.tentative uq m = .ok (o, s') ∨
      (o = .applied ∧
        s' = ((s.add u.after r u.tentative).remove u.before r u.tentative).trackDelete u.before r ∧
        ((s.entry? u.after).isSome ∨ s.canCreate m = true) ∧
        ∀ e, s.entry? u.after = some e → (uq && e.holdsOther r) = false) := by
  unfold State.change at hm
  dsimp only at hm
  -- whether the entity is under the before-image decides between the two
  cases hb : s.entry? u.before with
  | none =>
    simp only [hb, Bool.not_false, ↓reduceIte] at hm
    exact Or.inl hm
  | some e =>
    by_cases hc : e.contains r = true
    · simp only [hb, hc, Bool.not_true, Bool.false_eq_true, ↓reduceIte] at hm
      right
      cases ha : s.entry? u.after with
      | none =>
        by_cases hcc : s.canCreate m = true
        · simp only [ha, hcc, ↓reduceIte, Except.ok.injEq, Prod.mk.injEq] at hm
          exact ⟨hm.1.symm, hm.2.symm, Or.inr hcc, by simp⟩
        · simp [ha, hcc] at hm
      | some e' =>
        by_cases ho : (uq && e'.holdsOther r) = true
        · simp [ha, ho] at hm
        · simp only [ha, ho, Bool.false_eq_true, ↓reduceIte, Except.ok.injEq, Prod.mk.injEq] at hm
          exact ⟨hm.1.symm, hm.2.symm, Or.inl rfl, by simpa using ho⟩
    · simp only [hb, hc, Bool.not_false, ↓reduceIte] at hm
      exact Or.inl hm

theorem change_next (h : s.change r u uq m = .ok (o, s')) : s'.next = s.next := by
  rcases change_cases h with h | ⟨-, rfl, -, -⟩
  · exact insert_next h
  · simp

theorem change_status (h : s.change r u uq m = .ok (o, s')) : s'.status = s.status := by
  rcases change_cases h with h | ⟨-, rfl, -, -⟩
  · exact insert_status h
  · simp [State.add]

theorem change_hasKey (h : s.change r u uq m = .ok (o, s')) (hx : s'.hasKey x = true) :
    s.hasKey x = true ∨ (s.canCreate m = true ∧ x = u.after) := by
  rcases change_cases h with h | ⟨-, rfl, hc, -⟩
  · exact insert_hasKey h hx
  · have hadd := hasKey_of_hasKey_remove (by simpa using hx)
    rw [hasKey_add] at hadd
    by_cases hxa : x = u.after
    · subst hxa
      rcases hc with hc | hc
      · exact Or.inl hc
      · exact Or.inr ⟨hc, rfl⟩
    · exact Or.inl (by simpa [hxa] using hadd)

theorem change_notFoundHere (h : s.change r u uq m = .ok (.notFoundHere, s')) :
    s' = s ∧ s.hasKey u.after = false ∧ s.canCreate m = false := by
  rcases change_cases h with h | ⟨h, -, -, -⟩
  · exact insert_notFoundHere h
  · cases h

theorem change_entry?_of_ne (h : s.change r u uq m = .ok (o, s')) (hb : x ≠ u.before)
    (ha : x ≠ u.after) : s'.entry? x = s.entry? x := by
  rcases change_cases h with h | ⟨-, rfl, -, -⟩
  · exact insert_entry?_of_ne h ha
  · simp [entry?_remove_of_ne _ _ _ hb, entry?_add_of_ne _ _ _ ha]

/-! ## Apply -/

/-- `apply` is no change, an insert, a delete or a change, by the operation of the update. -/
theorem apply_cases (h : s.apply r u uq m = .ok (o, s')) :
    (u.op = .none ∧ o = .applied ∧ s' = s) ∨
      (u.op = .insert ∧ s.insert r u.after u.tentative uq m = .ok (o, s')) ∨
      (u.op = .delete ∧ s.delete r u.before u.tentative m = .ok (o, s')) ∨
      (u.op = .update ∧ s.change r u uq m = .ok (o, s')) := by
  unfold State.apply at h
  split at h
  · cases h
  · split at h
    · rename_i hop
      simp only [Except.ok.injEq, Prod.mk.injEq] at h
      exact Or.inl ⟨hop, h.1.symm, h.2.symm⟩
    · exact Or.inr (Or.inl ⟨‹_›, h⟩)
    · exact Or.inr (Or.inr (Or.inl ⟨‹_›, h⟩))
    · exact Or.inr (Or.inr (Or.inr ⟨‹_›, h⟩))
    · cases h

theorem apply_next (h : s.apply r u uq m = .ok (o, s')) : s'.next = s.next := by
  rcases apply_cases h with ⟨-, -, rfl⟩ | ⟨-, h⟩ | ⟨-, h⟩ | ⟨-, h⟩
  · rfl
  · exact insert_next h
  · exact delete_next h
  · exact change_next h

/-- An update never changes the status of its bucket. -/
theorem apply_status (h : s.apply r u uq m = .ok (o, s')) : s'.status = s.status := by
  rcases apply_cases h with ⟨-, -, rfl⟩ | ⟨-, h⟩ | ⟨-, h⟩ | ⟨-, h⟩
  · rfl
  · exact insert_status h
  · exact delete_status h
  · exact change_status h

/-- An entry that an applied update leaves was there before, or is one of the update's new keys
and the bucket could take new keys. -/
theorem apply_hasKey (h : s.apply r u uq m = .ok (o, s')) (hx : s'.hasKey x = true) :
    s.hasKey x = true ∨ (s.canCreate m = true ∧ x ∈ newKeys u) := by
  rcases apply_cases h with ⟨-, -, rfl⟩ | ⟨hop, h⟩ | ⟨-, h⟩ | ⟨hop, h⟩
  · exact Or.inl hx
  · rcases insert_hasKey h hx with hx | ⟨hc, rfl⟩
    · exact Or.inl hx
    · exact Or.inr ⟨hc, by simp [newKeys, hop]⟩
  · exact Or.inl (delete_hasKey h hx)
  · rcases change_hasKey h hx with hx | ⟨hc, rfl⟩
    · exact Or.inl hx
    · exact Or.inr ⟨hc, by simp [newKeys, hop]⟩

/-- An update passed on changes nothing, and the bucket holds none of its new keys; a half passed
on names a key the bucket does not hold. -/
theorem apply_notFoundHere (h : s.apply r u uq m = .ok (.notFoundHere, s')) :
    s' = s ∧ (∀ k ∈ newKeys u, s.hasKey k = false) ∧
      (isHalf u = true → ∀ k ∈ updateKeys u, s.hasKey k = false) := by
  rcases apply_cases h with ⟨-, h, -⟩ | ⟨hop, h⟩ | ⟨hop, h⟩ | ⟨hop, h⟩
  · cases h
  · obtain ⟨rfl, hk, -⟩ := insert_notFoundHere h
    exact ⟨rfl, by simp [newKeys, hop, hk], fun _ => by simp [updateKeys, hop, hk]⟩
  · rcases delete_result h with ⟨-, rfl, hk, -⟩ | ⟨h, -⟩
    · exact ⟨rfl, by simp [newKeys, hop], fun _ => by simp [updateKeys, hop, hk]⟩
    · cases h
  · obtain ⟨rfl, hk, -⟩ := change_notFoundHere h
    exact ⟨rfl, by simp [newKeys, hop, hk], fun hh => by simp [isHalf, hop] at hh⟩

/-- An update leaves the entries of keys it does not name as they were. -/
theorem apply_entry?_of_not_mem (h : s.apply r u uq m = .ok (o, s')) (hx : x ∉ updateKeys u) :
    s'.entry? x = s.entry? x := by
  rcases apply_cases h with ⟨-, -, rfl⟩ | ⟨hop, h⟩ | ⟨hop, h⟩ | ⟨hop, h⟩
  · rfl
  · exact insert_entry?_of_ne h (by simpa [updateKeys, hop] using hx)
  · exact delete_entry?_of_ne h (by simpa [updateKeys, hop] using hx)
  · simp only [updateKeys, hop, List.mem_cons, List.not_mem_nil, or_false, not_or] at hx
    exact change_entry?_of_ne h hx.1 hx.2

/-- The tail of a chain whose buckets are unbounded takes every key, so nothing is passed on. -/
theorem apply_ne_notFoundHere (hn : s.next = "") (hm : m.chained = false) :
    s.apply r u uq m ≠ .ok (.notFoundHere, s') := by
  intro h
  have hc : s.canCreate m = true := by
    simp [canCreate, IndexMeta.atCapacity, hn, show ¬ (0 < m.maxEntries) by simpa [IndexMeta.chained] using hm]
  rcases apply_cases h with ⟨-, h, -⟩ | ⟨-, h⟩ | ⟨-, h⟩ | ⟨-, h⟩
  · cases h
  · simp [(insert_notFoundHere h).2.2] at hc
  · rcases delete_result h with ⟨-, -, -, hch⟩ | ⟨h, -⟩
    · simp [hm] at hch
    · cases h
  · simp [(change_notFoundHere h).2.2] at hc

/-! ## Status changes -/

theorem enforce_next (reps : List Repair) : ∀ s : State, (s.enforce reps).2.next = s.next := by
  induction reps with
  | nil => intro s; rfl
  | cons rep rest ih =>
    intro s
    unfold enforce
    split
    · split
      · simp [ih]
      · exact ih s
    · exact ih s

theorem enforce_hasKey (reps : List Repair) :
    ∀ s : State, (s.enforce reps).2.hasKey x = true → s.hasKey x = true := by
  induction reps with
  | nil => intro s h; exact h
  | cons rep rest ih =>
    intro s h
    unfold enforce at h
    split at h
    · split at h
      · exact hasKey_of_hasKey_remove (ih _ h)
      · exact ih s h
    · exact ih s h

@[simp]
theorem setStatus_next (st : Status) : (s.setStatus st).2.next = s.next := by
  unfold State.setStatus
  split
  · simp [enforce_next]
  · rfl

@[simp]
theorem setStatus_status (st : Status) : (s.setStatus st).2.status = st := by
  unfold State.setStatus
  split <;> rfl

/-- Changing the status only removes entries. -/
theorem setStatus_hasKey {st : Status} (h : (s.setStatus st).2.hasKey x = true) :
    s.hasKey x = true := by
  unfold State.setStatus at h
  split at h
  · exact enforce_hasKey s.repairs s (by simpa [hasKey, State.entry?] using h)
  · exact h

/-! ## One entity per entry -/

/-- Every entry holds at most one entity, as every bucket of a unique index does. -/
def SingleValued (s : State) : Prop := ∀ k e, s.entry? k = some e → e.values.length ≤ 1

namespace SingleValued

variable {e : Entry}

theorem put (hs : s.SingleValued) (he : e.values.length ≤ 1) : (s.put k e).SingleValued := by
  intro x e' hx
  by_cases h : x = k
  · simp only [entry?_put, h, ↓reduceIte, Option.some.injEq] at hx
    exact hx ▸ he
  · exact hs x e' (by simpa [h] using hx)

theorem drop (hs : s.SingleValued) : (s.drop k).SingleValued := by
  intro x e' hx
  by_cases h : x = k
  · simp [h] at hx
  · exact hs x e' (by simpa [h] using hx)

theorem trackDelete (hs : s.SingleValued) : (s.trackDelete k r).SingleValued := by
  intro x e' hx
  exact hs x e' (by simpa using hx)

/-- Adding an entity to an entry no other entity holds leaves one entity there. -/
theorem values_add_length (h1 : e.values.length ≤ 1) (ho : e.holdsOther r = false) :
    (if e.contains r then e.values else e.values ++ [r]).length ≤ 1 := by
  match hv : e.values with
  | [] => simp [Entry.contains, hv]
  | [a] =>
    have : a = r := by simpa [Entry.holdsOther, hv] using ho
    simp [Entry.contains, hv, this]
  | _ :: _ :: _ => simp [hv] at h1

theorem add (hs : s.SingleValued) (ho : ∀ e, s.entry? k = some e → e.holdsOther r = false) :
    (s.add k r t).SingleValued := by
  unfold State.add
  apply hs.put
  cases he : s.entry? k with
  | none => simp [Entry.contains]
  | some e => simpa using values_add_length (hs k e he) (ho e he)

theorem remove (hs : s.SingleValued) : (s.remove k r t).SingleValued := by
  unfold State.remove
  split
  · exact hs
  · rename_i e he
    dsimp only
    repeat' split
    · exact hs
    · exact hs.put (hs k e he)
    · exact hs.drop
    · exact hs.put (Nat.le_trans (List.length_filter_le _ _) (hs k e he))

theorem insert (hs : s.SingleValued) (h : s.insert r k t true m = .ok (o, s')) :
    s'.SingleValued := by
  unfold State.insert at h
  split at h
  · rename_i he
    split at h <;> simp only [Except.ok.injEq, Prod.mk.injEq] at h <;> obtain ⟨-, rfl⟩ := h
    · exact hs.add (by simp [he])
    · exact hs
  · rename_i e he
    split at h
    · cases h
    · rename_i ho
      simp only [Except.ok.injEq, Prod.mk.injEq] at h
      obtain ⟨-, rfl⟩ := h
      exact hs.add (fun e' he' => by simp_all)

theorem apply (hs : s.SingleValued) (h : s.apply r u true m = .ok (o, s')) : s'.SingleValued := by
  rcases apply_cases h with ⟨-, -, rfl⟩ | ⟨-, h⟩ | ⟨-, h⟩ | ⟨-, h⟩
  · exact hs
  · exact hs.insert h
  · rcases delete_result h with ⟨-, rfl, -, -⟩ | ⟨-, rfl⟩
    · exact hs
    · exact hs.remove.trackDelete
  · rcases change_cases h with h | ⟨-, rfl, -, ho⟩
    · exact hs.insert h
    · exact (hs.add (fun e he => by simpa using ho e he)).remove.trackDelete

theorem enforce (reps : List Repair) : ∀ s : State, s.SingleValued → (s.enforce reps).2.SingleValued := by
  induction reps with
  | nil => intro s hs; exact hs
  | cons rep rest ih =>
    intro s hs
    unfold State.enforce
    split
    · split
      · exact ih _ hs.remove
      · exact ih s hs
    · exact ih s hs

theorem setStatus (hs : s.SingleValued) (st : Status) : (s.setStatus st).2.SingleValued := by
  unfold State.setStatus
  split
  · intro x e hx
    exact enforce s.repairs s hs x e (by simpa [State.entry?] using hx)
  · exact hs

/-- A reader of a bucket whose entries hold one entity at most sees at most one entity. -/
theorem lookup (hs : s.SingleValued) (k : Key) : (s.lookup k).values.length ≤ 1 := by
  unfold State.lookup
  split
  · simp
  · rename_i e he
    split
    · exact hs k e he
    · simp

/-- An entry of a bucket whose entries hold one entity at most names one entity. -/
theorem eq_of_mem (hs : s.SingleValued) {e : Entry} (he : s.entry? k = some e) {a b : EntityRef}
    (ha : a ∈ e.values) (hb : b ∈ e.values) : a = b := by
  have hlen := hs k e he
  match hv : e.values with
  | [] => simp [hv] at ha
  | [c] => simp_all
  | _ :: _ :: _ => simp [hv] at hlen

end SingleValued

end State

/-! ## Batches through one bucket -/

section Batch

variable {m : IndexMeta} {p : BatchPass} {it : Item}

/-- One item of a batch is passed on, skipped on failure, passed on by the bucket, or applied. -/
theorem batchStep_cases (m : IndexMeta) (p : BatchPass) (it : Item) :
    batchStep m p it = { p with rest := p.rest ++ [it], deferred := p.deferred ++ updateKeys it.update }
      ∧ ((updateKeys it.update).any p.deferred.contains = true ∨
        ∃ s', p.state.apply it.entity it.update m.unique m = .ok (.notFoundHere, s')) ∨
    (∃ e, batchStep m p it = { p with skipped := p.skipped ++ [e] }) ∨
    ((updateKeys it.update).any p.deferred.contains = false ∧ ∃ s',
      p.state.apply it.entity it.update m.unique m = .ok (.applied, s') ∧
      batchStep m p it = { p with state := s', applied := p.applied + 1 }) := by
  unfold batchStep
  dsimp only
  split
  · exact Or.inl ⟨rfl, Or.inl ‹_›⟩
  · rename_i hd
    split
    · exact Or.inr (Or.inl ⟨_, rfl⟩)
    · exact Or.inl ⟨rfl, Or.inr ⟨_, ‹_›⟩⟩
    · exact Or.inr (Or.inr ⟨by simpa using hd, _, ‹_›, rfl⟩)

theorem batchStep_next : (batchStep m p it).state.next = p.state.next := by
  rcases batchStep_cases m p it with ⟨h, -⟩ | ⟨e, h⟩ | ⟨-, s', ha, h⟩ <;> rw [h]
  exact State.apply_next ha

theorem batch_next (items : List Item) :
    ∀ p : BatchPass, (items.foldl (batchStep m) p).state.next = p.state.next := by
  induction items with
  | nil => intro p; rfl
  | cons it rest ih => intro p; simp [ih, batchStep_next]

theorem batchStep_status : (batchStep m p it).state.status = p.state.status := by
  rcases batchStep_cases m p it with ⟨h, -⟩ | ⟨e, h⟩ | ⟨-, s', ha, h⟩ <;> rw [h]
  exact State.apply_status ha

theorem batch_status (items : List Item) :
    ∀ p : BatchPass, (items.foldl (batchStep m) p).state.status = p.state.status := by
  induction items with
  | nil => intro p; rfl
  | cons it rest ih => intro p; simp [ih, batchStep_status]

theorem next_eq_empty_of_canCreate {s : State} (h : s.canCreate m = true) : s.next = "" := by
  simp only [State.canCreate, Bool.and_eq_true, String.isEmpty_iff] at h
  exact h.1

theorem batchStep_hasKey {x : Key} (h : (batchStep m p it).state.hasKey x = true) :
    p.state.hasKey x = true ∨ (p.state.next = "" ∧ x ∈ newKeys it.update) := by
  rcases batchStep_cases m p it with ⟨hb, -⟩ | ⟨e, hb⟩ | ⟨-, s', ha, hb⟩ <;> rw [hb] at h
  · exact Or.inl h
  · exact Or.inl h
  · rcases State.apply_hasKey ha h with h | ⟨hc, hk⟩
    · exact Or.inl h
    · exact Or.inr ⟨next_eq_empty_of_canCreate hc, hk⟩

/-- A key a batch leaves in the bucket was there before, or is a new key of one of its items
and the bucket was the tail. -/
theorem batch_hasKey {x : Key} (items : List Item) :
    ∀ p : BatchPass, (items.foldl (batchStep m) p).state.hasKey x = true →
      p.state.hasKey x = true ∨ (p.state.next = "" ∧ ∃ it ∈ items, x ∈ newKeys it.update) := by
  induction items with
  | nil => intro p h; exact Or.inl h
  | cons it rest ih =>
    intro p h
    rcases ih _ h with h | ⟨hn, it', hit', hk⟩
    · rcases batchStep_hasKey h with h | ⟨hn, hk⟩
      · exact Or.inl h
      · exact Or.inr ⟨hn, it, by simp, hk⟩
    · exact Or.inr ⟨by rwa [batchStep_next] at hn, it', by simp [hit'], hk⟩

theorem batchStep_rest (m : IndexMeta) (p : BatchPass) (it : Item) :
    (batchStep m p it).rest = p.rest ∨ (batchStep m p it).rest = p.rest ++ [it] := by
  rcases batchStep_cases m p it with ⟨hb, -⟩ | ⟨e, hb⟩ | ⟨-, s', ha, hb⟩ <;> rw [hb]
  · exact Or.inr rfl
  · exact Or.inl rfl
  · exact Or.inl rfl

/-- The items a batch passes on are among those it was given. -/
theorem batch_rest_mem (items : List Item) :
    ∀ p : BatchPass, ∀ it' ∈ (items.foldl (batchStep m) p).rest, it' ∈ p.rest ∨ it' ∈ items := by
  induction items with
  | nil => intro p it' h; exact Or.inl h
  | cons it rest ih =>
    intro p it' h
    rcases ih _ it' h with h | h
    · rcases batchStep_rest m p it with hr | hr <;> rw [hr] at h
      · exact Or.inl h
      · rcases List.mem_append.1 h with h | h
        · exact Or.inl h
        · exact Or.inr (by simp_all)
    · exact Or.inr (by simp [h])

theorem batchStep_applied (m : IndexMeta) (p : BatchPass) (it : Item) :
    ((batchStep m p it).applied = p.applied ∧ (batchStep m p it).state = p.state) ∨
      (batchStep m p it).applied = p.applied + 1 := by
  rcases batchStep_cases m p it with ⟨hb, -⟩ | ⟨e, hb⟩ | ⟨-, s', ha, hb⟩ <;> rw [hb]
  · exact Or.inl ⟨rfl, rfl⟩
  · exact Or.inl ⟨rfl, rfl⟩
  · exact Or.inr rfl

theorem batch_applied_le (items : List Item) :
    ∀ p : BatchPass, p.applied ≤ (items.foldl (batchStep m) p).applied := by
  induction items with
  | nil => intro p; exact Nat.le_refl _
  | cons it rest ih =>
    intro p
    have := ih (batchStep m p it)
    rcases batchStep_applied m p it with ⟨h, -⟩ | h <;>
      simp only [List.foldl_cons] <;> omega

/-- A batch that applied nothing leaves the bucket as it was, so writing it or not is the same. -/
theorem batch_state_of_applied (items : List Item) :
    ∀ p : BatchPass, (items.foldl (batchStep m) p).applied = p.applied →
      (items.foldl (batchStep m) p).state = p.state := by
  induction items with
  | nil => intro p _; rfl
  | cons it rest ih =>
    intro p h
    have hle := batch_applied_le (m := m) rest (batchStep m p it)
    simp only [List.foldl_cons] at h ⊢
    rcases batchStep_applied m p it with ⟨ha, hs⟩ | ha
    · rw [ih _ (by omega), hs]
    · omega

/-- At the tail of a chain of unbounded buckets a batch passes nothing on. -/
theorem batch_rest_eq_nil (hm : m.chained = false) (items : List Item) :
    ∀ p : BatchPass, p.state.next = "" → p.rest = [] → p.deferred = [] →
      (items.foldl (batchStep m) p).rest = [] := by
  induction items with
  | nil => intro p _ hr _; exact hr
  | cons it rest ih =>
    intro p hn hr hd
    -- nothing is deferred, and the tail never passes an item on, so the step keeps both empty
    rcases batchStep_cases m p it with ⟨hb, htouch | ⟨s', ha⟩⟩ | ⟨e, hb⟩ | ⟨-, s', ha, hb⟩
    · simp [hd] at htouch
    · exact absurd ha (State.apply_ne_notFoundHere hn hm)
    · exact ih _ (by simp [hb, hn]) (by simp [hb, hr]) (by simp [hb, hd])
    · exact ih _ (by simp [hb, State.apply_next ha, hn]) (by simp [hb, hr]) (by simp [hb, hd])

/-- A half names one key. -/
theorem updateKeys_of_isHalf {u : IndexUpdate} (h : isHalf u = true) : ∃ k, updateKeys u = [k] := by
  unfold isHalf at h
  unfold updateKeys
  rcases Bool.or_eq_true_iff.1 h with h | h <;> simp at h <;> simp [h]

/-- What a batch of halves keeps true as it goes: the deferred keys are not in the bucket, and
every item passed on names only deferred keys. -/
def BatchPass.Fresh (p : BatchPass) : Prop :=
  (∀ k ∈ p.deferred, p.state.hasKey k = false) ∧
    ∀ it ∈ p.rest, ∀ k ∈ updateKeys it.update, k ∈ p.deferred

/-- Passing an item on keeps a pass fresh when the bucket lacks every key of the item. -/
theorem BatchPass.Fresh.defer (hp : p.Fresh)
    (hk : ∀ k ∈ updateKeys it.update, p.state.hasKey k = false) :
    ({ p with rest := p.rest ++ [it], deferred := p.deferred ++ updateKeys it.update } :
      BatchPass).Fresh := by
  obtain ⟨hdef, hrest⟩ := hp
  refine ⟨fun k' hk' => ?_, fun it' hit' k' hk' => ?_⟩
  · rcases List.mem_append.1 hk' with hk' | hk'
    · exact hdef k' hk'
    · exact hk k' hk'
  · simp only [List.mem_append, List.mem_singleton] at hit'
    rcases hit' with hit' | rfl
    · exact List.mem_append_left _ (hrest it' hit' k' hk')
    · exact List.mem_append_right _ hk'

theorem batchStep_fresh (hh : isHalf it.update = true) (hp : p.Fresh) : (batchStep m p it).Fresh := by
  obtain ⟨k, hk⟩ := updateKeys_of_isHalf hh
  rcases batchStep_cases m p it with ⟨hb, htouch | ⟨s', ha⟩⟩ | ⟨e, hb⟩ | ⟨hfree, s', ha, hb⟩ <;>
    rw [hb]
  · -- passed on because it touches a deferred key: its one key is deferred already
    simp only [hk, List.any_cons, List.any_nil, Bool.or_false, List.contains_iff_mem] at htouch
    refine hp.defer fun k' hk' => ?_
    rw [hk, List.mem_singleton] at hk'
    exact hp.1 _ (hk' ▸ htouch)
  · -- passed on by the bucket: the key is not here
    obtain ⟨rfl, -, hnot⟩ := State.apply_notFoundHere ha
    exact hp.defer (hnot hh)
  · exact hp
  · -- applied: the deferred keys are not among the item's keys, so their entries stay
    refine ⟨fun k' hk' => ?_, hp.2⟩
    have hnk : k' ∉ updateKeys it.update := by
      intro hmem
      simp only [List.any_eq_false, List.contains_iff_mem] at hfree
      exact hfree k' hmem hk'
    simpa [State.hasKey, State.apply_entry?_of_not_mem ha hnk] using hp.1 k' hk'

theorem batch_fresh (items : List Item) (hh : ∀ it ∈ items, isHalf it.update = true) :
    ∀ p : BatchPass, p.Fresh → (items.foldl (batchStep m) p).Fresh := by
  induction items with
  | nil => intro p hp; exact hp
  | cons it rest ih =>
    intro p hp
    exact ih (fun it' h => hh it' (by simp [h])) _ (batchStep_fresh (hh it (by simp)) hp)

/-- The items a batch of halves passes on have none of their new keys in the bucket. -/
theorem BatchPass.Fresh.rest_newKeys (hp : p.Fresh) :
    ∀ it ∈ p.rest, ∀ k ∈ newKeys it.update, p.state.hasKey k = false :=
  fun it hit k hk => hp.1 k (hp.2 it hit k (newKeys_subset_updateKeys _ k hk))

theorem batch_singleValued (hu : m.unique = true) (items : List Item) :
    ∀ p : BatchPass, p.state.SingleValued → (items.foldl (batchStep m) p).state.SingleValued := by
  induction items with
  | nil => intro p hp; exact hp
  | cons it rest ih =>
    intro p hp
    refine ih _ ?_
    rcases batchStep_cases m p it with ⟨hb, -⟩ | ⟨e, hb⟩ | ⟨-, s', ha, hb⟩ <;> rw [hb]
    · exact hp
    · exact hp
    · rw [hu] at ha
      exact hp.apply ha

end Batch

end EntityIndex.Bucket
