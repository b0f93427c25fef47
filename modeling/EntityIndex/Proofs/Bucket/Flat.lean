import EntityIndex.Proofs.Bucket.Chains

/-!
# A chained index refines one flat bucket

The flat bucket is one unbounded bucket holding every key of an index: it applies an update with
`State.apply` and the metadata `Index.flatMeta`. Through `Refines`, every call of `Index.apply`
does what the flat bucket does with the same update (`Refines.call`): it fails when the flat
bucket refuses the update, with an error of the same kind and no bucket changed, and otherwise
leaves buckets that refine the flat bucket's new state. The lookups of an index answer from any
such buckets what the flat bucket shows (`Refines.visible`, `Refines.unique`).

Both facts need the update to be regular, one the writers of an index make: a named operation,
and an update between two different keys. The router splits every other update on a chained
index as well, and there the index and the flat bucket part ways, as the last theorem here shows
on two such updates.
-/

namespace EntityIndex

/-- Whether an update is one the writers make: a named operation, and an update between two
different keys. -/
def IndexUpdate.regular (u : IndexUpdate) : Bool :=
  match u.op with
  | .other _ => false
  | .update => u.before != u.after
  | _ => true

namespace IndexUpdate

variable (u : IndexUpdate)

@[simp] theorem split_fst_op : u.split.1.op = .insert := rfl
@[simp] theorem split_fst_after : u.split.1.after = u.after := rfl
@[simp] theorem split_fst_tentative : u.split.1.tentative = u.tentative := rfl
@[simp] theorem split_snd_op : u.split.2.op = .delete := rfl
@[simp] theorem split_snd_before : u.split.2.before = u.before := rfl
@[simp] theorem split_snd_tentative : u.split.2.tentative = u.tentative := rfl

end IndexUpdate

end EntityIndex

namespace EntityIndex.Bucket

open EntityIndex.Bucket.Shelf

/-! ## Routes -/

section Routes

variable {x : Index} {u : IndexUpdate}

theorem Index.route_of_none (hop : u.op = .none) : x.route u = [] := by
  simp [Index.route, hop]

theorem Index.route_of_insert (hop : u.op = .insert) :
    x.route u = [(x.partitionOf u.after, u)] := by
  simp [Index.route, hop]

theorem Index.route_of_delete (hop : u.op = .delete) :
    x.route u = [(x.partitionOf u.before, u)] := by
  simp [Index.route, hop]

/-- An update within one partition of an unbounded index stays whole. -/
theorem Index.route_of_whole (hop : u.op = .update)
    (hp : x.partitionOf u.before = x.partitionOf u.after) (hc : x.desc.chained = false) :
    x.route u = [(x.partitionOf u.before, u)] := by
  simp [Index.route, hop, hp, hc]

/-- Any other update is split into its insert half, at the after-image, and its delete half. -/
theorem Index.route_of_split (hop : u.op = .update)
    (hs : ¬(x.partitionOf u.before = x.partitionOf u.after ∧ x.desc.chained = false)) :
    x.route u = [(x.partitionOf u.after, u.split.1), (x.partitionOf u.before, u.split.2)] := by
  simp only [Index.route, hop]
  rw [if_neg (by simpa using hs)]

/-- Every update with an operation starts with a part that carries its operation's tentative
mark and an operation. -/
theorem Index.route_cons (hop : u.op ≠ .none) :
    ∃ p v rest, x.route u = (p, v) :: rest ∧ v.tentative = u.tentative ∧ v.op ≠ .none := by
  unfold Index.route
  split
  · contradiction
  · exact ⟨_, _, _, rfl, rfl, hop⟩
  · exact ⟨_, _, _, rfl, rfl, hop⟩
  · dsimp only
    split
    · exact ⟨_, _, _, rfl, rfl, hop⟩
    · exact ⟨_, _, _, rfl, rfl, by simp⟩

end Routes

/-! ## Calls -/

section Calls

variable {x : Index} {b b' : String → State} {r : EntityRef} {u v : IndexUpdate} {p : Nat}
  {res : Except Error Unit}

theorem Runs.apply_single (hr : x.route u = [(p, v)])
    (h : Runs (x.applyChain r v chainLimit (x.bucketAt p 0)) b res b') :
    Runs (x.apply r u) b res b' := by
  rw [Index.apply, hr, List.forM, List.forM]
  rcases res with e | ⟨⟩
  · exact Runs.bind_error h
  · exact Runs.bind h (Runs.pure () _)

theorem Runs.apply_pair {q : Nat} {v' : IndexUpdate} {b₁ : String → State}
    (hr : x.route u = [(p, v), (q, v')])
    (h₁ : Runs (x.applyChain r v chainLimit (x.bucketAt p 0)) b (.ok ()) b₁)
    (h₂ : Runs (x.applyChain r v' chainLimit (x.bucketAt q 0)) b₁ res b') :
    Runs (x.apply r u) b res b' := by
  rw [Index.apply, hr, List.forM, List.forM, List.forM]
  refine Runs.bind h₁ ?_
  rcases res with e | ⟨⟩
  · exact Runs.bind_error h₂
  · exact Runs.bind h₂ (Runs.pure () _)

/-- A call stops at its first part's failure. -/
theorem Runs.apply_first_error {e : Error} {rest : List (Nat × IndexUpdate)}
    (hr : x.route u = (p, v) :: rest)
    (h : Runs (x.applyChain r v chainLimit (x.bucketAt p 0)) b (.error e) b') :
    Runs (x.apply r u) b (.error e) b' := by
  rw [Index.apply, hr, List.forM]
  exact Runs.bind_error h

end Calls

/-! ## One call against the flat bucket -/

/-- Running `m` from the buckets `b` of index `x`, with chains `len`, does what the flat bucket's
answer says: it fails with an error of the same kind and changes no bucket, or it succeeds and
leaves buckets that refine the flat bucket's new state, each chain at most one bucket longer. -/
def Follows (x : Index) (m : Run Shelf Unit) (b : String → State) (len : Nat → Nat) :
    Except Error (Outcome × State) → Prop
  | .error e => ∃ e', e'.kind = e.kind ∧ Runs m b (.error e') b
  | .ok (_, F') => ∃ b' len', Runs m b (.ok ()) b' ∧ Refines x b' F' len' ∧ ∀ q, len' q ≤ len q + 1

/-- Where both may create the key, two buckets with one entry under it insert alike: both refuse
with one error, or both add the entity. -/
theorem State.insert_congr {s s' : State} {m m' : IndexMeta} {k : Key}
    (he : s.entry? k = s'.entry? k) (hc : s.canCreate m = true) (hc' : s'.canCreate m' = true)
    (hn : m.name = m'.name) (r : EntityRef) (t uq : Bool) :
    (∃ e, s.insert r k t uq m = .error e ∧ s'.insert r k t uq m' = .error e) ∨
      (s.insert r k t uq m = .ok (.applied, s.add k r t) ∧
        s'.insert r k t uq m' = .ok (.applied, s'.add k r t)) := by
  cases hs : s'.entry? k with
  | none =>
    rw [hs] at he
    exact .inr ⟨State.insert_of_canCreate he hc, State.insert_of_canCreate hs hc'⟩
  | some e =>
    rw [hs] at he
    rw [State.insert_of_entry he, State.insert_of_entry hs, hn]
    by_cases hu : (uq && e.holdsOther r) = true
    · exact .inl ⟨_, if_pos hu, if_pos hu⟩
    · exact .inr ⟨if_neg hu, if_neg hu⟩

section Follows

variable {x : Index} {b : String → State} {F : State} {len : Nat → Nat} (r : EntityRef)
  {u : IndexUpdate}

/-- On an unbounded index the head of a partition is its only bucket, so it owns both keys of an
update within the partition, and moving the entity there keeps the relation. -/
theorem Refines.move_at (h : Refines x b F len) (hc : x.desc.chained = false)
    (hp : x.partitionOf u.before = x.partitionOf u.after) (t : Bool) :
    Refines x (Function.update b (x.bucketAt (x.partitionOf u.after) 0)
      (((b (x.bucketAt (x.partitionOf u.after) 0)).add u.after r t).remove u.before r t))
      ((F.add u.after r t).remove u.before r t) len := by
  have hone : ∀ q, len q = 1 := h.flat hc
  obtain ⟨d, hd, hent, hown, -⟩ := h.owner u.after
  obtain rfl : d = 0 := by have := hone (x.partitionOf u.after); omega
  have h₁ := h.add_at hd hent hown r t
  obtain ⟨d', hd', hent', hown', -⟩ := h₁.owner u.before
  obtain rfl : d' = 0 := by have := hone (x.partitionOf u.before); omega
  have h₂ := h₁.remove_at hd' hent' hown' r t
  rwa [hp, Function.update_self, Function.update_idem] at h₂

theorem Refines.call_none (h : Refines x b F len) (hop : u.op = .none) :
    Follows x (x.apply r u) b len (F.apply r u x.desc.unique x.flatMeta) := by
  rw [State.apply_of_none hop]
  refine ⟨b, len, ?_, h, fun q => Nat.le_succ _⟩
  rw [Index.apply, Index.route_of_none hop, List.forM]
  exact Runs.pure () b

/-- A tentative update on a non-unique index is refused by the flat bucket, and by the head of
its first part before any bucket changes. -/
theorem Follows.tentative (hop : u.op ≠ .none) (ht : (u.tentative && !x.desc.unique) = true) :
    Follows x (x.apply r u) b len (F.apply r u x.desc.unique x.flatMeta) := by
  obtain ⟨p, v, rest, hr, hvt, hvop⟩ := Index.route_cons (x := x) hop
  rw [State.apply_of_tentative ht hop]
  refine ⟨.tentativeNonUnique v, rfl, Runs.apply_first_error hr (Runs.applyChain_error ?_)⟩
  exact State.apply_of_tentative (by rw [hvt]; exact ht) hvop

/-- A call of one part follows what the walk of that part follows. -/
theorem Follows.single {p : Nat} {v : IndexUpdate} {res : Except Error (Outcome × State)}
    (hr : x.route u = [(p, v)])
    (h : Follows x (x.applyChain r v chainLimit (x.bucketAt p 0)) b len res) :
    Follows x (x.apply r u) b len res := by
  rcases res with e | ⟨_, F'⟩
  · obtain ⟨e', hk, hrun⟩ := h
    exact ⟨e', hk, Runs.apply_single hr hrun⟩
  · obtain ⟨b', len', hrun, hR, hl⟩ := h
    exact ⟨b', len', Runs.apply_single hr hrun, hR, hl⟩

theorem Refines.insert_part (h : Refines x b F len) (hfuel : len (x.partitionOf u.after) < chainLimit)
    (hop : u.op = .insert) (ht : (u.tentative && !x.desc.unique) = false) :
    Follows x (x.applyChain r u chainLimit (x.bucketAt (x.partitionOf u.after) 0)) b len
      (F.apply r u x.desc.unique x.flatMeta) := by
  have hw := h.insert_walk r hop ht hfuel
  rw [State.apply_of_insert hop ht]
  generalize F.insert r u.after u.tentative x.desc.unique x.flatMeta = res at hw ⊢
  rcases res with e | ⟨_, F'⟩
  · exact ⟨e, rfl, hw⟩
  · exact hw

theorem Refines.delete_part (h : Refines x b F len)
    (hfuel : len (x.partitionOf u.before) < chainLimit) (hop : u.op = .delete)
    (ht : (u.tentative && !x.desc.unique) = false) :
    Follows x (x.applyChain r u chainLimit (x.bucketAt (x.partitionOf u.before) 0)) b len
      (F.apply r u x.desc.unique x.flatMeta) := by
  rw [State.apply_of_delete hop ht, flat_delete r h]
  obtain ⟨b', hr, hb'⟩ := h.delete_walk r hop ht (Nat.le_of_lt hfuel)
  exact ⟨b', len, hr, hb', fun q => Nat.le_succ _⟩

/-- On an unbounded index the head of a partition has no successor, so it decides an update as
the flat bucket does: both refuse it with one error, or both move the entity. -/
theorem Refines.whole_at_head (h : Refines x b F len) (hop : u.op = .update)
    (hba : u.before ≠ u.after) (ht : (u.tentative && !x.desc.unique) = false)
    (hc : x.desc.chained = false) :
    (∃ e, (b (x.bucketAt (x.partitionOf u.after) 0)).apply r u x.desc.unique x.desc = .error e ∧
        F.apply r u x.desc.unique x.flatMeta = .error e) ∨
      ((b (x.bucketAt (x.partitionOf u.after) 0)).apply r u x.desc.unique x.desc =
          .ok (.applied, ((b (x.bucketAt (x.partitionOf u.after) 0)).add u.after r
            u.tentative).remove u.before r u.tentative) ∧
        F.apply r u x.desc.unique x.flatMeta =
          .ok (.applied, (F.add u.after r u.tentative).remove u.before r u.tentative)) := by
  have hone : ∀ q, len q = 1 := h.flat hc
  obtain ⟨d, hd, hent, -, -⟩ := h.owner u.after
  obtain rfl : d = 0 := by have := hone (x.partitionOf u.after); omega
  have hnext : (b (x.bucketAt (x.partitionOf u.after) 0)).next = "" := by
    have := h.tail (x.partitionOf u.after)
    rwa [hone, Nat.sub_self] at this
  generalize x.bucketAt (x.partitionOf u.after) 0 = H at hent hnext ⊢
  rw [State.apply_of_update hop ht,
    State.change_eq_halves (canCreate_of_unchained hnext hc) (h.available _) hba,
    State.apply_of_update hop ht,
    State.change_eq_halves (x.canCreate_flatMeta h.flatNext) h.flatAvailable hba]
  -- the head and the flat bucket decide the insert half alike
  rcases State.insert_congr hent (canCreate_of_unchained hnext hc)
      (x.canCreate_flatMeta h.flatNext) rfl r u.tentative x.desc.unique with
    ⟨e, hi, hF⟩ | ⟨hi, hF⟩
  · exact .inl ⟨e, by rw [hi]; rfl, by rw [hF]; rfl⟩
  · refine .inr ⟨?_, ?_⟩
    · rw [hi]
      simp only [Except.bind]
      rw [State.trackDelete_of_available
        (by rw [State.status_remove, State.status_add]; exact h.available H)]
    · rw [hF]
      simp only [Except.bind]
      rw [State.trackDelete_of_available
        (by rw [State.status_remove, State.status_add]; exact h.flatAvailable)]

/-- An update within one partition of an unbounded index is one change at the partition's head. -/
theorem Refines.whole_part (h : Refines x b F len) (hop : u.op = .update)
    (hba : u.before ≠ u.after) (ht : (u.tentative && !x.desc.unique) = false)
    (hp : x.partitionOf u.before = x.partitionOf u.after) (hc : x.desc.chained = false) :
    Follows x (x.applyChain r u chainLimit (x.bucketAt (x.partitionOf u.after) 0)) b len
      (F.apply r u x.desc.unique x.flatMeta) := by
  rcases h.whole_at_head r hop hba ht hc with ⟨e, hi, hF⟩ | ⟨hi, hF⟩
  · rw [hF]
    exact ⟨e, rfl, Runs.applyChain_error hi⟩
  · rw [hF]
    exact ⟨_, len, Runs.applyChain_applied hi, h.move_at r hc hp u.tentative,
      fun q => Nat.le_succ _⟩

/-- Any other update runs its insert half, then its delete half on the chains the insert left. -/
theorem Refines.call_split (h : Refines x b F len) (hfuel : ∀ q, len q < chainLimit)
    (hop : u.op = .update) (hba : u.before ≠ u.after)
    (ht : (u.tentative && !x.desc.unique) = false)
    (hs : ¬(x.partitionOf u.before = x.partitionOf u.after ∧ x.desc.chained = false)) :
    Follows x (x.apply r u) b len (F.apply r u x.desc.unique x.flatMeta) := by
  have hr := Index.route_of_split hop hs
  have hw := h.insert_walk r u.split_fst_op ht (hfuel _)
  simp only [IndexUpdate.split_fst_after, IndexUpdate.split_fst_tentative] at hw
  rw [State.apply_of_update hop ht,
    State.change_eq_halves (x.canCreate_flatMeta h.flatNext) h.flatAvailable hba]
  generalize F.insert r u.after u.tentative x.desc.unique x.flatMeta = res at hw ⊢
  rcases res with e | ⟨_, F₁⟩
  · exact ⟨e, rfl, Runs.apply_first_error hr hw⟩
  · obtain ⟨b₁, len₁, hr₁, h₁, hl₁⟩ := hw
    -- the insert half grew a chain by at most one bucket, so the delete half has fuel left
    obtain ⟨b₂, hr₂, h₂⟩ := h₁.delete_walk r u.split_snd_op ht (Nat.le_trans (hl₁ _) (hfuel _))
    simp only [IndexUpdate.split_snd_before, IndexUpdate.split_snd_tentative] at h₂
    simp only [Except.bind]
    rw [State.trackDelete_of_available
      (by rw [State.status_remove]; exact h₁.flatAvailable)]
    exact ⟨b₂, len₁, Runs.apply_pair hr hr₁ hr₂, h₂, hl₁⟩

/-- One regular call of an index does what the flat bucket does with the same update. -/
theorem Refines.call (h : Refines x b F len) (hfuel : ∀ q, len q < chainLimit)
    (hu : u.regular = true) :
    Follows x (x.apply r u) b len (F.apply r u x.desc.unique x.flatMeta) := by
  by_cases hnone : u.op = .none
  · exact h.call_none r hnone
  cases ht : (u.tentative && !x.desc.unique)
  case true => exact Follows.tentative r hnone ht
  case false =>
    cases hop : u.op with
    | none => exact absurd hop hnone
    | insert => exact Follows.single r (Index.route_of_insert hop) (h.insert_part r (hfuel _) hop ht)
    | delete => exact Follows.single r (Index.route_of_delete hop) (h.delete_part r (hfuel _) hop ht)
    | update =>
      have hba : u.before ≠ u.after := by simpa [IndexUpdate.regular, hop] using hu
      by_cases hs : x.partitionOf u.before = x.partitionOf u.after ∧ x.desc.chained = false
      · have hr := Index.route_of_whole (x := x) hop hs.1 hs.2
        rw [hs.1] at hr
        exact Follows.single r hr (h.whole_part r hop hba ht hs.1 hs.2)
      · exact h.call_split r hfuel hop hba ht hs
    | other c => simp [IndexUpdate.regular, hop] at hu

end Follows

/-! ## Lookups -/

/-- What a unique lookup answers for what a bucket shows under a key: its one visible entity, or
an integrity failure with the number of entities seen and whether a hidden entry holds some. -/
def Index.uniqueAnswer (x : Index) (k : Key) (sight : State.Sight) : Except Error EntityRef :=
  match sight.values with
  | [r] => .ok r
  | vs => .error (.integrity x.name k vs.length sight.tentative)

/-- A unique lookup succeeds exactly when one entity is visible, and answers that entity. -/
theorem Index.uniqueAnswer_eq_ok (x : Index) (k : Key) (sight : State.Sight) (r : EntityRef) :
    x.uniqueAnswer k sight = .ok r ↔ sight.values = [r] := by
  unfold Index.uniqueAnswer
  split <;> simp_all

theorem State.lookup_found (s : State) (k : Key) : (s.lookup k).found = (s.entry? k).isSome := by
  unfold State.lookup
  cases s.entry? k with
  | none => rfl
  | some e => by_cases hv : e.visible <;> simp [hv]

theorem State.entry?_of_not_found {s : State} {k : Key} (h : (s.lookup k).found = false) :
    s.entry? k = none := by
  rw [State.lookup_found] at h
  exact Option.not_isSome_iff_eq_none.1 (by simp [h])

theorem State.lookup_of_not_found {s : State} {k : Key} (h : (s.lookup k).found = false) :
    s.lookup k = ⟨[], false, false⟩ := by
  simp [State.lookup, State.entry?_of_not_found h]

theorem State.lookup_congr {s s' : State} {k : Key} (h : s.entry? k = s'.entry? k) :
    s.lookup k = s'.lookup k := by
  simp only [State.lookup, h]

section Lookups

variable {x : Index} {b : String → State} {F : State} {len : Nat → Nat} {k : Key} {id : String}
  {fuel : Nat}

theorem Runs.visibleFrom_end : Runs (x.visibleFrom k (fuel + 1) "") b (.ok []) b := by
  simp only [Index.visibleFrom, String.isEmpty_iff, if_true]
  exact Runs.pure _ b

theorem Runs.visibleFrom_found (hid : id ≠ "") (hs : (b id).status = .available)
    (hf : ((b id).lookup k).found = true) :
    Runs (x.visibleFrom k (fuel + 1) id) b (.ok ((b id).lookup k).values) b := by
  simp only [Index.visibleFrom, String.isEmpty_iff, hid, if_false]
  refine Runs.bind (Runs.resolve id b) ?_
  simp only [hs, hf, ne_eq, not_true_eq_false, ↓reduceIte]
  exact Runs.pure _ b

theorem Runs.visibleFrom_pass {res : Except Error (List EntityRef)} {b' : String → State}
    (hid : id ≠ "") (hs : (b id).status = .available) (hf : ((b id).lookup k).found = false)
    (hrest : Runs (x.visibleFrom k fuel (b id).next) b res b') :
    Runs (x.visibleFrom k (fuel + 1) id) b res b' := by
  simp only [Index.visibleFrom, String.isEmpty_iff, hid, if_false]
  refine Runs.bind (Runs.resolve id b) ?_
  simp only [hs, hf, ne_eq, not_true_eq_false, ↓reduceIte, Bool.false_eq_true]
  exact hrest

theorem Runs.uniqueFrom_end :
    Runs (x.uniqueFrom k (fuel + 1) "") b (.error (.integrity x.name k 0 false)) b := by
  simp only [Index.uniqueFrom, String.isEmpty_iff, if_true]
  exact Runs.throw _ b

theorem Runs.uniqueFrom_found (hid : id ≠ "") (hs : (b id).status = .available)
    (hf : ((b id).lookup k).found = true) :
    Runs (x.uniqueFrom k (fuel + 1) id) b (x.uniqueAnswer k ((b id).lookup k)) b := by
  simp only [Index.uniqueFrom, String.isEmpty_iff, hid, if_false]
  refine Runs.bind (Runs.resolve id b) ?_
  simp only [hs, hf, ne_eq, not_true_eq_false, ↓reduceIte, Index.uniqueAnswer]
  generalize ((b id).lookup k).values = vs
  rcases vs with _ | ⟨r, _ | ⟨r', vs⟩⟩
  · exact Runs.throw _ b
  · exact Runs.pure _ b
  · exact Runs.throw _ b

theorem Runs.uniqueFrom_pass {res : Except Error EntityRef} {b' : String → State}
    (hid : id ≠ "") (hs : (b id).status = .available) (hf : ((b id).lookup k).found = false)
    (hrest : Runs (x.uniqueFrom k fuel (b id).next) b res b') :
    Runs (x.uniqueFrom k (fuel + 1) id) b res b' := by
  simp only [Index.uniqueFrom, String.isEmpty_iff, hid, if_false]
  refine Runs.bind (Runs.resolve id b) ?_
  simp only [hs, hf, ne_eq, not_true_eq_false, ↓reduceIte, Bool.false_eq_true]
  exact hrest

/-- A lookup walk answers from any buckets that refine the flat bucket what it answers at the
key's owner: it passes every bucket above the owner, which lacks the key, and then either finds
the key at the owner, with the flat bucket's sight, or passes the tail to the end of the chain. -/
theorem Refines.lookup_walk {α : Type} {walk : Nat → String → Run Shelf α} {res : Except Error α}
    (h : Refines x b F len) (hfuel : len (x.partitionOf k) < fuel)
    (hpass : ∀ f id, id ≠ "" → (b id).status = .available → ((b id).lookup k).found = false →
      Runs (walk f (b id).next) b res b → Runs (walk (f + 1) id) b res b)
    (hfound : ∀ f id, id ≠ "" → (b id).status = .available → (b id).lookup k = F.lookup k →
      (F.lookup k).found = true → Runs (walk (f + 1) id) b res b)
    (hend : (F.lookup k).found = false → ∀ f, Runs (walk (f + 1) "") b res b) :
    Runs (walk fuel (x.bucketAt (x.partitionOf k) 0)) b res b := by
  obtain ⟨d₀, hd₀, hent, hown, htail⟩ := h.owner k
  obtain ⟨f, rfl⟩ : ∃ f, fuel = f + 1 + 1 + d₀ := ⟨fuel - d₀ - 2, by omega⟩
  refine Runs.chain_skip (fun g i hi hnext => ?_) ?_
  · -- a bucket above the owner lacks the key
    have hne : x.bucketAt (x.partitionOf k) i ≠ x.bucketAt (x.partitionOf k) d₀ :=
      fun heq => by have := (Index.bucketAt_inj.1 heq).2; omega
    refine hpass g _ (Index.bucketAt_ne_empty _ _ _) (h.available _)
      (by rw [State.lookup_found, hown _ hne]; rfl) ?_
    rwa [h.link _ i (by omega)]
  · have hsight := State.lookup_congr hent
    cases hfF : (F.lookup k).found
    case true => exact hfound _ _ (Index.bucketAt_ne_empty _ _ _) (h.available _) hsight hfF
    case false =>
      -- no bucket holds the key, so the owner is the tail and the walk runs off its end
      have hnone : F.entry? k = none := State.entry?_of_not_found hfF
      have hnext : (b (x.bucketAt (x.partitionOf k) d₀)).next = "" := by
        have := h.tail (x.partitionOf k)
        rwa [show len (x.partitionOf k) - 1 = d₀ by have := htail hnone; omega] at this
      refine hpass _ _ (Index.bucketAt_ne_empty _ _ _) (h.available _) (hsight ▸ hfF) ?_
      rw [hnext]
      exact hend hfF f

/-- A lookup of an index answers from any buckets that refine the flat bucket with the flat
bucket's visible entities. -/
theorem Refines.visible (h : Refines x b F len) (hfuel : len (x.partitionOf k) < chainLimit) :
    Runs (x.visible k) b (.ok (F.lookup k).values) b := by
  refine h.lookup_walk hfuel (fun f id hid hs hf hrest => Runs.visibleFrom_pass hid hs hf hrest)
    (fun f id hid hs hsight hf => ?_) (fun hf f => ?_)
  · rw [← hsight]
    exact Runs.visibleFrom_found hid hs (hsight ▸ hf)
  · rw [State.lookup_of_not_found hf]
    exact Runs.visibleFrom_end

/-- A unique lookup of an index answers from any buckets that refine the flat bucket what the flat
bucket's sight gives: its one visible entity, or an integrity failure. -/
theorem Refines.unique (h : Refines x b F len) (hfuel : len (x.partitionOf k) < chainLimit) :
    Runs (x.lookupUnique k) b (x.uniqueAnswer k (F.lookup k)) b := by
  refine h.lookup_walk hfuel (fun f id hid hs hf hrest => Runs.uniqueFrom_pass hid hs hf hrest)
    (fun f id hid hs hsight hf => ?_) (fun hf f => ?_)
  · rw [← hsight]
    exact Runs.uniqueFrom_found hid hs (hsight ▸ hf)
  · rw [State.lookup_of_not_found hf]
    exact Runs.uniqueFrom_end

end Lookups

/-! ## Runs of regular calls -/

/-- The flat bucket after a call: its new state, or the old one when it refuses the update. -/
def Index.flatApply (x : Index) (F : State) (r : EntityRef) (u : IndexUpdate) : State :=
  match F.apply r u x.desc.unique x.flatMeta with
  | .ok (_, F') => F'
  | .error _ => F

/-- Shelves of index `x` reached from the empty shelf by `n` regular calls, each paired with the
flat bucket after the same calls. -/
inductive Applied (x : Index) : Nat → Shelf → State → Prop
  | empty : Applied x 0 {} {}
  | call {n : Nat} {w : Shelf} {F : State} (r : EntityRef) (u : IndexUpdate) :
      Applied x n w F → u.regular = true →
      Applied x (n + 1) ((x.apply r u).exec w).2 (x.flatApply F r u)

/-- Two answers agree up to the kind of failure: both succeed, or both fail with errors of one
kind. -/
def Agrees {α β : Type} : Except Error α → Except Error β → Prop
  | .ok _, .ok _ => True
  | .error e, .error e' => e.kind = e'.kind
  | _, _ => False

/-- Run at a clean shelf whose buckets refine the flat bucket, a call that follows the flat
bucket's answer agrees with it, and leaves a clean shelf whose buckets refine the flat bucket
after the answer. -/
theorem Follows.exec {x : Index} {m : Run Shelf Unit} {w : Shelf} {F : State} {len : Nat → Nat}
    {res : Except Error (Outcome × State)} (hF : Follows x m (view w) len res)
    (h : Refines x (view w) F len) (hc : Clean w) :
    Agrees (m.exec w).1 res ∧ Clean (m.exec w).2 ∧
      ∃ len', Refines x (view (m.exec w).2)
        (match res with
          | .ok (_, F') => F'
          | .error _ => F) len' ∧ ∀ q, len' q ≤ len q + 1 := by
  rcases res with e | ⟨_, F'⟩
  · obtain ⟨e', hk, hrun⟩ := hF
    obtain ⟨w', hexec, hc', hv⟩ := hrun w hc rfl
    rw [hexec]
    exact ⟨hk, hc', len, hv ▸ h, fun q => Nat.le_succ _⟩
  · obtain ⟨b', len', hrun, hR', hl'⟩ := hF
    obtain ⟨w', hexec, hc', hv⟩ := hrun w hc rfl
    rw [hexec]
    exact ⟨trivial, hc', len', hv ▸ hR', hl'⟩

/-- After `n` regular calls the shelf is clean and its buckets refine the flat bucket, with chains
of at most `n + 1` buckets. Each call grows a chain by at most one bucket, which keeps every walk
within its fuel. -/
theorem Applied.refines {x : Index} {n : Nat} {w : Shelf} {F : State} (h : Applied x n w F)
    (hn : n < chainLimit) :
    Clean w ∧ ∃ len, Refines x (view w) F len ∧ ∀ q, len q ≤ n + 1 := by
  induction h with
  | empty => exact ⟨clean_empty, fun _ => 1, Refines.empty x, fun _ => Nat.le_refl 1⟩
  | @call n w F r u _ hu ih =>
    obtain ⟨hc, len, hR, hlen⟩ := ih (by omega)
    obtain ⟨-, hc', len', hR', hl'⟩ :=
      (hR.call r (fun q => by have := hlen q; omega) hu).exec hR hc
    exact ⟨hc', len', hR', fun q => by have := hl' q; have := hlen q; omega⟩

/-- What a shelf of index `x` shows, against the flat bucket `F`. -/
structure FlatRefinement (x : Index) (w : Shelf) (F : State) : Prop where
  /-- Under every key the flat bucket holds exactly the entry some bucket holds. -/
  entries : ∀ k e, F.entry? k = some e ↔ ∃ id, State.entry? (view w id) k = some e
  /-- No key lives in two buckets. -/
  disjoint : ∀ id id' k, (view w id).hasKey k = true → (view w id').hasKey k = true → id = id'
  /-- The next regular call fails exactly when the flat bucket refuses the update, with an error
  of the same kind. -/
  calls : ∀ r u, u.regular = true →
    Agrees ((x.apply r u).exec w).1 (F.apply r u x.desc.unique x.flatMeta)
  /-- A lookup answers the flat bucket's visible entities. -/
  visible : ∀ k, ((x.visible k).exec w).1 = .ok (F.lookup k).values
  /-- A unique lookup answers from the flat bucket's sight. -/
  unique : ∀ k, ((x.lookupUnique k).exec w).1 = x.uniqueAnswer k (F.lookup k)

/-- A chained, partitioned index refines one flat bucket along every run of regular calls from
the empty shelf: its buckets hold the flat bucket's entries, each key in one bucket, its next call
fails exactly when the flat bucket refuses, and its lookups answer as the flat bucket. -/
theorem chained_index_refines_flat_bucket {x : Index} {n : Nat} {w : Shelf} {F : State}
    (h : Applied x n w F) (hn : n + 1 < chainLimit) : FlatRefinement x w F := by
  obtain ⟨hc, len, hR, hlen⟩ := h.refines (by omega)
  have hfuel : ∀ q, len q < chainLimit := fun q => by have := hlen q; omega
  refine ⟨hR.holds, hR.once, fun r u hu => ((hR.call r hfuel hu).exec hR hc).1, fun k => ?_,
    fun k => ?_⟩
  · obtain ⟨w', hexec, -⟩ := hR.visible (hfuel _) w hc rfl
    rw [hexec]
  · obtain ⟨w', hexec, -⟩ := hR.unique (hfuel _) w hc rfl
    rw [hexec]

/-- An index of one partition whose buckets take one key each. -/
def oneKeyBuckets : Index := ⟨"player.email", { name := "email", maxEntries := 1 }⟩

/-- An insert of key `s:x`. -/
def insertX : IndexUpdate := ⟨.insert, Key.null, ⟨"s:x"⟩, false, .plain⟩

theorem refines_flat_bucket_after_one_insert :
    Applied oneKeyBuckets 1 ((oneKeyBuckets.apply ⟨"player", "a"⟩ insertX).exec {}).2
        (oneKeyBuckets.flatApply {} ⟨"player", "a"⟩ insertX) ∧ 1 + 1 < chainLimit ∧
      FlatRefinement oneKeyBuckets ((oneKeyBuckets.apply ⟨"player", "a"⟩ insertX).exec {}).2
        (oneKeyBuckets.flatApply {} ⟨"player", "a"⟩ insertX) := by
  have h := Applied.call ⟨"player", "a"⟩ insertX (Applied.empty (x := oneKeyBuckets)) rfl
  exact ⟨h, by decide, chained_index_refines_flat_bucket h (by decide)⟩

/-- An update with an unknown operation code, with only an after-image. -/
def unknownOperation : IndexUpdate := ⟨.other 7, Key.null, ⟨"s:x"⟩, false, .plain⟩

/-- An update between two equal keys. -/
def equalImages : IndexUpdate := ⟨.update, ⟨"s:y"⟩, ⟨"s:y"⟩, false, .plain⟩

set_option maxRecDepth 200000 in
/-- Outside regular updates the index and the flat bucket part ways. On a chained index the router
splits an unknown operation into an insert and a delete, and the insert lands where the flat
bucket refuses the update; an update between two equal keys is inserted and deleted again, where
the flat bucket inserts it. -/
theorem chained_index_applies_unknown_operation :
    let w₁ := (oneKeyBuckets.apply ⟨"player", "a"⟩ unknownOperation).exec ({} : Shelf)
    let w₂ := (oneKeyBuckets.apply ⟨"player", "b"⟩ equalImages).exec w₁.2
    let F := oneKeyBuckets.flatApply (oneKeyBuckets.flatApply {} ⟨"player", "a"⟩ unknownOperation)
      ⟨"player", "b"⟩ equalImages
    w₁.1.toBool = true ∧
      (State.apply {} ⟨"player", "a"⟩ unknownOperation false oneKeyBuckets.flatMeta).toBool = false ∧
      w₂.1.toBool = true ∧
      ((oneKeyBuckets.visible ⟨"s:x"⟩).exec w₂.2).1.toOption = some [⟨"player", "a"⟩] ∧
      (F.lookup ⟨"s:x"⟩).values = [] ∧
      ((oneKeyBuckets.visible ⟨"s:y"⟩).exec w₂.2).1.toOption = some [] ∧
      (F.lookup ⟨"s:y"⟩).values = [⟨"player", "b"⟩] := by
  decide +kernel

end EntityIndex.Bucket
