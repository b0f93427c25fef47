import EntityIndex.Proofs.Bucket.FlatRuns

/-!
# A batch against the flat bucket

`Index.applyBatch` routes every item of a batch into parts, groups the parts by partition and
runs each group down its chain: each bucket takes the parts it owns in batch order, skips those
it refuses, and passes the rest on, with every later part of a key already passed on. Against
the flat bucket of `Refines` a batch is the routed parts applied one at a time, each refused part
skipped (`Refines.batch`).

The proof goes bucket by bucket. A bucket below buckets that lack a part's keys decides the part
as the flat bucket does unless it passes it on (`Refines.part_at`). A pass through one bucket
then refines the flat bucket after the parts it took, while for every key the parts it took and
the parts it passed on are the parts of that key in batch order (`batch_fold`); the
flat bucket's entry under a key depends only on the parts of that key, so the order across keys
does not matter. A growing chain stays within its fuel because an empty tail takes at least one
part before it passes any on (`batch_rest_length_lt`).

Applying the routed parts one at a time is applying the items one at a time only while the flat
bucket takes every item: a move whose insert half is refused still runs its delete half in a
batch, where one call of the index stops at the insert half (`batch_frees_key_of_refused_move`).
-/

namespace EntityIndex.Bucket

open EntityIndex.Bucket.Shelf

/-! ## Passes through one bucket -/

namespace State

variable {s s' : State} {r : EntityRef} {u : IndexUpdate} {uq : Bool} {m : IndexMeta}

/-- A bucket that may take new keys passes nothing on. -/
theorem apply_ne_notFoundHere_of_canCreate (hc : s.canCreate m = true) :
    s.apply r u uq m ≠ .ok (.notFoundHere, s') := by
  intro h
  rcases apply_cases h with ⟨-, h, -⟩ | ⟨-, h⟩ | ⟨-, h⟩ | ⟨-, h⟩
  · cases h
  · simp [(insert_notFoundHere h).2.2] at hc
  · simp [State.delete, next_eq_empty_of_canCreate hc] at h
  · simp [(change_notFoundHere h).2.2] at hc

end State

section Pass

variable {m : IndexMeta} {p : BatchPass} {it : Item}

theorem batchStep_of_touch (h : (updateKeys it.update).any p.deferred.contains = true) :
    batchStep m p it =
      { p with rest := p.rest ++ [it], deferred := p.deferred ++ updateKeys it.update } := by
  simp [batchStep, h]

theorem batchStep_of_error {e : Error}
    (hfree : (updateKeys it.update).any p.deferred.contains = false)
    (ha : p.state.apply it.entity it.update m.unique m = .error e) :
    batchStep m p it = { p with skipped := p.skipped ++ [e] } := by
  simp [batchStep, hfree, ha]

theorem batchStep_of_passed {s' : State}
    (hfree : (updateKeys it.update).any p.deferred.contains = false)
    (ha : p.state.apply it.entity it.update m.unique m = .ok (.notFoundHere, s')) :
    batchStep m p it =
      { p with rest := p.rest ++ [it], deferred := p.deferred ++ updateKeys it.update } := by
  simp [batchStep, hfree, ha]

theorem batchStep_of_applied {s' : State}
    (hfree : (updateKeys it.update).any p.deferred.contains = false)
    (ha : p.state.apply it.entity it.update m.unique m = .ok (.applied, s')) :
    batchStep m p it = { p with state := s', applied := p.applied + 1 } := by
  simp [batchStep, hfree, ha]

/-- Every item of a pass is passed on, applied, or skipped. -/
theorem batch_rest_applied (items : List Item) :
    ∀ p : BatchPass, (items.foldl (batchStep m) p).rest.length +
      (items.foldl (batchStep m) p).applied ≤ p.rest.length + p.applied + items.length := by
  induction items with
  | nil => intro p; simp
  | cons it items ih =>
    intro p
    have hstep : (batchStep m p it).rest.length + (batchStep m p it).applied ≤
        p.rest.length + p.applied + 1 := by
      rcases batchStep_cases m p it with ⟨hb, -⟩ | ⟨e, hb⟩ | ⟨-, s', -, hb⟩ <;> rw [hb] <;> simp <;>
        omega
    have := ih (batchStep m p it)
    simp only [List.foldl_cons, List.length_cons]
    omega

/-- A pass through a bucket that may take new keys, which has applied nothing, is still at that
bucket with nothing passed on: such a bucket takes every key. -/
theorem batch_idle_of_canCreate {s : State} (hs : s.canCreate m = true) (items : List Item) :
    ∀ p : BatchPass, (p.applied = 0 → p.state = s ∧ p.rest = [] ∧ p.deferred = []) →
      (items.foldl (batchStep m) p).applied = 0 →
        (items.foldl (batchStep m) p).state = s ∧ (items.foldl (batchStep m) p).rest = [] ∧
          (items.foldl (batchStep m) p).deferred = [] := by
  induction items with
  | nil => intro p hp; exact hp
  | cons it items ih =>
    intro p hp
    refine ih _ fun h0 => ?_
    rcases batchStep_applied m p it with ⟨ha, -⟩ | ha
    · obtain ⟨hst, hr, hd⟩ := hp (ha ▸ h0)
      have hfree : (updateKeys it.update).any p.deferred.contains = false := by simp [hd]
      cases happ : p.state.apply it.entity it.update m.unique m with
      | error e => rw [batchStep_of_error hfree happ]; exact ⟨hst, hr, hd⟩
      | ok res =>
        obtain ⟨o, s'⟩ := res
        cases o with
        | notFoundHere =>
          exact absurd happ (State.apply_ne_notFoundHere_of_canCreate (hst ▸ hs))
        | applied => simp [batchStep_of_applied hfree happ] at h0
    · omega

/-- A pass through a bucket that may take new keys, and passes items on, took at least one
first. -/
theorem batch_rest_length_lt {s : State} (hs : s.canCreate m = true) (items : List Item)
    (h : (items.foldl (batchStep m) ⟨s, [], [], 0, []⟩).rest ≠ []) :
    (items.foldl (batchStep m) ⟨s, [], [], 0, []⟩).rest.length < items.length := by
  have hle := batch_rest_applied (m := m) items ⟨s, [], [], 0, []⟩
  have hpos : (items.foldl (batchStep m) ⟨s, [], [], 0, []⟩).applied ≠ 0 := fun h0 =>
    h (batch_idle_of_canCreate hs items _ (fun _ => ⟨rfl, rfl, rfl⟩) h0).2.1
  simp only [List.length_nil] at hle
  omega

/-- A pass that started with nothing passed on passes on items of its own. -/
theorem batch_rest_sub (items : List Item) :
    ∀ it ∈ (items.foldl (batchStep m) ⟨s, [], [], 0, []⟩).rest, it ∈ items := fun it h =>
  (batch_rest_mem items _ it h).resolve_left (by simp)

/-- An item that touches no deferred key can be taken before the items passed on: none of them
touches its key. -/
theorem BatchPass.Fresh.filter_comm (hp : p.Fresh)
    (hfree : (updateKeys it.update).any p.deferred.contains = false) (k : Key) :
    [it].filter (touches (· == k)) ++ p.rest.filter (touches (· == k)) =
      p.rest.filter (touches (· == k)) ++ [it].filter (touches (· == k)) := by
  by_cases hkt : touches (· == k) it = true
  · have hnil : p.rest.filter (touches (· == k)) = [] := by
      refine List.filter_eq_nil_iff.2 fun it' hit' ht' => ?_
      obtain ⟨k₁, hk₁, hk₁k⟩ := List.any_eq_true.1 ht'
      obtain ⟨k₂, hk₂, hk₂k⟩ := List.any_eq_true.1 hkt
      rw [beq_iff_eq] at hk₁k hk₂k
      rw [hk₁k] at hk₁
      rw [hk₂k] at hk₂
      have := List.any_eq_false.1 hfree k hk₂
      simp [hp.2 it' hit' k hk₁] at this
    simp [hnil]
  · simp [hkt]

end Pass

/-! ## Runs of a batch -/

section Runs

variable {b b₁ b₂ : String → State}

theorem Runs.applyBatchAt (m : IndexMeta) (id : String) (items : List Item) (b : String → State) :
    Runs (applyBatchAt m id items) b (.ok (items.foldl (batchStep m) ⟨b id, [], [], 0, []⟩).rest)
      (Function.update b id (items.foldl (batchStep m) ⟨b id, [], [], 0, []⟩).state) := by
  refine Runs.bind (Runs.resolve id b) ?_
  by_cases ha : 0 < (items.foldl (batchStep m) ⟨b id, [], [], 0, []⟩).applied
  · simp only [ha, if_true]
    exact Runs.bind (Runs.commit _ _ _) (Runs.pure _ _)
  · -- nothing applied, nothing to write: the bucket is as it was
    have hs := batch_state_of_applied (m := m) items ⟨b id, [], [], 0, []⟩ (by
      have := batch_applied_le (m := m) items ⟨b id, [], [], 0, []⟩
      simp only at this ⊢
      omega)
    simp only [ha, if_false]
    rw [hs, Function.update_eq_self]
    exact Runs.bind (Runs.pure _ _) (Runs.pure _ _)

theorem Runs.attempt_ok {α : Type} {m : Run Shelf α} {a : α} (h : Runs m b (.ok a) b₁) :
    Runs (Run.attempt m) b (.ok (.ok a)) b₁ := fun w hc hv => by
  obtain ⟨w', hx, hc', hv'⟩ := h w hc hv
  exact ⟨w', Run.exec_attempt_ok hx, hc', hv'⟩

theorem Runs.attemptAll_cons {m : Run Shelf Unit} {ms : List (Run Shelf Unit)} {es : List Error}
    (h : Runs m b (.ok ()) b₁) (hs : Runs (Run.attemptAll ms) b₁ (.ok es) b₂) :
    Runs (Run.attemptAll (m :: ms)) b (.ok es) b₂ := by
  rw [Run.attemptAll]
  exact Runs.bind (Runs.attempt_ok h) (Runs.bind hs (Runs.pure _ _))

end Runs

/-! ## One part at one bucket -/

/-- A part a chain of partition `p` takes: a regular update of keys of `p`, and a half on a
chained index. -/
structure Index.PartOf (x : Index) (p : Nat) (it : Item) : Prop where
  /-- A regular update. -/
  regular : it.update.regular = true
  /-- Keys of partition `p` only. -/
  partition : ∀ k ∈ updateKeys it.update, x.partitionOf k = p
  /-- A half, on a chained index. -/
  half : x.desc.chained = true → isHalf it.update = true

theorem Index.PartOf.of_routed {x : Index} {items : List Item} {e : Nat × Item}
    (h : e ∈ x.routed items) (hu : ∀ it ∈ items, it.update.regular = true) :
    x.PartOf e.1 e.2 := by
  obtain ⟨it₀, hit₀, hmem⟩ := List.mem_flatMap.1 h
  obtain ⟨⟨q', v⟩, hqv, rfl⟩ := List.mem_map.1 hmem
  exact ⟨Index.route_regular hqv (hu it₀ hit₀), Index.route_partition hqv,
    Index.route_half hqv⟩

section Owner

variable {x : Index} {b : String → State} {G : State} {len : Nat → Nat}

/-- Below buckets that lack a key, the bucket at depth `d` of the key's chain is the key's owner,
or it lacks the key too and has a successor. -/
theorem Refines.owner_or_passed (h : Refines x b G len) {k : Key} {d : Nat}
    (hd : d < len (x.partitionOf k))
    (habove : ∀ i < d, (b (x.bucketAt (x.partitionOf k) i)).hasKey k = false) :
    (State.entry? (b (x.bucketAt (x.partitionOf k) d)) k = G.entry? k ∧
      (∀ id, id ≠ x.bucketAt (x.partitionOf k) d → State.entry? (b id) k = none) ∧
      (G.entry? k = none → d + 1 = len (x.partitionOf k))) ∨
    (State.entry? (b (x.bucketAt (x.partitionOf k) d)) k = none ∧
      (b (x.bucketAt (x.partitionOf k) d)).next ≠ "" ∧ x.desc.chained = true) := by
  obtain ⟨d₀, hd₀, hent, hown, htail⟩ := h.owner k
  rcases Nat.lt_trichotomy d₀ d with hlt | rfl | hgt
  · -- an owner above would hold the key, or be the tail
    exfalso
    cases hG : G.entry? k with
    | none => have := htail hG; omega
    | some e =>
      have := habove d₀ hlt
      simp [State.hasKey, hent, hG] at this
  · exact .inl ⟨hent, hown, htail⟩
  · refine .inr ⟨hown _ fun heq => by have := (Index.bucketAt_inj.1 heq).2; omega, ?_, ?_⟩
    · rw [h.link _ d (by omega)]
      exact Index.bucketAt_ne_empty _ _ _
    · cases hch : x.desc.chained with
      | true => rfl
      | false => have := h.flat hch (x.partitionOf k); omega

/-- What a bucket's answer to a part means for the flat bucket: a refusal, which the flat bucket
shares; a part passed on; or a new state that, written back, refines the flat bucket after the
part. -/
def Decides (x : Index) (b : String → State) (id : String) (len : Nat → Nat) (G : State)
    (r : EntityRef) (v : IndexUpdate) : Except Error (Outcome × State) → Prop
  | .error _ => x.flatApply G r v = G
  | .ok (.applied, s') => Refines x (Function.update b id s') (x.flatApply G r v) len
  | .ok (.notFoundHere, _) => True

variable (r : EntityRef) {v : IndexUpdate} {d : Nat}

theorem Refines.insert_at (h : Refines x b G len) (hop : v.op = .insert)
    (ht : (v.tentative && !x.desc.unique) = false) (hd : d < len (x.partitionOf v.after))
    (habove : ∀ i < d, (b (x.bucketAt (x.partitionOf v.after) i)).hasKey v.after = false) :
    Decides x b (x.bucketAt (x.partitionOf v.after) d) len G r v
      ((b (x.bucketAt (x.partitionOf v.after) d)).apply r v x.desc.unique x.desc) := by
  have hflat : G.apply r v x.desc.unique x.flatMeta =
      G.insert r v.after v.tentative x.desc.unique x.flatMeta := State.apply_of_insert hop ht
  rw [State.apply_of_insert hop ht]
  rcases h.owner_or_passed hd habove with ⟨hent, hown, -⟩ | ⟨hnone, hnext, -⟩
  · cases hG : G.entry? v.after with
    | some e =>
      rw [hG] at hent
      rw [State.insert_of_entry hent]
      by_cases hu : (x.desc.unique && e.holdsOther r) = true
      · rw [if_pos hu]
        exact Index.flatApply_of_error (by rw [hflat, State.insert_of_entry hG, if_pos hu])
      · rw [if_neg hu]
        show Refines x _ _ len
        rw [Index.flatApply_of_ok (by rw [hflat, State.insert_of_entry hG, if_neg hu])]
        exact h.add_at hd (hent.trans hG.symm) hown r v.tentative
    | none =>
      rw [hG] at hent
      cases hcc : (b (x.bucketAt (x.partitionOf v.after) d)).canCreate x.desc with
      | false =>
        rw [State.insert_of_full hent hcc]
        trivial
      | true =>
        rw [State.insert_of_canCreate hent hcc]
        show Refines x _ _ len
        rw [Index.flatApply_of_ok
          (by rw [hflat, State.insert_of_canCreate hG (x.canCreate_flatMeta h.flatNext)])]
        exact h.add_at hd (hent.trans hG.symm) hown r v.tentative
  · rw [State.insert_of_full hnone (by simp [State.canCreate, hnext])]
    trivial

theorem Refines.delete_at (h : Refines x b G len) (hop : v.op = .delete)
    (ht : (v.tentative && !x.desc.unique) = false) (hd : d < len (x.partitionOf v.before))
    (habove : ∀ i < d, (b (x.bucketAt (x.partitionOf v.before) i)).hasKey v.before = false) :
    Decides x b (x.bucketAt (x.partitionOf v.before) d) len G r v
      ((b (x.bucketAt (x.partitionOf v.before) d)).apply r v x.desc.unique x.desc) := by
  have hflat : x.flatApply G r v = G.remove v.before r v.tentative :=
    Index.flatApply_of_ok (by rw [State.apply_of_delete hop ht, flat_delete r h])
  rw [State.apply_of_delete hop ht]
  rcases h.owner_or_passed hd habove with ⟨hent, hown, htail⟩ | ⟨hnone, hnext, hc⟩
  · -- the owner holds the key, or it is the tail
    have howned : (State.entry? (b (x.bucketAt (x.partitionOf v.before) d)) v.before).isSome ∨
        x.desc.chained = false ∨ (b (x.bucketAt (x.partitionOf v.before) d)).next = "" := by
      cases hG : G.entry? v.before with
      | some e => exact .inl (by simp [hent, hG])
      | none =>
        have := h.tail (x.partitionOf v.before)
        rw [show len (x.partitionOf v.before) - 1 = d by have := htail hG; omega] at this
        exact .inr (.inr this)
    rw [State.delete_of_owned howned, State.trackDelete_of_available
      (by rw [State.status_remove]; exact h.available _)]
    show Refines x _ _ len
    rw [hflat]
    exact h.remove_at hd hent hown r v.tentative
  · rw [State.delete_of_passed hnone hc hnext]
    trivial

/-- A part of an unbounded index is decided at the head of its partition, its only bucket. -/
theorem Refines.part_at_head (h : Refines x b G len) (hc : x.desc.chained = false)
    (hv : v.regular = true) (hp : x.partitionOf v.before = x.partitionOf v.after)
    (hop : v.op = .update) (ht : (v.tentative && !x.desc.unique) = false) :
    Decides x b (x.bucketAt (x.partitionOf v.after) 0) len G r v
      ((b (x.bucketAt (x.partitionOf v.after) 0)).apply r v x.desc.unique x.desc) := by
  have hba : v.before ≠ v.after := by simpa [IndexUpdate.regular, hop] using hv
  rcases h.whole_at_head r hop hba ht hc with ⟨e, hi, hF⟩ | ⟨hi, hF⟩
  · rw [hi]
    exact Index.flatApply_of_error hF
  · rw [hi]
    show Refines x _ _ len
    rw [Index.flatApply_of_ok hF]
    exact h.move_at r hc hp v.tentative

/-- The bucket at depth `d` of a partition's chain, below buckets that lack the keys of a part
of the partition, decides the part as the flat bucket does unless it passes it on. -/
theorem Refines.part_at (h : Refines x b G len) {p : Nat} (hd : d < len p) {it : Item}
    (hit : x.PartOf p it)
    (habove : ∀ k ∈ updateKeys it.update, ∀ i < d, (b (x.bucketAt p i)).hasKey k = false) :
    Decides x b (x.bucketAt p d) len G it.entity it.update
      ((b (x.bucketAt p d)).apply it.entity it.update x.desc.unique x.desc) := by
  by_cases hnone : it.update.op = .none
  · rw [State.apply_of_none hnone]
    show Refines x _ _ len
    rw [Function.update_eq_self, Index.flatApply_of_ok (State.apply_of_none hnone)]
    exact h
  cases ht : (it.update.tentative && !x.desc.unique)
  case true =>
    rw [State.apply_of_tentative ht hnone]
    exact Index.flatApply_of_error (State.apply_of_tentative ht hnone)
  case false =>
    cases hop : it.update.op with
    | none => exact absurd hop hnone
    | insert =>
      obtain rfl : x.partitionOf it.update.after = p := hit.partition _ (by simp [updateKeys, hop])
      exact h.insert_at it.entity hop ht hd (habove _ (by simp [updateKeys, hop]))
    | delete =>
      obtain rfl : x.partitionOf it.update.before = p :=
        hit.partition _ (by simp [updateKeys, hop])
      exact h.delete_at it.entity hop ht hd (habove _ (by simp [updateKeys, hop]))
    | update =>
      -- only an unbounded index keeps an update whole, at its only bucket
      have hc : x.desc.chained = false := by
        cases hch : x.desc.chained with
        | false => rfl
        | true => simpa [isHalf, hop] using hit.half hch
      have ha := hit.partition _ (by simp [updateKeys, hop] : it.update.after ∈ _)
      have hb := hit.partition _ (by simp [updateKeys, hop] : it.update.before ∈ _)
      obtain rfl : d = 0 := by have := h.flat hc p; omega
      rw [← ha]
      exact h.part_at_head it.entity hc hit.regular (hb.trans ha.symm) hop ht
    | other c =>
      have := hit.regular
      simp [IndexUpdate.regular, hop] at this

end Owner

/-! ## A pass through one bucket -/

section Fold

variable {x : Index} {b : String → State} {len : Nat → Nat} {p d : Nat}

theorem Refines.of_entry?_eq {F G : State} (h : Refines x b F len) (hG : G.Flat)
    (he : ∀ k, F.entry? k = G.entry? k) : Refines x b G len :=
  { h with
    holds := fun k e => by rw [← he k]; exact h.holds k e
    flatNext := hG.next
    flatAvailable := hG.available }

theorem filter_cons_append {α : Type} (f : α → Bool) (a : α) (L : List α) :
    (a :: L).filter f = [a].filter f ++ L.filter f := by
  rw [show a :: L = [a] ++ L from rfl, List.filter_append]

/-- The flat bucket after halves split into the parts taken and the parts passed on, each key's
parts kept in order, is the flat bucket after all of them. -/
theorem Index.flatRun_split_entry? {F : State} (hF : F.Flat) {S R its : List Item}
    (hh : ∀ it ∈ S ++ R ++ its, isHalf it.update = true)
    (hkeys : ∀ k, S.filter (touches (· == k)) ++ R.filter (touches (· == k)) =
      its.filter (touches (· == k))) (k : Key) :
    State.entry? (x.flatRun F (S ++ R)) k = State.entry? (x.flatRun F its) k := by
  -- a half's one key is the key or another
  have hside : ∀ L : List Item, (∀ it ∈ L, isHalf it.update = true) → ∀ it ∈ L,
      (∀ k' ∈ updateKeys it.update, (· == k) k' = true) ∨
        ∀ k' ∈ updateKeys it.update, (· == k) k' = false := by
    intro L hL it hit
    obtain ⟨k₀, hk₀⟩ := updateKeys_of_isHalf (hL it hit)
    rw [hk₀]
    by_cases h : k₀ = k
    · exact .inl (by simp [h])
    · exact .inr (by simp [h])
  rw [Index.flatRun_entry?_filter (· == k) (S ++ R)
      (hside _ fun it h => hh it (List.mem_append_left _ h)) hF hF (fun _ _ => rfl) k (by simp),
    Index.flatRun_entry?_filter (· == k) its
      (hside _ fun it h => hh it (List.mem_append_right _ h)) hF hF (fun _ _ => rfl) k (by simp),
    List.filter_append, hkeys k]

/-- A pass of halves through the bucket at depth `d` of a chained partition, below buckets that
lack their keys. With the bucket as the pass leaves it, the buckets refine the flat bucket after
the parts the pass took, and for every key the parts it took and the parts it passed on are the
key's parts in batch order. -/
theorem batch_fold (hc : x.desc.chained = true) (hd : d < len p) (its : List Item)
    (hits : ∀ it ∈ its, x.PartOf p it)
    (habove : ∀ it ∈ its, ∀ k ∈ updateKeys it.update, ∀ i < d,
      (b (x.bucketAt p i)).hasKey k = false) :
    ∀ (P : BatchPass) (G : State), Refines x (Function.update b (x.bucketAt p d) P.state) G len →
      P.Fresh → ∃ S, (∀ it ∈ S, it ∈ its) ∧
        Refines x (Function.update b (x.bucketAt p d) (its.foldl (batchStep x.desc) P).state)
          (x.flatRun G S) len ∧
        ∀ k, S.filter (touches (· == k)) ++
            (its.foldl (batchStep x.desc) P).rest.filter (touches (· == k)) =
          P.rest.filter (touches (· == k)) ++ its.filter (touches (· == k)) := by
  induction its with
  | nil => intro P G hR _; exact ⟨[], by simp, by simpa using hR, fun k => by simp⟩
  | cons it its ih =>
    intro P G hR hP
    have hit := hits it List.mem_cons_self
    have ih' := ih (fun it' h => hits it' (List.mem_cons_of_mem _ h))
      (fun it' h => habove it' (List.mem_cons_of_mem _ h))
    have hP' : (batchStep x.desc P it).Fresh := batchStep_fresh (hit.half hc) hP
    simp only [List.foldl_cons]
    cases htouch : (updateKeys it.update).any P.deferred.contains with
    | true =>
      -- passed on behind a part of the same key
      have hstep := batchStep_of_touch (m := x.desc) htouch
      obtain ⟨S, hSsub, hS, hkeys⟩ := ih' _ G (by rw [hstep]; exact hR) hP'
      refine ⟨S, fun it' h => List.mem_cons_of_mem _ (hSsub it' h), hS, fun k => ?_⟩
      rw [hkeys k, hstep, List.filter_append, List.append_assoc, ← filter_cons_append]
    | false =>
      -- the bucket decides the part itself
      have habove' : ∀ k ∈ updateKeys it.update, ∀ i < d,
          (Function.update b (x.bucketAt p d) P.state (x.bucketAt p i)).hasKey k = false :=
        fun k hk i hi => by
          rw [Function.update_of_ne fun heq => by have := (Index.bucketAt_inj.1 heq).2; omega]
          exact habove it List.mem_cons_self k hk i hi
      have hdec := hR.part_at hd hit habove'
      rw [Function.update_self] at hdec
      -- a part taken here comes before the parts passed on, none of which has its key
      have htake : ∀ S R : List Item, (∀ k, S.filter (touches (· == k)) ++
          R.filter (touches (· == k)) = P.rest.filter (touches (· == k)) ++
            its.filter (touches (· == k))) →
          ∀ k, (it :: S).filter (touches (· == k)) ++ R.filter (touches (· == k)) =
            P.rest.filter (touches (· == k)) ++ (it :: its).filter (touches (· == k)) := by
        intro S R hkeys k
        rw [filter_cons_append, filter_cons_append _ it its, List.append_assoc, hkeys k,
          ← List.append_assoc, hP.filter_comm htouch k, List.append_assoc]
      have hcons : ∀ S : List Item, (∀ it' ∈ S, it' ∈ its) → ∀ it' ∈ it :: S, it' ∈ it :: its := by
        intro S hSsub it' h
        rcases List.mem_cons.1 h with rfl | h
        · exact List.mem_cons_self
        · exact List.mem_cons_of_mem _ (hSsub it' h)
      cases ha : P.state.apply it.entity it.update x.desc.unique x.desc with
      | error e =>
        have hG : x.flatApply G it.entity it.update = G := by rw [ha] at hdec; exact hdec
        have hstep := batchStep_of_error htouch ha
        obtain ⟨S, hSsub, hS, hkeys⟩ := ih' _ G (by rw [hstep]; exact hR) hP'
        refine ⟨it :: S, hcons S hSsub, by rwa [Index.flatRun_cons, hG], htake S _ ?_⟩
        simpa [hstep] using hkeys
      | ok res =>
        obtain ⟨o, s'⟩ := res
        cases o with
        | notFoundHere =>
          have hstep := batchStep_of_passed htouch ha
          obtain ⟨S, hSsub, hS, hkeys⟩ := ih' _ G (by rw [hstep]; exact hR) hP'
          refine ⟨S, fun it' h => List.mem_cons_of_mem _ (hSsub it' h), hS, fun k => ?_⟩
          rw [hkeys k, hstep, List.filter_append, List.append_assoc, ← filter_cons_append]
        | applied =>
          have hG : Refines x (Function.update b (x.bucketAt p d) s')
              (x.flatApply G it.entity it.update) len := by
            rw [ha] at hdec
            simpa [Decides, Function.update_idem] using hdec
          have hstep := batchStep_of_applied htouch ha
          obtain ⟨S, hSsub, hS, hkeys⟩ := ih' _ _ (by rw [hstep]; exact hG) hP'
          refine ⟨it :: S, hcons S hSsub, by rwa [Index.flatRun_cons], htake S _ ?_⟩
          simpa [hstep] using hkeys

/-- On an unbounded index a pass takes every part at the partition's only bucket, in order. -/
theorem batch_fold_unchained (hc : x.desc.chained = false) (its : List Item)
    (hits : ∀ it ∈ its, x.PartOf p it) :
    ∀ (P : BatchPass) (G : State), Refines x (Function.update b (x.bucketAt p 0) P.state) G len →
      P.deferred = [] → Refines x (Function.update b (x.bucketAt p 0)
        (its.foldl (batchStep x.desc) P).state) (x.flatRun G its) len := by
  induction its with
  | nil => intro P G hR _; simpa using hR
  | cons it its ih =>
    intro P G hR hdef
    have hit := hits it List.mem_cons_self
    have ih' := ih fun it' h => hits it' (List.mem_cons_of_mem _ h)
    have hfree : (updateKeys it.update).any P.deferred.contains = false := by simp [hdef]
    have hdec := hR.part_at (by have := hR.pos p; omega) hit fun _ _ i hi => absurd hi (Nat.not_lt_zero i)
    rw [Function.update_self] at hdec
    -- the head is the tail, so it passes nothing on
    have hnext : P.state.next = "" := by
      have := hR.tail p
      rwa [hR.flat hc p, Nat.sub_self, Function.update_self] at this
    simp only [List.foldl_cons, Index.flatRun_cons]
    cases ha : P.state.apply it.entity it.update x.desc.unique x.desc with
    | error e =>
      have hG : x.flatApply G it.entity it.update = G := by rw [ha] at hdec; exact hdec
      rw [batchStep_of_error hfree ha, hG]
      exact ih' _ G hR hdef
    | ok res =>
      obtain ⟨o, s'⟩ := res
      cases o with
      | notFoundHere => exact absurd ha (State.apply_ne_notFoundHere hnext hc)
      | applied =>
        have hG : Refines x (Function.update b (x.bucketAt p 0) s')
            (x.flatApply G it.entity it.update) len := by
          rw [ha] at hdec
          simpa [Decides, Function.update_idem] using hdec
        rw [batchStep_of_applied hfree ha]
        exact ih' _ _ hG hdef

end Fold

/-! ## A batch down a chain -/

section Chain

variable {x : Index} {p : Nat}

/-- One pass through the bucket at depth `d` of a chained partition, below buckets that lack the
keys of its parts. The bucket keeps its link and its status. With the bucket as the pass leaves
it, the buckets refine the flat bucket after the parts the pass took, and those parts followed by
the parts passed on leave the flat bucket's entries of the whole batch. The parts passed on are
parts of the batch, no more than it has, whose keys no bucket down to depth `d` holds; an empty
bucket passes parts on only after it took one. -/
theorem Refines.pass_at (hc : x.desc.chained = true) {d : Nat} {b : String → State} {F : State}
    {len : Nat → Nat} {its : List Item} (h : Refines x b F len) (hd : d < len p)
    (hits : ∀ it ∈ its, x.PartOf p it)
    (habove : ∀ it ∈ its, ∀ k ∈ updateKeys it.update, ∀ i < d,
      (b (x.bucketAt p i)).hasKey k = false) :
    ∃ (P : BatchPass) (S : List Item),
      Runs (applyBatchAt x.desc (x.bucketAt p d) its) b (.ok P.rest)
        (Function.update b (x.bucketAt p d) P.state) ∧
      Refines x (Function.update b (x.bucketAt p d) P.state) (x.flatRun F S) len ∧
      (∀ k, State.entry? (x.flatRun (x.flatRun F S) P.rest) k = State.entry? (x.flatRun F its) k) ∧
      (∀ it ∈ P.rest, x.PartOf p it) ∧
      (∀ s : State, s.entries = P.state.entries → ∀ it ∈ P.rest,
        ∀ k ∈ updateKeys it.update, ∀ i < d + 1,
          (Function.update b (x.bucketAt p d) s (x.bucketAt p i)).hasKey k = false) ∧
      P.state.next = (b (x.bucketAt p d)).next ∧ P.state.status = (b (x.bucketAt p d)).status ∧
      P.rest.length ≤ its.length ∧
      (b (x.bucketAt p d) = {} → P.rest ≠ [] → P.rest.length < its.length) := by
  have hrun := Runs.applyBatchAt x.desc (x.bucketAt p d) its b
  have hfresh := batch_fresh (m := x.desc) its (fun it h => (hits it h).half hc)
    ⟨b (x.bucketAt p d), [], [], 0, []⟩ ⟨by simp, by simp⟩
  obtain ⟨S, hSsub, hS, hkeys⟩ := batch_fold hc hd its hits habove
    ⟨b (x.bucketAt p d), [], [], 0, []⟩ F (by simpa using h) ⟨by simp, by simp⟩
  have hsub := batch_rest_sub (m := x.desc) (s := b (x.bucketAt p d)) its
  have hlen := batch_rest_applied (m := x.desc) its ⟨b (x.bucketAt p d), [], [], 0, []⟩
  have hnext := batch_next (m := x.desc) its ⟨b (x.bucketAt p d), [], [], 0, []⟩
  have hstatus := batch_status (m := x.desc) its ⟨b (x.bucketAt p d), [], [], 0, []⟩
  have hprog : b (x.bucketAt p d) = {} →
      (its.foldl (batchStep x.desc) ⟨b (x.bucketAt p d), [], [], 0, []⟩).rest ≠ [] →
      (its.foldl (batchStep x.desc) ⟨b (x.bucketAt p d), [], [], 0, []⟩).rest.length <
        its.length := fun hB hR => by
    rw [hB] at hR ⊢
    exact batch_rest_length_lt (canCreate_empty _) its hR
  simp only [List.filter_nil, List.nil_append, List.length_nil, Nat.zero_add] at hkeys hlen
  generalize its.foldl (batchStep x.desc) ⟨b (x.bucketAt p d), [], [], 0, []⟩ = P at *
  -- the flat bucket after the parts taken here and then those passed on
  have hflat : ∀ k, State.entry? (x.flatRun (x.flatRun F S) P.rest) k =
      State.entry? (x.flatRun F its) k := by
    intro k
    rw [← Index.flatRun_append]
    refine Index.flatRun_split_entry? h.flatShape (fun it hit => ?_) hkeys k
    rcases List.mem_append.1 hit with hit | hit
    · rcases List.mem_append.1 hit with hit | hit
      · exact (hits it (hSsub it hit)).half hc
      · exact (hits it (hsub it hit)).half hc
    · exact (hits it hit).half hc
  -- the parts passed on name keys of no bucket down to depth `d`
  have habove' : ∀ s : State, s.entries = P.state.entries → ∀ it ∈ P.rest,
      ∀ k ∈ updateKeys it.update, ∀ i < d + 1,
        (Function.update b (x.bucketAt p d) s (x.bucketAt p i)).hasKey k = false := by
    intro s hs it hit k hk i hi
    by_cases hid : i = d
    · subst hid
      rw [Function.update_self]
      simpa [State.hasKey, State.entry?, hs] using hfresh.1 k (hfresh.2 it hit k hk)
    · rw [Function.update_of_ne fun heq => hid (Index.bucketAt_inj.1 heq).2]
      exact habove it (hsub it hit) k hk i (by omega)
  exact ⟨P, S, hrun, hS, hflat, fun it hit => hits it (hsub it hit), habove', hnext, hstatus,
    by omega, hprog⟩

/-- A tail whose pass kept its link and status grows an empty successor: the walk moves on to it,
and the buckets, with the tail linked to it, refine the same flat bucket with the chain one
bucket longer. -/
theorem Refines.grow_after_pass (hc : x.desc.chained = true) {d : Nat} {b : String → State}
    {F G : State} {len : Nat → Nat} {s : State} (h : Refines x b F len) (htail : d + 1 = len p)
    (hS : Refines x (Function.update b (x.bucketAt p d) s) G len)
    (hnext : s.next = (b (x.bucketAt p d)).next)
    (hstatus : s.status = (b (x.bucketAt p d)).status) :
    Runs (Index.successor (x.bucketAt p d)) (Function.update b (x.bucketAt p d) s)
        (.ok (x.bucketAt p (d + 1)))
        (Function.update b (x.bucketAt p d) { s with next := x.bucketAt p (d + 1) }) ∧
      Refines x (Function.update b (x.bucketAt p d) { s with next := x.bucketAt p (d + 1) }) G
        (Function.update len p (d + 2)) ∧
      Function.update b (x.bucketAt p d) { s with next := x.bucketAt p (d + 1) }
        (x.bucketAt p (d + 1)) = {} := by
  have hBnext : (Function.update b (x.bucketAt p d) s (x.bucketAt p d)).next = "" := by
    rw [Function.update_self, hnext]
    have := h.tail p
    rwa [show len p - 1 = d by omega] at this
  have hBst : (Function.update b (x.bucketAt p d) s (x.bucketAt p d)).status = .available := by
    rw [Function.update_self, hstatus]
    exact h.available _
  have hsucc := Runs.successor_tail hBnext hBst
  have hgrow := hS.grow hc htail
  simp only [Function.update_self, Function.update_idem, nextId_bucketAt] at hsucc hgrow
  refine ⟨hsucc, hgrow, ?_⟩
  -- the successor lies past the tail, where no bucket was touched
  rw [Function.update_of_ne fun heq => by have := (Index.bucketAt_inj.1 heq).2; omega]
  exact h.beyond p (d + 1) (by omega)

/-- A bucket above the tail, whose pass kept its link, moves the walk on to the next bucket of its
chain and changes nothing. -/
theorem Refines.link_after_pass {d : Nat} {b : String → State} {F : State} {len : Nat → Nat}
    {s : State} (h : Refines x b F len) (hd : d + 1 < len p)
    (hnext : s.next = (b (x.bucketAt p d)).next) :
    Runs (Index.successor (x.bucketAt p d)) (Function.update b (x.bucketAt p d) s)
      (.ok (x.bucketAt p (d + 1))) (Function.update b (x.bucketAt p d) s) := by
  have hBnext : (Function.update b (x.bucketAt p d) s (x.bucketAt p d)).next =
      x.bucketAt p (d + 1) := by
    rw [Function.update_self, hnext, h.link p d hd]
  have hsucc := Runs.successor_linked (hBnext ▸ Index.bucketAt_ne_empty x p (d + 1))
  rwa [hBnext] at hsucc

/-- The batch of a chained partition from depth `d` down its chain, below buckets that lack the
keys of its parts, refines the flat bucket after the parts applied in order. It grows only this
chain, by at most one bucket a part. The fuel covers the buckets from `d` on and one growth a
part, and one more unless the bucket at `d` is an empty tail, which takes a part before it
passes any on. -/
theorem Refines.chain_batch (hc : x.desc.chained = true) (fuel : Nat) :
    ∀ {d : Nat} {b : String → State} {F : State} {len : Nat → Nat} {its : List Item},
      Refines x b F len → d < len p → its ≠ [] → (∀ it ∈ its, x.PartOf p it) →
      (∀ it ∈ its, ∀ k ∈ updateKeys it.update, ∀ i < d,
        (b (x.bucketAt p i)).hasKey k = false) →
      (len p - d + its.length + 1 ≤ fuel ∨
        (d + 1 = len p ∧ b (x.bucketAt p d) = {} ∧ its.length + 1 ≤ fuel)) →
      ∃ b' len', Runs (x.applyChainBatch fuel (x.bucketAt p d) its) b (.ok ()) b' ∧
        Refines x b' (x.flatRun F its) len' ∧ (∀ q, q ≠ p → len' q = len q) ∧
        len' p ≤ len p + its.length ∧
        (d + 1 = len p → b (x.bucketAt p d) = {} → len' p < len p + its.length) := by
  -- induction on the fuel, one bucket of the chain a step
  induction fuel with
  | zero => intro d b F len its _ _ _ _ _ hfuel; omega
  | succ f ih =>
    intro d b F len its h hd hne hits habove hfuel
    obtain ⟨P, S, hrun, hS, hflat, hrest, habove', hnext, hstatus, hlen, hprog⟩ :=
      h.pass_at hc hd hits habove
    have hpos : 0 < its.length := List.length_pos_iff.2 hne
    rw [Index.applyChainBatch, if_neg (by simpa using hne)]
    by_cases hR : P.rest = []
    · -- nothing passed on
      refine ⟨_, len, Runs.bind hrun ?_, hS.of_entry?_eq (h.flatShape.flatRun its) fun k => ?_,
        fun q _ => rfl, by omega, fun _ _ => by omega⟩
      · simp only [hR, List.isEmpty_nil, ↓reduceIte]
        exact Runs.pure _ _
      · simpa [hR] using hflat k
    · have hRe : ¬(P.rest.isEmpty = true) := by simpa using hR
      by_cases htail : d + 1 = len p
      · -- the tail grows a successor, empty, which takes the parts passed on
        obtain ⟨hsucc, hgrow, hnew⟩ := h.grow_after_pass hc htail hS hnext hstatus
        obtain ⟨b', len', hrun', hR', hframe, -, hlt⟩ := ih hgrow (by simp) hR hrest
          (habove' _ rfl)
          (.inr ⟨by simp, hnew, by
            rcases hfuel with hfuel | ⟨-, hB, hfuel⟩
            · omega
            · have := hprog hB hR; omega⟩)
        have hlt' := hlt (by simp) hnew
        simp only [Function.update_self] at hlt'
        refine ⟨b', len', Runs.bind hrun ?_, hR'.of_entry?_eq (h.flatShape.flatRun its) hflat,
          fun q hq => by rw [hframe q hq, Function.update_of_ne hq], by omega,
          fun _ hB => by have := hprog hB hR; omega⟩
        rw [if_neg hRe]
        exact Runs.bind hsucc hrun'
      · -- the next bucket takes the parts passed on
        have hsucc := h.link_after_pass (by omega) hnext
        obtain ⟨b', len', hrun', hR', hframe, hle, -⟩ := ih hS (by omega) hR hrest
          (habove' _ rfl)
          (.inl (by
            rcases hfuel with hfuel | ⟨hB, -⟩
            · omega
            · omega))
        refine ⟨b', len', Runs.bind hrun ?_, hR'.of_entry?_eq (h.flatShape.flatRun its) hflat,
          hframe, by omega, fun h' => absurd h' htail⟩
        rw [if_neg hRe]
        exact Runs.bind hsucc hrun'

/-- The batch of a partition from its head refines the flat bucket after its parts in order, and
grows only this chain, by at most one bucket a part. -/
theorem Refines.head_batch {b : String → State} {F : State} {len : Nat → Nat}
    (h : Refines x b F len) {its : List Item} (hits : ∀ it ∈ its, x.PartOf p it) (fuel : Nat)
    (hfuel : len p + its.length + 1 ≤ fuel) :
    ∃ b' len', Runs (x.applyChainBatch fuel (x.bucketAt p 0) its) b (.ok ()) b' ∧
      Refines x b' (x.flatRun F its) len' ∧ (∀ q, q ≠ p → len' q = len q) ∧
      len' p ≤ len p + its.length := by
  obtain ⟨f, rfl⟩ : ∃ f, fuel = f + 1 := ⟨fuel - 1, by omega⟩
  by_cases hne : its = []
  · subst hne
    refine ⟨b, len, ?_, h, fun _ _ => rfl, by simp⟩
    rw [Index.applyChainBatch]
    exact Runs.pure _ _
  cases hc : x.desc.chained with
  | true =>
    obtain ⟨b', len', hrun, hR, hframe, hle, -⟩ := Refines.chain_batch hc (f + 1) h (h.pos p) hne
      hits (fun _ _ _ _ i hi => absurd hi (Nat.not_lt_zero i)) (.inl (by omega))
    exact ⟨b', len', hrun, hR, hframe, hle⟩
  | false =>
    -- the head is the partition's only bucket and takes every part
    have hnext : (b (x.bucketAt p 0)).next = "" := by
      have := h.tail p
      rwa [h.flat hc p, Nat.sub_self] at this
    have hnil := batch_rest_eq_nil hc its ⟨b (x.bucketAt p 0), [], [], 0, []⟩ hnext rfl rfl
    refine ⟨_, len, ?_, batch_fold_unchained (b := b) hc its hits
      ⟨b (x.bucketAt p 0), [], [], 0, []⟩ F (by simpa using h) rfl, fun _ _ => rfl, by omega⟩
    rw [Index.applyChainBatch, if_neg (by simpa using hne)]
    refine Runs.bind (Runs.applyBatchAt x.desc (x.bucketAt p 0) its b) ?_
    simp only [hnil, List.isEmpty_nil, ↓reduceIte]
    exact Runs.pure _ _

end Chain

/-! ## Parts by partition -/

/-- The parts of the groups of a batch, each with the partition of its group. -/
def tagged (gs : List (Nat × List Item)) : List (Nat × Item) :=
  gs.flatMap fun g => g.2.map (g.1, ·)

section Groups

variable {x : Index} {gs : List (Nat × List Item)} {p q : Nat} {it : Item}

@[simp] theorem tagged_nil : tagged [] = [] := rfl

@[simp] theorem tagged_cons (g : Nat × List Item) (gs : List (Nat × List Item)) :
    tagged (g :: gs) = g.2.map (g.1, ·) ++ tagged gs := rfl

theorem filter_tag (L : List Item) (g q : Nat) :
    (L.map (g, ·)).filter (·.1 == q) = if g = q then L.map (g, ·) else [] := by
  by_cases h : g = q
  · subst h
    simp [List.filter_map, Function.comp_def]
  · simp [List.filter_map, Function.comp_def, h]

theorem map_snd_tagged (gs : List (Nat × List Item)) :
    (tagged gs).map Prod.snd = gs.flatMap Prod.snd := by
  induction gs with
  | nil => rfl
  | cons g gs ih => simp [tagged, ← ih, Function.comp_def]

theorem tagged_filter_of_not_mem (h : q ∉ gs.map Prod.fst) :
    (tagged gs).filter (·.1 == q) = [] := by
  induction gs with
  | nil => rfl
  | cons g gs ih =>
    simp only [List.map_cons, List.mem_cons, not_or] at h
    simp only [tagged, List.flatMap_cons, List.filter_append] at ih ⊢
    rw [ih h.2, List.append_nil, List.filter_eq_nil_iff]
    intro e he
    obtain ⟨it, -, rfl⟩ := List.mem_map.1 he
    simpa using Ne.symm h.1

theorem Index.addPart_of_eq {g : Nat × List Item} (h : p = g.1) :
    Index.addPart p it (g :: gs) = (g.1, g.2 ++ [it]) :: gs := by
  simp [Index.addPart, h]

theorem Index.addPart_of_lt {g : Nat × List Item} (h₁ : p ≠ g.1) (h₂ : p < g.1) :
    Index.addPart p it (g :: gs) = (p, [it]) :: g :: gs := by
  simp [Index.addPart, h₁, h₂]

theorem Index.addPart_of_gt {g : Nat × List Item} (h₁ : p ≠ g.1) (h₂ : ¬p < g.1) :
    Index.addPart p it (g :: gs) = g :: Index.addPart p it gs := by
  simp [Index.addPart, h₁, h₂]

theorem mem_addPart_fst {y : Nat} (h : y ∈ (Index.addPart p it gs).map Prod.fst) :
    y = p ∨ y ∈ gs.map Prod.fst := by
  induction gs with
  | nil => simpa [Index.addPart] using h
  | cons g gs ih =>
    by_cases h₁ : p = g.1
    · rw [Index.addPart_of_eq h₁] at h
      exact .inr (by simpa using h)
    by_cases h₂ : p < g.1
    · rw [Index.addPart_of_lt h₁ h₂] at h
      simp only [List.map_cons, List.mem_cons] at h ⊢
      tauto
    · rw [Index.addPart_of_gt h₁ h₂] at h
      simp only [List.map_cons, List.mem_cons] at h ⊢
      rcases h with h | h
      · exact .inr (.inl h)
      · rcases ih h with h | h
        · exact .inl h
        · exact .inr (.inr h)

theorem addPart_sorted (h : (gs.map Prod.fst).Pairwise (· < ·)) :
    ((Index.addPart p it gs).map Prod.fst).Pairwise (· < ·) := by
  induction gs with
  | nil => simp [Index.addPart]
  | cons g gs ih =>
    simp only [List.map_cons, List.pairwise_cons] at h
    by_cases h₁ : p = g.1
    · rw [Index.addPart_of_eq h₁]
      simpa using h
    by_cases h₂ : p < g.1
    · rw [Index.addPart_of_lt h₁ h₂]
      simp only [List.map_cons, List.pairwise_cons, List.mem_cons]
      refine ⟨fun y hy => ?_, h⟩
      rcases hy with rfl | hy
      · exact h₂
      · exact Nat.lt_trans h₂ (h.1 y hy)
    · rw [Index.addPart_of_gt h₁ h₂]
      simp only [List.map_cons, List.pairwise_cons]
      refine ⟨fun y hy => ?_, ih h.2⟩
      rcases mem_addPart_fst hy with rfl | hy
      · omega
      · exact h.1 y hy

theorem length_tagged_addPart :
    (tagged (Index.addPart p it gs)).length = (tagged gs).length + 1 := by
  induction gs with
  | nil => simp [Index.addPart, tagged]
  | cons g gs ih =>
    by_cases h₁ : p = g.1
    · rw [Index.addPart_of_eq h₁]
      simp only [tagged_cons, List.length_append, List.length_map, List.length_cons,
        List.length_nil]
      omega
    by_cases h₂ : p < g.1
    · rw [Index.addPart_of_lt h₁ h₂]
      simp only [tagged_cons, List.length_append, List.length_map, List.length_cons,
        List.length_nil]
      omega
    · rw [Index.addPart_of_gt h₁ h₂]
      simp only [tagged_cons, List.length_append] at ih ⊢
      omega

/-- Adding a part to the groups appends it to the parts of its partition. -/
theorem addPart_filter (h : (gs.map Prod.fst).Pairwise (· < ·)) (q : Nat) :
    (tagged (Index.addPart p it gs)).filter (·.1 == q) =
      (tagged gs).filter (·.1 == q) ++ (if p = q then [(p, it)] else []) := by
  induction gs with
  | nil => by_cases hpq : p = q <;> simp [Index.addPart, tagged, hpq]
  | cons g gs ih =>
    simp only [List.map_cons, List.pairwise_cons] at h
    -- the groups after `g` are of partitions above it
    have habove : ∀ q', q' ≤ g.1 → (tagged gs).filter (·.1 == q') = [] := fun q' hq' =>
      tagged_filter_of_not_mem fun hmem => by have := h.1 q' hmem; omega
    by_cases h₁ : p = g.1
    · rw [Index.addPart_of_eq h₁]
      by_cases hq : g.1 = q
      · subst hq
        simp [habove g.1 le_rfl, h₁]
      · simp [hq, h₁]
    by_cases h₂ : p < g.1
    · rw [Index.addPart_of_lt h₁ h₂]
      by_cases hq : p = q
      · subst hq
        have hg : g.1 ≠ p := by omega
        simp [filter_tag, hg, habove p (by omega)]
      · simp [hq]
    · rw [Index.addPart_of_gt h₁ h₂]
      simp only [tagged_cons, List.filter_append] at ih ⊢
      rw [ih h.2, List.append_assoc]

/-- Adding parts one at a time keeps the groups sorted and appends each part to the parts of its
partition. -/
theorem addParts_spec (L : List (Nat × Item)) :
    ∀ gs : List (Nat × List Item), (gs.map Prod.fst).Pairwise (· < ·) →
      ((L.foldl (fun acc e => Index.addPart e.1 e.2 acc) gs).map Prod.fst).Pairwise (· < ·) ∧
      (tagged (L.foldl (fun acc e => Index.addPart e.1 e.2 acc) gs)).length =
        (tagged gs).length + L.length ∧
      ∀ q, (tagged (L.foldl (fun acc e => Index.addPart e.1 e.2 acc) gs)).filter (·.1 == q) =
        (tagged gs).filter (·.1 == q) ++ L.filter (·.1 == q) := by
  induction L with
  | nil => intro gs h; simp [h]
  | cons e L ih =>
    intro gs h
    simp only [List.foldl_cons]
    obtain ⟨hs, hl, hf⟩ := ih _ (addPart_sorted h)
    refine ⟨hs, by rw [hl, length_tagged_addPart, List.length_cons]; omega, fun q => ?_⟩
    rw [hf q, addPart_filter h q, List.append_assoc, filter_cons_append _ e L]
    by_cases hq : e.1 = q
    · subst hq
      simp
    · simp [hq]

theorem Index.parts_eq (x : Index) (items : List Item) :
    x.parts items = (x.routed items).foldl (fun acc e => Index.addPart e.1 e.2 acc) [] := by
  simp only [Index.parts, Index.routed, List.foldl_flatMap, List.foldl_map]

/-- The groups of a batch are sorted by partition, and each holds the routed parts of its
partition in batch order. -/
theorem Index.parts_spec (x : Index) (items : List Item) :
    ((x.parts items).map Prod.fst).Pairwise (· < ·) ∧
      (tagged (x.parts items)).length = (x.routed items).length ∧
      ∀ q, (tagged (x.parts items)).filter (·.1 == q) = (x.routed items).filter (·.1 == q) := by
  obtain ⟨hs, hl, hf⟩ := addParts_spec (x.routed items) [] List.Pairwise.nil
  rw [Index.parts_eq]
  exact ⟨hs, by simpa [tagged] using hl, fun q => by simpa [tagged] using hf q⟩

/-- Every part of a group is a routed part of the batch, tagged with the group's partition. -/
theorem Index.mem_routed_of_mem_tagged (x : Index) {items : List Item} {e : Nat × Item}
    (he : e ∈ tagged (x.parts items)) : e ∈ x.routed items := by
  have : e ∈ (tagged (x.parts items)).filter (·.1 == e.1) := List.mem_filter.2 ⟨he, by simp⟩
  rw [(x.parts_spec items).2.2] at this
  exact (List.mem_filter.1 this).1

/-- Keeping the parts that touch a partition's keys keeps only parts of that partition. -/
theorem filter_touches_tagged (T : List (Nat × Item))
    (hT : ∀ e ∈ T, ∀ k ∈ updateKeys e.2.update, x.partitionOf k = e.1) (q : Nat) :
    (T.map Prod.snd).filter (touches (x.partitionOf · == q)) =
      ((T.filter (·.1 == q)).map Prod.snd).filter (touches (x.partitionOf · == q)) := by
  induction T with
  | nil => rfl
  | cons e T ih =>
    have ih' := ih fun e' h => hT e' (List.mem_cons_of_mem _ h)
    by_cases hq : e.1 = q
    · simp [List.filter_cons, hq, ih']
    · -- a part of another partition touches none of the keys of `q`
      have hno : touches (x.partitionOf · == q) e.2 = false := by
        refine List.any_eq_false.2 fun k hk => ?_
        simpa [hT e List.mem_cons_self k hk] using hq
      simp [hq, hno, ih']

/-- The flat bucket after the groups of a batch one after another is, under every key, the flat
bucket after the batch's routed parts in order: the groups keep the parts of each partition in
order, and parts of other partitions do not touch the partition's keys. -/
theorem Index.flatRun_groups_entry? {F : State} (hF : F.Flat) {items : List Item}
    (hu : ∀ it ∈ items, it.update.regular = true)
    (hpart : ∀ e ∈ tagged gs, ∀ k ∈ updateKeys e.2.update, x.partitionOf k = e.1)
    (hfilter : ∀ q, (tagged gs).filter (·.1 == q) = (x.routed items).filter (·.1 == q))
    (k : Key) :
    State.entry? (x.flatRun F (gs.flatMap Prod.snd)) k =
      State.entry? (x.flatRun F (x.routedParts items)) k := by
  have hrouted : ∀ e ∈ x.routed items, ∀ k ∈ updateKeys e.2.update, x.partitionOf k = e.1 :=
    fun e he => (Index.PartOf.of_routed he hu).partition
  -- a part lies in the partition of `k` or outside it
  have hside : ∀ T : List (Nat × Item),
      (∀ e ∈ T, ∀ k ∈ updateKeys e.2.update, x.partitionOf k = e.1) →
      ∀ it ∈ T.map Prod.snd, (∀ k' ∈ updateKeys it.update,
          (x.partitionOf · == x.partitionOf k) k' = true) ∨
        ∀ k' ∈ updateKeys it.update, (x.partitionOf · == x.partitionOf k) k' = false := by
    intro T hT it hit
    obtain ⟨e, he, rfl⟩ := List.mem_map.1 hit
    by_cases hq : e.1 = x.partitionOf k
    · exact .inl fun k' hk' => by simp [hT e he k' hk', hq]
    · exact .inr fun k' hk' => by simp [hT e he k' hk', hq]
  rw [← map_snd_tagged, Index.routedParts,
    Index.flatRun_entry?_filter _ _ (hside _ hpart) hF hF (fun _ _ => rfl) k (by simp),
    Index.flatRun_entry?_filter _ _ (hside _ hrouted) hF hF (fun _ _ => rfl) k (by simp),
    filter_touches_tagged _ hpart, filter_touches_tagged _ hrouted, hfilter]

/-- The groups of a batch, one chain each, run in order: every chain's batch refines the flat
bucket after its parts, and only the group's own chain grows. -/
theorem Refines.groups_batch (gs : List (Nat × List Item)) :
    ∀ {b : String → State} {F : State} {len : Nat → Nat}, Refines x b F len →
      (gs.map Prod.fst).Nodup → (∀ g ∈ gs, ∀ it ∈ g.2, x.PartOf g.1 it) →
      (∀ q ∈ gs.map Prod.fst, len q + (gs.flatMap Prod.snd).length + 1 ≤ chainLimit) →
      ∃ b' len', Runs (Run.attemptAll (gs.map fun g =>
          x.applyChainBatch chainLimit (x.bucketAt g.1 0) g.2)) b (.ok []) b' ∧
        Refines x b' (x.flatRun F (gs.flatMap Prod.snd)) len' ∧
        ∀ q, len' q ≤ len q + (gs.flatMap Prod.snd).length := by
  induction gs with
  | nil => intro b F len h _ _ _; exact ⟨b, len, Runs.pure _ _, h, fun q => by simp⟩
  | cons g gs ih =>
    intro b F len h hnd hparts hfuel
    simp only [List.map_cons, List.nodup_cons, List.flatMap_cons, List.length_append,
      List.mem_cons, forall_eq_or_imp] at hnd hparts hfuel ⊢
    obtain ⟨b₁, len₁, hrun₁, h₁, hframe₁, hle₁⟩ := h.head_batch hparts.1 chainLimit (by omega)
    -- the other groups' chains have not grown
    have hother : ∀ q ∈ gs.map Prod.fst, len₁ q = len q := fun q hq =>
      hframe₁ q fun heq => hnd.1 (heq ▸ hq)
    obtain ⟨b', len', hrun', h', hle'⟩ := ih h₁ hnd.2 hparts.2 fun q hq => by
      rw [hother q hq]
      have := hfuel.2 q hq
      omega
    refine ⟨b', len', Runs.attemptAll_cons hrun₁ hrun', by rwa [Index.flatRun_append],
      fun q => ?_⟩
    have := hle' q
    by_cases hq : q = g.1
    · subst hq
      omega
    · have := hframe₁ q hq
      omega

end Groups

/-! ## A batch against the flat bucket -/

section Batch

variable {x : Index} {b : String → State} {F : State} {len : Nat → Nat}

/-- A batch of regular updates runs to the end and leaves buckets that refine the flat bucket
after the batch's routed parts applied one at a time, each refused part skipped. Its chains grow
by at most one bucket a part. -/
theorem Refines.batch (h : Refines x b F len) {items : List Item}
    (hu : ∀ it ∈ items, it.update.regular = true)
    (hfuel : ∀ q, len q + (x.routedParts items).length + 1 ≤ chainLimit) :
    ∃ b' len', Runs (x.applyBatch items) b (.ok ()) b' ∧
      Refines x b' (x.flatRun F (x.routedParts items)) len' ∧
      ∀ q, len' q ≤ len q + (x.routedParts items).length := by
  obtain ⟨hsorted, hlength, hfilter⟩ := x.parts_spec items
  -- every group holds routed parts of its own partition
  have hparts : ∀ g ∈ x.parts items, ∀ it ∈ g.2, x.PartOf g.1 it := fun g hg it hit =>
    Index.PartOf.of_routed
      (x.mem_routed_of_mem_tagged (List.mem_flatMap.2 ⟨g, hg, List.mem_map_of_mem hit⟩)) hu
  have hflen : ((x.parts items).flatMap Prod.snd).length = (x.routedParts items).length := by
    rw [← map_snd_tagged, List.length_map, hlength, Index.routedParts, List.length_map]
  obtain ⟨b', len', hrun, hR, hle⟩ := h.groups_batch (x.parts items)
    (hsorted.imp Nat.ne_of_lt) hparts fun q _ => by rw [hflen]; exact hfuel q
  refine ⟨b', len', Runs.bind hrun (Runs.pure _ _),
    hR.of_entry?_eq (h.flatShape.flatRun _) fun k => ?_, fun q => by rw [← hflen]; exact hle q⟩
  exact Index.flatRun_groups_entry? h.flatShape hu
    (fun e he => (Index.PartOf.of_routed (x.mem_routed_of_mem_tagged he) hu).partition) hfilter k

/-- Buckets of a clean shelf that refine the flat bucket, with chains within the walk's bound,
show what the flat bucket shows. -/
theorem Refines.flatRefinement {w : Shelf} (h : Refines x (view w) F len) (hc : Clean w)
    (hfuel : ∀ q, len q < chainLimit) : FlatRefinement x w F := by
  refine ⟨h.holds, h.once, fun r u hu => ((h.call r hfuel hu).exec h hc).1, fun k => ?_,
    fun k => ?_⟩
  · obtain ⟨w', hexec, -⟩ := h.visible (hfuel _) w hc rfl
    rw [hexec]
  · obtain ⟨w', hexec, -⟩ := h.unique (hfuel _) w hc rfl
    rw [hexec]

end Batch

/-- Along every run of regular calls from empty buckets, a batch of regular updates runs to the
end and leaves buckets that show the flat bucket after the batch's routed parts applied one at a
time, each refused part skipped. Where the flat bucket takes every update of the batch in turn,
that is the flat bucket after the updates applied one at a time. -/
theorem batch_applies_routed_parts {x : Index} {n : Nat} {w : Shelf} {F : State}
    (h : Applied x n w F) {items : List Item} (hu : ∀ it ∈ items, it.update.regular = true)
    (hn : n + 2 * items.length + 2 < chainLimit) :
    ((x.applyBatch items).exec w).1 = .ok () ∧
      FlatRefinement x ((x.applyBatch items).exec w).2 (x.flatRun F (x.routedParts items)) ∧
      (x.accepts F items = true → x.flatRun F (x.routedParts items) = x.flatRun F items) := by
  obtain ⟨hc, len, hR, hlen⟩ := h.refines (by omega)
  have hparts := x.length_routedParts_le items
  obtain ⟨b', len', hrun, hR', hle'⟩ := hR.batch hu fun q => by have := hlen q; omega
  obtain ⟨w', hexec, hc', hv⟩ := hrun w hc rfl
  rw [hexec]
  refine ⟨rfl, (hv ▸ hR').flatRefinement hc' fun q => ?_,
    Index.flatRun_routedParts_of_accepts items hR.flatShape hu⟩
  have := hle' q
  have := hlen q
  omega

/-- A unique index of one partition whose buckets take one key each. -/
def oneKeyUnique : Index := ⟨"player.email", { name := "email", unique := true, maxEntries := 1 }⟩

/-- Entity `a` inserted under `s:a`. -/
def insertA : Item := ⟨⟨"player", "a"⟩, ⟨.insert, Key.null, ⟨"s:a"⟩, false, .plain⟩⟩

theorem batch_of_one_insert_shows_its_part :
    Applied oneKeyUnique 0 {} {} ∧ (∀ it ∈ [insertA], it.update.regular = true) ∧
      0 + 2 * [insertA].length + 2 < chainLimit ∧
      ((oneKeyUnique.applyBatch [insertA]).exec ({} : Shelf)).1 = .ok () ∧
      FlatRefinement oneKeyUnique ((oneKeyUnique.applyBatch [insertA]).exec ({} : Shelf)).2
        (oneKeyUnique.flatRun {} (oneKeyUnique.routedParts [insertA])) ∧
      (oneKeyUnique.accepts {} [insertA] = true →
        oneKeyUnique.flatRun {} (oneKeyUnique.routedParts [insertA]) =
          oneKeyUnique.flatRun {} [insertA]) :=
  ⟨Applied.empty, by decide, by decide,
    batch_applies_routed_parts Applied.empty (by decide) (by decide)⟩

/-- Entity `b` inserted under `s:b`. -/
def insertB : IndexUpdate := ⟨.insert, Key.null, ⟨"s:b"⟩, false, .plain⟩

/-- A move from `s:a` to `s:b`. -/
def moveAB : IndexUpdate := ⟨.update, ⟨"s:a"⟩, ⟨"s:b"⟩, false, .plain⟩

set_option maxRecDepth 200000 in
/-- A batch and one call part ways on a move into a key another entity holds. With `a` under
`s:a` and `b` under `s:b` on a unique index, the call that moves `a` to `s:b` is refused and
leaves `a` under `s:a`; the same move in a batch skips its refused insert half and still runs
its delete half, so the batch succeeds and `s:a` holds nobody. -/
theorem batch_frees_key_of_refused_move :
    let w₁ := ((oneKeyUnique.apply insertA.entity insertA.update).exec ({} : Shelf)).2
    let w₂ := ((oneKeyUnique.apply ⟨"player", "b"⟩ insertB).exec w₁).2
    let call := (oneKeyUnique.apply ⟨"player", "a"⟩ moveAB).exec w₂
    let batch := (oneKeyUnique.applyBatch [⟨⟨"player", "a"⟩, moveAB⟩]).exec w₂
    call.1.toBool = false ∧
      ((oneKeyUnique.visible ⟨"s:a"⟩).exec call.2).1.toOption = some [⟨"player", "a"⟩] ∧
      batch.1.toBool = true ∧
      ((oneKeyUnique.visible ⟨"s:a"⟩).exec batch.2).1.toOption = some [] := by
  decide +kernel

end EntityIndex.Bucket
