import Mathlib.Algebra.BigOperators.Group.Finset.Basic
import EntityIndex.Proofs.Bucket.Filling
import EntityIndex.Proofs.Bucket.UniformStatus

/-!
# How many buckets inserts leave

After inserts alone, applied one at a time or in batches in any mix, the buckets of a chained
index are determined by its keys: each partition has one bucket, or as many as its distinct keys
need at `m` keys a bucket; every bucket with a successor holds exactly `m` keys; and the chain
growths counted are the buckets beyond the first of each partition
(`chains_fill_before_growing`).

Three invariants run along the calls (`Grown`): the buckets refine a flat bucket that holds
exactly the inserted keys (`Refines.call`, `Refines.batch`), the chains are filled (`Fills`), and
every growth was counted (`Tallies`). Counting then walks each chain to its tail
(`Refines.count`), the chain of a partition holds each key of the partition once
(`Refines.sum_size`), and a filled chain is as long as its keys need (`Refines.length_eq`).
-/

namespace EntityIndex.Bucket

open EntityIndex.Bucket.Shelf Run

section Count

variable {x : Index} {b : String → State} {F : State} {len : Nat → Nat}

theorem Runs.walkFrom_end (f : String → Run Shelf Unit) (fuel : Nat) (b : String → State) :
    Runs (Index.walkFrom f (fuel + 1) "") b (.ok 0) b := by
  rw [Index.walkFrom]
  exact Runs.pure _ _

/-- A count from depth `d` of a chain visits the buckets down to the tail. -/
theorem Refines.walkFrom (h : Refines x b F len) (p : Nat) :
    ∀ n d fuel, d + n + 1 = len p → n + 1 < fuel →
      Runs (Index.walkFrom (fun _ => pure ()) fuel (x.bucketAt p d)) b (.ok (n + 1)) b := by
  intro n
  induction n with
  | zero =>
    intro d fuel hd hfuel
    obtain ⟨f, rfl⟩ : ∃ f, fuel = f + 1 + 1 := ⟨fuel - 2, by omega⟩
    have hnext : (b (x.bucketAt p d)).next = "" := by
      have := h.tail p
      rwa [show len p - 1 = d by omega] at this
    rw [Index.walkFrom, if_neg (by simpa using Index.bucketAt_ne_empty x p d)]
    refine Runs.bind (Runs.resolve _ b) (Runs.bind (Runs.pure _ b) (Runs.bind (Runs.resolve _ b) ?_))
    rw [hnext]
    exact Runs.bind (Runs.walkFrom_end _ f b) (Runs.pure _ b)
  | succ n ih =>
    intro d fuel hd hfuel
    obtain ⟨f, rfl⟩ : ∃ f, fuel = f + 1 := ⟨fuel - 1, by omega⟩
    rw [Index.walkFrom, if_neg (by simpa using Index.bucketAt_ne_empty x p d)]
    refine Runs.bind (Runs.resolve _ b) (Runs.bind (Runs.pure _ b) (Runs.bind (Runs.resolve _ b) ?_))
    rw [h.link p d (by omega)]
    exact Runs.bind (ih (d + 1) f (by omega) (by omega)) (Runs.pure _ b)

theorem sum_map_range (f : Nat → Nat) (n : Nat) :
    ((List.range n).map f).sum = ∑ p ∈ Finset.range n, f p := by
  rw [Finset.sum_eq_multiset_sum, Finset.range_val, Multiset.range, Multiset.map_coe,
    Multiset.sum_coe]

/-- Counting the buckets of refining buckets visits every chain: the count is the sum of the chain
lengths, and no bucket changes. -/
theorem Refines.count (h : Refines x b F len) (hfuel : ∀ p, len p < chainLimit) :
    Runs (x.count : Run Shelf Nat) b (.ok (∑ p ∈ Finset.range x.desc.partitionCount, len p)) b := by
  unfold Index.count Index.walk
  rw [← sum_map_range]
  -- partition by partition, from the count so far
  suffices hwalk : ∀ (ps : List Nat) (n₀ : Nat), Runs (ps.foldlM (fun n p =>
      (Index.walkFrom (fun _ => pure ()) chainLimit (headId x.name p) : Run Shelf Nat) >>=
        fun k => pure (n + k)) n₀) b (.ok (n₀ + (ps.map len).sum)) b by
    simpa using hwalk (List.range x.desc.partitionCount) 0
  intro ps
  induction ps with
  | nil => intro n₀; simpa using Runs.pure n₀ b
  | cons p ps ih =>
    intro n₀
    have hpos := h.pos p
    have hp := h.walkFrom p (len p - 1) 0 chainLimit (by omega) (by have := hfuel p; omega)
    rw [List.foldlM_cons]
    refine Runs.bind (Runs.bind hp (Runs.pure _ b)) ?_
    have hsum : n₀ + (len p - 1 + 1) + (ps.map len).sum = n₀ + ((p :: ps).map len).sum := by
      simp only [List.map_cons, List.sum_cons]
      omega
    rw [← hsum]
    exact ih _

end Count

section Links

variable {x : Index} {b : String → State} {F : State} {len : Nat → Nat} {m : Nat}

theorem State.exists_hasKey_of_size_pos {s : State} (h : 0 < s.size) : ∃ k, s.hasKey k = true := by
  cases hs : s.entries with
  | nil => simp [State.size, hs] at h
  | cons e es => exact ⟨e.1, by simp [State.hasKey, State.entry?, hs]⟩

/-- The linked buckets of filled buckets refining a flat bucket are the chain buckets above the
tails. -/
theorem linkedCount_chains (h : Refines x b F len) (hF : Fills m b "") (hpos : 0 < m) :
    linkedCount b = ∑ p ∈ Finset.range x.desc.partitionCount, (len p - 1) := by
  let T := (Finset.range x.desc.partitionCount).sigma fun p => Finset.range (len p - 1)
  have hset : {id | (b id).next ≠ ""} = ↑(T.image fun pd => x.bucketAt pd.1 pd.2) := by
    ext id
    simp only [Set.mem_ofPred_eq, Finset.coe_image, Set.mem_image, Finset.mem_coe,
      Finset.mem_sigma, Finset.mem_range, T]
    constructor
    · intro hn
      -- a linked bucket is full, so it holds a key, which places it on its chain above the tail
      obtain ⟨k, hk⟩ := State.exists_hasKey_of_size_pos (by rw [(hF.fits id).full hn]; exact hpos)
      obtain ⟨d, hd, rfl⟩ := h.home id k hk
      refine ⟨⟨x.partitionOf k, d⟩, ⟨x.partitionOf_lt k, ?_⟩, rfl⟩
      dsimp only
      by_contra hge
      have htail := h.tail (x.partitionOf k)
      rw [show len (x.partitionOf k) - 1 = d by omega] at htail
      exact hn htail
    · rintro ⟨⟨p, d⟩, ⟨-, hd⟩, rfl⟩
      dsimp only at hd ⊢
      rw [h.link p d (by omega)]
      exact Index.bucketAt_ne_empty x p (d + 1)
  have hinj : Function.Injective fun pd : (_ : Nat) × Nat => x.bucketAt pd.1 pd.2 := by
    rintro ⟨p, d⟩ ⟨p', d'⟩ heq
    obtain ⟨rfl, rfl⟩ := Index.bucketAt_inj.1 heq
    rfl
  rw [linkedCount, hset, Set.ncard_coe_finset, Finset.card_image_of_injective _ hinj,
    Finset.card_sigma]
  simp

end Links

/-! ## Keys of a chain -/

/-- The keys of a bucket. -/
def State.keySet (s : State) : Finset Key := (s.entries.map Prod.fst).toFinset

theorem State.mem_keySet {s : State} {k : Key} : k ∈ s.keySet ↔ s.hasKey k = true := by
  simp only [State.keySet, State.hasKey, State.entry?, List.mem_toFinset, List.mem_map,
    List.lookup_isSome_iff, beq_iff_eq]
  exact exists_congr fun _ => and_congr_right fun _ => eq_comm

/-- Entries sorted by key hold each key once. -/
theorem State.card_keySet {s : State} (hs : s.entries.Pairwise (fun x y => x.1 < y.1)) :
    s.keySet.card = s.size := by
  rw [State.keySet, List.toFinset_card_of_nodup, List.length_map]
  · rfl
  · exact (List.pairwise_map.2 hs).imp fun hab heq => by
      subst heq
      exact lt_irrefl (α := String) _ hab

section Keys

variable {x : Index} {b : String → State} {F : State} {len : Nat → Nat}

/-- The buckets of a chain hold the keys of its partition, each once. -/
theorem Refines.sum_size (h : Refines x b F len)
    (hs : ∀ id, (b id).entries.Pairwise (fun x y => x.1 < y.1)) (p : Nat) :
    ∑ d ∈ Finset.range (len p), (b (x.bucketAt p d)).size =
      (F.keySet.filter (x.partitionOf · = p)).card := by
  have hdisj : ∀ d ∈ Finset.range (len p), ∀ d' ∈ Finset.range (len p), d ≠ d' →
      Disjoint (b (x.bucketAt p d)).keySet (b (x.bucketAt p d')).keySet := by
    intro d _ d' _ hne
    refine Finset.disjoint_left.2 fun k hk hk' => hne ?_
    exact (Index.bucketAt_inj.1
      (h.once _ _ k (State.mem_keySet.1 hk) (State.mem_keySet.1 hk'))).2
  have hunion : (Finset.range (len p)).biUnion (fun d => (b (x.bucketAt p d)).keySet) =
      F.keySet.filter (x.partitionOf · = p) := by
    ext k
    simp only [Finset.mem_biUnion, Finset.mem_range, Finset.mem_filter, State.mem_keySet]
    constructor
    · rintro ⟨d, -, hk⟩
      obtain ⟨e, he⟩ := Option.isSome_iff_exists.1 hk
      obtain ⟨d', -, hid⟩ := h.home _ k hk
      refine ⟨by simp [State.hasKey, (h.holds k e).2 ⟨_, he⟩], (Index.bucketAt_inj.1 hid).1.symm⟩
    · rintro ⟨hk, rfl⟩
      obtain ⟨e, he⟩ := Option.isSome_iff_exists.1 hk
      obtain ⟨id, hid⟩ := (h.holds k e).1 he
      obtain ⟨d, hd, rfl⟩ := h.home id k (by simp [State.hasKey, hid])
      exact ⟨d, hd, by simp [State.hasKey, hid]⟩
  rw [← hunion, Finset.card_biUnion hdisj]
  exact Finset.sum_congr rfl fun d _ => (State.card_keySet (hs _)).symm

end Keys

/-! ## Chain lengths -/

/-- A chain of `L' + 1` buckets, `m` keys in each bucket but the tail and `t` keys in the tail, is
as long as its keys need: one bucket, or `m` keys a bucket rounded up. -/
theorem chain_length_of_keys {L' m t : Nat} (hpos : 0 < m) (ht : t ≤ m) (htail : 0 < L' → 0 < t) :
    max 1 ((L' * m + t + m - 1) / m) = L' + 1 := by
  rcases Nat.eq_zero_or_pos L' with rfl | hL
  · have : (0 * m + t + m - 1) / m < 2 := (Nat.div_lt_iff_lt_mul hpos).2 (by omega)
    omega
  · have hlo : (L' + 1) * m ≤ L' * m + t + m - 1 := by
      rw [Nat.succ_mul]
      have := htail hL
      omega
    have hhi : L' * m + t + m - 1 < (L' + 1 + 1) * m := by
      rw [Nat.succ_mul, Nat.succ_mul]
      omega
    rw [Nat.div_eq_of_lt_le hlo hhi]
    omega

section Lengths

variable {x : Index} {b : String → State} {F : State} {len : Nat → Nat} {m : Nat}

/-- Each chain of filled buckets refining a flat bucket is as long as its keys need. -/
theorem Refines.length_eq (h : Refines x b F len) (hF : Fills m b "") (hpos : 0 < m) (p : Nat) :
    len p = max 1 (((F.keySet.filter (x.partitionOf · = p)).card + m - 1) / m) := by
  rw [← h.sum_size (fun id => (hF.fits id).sorted) p]
  obtain ⟨L', hL'⟩ : ∃ L', len p = L' + 1 := ⟨len p - 1, by have := h.pos p; omega⟩
  -- every bucket above the tail has a successor, so it is full
  have hfull : ∀ d ∈ Finset.range L', (b (x.bucketAt p d)).size = m := fun d hd =>
    (hF.fits _).full (by
      rw [h.link p d (by rw [Finset.mem_range] at hd; omega)]
      exact Index.bucketAt_ne_empty x p (d + 1))
  -- the tail of a longer chain is a successor, so it holds a key
  have htail : 0 < L' → 0 < (b (x.bucketAt p L')).size := fun hL => by
    have hlink := h.link p (L' - 1) (by omega)
    have hne := Index.bucketAt_ne_empty x p (L' - 1 + 1)
    have := hF.taken _ (by rw [hlink]; exact hne) (by rw [hlink]; exact hne)
    rwa [hlink, show L' - 1 + 1 = L' by omega] at this
  rw [hL', Finset.sum_range_succ, Finset.sum_congr rfl hfull, Finset.sum_const, Finset.card_range,
    Nat.nsmul_eq_mul]
  exact (chain_length_of_keys hpos (hF.fits _).within htail).symm

end Lengths

/-! ## Keys of the flat bucket -/

/-- The distinct keys that the inserts among `us` add. -/
def insertedKeys (us : List IndexUpdate) : Finset Key :=
  ((us.filter (·.op == .insert)).map (·.after)).toFinset

/-- The distinct keys that the inserts among `us` route to partition `p`. -/
def Index.keysTo (x : Index) (us : List IndexUpdate) (p : Nat) : Finset Key :=
  (insertedKeys us).filter (x.partitionOf · = p)

theorem insertedKeys_append (us vs : List IndexUpdate) :
    insertedKeys (us ++ vs) = insertedKeys us ∪ insertedKeys vs := by
  simp [insertedKeys, List.filter_append, List.toFinset_append]

/-- A refused insert names a key a unique index already holds for another entity. -/
theorem State.kind_of_insert_error {s : State} {r : EntityRef} {k : Key} {t uq : Bool}
    {c : IndexMeta} {e : Error} (h : s.insert r k t uq c = .error e) : e.kind = .uniqueness := by
  unfold State.insert at h
  split at h
  · split at h <;> cases h
  · split at h
    · cases h
      rfl
    · cases h

section Flat

variable {x : Index} {F : State} {r : EntityRef} {u : IndexUpdate}

/-- The flat bucket takes the key of a settled insert, and keeps it through a refusal. -/
theorem Index.keySet_flatApply (hF : F.Flat) (hu : u.op = .none ∨ u.settledInsert = true) :
    (x.flatApply F r u).keySet = F.keySet ∪ insertedKeys [u] := by
  rcases hu with hop | hset
  · rw [Index.flatApply_of_ok (State.apply_of_none hop)]
    simp [insertedKeys, hop]
  · have hop : u.op = .insert := by
      simp only [IndexUpdate.settledInsert, Bool.and_eq_true, beq_iff_eq] at hset
      exact hset.1
    have happly : F.apply r u x.desc.unique x.flatMeta =
        F.insert r u.after false x.desc.unique x.flatMeta := State.apply_of_settledInsert hset
    have hins : insertedKeys [u] = {u.after} := by simp [insertedKeys, hop]
    rw [hins]
    ext k
    simp only [Finset.mem_union, Finset.mem_singleton, State.mem_keySet]
    cases hi : F.insert r u.after false x.desc.unique x.flatMeta with
    | error e =>
      -- refused: the key is already there
      rw [Index.flatApply_of_error (happly.trans hi)]
      have hk : F.hasKey u.after = true := State.isSome_of_insert_error hi
      constructor
      · exact .inl
      · rintro (h | rfl) <;> assumption
    | ok res =>
      obtain ⟨o, F'⟩ := res
      rw [Index.flatApply_of_ok (happly.trans hi)]
      rcases State.insert_result hi with ⟨-, -, -, hc⟩ | ⟨-, rfl, -⟩
      · simp [x.canCreate_flatMeta hF.next] at hc
      · simp [State.hasKey_add, or_comm]

/-- The flat bucket after the routed parts of a batch of settled inserts and updates with
nothing to do holds the keys it held and the keys the inserts add. -/
theorem Index.keySet_flatRun (hF : F.Flat) {items : List Item}
    (hu : ∀ it ∈ items, it.update.op = .none ∨ it.update.settledInsert = true) :
    (x.flatRun F (x.routedParts items)).keySet = F.keySet ∪ insertedKeys (items.map (·.update)) := by
  induction items generalizing F with
  | nil => simp [Index.routedParts, Index.routed, Index.flatRun, insertedKeys]
  | cons it items ih =>
    have hu' : ∀ it' ∈ items, it'.update.op = .none ∨ it'.update.settledInsert = true :=
      fun it' h' => hu it' (List.mem_cons_of_mem _ h')
    rw [Index.routedParts_cons, Index.flatRun_append, List.map_cons,
      show it.update :: items.map (·.update) = [it.update] ++ items.map (·.update) from rfl,
      insertedKeys_append, ← Finset.union_assoc]
    rcases hu it List.mem_cons_self with hop | hset
    · rw [Index.route_of_none hop]
      simpa [insertedKeys, hop] using ih hF hu'
    · have hop : it.update.op = .insert := by
        simp only [IndexUpdate.settledInsert, Bool.and_eq_true, beq_iff_eq] at hset
        exact hset.1
      rw [Index.route_of_insert hop]
      simp only [List.map_cons, List.map_nil, Index.flatRun_cons]
      rw [show x.flatRun (x.flatApply F it.entity it.update) [] =
          x.flatApply F it.entity it.update from rfl,
        ih hF.flatApply hu', Index.keySet_flatApply hF (.inr hset)]

end Flat

/-! ## Runs of inserts -/

/-- Run a call of an index on a shelf. -/
def Call.run (x : Index) : Call → Run Shelf Unit
  | .apply r u => x.apply r u
  | .applyBatch items => x.applyBatch items

/-- The updates of a call, in order. -/
def Call.updates : Call → List IndexUpdate
  | .apply _ u => [u]
  | .applyBatch items => items.map (·.update)

/-- The shelf after calls made in order from the empty shelf, each from where the last one left
it, whether it failed or not. -/
def Index.afterCalls (x : Index) (calls : List Call) : Shelf :=
  calls.foldl (fun w c => ((c.run x).exec w).2) {}

/-- The update of an image that was null is an insert of the new image, settled at once, or
nothing when the new image is null too. -/
theorem plain_diff_null (k : Key) :
    (IndexUpdate.plain (diff Key.null k)).op = .none ∨
      (IndexUpdate.plain (diff Key.null k)).settledInsert = true := by
  by_cases hk : k.text = ""
  · left
    simp [IndexUpdate.plain, diff, Key.null, Key.isNull, hk]
  · right
    simp [IndexUpdate.plain, diff, Key.null, Key.isNull, hk, IndexUpdate.settledInsert]

section Inserts

variable {x : Index} {u : IndexUpdate}

theorem regular_of_settled (hu : u.op = .none ∨ u.settledInsert = true) : u.regular = true := by
  rcases hu with hop | hset
  · simp [IndexUpdate.regular, hop]
  · simp only [IndexUpdate.settledInsert, Bool.and_eq_true, beq_iff_eq] at hset
    simp [IndexUpdate.regular, hset.1]

/-- A call whose flat bucket takes a settled insert, or refuses it, never ran out of fuel. -/
theorem Agrees.ne_chainTooLong {res : Except Error Unit} {F : State} {r : EntityRef}
    (hu : u.op = .none ∨ u.settledInsert = true)
    (h : Agrees res (F.apply r u x.desc.unique x.flatMeta)) : res ≠ .error chainTooLong := by
  rintro rfl
  rcases hu with hop | hset
  · rw [State.apply_of_none hop] at h
    exact h
  · rw [State.apply_of_settledInsert hset] at h
    cases hi : F.insert r u.after false x.desc.unique x.flatMeta with
    | ok res => rw [hi] at h; exact h
    | error e =>
      rw [hi] at h
      have hk : chainTooLong.kind = .uniqueness := h.trans (State.kind_of_insert_error hi)
      simp [chainTooLong, Error.other, Error.kind] at hk

/-- A batch of settled inserts and updates with nothing to do routes each item to one part at
most. -/
theorem Index.length_routedParts_of_settled {items : List Item}
    (hu : ∀ it ∈ items, it.update.op = .none ∨ it.update.settledInsert = true) :
    (x.routedParts items).length ≤ items.length := by
  induction items with
  | nil => simp [Index.routedParts, Index.routed]
  | cons it items ih =>
    have hrest := ih fun it' h' => hu it' (List.mem_cons_of_mem _ h')
    rw [Index.routedParts_cons, List.length_append, List.length_map, List.length_cons]
    rcases hu it List.mem_cons_self with hop | hset
    · simp [Index.route_of_none hop]
      omega
    · simp only [IndexUpdate.settledInsert, Bool.and_eq_true, beq_iff_eq] at hset
      simp [Index.route_of_insert hset.1]
      omega

end Inserts

/-- The shelf of a chained index after calls whose updates are `us`, from empty buckets: clean,
every growth counted, chains filled, and buckets that refine a flat bucket holding the inserted
keys, each chain at most one bucket longer than there were updates. -/
structure Grown (x : Index) (m : Nat) (us : List IndexUpdate) (w : Shelf) : Prop where
  /-- The store lets everything through. -/
  clean : Clean w
  /-- Every growth was counted. -/
  tally : w.counters.chainGrowths = linkedCount (view w)
  /-- The chains are filled. -/
  fills : Fills m (view w) ""
  /-- The buckets refine a flat bucket of the inserted keys. -/
  chains : ∃ F len, Refines x (view w) F len ∧ F.keySet = insertedKeys us ∧
    ∀ q, len q ≤ us.length + 1

namespace Grown

variable {x : Index} {m : Nat} {us : List IndexUpdate} {w : Shelf}

theorem empty (x : Index) (m : Nat) : Grown x m [] {} where
  clean := clean_empty
  tally := by simp [linkedCount, view_empty]
  fills := view_empty ▸ Fills.empty m
  chains := ⟨{}, fun _ => 1, view_empty ▸ Refines.empty x, rfl, fun _ => Nat.le_refl 1⟩

variable (hm : x.desc.maxEntries = m) (hpos : 0 < m)
include hm hpos

/-- One call of settled inserts and updates with nothing to do keeps the shelf grown. -/
theorem call (h : Grown x m us w) (c : Call)
    (hc : ∀ u ∈ c.updates, u.op = .none ∨ u.settledInsert = true)
    (hfuel : (us ++ c.updates).length + 2 ≤ chainLimit) :
    Grown x m (us ++ c.updates) ((c.run x).exec w).2 := by
  obtain ⟨F, len, hR, hkeys, hlen⟩ := h.chains
  have htally₀ := h.tally
  obtain ⟨hclean, htally⟩ := (match c with
    | .apply r u => (index_writes_tally x).1 r u
    | .applyBatch items => (index_writes_tally x).2 items : Tallies (c.run x)) w h.clean
  cases c with
  | apply r u =>
    have hu := hc u (by simp [Call.updates])
    simp only [Call.updates, List.length_append, List.length_singleton] at hfuel
    obtain ⟨hag, -, len', hR', hl'⟩ := (hR.call r (fun q => by have := hlen q; omega)
      (regular_of_settled hu)).exec hR h.clean
    obtain ⟨res, b', hrun, hF⟩ := Fills.apply hm hpos hu r h.fills
    obtain ⟨w', hx, -, hv⟩ := hrun w h.clean rfl
    simp only [Call.run] at hclean htally ⊢
    rw [hx] at hag hR' hclean htally ⊢
    refine ⟨hclean, by omega, hv ▸ hF (Agrees.ne_chainTooLong hu hag), _, len', hR', ?_,
      fun q => ?_⟩
    · change (x.flatApply F r u).keySet = _
      rw [Index.keySet_flatApply hR.flatShape hu, hkeys, Call.updates, insertedKeys_append]
    · have := hl' q
      have := hlen q
      simp only [Call.updates, List.length_append, List.length_singleton]
      omega
  | applyBatch items =>
    have hu : ∀ it ∈ items, it.update.op = .none ∨ it.update.settledInsert = true :=
      fun it hit => hc it.update (List.mem_map_of_mem hit)
    have hparts := x.length_routedParts_of_settled hu
    simp only [Call.updates, List.length_append, List.length_map] at hfuel
    obtain ⟨b', len', hrun, hR', hle'⟩ := hR.batch (fun it hit => regular_of_settled (hu it hit))
      (fun q => by have := hlen q; omega)
    obtain ⟨w', hx, -, hv⟩ := hrun w h.clean rfl
    have hF := Fills.applyBatch hm hpos hu h.clean h.fills (by rw [hx])
    simp only [Call.run] at hclean htally ⊢
    rw [hx] at hF hclean htally ⊢
    refine ⟨hclean, by omega, hF, _, len', hv ▸ hR', ?_, fun q => ?_⟩
    · rw [Index.keySet_flatRun hR.flatShape hu, hkeys, Call.updates, insertedKeys_append]
    · have := hle' q
      have := hlen q
      simp only [Call.updates, List.length_append, List.length_map]
      omega

/-- Calls of settled inserts and updates with nothing to do keep the shelf grown. -/
theorem run : ∀ (calls : List Call) {us : List IndexUpdate} {w : Shelf}, Grown x m us w →
    (∀ c ∈ calls, ∀ u ∈ c.updates, u.op = .none ∨ u.settledInsert = true) →
    (us ++ calls.flatMap Call.updates).length + 2 ≤ chainLimit →
    Grown x m (us ++ calls.flatMap Call.updates) (calls.foldl (fun w c => ((c.run x).exec w).2) w)
  | [], us, w, h, _, _ => by simpa using h
  | c :: calls, us, w, h, hc, hfuel => by
    simp only [List.foldl_cons, List.flatMap_cons, ← List.append_assoc] at hfuel ⊢
    refine run calls (h.call hm hpos c (hc c List.mem_cons_self) ?_)
      (fun c' h' => hc c' (List.mem_cons_of_mem _ h')) hfuel
    simp only [List.length_append] at hfuel ⊢
    omega

end Grown

/-- Chains fill before they grow. On a chained index whose buckets take `m ≥ 1` keys, after any
mix of calls and batches of the updates of images that were null, from empty buckets: counting
the buckets finds, per partition, one bucket or as many as its distinct keys need at `m` a
bucket; every bucket with a successor holds exactly `m` keys; and the growths counted are the
buckets beyond one per partition. -/
theorem chains_fill_before_growing (x : Index) (m : Nat) (hm : x.desc.maxEntries = m)
    (hpos : 0 < m) (calls : List Call)
    (hcalls : ∀ c ∈ calls, ∀ u ∈ c.updates, ∃ k, u = IndexUpdate.plain (diff Key.null k))
    (hfuel : (calls.flatMap Call.updates).length + 2 ≤ chainLimit) :
    ((x.count : Run Shelf Nat).exec (x.afterCalls calls)).1 =
        .ok (∑ p ∈ Finset.range x.desc.partitionCount,
          max 1 (((x.keysTo (calls.flatMap Call.updates) p).card + m - 1) / m)) ∧
      (∀ id, (view (x.afterCalls calls) id).next ≠ "" → (view (x.afterCalls calls) id).size = m) ∧
      (x.afterCalls calls).counters.chainGrowths + x.desc.partitionCount =
        ∑ p ∈ Finset.range x.desc.partitionCount,
          max 1 (((x.keysTo (calls.flatMap Call.updates) p).card + m - 1) / m) := by
  have hsettled : ∀ c ∈ calls, ∀ u ∈ c.updates, u.op = .none ∨ u.settledInsert = true := by
    intro c hc u hu
    obtain ⟨k, rfl⟩ := hcalls c hc u hu
    exact plain_diff_null k
  obtain ⟨hclean, htally, hF, F, len, hR, hkeys, hlen⟩ :=
    Grown.run hm hpos calls (Grown.empty x m) hsettled (by simpa using hfuel)
  simp only [List.nil_append] at hkeys hlen
  -- each chain is as long as its keys need
  have hlength : ∀ p, len p = max 1 (((x.keysTo (calls.flatMap Call.updates) p).card + m - 1) / m) := by
    intro p
    rw [Index.keysTo, ← hkeys]
    exact hR.length_eq hF hpos p
  rw [← Finset.sum_congr rfl fun p _ => hlength p]
  refine ⟨?_, fun id hn => (hF.fits id).full hn, ?_⟩
  · obtain ⟨w', hx, -⟩ := hR.count (fun p => by have := hlen p; omega) _ hclean rfl
    rw [Index.afterCalls, hx]
  · -- the growths are the linked buckets, one fewer per chain than its length
    rw [Index.afterCalls, htally, linkedCount_chains hR hF hpos]
    calc ∑ p ∈ Finset.range x.desc.partitionCount, (len p - 1) + x.desc.partitionCount
        = ∑ p ∈ Finset.range x.desc.partitionCount, (len p - 1 + 1) := by
          rw [Finset.sum_add_distrib, Finset.sum_const, Finset.card_range, Nat.nsmul_eq_mul,
            Nat.mul_one]
      _ = ∑ p ∈ Finset.range x.desc.partitionCount, len p :=
          Finset.sum_congr rfl fun p _ => by have := hR.pos p; omega

/-- An index of two partitions whose buckets take two keys each. -/
def twoKeyBuckets : Index :=
  ⟨"player.level", { name := "level", maxEntries := 2, partitions := 2 }⟩

/-- An insert, then a batch of two inserts and an update from a null image to a null image. -/
def levelInserts : List Call :=
  [.apply ⟨"player", "a"⟩ (IndexUpdate.plain (diff Key.null ⟨"i:1"⟩)),
    .applyBatch [⟨⟨"player", "b"⟩, IndexUpdate.plain (diff Key.null ⟨"i:2"⟩)⟩,
      ⟨⟨"player", "c"⟩, IndexUpdate.plain (diff Key.null ⟨"i:3"⟩)⟩,
      ⟨⟨"player", "d"⟩, IndexUpdate.plain (diff Key.null Key.null)⟩]]

theorem level_inserts_fill_chains :
    twoKeyBuckets.desc.maxEntries = ((2 : Nat) : Int) ∧ 0 < 2 ∧
      (∀ c ∈ levelInserts, ∀ u ∈ c.updates, ∃ k, u = IndexUpdate.plain (diff Key.null k)) ∧
      (levelInserts.flatMap Call.updates).length + 2 ≤ chainLimit ∧
      ((twoKeyBuckets.count : Run Shelf Nat).exec (twoKeyBuckets.afterCalls levelInserts)).1 =
          .ok (∑ p ∈ Finset.range twoKeyBuckets.desc.partitionCount,
            max 1 (((twoKeyBuckets.keysTo (levelInserts.flatMap Call.updates) p).card + 2 - 1) / 2)) ∧
        (∀ id, (view (twoKeyBuckets.afterCalls levelInserts) id).next ≠ "" →
          (view (twoKeyBuckets.afterCalls levelInserts) id).size = 2) ∧
        (twoKeyBuckets.afterCalls levelInserts).counters.chainGrowths +
            twoKeyBuckets.desc.partitionCount =
          ∑ p ∈ Finset.range twoKeyBuckets.desc.partitionCount,
            max 1 (((twoKeyBuckets.keysTo (levelInserts.flatMap Call.updates) p).card + 2 - 1) / 2) := by
  have hcalls : ∀ c ∈ levelInserts, ∀ u ∈ c.updates, ∃ k, u = IndexUpdate.plain (diff Key.null k) := by
    intro c hc u hu
    simp only [levelInserts, List.mem_cons, List.not_mem_nil, or_false] at hc
    rcases hc with rfl | rfl <;> simp [Call.updates] at hu
    · exact ⟨_, hu⟩
    · rcases hu with rfl | rfl | rfl <;> exact ⟨_, rfl⟩
  have hfuel : (levelInserts.flatMap Call.updates).length + 2 ≤ chainLimit := by
    simp [levelInserts, Call.updates, chainLimit]
  exact ⟨rfl, by decide, hcalls, hfuel,
    chains_fill_before_growing twoKeyBuckets 2 rfl (by decide) levelInserts hcalls hfuel⟩

end EntityIndex.Bucket
