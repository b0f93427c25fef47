import EntityIndex.Proofs.Bucket.Growths
import EntityIndex.Proofs.Bucket.Storable

/-!
# Chains fill before they grow

A chained index keeps at most `maxEntries` keys in a bucket and grows a successor only when a new
key reaches a full tail. Under settled inserts alone that keeps every chain filled (`Fills`):
every bucket that has a successor holds exactly `maxEntries` keys, and every successor holds a
key.

A walk breaks the second half for one step: growing a full tail links an empty successor, the
hole, which the same walk fills next. A single insert fills it at once. A batch fills it with the
first item it passes on, since an empty tail takes a new key, while a pass that has passed an
item on can take no new key (`State.Fits.pass`). So every walk from filled chains leaves filled
chains unless it runs out of fuel before it reaches the hole (`Fills.applyChain`,
`Fills.applyChainBatch`), and so does every call of the index (`Fills.apply`,
`Fills.applyBatch`).
-/

namespace EntityIndex

/-- An insert made final at once, as every plain insert is. -/
def IndexUpdate.settledInsert (u : IndexUpdate) : Bool := u.op == .insert && !u.tentative

end EntityIndex

namespace EntityIndex.Bucket

open EntityIndex.Bucket.Shelf Run

/-! ## Sizes of buckets -/

theorem length_putEntry_of_none {k : Key} {e : Entry} :
    ∀ {es : List (Key × Entry)}, es.lookup k = none → (putEntry k e es).length = es.length + 1
  | [], _ => rfl
  | (k', e') :: rest, h => by
    rw [lookup_cons_eq_ite] at h
    split_ifs at h with hk
    simp only [putEntry, hk, if_false]
    split_ifs
    · rfl
    · simp [length_putEntry_of_none h]

theorem length_putEntry_of_some {k : Key} {e : Entry} :
    ∀ {es : List (Key × Entry)}, es.Pairwise (fun x y => x.1 < y.1) → (es.lookup k).isSome →
      (putEntry k e es).length = es.length
  | [], _, h => by simp at h
  | (k', e') :: rest, hs, h => by
    obtain ⟨hhead, hrest⟩ := List.pairwise_cons.mp hs
    rw [lookup_cons_eq_ite] at h
    simp only [putEntry]
    split_ifs at h ⊢ with hk hlt
    · rfl
    · -- every key past the head is above it, so `k` below the head is not among them
      obtain ⟨p, hp, hpk⟩ := List.lookup_isSome_iff.1 h
      rw [beq_iff_eq] at hpk
      subst hpk
      exact absurd (lt_trans (α := String) hlt (hhead p hp)) (lt_irrefl _)
    · simp [length_putEntry_of_some hrest h]

namespace State

variable {s s' : State} {k : Key} {r : EntityRef} {t uq : Bool} {c : IndexMeta} {m : Nat}

/-- Adding under a key grows a bucket by one key exactly when the key is new. -/
theorem size_add (hs : s.entries.Pairwise (fun x y => x.1 < y.1)) :
    (s.add k r t).size = if (s.entry? k).isSome then s.size else s.size + 1 := by
  split
  · exact length_putEntry_of_some hs ‹_›
  · exact length_putEntry_of_none (Option.not_isSome_iff_eq_none.1 ‹_›)

theorem size_pos_of_isSome (h : (s.entry? k).isSome) : 0 < s.size := by
  cases hs : s.entries with
  | nil => simp [State.entry?, hs] at h
  | cons _ _ => simp [State.size, hs]

theorem isSome_entry?_add : (State.entry? (s.add k r t) k).isSome := by
  simp [State.add]

theorem canCreate_iff (hm : c.maxEntries = m) (hpos : 0 < m) :
    s.canCreate c = true ↔ s.next = "" ∧ s.size < m := by
  simp [State.canCreate, IndexMeta.atCapacity, hm, hpos]

theorem apply_of_settledInsert {u : IndexUpdate} (hu : u.settledInsert = true) :
    s.apply r u uq c = s.insert r u.after false uq c := by
  simp only [IndexUpdate.settledInsert, Bool.and_eq_true, beq_iff_eq, Bool.not_eq_true'] at hu
  rw [State.apply_of_insert hu.1 (by simp [hu.2]), hu.2]

/-- An insert is refused only under a key already here. -/
theorem isSome_of_insert_error {e : Error} (h : s.insert r k t uq c = .error e) :
    (s.entry? k).isSome := by
  unfold State.insert at h
  split at h
  · split at h <;> cases h
  · simp [*]

/-- A bucket within capacity `m`: available, its entries sorted by key, at most `m` keys, and
exactly `m` once it has a successor. -/
structure Fits (m : Nat) (s : State) : Prop where
  /-- Available. -/
  available : s.status = .available
  /-- Entries sorted by key. -/
  sorted : s.entries.Pairwise (fun x y => x.1 < y.1)
  /-- At most `m` keys. -/
  within : s.size ≤ m
  /-- Full once linked. -/
  full : s.next ≠ "" → s.size = m

theorem fits_empty (m : Nat) : State.Fits m {} where
  available := rfl
  sorted := List.Pairwise.nil
  within := Nat.zero_le m
  full h := absurd rfl h

namespace Fits

/-- A bucket that can take no new key still cannot after an insert. -/
theorem canCreate_insert (h : s.Fits m) (hi : s.insert r k t uq c = .ok (o, s'))
    (hc : s.canCreate c = false) : s'.canCreate c = false := by
  rcases insert_result hi with ⟨-, rfl, -, -⟩ | ⟨-, rfl, hk⟩
  · exact hc
  · have hk : (s.entry? k).isSome := hk.resolve_right (by simp [hc])
    rw [State.canCreate, next_add, size_add h.sorted, if_pos hk]
    exact hc

variable (hm : c.maxEntries = m) (hpos : 0 < m)
include hm hpos

/-- A bucket that can take no new key is full. -/
theorem size_of_canCreate (h : s.Fits m) (hc : s.canCreate c = false) : s.size = m := by
  by_cases hn : s.next = ""
  · have hlt : ¬(s.next = "" ∧ s.size < m) := fun h' => by
      rw [← canCreate_iff hm hpos] at h'
      simp [hc] at h'
    have := h.within
    have : ¬ s.size < m := fun h' => hlt ⟨hn, h'⟩
    omega
  · exact h.full hn

/-- An insert keeps a bucket within capacity and loses no key; one that takes the key leaves
the bucket holding it. -/
theorem insert (h : s.Fits m) (hi : s.insert r k t uq c = .ok (o, s')) :
    s'.Fits m ∧ s.size ≤ s'.size ∧ (o = .applied → (s'.entry? k).isSome) := by
  rcases insert_result hi with ⟨rfl, rfl, -, -⟩ | ⟨rfl, rfl, hk⟩
  · exact ⟨h, Nat.le_refl _, fun h => by cases h⟩
  · have hsize := size_add (k := k) (r := r) (t := t) h.sorted
    refine ⟨⟨by rw [status_add]; exact h.available, pairwise_putEntry _ _ h.sorted, ?_, ?_⟩, ?_,
      fun _ => isSome_entry?_add⟩
    · rcases hk with hk | hc
      · rw [hsize, if_pos hk]; exact h.within
      · have := (canCreate_iff hm hpos).1 hc
        split at hsize <;> omega
    · intro hn
      rw [next_add] at hn
      rcases hk with hk | hc
      · rw [hsize, if_pos hk]; exact h.full hn
      · exact absurd ((canCreate_iff hm hpos).1 hc).1 hn
    · split at hsize <;> omega

end Fits

end State

/-! ## A pass through one bucket -/

section Pass

variable {c : IndexMeta} {m : Nat} {P : BatchPass} {it : Item}

/-- Whether a pass has passed anything on. -/
def BatchPass.passing (P : BatchPass) : Prop := P.rest ≠ [] ∨ P.deferred ≠ []

variable (hm : c.maxEntries = m) (hpos : 0 < m)
include hm hpos

/-- One settled insert of a pass keeps the bucket within capacity and loses no key; once the
pass has passed an item on, the bucket can take no new key. -/
theorem State.Fits.passStep (h : P.state.Fits m)
    (hblock : P.passing → P.state.canCreate c = false) (hit : it.update.settledInsert = true) :
    (batchStep c P it).state.Fits m ∧ P.state.size ≤ (batchStep c P it).state.size ∧
      ((batchStep c P it).passing → (batchStep c P it).state.canCreate c = false) := by
  have happly : P.state.apply it.entity it.update c.unique c =
      P.state.insert it.entity it.update.after false c.unique c := State.apply_of_settledInsert hit
  rcases batchStep_cases c P it with ⟨hb, hpass⟩ | ⟨e, hb⟩ | ⟨-, s', ha, hb⟩ <;> rw [hb]
  · refine ⟨h, Nat.le_refl _, fun _ => ?_⟩
    rcases hpass with htouch | ⟨s', ha⟩
    · -- passed on behind a deferred key, so something was passed on before
      refine hblock (.inr fun hnil => ?_)
      simp [hnil] at htouch
    · rw [happly] at ha
      exact (State.insert_notFoundHere ha).2.2
  · exact ⟨h, Nat.le_refl _, hblock⟩
  · rw [happly] at ha
    obtain ⟨hs', hle, -⟩ := h.insert hm hpos ha
    exact ⟨hs', hle, fun hp => h.canCreate_insert ha (hblock hp)⟩

/-- The first item of a pass that has passed nothing on leaves the bucket with a key. -/
theorem State.Fits.passStep_size_pos (h : P.state.Fits m) (hd : P.deferred = [])
    (hit : it.update.settledInsert = true) : 0 < (batchStep c P it).state.size := by
  have hfree : (updateKeys it.update).any P.deferred.contains = false := by simp [hd]
  have happly : P.state.apply it.entity it.update c.unique c =
      P.state.insert it.entity it.update.after false c.unique c := State.apply_of_settledInsert hit
  cases hi : P.state.insert it.entity it.update.after false c.unique c with
  | error e =>
    -- refused: the key is already here
    rw [batchStep_of_error hfree (happly.trans hi)]
    exact State.size_pos_of_isSome (State.isSome_of_insert_error hi)
  | ok res =>
    obtain ⟨o, s'⟩ := res
    cases o with
    | notFoundHere =>
      rw [batchStep_of_passed hfree (happly.trans hi)]
      rw [h.size_of_canCreate hm hpos (State.insert_notFoundHere hi).2.2]
      exact hpos
    | applied =>
      rw [batchStep_of_applied hfree (happly.trans hi)]
      exact State.size_pos_of_isSome ((h.insert hm hpos hi).2.2 rfl)

/-- A pass of settled inserts keeps the bucket within capacity and loses no key; once it has
passed an item on, the bucket can take no new key. -/
theorem State.Fits.pass (items : List Item) (hins : ∀ it ∈ items, it.update.settledInsert = true) :
    ∀ P : BatchPass, P.state.Fits m → (P.passing → P.state.canCreate c = false) →
      (items.foldl (batchStep c) P).state.Fits m ∧
        P.state.size ≤ (items.foldl (batchStep c) P).state.size ∧
        ((items.foldl (batchStep c) P).passing →
          (items.foldl (batchStep c) P).state.canCreate c = false) := by
  induction items with
  | nil => intro P h hblock; exact ⟨h, Nat.le_refl _, hblock⟩
  | cons it items ih =>
    intro P h hblock
    obtain ⟨h₁, hle₁, hblock₁⟩ := h.passStep hm hpos hblock (hins it List.mem_cons_self)
    obtain ⟨h₂, hle₂, hblock₂⟩ := ih (fun it' h' => hins it' (List.mem_cons_of_mem _ h')) _ h₁ hblock₁
    exact ⟨h₂, Nat.le_trans hle₁ hle₂, hblock₂⟩

/-- A pass of settled inserts through a bucket within capacity leaves the bucket with a key. -/
theorem State.Fits.pass_size_pos {s : State} (h : s.Fits m) {items : List Item}
    (hins : ∀ it ∈ items, it.update.settledInsert = true) (hne : items ≠ []) :
    0 < (items.foldl (batchStep c) ⟨s, [], [], 0, []⟩).state.size := by
  obtain ⟨it, items, rfl⟩ := List.exists_cons_of_ne_nil hne
  have hfree : (⟨s, [], [], 0, []⟩ : BatchPass).passing → s.canCreate c = false := fun hp => by
    simp [BatchPass.passing] at hp
  obtain ⟨h₁, -, hblock₁⟩ := State.Fits.passStep hm hpos h hfree (hins it List.mem_cons_self)
  have hpos₁ := State.Fits.passStep_size_pos (P := ⟨s, [], [], 0, []⟩) hm hpos h rfl
    (hins it List.mem_cons_self)
  obtain ⟨-, hle, -⟩ := State.Fits.pass hm hpos items
    (fun it' h' => hins it' (List.mem_cons_of_mem _ h')) _ h₁ hblock₁
  simp only [List.foldl_cons]
  omega

end Pass

/-! ## Filled chains -/

/-- Buckets within capacity `m` whose every successor holds a key, except perhaps `hole`, a
successor linked a moment ago. -/
structure Fills (m : Nat) (b : String → State) (hole : String) : Prop where
  /-- Every bucket is within capacity. -/
  fits : ∀ id, (b id).Fits m
  /-- Every successor but the hole holds a key. -/
  taken : ∀ id, (b id).next ≠ "" → (b id).next ≠ hole → 0 < (b (b id).next).size

namespace Fills

variable {m : Nat} {b : String → State} {hole id : String}

theorem empty (m : Nat) : Fills m (fun _ => {}) "" where
  fits _ := State.fits_empty m
  taken _ h := absurd rfl h

/-- Filled chains have no hole. -/
theorem any (h : Fills m b "") (hole : String) : Fills m b hole :=
  ⟨h.fits, fun id hn _ => h.taken id hn hn⟩

/-- A hole that holds a key is no hole. -/
theorem unhole (h : Fills m b hole) (hpos : 0 < (b hole).size) : Fills m b "" := by
  refine ⟨h.fits, fun id hn _ => ?_⟩
  by_cases hh : (b id).next = hole
  · rw [hh]
    exact hpos
  · exact h.taken id hn hh

/-- Writing a bucket within capacity, with a key and the same successor, fills its hole. -/
theorem write {s : State} (h : Fills m b id) (hs : s.Fits m) (hnext : s.next = (b id).next)
    (hpos : 0 < s.size) : Fills m (Function.update b id s) "" := by
  refine ⟨fun j => ?_, fun j hn _ => ?_⟩
  · by_cases hj : j = id
    · subst hj
      simpa using hs
    · simpa [hj] using h.fits j
  · rw [update_next hnext] at hn ⊢
    by_cases hh : (b j).next = id
    · rw [hh, Function.update_self]
      exact hpos
    · rw [Function.update_of_ne hh]
      exact h.taken j hn hh

/-- Linking a full tail leaves its new successor the only hole. -/
theorem link (h : Fills m b "") (hn : (b id).next = "") (hfull : (b id).size = m) :
    Fills m (Function.update b id { b id with next := nextId id }) (nextId id) := by
  have hfits : State.Fits m { b id with next := nextId id } :=
    ⟨(h.fits id).available, (h.fits id).sorted, (h.fits id).within, fun _ => hfull⟩
  refine ⟨fun j => ?_, fun j hnj hh => ?_⟩
  · by_cases hj : j = id
    · subst hj
      simpa using hfits
    · simpa [hj] using h.fits j
  · have hj : j ≠ id := fun hj => by subst hj; simp at hh
    rw [Function.update_of_ne hj] at hnj hh ⊢
    -- the successor is the linked tail, of the same size, or untouched
    by_cases ht : (b j).next = id
    · rw [ht, Function.update_self]
      have := h.taken j hnj hnj
      rw [ht] at this
      exact this
    · rw [Function.update_of_ne ht]
      exact h.taken j hnj hnj

end Fills

/-! ## Walks keep chains filled -/

section Walks

variable {x : Index} {m : Nat} (hm : x.desc.maxEntries = m) (hpos : 0 < m)
include hm hpos

/-- The walk of a settled insert, from a bucket that is the only hole of filled chains, leaves
filled chains unless it runs out of fuel. -/
theorem Fills.applyChain {u : IndexUpdate} (hu : u.settledInsert = true) (r : EntityRef) :
    ∀ fuel id b, Fills m b id → ∃ res b', Runs (x.applyChain r u fuel id) b res b' ∧
      (res ≠ .error chainTooLong → Fills m b' "")
  | 0, id, b, _ => ⟨_, b, by rw [Index.applyChain]; exact Runs.throw _ _, fun h => absurd rfl h⟩
  | fuel + 1, id, b, h => by
    have happly : (b id).apply r u x.desc.unique x.desc =
        (b id).insert r u.after false x.desc.unique x.desc := State.apply_of_settledInsert hu
    cases hi : (b id).insert r u.after false x.desc.unique x.desc with
    | error e =>
      -- refused: the key is here, so the bucket is no hole
      exact ⟨_, b, Runs.applyChain_error (happly.trans hi),
        fun _ => h.unhole (State.size_pos_of_isSome (State.isSome_of_insert_error hi))⟩
    | ok res =>
      obtain ⟨o, s'⟩ := res
      obtain ⟨hs', -, hkey⟩ := (h.fits id).insert hm hpos hi
      cases o with
      | applied =>
        exact ⟨_, _, Runs.applyChain_applied (happly.trans hi),
          fun _ => h.write hs' (State.insert_next hi) (State.size_pos_of_isSome (hkey rfl))⟩
      | notFoundHere =>
        -- passed on: the bucket can take no new key, so it is full and no hole
        have hfull := (h.fits id).size_of_canCreate hm hpos (State.insert_notFoundHere hi).2.2
        have h₀ := h.unhole (by omega)
        by_cases hn : (b id).next = ""
        · obtain ⟨res, b', hrun, hF⟩ :=
            Fills.applyChain hu r fuel (nextId id) _ (h₀.link hn hfull)
          exact ⟨res, b', Runs.applyChain_grow (happly.trans hi) hn (h.fits id).available hrun, hF⟩
        · obtain ⟨res, b', hrun, hF⟩ := Fills.applyChain hu r fuel (b id).next b (h₀.any _)
          exact ⟨res, b', Runs.applyChain_pass (happly.trans hi) hn hrun, hF⟩

/-- The walk of a batch of settled inserts, from a bucket that is the only hole of filled chains,
leaves filled chains unless it runs out of fuel; a walk with nothing to apply starts from filled
chains. -/
theorem Fills.applyChainBatch :
    ∀ fuel id (items : List Item) b, (∀ it ∈ items, it.update.settledInsert = true) →
      Fills m b id → (items = [] → Fills m b "") →
      ∃ res b', Runs (x.applyChainBatch fuel id items) b res b' ∧ (res = .ok () → Fills m b' "")
  | 0, id, items, b, _, _, _ =>
    ⟨_, b, by rw [Index.applyChainBatch]; exact Runs.throw _ _, fun h => by cases h⟩
  | fuel + 1, id, items, b, hins, h, hnil => by
    rw [Index.applyChainBatch]
    by_cases hne : items = []
    · subst hne
      exact ⟨_, b, Runs.pure () b, fun _ => hnil rfl⟩
    rw [if_neg (by simpa using hne)]
    have hrun := Runs.applyBatchAt x.desc id items b
    obtain ⟨hfits, -, hblock⟩ := State.Fits.pass hm hpos items hins ⟨b id, [], [], 0, []⟩ (h.fits id)
      (fun hp => by simp [BatchPass.passing] at hp)
    have hsize := (h.fits id).pass_size_pos hm hpos hins hne
    have hnext := batch_next (m := x.desc) items ⟨b id, [], [], 0, []⟩
    have hsub := batch_rest_sub (m := x.desc) (s := b id) items
    generalize items.foldl (batchStep x.desc) ⟨b id, [], [], 0, []⟩ = P at *
    have hF₁ : Fills m (Function.update b id P.state) "" := h.write hfits hnext hsize
    by_cases hR : P.rest = []
    · refine ⟨.ok (), _, Runs.bind hrun ?_, fun _ => hF₁⟩
      simp only [hR, List.isEmpty_nil, ↓reduceIte]
      exact Runs.pure _ _
    have hins' : ∀ it ∈ P.rest, it.update.settledInsert = true := fun it hit => hins it (hsub it hit)
    have hRe : ¬(P.rest.isEmpty = true) := by simpa using hR
    by_cases hn : (b id).next = ""
    · -- the tail passed items on, so it is full: it grows a successor, which takes them
      have hn₁ : (Function.update b id P.state id).next = "" := by simp [hnext, hn]
      have hfull : (Function.update b id P.state id).size = m := by
        simpa using hfits.size_of_canCreate hm hpos (hblock (.inl hR))
      obtain ⟨res, b', hrest, hF⟩ := Fills.applyChainBatch fuel (nextId id) P.rest _ hins'
        (hF₁.link hn₁ hfull) (fun h => absurd h hR)
      refine ⟨res, b', Runs.bind hrun ?_, hF⟩
      rw [if_neg hRe]
      exact Runs.bind (Runs.successor_tail hn₁ (by simpa using hfits.available)) hrest
    · have hn₁ : (Function.update b id P.state id).next = (b id).next := by simp [hnext]
      obtain ⟨res, b', hrest, hF⟩ := Fills.applyChainBatch fuel (b id).next P.rest _ hins'
        (hF₁.any _) (fun h => absurd h hR)
      refine ⟨res, b', Runs.bind hrun ?_, hF⟩
      rw [if_neg hRe]
      have hsucc : Runs (Index.successor id) (Function.update b id P.state)
          (.ok (Function.update b id P.state id).next) (Function.update b id P.state) :=
        Runs.successor_linked (by rw [hn₁]; exact hn)
      rw [hn₁] at hsucc
      exact Runs.bind hsucc hrest

/-- A settled insert, or an update with nothing to do, from filled chains leaves filled chains
unless its walk runs out of fuel. -/
theorem Fills.apply {u : IndexUpdate} (hu : u.op = .none ∨ u.settledInsert = true) (r : EntityRef)
    {b : String → State} (h : Fills m b "") :
    ∃ res b', Runs (x.apply r u) b res b' ∧ (res ≠ .error chainTooLong → Fills m b' "") := by
  rcases hu with hop | hset
  · refine ⟨.ok (), b, ?_, fun _ => h⟩
    rw [Index.apply, Index.route_of_none hop, List.forM]
    exact Runs.pure () b
  · have hop : u.op = .insert := by
      simp only [IndexUpdate.settledInsert, Bool.and_eq_true, beq_iff_eq] at hset
      exact hset.1
    obtain ⟨res, b', hrun, hF⟩ := Fills.applyChain hm hpos hset r chainLimit
      (x.bucketAt (x.partitionOf u.after) 0) b (h.any _)
    exact ⟨res, b', Runs.apply_single (Index.route_of_insert hop) hrun, hF⟩

end Walks

/-! ## Batches keep chains filled -/

/-- The parts of a batch of settled inserts and updates with nothing to do are settled inserts. -/
theorem Index.settled_of_mem_parts {x : Index} {items : List Item}
    (hins : ∀ it ∈ items, it.update.op = .none ∨ it.update.settledInsert = true)
    {g : Nat × List Item} (hg : g ∈ x.parts items) {it : Item} (hit : it ∈ g.2) :
    it.update.settledInsert = true := by
  obtain ⟨it₀, hit₀, hmem⟩ := List.mem_flatMap.1
    (x.mem_routed_of_mem_tagged (List.mem_flatMap.2 ⟨g, hg, List.mem_map_of_mem hit⟩))
  obtain ⟨⟨q, v⟩, hqv, heq⟩ := List.mem_map.1 hmem
  rcases hins it₀ hit₀ with hop | hset
  · simp [Index.route_of_none hop] at hqv
  · have hop : it₀.update.op = .insert := by
      simp only [IndexUpdate.settledInsert, Bool.and_eq_true, beq_iff_eq] at hset
      exact hset.1
    rw [Index.route_of_insert hop, List.mem_singleton, Prod.mk.injEq] at hqv
    obtain ⟨-, rfl⟩ := hqv
    simp only [Prod.mk.injEq] at heq
    rw [← heq.2]
    exact hset

section Batches

variable {m : Nat}

/-- Runs that each leave filled chains when they succeed, run one after another whatever their
failures, leave filled chains when none of them failed. -/
theorem Fills.attemptAll : ∀ (ms : List (Run Shelf Unit)),
    (∀ step ∈ ms, ∀ b, Fills m b "" → ∃ res b', Runs step b res b' ∧ (res = .ok () → Fills m b' "")) →
    ∀ w, Clean w → Fills m (view w) "" → ((Run.attemptAll ms).exec w).1 = .ok [] →
      Fills m (view ((Run.attemptAll ms).exec w).2) ""
  | [], _, _, _, h, _ => h
  | step :: ms, hms, w, hc, h, hok => by
    obtain ⟨res, b', hrun, hF⟩ := hms step List.mem_cons_self _ h
    obtain ⟨w₁, hx, hc₁, hv₁⟩ := hrun w hc rfl
    rw [Run.attemptAll, exec_bind, exec_attempt, hx] at hok ⊢
    simp only at hok ⊢
    rw [exec_bind] at hok ⊢
    have ih := Fills.attemptAll ms (fun step' h' => hms step' (List.mem_cons_of_mem _ h')) w₁ hc₁
    rcases hy : (Run.attemptAll ms).exec w₁ with ⟨_ | es, w₂⟩
    · simp [hy] at hok
    · simp only [hy] at hok ih ⊢
      -- the run succeeded only if the first step did and the others left no failure
      cases res with
      | error e => simp at hok
      | ok u =>
        simp only [exec_pure] at hok ⊢
        exact ih (hv₁ ▸ hF rfl) hok

variable {x : Index} (hm : x.desc.maxEntries = m) (hpos : 0 < m)
include hm hpos

/-- A batch of settled inserts and updates with nothing to do, from filled chains, leaves filled
chains when it succeeds. -/
theorem Fills.applyBatch {items : List Item}
    (hins : ∀ it ∈ items, it.update.op = .none ∨ it.update.settledInsert = true) {w : Shelf}
    (hc : Clean w) (h : Fills m (view w) "") (hok : ((x.applyBatch items).exec w).1 = .ok ()) :
    Fills m (view ((x.applyBatch items).exec w).2) "" := by
  unfold Index.applyBatch at hok ⊢
  rw [exec_bind] at hok ⊢
  -- each group walks its own chain from the head
  generalize hsteps : (x.parts items).map _ = steps at hok ⊢
  have hgroups := Fills.attemptAll (m := m) steps (fun step hstep b hb => by
    obtain ⟨g, hg, rfl⟩ := List.mem_map.1 (hsteps ▸ hstep)
    exact Fills.applyChainBatch hm hpos chainLimit _ g.2 b
      (fun it hit => Index.settled_of_mem_parts hins hg hit) (hb.any _) (fun _ => hb)) w hc h
  rcases hy : (Run.attemptAll _).exec w with ⟨_ | errs, w₁⟩
  · simp [hy] at hok
  · simp only [hy] at hok hgroups ⊢
    -- the batch succeeded only if no group failed
    cases errs with
    | nil => exact hgroups rfl
    | cons e es => cases es <;> simp [Error.join] at hok

end Batches

end EntityIndex.Bucket
