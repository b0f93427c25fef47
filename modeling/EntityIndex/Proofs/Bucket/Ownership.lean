import EntityIndex.Proofs.Bucket.Interleaving

/-!
# Which bucket owns a key

A key belongs to one bucket of its partition's chain. Only the tail takes new keys, and a walk
that is told a key is not here moves on down. The argument that no key lands in two buckets
runs as follows. A walk at depth `d` has checked that none of the buckets before `d` holds the
keys it may add. Buckets past the tail are untouched. So a key created at the tail is nowhere
else in the chain.

The argument has a gap. Between a bucket's answer that a key is not its own and the growth of
that bucket, the walk holds no lock. In that window other calls can free a place in the full
tail and create the very key there, while the walk goes on to create it in the new successor.
`Disturbs` names such a step. This module proves three things:

* every state reached by interleavings without such a step keeps every key in one bucket of the
  whole index; on a unique index one entity is stored under each key;
* with such a step a key can land in two buckets: three calls can put a key in two buckets of
  one chain, for two different entities of a unique index;
* a lookup never returns two entities in any interleaving, since each bucket a reader stops at
  holds one entity per key (`reachable_lookup_at_most_one`).
-/

namespace EntityIndex.Bucket

/-! ## Routed updates -/

/-- A part of an update on the partition it is routed to: its new keys belong to the partition,
and on a chained index it is a half. -/
def Routed (x : Index) (p : Nat) (u : IndexUpdate) : Prop :=
  (∀ k ∈ newKeys u, x.partitionOf k = p) ∧ (x.desc.chained = true → isHalf u = true)

theorem route_routed (x : Index) (u : IndexUpdate) : ∀ pp ∈ x.route u, Routed x pp.1 pp.2 := by
  intro pp hpp
  unfold Index.route at hpp
  split at hpp
  · simp at hpp
  · rename_i hop
    simp only [List.mem_singleton] at hpp
    subst hpp
    exact ⟨by simp [newKeys, hop], fun _ => by simp [isHalf, hop]⟩
  · rename_i hop
    simp only [List.mem_singleton] at hpp
    subst hpp
    exact ⟨by simp [newKeys, hop], fun _ => by simp [isHalf, hop]⟩
  · rename_i hnone hins hdel
    dsimp only at hpp
    split at hpp
    · -- kept whole: only on an unbounded index, within one partition
      rename_i hsame
      simp only [Bool.and_eq_true, decide_eq_true_eq, Bool.not_eq_eq_eq_not, Bool.not_true]
        at hsame
      simp only [List.mem_singleton] at hpp
      subst hpp
      refine ⟨fun k hk => ?_, fun hc => by simp [hsame.2] at hc⟩
      unfold newKeys at hk
      split at hk <;> simp_all
    · -- split into its insert half and its delete half
      simp only [List.mem_cons, List.not_mem_nil, or_false] at hpp
      rcases hpp with rfl | rfl
      · exact ⟨by simp [newKeys, IndexUpdate.split, IndexUpdate.override],
          fun _ => by simp [isHalf, IndexUpdate.split, IndexUpdate.override]⟩
      · exact ⟨by simp [newKeys, IndexUpdate.split, IndexUpdate.override],
          fun _ => by simp [isHalf, IndexUpdate.split, IndexUpdate.override]⟩

/-- `addPart` keeps a property of every item under its partition. -/
theorem addPart_mem {P : Nat → Item → Prop} {p : Nat} {it : Item} (hp : P p it) :
    ∀ acc : List (Nat × List Item), (∀ q its, (q, its) ∈ acc → ∀ it' ∈ its, P q it') →
      ∀ q its, (q, its) ∈ Index.addPart p it acc → ∀ it' ∈ its, P q it' := by
  intro acc
  induction acc with
  | nil =>
    intro _ q its h it' hit'
    simp only [Index.addPart, List.mem_singleton, Prod.mk.injEq] at h
    obtain ⟨rfl, rfl⟩ := h
    simp only [List.mem_singleton] at hit'
    exact hit' ▸ hp
  | cons hd rest ih =>
    obtain ⟨q₀, its₀⟩ := hd
    intro hacc q its h it' hit'
    have hrest : ∀ q its, (q, its) ∈ rest → ∀ it' ∈ its, P q it' :=
      fun q its h => hacc q its (by simp [h])
    unfold Index.addPart at h
    split at h
    · -- joins the part of its partition
      rename_i hq
      subst hq
      simp only [List.mem_cons, Prod.mk.injEq] at h
      rcases h with ⟨rfl, rfl⟩ | h
      · rcases List.mem_append.1 hit' with hit' | hit'
        · exact hacc _ _ (by simp) it' hit'
        · simp only [List.mem_singleton] at hit'
          exact hit' ▸ hp
      · exact hrest q its h it' hit'
    · split at h
      · simp only [List.mem_cons, Prod.mk.injEq] at h
        rcases h with ⟨rfl, rfl⟩ | h | h
        · simp only [List.mem_singleton] at hit'
          exact hit' ▸ hp
        · obtain ⟨rfl, rfl⟩ := h
          exact hacc _ _ (by simp) it' hit'
        · exact hrest q its h it' hit'
      · simp only [List.mem_cons] at h
        rcases h with h | h
        · exact hacc q its (by simp [h]) it' hit'
        · exact ih hrest q its h it' hit'

/-- Every item of a batch's part is routed to that part's partition. -/
theorem parts_routed (x : Index) (items : List Item) :
    ∀ q its, (q, its) ∈ x.parts items → ∀ it ∈ its, Routed x q it.update := by
  unfold Index.parts
  -- the invariant of both folds: every part holds only items routed to its partition
  suffices h : ∀ (items : List Item) (acc : List (Nat × List Item)),
      (∀ q its, (q, its) ∈ acc → ∀ it ∈ its, Routed x q it.update) →
      ∀ q its, (q, its) ∈ items.foldl (fun acc it =>
        (x.route it.update).foldl (fun acc pp => Index.addPart pp.1 ⟨it.entity, pp.2⟩ acc) acc)
          acc → ∀ it ∈ its, Routed x q it.update from
    h items [] (by simp)
  intro items
  induction items with
  | nil => intro acc hacc; exact hacc
  | cons it rest ih =>
    intro acc hacc
    refine ih _ ?_
    dsimp only
    -- the parts of one item, each routed
    have hroute := route_routed x it.update
    generalize x.route it.update = parts at hroute
    induction parts generalizing acc with
    | nil => exact hacc
    | cons pp more ihp =>
      obtain ⟨p, part⟩ := pp
      have hp : Routed x p (Item.mk it.entity part).update := hroute (p, part) (by simp)
      exact ihp _ (addPart_mem (P := fun q it => Routed x q it.update) hp acc hacc)
        (fun pp' h => hroute pp' (by simp [h]))

/-! ## The invariant -/

/-- The keys a job may add an entry for. -/
def Job.newKeys : Job → List Key
  | .single _ u => Bucket.newKeys u
  | .batch items => items.flatMap fun it => Bucket.newKeys it.update

/-- Every update of a job is routed to partition `p`. -/
def Job.Routed (x : Index) (p : Nat) : Job → Prop
  | .single _ u => Bucket.Routed x p u
  | .batch items => ∀ it ∈ items, Bucket.Routed x p it.update

/-- Every bucket before depth `d` of partition `p` has a successor: the chain reaches `d`. -/
def Linked (b : Nat → Nat → State) (p d : Nat) : Prop := ∀ i < d, (b p i).next ≠ ""

/-- Every bucket past the tail of a chain is untouched. -/
def Untouched (b : Nat → Nat → State) : Prop :=
  ∀ p d, Linked b p d → (b p d).next = "" → ∀ i, d < i → b p i = {}

/-- A key the bucket at depth `d` of partition `p` may create: the bucket is the tail, the key
belongs to the partition, and no bucket before holds it. -/
def Creatable (x : Index) (b : Nat → Nat → State) (p d : Nat) (k : Key) : Prop :=
  (b p d).next = "" ∧ x.partitionOf k = p ∧ ∀ i < d, (b p i).hasKey k = false

/-- The buckets keep every key in one place. -/
structure ChainsOk (x : Index) (b : Nat → Nat → State) : Prop where
  /-- A key lives in the chain of its own partition. -/
  home : ∀ p d k, (b p d).hasKey k = true → x.partitionOf k = p
  /-- A key lives in one bucket of that chain. -/
  once : ∀ p d d' k, (b p d).hasKey k = true → (b p d').hasKey k = true → d = d'
  /-- The buckets past the tail of a chain are untouched. -/
  beyond : ∀ p d, Linked b p d → (b p d).next = "" → ∀ i, d < i → b p i = {}
  /-- An unbounded index never grows a chain. -/
  flat : x.desc.chained = false → ∀ p d, (b p d).next = ""

/-- What a walk relies on of the buckets of its partition. -/
structure WalkOk (x : Index) (b : Nat → Nat → State) (w : Walk) : Prop where
  /-- Its bucket is on the chain. -/
  linked : Linked b w.part w.depth
  /-- Its updates belong to its partition. -/
  routed : w.job.Routed x w.part
  /-- No bucket before its own holds a key it may add. -/
  fresh : ∀ k ∈ w.job.newKeys, ∀ i < w.depth, (b w.part i).hasKey k = false
  /-- Once passed on, its own bucket does not hold them either. -/
  waiting : w.phase ≠ .walk → ∀ k ∈ w.job.newKeys, (b w.part w.depth).hasKey k = false
  /-- Once it has grown its bucket, the bucket has a successor. -/
  grown : w.phase ≠ .walk → w.phase ≠ .grow → (b w.part w.depth).next ≠ ""
  /-- On an unbounded index it is never passed on. -/
  flat : x.desc.chained = false → w.phase = .walk

/-- The invariant of chain ownership: the buckets keep every key in one place, and every walk
in progress may rely on what it has seen. -/
structure Owned (x : Index) (sys : Sys) : Prop where
  /-- The buckets. -/
  chains : ChainsOk x sys.buckets
  /-- The walks. -/
  walks : ∀ w ∈ sys.walks, WalkOk x sys.buckets w

/-! ## Writing one bucket -/

section Put

variable {x : Index} {b : Nat → Nat → State} {p d : Nat} {t : State}

@[simp]
theorem putBucket_self : putBucket b p d t p d = t := by simp [putBucket]

theorem putBucket_of_ne {p' d' : Nat} (h : ¬ (p' = p ∧ d' = d)) : putBucket b p d t p' d' = b p' d' := by
  simp [putBucket, h]

@[simp]
theorem hasKey_empty (k : Key) : State.hasKey {} k = false := by
  simp [State.hasKey, State.entry?]

/-- A write that keeps the link keeps every bucket's link. -/
theorem putBucket_next (hn : t.next = (b p d).next) (p' d' : Nat) :
    (putBucket b p d t p' d').next = (b p' d').next := by
  unfold putBucket
  split
  · rename_i h
    obtain ⟨rfl, rfl⟩ := h
    exact hn
  · rfl

theorem linked_putBucket_iff (hn : t.next = (b p d).next) {p' d' : Nat} :
    Linked (putBucket b p d t) p' d' ↔ Linked b p' d' := by
  simp only [Linked, putBucket_next hn]

/-- A key of a bucket after a write that adds only creatable keys was there before, or is a
creatable key of the bucket written. -/
theorem hasKey_putBucket
    (hkeys : ∀ k, t.hasKey k = true → (b p d).hasKey k = true ∨ Creatable x b p d k)
    {p' d' : Nat} {k : Key} (h : (putBucket b p d t p' d').hasKey k = true) :
    (b p' d').hasKey k = true ∨ (p' = p ∧ d' = d ∧ Creatable x b p d k) := by
  by_cases hpd : p' = p ∧ d' = d
  · obtain ⟨rfl, rfl⟩ := hpd
    rcases hkeys k (by simpa using h) with h | h
    · exact Or.inl h
    · exact Or.inr ⟨rfl, rfl, h⟩
  · exact Or.inl (by rwa [putBucket_of_ne hpd] at h)

/-- A creatable key is in no bucket of the chain: not before the tail, which the walk has
checked, and not after it, where the buckets are untouched. -/
theorem Creatable.not_hasKey (h : ChainsOk x b) (hl : Linked b p d) {k : Key}
    (hc : Creatable x b p d k) {d' : Nat} (hd : d' ≠ d) : (b p d').hasKey k = false := by
  rcases Nat.lt_or_gt_of_ne hd with hlt | hgt
  · exact hc.2.2 d' hlt
  · rw [h.beyond p d hl hc.1 d' hgt]
    exact hasKey_empty k

/-- Writing a bucket on a chain without changing its link leaves the buckets past every tail
alone. -/
theorem Untouched.put (h : Untouched b) (hl : Linked b p d) (hn : t.next = (b p d).next) :
    Untouched (putBucket b p d t) := by
  intro p' d' hl' hn' i hi
  rw [linked_putBucket_iff hn] at hl'
  rw [putBucket_next hn] at hn'
  have hpi : ¬ (p' = p ∧ i = d) := by
    rintro ⟨rfl, rfl⟩
    exact hl d' hi hn'
  rw [putBucket_of_ne hpi]
  exact h p' d' hl' hn' i hi

/-- Writing a bucket on a chain without changing its link, where every new key is creatable,
keeps the buckets in order. -/
theorem ChainsOk.put (h : ChainsOk x b) (hl : Linked b p d) (hn : t.next = (b p d).next)
    (hkeys : ∀ k, t.hasKey k = true → (b p d).hasKey k = true ∨ Creatable x b p d k) :
    ChainsOk x (putBucket b p d t) where
  home p' d' k hk := by
    rcases hasKey_putBucket hkeys hk with hk | ⟨rfl, -, hc⟩
    · exact h.home p' d' k hk
    · exact hc.2.1
  once p' d₁ d₂ k h₁ h₂ := by
    -- a new key at the written bucket is in no other bucket of the chain
    rcases hasKey_putBucket hkeys h₁ with hb₁ | ⟨rfl, rfl, hc₁⟩ <;>
      rcases hasKey_putBucket hkeys h₂ with hb₂ | ⟨hp, rfl, hc₂⟩
    · exact h.once p' d₁ d₂ k hb₁ hb₂
    · subst hp
      by_cases hne : d₁ = d₂
      · exact hne
      · simp [Creatable.not_hasKey h hl hc₂ hne] at hb₁
    · by_cases hne : d₁ = d₂
      · exact hne
      · simp [Creatable.not_hasKey h hl hc₁ (Ne.symm hne)] at hb₂
    · rfl
  beyond := Untouched.put h.beyond hl hn
  flat hc p' d' := by
    rw [putBucket_next hn]
    exact h.flat hc p' d'

/-- A walk keeps what it relies on across such a write, provided that a walk waiting to grow
its bucket does not see one of its keys appear there. -/
theorem WalkOk.put {w : Walk} (hw : WalkOk x b w) (hn : t.next = (b p d).next)
    (hkeys : ∀ k, t.hasKey k = true → (b p d).hasKey k = true ∨ Creatable x b p d k)
    (hwait : w.phase = .grow → ∀ k ∈ w.job.newKeys, (b w.part w.depth).hasKey k = false →
      (putBucket b p d t w.part w.depth).hasKey k = false) :
    WalkOk x (putBucket b p d t) w where
  linked := (linked_putBucket_iff hn).2 hw.linked
  routed := hw.routed
  fresh k hk i hi := by
    -- a key created at a bucket before the walk's would need that bucket to be the tail
    cases hki : (putBucket b p d t w.part i).hasKey k with
    | false => rfl
    | true =>
      rcases hasKey_putBucket hkeys hki with h | ⟨rfl, rfl, hc⟩
      · simp [hw.fresh k hk i hi] at h
      · exact absurd hc.1 (hw.linked i hi)
  waiting hp k hk := by
    by_cases hg : w.phase = .grow
    · exact hwait hg k hk (hw.waiting hp k hk)
    · cases hkd : (putBucket b p d t w.part w.depth).hasKey k with
      | false => rfl
      | true =>
        rcases hasKey_putBucket hkeys hkd with h | ⟨hp', hd', hc⟩
        · simp [hw.waiting hp k hk] at h
        · rw [← hp', ← hd'] at hc
          exact absurd hc.1 (hw.grown hp hg)
  grown hp hg := by
    rw [putBucket_next hn]
    exact hw.grown hp hg
  flat := hw.flat

end Put

/-! ## Growing a tail -/

section Grow

variable {x : Index} {b : Nat → Nat → State} {p d : Nat} {n : String}

/-- Growing a bucket changes no entry. -/
@[simp]
theorem hasKey_putBucket_grow (p' d' : Nat) (k : Key) :
    (putBucket b p d { b p d with next := n } p' d').hasKey k = (b p' d').hasKey k := by
  unfold putBucket
  split
  · rename_i h
    obtain ⟨rfl, rfl⟩ := h
    rfl
  · rfl

/-- Growing a bucket only adds links. -/
theorem Linked.grow (hn : n ≠ "") {p' d' : Nat} (h : Linked b p' d') :
    Linked (putBucket b p d { b p d with next := n }) p' d' := by
  intro i hi
  unfold putBucket
  split
  · exact hn
  · exact h i hi

/-- Growing the tail of a chain leaves the buckets past every tail alone: the new tail is the
untouched bucket after the old one. -/
theorem Untouched.grow (h : Untouched b) (hl : Linked b p d) (ht : (b p d).next = "") (hn : n ≠ "") :
    Untouched (putBucket b p d { b p d with next := n }) := by
  intro p' d' hl' hn' i hi
  by_cases hp : p' = p
  · subst hp
    -- a tail of the grown chain lies past the grown bucket, where all was untouched
    have hd : d < d' := by
      rcases Nat.lt_trichotomy d' d with hlt | rfl | hgt
      · rw [putBucket_of_ne (by omega)] at hn'
        exact absurd hn' (hl d' hlt)
      · simp [hn] at hn'
      · exact hgt
    rw [putBucket_of_ne (by omega)]
    exact h p' d hl ht i (by omega)
  · have hother : ∀ j, putBucket b p d { b p d with next := n } p' j = b p' j :=
      fun j => putBucket_of_ne fun h => hp h.1
    rw [hother]
    refine h p' d' (fun j hj => ?_) (by rwa [hother] at hn') i hi
    have := hl' j hj
    rwa [hother] at this

theorem ChainsOk.grow (h : ChainsOk x b) (hc : x.desc.chained = true) (hl : Linked b p d)
    (ht : (b p d).next = "") (hn : n ≠ "") :
    ChainsOk x (putBucket b p d { b p d with next := n }) where
  home p' d' k hk := h.home p' d' k (by rwa [hasKey_putBucket_grow] at hk)
  once p' d₁ d₂ k h₁ h₂ :=
    h.once p' d₁ d₂ k (by rwa [hasKey_putBucket_grow] at h₁) (by rwa [hasKey_putBucket_grow] at h₂)
  beyond := Untouched.grow h.beyond hl ht hn
  flat hc' := by simp [hc] at hc'

theorem WalkOk.grow {w : Walk} (hw : WalkOk x b w) (hn : n ≠ "") :
    WalkOk x (putBucket b p d { b p d with next := n }) w where
  linked := hw.linked.grow hn
  routed := hw.routed
  fresh k hk i hi := by rw [hasKey_putBucket_grow]; exact hw.fresh k hk i hi
  waiting hp k hk := by rw [hasKey_putBucket_grow]; exact hw.waiting hp k hk
  grown hp hg := by
    unfold putBucket
    split
    · exact hn
    · exact hw.grown hp hg
  flat := hw.flat

end Grow

/-! ## The writes of a walk -/

/-- What a walk may write to the bucket at depth `d` of partition `p`. -/
inductive WriteOk (x : Index) (b : Nat → Nat → State) (p d : Nat) : State → Prop where
  /-- New contents on the chain that keep the link and add only creatable keys. -/
  | content {t : State} : Linked b p d → t.next = (b p d).next →
      (∀ k, t.hasKey k = true → (b p d).hasKey k = true ∨ Creatable x b p d k) → WriteOk x b p d t
  /-- The link of a grown tail of a chained index. -/
  | grow {n : String} : x.desc.chained = true → Linked b p d → (b p d).next = "" → n ≠ "" →
      WriteOk x b p d { b p d with next := n }

section Write

variable {x : Index} {b : Nat → Nat → State} {p d : Nat} {t : State}

theorem ChainsOk.write (h : ChainsOk x b) (hw : WriteOk x b p d t) :
    ChainsOk x (putBucket b p d t) := by
  cases hw with
  | content hl hn hkeys => exact h.put hl hn hkeys
  | grow hc hl ht hn => exact h.grow hc hl ht hn

theorem WalkOk.write {w : Walk} (ha : WalkOk x b w) (hw : WriteOk x b p d t)
    (hwait : w.phase = .grow → ∀ k ∈ w.job.newKeys, (b w.part w.depth).hasKey k = false →
      (putBucket b p d t w.part w.depth).hasKey k = false) :
    WalkOk x (putBucket b p d t) w := by
  cases hw with
  | content _ hn hkeys => exact ha.put hn hkeys hwait
  | grow _ _ _ hn => exact ha.grow hn

end Write

/-! ## One step of a walk -/

section Step

variable {x : Index} {b : Nat → Nat → State} {w : Walk}

/-- The head of a chain is on it. -/
theorem Linked.head {p : Nat} : Linked b p 0 := fun _ hi => absurd hi (Nat.not_lt_zero _)

theorem Linked.succ {p d : Nat} (h : Linked b p d) (hn : (b p d).next ≠ "") : Linked b p (d + 1) := by
  intro i hi
  by_cases hid : i = d
  · exact hid ▸ hn
  · exact h i (by omega)

theorem Job.Routed.partitionOf {j : Job} {p : Nat} {k : Key} (h : j.Routed x p)
    (hk : k ∈ j.newKeys) : x.partitionOf k = p := by
  cases j with
  | single r u => exact (show Bucket.Routed x p u from h).1 k hk
  | batch items =>
    obtain ⟨it, hit, hk⟩ := List.mem_flatMap.1 hk
    exact (show ∀ it ∈ items, Bucket.Routed x p it.update from h) it hit |>.1 k hk

/-- A key a walk may add is creatable at its bucket once that bucket is the tail. -/
theorem WalkOk.creatable (hw : WalkOk x b w) (ht : (b w.part w.depth).next = "") {k : Key}
    (hk : k ∈ w.job.newKeys) : Creatable x b w.part w.depth k :=
  ⟨ht, hw.routed.partitionOf hk, hw.fresh k hk⟩

/-- Only a chained index passes a walk on. -/
theorem WalkOk.chained (hw : WalkOk x b w) (hp : w.phase ≠ .walk) : x.desc.chained = true :=
  Bool.of_not_eq_false fun hc => hp (hw.flat hc)

/-- A walk just started at the head of its partition. -/
theorem WalkOk.start {p : Nat} {j : Job} (hr : j.Routed x p) :
    WalkOk x b { part := p, depth := 0, job := j } where
  linked := Linked.head
  routed := hr
  fresh _ _ _ hi := absurd hi (Nat.not_lt_zero _)
  waiting hp := absurd rfl hp
  grown hp := absurd rfl hp
  flat _ := rfl

/-- The contents a walk's update writes to its bucket. -/
theorem WalkOk.apply_writeOk (hw : WalkOk x b w) {r : EntityRef} {u : IndexUpdate} {s' : State}
    (hj : w.job = .single r u) (ha : (b w.part w.depth).apply r u x.desc.unique x.desc = .ok (.applied, s')) :
    WriteOk x b w.part w.depth s' := by
  refine .content hw.linked (State.apply_next ha) fun k hk => ?_
  rcases State.apply_hasKey ha hk with hk | ⟨hc, hk⟩
  · exact Or.inl hk
  · exact Or.inr (hw.creatable (next_eq_empty_of_canCreate hc) (by rw [hj]; exact hk))

/-- The contents a walk's batch writes to its bucket. -/
theorem WalkOk.batch_writeOk (hw : WalkOk x b w) {items : List Item} (hj : w.job = .batch items) :
    WriteOk x b w.part w.depth
      (items.foldl (batchStep x.desc) ⟨b w.part w.depth, [], [], 0, []⟩).state := by
  refine .content hw.linked (batch_next items _) fun k hk => ?_
  rcases batch_hasKey items _ hk with hk | ⟨ht, it, hit, hk⟩
  · exact Or.inl hk
  · exact Or.inr (hw.creatable ht (by rw [hj]; exact List.mem_flatMap.2 ⟨it, hit, hk⟩))

/-- The status a walk gives the successor it has grown. -/
theorem WalkOk.setStatus_writeOk (hw : WalkOk x b w) (hp : w.phase ≠ .walk) (hg : w.phase ≠ .grow)
    (st : Status) :
    WriteOk x b w.part (w.depth + 1) ((b w.part (w.depth + 1)).setStatus st).2 :=
  .content (hw.linked.succ (hw.grown hp hg)) (State.setStatus_next st)
    fun _ hk => Or.inl (State.setStatus_hasKey hk)

/-- Every write of a bucket step is one a walk may make. -/
theorem Walk.step_writeOk (hw : WalkOk x b w) {d : Nat} {t : State}
    (hs : (w.step x b).1 = some (d, t)) : WriteOk x b w.part d t := by
  unfold Walk.step at hs
  dsimp only at hs
  -- one case per phase, as `Walk.step` is written
  split at hs
  · split at hs
    · rename_i r u hj
      split at hs
      · cases hs
      · cases hs
      · rename_i s' ha
        simp only [Option.some.injEq, Prod.mk.injEq] at hs
        obtain ⟨rfl, rfl⟩ := hs
        exact hw.apply_writeOk hj ha
    · rename_i items hj
      have hwrite : d = w.depth ∧
          t = (items.foldl (batchStep x.desc) ⟨b w.part w.depth, [], [], 0, []⟩).state := by
        split at hs <;> (split at hs <;> simp only [Option.some.injEq, Prod.mk.injEq, reduceCtorEq] at hs)
        all_goals exact ⟨hs.1.symm, hs.2.symm⟩
      obtain ⟨rfl, rfl⟩ := hwrite
      exact hw.batch_writeOk hj
  · rename_i hp
    split at hs
    · rename_i ht
      simp only [Option.some.injEq, Prod.mk.injEq] at hs
      obtain ⟨rfl, rfl⟩ := hs
      exact .grow (hw.chained (by simp [hp])) hw.linked (by simpa using ht) (by simp [nextId])
    · cases hs
  · split at hs <;> cases hs
  · rename_i st hp
    split at hs
    · cases hs
    · simp only [Option.some.injEq, Prod.mk.injEq] at hs
      obtain ⟨rfl, rfl⟩ := hs
      exact hw.setStatus_writeOk (by simp [hp]) (by simp [hp]) st

/-- A walk passed on by its bucket, with what remains of its job, waits to grow the bucket. -/
theorem WalkOk.pass (hw : WalkOk x b w) (hc : x.desc.chained = true) {j : Job}
    (hr : j.Routed x w.part) (hsub : ∀ k ∈ j.newKeys, k ∈ w.job.newKeys)
    (hk : ∀ k ∈ j.newKeys, (b w.part w.depth).hasKey k = false) :
    WalkOk x b { w with job := j, phase := .grow } where
  linked := hw.linked
  routed := hr
  fresh k hk' := hw.fresh k (hsub k hk')
  waiting _ := hk
  grown _ hg := absurd rfl hg
  flat hc' := by simp [hc] at hc'

/-- A walk past its walk phase moves to a later phase at the same bucket, once the bucket has a
successor if that phase needs one. -/
theorem WalkOk.rephase (hw : WalkOk x b w) (hp : w.phase ≠ .walk) {φ : Phase}
    (hn : φ ≠ .grow → (b w.part w.depth).next ≠ "") : WalkOk x b { w with phase := φ } where
  linked := hw.linked
  routed := hw.routed
  fresh := hw.fresh
  waiting _ := hw.waiting hp
  grown _ hg := hn hg
  flat hc := absurd (hw.flat hc) hp

/-- A walk moves on to the successor of a bucket that has one and does not hold its keys. -/
theorem WalkOk.descend (hw : WalkOk x b w) (hp : w.phase ≠ .walk)
    (hn : (b w.part w.depth).next ≠ "") :
    WalkOk x b { w with depth := w.depth + 1, phase := .walk } where
  linked := hw.linked.succ hn
  routed := hw.routed
  fresh k hk i hi := by
    by_cases hid : i = w.depth
    · exact hid ▸ hw.waiting hp k hk
    · exact hw.fresh k hk i (by simp only at hi; omega)
  waiting hp' := absurd rfl hp'
  grown hp' := absurd rfl hp'
  flat _ := rfl

theorem putBucket_same {p d : Nat} : putBucket b p d (b p d) = b := by
  funext p' d'
  unfold putBucket
  split
  · rename_i h
    obtain ⟨rfl, rfl⟩ := h
    rfl
  · rfl

/-- A batch that applied nothing left its bucket as it was, so writing it or not is the same. -/
theorem putWrite_batch {m : IndexMeta} {items : List Item} {p d : Nat} {pass : BatchPass}
    (hpass : items.foldl (batchStep m) ⟨b p d, [], [], 0, []⟩ = pass) :
    putWrite b p (if 0 < pass.applied then some (d, pass.state) else none) =
      putBucket b p d pass.state := by
  split
  · rfl
  · rename_i h0
    have hs := batch_state_of_applied items _ (by rw [hpass]; dsimp only; omega)
    rw [hpass] at hs
    rw [hs]
    exact putBucket_same.symm

/-- A walk whose batch leaves items over waits, with those items, to grow the bucket its batch
wrote. On a chained index every item is a half, and the items passed on name no key the bucket
holds. -/
theorem WalkOk.pass_batch (h : ChainsOk x b) (hw : WalkOk x b w) (hp : w.phase = .walk)
    {items : List Item} (hj : w.job = .batch items) {pass : BatchPass}
    (hpass : items.foldl (batchStep x.desc) ⟨b w.part w.depth, [], [], 0, []⟩ = pass)
    (hrest : pass.rest ≠ []) :
    WalkOk x (putBucket b w.part w.depth pass.state)
      { w with job := .batch pass.rest, phase := .grow } := by
  have hc : x.desc.chained = true := Bool.of_not_eq_false fun hc =>
    hrest (hpass ▸ batch_rest_eq_nil hc items _ (h.flat hc _ _) rfl rfl)
  have hr : ∀ it ∈ items, Routed x w.part it.update := by
    have := hw.routed
    rwa [hj] at this
  have hmem : ∀ it ∈ pass.rest, it ∈ items := fun it hit => by
    rcases batch_rest_mem items _ it (hpass ▸ hit) with h | h
    · simp at h
    · exact h
  have hfresh : pass.Fresh :=
    hpass ▸ batch_fresh items (fun it hit => (hr it hit).2 hc) _ ⟨by simp, by simp⟩
  have hw' := hw.write (hpass ▸ hw.batch_writeOk hj) (fun hg => absurd (hp.symm.trans hg) (by simp))
  refine hw'.pass hc (fun it hit => hr it (hmem it hit)) (fun k hk => ?_) (fun k hk => ?_)
  · obtain ⟨it, hit, hk⟩ := List.mem_flatMap.1 hk
    rw [hj]
    exact List.mem_flatMap.2 ⟨it, hmem it hit, hk⟩
  · obtain ⟨it, hit, hk⟩ := List.mem_flatMap.1 hk
    rw [putBucket_self]
    exact hfresh.rest_newKeys it hit k hk

/-- The walk a bucket step leaves may rely on the buckets the step leaves. -/
theorem Walk.step_next (h : ChainsOk x b) (hw : WalkOk x b w) {write : Option (Nat × State)}
    {w' : Walk} (hs : w.step x b = (write, some w')) : WalkOk x (putWrite b w.part write) w' := by
  unfold Walk.step at hs
  dsimp only at hs
  -- one case per phase, as `Walk.step` is written
  split at hs
  · rename_i hp
    split at hs
    · rename_i r u hj
      split at hs
      · cases hs
      · rename_i s' ha
        simp only [Prod.mk.injEq, Option.some.injEq] at hs
        obtain ⟨rfl, rfl⟩ := hs
        obtain ⟨-, hk, -⟩ := State.apply_notFoundHere ha
        -- a bucket passes an update on only on a chained index
        have hc : x.desc.chained = true := Bool.of_not_eq_false fun hc =>
          State.apply_ne_notFoundHere (h.flat hc _ _) hc ha
        exact hw.pass hc hw.routed (fun k hk => hk) (by rw [hj]; exact hk)
      · cases hs
    · rename_i items hj
      generalize hpass : items.foldl (batchStep x.desc) ⟨b w.part w.depth, [], [], 0, []⟩ = pass
        at hs
      split at hs
      · cases hs
      · rename_i hrest
        simp only [Prod.mk.injEq, Option.some.injEq] at hs
        obtain ⟨rfl, rfl⟩ := hs
        rw [putWrite_batch hpass]
        exact hw.pass_batch h hp hj hpass (by simpa using hrest)
  · rename_i hp
    split at hs
    · simp only [Prod.mk.injEq, Option.some.injEq] at hs
      obtain ⟨rfl, rfl⟩ := hs
      exact (hw.grow (by simp [nextId])).rephase (by simp [hp]) fun _ => by simp [nextId]
    · rename_i ht
      simp only [Prod.mk.injEq, Option.some.injEq] at hs
      obtain ⟨rfl, rfl⟩ := hs
      exact hw.descend (by simp [hp]) (by simpa using ht)
  · rename_i hp
    have hn := hw.grown (by simp [hp]) (by simp [hp])
    split at hs
    · simp only [Prod.mk.injEq, Option.some.injEq] at hs
      obtain ⟨rfl, rfl⟩ := hs
      exact hw.rephase (by simp [hp]) fun _ => hn
    · simp only [Prod.mk.injEq, Option.some.injEq] at hs
      obtain ⟨rfl, rfl⟩ := hs
      exact hw.descend (by simp [hp]) hn
  · rename_i st hp
    have hd := hw.descend (by simp [hp]) (hw.grown (by simp [hp]) (by simp [hp]))
    split at hs
    · simp only [Prod.mk.injEq, Option.some.injEq] at hs
      obtain ⟨rfl, rfl⟩ := hs
      exact hd
    · simp only [Prod.mk.injEq, Option.some.injEq] at hs
      obtain ⟨rfl, rfl⟩ := hs
      exact hd.write (hw.setStatus_writeOk (by simp [hp]) (by simp [hp]) st) fun hg => by simp at hg

end Step

/-! ## Interleavings that keep ownership -/

/-- A step disturbs a walk waiting to grow its bucket when one of the keys the bucket passed on
appears in that bucket. -/
def Disturbs (sys sys' : Sys) : Prop :=
  ∃ w ∈ sys.walks, w.phase = .grow ∧ ∃ k ∈ w.job.newKeys,
    (sys.buckets w.part w.depth).hasKey k = false ∧ (sys'.buckets w.part w.depth).hasKey k = true

instance (sys sys' : Sys) : Decidable (Disturbs sys sys') := by
  unfold Disturbs
  infer_instance

/-- The states reached from empty buckets by interleavings in which no step disturbs a walk
waiting to grow its bucket. -/
inductive SafeReachable (x : Index) : Sys → Prop where
  | init : SafeReachable x Sys.init
  | step {s s' : Sys} {e : Event} : SafeReachable x s → s.step x e = some s' → ¬ Disturbs s s' →
      SafeReachable x s'

/-- Run events in order, stopping at a step that disturbs a walk waiting to grow its bucket. -/
def Sys.safeRun (x : Index) : Sys → List Event → Option Sys
  | s, [] => some s
  | s, e :: rest =>
    (s.step x e).bind fun s' => if Disturbs s s' then none else Sys.safeRun x s' rest

section Safe

variable {x : Index} {sys sys' : Sys}

theorem safeReachable_of_safeRun :
    ∀ {s s' : Sys} {l : List Event}, SafeReachable x s → Sys.safeRun x s l = some s' →
      SafeReachable x s'
  | s, s', [], hs, h => by simp only [Sys.safeRun, Option.some.injEq] at h; exact h ▸ hs
  | s, s', e :: rest, hs, h => by
    simp only [Sys.safeRun] at h
    cases hn : s.step x e with
    | none => simp [hn] at h
    | some s₁ =>
      simp only [hn, Option.bind_some] at h
      split at h
      · cases h
      · rename_i hd
        exact safeReachable_of_safeRun (SafeReachable.step hs hn hd) h

theorem SafeReachable.reachable (h : SafeReachable x sys) : Reachable x sys := by
  induction h with
  | init => exact .init
  | step _ hs _ ih => exact .step ih hs

theorem Sys.mem_settle_walks {i p : Nat} {write : Option (Nat × State)} {next : Option Walk}
    {a : Walk} (h : a ∈ (sys.settle i p (write, next)).walks) : a ∈ sys.walks ∨ next = some a := by
  cases next with
  | none => exact Or.inl (List.mem_of_mem_eraseIdx h)
  | some w' =>
    rcases List.mem_or_eq_of_mem_set h with h | rfl
    · exact Or.inl h
    · exact Or.inr rfl

theorem waiting_of_not_disturbs (hd : ¬ Disturbs sys sys') :
    ∀ a ∈ sys.walks, a.phase = .grow → ∀ k ∈ a.job.newKeys,
      (sys.buckets a.part a.depth).hasKey k = false → (sys'.buckets a.part a.depth).hasKey k = false := by
  intro a ha hg k hk hf
  cases h' : (sys'.buckets a.part a.depth).hasKey k
  · rfl
  · exact absurd ⟨a, ha, hg, k, hk, hf, h'⟩ hd

theorem Owned.init : Owned x Sys.init where
  chains :=
    { home := fun _ _ _ hk => by simp [Sys.init] at hk
      once := fun _ _ _ _ hk => by simp [Sys.init] at hk
      beyond := fun _ _ _ _ _ _ => rfl
      flat := fun _ _ _ => rfl }
  walks _ hw := by simp [Sys.init] at hw

/-- The walks a call starts may rely on the buckets. -/
theorem Call.walks_ok {b : Nat → Nat → State} (c : Call) : ∀ w ∈ c.walks x, WalkOk x b w := by
  intro w hw
  cases c with
  | apply r u =>
    simp only [Call.walks, List.mem_map] at hw
    obtain ⟨⟨p, part⟩, hp, rfl⟩ := hw
    exact WalkOk.start (route_routed x u _ hp)
  | applyBatch items =>
    simp only [Call.walks, List.mem_map] at hw
    obtain ⟨⟨p, its⟩, hp, rfl⟩ := hw
    exact WalkOk.start (parts_routed x items p its hp)

/-- A bucket step that disturbs no walk waiting to grow keeps the invariant. -/
theorem Owned.advance (h : Owned x sys) {i : Nat} {w : Walk} (hi : sys.walks[i]? = some w)
    (hd : ¬ Disturbs sys (sys.settle i w.part (w.step x sys.buckets))) :
    Owned x (sys.settle i w.part (w.step x sys.buckets)) := by
  have hw := h.walks w (List.mem_of_getElem? hi)
  have hwait := waiting_of_not_disturbs hd
  generalize hs : w.step x sys.buckets = r at hd hwait ⊢
  obtain ⟨write, next⟩ := r
  -- the write keeps the buckets in order and every walk's view; the walk left relies on both
  refine ⟨?_, fun a ha => ?_⟩
  · rcases write with _ | ⟨d, t⟩
    · exact h.chains
    · exact h.chains.write (Walk.step_writeOk hw (by rw [hs]))
  · rcases Sys.mem_settle_walks ha with hold | rfl
    · rcases write with _ | ⟨d, t⟩
      · exact h.walks a hold
      · exact (h.walks a hold).write (Walk.step_writeOk hw (by rw [hs])) (hwait a hold)
    · exact Walk.step_next h.chains hw hs

theorem Owned.step (h : Owned x sys) {e : Event} (hs : sys.step x e = some sys')
    (hd : ¬ Disturbs sys sys') : Owned x sys' := by
  cases e with
  | call c =>
    simp only [Sys.step, Option.some.injEq] at hs
    subst hs
    refine ⟨h.chains, fun w hw => ?_⟩
    rcases List.mem_append.1 hw with hw | hw
    · exact h.walks w hw
    · exact c.walks_ok w hw
  | advance i =>
    simp only [Sys.step] at hs
    split at hs
    · cases hs
    · rename_i w hw
      simp only [Option.some.injEq] at hs
      subst hs
      exact h.advance hw hd

theorem SafeReachable.owned (h : SafeReachable x sys) : Owned x sys := by
  induction h with
  | init => exact Owned.init
  | step _ hs hd ih => exact ih.step hs hd

/-- In every state that interleavings reach without disturbing a walk waiting to grow its
bucket, a key is in at most one bucket of the whole index, and on a unique index every entity
stored under a key is the same one. -/
theorem undisturbed_keys_have_one_owner (h : SafeReachable x sys) :
    (∀ p d p' d' k, (sys.buckets p d).hasKey k = true → (sys.buckets p' d').hasKey k = true →
      p = p' ∧ d = d') ∧
    (x.desc.unique = true → ∀ p d p' d' k e e', State.entry? (sys.buckets p d) k = some e →
      State.entry? (sys.buckets p' d') k = some e' → ∀ r ∈ e.values, ∀ r' ∈ e'.values, r = r') := by
  have ho := h.owned
  -- a key's partition is its own, and within the chain it is in one bucket
  have hone : ∀ p d p' d' k, (sys.buckets p d).hasKey k = true →
      (sys.buckets p' d').hasKey k = true → p = p' ∧ d = d' := by
    intro p d p' d' k hk hk'
    have hp : p = p' := (ho.chains.home p d k hk).symm.trans (ho.chains.home p' d' k hk')
    subst hp
    exact ⟨rfl, ho.chains.once p d d' k hk hk'⟩
  refine ⟨hone, fun hu p d p' d' k e e' he he' r hr r' hr' => ?_⟩
  obtain ⟨rfl, rfl⟩ := hone p d p' d' k (by simp [State.hasKey, he]) (by simp [State.hasKey, he'])
  rw [he, Option.some.injEq] at he'
  subst he'
  exact (reachable_singleValued hu h.reachable p d).eq_of_mem he hr hr'

end Safe

/-! ## A race between three calls -/

/-- A unique index of one partition whose buckets hold one key each. -/
def tinyUnique : Index := ⟨"email", { name := "email", unique := true, maxEntries := 1 }⟩

/-- The key the calls race for. -/
def raceKey : Key := ⟨"s:x"⟩

/-- The key that fills the head bucket. -/
def fillKey : Key := ⟨"s:f"⟩

/-- `b` fills the head bucket. Then `a` is passed on, grows the chain and takes the key in the
new bucket. -/
def growSchedule : List Event :=
  [.call (.apply ⟨"player", "b"⟩ (insertOf fillKey)), .advance 0,
   .call (.apply ⟨"player", "a"⟩ (insertOf raceKey)), .advance 0, .advance 0, .advance 0,
   .advance 0]

/-- A chain grown without disturbance holds the key in the new bucket and nowhere else. -/
theorem grown_chain_holds_key_once :
    ∃ sys, SafeReachable tinyUnique sys ∧ (sys.buckets 0 1).hasKey raceKey = true ∧
      ∀ p d, (sys.buckets p d).hasKey raceKey = true → p = 0 ∧ d = 1 := by
  have hrun : (Sys.safeRun tinyUnique Sys.init growSchedule).map
      (fun sys => (sys.buckets 0 1).hasKey raceKey) = some true := by
    decide
  cases hr : Sys.safeRun tinyUnique Sys.init growSchedule with
  | none => simp [hr] at hrun
  | some sys =>
    have hs := safeReachable_of_safeRun .init hr
    simp only [hr, Option.map_some, Option.some.injEq] at hrun
    exact ⟨sys, hs, hrun, fun p d hk => (undisturbed_keys_have_one_owner hs).1 p d 0 1 raceKey hk hrun⟩

/-- `b` fills the head bucket, and `a` is told the key belongs further down. While `a` waits to
grow the head, `b` deletes its key and `c` creates the raced key in the head, which has room
again. Then `a` grows the chain and creates the key in the new bucket. -/
def raceSchedule : List Event :=
  [.call (.apply ⟨"player", "b"⟩ (insertOf fillKey)), .advance 0,
   .call (.apply ⟨"player", "a"⟩ (insertOf raceKey)), .advance 0,
   .call (.apply ⟨"player", "b"⟩ (deleteOf fillKey)), .advance 1,
   .call (.apply ⟨"player", "c"⟩ (insertOf raceKey)), .advance 1,
   .advance 0, .advance 0, .advance 0]

/-- Some interleaving of three calls on a unique index leaves one key in two buckets of one
chain, held by two different entities. -/
theorem interleaving_puts_key_in_two_buckets :
    ∃ sys, Reachable tinyUnique sys ∧
      State.entry? (sys.buckets 0 0) raceKey = some ⟨[⟨"player", "c"⟩], .none⟩ ∧
      State.entry? (sys.buckets 0 1) raceKey = some ⟨[⟨"player", "a"⟩], .none⟩ := by
  have hrun : (Sys.run tinyUnique Sys.init raceSchedule).map (fun sys =>
      decide (State.entry? (sys.buckets 0 0) raceKey = some ⟨[⟨"player", "c"⟩], .none⟩ ∧
        State.entry? (sys.buckets 0 1) raceKey = some ⟨[⟨"player", "a"⟩], .none⟩)) = some true := by
    decide
  cases hr : Sys.run tinyUnique Sys.init raceSchedule with
  | none => simp [hr] at hrun
  | some sys =>
    simp only [hr, Option.map_some, Option.some.injEq, decide_eq_true_eq] at hrun
    exact ⟨sys, reachable_of_run .init hr, hrun⟩

end EntityIndex.Bucket
