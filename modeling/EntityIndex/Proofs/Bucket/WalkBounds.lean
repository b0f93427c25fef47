import EntityIndex.Proofs.Bucket.ChainCount

/-!
# Walks along chains end

Every walk of an index follows the links of a chain of buckets, and the walks that write grow
the chain while they walk it. From the empty shelf, the calls of an index keep every chain in one
shape (`ChainShape`): the chain of partition `p` is `len p` buckets from its head, each linking
to the next bucket of the chain and the last to none, and every bucket past the last untouched.
No link leads back, so every walk ends, `L` being the length of its chain when it starts:

* an update passes at most the `L` buckets of its chain and one more: the tail it passes grows
  a successor that is empty, and an empty tail takes every update;
* a batch of `n` items takes at most `L + n` bucket steps: every successor grown on the way is
  empty, and takes at least the first of the items that reach it, applying it or skipping it;
* a lookup, and a walk over every bucket, pass the `L` buckets and stop at the end of the chain.

`EndsWithin walk b n` says that from the buckets `b` the walk, run with `n` steps or more, gives
one answer, never the failure of a chain too long, and leaves the same buckets. Each walk is
taken one bucket at a time: one lemma says what a step at a bucket does, and an induction on the
steps left gives the whole walk (`chain_walks_end_within_bounds`). The store lets every read and
write through.
-/

namespace EntityIndex.Bucket

open EntityIndex.Bucket.Shelf

/-! ## The shape of chains -/

/-- The chains of index `x` in the buckets `b`, the chain of partition `p` being `len p` buckets
long: each bucket of a chain links to the next, the last to none, and every bucket past the last
is untouched. -/
structure ChainShape (x : Index) (b : String → State) (len : Nat → Nat) : Prop where
  /-- A chain has at least its head. -/
  pos : ∀ p, 0 < len p
  /-- Each bucket but the last links to the next. -/
  link : ∀ p d, d + 1 < len p → (b (x.bucketAt p d)).next = x.bucketAt p (d + 1)
  /-- The last has no successor. -/
  tail : ∀ p, (b (x.bucketAt p (len p - 1))).next = ""
  /-- Buckets past the last are untouched. -/
  beyond : ∀ p d, len p ≤ d → b (x.bucketAt p d) = {}

/-- A bucket as growing a chain leaves it: no entries and no successor. -/
def State.Fresh (s : State) : Prop := s.entries = [] ∧ s.next = ""

theorem State.Fresh.canCreate {s : State} (h : s.Fresh) (m : IndexMeta) : s.canCreate m = true := by
  by_cases hm : m.maxEntries ≤ 0 <;>
    simp [State.canCreate, IndexMeta.atCapacity, State.size, h.1, h.2, hm]

namespace ChainShape

variable {x : Index} {b : String → State} {len : Nat → Nat}

theorem empty (x : Index) : ChainShape x (fun _ => {}) (fun _ => 1) where
  pos _ := Nat.one_pos
  link _ _ h := by omega
  tail _ := rfl
  beyond _ _ _ := rfl

theorem next_of_last (h : ChainShape x b len) {p d : Nat} (hd : d + 1 = len p) :
    (b (x.bucketAt p d)).next = "" := by
  have hend := h.tail p
  rwa [show len p - 1 = d by omega] at hend

/-- A fresh bucket of a chain is its last. -/
theorem last_of_fresh (h : ChainShape x b len) {p d : Nat} (hd : d < len p)
    (hf : (b (x.bucketAt p d)).Fresh) : d + 1 = len p := by
  by_contra hne
  have hl := h.link p d (by omega)
  rw [hf.2] at hl
  exact Index.bucketAt_ne_empty x p (d + 1) hl.symm

/-- Writing a bucket of a chain with the link it had keeps the shape. -/
theorem write (h : ChainShape x b len) {p d : Nat} (hd : d < len p) {s : State}
    (hs : s.next = (b (x.bucketAt p d)).next) :
    ChainShape x (Function.update b (x.bucketAt p d) s) len where
  pos := h.pos
  link p' d' hlt := (update_next hs _).trans (h.link p' d' hlt)
  tail p' := (update_next hs _).trans (h.tail p')
  beyond p' d' hle := by
    have hne : x.bucketAt p' d' ≠ x.bucketAt p d := fun heq => by
      obtain ⟨rfl, rfl⟩ := Index.bucketAt_inj.1 heq
      omega
    rw [Function.update_of_ne hne]
    exact h.beyond p' d' hle

/-- Growing the last bucket of a chain links the bucket past it, which joins the chain. -/
theorem grow (h : ChainShape x b len) {p d : Nat} (hd : d + 1 = len p) :
    ChainShape x
      (Function.update b (x.bucketAt p d) { b (x.bucketAt p d) with next := x.bucketAt p (d + 1) })
      (Function.update len p (d + 2)) := by
  generalize hT : x.bucketAt p d = T
  have hne : ∀ {p' d'}, x.bucketAt p' d' = T → p' = p ∧ d' = d := fun heq =>
    Index.bucketAt_inj.1 (heq.trans hT.symm)
  refine ⟨fun q => ?_, fun p' d' hlt => ?_, fun p' => ?_, fun p' d' hle => ?_⟩
  · by_cases hq : q = p
    · subst hq
      simp
    · simpa [hq] using h.pos q
  · by_cases hq : p' = p
    · subst hq
      simp only [Function.update_self] at hlt
      by_cases hdd : d' = d
      · subst hdd
        simp [hT]
      · have hne' : x.bucketAt p' d' ≠ T := fun heq => hdd (hne heq).2
        simp [hne', h.link p' d' (by omega)]
    · have hne' : x.bucketAt p' d' ≠ T := fun heq => hq (hne heq).1
      simp [hne', h.link p' d' (by simpa [hq] using hlt)]
  · by_cases hq : p' = p
    · subst hq
      have hne' : x.bucketAt p' (d + 1) ≠ T := fun heq => by have := (hne heq).2; omega
      simp [show d + 2 - 1 = d + 1 by omega, hne', h.beyond p' (d + 1) (by omega)]
    · have hne' : x.bucketAt p' (len p' - 1) ≠ T := fun heq => hq (hne heq).1
      simp [hne', hq, h.tail p']
  · by_cases hq : p' = p
    · subst hq
      simp only [Function.update_self] at hle
      have hne' : x.bucketAt p' d' ≠ T := fun heq => by have := (hne heq).2; omega
      simp [hne', h.beyond p' d' (by omega)]
    · have hne' : x.bucketAt p' d' ≠ T := fun heq => hq (hne heq).1
      simp [hne', h.beyond p' d' (by simpa [hq] using hle)]

end ChainShape

/-! ## What a bucket refuses -/

section Refusals

variable {s : State} {r : EntityRef} {u : IndexUpdate} {uq : Bool} {m : IndexMeta} {e : Error}

/-- A refused change is refused as a key another entity holds on a unique index, or as a move
the bucket cannot take. -/
theorem State.kind_of_change_error (h : s.change r u uq m = .error e) :
    e.kind = .uniqueness ∨ e.kind = .splitRequired := by
  unfold State.change at h
  dsimp only at h
  -- whether the entity is under the before-image decides between an insert and a move
  cases hb : s.entry? u.before with
  | none =>
    simp only [hb, Bool.not_false, ↓reduceIte] at h
    exact .inl (State.kind_of_insert_error h)
  | some eb =>
    by_cases hc : eb.contains r = true
    · simp only [hb, hc, Bool.not_true, Bool.false_eq_true, ↓reduceIte] at h
      cases ha : s.entry? u.after with
      | none =>
        by_cases hcc : s.canCreate m = true
        · simp [ha, hcc] at h
        · simp only [ha, hcc, Bool.false_eq_true, ↓reduceIte, Except.error.injEq] at h
          exact .inr (by rw [← h]; rfl)
      | some ea =>
        by_cases ho : (uq && ea.holdsOther r) = true
        · simp only [ha, ho, ↓reduceIte, Except.error.injEq] at h
          exact .inl (by rw [← h]; rfl)
        · simp [ha, ho] at h
    · simp only [hb, hc, Bool.not_false, ↓reduceIte] at h
      exact .inl (State.kind_of_insert_error h)

/-- A bucket refuses an update for reasons of its own, never as a chain too long. -/
theorem State.apply_error_ne_chainTooLong (h : s.apply r u uq m = .error e) : e ≠ chainTooLong := by
  rintro rfl
  unfold State.apply at h
  split_ifs at h
  · cases h
  · cases hop : u.op with
    | none => simp [hop] at h
    | insert =>
      simp only [hop] at h
      cases State.kind_of_insert_error h
    | update =>
      simp only [hop] at h
      rcases State.kind_of_change_error h with hk | hk <;> cases hk
    | delete =>
      simp only [hop, State.delete] at h
      split at h <;> cases h
    | other c =>
      -- the failure of an unknown operation is longer
      simp only [hop, Except.error.injEq, chainTooLong, Error.other, Error.fault.injEq,
        true_and] at h
      have hlen := congrArg String.length h
      simp only [String.length_append] at hlen
      have hknown : "bucket: unknown operation ".length = 26 := by decide
      have htoo : "bucket chain too long".length = 21 := by decide
      omega

end Refusals

/-! ## Moving on along a chain -/

section Successor

variable {x : Index} {b : String → State} {len : Nat → Nat}

/-- Setting a status a bucket does not have writes the bucket with it. -/
theorem Runs.setStatusAt_of_ne (id : String) (st : Status) (hs : (b id).status ≠ st) :
    Runs (setStatusAt id st) b (.ok ()) (Function.update b id ((b id).setStatus st).2) := by
  refine Runs.bind (Runs.resolve id b) ?_
  simp only [hs, if_false]
  exact Runs.commit _ _ _

/-- An untouched bucket given a status other than available is fresh. -/
theorem State.fresh_setStatus {st : Status} (hst : st ≠ .available) :
    (({} : State).setStatus st).2.Fresh := by
  simp [State.setStatus, hst, State.Fresh]

/-- The successor of a bucket of a chain is the next bucket of the chain: linked already, or
linked now at the last, where the new bucket joins the chain fresh, with the last one's status. -/
theorem ChainShape.successor (h : ChainShape x b len) {p d : Nat} (hd : d < len p) :
    ∃ b₁ len₁, Runs (Index.successor (x.bucketAt p d)) b (.ok (x.bucketAt p (d + 1))) b₁ ∧
      ChainShape x b₁ len₁ ∧ d + 1 < len₁ p ∧
      ((d + 1 < len p ∧ b₁ = b ∧ len₁ = len) ∨
        (d + 1 = len p ∧ (b₁ (x.bucketAt p (d + 1))).Fresh)) := by
  by_cases hlast : d + 1 < len p
  · -- a bucket that links on
    have hl := h.link p d hlast
    have hrun := Runs.successor_linked (hl ▸ Index.bucketAt_ne_empty x p (d + 1))
    rw [hl] at hrun
    exact ⟨b, len, hrun, h, hlast, .inl ⟨hlast, rfl, rfl⟩⟩
  · -- the last bucket grows
    have htail : d + 1 = len p := by omega
    have hn := h.next_of_last htail
    have hsh := h.grow htail
    have hg := Runs.grow_tail hn
    rw [nextId_bucketAt] at hg
    have hnew : Function.update b (x.bucketAt p d)
        { b (x.bucketAt p d) with next := x.bucketAt p (d + 1) } (x.bucketAt p (d + 1)) = {} := by
      rw [Function.update_of_ne fun heq => by have := (Index.bucketAt_inj.1 heq).2; omega]
      exact h.beyond p (d + 1) (by omega)
    have hst : (Function.update b (x.bucketAt p d)
        { b (x.bucketAt p d) with next := x.bucketAt p (d + 1) } (x.bucketAt p d)).status =
          (b (x.bucketAt p d)).status := by simp
    have hlen : d + 1 < Function.update len p (d + 2) p := by simp
    set b₁ := Function.update b (x.bucketAt p d)
      { b (x.bucketAt p d) with next := x.bucketAt p (d + 1) } with hb₁
    by_cases hs : (b (x.bucketAt p d)).status = .available
    · have hrun := Runs.successor_tail hn hs
      rw [nextId_bucketAt] at hrun
      refine ⟨_, _, hrun, hsh, hlen, .inr ⟨htail, ?_⟩⟩
      show (b₁ (x.bucketAt p (d + 1))).Fresh
      rw [hnew]
      exact ⟨rfl, rfl⟩
    · -- the new bucket takes the status of the last
      have hset := Runs.setStatusAt_of_ne (b := b₁) (x.bucketAt p (d + 1))
        (b (x.bucketAt p d)).status (by rw [hnew]; exact Ne.symm hs)
      refine ⟨_, _, ?_, hsh.write hlen (State.setStatus_next (b (x.bucketAt p d)).status), hlen,
        .inr ⟨htail, ?_⟩⟩
      · unfold Index.successor
        refine Runs.bind hg ?_
        simp only [if_true]
        refine Runs.bind (Runs.grew _) (Runs.bind (Runs.resolve _ _) ?_)
        simp only [hst, hs, ne_eq, not_false_eq_true, if_true]
        exact Runs.bind hset (Runs.pure _ _)
      · rw [Function.update_self, hnew]
        exact State.fresh_setStatus hs

end Successor

/-! ## Ending within a number of steps -/

/-- From the buckets `b`, the walk ends within `n` steps: run with `n` steps or more, it gives
one answer, never the failure of a chain too long, and leaves the same buckets. -/
def EndsWithin {α : Type} (walk : Nat → Run Shelf α) (b : String → State) (n : Nat) : Prop :=
  ∃ r b', r ≠ .error chainTooLong ∧ ∀ fuel, n ≤ fuel → Runs (walk fuel) b r b'

theorem ok_ne_chainTooLong {α : Type} (a : α) : (.ok a : Except Error α) ≠ .error chainTooLong := by
  simp

/-- A walk whose runs with more steps than `fuel` all start as its run with `fuel + 1` steps,
and then go as they would with one step less. -/
theorem runs_of_succ {α : Type} {walk : Nat → Run Shelf α} {b b' : String → State}
    {res : Except Error α} {fuel : Nat} (h : ∀ f, fuel ≤ f → Runs (walk (f + 1)) b res b') :
    ∀ fuel', fuel + 1 ≤ fuel' → Runs (walk fuel') b res b' := by
  intro fuel' hle
  obtain ⟨f, rfl⟩ : ∃ f, fuel' = f + 1 := ⟨fuel' - 1, by omega⟩
  exact h f (by omega)

/-! ## Walks that write -/

section Update

variable {x : Index} (r : EntityRef) (u : IndexUpdate) (p : Nat)

/-- The walk of an update from depth `d` of a chain. Every run keeps the chains shaped; a run
with a step for each bucket down to the last and one more, or with a step at a fresh bucket,
ends there: with more steps the walk gives the same answer, never the failure of a chain too
long. -/
theorem ChainShape.applyChain_walk : ∀ (fuel d : Nat) {b : String → State} {len : Nat → Nat},
    ChainShape x b len → d < len p →
      ∃ res b' len', Runs (x.applyChain r u fuel (x.bucketAt p d)) b res b' ∧
        ChainShape x b' len' ∧
        (len p - d + 1 ≤ fuel ∨ ((b (x.bucketAt p d)).Fresh ∧ 1 ≤ fuel) →
          res ≠ .error chainTooLong ∧
            ∀ fuel', fuel ≤ fuel' → Runs (x.applyChain r u fuel' (x.bucketAt p d)) b res b')
  | 0, d, b, len, h, hd => ⟨_, b, len, by rw [Index.applyChain]; exact Runs.throw _ b, h, by omega⟩
  | fuel + 1, d, b, len, h, hd => by
    cases hs : (b (x.bucketAt p d)).apply r u x.desc.unique x.desc with
    | error e =>
      exact ⟨_, b, len, Runs.applyChain_error hs, h, fun _ =>
        ⟨fun he => State.apply_error_ne_chainTooLong hs (Except.error.inj he),
          runs_of_succ fun _ _ => Runs.applyChain_error hs⟩⟩
    | ok o =>
      obtain ⟨o, s'⟩ := o
      cases o with
      | applied =>
        exact ⟨_, _, len, Runs.applyChain_applied hs, h.write hd (State.apply_next hs), fun _ =>
          ⟨ok_ne_chainTooLong _, runs_of_succ fun _ _ => Runs.applyChain_applied hs⟩⟩
      | notFoundHere =>
        -- a fresh bucket takes every update, so this one is not fresh
        have hnf : ¬ (b (x.bucketAt p d)).Fresh := fun hf =>
          State.apply_ne_notFoundHere_of_canCreate (hf.canCreate _) hs
        obtain ⟨b₁, len₁, hsucc, h₁, hd₁, hmove⟩ := h.successor hd
        obtain ⟨res, b', len', hrun, h', hend⟩ := ChainShape.applyChain_walk fuel (d + 1) h₁ hd₁
        refine ⟨res, b', len', Runs.applyChain_succ hs hsucc hrun, h', fun hfuel => ?_⟩
        replace hfuel : len p - d + 1 ≤ fuel + 1 := hfuel.resolve_right fun hf => hnf hf.1
        -- the next bucket is on the old chain, or fresh past its last bucket
        have hbudget : len₁ p - (d + 1) + 1 ≤ fuel ∨
            ((b₁ (x.bucketAt p (d + 1))).Fresh ∧ 1 ≤ fuel) := by
          rcases hmove with ⟨hlt, -, rfl⟩ | ⟨hlast, hfresh⟩
          · exact .inl (by omega)
          · exact .inr ⟨hfresh, by omega⟩
        obtain ⟨hne, hstable⟩ := hend hbudget
        exact ⟨hne, runs_of_succ fun f hf => Runs.applyChain_succ hs hsucc (hstable f hf)⟩

end Update

section Batch

variable {x : Index} {b b₁ b' : String → State} {id : String} {its : List Item} {fuel : Nat}

theorem Runs.applyChainBatch_nil : Runs (x.applyChainBatch (fuel + 1) id []) b (.ok ()) b := by
  rw [Index.applyChainBatch]
  simp only [List.isEmpty_nil, if_true]
  exact Runs.pure _ b

/-- A batch that a bucket takes whole ends there. -/
theorem Runs.applyChainBatch_done {P : BatchPass}
    (hP : its.foldl (batchStep x.desc) ⟨b id, [], [], 0, []⟩ = P) (hne : its ≠ []) (hR : P.rest = []) :
    Runs (x.applyChainBatch (fuel + 1) id its) b (.ok ()) (Function.update b id P.state) := by
  rw [Index.applyChainBatch, if_neg (by simpa using hne)]
  refine Runs.bind (hP ▸ Runs.applyBatchAt x.desc id its b) ?_
  simp only [hR, List.isEmpty_nil, if_true]
  exact Runs.pure _ _

/-- A batch moves from a bucket that passes items on to the bucket after it, with those items. -/
theorem Runs.applyChainBatch_succ {P : BatchPass} {next : String} {res : Except Error Unit}
    (hP : its.foldl (batchStep x.desc) ⟨b id, [], [], 0, []⟩ = P) (hne : its ≠ []) (hR : P.rest ≠ [])
    (hs : Runs (Index.successor id) (Function.update b id P.state) (.ok next) b₁)
    (hrest : Runs (x.applyChainBatch fuel next P.rest) b₁ res b') :
    Runs (x.applyChainBatch (fuel + 1) id its) b res b' := by
  rw [Index.applyChainBatch, if_neg (by simpa using hne)]
  refine Runs.bind (hP ▸ Runs.applyBatchAt x.desc id its b) ?_
  rw [if_neg (by simpa using hR)]
  exact Runs.bind hs hrest

variable (p : Nat)

/-- The walk of a batch from depth `d` of a chain. Every run keeps the chains shaped; a run with
a step for each bucket down to the last and one for each item, or, from a fresh bucket, one for
each item, ends there: with more steps the walk gives the same answer, never the failure of a
chain too long. -/
theorem ChainShape.applyChainBatch_walk : ∀ (fuel d : Nat) (its : List Item) {b : String → State}
    {len : Nat → Nat}, ChainShape x b len → d < len p →
      ∃ res b' len', Runs (x.applyChainBatch fuel (x.bucketAt p d) its) b res b' ∧
        ChainShape x b' len' ∧
        (len p - d + its.length ≤ fuel ∨
            ((b (x.bucketAt p d)).Fresh ∧ its ≠ [] ∧ its.length ≤ fuel) →
          res ≠ .error chainTooLong ∧
            ∀ fuel', fuel ≤ fuel' → Runs (x.applyChainBatch fuel' (x.bucketAt p d) its) b res b')
  | 0, d, its, b, len, h, hd => by
    refine ⟨_, b, len, by rw [Index.applyChainBatch]; exact Runs.throw _ b, h, fun hfuel => ?_⟩
    rcases hfuel with hf | ⟨-, hne, hf⟩
    · omega
    · exact absurd (List.length_eq_zero_iff.1 (by omega)) hne
  | fuel + 1, d, its, b, len, h, hd => by
    by_cases hnil : its = []
    · subst hnil
      exact ⟨_, b, len, Runs.applyChainBatch_nil, h, fun _ =>
        ⟨ok_ne_chainTooLong _, runs_of_succ fun _ _ => Runs.applyChainBatch_nil⟩⟩
    -- the pass through the bucket
    obtain ⟨P, hP⟩ : ∃ P, its.foldl (batchStep x.desc) ⟨b (x.bucketAt p d), [], [], 0, []⟩ = P :=
      ⟨_, rfl⟩
    have hw : ChainShape x (Function.update b (x.bucketAt p d) P.state) len :=
      h.write hd (hP ▸ batch_next its _)
    have hle : P.rest.length ≤ its.length := by
      have := batch_rest_applied (m := x.desc) its ⟨b (x.bucketAt p d), [], [], 0, []⟩
      rw [hP] at this
      simp only [List.length_nil] at this
      omega
    by_cases hR : P.rest = []
    · exact ⟨_, _, len, Runs.applyChainBatch_done hP hnil hR, hw, fun _ =>
        ⟨ok_ne_chainTooLong _, runs_of_succ fun _ _ => Runs.applyChainBatch_done hP hnil hR⟩⟩
    obtain ⟨b₁, len₁, hsucc, h₁, hd₁, hmove⟩ := hw.successor hd
    obtain ⟨res, b', len', hrun, h', hend⟩ := ChainShape.applyChainBatch_walk fuel (d + 1) P.rest h₁ hd₁
    refine ⟨res, b', len', Runs.applyChainBatch_succ hP hnil hR hsucc hrun, h', fun hfuel => ?_⟩
    -- a fresh bucket takes at least the first item before it passes any on
    have hfewer : (b (x.bucketAt p d)).Fresh → P.rest.length < its.length := fun hf =>
      hP ▸ batch_rest_length_lt (hf.canCreate _) its (hP ▸ hR)
    have hbudget : len₁ p - (d + 1) + P.rest.length ≤ fuel ∨
        ((b₁ (x.bucketAt p (d + 1))).Fresh ∧ P.rest ≠ [] ∧ P.rest.length ≤ fuel) := by
      rcases hmove with ⟨hlt, -, rfl⟩ | ⟨hlast, hfresh⟩
      · -- on to a bucket of the old chain: this one was not its last, so it is not fresh
        rcases hfuel with hf | ⟨hfr, -, -⟩
        · exact .inl (by omega)
        · have := h.last_of_fresh hd hfr
          omega
      · -- on to the bucket grown past the last
        rcases hfuel with hf | ⟨hfr, -, hf⟩
        · exact .inr ⟨hfresh, hR, by omega⟩
        · exact .inr ⟨hfresh, hR, by have := hfewer hfr; omega⟩
    obtain ⟨hne, hstable⟩ := hend hbudget
    exact ⟨hne, runs_of_succ fun f hf => Runs.applyChainBatch_succ hP hnil hR hsucc (hstable f hf)⟩

end Batch

/-! ## Walks that read -/

/-- A walk that reads: from the buckets `b`, out of steps it fails as a chain too long; at each
address it either stops, with one answer whatever steps it has left, or passes on to the
successor of the bucket there with one step less. At the empty address it stops. -/
structure ReadWalk {α : Type} (walk : Nat → String → Run Shelf α) (b : String → State) : Prop where
  /-- Out of steps. -/
  zero : ∀ id, Runs (walk 0 id) b (.error chainTooLong) b
  /-- One step. -/
  step : ∀ id, (∃ r, r ≠ .error chainTooLong ∧ ∀ f, Runs (walk (f + 1) id) b r b) ∨
    (id ≠ "" ∧ ∀ f r, Runs (walk f (b id).next) b r b → Runs (walk (f + 1) id) b r b)

namespace ReadWalk

variable {α : Type} {walk : Nat → String → Run Shelf α} {b : String → State}

/-- A walk that reads changes no bucket, whatever its steps. -/
theorem runs (hw : ReadWalk walk b) : ∀ fuel id, ∃ r, Runs (walk fuel id) b r b
  | 0, id => ⟨_, hw.zero id⟩
  | fuel + 1, id => by
    rcases hw.step id with ⟨r, -, hr⟩ | ⟨-, hpass⟩
    · exact ⟨r, hr fuel⟩
    · obtain ⟨r, hr⟩ := hw.runs fuel (b id).next
      exact ⟨r, hpass fuel r hr⟩

/-- A walk that reads, from depth `d` of a chain `n + 1` buckets above its end, ends within
`n + 2` steps. -/
theorem ends_from {x : Index} {len : Nat → Nat} (hw : ReadWalk walk b) (h : ChainShape x b len)
    (p : Nat) : ∀ n d, d + n + 1 = len p →
      ∃ r, r ≠ .error chainTooLong ∧ ∀ fuel, n + 2 ≤ fuel → Runs (walk fuel (x.bucketAt p d)) b r b := by
  intro n
  induction n with
  | zero =>
    intro d hd
    rcases hw.step (x.bucketAt p d) with ⟨r, hne, hr⟩ | ⟨-, hpass⟩
    · exact ⟨r, hne, runs_of_succ fun f _ => hr f⟩
    · -- past the last bucket the walk stops at the empty address
      rw [h.next_of_last hd] at hpass
      rcases hw.step "" with ⟨r, hne, hr⟩ | ⟨hne, -⟩
      · refine ⟨r, hne, fun fuel hf => ?_⟩
        obtain ⟨g, rfl⟩ : ∃ g, fuel = g + 2 := ⟨fuel - 2, by omega⟩
        exact hpass _ r (hr g)
      · exact absurd rfl hne
  | succ n ih =>
    intro d hd
    rcases hw.step (x.bucketAt p d) with ⟨r, hne, hr⟩ | ⟨-, hpass⟩
    · exact ⟨r, hne, runs_of_succ fun f _ => hr f⟩
    · rw [h.link p d (by omega)] at hpass
      obtain ⟨r, hne, hr⟩ := ih (d + 1) (by omega)
      exact ⟨r, hne, runs_of_succ fun f hf => hpass f r (hr f hf)⟩

/-- A walk that reads from the head of a chain of `L` buckets ends within `L + 1` steps. -/
theorem ends {x : Index} {len : Nat → Nat} (hw : ReadWalk walk b) (h : ChainShape x b len)
    (p : Nat) : EndsWithin (fun fuel => walk fuel (headId x.name p)) b (len p + 1) := by
  have hpos := h.pos p
  obtain ⟨r, hne, hr⟩ := hw.ends_from h p (len p - 1) 0 (by omega)
  exact ⟨r, b, hne, fun fuel hf => hr fuel (by omega)⟩

end ReadWalk

section Lookups

variable {x : Index} {b : String → State} (k : Key)

theorem Runs.uniqueFrom_unavailable {id : String} {fuel : Nat} (hid : id ≠ "")
    (hs : (b id).status ≠ .available) :
    Runs (x.uniqueFrom k (fuel + 1) id) b (.error (x.unavailableAs (b id).status)) b := by
  simp only [Index.uniqueFrom, String.isEmpty_iff, hid, if_false]
  refine Runs.bind (Runs.resolve id b) ?_
  simp only [hs, ne_eq, not_false_eq_true, ↓reduceIte]
  exact Runs.bind_error (Runs.throw _ b)

theorem readWalk_visibleFrom : ReadWalk (x.visibleFrom k) b where
  zero id := by rw [Index.visibleFrom]; exact Runs.throw _ b
  step id := by
    by_cases hid : id = ""
    · exact .inl ⟨.ok [], ok_ne_chainTooLong _, fun f => hid ▸ Runs.visibleFrom_end⟩
    by_cases hs : (b id).status = .available
    · cases hf : ((b id).lookup k).found
      · exact .inr ⟨hid, fun f r hr => Runs.visibleFrom_pass hid hs hf hr⟩
      · exact .inl ⟨.ok ((b id).lookup k).values, ok_ne_chainTooLong _, fun f => Runs.visibleFrom_found hid hs hf⟩
    · exact .inl ⟨_, fun he => chainTooLong_ne_unavailableAs _ (Except.error.inj he).symm,
        fun f => Runs.visibleFrom_unavailable hid hs⟩

/-- A unique lookup answers from a bucket that holds the key with its entity, or fails as an
integrity failure; never as a chain too long. -/
theorem uniqueAnswer_ne_chainTooLong (sight : State.Sight) :
    x.uniqueAnswer k sight ≠ .error chainTooLong := by
  unfold Index.uniqueAnswer
  split <;> simp [chainTooLong, Error.other]

theorem readWalk_uniqueFrom : ReadWalk (x.uniqueFrom k) b where
  zero id := by rw [Index.uniqueFrom]; exact Runs.throw _ b
  step id := by
    by_cases hid : id = ""
    · exact .inl ⟨_, by simp [chainTooLong, Error.other], fun f => hid ▸ Runs.uniqueFrom_end⟩
    by_cases hs : (b id).status = .available
    · cases hf : ((b id).lookup k).found
      · exact .inr ⟨hid, fun f r hr => Runs.uniqueFrom_pass hid hs hf hr⟩
      · exact .inl ⟨_, uniqueAnswer_ne_chainTooLong k _, fun f => Runs.uniqueFrom_found hid hs hf⟩
    · exact .inl ⟨_, fun he => chainTooLong_ne_unavailableAs _ (Except.error.inj he).symm,
        fun f => Runs.uniqueFrom_unavailable k hid hs⟩

end Lookups

/-! ## Walks over every bucket -/

/-- A visit of a walk over the buckets: it writes at most the bucket it visits, keeping its
link, and goes through. -/
def Visit (f : String → Run Shelf Unit) : Prop :=
  ∀ id b, ∃ s : State, s.next = (b id).next ∧ Runs (f id) b (.ok ()) (Function.update b id s)

theorem visit_pure : Visit fun _ => pure () := fun id b =>
  ⟨b id, rfl, by rw [Function.update_eq_self]; exact Runs.pure _ b⟩

theorem visit_setStatusAt (st : Status) : Visit fun id => setStatusAt id st := by
  intro id b
  by_cases hs : (b id).status = st
  · refine ⟨b id, rfl, ?_⟩
    rw [Function.update_eq_self]
    refine Runs.bind (Runs.resolve id b) ?_
    simp only [hs, if_true]
    exact Runs.pure _ _
  · exact ⟨_, State.setStatus_next st, Runs.setStatusAt_of_ne id st hs⟩

section Visits

variable {x : Index} {f : String → Run Shelf Unit} {b b' : String → State} {id : String}
  {len : Nat → Nat}

theorem Runs.walkFrom_zero (id : String) (b : String → State) :
    Runs (Index.walkFrom f 0 id) b (.error chainTooLong) b := by
  rw [Index.walkFrom]
  exact Runs.throw _ b

/-- A walk over the buckets visits a bucket, goes on from its successor, and counts the bucket. -/
theorem Runs.walkFrom_visit {s : State} {fuel : Nat} {res : Except Error Nat} (hid : id ≠ "")
    (hs : s.next = (b id).next) (hf : Runs (f id) b (.ok ()) (Function.update b id s))
    (hrest : Runs (Index.walkFrom f fuel (b id).next) (Function.update b id s) res b') :
    Runs (Index.walkFrom f (fuel + 1) id) b ((· + 1) <$> res) b' := by
  rw [Index.walkFrom, if_neg (by simpa using hid)]
  refine Runs.bind (Runs.resolve id b) (Runs.bind hf (Runs.bind (Runs.resolve id _) ?_))
  rw [Function.update_self, hs]
  cases res with
  | error e => exact Runs.bind_error hrest
  | ok n => exact Runs.bind hrest (Runs.pure _ _)

variable (p : Nat)

/-- The walk over the buckets of a chain from depth `d`, with a visit that keeps the links. Every
run keeps the chains shaped; a run with a step for each bucket down to the last and one more
visits them all, counts them, and ends: with more steps the walk gives the same answer. -/
theorem ChainShape.walkFrom_walk (hf : Visit f) : ∀ (fuel d : Nat) {b : String → State},
    ChainShape x b len → d < len p →
      ∃ res b', Runs (Index.walkFrom f fuel (x.bucketAt p d)) b res b' ∧ ChainShape x b' len ∧
        (len p - d + 1 ≤ fuel → res = .ok (len p - d) ∧
          ∀ fuel', fuel ≤ fuel' → Runs (Index.walkFrom f fuel' (x.bucketAt p d)) b res b')
  | 0, d, b, h, hd => ⟨_, b, Runs.walkFrom_zero _ b, h, by omega⟩
  | fuel + 1, d, b, h, hd => by
    have hid := Index.bucketAt_ne_empty x p d
    obtain ⟨s, hs, hvisit⟩ := hf (x.bucketAt p d) b
    have hw := h.write hd hs
    by_cases hlast : d + 1 = len p
    · -- past the last bucket the walk stops at the empty address
      have hn := h.next_of_last hlast
      cases fuel with
      | zero =>
        exact ⟨_, _, Runs.walkFrom_visit hid hs hvisit (hn ▸ Runs.walkFrom_zero "" _), hw,
          by omega⟩
      | succ g =>
        have hend : ∀ g : Nat, Runs (Index.walkFrom f (g + 1 + 1) (x.bucketAt p d)) b (.ok 1)
            (Function.update b (x.bucketAt p d) s) := fun g =>
          Runs.walkFrom_visit hid hs hvisit (hn ▸ Runs.walkFrom_end f g _)
        exact ⟨_, _, hend g, hw, fun _ => ⟨by rw [← hlast]; simp,
          runs_of_succ fun g' hg' => by
            obtain ⟨g'', rfl⟩ : ∃ g'', g' = g'' + 1 := ⟨g' - 1, by omega⟩
            exact hend g''⟩⟩
    · have hl := h.link p d (by omega)
      obtain ⟨res, b', hrun, h', hend⟩ := ChainShape.walkFrom_walk hf fuel (d + 1) hw (by omega)
      refine ⟨_, b', Runs.walkFrom_visit hid hs hvisit (hl ▸ hrun), h', fun hfuel => ?_⟩
      obtain ⟨rfl, hstable⟩ := hend (by omega)
      exact ⟨by simp only [Functor.map, Except.map]; congr 1; omega,
        runs_of_succ fun g hg => Runs.walkFrom_visit hid hs hvisit (hl ▸ hstable g hg)⟩

end Visits

/-! ## Calls of an index keep the chains shaped -/

/-- A program that keeps the chains of index `x` shaped: from shaped buckets it leaves shaped
buckets. -/
def KeepsShape (x : Index) {α : Type} (m : Run Shelf α) : Prop :=
  ∀ b len, ChainShape x b len → ∃ r b' len', Runs m b r b' ∧ ChainShape x b' len'

namespace KeepsShape

variable {x : Index} {α β : Type}

theorem pure (a : α) : KeepsShape x (Pure.pure a : Run Shelf α) :=
  fun b len h => ⟨_, b, len, Runs.pure a b, h⟩

theorem throw (e : Error) : KeepsShape x (MonadExcept.throw e : Run Shelf α) :=
  fun b len h => ⟨_, b, len, Runs.throw e b, h⟩

/-- A program that changes no bucket keeps the chains shaped. -/
theorem of_reads {m : Run Shelf α} (hm : ∀ b, ∃ r, Runs m b r b) : KeepsShape x m :=
  fun b len h => let ⟨r, hr⟩ := hm b; ⟨r, b, len, hr, h⟩

theorem bind {m : Run Shelf α} {f : α → Run Shelf β} (hm : KeepsShape x m)
    (hf : ∀ a, KeepsShape x (f a)) : KeepsShape x (m >>= f) := by
  intro b len h
  obtain ⟨r, b₁, len₁, hr, h₁⟩ := hm b len h
  cases r with
  | error e => exact ⟨_, b₁, len₁, Runs.bind_error hr, h₁⟩
  | ok a =>
    obtain ⟨r', b', len', hr', h'⟩ := hf a b₁ len₁ h₁
    exact ⟨r', b', len', Runs.bind hr hr', h'⟩

theorem attempt {m : Run Shelf α} (hm : KeepsShape x m) : KeepsShape x (Run.attempt m) := by
  intro b len h
  obtain ⟨r, b', len', hr, h'⟩ := hm b len h
  exact ⟨_, b', len', Runs.attempt hr, h'⟩

theorem closed : Run.Closed fun _ (m : Run Shelf _) => KeepsShape x m := ⟨pure, bind, attempt⟩

/-- Run from a clean shelf with shaped chains, a program that keeps the chains shaped leaves a
clean shelf with shaped chains. -/
theorem exec {m : Run Shelf α} (hm : KeepsShape x m) {w : Shelf}
    (h : Clean w ∧ ∃ len, ChainShape x (view w) len) :
    Clean (m.exec w).2 ∧ ∃ len', ChainShape x (view (m.exec w).2) len' := by
  obtain ⟨hc, len, hs⟩ := h
  obtain ⟨r, b', len', hr, h'⟩ := hm _ len hs
  obtain ⟨w', hx, hc', hv⟩ := hr w hc rfl
  rw [hx]
  exact ⟨hc', len', hv ▸ h'⟩

end KeepsShape

section Calls

variable (x : Index)

theorem keepsShape_applyChain (r : EntityRef) (u : IndexUpdate) (fuel p : Nat) :
    KeepsShape x (x.applyChain r u fuel (headId x.name p)) := fun _ _ h =>
  let ⟨res, b', len', hrun, h', _⟩ := h.applyChain_walk r u p fuel 0 (h.pos p)
  ⟨res, b', len', hrun, h'⟩

theorem keepsShape_applyChainBatch (fuel p : Nat) (items : List Item) :
    KeepsShape x (x.applyChainBatch fuel (headId x.name p) items) := fun _ _ h =>
  let ⟨res, b', len', hrun, h', _⟩ := h.applyChainBatch_walk p fuel 0 items (h.pos p)
  ⟨res, b', len', hrun, h'⟩

theorem keepsShape_walkFrom {f : String → Run Shelf Unit} (hf : Visit f) (fuel p : Nat) :
    KeepsShape x (Index.walkFrom f fuel (headId x.name p)) := fun _ len h =>
  let ⟨res, b', hrun, h', _⟩ := h.walkFrom_walk p hf fuel 0 (h.pos p)
  ⟨res, b', len, hrun, h'⟩

theorem keepsShape_walk {f : String → Run Shelf Unit} (hf : Visit f) :
    KeepsShape x (x.walk f) :=
  KeepsShape.closed.foldlM (fun _ p => (keepsShape_walkFrom x hf _ p).bind fun _ => KeepsShape.pure _) _ _

theorem Runs.headsAvailable (b : String → State) :
    ∀ ps : List Nat, ∃ r, Runs (x.headsAvailable ps) b r b
  | [] => ⟨_, Runs.pure _ b⟩
  | p :: ps => by
    by_cases hs : (b (headId x.name p)).status = .available
    · obtain ⟨r, hr⟩ := Runs.headsAvailable b ps
      refine ⟨r, Runs.bind (Runs.resolve _ b) ?_⟩
      simpa only [hs, ne_eq, not_true_eq_false, if_false] using hr
    · refine ⟨.ok false, Runs.bind (Runs.resolve _ b) ?_⟩
      simp only [hs, ne_eq, not_false_eq_true, if_true]
      exact Runs.pure _ b

/-- Every call of an index keeps its chains shaped. -/
theorem keepsShape_calls :
    (∀ r u, KeepsShape x (x.apply r u : Run Shelf Unit)) ∧
      (∀ items, KeepsShape x (x.applyBatch items : Run Shelf Unit)) ∧
      (∀ k, KeepsShape x (x.visible k : Run Shelf (List EntityRef))) ∧
      (∀ k, KeepsShape x (x.lookupUnique k : Run Shelf EntityRef)) ∧
      KeepsShape x (x.isAvailable : Run Shelf Bool) ∧
      (∀ st, KeepsShape x (x.setStatus st : Run Shelf Unit)) ∧
      KeepsShape x (x.count : Run Shelf Nat) := by
  refine ⟨fun r u => KeepsShape.closed.forM _ fun _ => keepsShape_applyChain x r _ _ _, fun items => ?_,
    fun k => KeepsShape.of_reads fun b => readWalk_visibleFrom k |>.runs _ _,
    fun k => KeepsShape.of_reads fun b => readWalk_uniqueFrom k |>.runs _ _,
    KeepsShape.of_reads fun b => Runs.headsAvailable x b _,
    fun st => (keepsShape_walk x (visit_setStatusAt st)).bind fun _ => KeepsShape.pure _,
    keepsShape_walk x visit_pure⟩
  refine (KeepsShape.closed.attemptAll fun m hm => ?_).bind fun errs => ?_
  · obtain ⟨g, -, rfl⟩ := List.mem_map.1 hm
    exact keepsShape_applyChainBatch x _ _ _
  · split
    · exact KeepsShape.throw _
    · exact KeepsShape.pure _

end Calls

/-! ## Every walk ends -/

/-- Shelves that calls of index `x` reach from the empty shelf, one call after another, each
from where the last left the shelf, whether it failed or not. -/
inductive Index.Reached (x : Index) : Shelf → Prop
  | empty : x.Reached {}
  | apply {w : Shelf} (r : EntityRef) (u : IndexUpdate) :
      x.Reached w → x.Reached ((x.apply r u).exec w).2
  | applyBatch {w : Shelf} (items : List Item) :
      x.Reached w → x.Reached ((x.applyBatch items).exec w).2
  | visible {w : Shelf} (k : Key) : x.Reached w → x.Reached ((x.visible k).exec w).2
  | lookupUnique {w : Shelf} (k : Key) : x.Reached w → x.Reached ((x.lookupUnique k).exec w).2
  | isAvailable {w : Shelf} : x.Reached w → x.Reached (x.isAvailable.exec w).2
  | setStatus {w : Shelf} (st : Status) : x.Reached w → x.Reached ((x.setStatus st).exec w).2
  | count {w : Shelf} : x.Reached w → x.Reached (x.count.exec w).2

/-- A shelf that calls of an index reach is clean, and its chains are shaped. -/
theorem Index.Reached.shaped {x : Index} {w : Shelf} (h : x.Reached w) :
    Clean w ∧ ∃ len, ChainShape x (view w) len := by
  obtain ⟨happly, hbatch, hvisible, hunique, havailable, hstatus, hcount⟩ := keepsShape_calls x
  induction h with
  | empty => exact ⟨clean_empty, _, ChainShape.empty x⟩
  | apply r u _ ih => exact (happly r u).exec ih
  | applyBatch items _ ih => exact (hbatch items).exec ih
  | visible k _ ih => exact (hvisible k).exec ih
  | lookupUnique k _ ih => exact (hunique k).exec ih
  | isAvailable _ ih => exact havailable.exec ih
  | setStatus st _ ih => exact (hstatus st).exec ih
  | count _ ih => exact hcount.exec ih

/-- Every walk of index `x` from the head of a chain, over buckets `b` whose chain of partition
`p` is `len p` buckets long, ends within its bound: an update within `len p + 1` steps, a batch
of `n` items within `len p + n`, a lookup within `len p + 1`; and a walk over the buckets, with
any visit that keeps their links, counts the `len p` buckets in `len p + 1` steps. -/
structure WalksEnd (x : Index) (b : String → State) (len : Nat → Nat) : Prop where
  /-- The walk of an update. -/
  update : ∀ p r u, EndsWithin (fun n => x.applyChain r u n (headId x.name p)) b (len p + 1)
  /-- The walk of a batch. -/
  batch : ∀ p items,
    EndsWithin (fun n => x.applyChainBatch n (headId x.name p) items) b (len p + items.length)
  /-- A lookup. -/
  visible : ∀ p k, EndsWithin (fun n => x.visibleFrom k n (headId x.name p)) b (len p + 1)
  /-- A unique lookup. -/
  unique : ∀ p k, EndsWithin (fun n => x.uniqueFrom k n (headId x.name p)) b (len p + 1)
  /-- A walk over the buckets. -/
  visits : ∀ p f, Visit f → ∃ b', ∀ n, len p + 1 ≤ n →
    Runs (Index.walkFrom f n (headId x.name p)) b (.ok (len p)) b'

/-- On shaped chains every walk ends within its bound. -/
theorem ChainShape.walksEnd {x : Index} {b : String → State} {len : Nat → Nat}
    (h : ChainShape x b len) : WalksEnd x b len where
  update p r u := by
    obtain ⟨res, b', -, hrun, -, hend⟩ := h.applyChain_walk r u p (len p + 1) 0 (h.pos p)
    obtain ⟨hne, hstable⟩ := hend (.inl (by omega))
    exact ⟨res, b', hne, hstable⟩
  batch p items := by
    obtain ⟨res, b', -, hrun, -, hend⟩ :=
      h.applyChainBatch_walk p (len p + items.length) 0 items (h.pos p)
    obtain ⟨hne, hstable⟩ := hend (.inl (by omega))
    exact ⟨res, b', hne, hstable⟩
  visible p k := (readWalk_visibleFrom k).ends h p
  unique p k := (readWalk_uniqueFrom k).ends h p
  visits p f hf := by
    obtain ⟨res, b', -, -, hend⟩ := h.walkFrom_walk p hf (len p + 1) 0 (h.pos p)
    obtain ⟨rfl, hstable⟩ := hend (by omega)
    exact ⟨b', hstable⟩

/-- On every shelf that calls of an index reach from the empty shelf, the chains are shaped and
every walk along a chain of `L` buckets ends: an update within `L + 1` bucket steps, a batch of
`n` items within `L + n`, a lookup within `L + 1`, and a walk over the buckets after visiting its
`L` buckets. -/
theorem chain_walks_end_within_bounds {x : Index} {w : Shelf} (h : x.Reached w) :
    Clean w ∧ ∃ len, ChainShape x (view w) len ∧ WalksEnd x (view w) len := by
  obtain ⟨hc, len, hs⟩ := h.shaped
  exact ⟨hc, len, hs, hs.walksEnd⟩

/-- After an insert into an index of one key a bucket, every walk ends within its bound. -/
theorem walks_end_after_an_insert :
    oneKeyBuckets.Reached ((oneKeyBuckets.apply ⟨"player", "a"⟩ insertX).exec {}).2 ∧
      Clean ((oneKeyBuckets.apply ⟨"player", "a"⟩ insertX).exec {}).2 ∧
      ∃ len, ChainShape oneKeyBuckets (view ((oneKeyBuckets.apply ⟨"player", "a"⟩ insertX).exec {}).2)
          len ∧
        WalksEnd oneKeyBuckets (view ((oneKeyBuckets.apply ⟨"player", "a"⟩ insertX).exec {}).2) len :=
  ⟨.apply _ _ .empty, chain_walks_end_within_bounds (.apply _ _ .empty)⟩

end EntityIndex.Bucket
