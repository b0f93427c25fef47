import EntityIndex.Proofs.Bucket.Flat

/-!
# An index touches only its own buckets

The indexes of a coordinator share one shelf. The buckets of index `x` are the addresses
`x.bucketAt p d`, and indexes with different names have no address in common
(`Index.bucketAt_name`). A call of `x` reads and writes only `x`'s buckets, as long as each of
them links to the next bucket of its own chain or to none (`Index.LinksInside`).

`x.LocalRuns m b r b'` says so of a program: from every map of buckets that agrees with `b` on
`x`'s buckets, `m` returns `r` and puts `b'`'s buckets of `x` in place, leaving every other address
alone. Each step of a walk does so, and so does every call of an index (`Index.apply_local`); on
the way a call writes the entry of each key in at most one bucket.

`x.restrict b` is the buckets of `x` alone. What is proved of one index on its own shelf
(`Refines`, `Follows`) holds of its restriction, and through `LocalRuns` of a shelf that it shares
with other indexes (`Follows.local`).
-/

namespace EntityIndex.Bucket

open EntityIndex.Bucket.Shelf

/-! ## Addresses of different indexes -/

theorem steps_succ (d : Nat) :
    (List.replicate (d + 1) "/next".toList).flatten =
      (List.replicate d "/next".toList).flatten ++ "/next".toList := by
  simp [List.replicate_succ']

/-- Text that ends in a digit, followed by `/next` steps: the text and the number of steps are
both determined. -/
theorem append_steps_inj {A A' : List Char} (hA : ∀ c ∈ A.getLast?, c.isDigit = true)
    (hA' : ∀ c ∈ A'.getLast?, c.isDigit = true) :
    ∀ {d d' : Nat}, A ++ (List.replicate d "/next".toList).flatten =
      A' ++ (List.replicate d' "/next".toList).flatten → A = A' ∧ d = d'
  | 0, 0, h => by simpa using h
  | 0, d' + 1, h => by
    rw [steps_succ, ← List.append_assoc, List.replicate_zero, List.flatten_nil,
      List.append_nil] at h
    have := hA 't' (by rw [h]; simp)
    simp at this
  | d + 1, 0, h => by
    rw [steps_succ, ← List.append_assoc, List.replicate_zero, List.flatten_nil,
      List.append_nil] at h
    have := hA' 't' (by rw [← h]; simp)
    simp at this
  | d + 1, d' + 1, h => by
    rw [steps_succ, steps_succ, ← List.append_assoc, ← List.append_assoc] at h
    obtain ⟨rfl, rfl⟩ := append_steps_inj hA hA' (List.append_cancel_right h)
    exact ⟨rfl, rfl⟩

theorem getLast?_append_toDigits (pre : List Char) (p : Nat) :
    ∀ c ∈ (pre ++ Nat.toDigits 10 p).getLast?, c.isDigit = true := by
  intro c hc
  rw [List.getLast?_append_of_ne_nil _ (Nat.toDigits_ne_nil)] at hc
  exact Nat.isDigit_of_mem_toDigits (by decide) (by decide) (List.mem_of_getLast? hc)

/-- Buckets of indexes with different names have different addresses: read from the right, an
address is its `/next` steps, the digits of its partition and a slash, and then the index name. -/
theorem Index.bucketAt_name {x y : Index} {p p' d d' : Nat}
    (h : x.bucketAt p d = y.bucketAt p' d') : x.name = y.name := by
  have hl := congrArg String.toList h
  rw [toList_bucketAt, toList_bucketAt] at hl
  obtain ⟨hpre, -⟩ := append_steps_inj (getLast?_append_toDigits _ p)
    (getLast?_append_toDigits _ p') hl
  have hrev := congrArg List.reverse hpre
  simp only [List.reverse_append] at hrev
  have hdig : (Nat.toDigits 10 p).reverse = (Nat.toDigits 10 p').reverse :=
    digits_eq_of_append_eq
      (fun c hc => Nat.isDigit_of_mem_toDigits (by decide) (by decide) (List.mem_reverse.1 hc))
      (fun c hc => Nat.isDigit_of_mem_toDigits (by decide) (by decide) (List.mem_reverse.1 hc))
      (by simp) (by simp) hrev
  rw [hdig] at hrev
  have hname := List.reverse_injective (List.append_cancel_left hrev)
  simp only [String.toList_append, List.append_assoc, List.append_cancel_left_eq,
    List.append_cancel_right_eq] at hname
  exact String.toList_inj.1 hname

/-! ## The buckets of one index -/

namespace Index

/-- Whether an address is a bucket of index `x`. -/
def Owns (x : Index) (id : String) : Prop := ∃ p d, id = x.bucketAt p d

theorem owns_bucketAt (x : Index) (p d : Nat) : x.Owns (x.bucketAt p d) := ⟨p, d, rfl⟩

/-- Indexes with different names own no address in common. -/
theorem Owns.name_eq {x y : Index} {id : String} (hx : x.Owns id) (hy : y.Owns id) :
    x.name = y.name := by
  obtain ⟨p, d, rfl⟩ := hx
  obtain ⟨p', d', h⟩ := hy
  exact Index.bucketAt_name h

/-- Two maps agree on the buckets of index `x`. -/
def Agree (x : Index) (b c : String → State) : Prop := ∀ id, x.Owns id → b id = c id

open Classical in
/-- The map `c` with the buckets of index `x` taken from `b`. -/
noncomputable def graft (x : Index) (c b : String → State) : String → State :=
  fun id => if x.Owns id then b id else c id

/-- The buckets of index `x` alone; every other address reads as an empty bucket. -/
noncomputable def restrict (x : Index) (b : String → State) : String → State :=
  x.graft (fun _ => {}) b

/-- Each bucket of index `x` links to the next bucket of its own chain, or to none. -/
def LinksInside (x : Index) (b : String → State) : Prop :=
  ∀ p d, (b (x.bucketAt p d)).next = "" ∨ (b (x.bucketAt p d)).next = x.bucketAt p (d + 1)

section Graft

variable {x y : Index} {b b' b₁ b₂ c : String → State} {id : String}

theorem graft_of_owns (h : x.Owns id) (c b : String → State) : x.graft c b id = b id := by
  simp [graft, h]

theorem graft_of_not_owns (h : ¬ x.Owns id) (c b : String → State) : x.graft c b id = c id := by
  simp [graft, h]

theorem agree_graft (c b : String → State) : x.Agree b (x.graft c b) :=
  fun _ h => (graft_of_owns h c b).symm

theorem Agree.symm (h : x.Agree b c) : x.Agree c b := fun id hid => (h id hid).symm

theorem Agree.trans (h : x.Agree b b₁) (h' : x.Agree b₁ c) : x.Agree b c :=
  fun id hid => (h id hid).trans (h' id hid)

theorem graft_eq_of_agree (h : x.Agree b c) : x.graft c b = c := by
  funext id
  by_cases hid : x.Owns id
  · rw [graft_of_owns hid, h id hid]
  · rw [graft_of_not_owns hid]

/-- A map that differs from `b` only on the buckets of `x` is `b` with those buckets grafted. -/
theorem graft_eq_of_frame (h : ∀ id, ¬ x.Owns id → b' id = b id) : x.graft b b' = b' := by
  funext id
  by_cases hid : x.Owns id
  · rw [graft_of_owns hid]
  · rw [graft_of_not_owns hid, h id hid]

@[simp]
theorem graft_graft : x.graft (x.graft c b₁) b₂ = x.graft c b₂ := by
  funext id
  by_cases hid : x.Owns id <;> simp [graft, hid]

theorem graft_update (hid : x.Owns id) (h : x.Agree b c) (s : State) :
    x.graft c (Function.update b id s) = Function.update c id s := by
  funext j
  by_cases hj : x.Owns j
  · rw [graft_of_owns hj]
    by_cases hji : j = id
    · subst hji
      simp
    · simp [hji, h j hj]
  · have hji : j ≠ id := fun h' => hj (h' ▸ hid)
    simp [graft_of_not_owns hj, hji]

theorem agree_restrict (b : String → State) : x.Agree b (x.restrict b) := agree_graft _ b

theorem restrict_congr (h : x.Agree b c) : x.restrict b = x.restrict c := by
  funext id
  by_cases hid : x.Owns id
  · simp only [restrict, graft_of_owns hid, h id hid]
  · simp only [restrict, graft_of_not_owns hid]

theorem LinksInside.congr (hL : x.LinksInside b) (h : x.Agree b c) : x.LinksInside c := by
  intro p d
  rw [← h _ (owns_bucketAt x p d)]
  exact hL p d

/-- Writing a bucket of `x` with the link it had keeps every link inside its chain. -/
theorem LinksInside.update (hL : x.LinksInside b) {s : State} (hs : s.next = (b id).next) :
    x.LinksInside (Function.update b id s) := by
  intro p d
  by_cases hid : x.bucketAt p d = id
  · subst hid
    rw [Function.update_self, hs]
    exact hL p d
  · rw [Function.update_of_ne hid]
    exact hL p d

end Graft

/-! ## Programs that touch only the buckets of one index -/

/-- From every map that agrees with `b` on the buckets of `x`, `m` returns `r` and puts `b'`'s
buckets of `x` in place of the old ones; `b'` itself differs from `b` on those buckets only. -/
def LocalRuns {α : Type} (x : Index) (m : Run Shelf α) (b : String → State)
    (r : Except Error α) (b' : String → State) : Prop :=
  (∀ id, ¬ x.Owns id → b' id = b id) ∧ ∀ c, x.Agree b c → Runs m c r (x.graft c b')

namespace LocalRuns

variable {x : Index} {α β : Type} {b b₁ b₂ : String → State} {id : String}

theorem runs {m : Run Shelf α} {r : Except Error α} (h : x.LocalRuns m b r b₁) :
    Runs m b r b₁ := by
  have hr := h.2 b fun _ _ => rfl
  rwa [graft_eq_of_frame h.1] at hr

theorem pure (a : α) (b : String → State) : x.LocalRuns (Pure.pure a) b (.ok a) b :=
  ⟨fun _ _ => rfl, fun c hc => by
    rw [graft_eq_of_agree hc]
    exact Runs.pure a c⟩

theorem throw (e : Error) (b : String → State) :
    x.LocalRuns (MonadExcept.throw e : Run Shelf α) b (.error e) b :=
  ⟨fun _ _ => rfl, fun c hc => by
    rw [graft_eq_of_agree hc]
    exact Runs.throw e c⟩

theorem bind {m : Run Shelf α} {f : α → Run Shelf β} {a : α} {r : Except Error β}
    (h : x.LocalRuns m b (.ok a) b₁) (hf : x.LocalRuns (f a) b₁ r b₂) :
    x.LocalRuns (m >>= f) b r b₂ := by
  refine ⟨fun id hid => (hf.1 id hid).trans (h.1 id hid), fun c hc => ?_⟩
  have h₂ := hf.2 (x.graft c b₁) (agree_graft c b₁)
  rw [graft_graft] at h₂
  exact Runs.bind (h.2 c hc) h₂

theorem bind_error {m : Run Shelf α} {f : α → Run Shelf β} {e : Error}
    (h : x.LocalRuns m b (.error e) b₁) : x.LocalRuns (m >>= f) b (.error e) b₁ :=
  ⟨h.1, fun c hc => Runs.bind_error (h.2 c hc)⟩

theorem resolve (hid : x.Owns id) (b : String → State) :
    x.LocalRuns (resolve id) b (.ok (b id)) b :=
  ⟨fun _ _ => rfl, fun c hc => by
    rw [graft_eq_of_agree hc, hc id hid]
    exact Runs.resolve id c⟩

theorem commit (hid : x.Owns id) (s : State) (b : String → State) :
    x.LocalRuns (commit id s) b (.ok ()) (Function.update b id s) :=
  ⟨fun j hj => Function.update_of_ne (fun h : j = id => hj (h ▸ hid)) _ _, fun c hc => by
    rw [graft_update hid hc]
    exact Runs.commit id s c⟩

theorem grew (b : String → State) : x.LocalRuns (modify Host.grew) b (.ok ()) b :=
  ⟨fun _ _ => rfl, fun c hc => by
    rw [graft_eq_of_agree hc]
    exact Runs.grew c⟩

/-- A program that touches only the buckets of `x` runs alike from the buckets of `x` alone. -/
theorem restrict {m : Run Shelf α} {r : Except Error α} (h : x.LocalRuns m b r b₁) :
    x.LocalRuns m (x.restrict b) r (x.restrict b₁) := by
  refine ⟨fun id hid => by simp only [Index.restrict, graft_of_not_owns hid], fun c hc => ?_⟩
  have hg : x.graft c (x.restrict b₁) = x.graft c b₁ := by
    funext id
    by_cases hid : x.Owns id <;> simp [Index.restrict, graft, hid]
  rw [hg]
  exact h.2 c ((agree_restrict b).trans hc)

/-! ## The steps of a walk -/

section Steps

variable {x : Index} {b b₁ b' : String → State} {id : String} {m : IndexMeta} {r : EntityRef}
  {u : IndexUpdate}

theorem applyAt_error (hid : x.Owns id) {e : Error} (h : (b id).apply r u m.unique m = .error e) :
    x.LocalRuns (applyAt m id r u) b (.error e) b := by
  refine bind (resolve hid b) ?_
  simp only [h]
  exact throw e b

theorem applyAt_notFoundHere (hid : x.Owns id) {s' : State}
    (h : (b id).apply r u m.unique m = .ok (.notFoundHere, s')) :
    x.LocalRuns (applyAt m id r u) b (.ok .notFoundHere) b := by
  refine bind (resolve hid b) ?_
  simp only [h]
  exact pure _ b

theorem applyAt_applied (hid : x.Owns id) {s' : State}
    (h : (b id).apply r u m.unique m = .ok (.applied, s')) :
    x.LocalRuns (applyAt m id r u) b (.ok .applied) (Function.update b id s') := by
  refine bind (resolve hid b) ?_
  simp only [h]
  exact bind (commit hid s' b) (pure _ _)

theorem grow_linked (hid : x.Owns id) (h : (b id).next ≠ "") :
    x.LocalRuns (grow id) b (.ok ((b id).next, false)) b := by
  refine bind (resolve hid b) ?_
  simp only [String.isEmpty_iff, h, if_false]
  exact pure _ b

theorem grow_tail (hid : x.Owns id) (h : (b id).next = "") :
    x.LocalRuns (grow id) b (.ok (nextId id, true))
      (Function.update b id { b id with next := nextId id }) := by
  refine bind (resolve hid b) ?_
  simp only [String.isEmpty_iff, h, if_true]
  exact bind (commit hid _ b) (pure _ _)

/-- Setting a status other than available changes no entry and no link. -/
theorem setStatusAt (hid : x.Owns id) {st : Status} (hst : st ≠ .available) :
    ∃ b', x.LocalRuns (setStatusAt id st) b (.ok ()) b' ∧
      ∀ j, (b' j).entries = (b j).entries ∧ (b' j).next = (b j).next := by
  by_cases hs : (b id).status = st
  · refine ⟨b, bind (resolve hid b) ?_, fun _ => ⟨rfl, rfl⟩⟩
    simp only [hs, if_true]
    exact pure _ b
  · refine ⟨Function.update b id ((b id).setStatus st).2, bind (resolve hid b) ?_, fun j => ?_⟩
    · simp only [hs, if_false]
      exact commit hid _ b
    · by_cases hj : j = id
      · subst hj
        simp [State.setStatus, hst]
      · simp [hj]

/-- On chains that link inside the index, the successor of a bucket is the next bucket of its
chain. Finding it, and growing it at the tail, changes no entry and keeps the links inside. -/
theorem successor (hL : x.LinksInside b) (p d : Nat) :
    ∃ b', x.LocalRuns (Index.successor (x.bucketAt p d)) b (.ok (x.bucketAt p (d + 1))) b' ∧
      x.LinksInside b' ∧ ∀ j, (b' j).entries = (b j).entries := by
  have hid := owns_bucketAt x p d
  rcases hL p d with hn | hn
  · -- the tail links a successor, which then takes the tail's status
    have hg := grow_tail hid hn
    rw [nextId_bucketAt] at hg
    generalize hb₁ : Function.update b (x.bucketAt p d)
      { b (x.bucketAt p d) with next := x.bucketAt p (d + 1) } = b₁ at hg
    have hL₁ : x.LinksInside b₁ := by
      intro p' d'
      rw [← hb₁]
      by_cases hj : x.bucketAt p' d' = x.bucketAt p d
      · obtain ⟨rfl, rfl⟩ := Index.bucketAt_inj.1 hj
        simp
      · rw [Function.update_of_ne hj]
        exact hL p' d'
    have hent₁ : ∀ j, (b₁ j).entries = (b j).entries := by
      intro j
      rw [← hb₁]
      by_cases hj : j = x.bucketAt p d
      · subst hj
        simp
      · simp [hj]
    have hst : (b₁ (x.bucketAt p d)).status = (b (x.bucketAt p d)).status := by simp [← hb₁]
    by_cases hs : (b (x.bucketAt p d)).status = .available
    · refine ⟨b₁, bind hg ?_, hL₁, hent₁⟩
      simp only [if_true]
      refine bind (grew _) (bind (resolve hid _) ?_)
      simp only [hst, hs, ne_eq, not_true_eq_false, if_false]
      exact bind (pure _ _) (pure _ _)
    · obtain ⟨b', hb', hkeep⟩ := setStatusAt (b := b₁) (owns_bucketAt x p (d + 1)) hs
      refine ⟨b', bind hg ?_, fun p' d' => ?_, fun j => ?_⟩
      · simp only [if_true]
        refine bind (grew _) (bind (resolve hid _) ?_)
        simp only [hst, hs, ne_eq, not_false_eq_true, if_true]
        exact bind hb' (pure _ _)
      · rw [(hkeep _).2]
        exact hL₁ p' d'
      · rw [(hkeep j).1, hent₁ j]
  · have hne : (b (x.bucketAt p d)).next ≠ "" := by
      rw [hn]
      exact Index.bucketAt_ne_empty x p (d + 1)
    have hg := grow_linked hid hne
    rw [hn] at hg
    refine ⟨b, bind hg ?_, hL, fun _ => rfl⟩
    simp only [Bool.false_eq_true, if_false]
    exact pure _ b

theorem applyChain_error (hid : x.Owns id) {fuel : Nat} {e : Error}
    (h : (b id).apply r u x.desc.unique x.desc = .error e) :
    x.LocalRuns (x.applyChain r u (fuel + 1) id) b (.error e) b := by
  rw [Index.applyChain]
  exact bind_error (applyAt_error hid h)

theorem applyChain_applied (hid : x.Owns id) {fuel : Nat} {s' : State}
    (h : (b id).apply r u x.desc.unique x.desc = .ok (.applied, s')) :
    x.LocalRuns (x.applyChain r u (fuel + 1) id) b (.ok ()) (Function.update b id s') := by
  rw [Index.applyChain]
  exact bind (applyAt_applied hid h) (pure () _)

theorem applyChain_pass (hid : x.Owns id) {fuel : Nat} {s' : State} {next : String}
    {res : Except Error Unit} (h : (b id).apply r u x.desc.unique x.desc = .ok (.notFoundHere, s'))
    (hs : x.LocalRuns (Index.successor id) b (.ok next) b₁)
    (hrest : x.LocalRuns (x.applyChain r u fuel next) b₁ res b') :
    x.LocalRuns (x.applyChain r u (fuel + 1) id) b res b' := by
  rw [Index.applyChain]
  exact bind (applyAt_notFoundHere hid h) (bind hs hrest)

end Steps

end LocalRuns

end Index

/-- Chains that refine a flat bucket link inside their index: each bucket links to the next one
of its chain, the tail to none, and buckets past the tail are empty. -/
theorem Refines.linksInside {x : Index} {b : String → State} {F : State} {len : Nat → Nat}
    (h : Refines x b F len) : x.LinksInside b := by
  intro p d
  by_cases hd : d + 1 < len p
  · exact .inr (h.link p d hd)
  · refine .inl ?_
    by_cases hd' : d + 1 = len p
    · have ht := h.tail p
      rwa [show len p - 1 = d by omega] at ht
    · rw [h.beyond p d (by omega)]

/-! ## Walks and calls -/

/-- From `b` to `b'`, entries changed in one bucket only, and only under the keys of `v`. -/
def WritesOnce (v : IndexUpdate) (b b' : String → State) : Prop :=
  ∃ T, ∀ id k, State.entry? (b' id) k ≠ State.entry? (b id) k → id = T ∧ k ∈ updateKeys v

/-- From `b` to `b'`, the entry under `k` changed in one bucket at most. -/
def OneBucket (k : Key) (b b' : String → State) : Prop :=
  ∃ T, ∀ id, State.entry? (b' id) k ≠ State.entry? (b id) k → id = T

namespace WritesOnce

variable {v : IndexUpdate} {b b₁ b' : String → State}

theorem refl (v : IndexUpdate) (b : String → State) : WritesOnce v b b :=
  ⟨"", fun _ _ h => absurd rfl h⟩

/-- Writing one bucket with what an update left there. -/
theorem update {s s' : State} {r : EntityRef} {uq : Bool} {m : IndexMeta} {o : Outcome}
    (h : s.apply r v uq m = .ok (o, s')) (T : String) (b : String → State) (hs : b T = s) :
    WritesOnce v b (Function.update b T s') := by
  refine ⟨T, fun id k hk => ?_⟩
  by_cases hid : id = T
  · subst hid
    refine ⟨rfl, ?_⟩
    by_contra hn
    rw [Function.update_self, State.apply_entry?_of_not_mem h hn, hs] at hk
    exact hk rfl
  · rw [Function.update_of_ne hid] at hk
    exact absurd rfl hk

theorem of_entries (hent : ∀ j, (b₁ j).entries = (b j).entries) (h : WritesOnce v b₁ b') :
    WritesOnce v b b' := by
  obtain ⟨T, hT⟩ := h
  refine ⟨T, fun id k hk => hT id k ?_⟩
  simpa [State.entry?, hent id] using hk

end WritesOnce

/-- A walk on chains that link inside the index touches only the index's buckets and keeps the
links inside. It writes entries in one bucket, under the keys of its update, and it fails only
when a bucket refuses the update or the chain is too long. -/
theorem Index.applyChain_local (x : Index) (r : EntityRef) (v : IndexUpdate) (p : Nat) :
    ∀ (fuel d : Nat) (b : String → State), x.LinksInside b →
      ∃ res b', x.LocalRuns (x.applyChain r v fuel (x.bucketAt p d)) b res b' ∧
        x.LinksInside b' ∧ WritesOnce v b b' ∧
        ∀ e, res = .error e → e = chainTooLong ∨
          ∃ s : State, s.apply r v x.desc.unique x.desc = .error e
  | 0, _, b, hL => ⟨_, b, by rw [Index.applyChain]; exact Index.LocalRuns.throw _ b, hL,
      WritesOnce.refl v b, fun _ he => .inl (Except.error.inj he).symm⟩
  | fuel + 1, d, b, hL => by
    have hid := owns_bucketAt x p d
    cases hs : (b (x.bucketAt p d)).apply r v x.desc.unique x.desc with
    | error e =>
      exact ⟨_, b, Index.LocalRuns.applyChain_error hid hs, hL, WritesOnce.refl v b,
        fun _ he => .inr ⟨_, (Except.error.inj he) ▸ hs⟩⟩
    | ok o =>
      obtain ⟨o, s'⟩ := o
      cases o with
      | applied =>
        exact ⟨_, _, Index.LocalRuns.applyChain_applied hid hs, hL.update (State.apply_next hs),
          WritesOnce.update hs _ b rfl, fun _ he => by cases he⟩
      | notFoundHere =>
        obtain ⟨b₁, hs₁, hL₁, hent₁⟩ := Index.LocalRuns.successor hL p d
        obtain ⟨res, b', hrun, hL', hw, herr⟩ :=
          Index.applyChain_local x r v p fuel (d + 1) b₁ hL₁
        exact ⟨res, b', Index.LocalRuns.applyChain_pass hid hs hs₁ hrun, hL',
          hw.of_entries hent₁, herr⟩

/-- Parts of an update no two of which name key `k`. -/
def KeyOnce (k : Key) (parts : List (Nat × IndexUpdate)) : Prop :=
  parts.Pairwise fun a a' => ¬ (k ∈ updateKeys a.2 ∧ k ∈ updateKeys a'.2)

/-- Walks of the parts of an update, one after another. The entry under a key changes only when
a part names the key, and in one bucket when one part at most names it. -/
theorem Index.parts_local (x : Index) (r : EntityRef) :
    ∀ (parts : List (Nat × IndexUpdate)) (b : String → State), x.LinksInside b →
      ∃ res b', x.LocalRuns (parts.forM fun (p, v) => x.applyChain r v chainLimit (headId x.name p))
          b res b' ∧ x.LinksInside b' ∧
        (∀ id k, State.entry? (b' id) k ≠ State.entry? (b id) k → ∃ pv ∈ parts, k ∈ updateKeys pv.2) ∧
        (∀ k, KeyOnce k parts → OneBucket k b b') ∧
        ∀ e, res = .error e → e = chainTooLong ∨
          ∃ s : State, ∃ pv ∈ parts, s.apply r pv.2 x.desc.unique x.desc = .error e
  | [], b, hL => ⟨_, b, Index.LocalRuns.pure () b, hL, fun _ _ h => absurd rfl h,
      fun _ _ => ⟨"", fun _ h => absurd rfl h⟩, fun _ he => nomatch he⟩
  | (p, v) :: parts, b, hL => by
    obtain ⟨res₁, b₁, hrun₁, hL₁, ⟨T, hT⟩, herr₁⟩ := Index.applyChain_local x r v p chainLimit 0 b hL
    rcases res₁ with e | ⟨⟩
    · refine ⟨_, b₁, Index.LocalRuns.bind_error hrun₁, hL₁, fun id k hk => ?_,
        fun k _ => ⟨T, fun id hk => (hT id k hk).1⟩, fun e' he => ?_⟩
      · exact ⟨(p, v), List.mem_cons_self, (hT id k hk).2⟩
      · rcases herr₁ e' he with h | ⟨s, hs⟩
        · exact .inl h
        · exact .inr ⟨s, (p, v), List.mem_cons_self, hs⟩
    · obtain ⟨res, b', hrun, hL', hkeys, hone, herr⟩ := Index.parts_local x r parts b₁ hL₁
      refine ⟨res, b', Index.LocalRuns.bind hrun₁ hrun, hL', fun id k hk => ?_, fun k hk => ?_,
        fun e he => ?_⟩
      · by_cases h₁ : State.entry? (b₁ id) k = State.entry? (b id) k
        · obtain ⟨pv, hpv, hkpv⟩ := hkeys id k (by rwa [h₁])
          exact ⟨pv, List.mem_cons_of_mem _ hpv, hkpv⟩
        · exact ⟨(p, v), List.mem_cons_self, (hT id k h₁).2⟩
      · rw [KeyOnce, List.pairwise_cons] at hk
        by_cases hkv : k ∈ updateKeys v
        · -- the first walk is the only one that names `k`
          refine ⟨T, fun id hne => ?_⟩
          have hrest : State.entry? (b' id) k = State.entry? (b₁ id) k := by
            by_contra hne'
            obtain ⟨pv, hpv, hkpv⟩ := hkeys id k hne'
            exact hk.1 pv hpv ⟨hkv, hkpv⟩
          exact (hT id k (by rwa [← hrest])).1
        · obtain ⟨T', hT'⟩ := hone k hk.2
          refine ⟨T', fun id hne => hT' id ?_⟩
          have hfirst : State.entry? (b₁ id) k = State.entry? (b id) k := by
            by_contra hne'
            exact hkv (hT id k hne').2
          rwa [hfirst]
      · rcases herr e he with h | ⟨s, pv, hpv, hs⟩
        · exact .inl h
        · exact .inr ⟨s, pv, List.mem_cons_of_mem _ hpv, hs⟩

/-- The parts of a regular update name each key once at most. -/
theorem Index.keyOnce_route (x : Index) {u : IndexUpdate} (hu : u.regular = true) (k : Key) :
    KeyOnce k (x.route u) := by
  unfold Index.route
  split
  · exact List.Pairwise.nil
  · exact List.pairwise_singleton _ _
  · exact List.pairwise_singleton _ _
  · rename_i hnone hins hdel
    dsimp only
    split
    · exact List.pairwise_singleton _ _
    · -- the halves name the after-image and the before-image, which differ
      have hba : u.before ≠ u.after := by
        cases hop : u.op <;> simp_all [IndexUpdate.regular]
      refine List.pairwise_pair.2 fun h => hba ?_
      simp only [IndexUpdate.split, IndexUpdate.override, updateKeys, List.mem_singleton] at h
      exact h.2.symm.trans h.1

/-- A call of an index on chains that link inside it touches only its buckets and keeps the links
inside. A regular call changes the entry under each key in one bucket at most, and every call
fails only when a bucket refuses a part of the update or a chain is too long. -/
theorem Index.apply_local (x : Index) (r : EntityRef) (u : IndexUpdate) {b : String → State}
    (hL : x.LinksInside b) :
    ∃ res b', x.LocalRuns (x.apply r u) b res b' ∧ x.LinksInside b' ∧
      (u.regular = true → ∀ k, OneBucket k b b') ∧
      ∀ e, res = .error e → e = chainTooLong ∨
        ∃ (s : State) (v : IndexUpdate), s.apply r v x.desc.unique x.desc = .error e := by
  obtain ⟨res, b', hrun, hL', -, hone, herr⟩ := Index.parts_local x r (x.route u) b hL
  refine ⟨res, b', hrun, hL', fun hu k => hone k (x.keyOnce_route hu k), fun e he => ?_⟩
  rcases herr e he with h | ⟨s, pv, -, hs⟩
  · exact .inl h
  · exact .inr ⟨s, pv.2, hs⟩

/-! ## A shelf of its own for one index -/

/-- Some clean shelf has the buckets `b`. -/
def Viewable (b : String → State) : Prop := ∃ w, Clean w ∧ view w = b

section Viewable

variable {α : Type} {m : Run Shelf α} {b b₁ b₂ : String → State} {r r' : Except Error α}

/-- From buckets that a clean shelf has, a program has one run. -/
theorem Runs.eq_of_viewable (h : Runs m b r b₁) (h' : Runs m b r' b₂) (hz : Viewable b) :
    r = r' ∧ b₁ = b₂ := by
  obtain ⟨w, hw, hv⟩ := hz
  obtain ⟨w₁, hx₁, -, hv₁⟩ := h w hw hv
  obtain ⟨w₂, hx₂, -, hv₂⟩ := h' w hw hv
  rw [hx₁] at hx₂
  obtain ⟨rfl, rfl⟩ := Prod.mk.inj hx₂
  exact ⟨rfl, hv₁.symm.trans hv₂⟩

theorem Runs.viewable (h : Runs m b r b₁) (hz : Viewable b) : Viewable b₁ := by
  obtain ⟨w, hw, hv⟩ := hz
  obtain ⟨w₁, -, hw₁, hv₁⟩ := h w hw hv
  exact ⟨w₁, hw₁, hv₁⟩

theorem lookup_filter_fst (P : String → Prop) [DecidablePred P] (l : List (String × State))
    (k : String) : (l.filter fun q => decide (P q.1)).lookup k = if P k then l.lookup k else none := by
  induction l with
  | nil => simp
  | cons q l ih =>
    obtain ⟨j, v⟩ := q
    by_cases hk : k = j
    · subst hk
      by_cases hj : P k <;> simp [hj, ih]
    · by_cases hj : P j <;> simp [hj, ih, hk]

open Classical in
/-- The buckets of one index alone are those of a clean shelf: the shelf keeps the active buckets
of the index and forgets its stored ones, which a clean shelf only has for active buckets. -/
theorem Viewable.restrict (hz : Viewable b) (x : Index) : Viewable (x.restrict b) := by
  obtain ⟨w, hw, rfl⟩ := hz
  let w' : Shelf := { w with
    active := w.active.filter (fun q => decide (x.Owns q.1))
    store := { w.store with blobs := { w.store.blobs with data := [] } } }
  refine ⟨w', ⟨hw.rules, hw.codec, hw.compression, fun id h => by simp [w', Store.Blobs.get?] at h⟩, ?_⟩
  funext id
  simp only [w', view, lookup_filter_fst]
  by_cases hid : x.Owns id
  · simp [Index.restrict, Index.graft_of_owns hid, hid, view]
  · simp [Index.restrict, Index.graft_of_not_owns hid, hid]

end Viewable

/-- A call of an index from buckets that refine the flat bucket, where the call touches only the
index's buckets, does what the flat bucket does: it fails with an error of the flat bucket's kind
and leaves the buckets as they were, or it succeeds and leaves buckets that refine the flat
bucket's new state. -/
theorem Refines.call_local {x : Index} {P P' : String → State} {F : State} {len : Nat → Nat}
    {r : EntityRef} {u : IndexUpdate} {res : Except Error Unit} (hR : Refines x P F len)
    (hfuel : ∀ q, len q < chainLimit) (hu : u.regular = true) (hz : Viewable P)
    (hl : x.LocalRuns (x.apply r u) P res P') :
    match F.apply r u x.desc.unique x.flatMeta with
    | .error e => ∃ e', res = .error e' ∧ e'.kind = e.kind ∧ P' = P
    | .ok (_, F') => res = .ok () ∧ ∃ len', Refines x P' F' len' ∧ ∀ q, len' q ≤ len q + 1 := by
  have hf := hR.call r hfuel hu
  generalize F.apply r u x.desc.unique x.flatMeta = fr at hf ⊢
  rcases fr with e | ⟨_, F'⟩
  · obtain ⟨e', hk, hrun⟩ := hf
    obtain ⟨h₁, h₂⟩ := Runs.eq_of_viewable hl.runs hrun hz
    exact ⟨e', h₁, hk, h₂⟩
  · obtain ⟨b', len', hrun, hR', hl'⟩ := hf
    obtain ⟨h₁, h₂⟩ := Runs.eq_of_viewable hl.runs hrun hz
    exact ⟨h₁, len', h₂ ▸ hR', hl'⟩

/-- A shelf built by the calls of one index holds that index's buckets only. -/
theorem Applied.restrict_view {x : Index} {n : Nat} {w : Shelf} {F : State} (h : Applied x n w F)
    (hn : n < chainLimit) : x.restrict (view w) = view w := by
  induction h with
  | empty =>
    rw [view_empty]
    exact Index.graft_eq_of_frame fun _ _ => rfl
  | @call n w F r u hA _ ih =>
    obtain ⟨hc, len, hR, -⟩ := hA.refines (by omega)
    obtain ⟨res, b', hl, -⟩ := x.apply_local r u hR.linksInside
    obtain ⟨w', hx, -, hv⟩ := hl.runs w hc rfl
    rw [hx]
    dsimp only
    rw [hv]
    refine Index.graft_eq_of_frame fun id hid => ?_
    rw [hl.1 id hid, ← ih (by omega), Index.restrict, Index.graft_of_not_owns hid]

/-- Another index finds no bucket of its own there. -/
theorem Applied.restrict_other {x y : Index} {n : Nat} {w : Shelf} {F : State}
    (h : Applied x n w F) (hn : n < chainLimit) (hne : x.name ≠ y.name) :
    y.restrict (view w) = fun _ => {} := by
  funext id
  by_cases hy : y.Owns id
  · have hx : ¬ x.Owns id := fun hx => hne (hx.name_eq hy)
    rw [Index.restrict, Index.graft_of_owns hy, ← h.restrict_view hn, Index.restrict,
      Index.graft_of_not_owns hx]
  · rw [Index.restrict, Index.graft_of_not_owns hy]

end EntityIndex.Bucket
