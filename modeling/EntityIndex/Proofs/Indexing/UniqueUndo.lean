import EntityIndex.Proofs.Bucket.Reversal
import EntityIndex.Proofs.Bucket.HostVia
import EntityIndex.Proofs.Indexing.AbandonedWrites
import Mathlib.Data.List.Nodup

/-!
# A uniqueness violation leaves no trace

A write applies its unique updates first, in index-name order, and the first uniqueness violation
undoes every unique update applied so far, the failed one included, by applying their reverses.
The undo is exact. Take indexes that never share a bucket and whose chains link inside their own
buckets, and unique indexes that are ready for their updates (their buckets refine a flat bucket
on which the write's before-images hold). Then:

* a call of one index touches only its own buckets (`Index.LocalRuns`), so later updates and the
  reverses find every other index as it was;
* an update and then its reverse give the index's buckets their entries back
  (`Ready.reverse_restores`);
* once the unique phase succeeds, nothing else the write does can violate a uniqueness
  constraint: tentative unique updates are accepted again in final form (`Ready.final_succeeds`),
  a non-unique index never refuses an update for uniqueness, and the lazy path fails only where
  its writer or its persist fails.

So a write that fails with a uniqueness violation has not persisted the entity, enqueued a record
or touched a stand-in, and every bucket holds the entries it held before. The buckets of indexes
with no unique update are as they were, links and status included.
-/

namespace EntityIndex.Bucket

open EntityIndex.Bucket.Shelf EntityIndex.Run

theorem State.insert_ok_of_not_unique (s : State) (r : EntityRef) (k : Key) (t : Bool)
    (m : IndexMeta) : ∃ p, s.insert r k t false m = .ok p := by
  cases hk : s.entry? k with
  | none => by_cases hc : s.canCreate m <;> simp [State.insert, hk, hc]
  | some e => simp [State.insert, hk]

/-- Outside a unique index, a change fails only when it must be split. -/
theorem State.change_error_of_not_unique {s : State} {r : EntityRef} {v : IndexUpdate}
    {m : IndexMeta} {e : Error} (h : s.change r v false m = .error e) : e = .splitRequired v := by
  obtain ⟨p, hp⟩ := s.insert_ok_of_not_unique r v.after v.tentative m
  unfold State.change at h
  cases hb : s.entry? v.before with
  | none => simp [hb, hp] at h
  | some eb =>
    by_cases hc : eb.contains r
    · cases ha : s.entry? v.after with
      | none => by_cases hcc : s.canCreate m <;> simp_all
      | some ea => simp [hb, hc, ha] at h
    · simp [hb, hc, hp] at h

/-- A bucket refuses an update for uniqueness only in a unique index. -/
theorem State.apply_kind_of_not_unique {s : State} {r : EntityRef} {v : IndexUpdate}
    {m : IndexMeta} {e : Error} (h : s.apply r v false m = .error e) : e.kind ≠ .uniqueness := by
  unfold State.apply at h
  split at h
  · cases h
    simp [Error.kind]
  · split at h
    · cases h
    · obtain ⟨p, hp⟩ := s.insert_ok_of_not_unique r v.after v.tentative m
      rw [hp] at h
      cases h
    · simp only [State.delete] at h
      split at h <;> cases h
    · rw [State.change_error_of_not_unique h]
      simp [Error.kind]
    · cases h
      simp [Error.kind, Error.other]

end EntityIndex.Bucket

namespace EntityIndex.Indexing.Coordinator

open EntityIndex.Bucket EntityIndex.Bucket.Shelf EntityIndex.Run

/-! ## Indexes by name -/

/-- No two indexes of a coordinator share a namespace of bucket addresses. -/
def Distinct (c : Coordinator) : Prop := (c.indexes.map fun p => p.2.name).Nodup

instance (c : Coordinator) : Decidable c.Distinct := inferInstanceAs (Decidable (List.Nodup _))

/-- Every index of a coordinator keeps its chains inside its own buckets. -/
def LinksInside (c : Coordinator) (B : String → State) : Prop :=
  ∀ n x, c.indexes.lookup n = some x → x.LinksInside B

/-- No index that `L` updates owns the bucket `id`. -/
def Outside (c : Coordinator) (L : List (String × IndexUpdate)) (id : String) : Prop :=
  ∀ p ∈ L, ∀ x, c.indexes.lookup p.1 = some x → ¬ x.Owns id

theorem Outside.mono {c : Coordinator} {L U : List (String × IndexUpdate)} {id : String}
    (hsub : ∀ p ∈ L, p ∈ U) (h : c.Outside U id) : c.Outside L id :=
  fun p hp => h p (hsub p hp)

/-- In a list whose names are distinct, an update comes after no update of its own name. -/
theorem ne_of_mem_prefix {done rest : List (String × IndexUpdate)} {n : String} {u : IndexUpdate}
    (h : ((done ++ (n, u) :: rest).map Prod.fst).Nodup) {p : String × IndexUpdate}
    (hp : p ∈ done) : p.1 ≠ n := by
  rw [List.map_append, List.nodup_append] at h
  exact h.2.2 p.1 (List.mem_map_of_mem hp) n (by simp)

section Names

variable {c : Coordinator} {n n' : String} {x y : Index} {B B' : String → State}

theorem Distinct.eq_of_name (hd : c.Distinct) (hx : c.indexes.lookup n = some x)
    (hy : c.indexes.lookup n' = some y) (h : x.name = y.name) : n = n' ∧ x = y :=
  Prod.mk.inj (List.inj_on_of_nodup_map hd (mem_of_lookup_eq_some hx)
    (mem_of_lookup_eq_some hy) h)

/-- A call of one index leaves the buckets of every other index as they were. -/
theorem Distinct.agree_of_frame (hd : c.Distinct) (hx : c.indexes.lookup n = some x)
    (hy : c.indexes.lookup n' = some y) (hne : n ≠ n')
    (hframe : ∀ id, ¬ x.Owns id → B' id = B id) : y.Agree B B' := by
  intro id hid
  have hnx : ¬ x.Owns id := fun hxo => hne (hd.eq_of_name hx hy (hxo.name_eq hid)).1
  exact (hframe id hnx).symm

theorem Distinct.restrict_of_frame (hd : c.Distinct) (hx : c.indexes.lookup n = some x)
    (hy : c.indexes.lookup n' = some y) (hne : n ≠ n')
    (hframe : ∀ id, ¬ x.Owns id → B' id = B id) : y.restrict B' = y.restrict B :=
  (Index.restrict_congr (hd.agree_of_frame hx hy hne hframe)).symm

/-- A call of one index keeps the chains of every index inside it. -/
theorem LinksInside.after_call (hd : c.Distinct) (hL : c.LinksInside B)
    (hx : c.indexes.lookup n = some x) (hframe : ∀ id, ¬ x.Owns id → B' id = B id)
    (hL' : x.LinksInside B') : c.LinksInside B' := by
  intro n' y hy
  by_cases hn : n = n'
  · subst hn
    rw [hx] at hy
    cases hy
    exact hL'
  · exact (hL n' y hy).congr (hd.agree_of_frame hx hy hn hframe)

theorem applyTo_runs (hx : c.indexes.lookup n = some x) {r : EntityRef} {v : IndexUpdate}
    {res : Except Error Unit} (hl : x.LocalRuns (x.apply r v) B res B') :
    Runs (c.applyTo n r v) B res B' := by
  simp only [applyTo, hx]
  exact hl.runs

end Names

/-! ## The updates of a write -/

section Updates

variable {c : Coordinator} {us : Updates}

/-- The unique updates of a write are its updates of unique indexes, in plain form. -/
theorem mem_uniqueUpdates {p : String × IndexUpdate} :
    p ∈ c.uniqueUpdates us ↔ ∃ q ∈ us.byInterface.flatMap Prod.snd,
      c.isUnique q.1 = true ∧ p = (q.1, IndexUpdate.plain q.2) := by
  simp only [uniqueUpdates, List.mem_mergeSort, List.mem_flatMap, List.mem_map, List.mem_filter]
  constructor
  · rintro ⟨⟨i, ms⟩, ha, ⟨n, m⟩, ⟨hq, hu⟩, rfl⟩
    exact ⟨(n, m), ⟨(i, ms), ha, hq⟩, hu, rfl⟩
  · rintro ⟨⟨n, m⟩, ⟨⟨i, ms⟩, ha, hq⟩, hu, rfl⟩
    exact ⟨(i, ms), ha, (n, m), ⟨hq, hu⟩, rfl⟩

/-- The names of updates chosen from each interface's updates, by name. -/
theorem names_flatMap_sublist {β γ : Type} (l : List (String × List (String × β)))
    (g : String × List (String × β) → List (String × γ))
    (hg : ∀ a, List.Sublist ((g a).map Prod.fst) (a.2.map Prod.fst)) :
    List.Sublist ((l.flatMap g).map Prod.fst) ((l.flatMap Prod.snd).map Prod.fst) := by
  induction l with
  | nil => simp
  | cons a l ih => simpa only [List.flatMap_cons, List.map_append] using (hg a).append ih

/-- A write that updates each index once has one unique update per index. -/
theorem nodup_uniqueUpdates (h : ((us.byInterface.flatMap Prod.snd).map Prod.fst).Nodup) :
    ((c.uniqueUpdates us).map Prod.fst).Nodup := by
  unfold uniqueUpdates
  refine ((List.mergeSort_perm _ _).map Prod.fst).nodup_iff.2 (h.sublist ?_)
  refine names_flatMap_sublist _ _ fun ⟨i, ms⟩ => ?_
  simp only [List.map_map]
  exact List.filter_sublist.map _

end Updates

/-! ## The unique phase and its undo -/

section Unique

variable {c : Coordinator} {r : EntityRef} {t : Bool} {B₀ : String → State}
  {U : List (String × IndexUpdate)}

/-- Where the unique phase stands once the updates `done` are applied, from the buckets `B₀`:
the buckets are a clean shelf's, with chains inside their indexes; each index updated accepted
its update from its old buckets and has its buckets as the update left them; and no other bucket
changed. -/
structure UniqueProgress (c : Coordinator) (r : EntityRef) (t : Bool) (B₀ : String → State)
    (done : List (String × IndexUpdate)) (B : String → State) : Prop where
  viewable : Viewable B
  links : c.LinksInside B
  accepted : ∀ p ∈ done, ∃ x, c.indexes.lookup p.1 = some x ∧
    x.LocalRuns (x.apply r (if t then p.2.asTentative else p.2)) (x.restrict B₀) (.ok ())
      (x.restrict B)
  frame : ∀ id, c.Outside done id → B id = B₀ id

/-- Where the undo stands with the updates `L` of `U` left to reverse: each of them was applied,
accepted in tentative form or refused, from its index's old buckets, and left the index's buckets
as they are now; every bucket outside their indexes has its old entries back; and buckets outside
the indexes of `U` never changed. -/
structure Undoing (c : Coordinator) (r : EntityRef) (t : Bool) (B₀ : String → State)
    (U L : List (String × IndexUpdate)) (B : String → State) : Prop where
  viewable : Viewable B
  links : c.LinksInside B
  subset : ∀ p ∈ L, p ∈ U
  nodup : (L.map Prod.fst).Nodup
  pending : ∀ p ∈ L, ∃ x res, c.indexes.lookup p.1 = some x ∧
    x.LocalRuns (x.apply r (if t then p.2.asTentative else p.2)) (x.restrict B₀) res
      (x.restrict B) ∧ (res = .ok () → t = true)
  restored : ∀ id, c.Outside L id → ∀ k, State.entry? (B id) k = State.entry? (B₀ id) k
  frame : ∀ id, c.Outside U id → B id = B₀ id

variable (hd : c.Distinct) (hz₀ : Viewable B₀)
  (hready : ∀ p ∈ U, ∃ x, c.indexes.lookup p.1 = some x ∧ Ready x B₀ r p.2)
include hd hz₀ hready

/-- The undo gives every bucket its old entries back, and leaves the buckets outside the indexes
of `U` as they were. Induction on the updates left to reverse; each reverse restores its own
index's buckets and leaves the others to the rest of the undo. -/
theorem undo_restores : ∀ L B, Undoing c r t B₀ U L B →
    ∃ B', Runs (c.undo r L) B (.ok ()) B' ∧
      (∀ id k, State.entry? (B' id) k = State.entry? (B₀ id) k) ∧
      ∀ id, c.Outside U id → B' id = B₀ id
  | [], B, h => ⟨B, Runs.pure () B, fun id k => h.restored id (fun _ hp => nomatch hp) k, h.frame⟩
  | (m, v) :: L, B, h => by
    obtain ⟨x, res₁, hx, hfwd, hok⟩ := h.pending (m, v) List.mem_cons_self
    obtain ⟨x', hx', hR⟩ := hready (m, v) (h.subset _ List.mem_cons_self)
    rw [hx] at hx'
    cases hx'
    obtain ⟨res₂, B', hl, hL', -, -⟩ := x.apply_local r v.reverse (h.links m x hx)
    have hback := hR.reverse_restores hz₀ (by cases t <;> simp) hfwd
      (fun h₁ => by simp [hok h₁]) hl.restrict
    have hm : m ∉ L.map Prod.fst := (List.nodup_cons.1 h.nodup).1
    have hnext : Undoing c r t B₀ U L B' := by
      refine ⟨Runs.viewable hl.runs h.viewable, h.links.after_call hd hx hl.1 hL',
        fun p hp => h.subset p (List.mem_cons_of_mem _ hp), (List.nodup_cons.1 h.nodup).2,
        fun p hp => ?_, fun id hout k => ?_, fun id hout => ?_⟩
      · obtain ⟨y, res, hy, hyl, hyok⟩ := h.pending p (List.mem_cons_of_mem _ hp)
        have hne : m ≠ p.1 := fun he => hm (he ▸ List.mem_map_of_mem hp)
        exact ⟨y, res, hy, by rwa [hd.restrict_of_frame hx hy hne hl.1], hyok⟩
      · by_cases hxo : x.Owns id
        · -- the reverse gave this index's buckets their old entries
          have hk := hback id k
          simpa only [Index.restrict, Index.graft_of_owns hxo] using hk
        · rw [hl.1 id hxo]
          refine h.restored id (fun p hp y hy => ?_) k
          rcases List.mem_cons.1 hp with rfl | hp
          · rw [hx] at hy
            cases hy
            exact hxo
          · exact hout p hp y hy
      · have hxo : ¬ x.Owns id := hout (m, v) (h.subset _ List.mem_cons_self) x hx
        rw [hl.1 id hxo]
        exact h.frame id hout
    obtain ⟨B'', hrun, hent, hfr⟩ := undo_restores L B' hnext
    refine ⟨B'', ?_, hent, hfr⟩
    exact Runs.bind (Runs.bind (Runs.attempt (applyTo_runs hx hl)) (Runs.pure () B')) hrun

/-- The unique phase from the updates `done` on: it succeeds with every update of `U` accepted,
or it fails, and a failure for uniqueness comes after the undo, which gave every bucket its old
entries back. Induction on the updates left; the update at hand finds its index as it was, since
no index updated before shares a bucket with it. -/
theorem applyUniqueFrom_runs (hnd : (U.map Prod.fst).Nodup) (ht : 1 < U.length → t = true) :
    ∀ rest done B, done ++ rest = U → UniqueProgress c r t B₀ done B →
      ∃ res B', Runs (c.applyUniqueFrom r t done rest) B res B' ∧
        (res = .ok () → UniqueProgress c r t B₀ U B') ∧
        ∀ e, res = .error e → e.kind = .uniqueness →
          (∀ id k, State.entry? (B' id) k = State.entry? (B₀ id) k) ∧
          ∀ id, c.Outside U id → B' id = B₀ id
  | [], done, B, hU, h =>
    ⟨.ok (), B, Runs.pure () B, fun _ => by rwa [← hU, List.append_nil], fun _ he => nomatch he⟩
  | (n, u) :: rest, done, B, hU, h => by
    have hmem : (n, u) ∈ U := hU ▸ List.mem_append_right _ List.mem_cons_self
    have hdone : ∀ p ∈ done, p.1 ≠ n := fun p hp => ne_of_mem_prefix (hU ▸ hnd) hp
    obtain ⟨x, hx, -⟩ := hready (n, u) hmem
    have hxB : x.restrict B = x.restrict B₀ := Index.restrict_congr fun id hid =>
      h.frame id fun p hp y hy hyo => hdone p hp (hd.eq_of_name hy hx (hyo.name_eq hid)).1
    obtain ⟨res, B', hl, hL', -, -⟩ :=
      x.apply_local r (if t then u.asTentative else u) (h.links n x hx)
    have hfwd : x.LocalRuns (x.apply r (if t then u.asTentative else u)) (x.restrict B₀) res
        (x.restrict B') := hxB ▸ hl.restrict
    have hstep := Runs.attempt (applyTo_runs hx hl)
    -- the updates applied before keep their indexes' buckets
    have hacc : ∀ p ∈ done, ∃ y, c.indexes.lookup p.1 = some y ∧
        y.LocalRuns (y.apply r (if t then p.2.asTentative else p.2)) (y.restrict B₀) (.ok ())
          (y.restrict B') := fun p hp => by
      obtain ⟨y, hy, hyl⟩ := h.accepted p hp
      exact ⟨y, hy, by rwa [hd.restrict_of_frame hx hy (Ne.symm (hdone p hp)) hl.1]⟩
    have hfr : ∀ id, c.Outside (done ++ [(n, u)]) id → B' id = B₀ id := fun id hout => by
      rw [hl.1 id (hout (n, u) (by simp) x hx)]
      exact h.frame id fun p hp => hout p (List.mem_append_left _ hp)
    have hsub : ∀ p ∈ done ++ [(n, u)], p ∈ U := fun p hp => by
      rw [← hU]
      rcases List.mem_append.1 hp with hp | hp
      · exact List.mem_append_left _ hp
      · rw [List.mem_singleton.1 hp]
        exact List.mem_append_right _ List.mem_cons_self
    rcases res with e | ⟨⟩
    · by_cases hk : e.kind = .uniqueness
      · -- undo everything applied, the refused update included
        have hund : Undoing c r t B₀ U (done ++ [(n, u)]) B' := by
          refine ⟨Runs.viewable hl.runs h.viewable, h.links.after_call hd hx hl.1 hL', hsub,
            ?_, fun p hp => ?_, fun id hout k => by rw [hfr id hout],
            fun id hout => hfr id (hout.mono hsub)⟩
          · refine List.Nodup.sublist (List.Sublist.map _ ?_) (hU ▸ hnd)
            exact List.IsPrefix.sublist ⟨rest, by simp⟩
          rcases List.mem_append.1 hp with hp | hp
          · -- an update before was accepted, in tentative form since two or more were tried
            obtain ⟨y, hy, hyl⟩ := hacc p hp
            refine ⟨y, .ok (), hy, hyl, fun _ => ht ?_⟩
            have := List.length_pos_of_mem hp
            rw [← hU, List.length_append, List.length_cons]
            omega
          · rw [List.mem_singleton.1 hp]
            exact ⟨x, .error e, hx, hfwd, fun h => nomatch h⟩
        obtain ⟨B'', hrun, hent, hframe⟩ := undo_restores hd hz₀ hready _ B' hund
        refine ⟨.error e, B'', Runs.bind hstep ?_, (fun h => nomatch h),
          fun _ _ _ => ⟨hent, hframe⟩⟩
        simp only [hk, ↓reduceIte]
        exact Runs.bind hrun (Runs.throw e B'')
      · refine ⟨.error e, B', Runs.bind hstep ?_, (fun h => nomatch h), fun e' he' hk' => ?_⟩
        · simp only [hk, ↓reduceIte]
          exact Runs.throw e B'
        cases he'
        exact absurd hk' hk
    · have hnext : UniqueProgress c r t B₀ (done ++ [(n, u)]) B' := by
        refine ⟨Runs.viewable hl.runs h.viewable, h.links.after_call hd hx hl.1 hL',
          fun p hp => ?_, hfr⟩
        rcases List.mem_append.1 hp with hp | hp
        · exact hacc p hp
        · rw [List.mem_singleton.1 hp]
          exact ⟨x, hx, hfwd⟩
      obtain ⟨res', B'', hrun, hok, herr⟩ :=
        applyUniqueFrom_runs hnd ht rest (done ++ [(n, u)]) B' (by simpa using hU) hnext
      exact ⟨res', B'', Runs.bind hstep hrun, hok, herr⟩

end Unique

/-- The unique phase of a write, from buckets where each unique update is ready: it succeeds,
tentatively when two or more unique updates are made or one deletes, with every unique update
accepted; or it fails, and a failure for uniqueness leaves every bucket with its old entries and
the buckets outside the indexes of the unique updates as they were. -/
theorem applyUnique_runs {c : Coordinator} {r : EntityRef} {us : Updates} {B₀ : String → State}
    (hd : c.Distinct) (hz₀ : Viewable B₀) (hL₀ : c.LinksInside B₀)
    (hnames : ((us.byInterface.flatMap Prod.snd).map Prod.fst).Nodup)
    (hready : ∀ p ∈ c.uniqueUpdates us, ∃ x, c.indexes.lookup p.1 = some x ∧ Ready x B₀ r p.2) :
    ∃ res B', Runs (c.applyUnique r us) B₀ res B' ∧
      (∀ t, res = .ok t → t = tentativeFor (c.uniqueUpdates us) ∧
        UniqueProgress c r t B₀ (c.uniqueUpdates us) B') ∧
      ∀ e, res = .error e → e.kind = .uniqueness →
        (∀ id k, State.entry? (B' id) k = State.entry? (B₀ id) k) ∧
        ∀ id, c.Outside (c.uniqueUpdates us) id → B' id = B₀ id := by
  have ht : 1 < (c.uniqueUpdates us).length → tentativeFor (c.uniqueUpdates us) = true :=
    fun h => by simp [tentativeFor, h]
  have hstart : UniqueProgress c r (tentativeFor (c.uniqueUpdates us)) B₀ [] B₀ :=
    ⟨hz₀, hL₀, (fun _ hp => nomatch hp), fun _ _ => rfl⟩
  obtain ⟨res, B', hrun, hok, herr⟩ := applyUniqueFrom_runs hd hz₀ hready
    (nodup_uniqueUpdates hnames) ht _ [] B₀ rfl hstart
  rcases res with e | ⟨⟩
  · refine ⟨.error e, B', Runs.bind_error hrun, (fun _ h => nomatch h), fun e' he' => ?_⟩
    cases he'
    exact herr e rfl
  · refine ⟨.ok (tentativeFor (c.uniqueUpdates us)), B', Runs.bind hrun (Runs.pure _ B'),
      fun t ht => ?_, fun _ h => nomatch h⟩
    cases ht
    exact ⟨rfl, hok rfl⟩

/-! ## The eager updates after a successful unique phase -/

section Eager

variable {c : Coordinator} {r : EntityRef} {B₀ : String → State}

/-- What the eager updates `todo` need of the buckets `B`: a clean shelf's, with chains inside
their indexes; `todo` names each index once; and each unique index among them is ready for its
update from the buckets `B₀` and holds that update in the tentative form it accepted. -/
structure EagerReady (c : Coordinator) (r : EntityRef) (B₀ : String → State)
    (todo : List (String × MemberUpdate)) (B : String → State) : Prop where
  viewable : Viewable B
  links : c.LinksInside B
  nodup : (todo.map Prod.fst).Nodup
  tentative : ∀ p ∈ todo, c.isUnique p.1 = true → ∃ x, c.indexes.lookup p.1 = some x ∧
    Ready x B₀ r (IndexUpdate.plain p.2) ∧
    x.LocalRuns (x.apply r (IndexUpdate.plain p.2).asTentative) (x.restrict B₀) (.ok ())
      (x.restrict B)

theorem EagerReady.tail {todo : List (String × MemberUpdate)} {p : String × MemberUpdate}
    {B : String → State} (h : EagerReady c r B₀ (p :: todo) B) : EagerReady c r B₀ todo B :=
  ⟨h.viewable, h.links, (List.nodup_cons.1 h.nodup).2,
    fun q hq => h.tentative q (List.mem_cons_of_mem _ hq)⟩

/-- No eager update fails for uniqueness. A unique index takes the final form of the update it
accepted in tentative form; any other index refuses an update only where a bucket must split it
or a chain is too long, and a missing index is not found. Induction on the updates left, each
call leaving the other indexes' buckets to the rest. -/
theorem eager_runs (hd : c.Distinct) (hz₀ : Viewable B₀) : ∀ todo B, EagerReady c r B₀ todo B →
    ∃ rs B', Runs (todo.mapM fun q => Run.attempt (c.applyTo q.1 r (IndexUpdate.plain q.2)))
        B (.ok rs) B' ∧ ∀ e, Except.error e ∈ rs → e.kind ≠ .uniqueness
  | [], B, _ => ⟨[], B, by rw [List.mapM_nil]; exact Runs.pure [] B, fun _ he => nomatch he⟩
  | (name, m) :: todo, B, h => by
    rw [List.mapM_cons]
    cases hx : c.indexes.lookup name with
    | none =>
      have hrun : Runs (c.applyTo name r (IndexUpdate.plain m)) B
          (.error (.context ("index " ++ name) Error.notFound)) B := by
        simp only [applyTo, hx]
        exact Runs.throw _ B
      obtain ⟨rs, B', hrs, herr⟩ := eager_runs hd hz₀ todo B h.tail
      refine ⟨_ :: rs, B', Runs.bind (Runs.attempt hrun) (Runs.bind hrs (Runs.pure _ B')),
        fun e he => ?_⟩
      rcases List.mem_cons.1 he with he | he
      · cases he
        simp [Error.kind, Error.notFound]
      · exact herr e he
    | some x =>
      obtain ⟨res, B', hl, hL', -, horig⟩ :=
        x.apply_local r (IndexUpdate.plain m) (h.links name x hx)
      have hres : ∀ e, res = .error e → e.kind ≠ .uniqueness := by
        intro e he
        cases hu : x.desc.unique with
        | false =>
          rcases horig e he with rfl | ⟨s, v, hs⟩
          · simp [chainTooLong, Error.kind, Error.other]
          · rw [hu] at hs
            exact State.apply_kind_of_not_unique hs
        | true =>
          -- the index took the update in tentative form and takes its final form
          have hun : c.isUnique name = true := by simp [isUnique, hx, hu]
          obtain ⟨x', hx', hR, hfwd⟩ := h.tentative (name, m) List.mem_cons_self hun
          rw [hx] at hx'
          cases hx'
          rw [hR.final_succeeds hz₀ hfwd hl.restrict] at he
          cases he
      have hnext : EagerReady c r B₀ todo B' := by
        refine ⟨Runs.viewable hl.runs h.viewable, h.links.after_call hd hx hl.1 hL',
          h.tail.nodup, fun p hp hpu => ?_⟩
        obtain ⟨y, hy, hR, hyl⟩ := h.tentative p (List.mem_cons_of_mem _ hp) hpu
        have hne : name ≠ p.1 := by
          rintro rfl
          have hp' : p.1 ∈ todo.map Prod.fst := List.mem_map_of_mem hp
          exact (List.nodup_cons.1 h.nodup).1 hp'
        exact ⟨y, hy, hR, by rwa [hd.restrict_of_frame hx hy hne hl.1]⟩
      obtain ⟨rs, B'', hrs, herr⟩ := eager_runs hd hz₀ todo B' hnext
      refine ⟨res :: rs, B'', Runs.bind (Runs.attempt (applyTo_runs hx hl))
        (Runs.bind hrs (Runs.pure _ B'')), fun e he => ?_⟩
      rcases List.mem_cons.1 he with he | he
      · exact hres e he.symm
      · exact herr e he

/-- A write that updates each index once makes each eager update to an index of its own. -/
theorem nodup_todo {us : Updates} (hnames : ((us.byInterface.flatMap Prod.snd).map Prod.fst).Nodup)
    (t : Bool) :
    ((us.byInterface.flatMap fun q => q.2.filter fun m => !(c.isUnique m.1 && !t)).map
      Prod.fst).Nodup :=
  hnames.sublist (names_flatMap_sublist _ _ fun _ => List.filter_sublist.map _)

/-- After a successful unique phase the eager updates are ready: a unique index among them was
updated tentatively, and takes the final form of its update. -/
theorem EagerReady.of_progress {us : Updates} {t : Bool} {B : String → State}
    (hnames : ((us.byInterface.flatMap Prod.snd).map Prod.fst).Nodup)
    (hready : ∀ p ∈ c.uniqueUpdates us, ∃ x, c.indexes.lookup p.1 = some x ∧ Ready x B₀ r p.2)
    (hp : UniqueProgress c r t B₀ (c.uniqueUpdates us) B) :
    EagerReady c r B₀ (us.byInterface.flatMap fun q => q.2.filter fun m => !(c.isUnique m.1 && !t))
      B := by
  refine ⟨hp.viewable, hp.links, nodup_todo hnames t, fun p hp' hu => ?_⟩
  obtain ⟨q, hq, hpq⟩ := List.mem_flatMap.1 hp'
  obtain ⟨hpq, hcond⟩ := List.mem_filter.1 hpq
  -- a unique update is among the eager ones only when the unique phase was tentative
  have ht : t = true := by simpa [hu] using hcond
  have hmem : (p.1, IndexUpdate.plain p.2) ∈ c.uniqueUpdates us :=
    mem_uniqueUpdates.2 ⟨p, List.mem_flatMap.2 ⟨q, hq, hpq⟩, hu, rfl⟩
  obtain ⟨x, hx, hR⟩ := hready _ hmem
  obtain ⟨x', hx', hl⟩ := hp.accepted _ hmem
  rw [hx] at hx'
  cases hx'
  subst ht
  exact ⟨x, hx, hR, by simpa using hl⟩

/-- Without a unique phase the eager updates leave out the unique indexes, and are ready. -/
theorem EagerReady.of_final {us : Updates} {B : String → State} (hz : Viewable B)
    (hL : c.LinksInside B) (hnames : ((us.byInterface.flatMap Prod.snd).map Prod.fst).Nodup) :
    EagerReady c r B₀
      (us.byInterface.flatMap fun q => q.2.filter fun m => !(c.isUnique m.1 && !false)) B := by
  refine ⟨hz, hL, nodup_todo hnames false, fun p hp hu => ?_⟩
  obtain ⟨q, -, hpq⟩ := List.mem_flatMap.1 hp
  have hcond := (List.mem_filter.1 hpq).2
  simp [hu] at hcond

end Eager

end EntityIndex.Indexing.Coordinator

namespace EntityIndex.Run

variable {W α β : Type}

/-- A loop of steps that never fail, each result satisfying `Q`, never fails, and each of its
results satisfies `Q`. -/
theorem mapM_results (f : α → Run W β) (Q : β → Prop)
    (hf : ∀ a w, ∃ b w', (f a).exec w = (.ok b, w') ∧ Q b) :
    ∀ (l : List α) (w : W), ∃ bs w', (l.mapM f).exec w = (.ok bs, w') ∧ ∀ b ∈ bs, Q b
  | [], w => ⟨[], w, by simp, fun _ hb => nomatch hb⟩
  | a :: l, w => by
    obtain ⟨b, w₁, hb, hQ⟩ := hf a w
    obtain ⟨bs, w', hbs, hQs⟩ := mapM_results f Q hf l w₁
    refine ⟨b :: bs, w', ?_, fun b' hb' => ?_⟩
    · simp only [List.mapM_cons, exec_bind, hb, hbs, exec_pure]
    · rcases List.mem_cons.1 hb' with rfl | hb'
      · exact hQ
      · exact hQs b' hb'

theorem mapM_ok (f : α → Run W β) (hf : ∀ a w, ∃ b w', (f a).exec w = (.ok b, w'))
    (l : List α) (w : W) : ∃ bs w', (l.mapM f).exec w = (.ok bs, w') := by
  obtain ⟨bs, w', h, -⟩ := mapM_results f (fun _ => True)
    (fun a w => (hf a w).imp fun _ ⟨w', h⟩ => ⟨w', h, trivial⟩) l w
  exact ⟨bs, w', h⟩

theorem exec_then_pure_error {m : Run W α} {b : β} {w : W} {e : Error}
    (h : ((m >>= fun _ => pure b).exec w).1 = .error e) : (m.exec w).1 = .error e := by
  rw [exec_bind] at h
  rcases hm : m.exec w with ⟨_ | _, _⟩ <;> simp_all

end EntityIndex.Run

namespace EntityIndex.Indexing.Coordinator

theorem firstFailure_mem : ∀ {rs : List (Except Error Unit)} {e : Error},
    firstFailure rs = some e → Except.error e ∈ rs
  | [], _, h => nomatch h
  | .error e' :: _, _, h => by
    cases h
    exact List.mem_cons_self
  | .ok () :: rs, _, h => List.mem_cons_of_mem _ (firstFailure_mem h)

theorem throwFirst_error {W : Type} {rs : List (Except Error Unit)} {w : W} {e : Error}
    (h : ((throwFirst rs : Run W Unit).exec w).1 = .error e) : Except.error e ∈ rs := by
  unfold throwFirst at h
  cases hf : firstFailure rs with
  | none => simp [hf] at h
  | some e' =>
    simp only [hf, Run.exec_throw, Except.error.injEq] at h
    exact h ▸ firstFailure_mem hf

end EntityIndex.Indexing.Coordinator

namespace EntityIndex.Requests

open EntityIndex.Bucket EntityIndex.Bucket.Shelf EntityIndex.Indexing EntityIndex.Run

section Writer

variable {ty k : String} {refused : List String}

theorem deskPersist_exec (fail : Bool) (d : Desk) :
    (deskPersist fail).exec d =
      (if fail then .error (.injected "persist failed") else .ok (), { d with persisted := true }) := by
  cases fail <;> simp [deskPersist, exec_bind]

/-- An enqueue fails only when its interface is refused, with an injected failure. -/
theorem enqueue_kind (rec : WorkflowRecord) (d : Desk) {e : Error}
    (h : (((deskWriter ty k refused).enqueue rec).exec d).1 = .error e) : e.kind = .injected := by
  by_cases hr : rec.iface ∈ refused
  · simp only [deskWriter, List.contains_iff_mem, hr, ↓reduceIte, exec_bind, exec_throw] at h
    cases h
    rfl
  · simp [enqueue_exec rec hr] at h

theorem enqueueAll_kind (recs : List WorkflowRecord) (d : Desk) {e : Error}
    (h : ((Coordinator.enqueueAll (deskWriter ty k refused) recs).exec d).1 = .error e) :
    e.kind = .injected := by
  obtain ⟨rs, d', hrs, hinj⟩ := mapM_results (fun rec => Run.attempt ((deskWriter ty k refused).enqueue rec))
    (fun r => ∀ e, r = .error e → e.kind = .injected)
    (fun rec w => ⟨_, _, exec_attempt _ w, fun _ he => enqueue_kind rec w he⟩) recs d
  simp only [Coordinator.enqueueAll, exec_bind, hrs] at h
  exact hinj _ (Coordinator.throwFirst_error h) e rfl

theorem records_ok (us : Updates) (skip : List (String × MemberUpdate) → Bool) (d : Desk) :
    ∃ recs d', (Coordinator.records (deskWriter ty k refused) us skip).exec d = (.ok recs, d') := by
  unfold Coordinator.records
  refine mapM_ok _ (fun ⟨iface, ms⟩ w => ?_) _ d
  simp only [exec_bind, freshId_exec, exec_pure]
  exact ⟨_, _, rfl⟩

/-- The lazy updates fail only where the writer or the persist fails, with an injected failure. -/
theorem applyLazy_kind (c : Coordinator) (us : Updates) (t fail : Bool) (d : Desk) {e : Error}
    (h : ((c.applyLazy (deskWriter ty k refused) us t (deskPersist fail)).exec d).1 = .error e) :
    e.kind = .injected := by
  unfold Coordinator.applyLazy at h
  split at h
  · obtain ⟨recs, d₁, hrec⟩ := @records_ok ty k refused us
      (fun _ => false) d
    rw [exec_bind, hrec] at h
    dsimp only at h
    rw [exec_bind] at h
    rcases hq : (Coordinator.enqueueAll (deskWriter ty k refused) recs).exec d₁ with ⟨q, d₂⟩
    rw [hq] at h
    rcases q with e' | ⟨⟩
    · cases h
      exact enqueueAll_kind recs d₁ (by rw [hq])
    · cases fail <;> simp [exec_bind, exec_attempt, deskPersist_exec] at h
      rw [← h]
      rfl
  · obtain ⟨recs, d₁, hrec⟩ := @records_ok ty k refused us
      (fun ms => !t && ms.all fun x => c.isUnique x.1) d
    simp only [exec_bind, hrec, exec_attempt, deskPersist_exec] at h
    rcases List.mem_pair.1 (Coordinator.throwFirst_error h) with hp | hq
    · cases fail <;> simp at hp
      rw [hp]
      rfl
    · exact enqueueAll_kind recs _ hq.symm

/-- On a desk whose shelf is ready for the eager updates, these fail only where the persist
fails or an update fails for a reason other than uniqueness. -/
theorem applyEager_kind {c : Coordinator} {us : Updates} {t fail : Bool} {d : Desk}
    {B₀ : String → State} (hd : c.Distinct) (hz₀ : Viewable B₀) (hclean : Clean d.shelf)
    (hready : Coordinator.EagerReady c ⟨ty, k⟩ B₀
      (us.byInterface.flatMap fun q => q.2.filter fun m => !(c.isUnique m.1 && !t)) (view d.shelf))
    {e : Error} (h : ((c.applyEager ⟨ty, k⟩ us t (deskPersist fail)).exec d).1 = .error e) :
    e.kind ≠ .uniqueness := by
  set todo := us.byInterface.flatMap fun q => q.2.filter fun m => !(c.isUnique m.1 && !t)
  have hexec : (c.applyEager ⟨ty, k⟩ us t (deskPersist fail)).exec d =
      ((do
        let p ← Run.attempt (deskPersist fail)
        let rs ← todo.mapM fun q => Run.attempt (c.applyTo q.1 ⟨ty, k⟩ (IndexUpdate.plain q.2))
        Coordinator.throwFirst (p :: rs)) : Run Desk Unit).exec d := rfl
  obtain ⟨rs, B', hrs, herr⟩ := Coordinator.eager_runs hd hz₀ todo _ hready
  obtain ⟨w', hx, -⟩ := hrs d.shelf hclean rfl
  have hon := OnShelf.mapM desk_carries (fun q => OnShelf.attempt
    (Coordinator.applyTo_onShelf desk_carries rfl c q.1 ⟨ty, k⟩ (IndexUpdate.plain q.2))) todo
  rw [hexec, exec_bind, exec_attempt, deskPersist_exec] at h
  dsimp only at h
  rw [exec_bind, hon] at h
  simp only [hx] at h
  rcases List.mem_cons.1 (Coordinator.throwFirst_error h) with hp | hp
  · cases fail <;> simp at hp
    rw [hp]
    decide
  · exact herr e hp

/-- After the unique phase, the rest of a write fails only where the persist or the writer
fails, or where an eager update fails for a reason other than uniqueness. -/
theorem rest_kind {c : Coordinator} {us : Updates} {t fail : Bool} {d : Desk} {v : Images}
    {B₀ : String → State} (hd : c.Distinct) (hz₀ : Viewable B₀) (hclean : Clean d.shelf)
    (hready : Coordinator.EagerReady c ⟨ty, k⟩ B₀
      (us.byInterface.flatMap fun q => q.2.filter fun m => !(c.isUnique m.1 && !t)) (view d.shelf))
    {e : Error} (h : ((if us.eager then do
        c.applyEager ⟨ty, k⟩ us t (deskPersist fail)
        pure v
      else do
        c.applyLazy (deskWriter ty k refused) us t (deskPersist fail)
        pure v).exec d).1 = .error e) :
    e.kind ≠ .uniqueness := by
  split at h
  · exact applyEager_kind hd hz₀ hclean hready (exec_then_pure_error h)
  · rw [applyLazy_kind c us t fail d (exec_then_pure_error h)]
    decide

end Writer

/-- A write refused for uniqueness leaves no trace: the desk afterwards differs from the desk
before in its shelf only, so the entity was not persisted, no record was enqueued and no stand-in
changed; every bucket holds the entries it held before; and every bucket outside the indexes of
the write's unique updates is as it was. This needs indexes that never share a bucket and keep
their chains inside their own buckets, a write that updates each index once, and unique indexes
ready for their updates: their buckets refine a flat bucket on which the before-images hold. -/
theorem uniqueness_violation_leaves_no_trace {c : Coordinator} {ty k : String}
    {refused : List String} {fail : Bool} {images : Images} {us : Updates} {d d' : Desk}
    {e : Error} (hd : c.Distinct) (hnames : ((us.byInterface.flatMap Prod.snd).map Prod.fst).Nodup)
    (hclean : Clean d.shelf) (hL : c.LinksInside (view d.shelf))
    (hready : ∀ p ∈ c.uniqueUpdates us, ∃ x, c.indexes.lookup p.1 = some x ∧
      Ready x (view d.shelf) ⟨ty, k⟩ p.2)
    (hrun : (c.apply (deskWriter ty k refused) images us (deskPersist fail)).exec d = (.error e, d'))
    (hkind : e.kind = .uniqueness) :
    d' = { d with shelf := d'.shelf } ∧
      (∀ id key, State.entry? (view d'.shelf id) key = State.entry? (view d.shelf id) key) ∧
      ∀ id, c.Outside (c.uniqueUpdates us) id → view d'.shelf id = view d.shelf id := by
  have hz₀ : Viewable (view d.shelf) := ⟨d.shelf, hclean, rfl⟩
  cases hne : us.empty
  · by_cases hnum : 0 < us.numUnique
    · obtain ⟨res, B', hruns, hok, herr⟩ :=
        Coordinator.applyUnique_runs (r := ⟨ty, k⟩) hd hz₀ hL hnames hready
      obtain ⟨w', hx, hcw', hvw'⟩ := hruns d.shelf hclean rfl
      have hU : (c.applyUnique ⟨ty, k⟩ us).exec d = (res, { d with shelf := w' }) := by
        rw [Coordinator.applyUnique_onShelf desk_carries rfl c ⟨ty, k⟩ us d, hx]
      simp only [Coordinator.apply, hne, hnum, Bool.false_eq_true, ↓reduceIte, exec_bind,
        deskWriter_ref, hU] at hrun
      rcases res with e' | t
      · -- refused in the unique phase, after the undo
        simp only [Prod.mk.injEq, Except.error.injEq] at hrun
        obtain ⟨rfl, rfl⟩ := hrun
        obtain ⟨hent, hframe⟩ := herr e' rfl hkind
        refine ⟨rfl, fun id key => ?_, fun id hout => ?_⟩
        · simpa only [hvw'] using hent id key
        · simpa only [hvw'] using hframe id hout
      · -- accepted: nothing after the unique phase fails for uniqueness
        obtain ⟨-, hprog⟩ := hok t rfl
        rw [← hvw'] at hprog
        exact absurd hkind (rest_kind hd hz₀ hcw'
          (Coordinator.EagerReady.of_progress hnames hready hprog) (congrArg Prod.fst hrun))
    · simp only [Coordinator.apply, hne, hnum, Bool.false_eq_true, ↓reduceIte, exec_bind,
        exec_pure] at hrun
      exact absurd hkind (rest_kind hd hz₀ hclean (Coordinator.EagerReady.of_final hz₀ hL hnames)
        (congrArg Prod.fst hrun))
  · -- no updates: only the persist runs
    simp only [Coordinator.apply, hne, ↓reduceIte, exec_bind, deskPersist_exec] at hrun
    cases fail <;> simp at hrun
    rw [← hrun.1] at hkind
    exact absurd hkind (by decide)

/-- The unique index `nick` of type `player`. -/
def nickIndex : Index := ⟨"player.nick", { name := "nick", unique := true }⟩

/-- The index `level` of type `player`, which is not unique. -/
def levelIndex : Index := ⟨"player.level", { name := "level" }⟩

/-- A fault-tolerant coordinator of the indexes `level` and `nick`. -/
def nickAndLevel : Coordinator := ⟨true, [("level", levelIndex), ("nick", nickIndex)]⟩

/-- A desk where entity `b` holds the key of text `x` in `nick`. -/
def nickTaken : Desk := { shelf := ((nickIndex.apply ⟨"player", "b"⟩ insertX).exec {}).2 }

/-- A write that inserts `3` into `level` and `x` into `nick`. -/
def levelAndNick : Updates :=
  { byInterface := [("IPlayer", [("level", ⟨.insert, Key.null, ⟨"i:3"⟩⟩),
      ("nick", ⟨.insert, Key.null, ⟨"s:x"⟩⟩)])], numUnique := 1 }

set_option maxRecDepth 200000 in
/-- Entity `b` holds `x` in `nick` when entity `a` writes `x` there, together with `3` in
`level`: the write is refused for uniqueness and leaves no trace. -/
theorem taken_nick_leaves_no_trace :
    ∃ e d', (nickAndLevel.apply (deskWriter "player" "a" []) {} levelAndNick
        (deskPersist false)).exec nickTaken = (.error e, d') ∧ e.kind = .uniqueness ∧
      d' = { nickTaken with shelf := d'.shelf } ∧
      (∀ id key, State.entry? (view d'.shelf id) key = State.entry? (view nickTaken.shelf id) key) ∧
      ∀ id, nickAndLevel.Outside (nickAndLevel.uniqueUpdates levelAndNick) id →
        view d'.shelf id = view nickTaken.shelf id := by
  have hk : (match ((nickAndLevel.apply (deskWriter "player" "a" []) {} levelAndNick
      (deskPersist false)).exec nickTaken).1 with
      | .error e => decide (e.kind = .uniqueness)
      | .ok _ => false) = true := by decide +kernel
  have hA := Applied.call ⟨"player", "b"⟩ insertX (Applied.empty (x := nickIndex)) rfl
  obtain ⟨hclean, len, hR, hlen⟩ := hA.refines (by decide)
  have hnick : nickIndex.restrict (view nickTaken.shelf) = view nickTaken.shelf :=
    hA.restrict_view (by decide)
  have hlevel : levelIndex.restrict (view nickTaken.shelf) = fun _ => {} :=
    hA.restrict_other (by decide) (by decide)
  have hF : (nickIndex.flatApply {} ⟨"player", "b"⟩ insertX).entries =
      [(⟨"s:x"⟩, ⟨[⟨"player", "b"⟩], .none⟩)] := by decide
  have hb : BeforeImage (nickIndex.flatApply {} ⟨"player", "b"⟩ insertX) ⟨"player", "a"⟩ insertX := by
    refine ⟨fun k e he => ?_, fun k e he hc => ?_, fun h => ?_, .inl rfl, fun h => ?_, rfl⟩
    · by_cases hk : k = ⟨"s:x"⟩ <;> simp [State.entry?, hF, hk] at he
      exact ⟨_, by rw [← he]⟩
    · by_cases hk : k = ⟨"s:x"⟩ <;> simp [State.entry?, hF, hk] at he
      rw [← he] at hc
      exact absurd hc (by decide)
    · simp [insertX] at h
    · simp [insertX] at h
  have hready : ∀ p ∈ nickAndLevel.uniqueUpdates levelAndNick, ∃ x,
      nickAndLevel.indexes.lookup p.1 = some x ∧ Ready x (view nickTaken.shelf) ⟨"player", "a"⟩ p.2 := by
    have hU : nickAndLevel.uniqueUpdates levelAndNick = [("nick", insertX)] := by decide +kernel
    rw [hU]
    intro p hp
    rw [List.mem_singleton.1 hp]
    refine ⟨nickIndex, rfl, rfl, _, len, by rw [hnick]; exact hR, fun q => ?_, hb⟩
    have := hlen q
    simp only [chainLimit]
    omega
  have hL : nickAndLevel.LinksInside (view nickTaken.shelf) := by
    intro n x hx
    simp only [nickAndLevel, lookup_cons_eq_ite] at hx
    split_ifs at hx
    · -- the index `level` has no bucket on the desk
      cases hx
      have hempty := (Refines.empty levelIndex).linksInside
      rw [← hlevel] at hempty
      exact hempty.congr (Index.agree_restrict _).symm
    · cases hx
      exact hR.linksInside
    · cases hx
  rcases hrun : (nickAndLevel.apply (deskWriter "player" "a" []) {} levelAndNick
      (deskPersist false)).exec nickTaken with ⟨res, d'⟩
  rw [hrun] at hk
  rcases res with e | im
  · have hkind : e.kind = .uniqueness := by simpa using hk
    exact ⟨e, d', rfl, hkind, uniqueness_violation_leaves_no_trace (by decide) (by decide) hclean
      hL hready hrun hkind⟩
  · simp at hk

end EntityIndex.Requests
