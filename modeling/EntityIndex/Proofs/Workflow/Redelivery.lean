import EntityIndex.Proofs.Bucket.HostVia
import EntityIndex.Requests.Handlers
import EntityIndex.Proofs.Model.Maps

/-!
# Redelivering a pass

A queue delivers a pass at least once, so a handler may run the same chain of records twice.
With fault tolerance a record counts only while its entity lists the record's identifier as
active, and after a pass the handler asks every entity to forget the identifiers it confirmed.
Once those requests went through, a second delivery finds nothing confirmed: it applies the
reverse of every unique update of the chain, whether the first delivery applied the update or
not, and nothing else. Without fault tolerance every record counts both times, so the second
delivery applies the same batches again (`redelivery_applies_unconfirmed_batches`).

So a second delivery of a fault-tolerant pass leaves the indexes as the first left them when no
index is unique, and on a unique index it takes back what the first delivery put in
(`redelivery_undoes_confirmed_insert`).

The entities are those of `benchEntities`: they keep active sets, some cannot be reached and some
fail to forget. Batches reach only the shelf of buckets, so the proof separates the two: the
buckets through `OnShelf`, the active sets through the entity calls.
-/

namespace EntityIndex.Bucket

open Run

namespace OnShelf

variable {W α : Type} {view : W → Shelf} {update : W → Shelf → W}

theorem attemptAll_map (hc : Carries view update) {f : α → Run W Unit} {g : α → Run Shelf Unit}
    (hf : ∀ a, OnShelf view update (f a) (g a)) :
    ∀ l : List α, OnShelf view update (Run.attemptAll (l.map f)) (Run.attemptAll (l.map g))
  | [] => pure hc _
  | a :: l => by
    simp only [List.map_cons, Run.attemptAll]
    refine bind hc (attempt (hf a)) fun r => bind hc (attemptAll_map hc hf l) fun es => ?_
    cases r with
    | ok u => exact pure hc _
    | error e => exact pure hc _

end OnShelf

section Host

variable {W : Type} {view : W → Shelf} {update : W → Shelf → W} [inst : Host W]

theorem applyBatchAt_onShelf (hc : Carries view update) (hh : inst = Shelf.hostVia view update)
    (m : IndexMeta) (id : String) (items : List Item) :
    OnShelf view update (applyBatchAt m id items : Run W (List Item)) (applyBatchAt m id items) := by
  refine OnShelf.bind hc (resolve_onShelf hc hh id) fun s => ?_
  dsimp only
  split
  · exact OnShelf.bind hc (commit_onShelf hc hh id _) fun _ => OnShelf.pure hc _
  · exact OnShelf.pure hc _

theorem applyChainBatch_onShelf (hc : Carries view update) (hh : inst = Shelf.hostVia view update)
    (x : Index) :
    ∀ (fuel : Nat) (id : String) (items : List Item),
      OnShelf view update (x.applyChainBatch fuel id items : Run W Unit)
        (x.applyChainBatch fuel id items)
  | 0, _, _ => OnShelf.throw hc _
  | fuel + 1, id, items => by
    simp only [Index.applyChainBatch]
    split
    · exact OnShelf.pure hc _
    · refine OnShelf.bind hc (applyBatchAt_onShelf hc hh x.desc id items) fun rest => ?_
      split
      · exact OnShelf.pure hc _
      · exact OnShelf.bind hc (successor_onShelf hc hh id) fun next =>
          applyChainBatch_onShelf hc hh x fuel next rest

theorem Index.applyBatch_onShelf (hc : Carries view update) (hh : inst = Shelf.hostVia view update)
    (x : Index) (items : List Item) :
    OnShelf view update (x.applyBatch items : Run W Unit) (x.applyBatch items) := by
  refine OnShelf.bind hc (OnShelf.attemptAll_map hc (fun (p : Nat × List Item) => ?_) _)
    fun errs => ?_
  · exact applyChainBatch_onShelf hc hh x _ _ p.2
  split
  · exact OnShelf.throw hc _
  · exact OnShelf.pure hc _

end Host

end EntityIndex.Bucket

namespace EntityIndex.Workflow

open EntityIndex.Bucket Run

namespace PassHandler

variable {W : Type} [Host W]

/-- The end of a fault-tolerant pass: every entity is asked to forget the identifiers it
confirmed, and a failure to forget is ignored. -/
def forgetConfirmed (ents : Entities W) (active : List (EntityRef × List Uuid)) : Run W Unit :=
  active.forM fun (ref, ids) => do
    if !ids.isEmpty then
      let _ ← Run.attempt (ents.forget ref (Uuid.sorted ids))

omit [Host W] in
/-- Delivering what a fault-tolerant pass sends is asking each entity with confirmed identifiers
to forget them. -/
theorem confirm_sent (ents : Entities W) : ∀ active : List (EntityRef × List Uuid),
    confirm ents ((active.filter fun c => !c.2.isEmpty).map fun c => (c.1, Uuid.sorted c.2)) =
      forgetConfirmed ents active
  | [] => rfl
  | (ref, ids) :: rest => by
    have ih := confirm_sent ents rest
    unfold forgetConfirmed confirm at ih ⊢
    by_cases hids : ids.isEmpty = true
    · simp only [List.filter_cons, hids, Bool.not_true, Bool.false_eq_true, ↓reduceIte, List.forM,
        ih, pure_bind]
    · simp only [List.filter_cons, hids, Bool.not_false, ↓reduceIte, List.map_cons, List.forM, ih]

/-- A pass followed by the delivery of its confirmations. -/
theorem handle_eq (h : PassHandler) (ents : Entities W) (rs : List WorkflowRecord) :
    h.handle ents rs =
      (if rs.isEmpty then pure ()
      else do
        let active ← if h.faultTolerant then fetchActive ents (passIds rs) else pure []
        h.applyBatches (h.batches (fun r =>
          !h.faultTolerant || ((active.lookup r.entity).getD []).contains r.id) rs)
        if h.faultTolerant then forgetConfirmed ents active) := by
  unfold handle sendPass
  by_cases hrs : rs.isEmpty = true
  · simp only [hrs, ↓reduceIte, pure_bind]
    rfl
  -- the pass sends its confirmations only with fault tolerance
  · cases h.faultTolerant
    · simp only [hrs, Bool.false_eq_true, ↓reduceIte, bind_assoc, pure_bind]
      rfl
    · simp only [hrs, Bool.false_eq_true, ↓reduceIte, bind_assoc, pure_bind, confirm_sent]

/-- What one record adds to the identifiers of a pass. -/
def passStep (acc : List (EntityRef × List Uuid)) (r : WorkflowRecord) :
    List (EntityRef × List Uuid) :=
  if !r.hasRealUpdate then acc
  else
    match acc.lookup r.entity with
    | some ids =>
      if ids.contains r.id then acc
      else acc.map fun (e, is) => if e = r.entity then (e, is ++ [r.id]) else (e, is)
    | none => acc ++ [(r.entity, [r.id])]

theorem passIds_eq (rs : List WorkflowRecord) : passIds rs = rs.foldl passStep [] :=
  rfl

/-- A record keeps the entities of a pass and adds at most its own. -/
theorem fst_of_mem_passStep {acc : List (EntityRef × List Uuid)} {r : WorkflowRecord}
    {q : EntityRef × List Uuid} (hq : q ∈ passStep acc r) :
    (∃ q' ∈ acc, q'.1 = q.1) ∨ q.1 = r.entity := by
  unfold passStep at hq
  split at hq
  · exact .inl ⟨q, hq, rfl⟩
  · split at hq
    · split at hq
      · exact .inl ⟨q, hq, rfl⟩
      · obtain ⟨q', hq', rfl⟩ := List.mem_map.1 hq
        refine .inl ⟨q', hq', ?_⟩
        dsimp only
        split <;> rfl
    · rcases List.mem_append.1 hq with hq | hq
      · exact .inl ⟨q, hq, rfl⟩
      · rw [List.mem_singleton] at hq
        exact .inr (by rw [hq])

/-- The entities of a pass are entities of its records. -/
theorem mem_passIds {rs : List WorkflowRecord} {p : EntityRef × List Uuid}
    (hp : p ∈ passIds rs) : ∃ r ∈ rs, r.entity = p.1 := by
  -- the fold keeps what it had and adds entities of the records it reads
  have H : ∀ (rs' : List WorkflowRecord) (acc : List (EntityRef × List Uuid)),
      ∀ q ∈ rs'.foldl passStep acc, (∃ q' ∈ acc, q'.1 = q.1) ∨ ∃ r ∈ rs', r.entity = q.1 := by
    intro rs'
    induction rs' with
    | nil => intro acc q hq; exact .inl ⟨q, hq, rfl⟩
    | cons r rs' ih =>
      intro acc q hq
      rcases ih _ q hq with ⟨q', hq', he⟩ | ⟨r', hr', he⟩
      · rcases fst_of_mem_passStep hq' with ⟨q'', hq'', he'⟩ | he'
        · exact .inl ⟨q'', hq'', he'.trans he⟩
        · exact .inr ⟨r, List.mem_cons_self, he'.symm.trans he⟩
      · exact .inr ⟨r', List.mem_cons_of_mem r hr', he⟩
  rw [passIds_eq] at hp
  rcases H rs [] p hp with ⟨_, hq, _⟩ | h
  · cases hq
  · exact h

theorem applyBatches_nil (h : PassHandler) (w : W) : (h.applyBatches []).exec w = (.ok (), w) :=
  rfl

omit [Host W] in
/-- Asking to forget nothing does nothing. -/
theorem forgetConfirmed_of_empty (ents : Entities W) :
    ∀ l : List (EntityRef × List Uuid), (∀ p ∈ l, p.2 = []) →
      ∀ w, (forgetConfirmed ents l).exec w = (.ok (), w)
  | [], _, _ => rfl
  | (ref, cs) :: l, hl, w => by
    have hc : cs = [] := hl (ref, cs) List.mem_cons_self
    subst hc
    simp only [forgetConfirmed, List.forM, exec_bind]
    rw [if_neg (by simp)]
    exact forgetConfirmed_of_empty ents l (fun p hp => hl p (List.mem_cons_of_mem _ hp)) w

/-- Without fault tolerance every record counts, whatever the world. -/
theorem handle_of_not_faultTolerant (h : PassHandler) (hft : h.faultTolerant = false)
    (ents : Entities W) (rs : List WorkflowRecord) (w : W) :
    (h.handle ents rs).exec w = (h.applyBatches (h.batches (fun _ => true) rs)).exec w := by
  rw [handle_eq]
  by_cases hne : rs.isEmpty = true
  · rw [if_pos hne, List.isEmpty_iff.1 hne]
    rfl
  · rw [if_neg hne]
    simp only [hft, Bool.not_false, Bool.true_or, Bool.false_eq_true, ↓reduceIte, exec_bind,
      exec_pure]
    rcases (h.applyBatches (h.batches (fun _ => true) rs)).exec w with ⟨r, w'⟩
    cases r <;> rfl

/-- With nothing confirmed and no unique index, a pass has no batch. -/
theorem batches_unconfirmed_of_not_unique (h : PassHandler)
    (hu : ∀ p ∈ h.indexes, p.2.desc.unique = false) (rs : List WorkflowRecord) :
    h.batches (fun _ => false) rs = [] := by
  -- each update of each record leaves the empty batches as they were
  unfold batches
  refine List.foldl_fixed' (fun r => ?_) rs
  refine List.foldl_fixed' (fun up => ?_) r.updates
  obtain ⟨name, m⟩ := up
  dsimp only
  split
  · rfl
  · split
    · rfl
    · rename_i x hx
      have hxu : x.desc.unique = false := hu _ (mem_of_lookup_eq_some hx)
      simp [hxu]

end PassHandler

end EntityIndex.Workflow

namespace EntityIndex.Requests

open EntityIndex.Bucket EntityIndex.Workflow Run

/-! ## Batches reach only the shelf -/

theorem bench_carries : Carries Bench.shelf fun b s => { b with shelf := s } :=
  ⟨fun _ _ => rfl, fun _ _ _ => rfl, fun _ => rfl⟩

theorem applyBatches_onShelf (h : PassHandler) (bs : List (String × List Item)) :
    OnShelf Bench.shelf (fun b s => { b with shelf := s }) (h.applyBatches bs : Run Bench Unit)
      (h.applyBatches bs) := by
  unfold PassHandler.applyBatches
  refine OnShelf.bind bench_carries
    (OnShelf.attemptAll_map bench_carries (fun (p : String × List Item) => ?_) _) fun errs => ?_
  · dsimp only
    split
    · refine OnShelf.bind bench_carries
        (OnShelf.attempt (Index.applyBatch_onShelf bench_carries rfl _ _)) fun r => ?_
      cases r with
      | ok u => exact OnShelf.pure bench_carries _
      | error e => exact OnShelf.throw bench_carries _
    · exact OnShelf.pure bench_carries _
  · split
    · exact OnShelf.throw bench_carries _
    · exact OnShelf.pure bench_carries _

/-! ## Active sets -/

namespace Bench

@[simp]
theorem unreachable_setActive (b : Bench) (ref : EntityRef) (ids : List Uuid) :
    (b.setActive ref ids).unreachable = b.unreachable := by
  unfold setActive
  split <;> rfl

@[simp]
theorem stubborn_setActive (b : Bench) (ref : EntityRef) (ids : List Uuid) :
    (b.setActive ref ids).stubborn = b.stubborn := by
  unfold setActive
  split <;> rfl

/-- The active set an entity reports; an entity the bench does not know has none. -/
def activeOf (b : Bench) (ref : EntityRef) : List Uuid := (b.active.lookup ref).getD []

theorem lookup_setActive_map {ref x : EntityRef} {ids : List Uuid} :
    ∀ l : List (EntityRef × List Uuid),
      (l.map fun (e, is) => if e = ref then (e, ids) else (e, is)).lookup x =
        if x = ref then (l.lookup ref).map fun _ => ids else l.lookup x
  | [] => by simp
  | (e, is) :: l => by
    have ih := @lookup_setActive_map ref x ids l
    by_cases he : e = ref
    · subst he
      by_cases hx : x = e <;> simp_all
    · by_cases hx : x = e
      · subst hx; simp [he]
      · by_cases hxr : x = ref <;> simp_all

theorem lookup_append_single {ref x : EntityRef} {ids : List Uuid} :
    ∀ l : List (EntityRef × List Uuid), l.lookup ref = none →
      (l ++ [(ref, ids)]).lookup x = if x = ref then some ids else l.lookup x
  | [], _ => by by_cases hx : x = ref <;> simp [hx]
  | (e, is) :: l, h => by
    have hne : ref ≠ e := by
      intro hre
      simp [hre] at h
    have ih := @lookup_append_single ref x ids l (by simpa [hne] using h)
    by_cases hx : x = e
    · subst hx; simp [Ne.symm hne]
    · simp [hx, ih]

/-- Setting an entity's active set changes that entity's only. -/
theorem activeOf_setActive (b : Bench) (ref x : EntityRef) (ids : List Uuid) :
    (b.setActive ref ids).activeOf x = if x = ref then ids.eraseDups else b.activeOf x := by
  unfold setActive activeOf
  split
  · rename_i hs
    rw [lookup_setActive_map]
    by_cases hx : x = ref
    · obtain ⟨is, his⟩ := Option.isSome_iff_exists.1 hs
      simp [hx, his]
    · simp [hx]
  · rename_i hs
    rw [lookup_append_single _ (Option.not_isSome_iff_eq_none.1 hs)]
    by_cases hx : x = ref <;> simp [hx]

end Bench

/-! ## Asking entities for their active sets -/

theorem activeIds_exec (b : Bench) (ref : EntityRef) :
    (benchEntities.activeIds ref).exec b =
      (if ref ∈ b.unreachable then .error (.context ("entity " ++ ref.text) Error.unreachable)
        else .ok (b.activeOf ref), b) := by
  by_cases hu : ref ∈ b.unreachable <;> simp [benchEntities, exec_bind, hu, Bench.activeOf]

theorem askAll_exec (b : Bench) : ∀ pass : List (EntityRef × List Uuid),
    (PassHandler.askAll benchEntities pass).exec b =
      (.ok (pass.map fun p => (p.1, p.2, ((benchEntities.activeIds p.1).exec b).1)), b)
  | [] => rfl
  | p :: pass => by
    have hb : ((benchEntities.activeIds p.1).exec b).2 = b := by
      rw [activeIds_exec]
    simp only [PassHandler.askAll, exec_bind, exec_attempt, hb, askAll_exec b pass, exec_pure,
      List.map_cons]

/-- Asking one more entity: its confirmed identifiers go in front, unless it cannot be reached. -/
theorem fetchActive_cons (b : Bench) (p : EntityRef × List Uuid)
    (pass : List (EntityRef × List Uuid)) :
    (PassHandler.fetchActive benchEntities (p :: pass)).exec b =
      if p.1 ∈ b.unreachable then
        (.error (.context ("active workflows of " ++ p.1.text)
          (.context ("entity " ++ p.1.text) Error.unreachable)), b)
      else
        match (PassHandler.fetchActive benchEntities pass).exec b with
        | (.ok a, b') => (.ok ((p.1, p.2.filter (b.activeOf p.1).contains) :: a), b')
        | (.error e, b') => (.error e, b') := by
  unfold PassHandler.fetchActive
  rw [exec_bind, exec_bind, askAll_exec, askAll_exec]
  by_cases hu : p.1 ∈ b.unreachable
  · simp [List.mapM_cons, activeIds_exec, hu]
  · simp only [List.map_cons, List.mapM_cons, exec_bind, activeIds_exec, hu, if_false, exec_pure]
    split <;> rename_i heq <;> rw [heq]

/-- Asking entities leaves the bench as it was. -/
theorem fetchActive_state (b : Bench) : ∀ pass : List (EntityRef × List Uuid),
    ((PassHandler.fetchActive benchEntities pass).exec b).2 = b
  | [] => rfl
  | p :: pass => by
    rw [fetchActive_cons]
    split
    · rfl
    · have ih := fetchActive_state b pass
      revert ih
      rcases (PassHandler.fetchActive benchEntities pass).exec b with ⟨r, b'⟩
      cases r <;> exact id

/-- When every entity of the pass answers, each confirms the pass's identifiers it lists. -/
theorem fetchActive_of_reachable (b : Bench) : ∀ pass : List (EntityRef × List Uuid),
    (∀ p ∈ pass, p.1 ∉ b.unreachable) →
      (PassHandler.fetchActive benchEntities pass).exec b =
        (.ok (pass.map fun p => (p.1, p.2.filter (b.activeOf p.1).contains)), b)
  | [], _ => rfl
  | p :: pass, hr => by
    rw [fetchActive_cons, if_neg (hr p List.mem_cons_self),
      fetchActive_of_reachable b pass fun q hq => hr q (List.mem_cons_of_mem p hq)]
    rfl

/-- A pass whose entities were asked without failure has every entity reachable. -/
theorem reachable_of_fetchActive (b : Bench) : ∀ pass : List (EntityRef × List Uuid),
    ∀ a, ((PassHandler.fetchActive benchEntities pass).exec b).1 = .ok a →
      ∀ p ∈ pass, p.1 ∉ b.unreachable
  | [], _, _ => by simp
  | p :: pass, a, h => by
    rw [fetchActive_cons] at h
    split at h
    · cases h
    · rename_i hu
      have ih := reachable_of_fetchActive b pass
      revert h ih
      rcases (PassHandler.fetchActive benchEntities pass).exec b with ⟨r, b'⟩
      cases r with
      | error e => intro h; cases h
      | ok a' =>
        intro _ ih q hq
        rcases List.mem_cons.1 hq with rfl | hq
        · exact hu
        · exact ih a' rfl q hq

/-! ## Forgetting confirmed identifiers -/

/-- What asking the entities of `l` to forget their identifiers leaves of a bench: the same
failures, active sets that only shrank, and none of the identifiers of `l` still active at an
entity that forgets. -/
structure Forgot (b b' : Bench) (l : List (EntityRef × List Uuid)) : Prop where
  /-- The same entities cannot be reached. -/
  unreachable : b'.unreachable = b.unreachable
  /-- The same entities fail to forget. -/
  stubborn : b'.stubborn = b.stubborn
  /-- Active sets only shrink. -/
  shrinks : ∀ x id, id ∈ b'.activeOf x → id ∈ b.activeOf x
  /-- An entity that forgets lists none of its identifiers of `l`. -/
  forgot : ∀ p ∈ l, p.1 ∉ b.stubborn → ∀ id ∈ p.2, id ∉ b'.activeOf p.1

theorem Forgot.nil (b : Bench) : Forgot b b [] :=
  ⟨rfl, rfl, fun _ _ h => h, fun _ h => nomatch h⟩

theorem Forgot.cons {b₁ b₂ b₃ : Bench} {p : EntityRef × List Uuid} {l : List (EntityRef × List Uuid)}
    (h₁ : Forgot b₁ b₂ [p]) (h₂ : Forgot b₂ b₃ l) : Forgot b₁ b₃ (p :: l) where
  unreachable := h₂.unreachable.trans h₁.unreachable
  stubborn := h₂.stubborn.trans h₁.stubborn
  shrinks x id h := h₁.shrinks x id (h₂.shrinks x id h)
  forgot q hq hs id hid := by
    rcases List.mem_cons.1 hq with rfl | hq
    · exact fun h => h₁.forgot q List.mem_cons_self hs id hid (h₂.shrinks _ _ h)
    · exact h₂.forgot q hq (h₁.stubborn ▸ hs) id hid

theorem forget_forgot (b : Bench) (ref : EntityRef) (ids : List Uuid) :
    Forgot b ((benchEntities.forget ref (Uuid.sorted ids)).exec b).2 [(ref, ids)] := by
  by_cases hs : ref ∈ b.stubborn
  · have hb : ((benchEntities.forget ref (Uuid.sorted ids)).exec b).2 = b := by
      simp [benchEntities, exec_bind, hs]
    rw [hb]
    exact ⟨rfl, rfl, fun _ _ h => h, fun p hp hs' => by simp_all⟩
  · cases hl : b.active.lookup ref with
    | none =>
      have hb : ((benchEntities.forget ref (Uuid.sorted ids)).exec b).2 = b := by
        simp [benchEntities, exec_bind, hs, hl]
      rw [hb]
      refine ⟨rfl, rfl, fun _ _ h => h, fun p hp _ id _ => ?_⟩
      simp only [List.mem_singleton] at hp
      subst hp
      simp [Bench.activeOf, hl]
    | some is =>
      have hb : ((benchEntities.forget ref (Uuid.sorted ids)).exec b).2 =
          b.setActive ref (is.filter (!(Uuid.sorted ids).contains ·)) := by
        simp [benchEntities, exec_bind, hs, hl]
      rw [hb]
      refine ⟨by simp, by simp, fun x id h => ?_, fun p hp _ id hid => ?_⟩
      · rw [Bench.activeOf_setActive] at h
        split at h
        · subst x
          simp only [List.mem_eraseDups, List.mem_filter] at h
          simp [Bench.activeOf, hl, h.1]
        · exact h
      · simp only [List.mem_singleton] at hp
        subst hp
        simp [Bench.activeOf_setActive, Uuid.sorted, List.mem_mergeSort, hid]

theorem forgetConfirmed_exec : ∀ (l : List (EntityRef × List Uuid)) (b : Bench),
    ∃ b', (PassHandler.forgetConfirmed benchEntities l).exec b = (.ok (), b') ∧ Forgot b b' l
  | [], b => ⟨b, rfl, Forgot.nil b⟩
  | (ref, cs) :: l, b => by
    obtain ⟨b₂, hb₂, hf₂⟩ := forgetConfirmed_exec l
      ((benchEntities.forget ref (Uuid.sorted cs)).exec b).2
    simp only [PassHandler.forgetConfirmed, List.forM, exec_bind]
    by_cases hc : cs.isEmpty = true
    · -- nothing to forget for this entity
      obtain ⟨b₂, hb₂, hf₂⟩ := forgetConfirmed_exec l b
      refine ⟨b₂, ?_, Forgot.cons ⟨rfl, rfl, fun _ _ h => h, ?_⟩ hf₂⟩
      · rw [if_neg (by simp [hc]), exec_pure]
        exact hb₂
      intro p hp _ id hid
      simp only [List.mem_singleton] at hp
      subst hp
      simp_all
    · refine ⟨b₂, ?_, (forget_forgot b ref cs).cons hf₂⟩
      rw [if_pos (by simpa using hc), exec_bind, exec_attempt]
      exact hb₂

/-! ## Two deliveries of one pass -/

namespace Bench

/-- The identifiers of a pass that a bench's entities confirm: those they list as active. -/
def confirmations (b : Bench) (rs : List WorkflowRecord) : List (EntityRef × List Uuid) :=
  (PassHandler.passIds rs).map fun p => (p.1, p.2.filter (b.activeOf p.1).contains)

/-- The confirmations of a pass were delivered: no identifier of the pass is active any more. -/
def Delivered (b : Bench) (rs : List WorkflowRecord) : Prop :=
  ∀ p ∈ PassHandler.passIds rs, ∀ id ∈ p.2, id ∉ b.activeOf p.1

theorem lookup_map_nil (x : EntityRef) :
    ∀ l : List (EntityRef × List Uuid), ((l.map fun p => (p.1, ([] : List Uuid))).lookup x).getD [] = []
  | [] => rfl
  | (e, is) :: l => by
    by_cases hx : x = e
    · simp [hx]
    · simp [hx, lookup_map_nil x l]

end Bench

/-- A fault-tolerant pass whose entities all answer applies the records they confirm and then asks
them to forget those. -/
theorem handle_of_faultTolerant (h : PassHandler) (hft : h.faultTolerant = true)
    {rs : List WorkflowRecord} (hne : rs.isEmpty = false) {b : Bench}
    (hr : ∀ p ∈ PassHandler.passIds rs, p.1 ∉ b.unreachable) :
    (h.handle benchEntities rs).exec b =
      (h.applyBatches (h.batches (fun r =>
          (((b.confirmations rs).lookup r.entity).getD []).contains r.id) rs) >>= fun _ =>
        PassHandler.forgetConfirmed benchEntities (b.confirmations rs)).exec b := by
  rw [PassHandler.handle_eq, if_neg (by simp [hne])]
  simp only [hft, ↓reduceIte, Bool.not_true, Bool.false_or]
  rw [exec_bind, fetchActive_of_reachable b _ hr]
  rfl

/-- A fault-tolerant delivery that succeeded, to entities that all forget, reached every entity of
its pass, and afterwards its confirmations are delivered. -/
theorem delivered_of_handle (h : PassHandler) (hft : h.faultTolerant = true)
    {rs : List WorkflowRecord} (hne : rs.isEmpty = false) {b : Bench}
    (hs : ∀ r ∈ rs, r.entity ∉ b.stubborn)
    (hok : ((h.handle benchEntities rs).exec b).1 = .ok ()) :
    (∀ p ∈ PassHandler.passIds rs, p.1 ∉ b.unreachable) ∧
      ((h.handle benchEntities rs).exec b).2.unreachable = b.unreachable ∧
      ((h.handle benchEntities rs).exec b).2.Delivered rs := by
  -- the delivery reached every entity of its pass, or it would have failed there
  have hr : ∀ p ∈ PassHandler.passIds rs, p.1 ∉ b.unreachable := by
    rcases hf : (PassHandler.fetchActive benchEntities (PassHandler.passIds rs)).exec b with
      ⟨res, b'⟩
    cases res with
    | ok a => exact reachable_of_fetchActive b _ a (by rw [hf])
    | error e =>
      rw [PassHandler.handle_eq, if_neg (by simp [hne])] at hok
      simp only [hft, ↓reduceIte] at hok
      rw [exec_bind, hf] at hok
      cases hok
  refine ⟨hr, ?_⟩
  rw [handle_of_faultTolerant h hft hne hr] at hok ⊢
  rw [exec_bind, applyBatches_onShelf h _ b] at hok ⊢
  -- the batches reached only the shelf; then the entities forgot what they confirmed
  generalize (h.applyBatches (h.batches (fun r =>
      (((b.confirmations rs).lookup r.entity).getD []).contains r.id) rs)).exec b.shelf = A at hok ⊢
  obtain ⟨res, w'⟩ := A
  cases res with
  | error e => cases hok
  | ok u =>
    obtain ⟨b₁, hb₁, hF⟩ := forgetConfirmed_exec (b.confirmations rs) { b with shelf := w' }
    dsimp only
    rw [hb₁]
    refine ⟨hF.unreachable, fun p hp id hid hact => ?_⟩
    have hact' : id ∈ b.activeOf p.1 := hF.shrinks _ _ hact
    obtain ⟨r, hr', hre⟩ := PassHandler.mem_passIds hp
    exact hF.forgot _ (List.mem_map_of_mem hp) (by rw [← hre]; exact hs r hr') id
      (List.mem_filter.2 ⟨hid, by simpa using hact'⟩) hact

/-- A fault-tolerant delivery after the confirmations of its pass were delivered confirms
nothing. -/
theorem handle_of_delivered (h : PassHandler) (hft : h.faultTolerant = true)
    {rs : List WorkflowRecord} (hne : rs.isEmpty = false) {b : Bench}
    (hr : ∀ p ∈ PassHandler.passIds rs, p.1 ∉ b.unreachable) (hd : b.Delivered rs) :
    (h.handle benchEntities rs).exec b = (h.applyBatches (h.batches (fun _ => false) rs)).exec b := by
  have hc : b.confirmations rs = (PassHandler.passIds rs).map fun p => (p.1, ([] : List Uuid)) := by
    unfold Bench.confirmations
    refine List.map_congr_left fun p hp => ?_
    rw [List.filter_eq_nil_iff.2 fun id hid => by simpa using hd p hp id hid]
  have hconf : (fun r : WorkflowRecord =>
      (((b.confirmations rs).lookup r.entity).getD []).contains r.id) = fun _ => false := by
    funext r
    rw [hc, Bench.lookup_map_nil]
    rfl
  rw [handle_of_faultTolerant h hft hne hr, hconf, exec_bind]
  rcases (h.applyBatches (h.batches (fun _ => false) rs)).exec b with ⟨res, b'⟩
  cases res with
  | error e => rfl
  | ok u =>
    refine PassHandler.forgetConfirmed_of_empty _ _ (fun p hp => ?_) b'
    rw [hc] at hp
    obtain ⟨q, -, rfl⟩ := List.mem_map.1 hp
    rfl

/-! ## Redelivery -/

/-- A second delivery of a pass, after the first succeeded and its confirmations went to entities
that all forget, applies the pass's batches with every record confirmed when the handler is not
fault tolerant, and with none confirmed when it is. So a fault-tolerant redelivery undoes the
chain's unique updates and applies nothing else, and with no unique index it changes nothing. -/
theorem redelivery_applies_unconfirmed_batches (h : PassHandler) (rs : List WorkflowRecord)
    (b : Bench) (hs : ∀ r ∈ rs, r.entity ∉ b.stubborn)
    (hok : ((h.handle benchEntities rs).exec b).1 = .ok ()) :
    (h.handle benchEntities rs).exec ((h.handle benchEntities rs).exec b).2 =
        (h.applyBatches (h.batches (fun _ => !h.faultTolerant) rs)).exec
          ((h.handle benchEntities rs).exec b).2 ∧
      (h.faultTolerant = true → (∀ p ∈ h.indexes, p.2.desc.unique = false) →
        (h.handle benchEntities rs).exec ((h.handle benchEntities rs).exec b).2 =
          (.ok (), ((h.handle benchEntities rs).exec b).2)) := by
  have hagain : (h.handle benchEntities rs).exec ((h.handle benchEntities rs).exec b).2 =
      (h.applyBatches (h.batches (fun _ => !h.faultTolerant) rs)).exec
        ((h.handle benchEntities rs).exec b).2 := by
    cases hft : h.faultTolerant with
    | false => exact PassHandler.handle_of_not_faultTolerant h hft _ _ _
    | true =>
      by_cases hne : rs.isEmpty = true
      · rw [List.isEmpty_iff.1 hne]
        rfl
      · have hne' : rs.isEmpty = false := by simpa using hne
        obtain ⟨hr, hu, hd⟩ := delivered_of_handle h hft hne' hs hok
        exact handle_of_delivered h hft hne' (by rw [hu]; exact hr) hd
  refine ⟨hagain, fun hft hu => ?_⟩
  simp only [hagain, hft, Bool.not_true, PassHandler.batches_unconfirmed_of_not_unique h hu]
  exact PassHandler.applyBatches_nil h _

theorem eq_ok_of_isOk {r : Except Error Unit} (h : r.isOk = true) : r = .ok () := by
  cases r with
  | ok u => rfl
  | error e => cases h

/-- The unique index `email`. -/
def emailIndex : Index := ⟨"player.email", { name := "email", unique := true }⟩

/-- A fault-tolerant handler of the unique index `email`. -/
def emailHandler : PassHandler := ⟨true, [("email", emailIndex)]⟩

/-- Entity `a` takes `s:x` in `email`. -/
def insertXRecord : WorkflowRecord :=
  ⟨⟨1⟩, ⟨"player", "a"⟩, "IPlayer", [("email", diff Key.null ⟨"s:x"⟩)]⟩

/-- Entity `a` lists the record as active. -/
def activeBench : Bench := { active := [(⟨"player", "a"⟩, [⟨1⟩])] }

set_option maxRecDepth 200000 in
/-- Entity `a` takes `s:x` in a unique index, and the pass is delivered twice: the second
delivery applies the reverse of the insert. -/
theorem redelivered_insert_is_reversed :
    (∀ r ∈ [insertXRecord], r.entity ∉ activeBench.stubborn) ∧
    ((emailHandler.handle benchEntities [insertXRecord]).exec activeBench).1 = .ok () ∧
    ((emailHandler.handle benchEntities [insertXRecord]).exec
          ((emailHandler.handle benchEntities [insertXRecord]).exec activeBench).2 =
        (emailHandler.applyBatches (emailHandler.batches (fun _ => !emailHandler.faultTolerant)
          [insertXRecord])).exec
          ((emailHandler.handle benchEntities [insertXRecord]).exec activeBench).2 ∧
      (emailHandler.faultTolerant = true →
        (∀ p ∈ emailHandler.indexes, p.2.desc.unique = false) →
        (emailHandler.handle benchEntities [insertXRecord]).exec
            ((emailHandler.handle benchEntities [insertXRecord]).exec activeBench).2 =
          (.ok (), ((emailHandler.handle benchEntities [insertXRecord]).exec activeBench).2))) :=
  have hs : ∀ r ∈ [insertXRecord], r.entity ∉ activeBench.stubborn := by simp [activeBench]
  have hok : ((emailHandler.handle benchEntities [insertXRecord]).exec activeBench).1 = .ok () :=
    eq_ok_of_isOk (by decide +kernel)
  ⟨hs, hok, redelivery_applies_unconfirmed_batches emailHandler [insertXRecord] activeBench hs hok⟩

set_option maxRecDepth 200000 in
/-- After the first delivery `a` is visible under `s:x`; after the second it is gone. -/
theorem redelivery_undoes_confirmed_insert :
    ((emailIndex.visible ⟨"s:x"⟩).exec
        ((emailHandler.handle benchEntities [insertXRecord]).exec activeBench).2).1.toOption =
      some [⟨"player", "a"⟩] ∧
    ((emailIndex.visible ⟨"s:x"⟩).exec
        ((emailHandler.handle benchEntities [insertXRecord]).exec
          ((emailHandler.handle benchEntities [insertXRecord]).exec activeBench).2).2).1.toOption =
      some [] := by
  constructor <;> decide +kernel

end EntityIndex.Requests
