import Mathlib.Data.Set.Card
import EntityIndex.Proofs.Bucket.Batches

/-!
# The growth counter counts linked buckets

A shelf counts the growths of chains, one each time `Index.successor` links a new bucket. No
other step links a bucket or touches the counters: resolving and committing keep them, and a
write of a bucket keeps its successor. So every write of an index, one update or a batch, adds to
the counter exactly the number of buckets it linked, whatever the buckets held and whatever the
walks met on the way (`index_writes_tally`).

The linked buckets of a shelf are finitely many, since an address that was never activated reads
as the empty bucket; `linkedCount` counts them. `Tallies m` says that `m` keeps the difference
between the counter and `linkedCount`, from every clean shelf. It composes by `bind`, so a
walk tallies when each of its steps does, and the steps are resolving, committing a state with
the same successor, and linking a successor, which is counted at once.
-/

namespace EntityIndex.Bucket.Shelf

open Run

/-! ## Steps that keep the counters -/

/-- Running `m` leaves the counters as they were. -/
def KeepsCounters {α : Type} (m : Run Shelf α) : Prop := ∀ w, (m.exec w).2.counters = w.counters

namespace KeepsCounters

variable {α β : Type}

theorem pure (a : α) : KeepsCounters (Pure.pure a : Run Shelf α) := fun _ => rfl

theorem throw (e : Error) : KeepsCounters (MonadExcept.throw e : Run Shelf α) := fun _ => rfl

theorem bind {m : Run Shelf α} {f : α → Run Shelf β} (h : KeepsCounters m)
    (hf : ∀ a, KeepsCounters (f a)) : KeepsCounters (m >>= f) := by
  intro w
  rw [exec_bind]
  rcases hx : m.exec w with ⟨_ | a, w'⟩
  · simpa [hx] using h w
  · simp only
    rw [hf a w', ← h w, hx]

theorem onStore (m : Run Store.DocStore α) : KeepsCounters (Shelf.onStore m) := by
  intro w
  simp [Shelf.onStore, exec_zoom]

theorem resolve (id : String) : KeepsCounters (Bucket.resolve id : Run Shelf State) := by
  intro w
  unfold Bucket.resolve
  rw [exec_bind]
  simp only [exec_get]
  cases h : Host.active? w id with
  | some s => rfl
  | none =>
    simp only [Host.activate]
    exact (onStore _).bind (fun _ => bind (fun _ => rfl) fun _ => pure _) w

theorem commit (id : String) (s : State) : KeepsCounters (Bucket.commit id s : Run Shelf Unit) :=
  bind (fun _ => rfl) fun _ => onStore _

theorem grow (id : String) : KeepsCounters (Bucket.grow id : Run Shelf (String × Bool)) := by
  refine (resolve id).bind fun s => ?_
  split
  · exact (commit _ _).bind fun _ => pure _
  · exact pure _

end KeepsCounters

/-! ## Linked buckets -/

/-- The number of buckets that have a successor. -/
noncomputable def linkedCount (b : String → State) : Nat := {id | (b id).next ≠ ""}.ncard

/-- Only an activated bucket can have a successor. -/
theorem finite_linked (w : Shelf) : {id | (view w id).next ≠ ""}.Finite := by
  refine (w.active.map Prod.fst).finite_toSet.subset fun id h => ?_
  cases hl : w.active.lookup id with
  | none => simp [view, hl] at h
  | some s => exact List.mem_map.2 ⟨(id, s), mem_of_lookup_eq_some hl, rfl⟩

theorem linkedCount_congr {b b' : String → State} (h : ∀ j, (b' j).next = (b j).next) :
    linkedCount b' = linkedCount b := by
  simp only [linkedCount, h]

theorem update_next {b : String → State} {id : String} {s : State} (h : s.next = (b id).next) :
    ∀ j, (Function.update b id s j).next = (b j).next := by
  intro j
  by_cases hj : j = id
  · subst hj
    simp [h]
  · simp [hj]

theorem linkedCount_link {b : String → State} {id : String} {s : State}
    (hfin : {j | (b j).next ≠ ""}.Finite) (h : (b id).next = "") (hs : s.next ≠ "") :
    linkedCount (Function.update b id s) = linkedCount b + 1 := by
  have hset : {j | (Function.update b id s j).next ≠ ""} = insert id {j | (b j).next ≠ ""} := by
    ext j
    by_cases hj : j = id
    · subst hj
      simp [hs]
    · simp [hj]
  rw [linkedCount, hset, Set.ncard_insert_of_notMem (by simpa using h) hfin]
  rfl

theorem nextId_ne_empty (id : String) : nextId id ≠ "" := by
  intro h
  have := congrArg String.length h
  simp [nextId] at this

/-! ## Runs that tally -/

/-- Run from a clean shelf, `m` leaves a clean shelf and adds to the growth counter exactly the
number of buckets it linked. -/
def Tallies {α : Type} (m : Run Shelf α) : Prop :=
  ∀ w, Clean w → Clean (m.exec w).2 ∧
    (m.exec w).2.counters.chainGrowths + linkedCount (view w) =
      w.counters.chainGrowths + linkedCount (view (m.exec w).2)

namespace Tallies

variable {α β : Type}

theorem pure (a : α) : Tallies (Pure.pure a : Run Shelf α) := fun _ hc => ⟨hc, rfl⟩

theorem throw (e : Error) : Tallies (MonadExcept.throw e : Run Shelf α) := fun _ hc => ⟨hc, rfl⟩

theorem bind {m : Run Shelf α} {f : α → Run Shelf β} (h : Tallies m) (hf : ∀ a, Tallies (f a)) :
    Tallies (m >>= f) := by
  intro w hc
  obtain ⟨hc₁, hn₁⟩ := h w hc
  rw [exec_bind]
  rcases hx : m.exec w with ⟨_ | a, w₁⟩
  · simpa [hx] using (⟨hc₁, hn₁⟩ : _ ∧ _)
  · rw [hx] at hc₁ hn₁
    obtain ⟨hc₂, hn₂⟩ := hf a w₁ hc₁
    exact ⟨hc₂, by simp only at hn₁ ⊢; omega⟩

theorem ite {c : Prop} [Decidable c] {m₁ m₂ : Run Shelf α} (h₁ : Tallies m₁) (h₂ : Tallies m₂) :
    Tallies (if c then m₁ else m₂) := by
  split
  · exact h₁
  · exact h₂

/-- A step that keeps the counters, and whose every run keeps every successor link, tallies. -/
theorem of_runs {m : Run Shelf α} (hk : KeepsCounters m)
    (h : ∀ b, ∃ r b', Runs m b r b' ∧ ∀ j, (b' j).next = (b j).next) : Tallies m := by
  intro w hc
  obtain ⟨r, b', hrun, hnext⟩ := h (view w)
  obtain ⟨w', hx, hc', hv⟩ := hrun w hc rfl
  have hkw := hk w
  rw [hx] at hkw ⊢
  exact ⟨hc', by rw [hkw, hv, linkedCount_congr hnext]⟩

theorem attempt {m : Run Shelf α} (h : Tallies m) : Tallies (Run.attempt m) := by
  intro w hc
  rw [exec_attempt]
  exact h w hc

theorem closed : Run.Closed fun _ (m : Run Shelf _) => Tallies m := ⟨pure, bind, attempt⟩

end Tallies

/-! ## The steps of a walk -/

theorem Runs.setStatusAt (id : String) (st : Status) (b : String → State) :
    ∃ b', Runs (setStatusAt id st) b (.ok ()) b' ∧ ∀ j, (b' j).next = (b j).next := by
  by_cases hs : (b id).status = st
  · refine ⟨b, Runs.bind (Runs.resolve id b) ?_, fun _ => rfl⟩
    simp only [hs, if_true]
    exact Runs.pure _ _
  · refine ⟨Function.update b id ((b id).setStatus st).2, Runs.bind (Runs.resolve id b) ?_,
      update_next (State.setStatus_next st)⟩
    simp only [hs, if_false]
    exact Runs.commit _ _ _

theorem Tallies.resolve (id : String) : Tallies (resolve id : Run Shelf State) :=
  Tallies.of_runs (KeepsCounters.resolve id) fun b => ⟨_, b, Runs.resolve id b, fun _ => rfl⟩

theorem Tallies.setStatusAt (id : String) (st : Status) : Tallies (setStatusAt id st) := by
  refine Tallies.of_runs ?_ (fun b => ⟨_, Runs.setStatusAt id st b⟩)
  refine (KeepsCounters.resolve id).bind fun s => ?_
  split
  · exact KeepsCounters.pure _
  · exact KeepsCounters.commit _ _

theorem Tallies.applyAt (c : IndexMeta) (id : String) (r : EntityRef) (u : IndexUpdate) :
    Tallies (applyAt c id r u : Run Shelf Outcome) := by
  refine Tallies.of_runs ?_ fun b => ?_
  · refine (KeepsCounters.resolve id).bind fun s => ?_
    split
    · exact KeepsCounters.throw _
    · exact KeepsCounters.pure _
    · exact (KeepsCounters.commit _ _).bind fun _ => KeepsCounters.pure _
  · cases ha : (b id).apply r u c.unique c with
    | error e => exact ⟨_, b, Runs.applyAt_error ha, fun _ => rfl⟩
    | ok res =>
      obtain ⟨o, s'⟩ := res
      cases o with
      | notFoundHere => exact ⟨_, b, Runs.applyAt_notFoundHere ha, fun _ => rfl⟩
      | applied => exact ⟨_, _, Runs.applyAt_applied ha, update_next (State.apply_next ha)⟩

theorem Tallies.applyBatchAt (c : IndexMeta) (id : String) (items : List Item) :
    Tallies (applyBatchAt c id items : Run Shelf (List Item)) := by
  refine Tallies.of_runs ?_ fun b =>
    ⟨_, _, Runs.applyBatchAt c id items b, update_next (batch_next items _)⟩
  refine (KeepsCounters.resolve id).bind fun s => ?_
  dsimp only
  split
  · exact (KeepsCounters.commit _ _).bind fun _ => KeepsCounters.pure _
  · exact KeepsCounters.pure _

/-- Linking a successor is counted at once: the link and the count come together, and giving
the new bucket its predecessor's status keeps every link. -/
theorem Tallies.successor (id : String) : Tallies (Index.successor id : Run Shelf String) := by
  intro w hc
  unfold Index.successor
  by_cases hn : (view w id).next = ""
  · obtain ⟨w₁, hx₁, hc₁, hv₁⟩ := Runs.grow_tail hn w hc rfl
    have hk₁ := KeepsCounters.grow id w
    rw [hx₁] at hk₁
    rw [exec_bind, hx₁]
    simp only [if_true]
    rw [exec_bind]
    simp only [exec_modify]
    obtain ⟨hc₃, hn₃⟩ := (Tallies.bind (Tallies.resolve id) fun s =>
      Tallies.ite (c := s.status ≠ .available)
        ((Tallies.setStatusAt (nextId id) s.status).bind fun _ => Tallies.pure (nextId id))
        (Tallies.pure (nextId id))) (Host.grew w₁)
          ⟨hc₁.rules, hc₁.codec, hc₁.compression, hc₁.stored⟩
    refine ⟨hc₃, ?_⟩
    have hL : linkedCount (view w₁) = linkedCount (view w) + 1 := by
      rw [hv₁]
      exact linkedCount_link (finite_linked w) hn (nextId_ne_empty id)
    have hg : (Host.grew w₁).counters.chainGrowths = w.counters.chainGrowths + 1 := by
      simp only at hk₁
      simp [Host.grew, hk₁]
    have hv₂ : view (Host.grew w₁) = view w₁ := rfl
    rw [hv₂, hL, hg] at hn₃
    omega
  · -- a linked bucket's successor is returned as it is
    obtain ⟨w₁, hx₁, hc₁, hv₁⟩ := Runs.grow_linked hn w hc rfl
    have hk₁ := KeepsCounters.grow id w
    rw [hx₁] at hk₁
    rw [exec_bind, hx₁]
    simp only [Bool.false_eq_true, if_false, exec_pure]
    exact ⟨hc₁, by simp only at hk₁; rw [hk₁, hv₁]⟩

/-! ## Walks and writes -/

section Walks

variable (x : Index)

theorem Tallies.applyChain (r : EntityRef) (u : IndexUpdate) :
    ∀ fuel id, Tallies (x.applyChain r u fuel id : Run Shelf Unit)
  | 0, _ => Tallies.throw _
  | fuel + 1, id => by
    rw [Index.applyChain]
    refine (Tallies.applyAt _ _ _ _).bind fun o => ?_
    cases o with
    | applied => exact Tallies.pure _
    | notFoundHere => exact (Tallies.successor id).bind fun next => Tallies.applyChain r u fuel next

theorem Tallies.applyChainBatch :
    ∀ fuel id items, Tallies (x.applyChainBatch fuel id items : Run Shelf Unit)
  | 0, _, _ => Tallies.throw _
  | fuel + 1, id, items => by
    rw [Index.applyChainBatch]
    refine Tallies.ite (Tallies.pure _) ((Tallies.applyBatchAt _ _ _).bind fun rest => ?_)
    exact Tallies.ite (Tallies.pure _)
      ((Tallies.successor id).bind fun next => Tallies.applyChainBatch fuel next rest)

/-- Every write of an index, one update or a batch, from every clean shelf, adds to the growth
counter exactly the number of buckets it linked. -/
theorem index_writes_tally :
    (∀ r u, Tallies (x.apply r u : Run Shelf Unit)) ∧
      ∀ items, Tallies (x.applyBatch items : Run Shelf Unit) := by
  refine ⟨fun r u => Tallies.closed.forM _ fun _ => Tallies.applyChain x r _ _ _, fun items => ?_⟩
  refine (Tallies.closed.attemptAll fun m hm => ?_).bind fun errs => ?_
  · obtain ⟨g, -, rfl⟩ := List.mem_map.1 hm
    exact Tallies.applyChainBatch x _ _ _
  · split
    · exact Tallies.throw _
    · exact Tallies.pure _

end Walks

end EntityIndex.Bucket.Shelf
