import EntityIndex.Proofs.Cluster.Reincarnation
import EntityIndex.Requests.Coordinators
import EntityIndex.Proofs.Model.Maps
import EntityIndex.Proofs.Bucket.HostVia

/-!
# Abandoned fault-tolerant writes

A fault-tolerant write applies its unique updates first, then enqueues one workflow record per
interface, then adds the records' identifiers to the entity's active set and persists the
entity. When persisting fails, the identifiers leave the active set again. The write does not
undo its unique updates itself: a later pass over its records finds them unconfirmed and applies
the reverse of every unique update they carry.

The main theorem follows one such write on the desk of a coordinator (`Requests.Desk`), where
every enqueue goes through and the persist fails: the write leaves the unique updates in place,
one record per interface is queued, none of them is confirmed by the active set, and the pass
over them batches, index by index, exactly the reverses of the write's unique updates.

The promise needs the records. When the enqueue of an interface fails the write stops before the
active set and the persist, and nothing is queued to undo its unique updates: the last section
runs that in a cluster, where the key stays held once every queue is empty.
-/

namespace EntityIndex

/-- A fold that adds a fixed piece per element to an observed list adds their concatenation. -/
theorem foldl_observe {α β γ : Type} (g : β → List γ) (F : α → List γ) (step : β → α → β) :
    ∀ (l : List α) (b : β), (∀ b, ∀ a ∈ l, g (step b a) = g b ++ F a) →
      g (l.foldl step b) = g b ++ l.flatMap F
  | [], b, _ => by simp
  | a :: l, b, h => by
    have hrest := foldl_observe g F step l (step b a) fun b' a' ha' => h b' a' (List.mem_cons_of_mem _ ha')
    rw [List.foldl_cons, hrest, h b a (List.mem_cons_self ..), List.flatMap_cons, List.append_assoc]

end EntityIndex

namespace EntityIndex.Workflow.PassHandler

open EntityIndex.Bucket

/-- Adding an item to the batches extends the batch of its own index and no other. -/
theorem addItem_batch (name n : String) (it : Item) (bs : List (String × List Item)) :
    ((addItem name it bs).lookup n).getD [] =
      ((bs.lookup n).getD []) ++ (if n = name then [it] else []) := by
  by_cases h : n = name
  · subst h
    simp [addItem, lookup_insertByName]
  · simp [addItem, lookup_insertByName, h]

/-- What a pass puts in the batch of index `n` for a record it does not confirm: the reverse of
each real update of `n`, when `n` is a unique index it knows. -/
def reverseItems (h : PassHandler) (n : String) (r : WorkflowRecord) : List Item :=
  (r.updates.filter fun q => q.1 = n && q.2.isReal && (h.indexes.lookup n).any (·.desc.unique)).map
    fun q => ⟨r.entity, (IndexUpdate.plain q.2).reverse⟩

/-- The batch of index `n` over records none of which is confirmed holds the reverses of their
unique updates to `n`, record after record. -/
theorem batches_unconfirmed (h : PassHandler) (confirmed : WorkflowRecord → Bool)
    (records : List WorkflowRecord) (hc : ∀ r ∈ records, confirmed r = false) (n : String) :
    ((h.batches confirmed records).lookup n).getD [] = records.flatMap (h.reverseItems n) := by
  unfold batches
  rw [foldl_observe (fun bs => (bs.lookup n).getD []) (h.reverseItems n) _ records [] ?_]
  · simp
  intro bs r hr
  -- one record adds its updates one at a time
  rw [foldl_observe (fun bs => (bs.lookup n).getD [])
    (fun q => if q.1 = n && q.2.isReal && (h.indexes.lookup n).any (·.desc.unique) then
      [⟨r.entity, (IndexUpdate.plain q.2).reverse⟩] else []) _ r.updates bs ?_]
  · congr 1
    simp only [reverseItems]
    induction r.updates with
    | nil => rfl
    | cons q qs ih =>
      by_cases hq : (q.1 = n && q.2.isReal && (h.indexes.lookup n).any (·.desc.unique)) = true <;>
        simp_all
  intro bs' q _
  obtain ⟨name, m⟩ := q
  have hr' := hc r hr
  rcases eq_or_ne name n with rfl | hn
  · -- an update of index `n`
    cases hm : m.isReal
    · simp [hm]
    cases hx : h.indexes.lookup name with
    | none => simp [hm, hx]
    | some x => cases hu : x.desc.unique <;> simp [hm, hx, hr', hu, addItem_batch]
  · -- an update of another index leaves the batch of `n` alone
    cases hm : m.isReal
    · simp [hm, hn]
    cases hx : h.indexes.lookup name with
    | none => simp [hm, hx, hn]
    | some x => cases hu : x.desc.unique <;> simp [hm, hx, hr', hu, hn, Ne.symm hn, addItem_batch]

end EntityIndex.Workflow.PassHandler

namespace EntityIndex.Indexing.Coordinator

/-- Sorting by name keeps the order of the pairs under one name. -/
theorem filter_name_mergeSort {α : Type} (l : List (String × α)) (n : String) :
    (l.mergeSort fun a b => a.1 ≤ b.1).filter (fun a => a.1 = n) = l.filter (fun a => a.1 = n) := by
  have hsorted : (l.filter fun a => a.1 = n).Pairwise fun a b => decide (a.1 ≤ b.1) := by
    refine List.Pairwise.imp_of_mem ?_ (List.pairwise_of_forall fun _ _ => trivial)
    intro a b ha hb _
    simp only [List.mem_filter, decide_eq_true_eq] at ha hb
    simp [ha.2, hb.2]
  have hsub : List.Sublist (l.filter fun a => a.1 = n) (l.mergeSort fun a b => a.1 ≤ b.1) :=
    List.sublist_mergeSort (fun a b c hab hbc => by simpa using le_trans (by simpa using hab) (by simpa using hbc))
      (fun a b => by simpa using le_total a.1 b.1) hsorted List.filter_sublist
  have hsub' : List.Sublist (l.filter fun a => a.1 = n)
      ((l.mergeSort fun a b => a.1 ≤ b.1).filter fun a => a.1 = n) := by
    simpa [List.filter_filter] using hsub.filter (fun a => decide (a.1 = n))
  have hlen : ((l.mergeSort fun a b => a.1 ≤ b.1).filter fun a => a.1 = n).length =
      (l.filter fun a => a.1 = n).length :=
    ((List.mergeSort_perm l _).filter _).length_eq
  exact (hsub'.eq_of_length hlen.symm).symm

theorem isUnique_eq_any (c : Coordinator) (n : String) :
    c.isUnique n = (c.indexes.lookup n).any (·.desc.unique) := by
  unfold isUnique
  cases c.indexes.lookup n <;> rfl

/-- The unique updates of index `n`, in interface order. -/
theorem uniqueUpdates_filter (c : Coordinator) (us : Updates) (n : String) :
    (c.uniqueUpdates us).filter (·.1 = n) = us.byInterface.flatMap fun p =>
      (p.2.filter fun q => q.1 = n && c.isUnique q.1).map fun q => (q.1, IndexUpdate.plain q.2) := by
  unfold uniqueUpdates
  rw [filter_name_mergeSort, List.filter_flatMap]
  congr 1
  funext p
  rw [List.filter_map, List.filter_filter]
  congr 2

end EntityIndex.Indexing.Coordinator

namespace EntityIndex.Requests

open EntityIndex.Bucket EntityIndex.Indexing EntityIndex.Workflow EntityIndex.Run

/-! ## A write on the desk -/

theorem desk_carries : Carries Desk.shelf fun d s => { d with shelf := s } :=
  ⟨fun _ _ => rfl, fun _ _ _ => rfl, fun _ => rfl⟩

theorem Desk.standIn_withStandIn (d : Desk) (k : String) (f : StandIn → StandIn) :
    (d.withStandIn k f).standIn k = f (d.standIn k) := by
  simp [Desk.standIn, Desk.withStandIn, lookup_insertByName]

section Writer

variable {ty k : String} {refused : List String}

theorem deskWriter_ref : (deskWriter ty k refused).ref = ⟨ty, k⟩ := rfl

theorem freshId_exec (d : Desk) :
    (deskWriter ty k refused).freshId.exec d =
      (.ok (issuedId (d.issued + 1)), { d with issued := d.issued + 1 }) := rfl

/-- One fresh identifier per interface: the records carry the interfaces' updates in order. -/
theorem records_exec (us : Updates) (d : Desk) :
    ∃ recs, (Coordinator.records (deskWriter ty k refused) us fun _ => false).exec d =
        (.ok recs, { d with issued := d.issued + us.byInterface.length }) ∧
      recs.map (fun r => (r.iface, r.updates)) = us.byInterface ∧
      ∀ r ∈ recs, r.entity = ⟨ty, k⟩ := by
  unfold Coordinator.records
  simp only [Bool.not_false, List.filter_true]
  induction us.byInterface generalizing d with
  | nil => exact ⟨[], by simp, rfl, by simp⟩
  | cons p L ih =>
    obtain ⟨recs, hrun, hmap, hent⟩ := ih { d with issued := d.issued + 1 }
    refine ⟨⟨issuedId (d.issued + 1), ⟨ty, k⟩, p.1, p.2⟩ :: recs, ?_, by simp [hmap], ?_⟩
    · simp only [List.mapM_cons, exec_bind, freshId_exec, exec_pure, hrun]
      simp [deskWriter]
      omega
    · simpa using hent

/-- An enqueue to an interface that is not refused appends the record. -/
theorem enqueue_exec (rec : WorkflowRecord) (h : rec.iface ∉ refused) (d : Desk) :
    ((deskWriter ty k refused).enqueue rec).exec d =
      (.ok (), { d with enqueued := d.enqueued ++ [rec] }) := by
  simp [deskWriter, h]

theorem enqueue_each_exec : ∀ (recs : List WorkflowRecord) (d : Desk),
    (∀ r ∈ recs, r.iface ∉ refused) →
    (recs.mapM fun rec => attempt ((deskWriter ty k refused).enqueue rec)).exec d =
      (.ok (recs.map fun _ => .ok ()), { d with enqueued := d.enqueued ++ recs })
  | [], d, _ => by simp
  | rec :: recs, d, h => by
    have hrec : rec.iface ∉ refused := h rec (List.mem_cons_self ..)
    have hrest := enqueue_each_exec recs { d with enqueued := d.enqueued ++ [rec] }
      fun r hr => h r (List.mem_cons_of_mem _ hr)
    simp only [List.mapM_cons, exec_bind, exec_attempt, enqueue_exec rec hrec, hrest]
    simp

theorem firstFailure_of_ok {α : Type} (l : List α) :
    Coordinator.firstFailure (l.map fun _ => .ok ()) = none := by
  induction l with
  | nil => rfl
  | cons _ _ ih => simpa [Coordinator.firstFailure] using ih

/-- Enqueueing records to interfaces that are not refused appends them all. -/
theorem enqueueAll_exec (recs : List WorkflowRecord) (d : Desk) (h : ∀ r ∈ recs, r.iface ∉ refused) :
    (Coordinator.enqueueAll (deskWriter ty k refused) recs).exec d =
      (.ok (), { d with enqueued := d.enqueued ++ recs }) := by
  simp only [Coordinator.enqueueAll, exec_bind, enqueue_each_exec recs d h, Coordinator.throwFirst,
    firstFailure_of_ok, exec_pure]

theorem active_removeActive (ids : List Uuid) (d : Desk) :
    (((deskWriter ty k refused).removeActive ids d).standIn k).active =
      (d.standIn k).active.filter (!ids.contains ·) := by
  simp [deskWriter, Desk.standIn_withStandIn]

theorem persist_fails_exec (d : Desk) :
    (deskPersist true).exec d = (.error (.injected "persist failed"), { d with persisted := true }) := by
  simp [deskPersist, exec_bind]

/-- A fault-tolerant write whose enqueues all go through and whose persist fails: its records
are queued, their identifiers join the active set and leave it again, and the persist's failure
is returned. -/
theorem applyLazy_persist_fails (c : Coordinator) (hft : c.faultTolerant = true) (us : Updates)
    (t : Bool) (d : Desk) (hfree : ∀ p ∈ us.byInterface, p.1 ∉ refused) :
    ∃ recs : List WorkflowRecord, recs.map (fun r => (r.iface, r.updates)) = us.byInterface ∧
      (∀ r ∈ recs, r.entity = ⟨ty, k⟩) ∧
      (c.applyLazy (deskWriter ty k refused) us t (deskPersist true)).exec d =
        (.error (.injected "persist failed"),
          (deskWriter ty k refused).removeActive (recs.map (·.id))
            ((deskWriter ty k refused).addActive (recs.map (·.id))
              { d with issued := d.issued + us.byInterface.length, enqueued := d.enqueued ++ recs,
                       persisted := true })) := by
  obtain ⟨recs, hrun, hmap, hent⟩ := @records_exec ty k refused us d
  have hfree' : ∀ r ∈ recs, r.iface ∉ refused := by
    intro r hr
    have hmem : (r.iface, r.updates) ∈ us.byInterface := hmap ▸ List.mem_map_of_mem hr
    exact hfree _ hmem
  refine ⟨recs, hmap, hent, ?_⟩
  simp only [Coordinator.applyLazy, hft, ↓reduceIte, exec_bind, hrun, enqueueAll_exec recs _ hfree',
    exec_modify, exec_attempt, persist_fails_exec]
  rfl

/-- An identifier removed from the active set is not in it. -/
theorem contains_removeActive {ids : List Uuid} {i : Uuid} (hi : i ∈ ids) (d : Desk) :
    (((deskWriter ty k refused).removeActive ids d).standIn k).active.contains i = false := by
  rw [active_removeActive, Bool.eq_false_iff]
  intro hc
  have hmem := List.mem_filter.1 (List.mem_of_elem_eq_true hc)
  simp [hi] at hmem

end Writer

/-- The reverses a pass makes of unconfirmed records that carry a write's updates, one record per
interface, are the reverses of the write's unique updates. -/
theorem flatMap_reverseItems (h : PassHandler) (c : Coordinator) (hix : h.indexes = c.indexes)
    (ref : EntityRef) (us : Updates) (recs : List WorkflowRecord)
    (hmap : recs.map (fun r => (r.iface, r.updates)) = us.byInterface)
    (hent : ∀ r ∈ recs, r.entity = ref)
    (hreal : ∀ p ∈ us.byInterface, ∀ q ∈ p.2, q.2.isReal = true) (n : String) :
    recs.flatMap (h.reverseItems n) =
      ((c.uniqueUpdates us).filter (·.1 = n)).map fun p => ⟨ref, p.2.reverse⟩ := by
  rw [Coordinator.uniqueUpdates_filter, List.map_flatMap, ← hmap, List.flatMap_map]
  refine List.flatMap_congr fun r hr => ?_
  have hr' : (r.iface, r.updates) ∈ us.byInterface := hmap ▸ List.mem_map_of_mem hr
  simp only [PassHandler.reverseItems, List.map_map, hent r hr]
  congr 1
  -- the updates are real, and index `n` is unique for the pass as for the write
  refine List.filter_congr fun q hq => ?_
  by_cases hn : q.1 = n
  · simp [hn, hreal _ hr' q hq, Coordinator.isUnique_eq_any, hix]
  · simp [hn]

theorem enqueued_removeActive {ty k : String} {refused : List String} (ids : List Uuid) (d : Desk) :
    ((deskWriter ty k refused).removeActive ids d).enqueued = d.enqueued := rfl

theorem enqueued_addActive {ty k : String} {refused : List String} (ids : List Uuid) (d : Desk) :
    ((deskWriter ty k refused).addActive ids d).enqueued = d.enqueued := rfl

/-- A fault-tolerant write whose enqueues all go through and whose persist fails is left to the
passes: the unique updates stay as the write applied them, one record per interface is queued,
the entity's active set confirms none of them, and a pass over them batches for each index
exactly the reverses of the write's unique updates to it. -/
theorem abandoned_write_queues_reverses {c : Coordinator} (hft : c.faultTolerant = true)
    {ty k : String} {refused : List String} {images : Images} {us : Updates} {d : Desk}
    (hne : us.empty = false) (hlazy : us.eager = false) (hnum : 0 < us.numUnique)
    (hreal : ∀ p ∈ us.byInterface, ∀ q ∈ p.2, q.2.isReal = true)
    (hfree : ∀ p ∈ us.byInterface, p.1 ∉ refused)
    (hu : ((c.applyUnique ⟨ty, k⟩ us).exec d.shelf).1.toBool = true)
    (h : PassHandler) (hix : h.indexes = c.indexes) :
    ∀ res d', (c.apply (deskWriter ty k refused) images us (deskPersist true)).exec d = (res, d') →
      res = .error (.injected "persist failed") ∧
      d'.shelf = ((c.applyUnique ⟨ty, k⟩ us).exec d.shelf).2 ∧
      (d'.enqueued.drop d.enqueued.length).map (fun r => (r.iface, r.updates)) = us.byInterface ∧
      ∀ n, ((h.batches (fun r => (d'.standIn k).active.contains r.id)
          (d'.enqueued.drop d.enqueued.length)).lookup n).getD [] =
        ((c.uniqueUpdates us).filter (·.1 = n)).map fun p => ⟨⟨ty, k⟩, p.2.reverse⟩ := by
  intro res d' hrun
  obtain ⟨t, ht⟩ : ∃ t, ((c.applyUnique ⟨ty, k⟩ us).exec d.shelf).1 = .ok t := by
    revert hu
    cases ((c.applyUnique ⟨ty, k⟩ us).exec d.shelf).1 with
    | ok t => exact fun _ => ⟨t, rfl⟩
    | error e => simp [Except.toBool]
  set S := ((c.applyUnique ⟨ty, k⟩ us).exec d.shelf).2
  have hU : (c.applyUnique ⟨ty, k⟩ us).exec d = (.ok t, { d with shelf := S }) := by
    rw [Coordinator.applyUnique_onShelf desk_carries rfl c ⟨ty, k⟩ us d, ht]
  obtain ⟨recs, hmap, hent, hL⟩ := applyLazy_persist_fails c hft us t { d with shelf := S } hfree
  simp only [Coordinator.apply, hne, hnum, hlazy, Bool.false_eq_true, ↓reduceIte, exec_bind,
    deskWriter_ref, hU] at hrun
  rw [hL] at hrun
  obtain ⟨rfl, rfl⟩ := hrun
  refine ⟨rfl, rfl, ?_, fun n => ?_⟩
  · simpa only [enqueued_removeActive, enqueued_addActive, List.drop_left] using hmap
  simp only [enqueued_removeActive, enqueued_addActive, List.drop_left]
  rw [PassHandler.batches_unconfirmed h _ recs ?_ n, flatMap_reverseItems h c hix _ us recs hmap hent hreal n]
  -- the identifiers of the records left the active set with the failed persist
  intro r hr
  exact contains_removeActive (List.mem_map_of_mem hr) _

/-- A fault-tolerant coordinator with one unique lazy index, `email` of type `player`. -/
def emailCoordinator : Coordinator :=
  ⟨true, [("email", ⟨"player.email", { name := "email", unique := true }⟩)]⟩

/-- A write that inserts the key of text `x` into `email`, on interface `IPlayer`. -/
def insertEmail : Updates :=
  { byInterface := [("IPlayer", [("email", ⟨.insert, Key.null, ⟨"s:x"⟩⟩)])], onlyUniqueUpdated := true,
    numUnique := 1 }

/-- Entity `a` of an empty desk inserts `x` and its persist fails: the pass over its record
deletes `a` from `x`. -/
theorem persist_failure_queues_delete_of_insert :
    emailCoordinator.faultTolerant = true ∧ insertEmail.empty = false ∧ insertEmail.eager = false ∧
      0 < insertEmail.numUnique ∧
      (∀ p ∈ insertEmail.byInterface, ∀ q ∈ p.2, q.2.isReal = true) ∧
      (∀ p ∈ insertEmail.byInterface, p.1 ∉ ([] : List String)) ∧
      ((emailCoordinator.applyUnique ⟨"player", "a"⟩ insertEmail).exec ({} : Desk).shelf).1.toBool ∧
      (⟨true, emailCoordinator.indexes⟩ : PassHandler).indexes = emailCoordinator.indexes ∧
      ∀ res d', (emailCoordinator.apply (deskWriter "player" "a" []) {} insertEmail
          (deskPersist true)).exec {} = (res, d') →
        res = .error (.injected "persist failed") ∧
        d'.shelf = ((emailCoordinator.applyUnique ⟨"player", "a"⟩ insertEmail).exec ({} : Desk).shelf).2 ∧
        (d'.enqueued.drop 0).map (fun r => (r.iface, r.updates)) = insertEmail.byInterface ∧
        ∀ n, (((⟨true, emailCoordinator.indexes⟩ : PassHandler).batches
            (fun r => (d'.standIn "a").active.contains r.id) (d'.enqueued.drop 0)).lookup n).getD [] =
          ((emailCoordinator.uniqueUpdates insertEmail).filter (·.1 = n)).map
            fun p => ⟨⟨"player", "a"⟩, p.2.reverse⟩ := by
  have hu : ((emailCoordinator.applyUnique ⟨"player", "a"⟩ insertEmail).exec ({} : Desk).shelf).1.toBool :=
    by decide +kernel
  exact ⟨rfl, rfl, rfl, by decide, by decide, by simp, hu, rfl,
    abandoned_write_queues_reverses rfl rfl rfl (by decide) (by decide) (by simp) hu _ rfl⟩

end EntityIndex.Requests

namespace EntityIndex.Cluster

/-- Type `player` is fault-tolerant, with the unique lazy index `email`. Entity `a` sets
`email = x` while no queue can be opened, so the enqueue of its only record fails and the write
fails. Then the faults are cleared and the passes run. The run returns whether the write
succeeded, `a`'s active set, what a lookup of `x` sees, and whether every live queue is empty. -/
def abandonedWriteRun : Run World (Bool × List Uuid × List EntityRef × Bool) := do
  World.register "player" true [emailDecl]
  let a ← World.getEntity "player" "a"
  failReads "queue/"
  let r ← Run.attempt (World.updateEntity a (fun st => .ok (st.set "email" "x")))
  clearFaults
  World.flush
  let refs ← emailBuckets.visible ⟨"s:x"⟩
  let e ← World.entityAt a
  let w ← get
  pure (r.toBool, e.active, refs, w.liveQueues.all fun id => (w.queue? id).all (·.records.isEmpty))

set_option maxRecDepth 200000 in
/-- A write abandoned at its enqueue is never undone: it failed, `a` has no pending record, every
queue is empty, and yet `a` holds key `x`, which it did not hold before the write. -/
theorem abandoned_write_keeps_unique_key :
    (abandonedWriteRun.exec freshCluster).1.toOption = some (false, [], [⟨"player", "a"⟩], true) := by
  decide +kernel

end EntityIndex.Cluster
