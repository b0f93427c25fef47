import Mathlib.Algebra.BigOperators.Group.Finset.Basic
import Mathlib.Data.List.Sort
import EntityIndex.Proofs.Workflow.QueueSteps
import EntityIndex.Proofs.Cluster.ActiveSet
import EntityIndex.Proofs.Model.Maps

/-!
# Migrating records to the current queues

Recovery reconciles an entity's active set with the queues now serving its interfaces
(`Indexing.recover`). This module follows it over any locator whose queues are workflow queues
(`Locator.OverQueues`) and that places every interface on one current queue and reaches every
remembered queue as one queue (`Locator.Places`), while no pass runs.

For an interface whose remembered queue is another queue than the current one, recovery hands
out the records of the active set from both queues, appends those of the remembered queue to
the current one, which skips identifiers it already holds, and removes them from the remembered
queue. Queues of different interfaces are different queues. When no interface fails:

* each current queue keeps its records and then holds the moved ones, in their order, each
  identifier once; each remembered queue keeps exactly its records outside the active set;
* no queue is left with an identifier marked migrating that was not marked before;
* the new active set is the identifiers of the old one that either queue held, the records moved
  are counted once per interface, and the queue map names the current queues;
* running recovery again on what it returned changes nothing and moves nothing.

The change flag compares queue maps the way the source compares maps, where a name missing from
the old map reads as the empty queue identifier, so it reports the change exactly when no
current queue identifier is empty.
-/

namespace EntityIndex.Workflow.Queue

variable {q : Queue}

/-- Appending records whose identifiers are distinct adds those not yet queued, in order. -/
theorem records_append_of_nodup {recs : List WorkflowRecord} (h : (recs.map (·.id)).Nodup) :
    ∀ q : Queue, (q.append recs).records = q.records ++ recs.filter fun r => !q.holds r.id := by
  induction recs with
  | nil => intro q; simp [append_nil]
  | cons r recs ih =>
    intro q
    have hr : r.id ∉ recs.map (·.id) := (List.nodup_cons.1 h).1
    have ih := ih (List.nodup_cons.1 h).2
    rw [append_cons]
    by_cases hq : q.holds r.id = true
    · rw [if_pos hq, ih q, List.filter_cons, if_neg (by simp [hq])]
    · rw [if_neg hq, ih]
      -- the appended record's identifier is none of the later ones, so `holds` agrees on them
      have hholds : ∀ r' ∈ recs,
          ({ q with records := q.records ++ [r], listed := true } : Queue).holds r'.id =
            q.holds r'.id := by
        intro r' hr'
        have hmem : r'.id ∈ recs.map (·.id) := List.mem_map_of_mem hr'
        have hne : r.id ≠ r'.id := fun he => hr (he ▸ hmem)
        simp [holds, hne]
      rw [List.filter_congr fun r' hr' => by rw [hholds r' hr'], List.filter_cons,
        if_pos (by simpa using hq)]
      simp

@[simp] theorem stopped_append (recs : List WorkflowRecord) : (q.append recs).stopped = q.stopped := by
  rw [append_eq]

@[simp] theorem stopped_pendingIn (wanted : List Uuid) : (q.pendingIn wanted).2.stopped = q.stopped :=
  rfl

@[simp] theorem records_release (back : List Uuid) : (q.release back).records = q.records := rfl

@[simp] theorem running_release (back : List Uuid) : (q.release back).running = q.running := rfl

@[simp] theorem stopped_release (back : List Uuid) : (q.release back).stopped = q.stopped := rfl

@[simp] theorem migrating_release (back : List Uuid) :
    (q.release back).migrating = q.migrating.filter (!back.contains ·) := rfl

@[simp] theorem stopped_remove (drop : List Uuid) : (q.remove drop).1.stopped = q.stopped := rfl

/-- The queued records whose identifiers are in `ws`, in order. -/
def wanted (q : Queue) (ws : List Uuid) : List WorkflowRecord :=
  q.records.filter fun r => ws.contains r.id

theorem mem_ids_wanted {ws : List Uuid} {x : Uuid} :
    x ∈ (q.wanted ws).map (·.id) ↔ x ∈ ws ∧ x ∈ q.ids := by
  simp only [wanted, List.mem_map, List.mem_filter, List.contains_iff_mem, mem_ids]
  constructor
  · rintro ⟨r, ⟨hr, hx⟩, rfl⟩
    exact ⟨hx, r, hr, rfl⟩
  · rintro ⟨hx, r, hr, rfl⟩
    exact ⟨r, ⟨hr, hx⟩, rfl⟩

/-- A queue with no pass running hands out every wanted record, and none is in flight. -/
theorem pendingIn_of_idle (h : q.running = []) (ws : List Uuid) :
    (q.pendingIn ws).1 = (q.wanted ws, []) := by
  simp [pendingIn, wanted, h, Uuid.sorted]

/-- A queue that holds none of the wanted records marks nothing. -/
theorem pendingIn_of_wanted_nil {ws : List Uuid} (h : q.running = []) (hw : q.wanted ws = []) :
    (q.pendingIn ws).2 = q := by
  have hout : (q.pendingIn ws).1.1 = [] := by rw [pendingIn_of_idle h, hw]
  simp only [pendingIn] at hout ⊢
  rw [hout]
  rfl

/-- Handing records out and releasing them again leaves no mark that was not there before. -/
theorem migrating_pendingIn_release {ws : List Uuid} {i : Uuid}
    (hi : i ∈ ((q.pendingIn ws).2.release ((q.pendingIn ws).1.1.map (·.id))).migrating) :
    i ∈ q.migrating := by
  rw [migrating_release, List.mem_filter] at hi
  rcases mem_migrating_pendingIn.1 hi.1 with h | ⟨r, hr, rfl⟩
  · exact h
  · -- a record handed out is released again
    have hc : r.id ∈ (q.pendingIn ws).1.1.map (·.id) := List.mem_map_of_mem hr
    simp [hc] at hi

/-- `q'` is `q` with the records `rs` in place of its own, the same pass running, stopped as
before, and no identifier marked migrating that was not marked before. -/
structure Becomes (q q' : Queue) (rs : List WorkflowRecord) : Prop where
  /-- The records. -/
  records : q'.records = rs
  /-- The running pass. -/
  running : q'.running = q.running
  /-- Whether the queue was stopped. -/
  stopped : q'.stopped = q.stopped
  /-- No new mark. -/
  migrating : ∀ i ∈ q'.migrating, i ∈ q.migrating

theorem Becomes.refl (q : Queue) : Becomes q q q.records := ⟨rfl, rfl, rfl, fun _ h => h⟩

theorem Becomes.trans {q₁ q₂ q₃ : Queue} {rs₂ rs₃ : List WorkflowRecord} (h₁ : Becomes q₁ q₂ rs₂)
    (h₂ : Becomes q₂ q₃ rs₃) : Becomes q₁ q₃ rs₃ :=
  ⟨h₂.records, h₂.running.trans h₁.running, h₂.stopped.trans h₁.stopped,
    fun i hi => h₁.migrating i (h₂.migrating i hi)⟩

/-- Handing records out and releasing them again changes no record. -/
theorem becomes_pendingIn_release (ws : List Uuid) :
    Becomes q ((q.pendingIn ws).2.release ((q.pendingIn ws).1.1.map (·.id))) q.records :=
  ⟨by simp, by simp, by simp, fun _ hi => migrating_pendingIn_release hi⟩

/-- Handing out the wanted records of an idle queue and removing them keeps exactly the others. -/
theorem becomes_pendingIn_remove (h : q.running = []) (ws : List Uuid) :
    Becomes q ((q.pendingIn ws).2.remove ((q.wanted ws).map (·.id))).1
      (q.records.filter fun r => !ws.contains r.id) := by
  refine ⟨?_, by simp, by simp, ?_⟩
  · -- a queued record is removed exactly when it is wanted
    rw [records_remove, records_pendingIn]
    refine List.filter_congr fun r hr => ?_
    have hmem : r.id ∈ (q.wanted ws).map (·.id) ↔ r.id ∈ ws :=
      mem_ids_wanted.trans (and_iff_left (mem_ids.2 ⟨r, hr, rfl⟩))
    simp [hmem]
  · intro i hi
    rw [migrating_remove, List.mem_filter] at hi
    rcases mem_migrating_pendingIn.1 hi.1 with hm | ⟨r, hr, rfl⟩
    · exact hm
    · rw [pendingIn_of_idle h] at hr
      simp [List.mem_map_of_mem hr] at hi

/-- Appending records whose identifiers are distinct to a queue that became `q'`. -/
theorem Becomes.append {q' : Queue} {rs recs : List WorkflowRecord} (hb : Becomes q q' rs)
    (hn : (recs.map (·.id)).Nodup) :
    Becomes q (q'.append recs) (rs ++ recs.filter fun r => !q'.holds r.id) :=
  ⟨by rw [records_append_of_nodup hn, hb.records], by simp [hb.running], by simp [hb.stopped],
    fun i hi => hb.migrating i (by simpa using hi)⟩

/-- Records appended after the queued ones, skipping identifiers queued, leave each identifier
once. -/
theorem nodup_ids_append_filter {recs : List WorkflowRecord} (hq : q.ids.Nodup)
    (hn : (recs.map (·.id)).Nodup) :
    ((q.records ++ recs.filter fun r => !q.holds r.id).map (·.id)).Nodup := by
  rw [List.map_append, List.nodup_append]
  refine ⟨hq, hn.sublist (List.filter_sublist.map _), fun x hx y hy hxy => ?_⟩
  obtain ⟨r, hr, rfl⟩ := List.mem_map.1 hy
  have hnot := (List.mem_filter.1 hr).2
  obtain ⟨r', hr', he⟩ := mem_ids.1 (show r.id ∈ q.ids from hxy ▸ hx)
  have hheld : q.holds r.id = true := by
    simpa [holds] using ⟨r', hr', he⟩
  simp [hheld] at hnot

end EntityIndex.Workflow.Queue

namespace EntityIndex.Indexing

open Workflow Run

variable {W : Type}

/-- Erasing duplicates leaves each element once; by induction on the length, since the tail that
remains is filtered. -/
theorem nodup_eraseDups {α : Type} [BEq α] [LawfulBEq α] (l : List α) : l.eraseDups.Nodup := by
  induction h : l.length using Nat.strong_induction_on generalizing l with
  | _ n ih =>
    cases l with
    | nil => exact List.nodup_nil
    | cons a as =>
      have hlt : (as.filter fun b => !b == a).length < n :=
        h ▸ Nat.lt_succ_of_le (List.length_filter_le _ _)
      rw [List.eraseDups_cons]
      exact List.nodup_cons.2 ⟨by simp [List.mem_eraseDups], ih _ hlt _ rfl⟩

/-- Adding identifiers keeps a set sorted by value, each identifier once. -/
theorem addIds_sorted (set ids : List Uuid) :
    (addIds set ids).Pairwise fun a b => a.value < b.value := by
  have hnd : (addIds set ids).Nodup := (List.mergeSort_perm _ _).nodup_iff.2 (nodup_eraseDups _)
  have hle : (addIds set ids).Pairwise fun a b => a.value ≤ b.value := by
    unfold addIds Uuid.sorted
    simpa using @List.pairwise_mergeSort _ (fun a b : Uuid => decide (a.value ≤ b.value))
      (fun a b c hab hbc => by simp at *; omega) (fun a b => by simp; omega) _
  refine (hle.and hnd).imp ?_
  rintro ⟨a⟩ ⟨b⟩ ⟨h1, h2⟩
  exact lt_of_le_of_ne h1 fun he => h2 (by simp_all)

/-- Two sets sorted by value with the same identifiers are the same list. -/
theorem eq_of_sorted_of_mem_iff {l₁ l₂ : List Uuid} (h₁ : l₁.Pairwise fun a b => a.value < b.value)
    (h₂ : l₂.Pairwise fun a b => a.value < b.value) (h : ∀ x, x ∈ l₁ ↔ x ∈ l₂) : l₁ = l₂ := by
  have : Std.Irrefl fun a b : Uuid => a.value < b.value := ⟨fun a => Nat.lt_irrefl _⟩
  have : Std.Antisymm fun a b : Uuid => a.value < b.value :=
    ⟨fun _ _ h h' => absurd (h.trans h') (Nat.lt_irrefl _)⟩
  exact h₁.eq_of_mem_iff h₂ h

/-- Looking a name up in a map filled by inserting each name of `L` with its value. -/
theorem lookup_foldl_insertByName {α : Type} (f : String → α) (k : String) (L : List String) :
    ∀ acc : List (String × α), (L.foldl (fun qs i => insertByName i (f i) qs) acc).lookup k =
      if k ∈ L then some (f k) else acc.lookup k := by
  induction L with
  | nil => intro acc; simp
  | cons i L ih =>
    intro acc
    rw [List.foldl_cons, ih, lookup_insertByName]
    by_cases hk : k ∈ L
    · simp [hk]
    · by_cases hi : k = i
      · subst hi; simp [hk]
      · simp [hk, hi]

theorem namesSorted_foldl_insertByName {α : Type} (f : String → α) (L : List String) :
    ∀ acc : List (String × α), NamesSorted acc →
      NamesSorted (L.foldl (fun qs i => insertByName i (f i) qs) acc) := by
  induction L with
  | nil => intro acc h; exact h
  | cons i L ih =>
    intro acc h
    exact ih _ (namesSorted_insertByName _ _ h)

theorem sameIds_iff {a b : List Uuid} : sameIds a b = true ↔ ∀ x, x ∈ a ↔ x ∈ b := by
  simp only [sameIds, Bool.and_eq_true, List.all_eq_true, List.contains_iff_mem]
  exact ⟨fun ⟨h₁, h₂⟩ x => ⟨h₁ x, h₂ x⟩, fun h => ⟨fun x => (h x).1, fun x => (h x).2⟩⟩

/-- Two maps by name with the same pairs are the same list. -/
theorem NamesSorted.eq_of_mem_iff {a b : List (String × String)} (ha : NamesSorted a) (hb : NamesSorted b)
    (h : ∀ p, p ∈ a ↔ p ∈ b) : a = b := by
  have : Std.Irrefl fun p q : String × String => p.1 < q.1 := ⟨fun p => lt_irrefl p.1⟩
  have : Std.Antisymm fun p q : String × String => p.1 < q.1 :=
    ⟨fun _ _ h h' => absurd (h.trans h') (lt_irrefl _)⟩
  exact List.Pairwise.eq_of_mem_iff ha hb h

theorem sameQueues_self {a : List (String × String)} (ha : NamesSorted a) : sameQueues a a = true := by
  simp only [sameQueues, decide_true, Bool.true_and, List.all_eq_true]
  rintro ⟨k, v⟩ hp
  simp [(lookup_eq_some_iff ha).2 hp]

/-- Comparing a map whose values are not empty with a map by name tells whether they are equal. -/
theorem sameQueues_iff {a b : List (String × String)} (ha : NamesSorted a) (hb : NamesSorted b)
    (hv : ∀ p ∈ a, p.2 ≠ "") : sameQueues a b = true ↔ a = b := by
  constructor
  · intro h
    simp only [sameQueues, Bool.and_eq_true, decide_eq_true_eq, List.all_eq_true] at h
    obtain ⟨hlen, hall⟩ := h
    have hsub : a ⊆ b := by
      rintro ⟨k, v⟩ hp
      have hk := hall (k, v) hp
      cases hl : b.lookup k with
      | none =>
        simp only [hl, Option.getD_none] at hk
        exact absurd hk.symm (hv _ hp)
      | some v' =>
        simp only [hl, Option.getD_some] at hk
        subst hk
        exact mem_of_lookup_eq_some hl
    have hnd : a.Nodup := ha.imp fun h he => (ne_of_lt h) (congrArg Prod.fst he)
    have hperm := (List.subperm_of_subset hnd hsub).perm_of_length_le hlen.ge
    exact NamesSorted.eq_of_mem_iff ha hb fun p => hperm.mem_iff
  · rintro rfl
    exact sameQueues_self ha

/-- A locator whose queues are workflow queues: `queue w id` is the queue with identifier `id` in
world `w`. Each queue operation of the locator is that queue's own and changes no other queue,
and every log it writes is written. -/
structure Locator.OverQueues (loc : Locator W) (queue : W → String → Queue) : Prop where
  /-- Handing out records. -/
  pendingIn : ∀ w id ids, ∃ w', (loc.pendingIn id ids).exec w =
    (.ok ((queue w id).pendingIn ids).1, w') ∧
      queue w' = Function.update (queue w) id ((queue w id).pendingIn ids).2
  /-- Appending records to a queue that takes them. -/
  enqueueAll : ∀ w id recs q, (queue w id).enqueueAll recs = .ok q →
    ∃ w', (loc.enqueueAll id recs).exec w = (.ok (), w') ∧
      queue w' = Function.update (queue w) id q
  /-- Appending records to a queue that refuses them fails. -/
  enqueueAll_refused : ∀ w id recs e, (queue w id).enqueueAll recs = .error e →
    ((loc.enqueueAll id recs).exec w).1 = .error e
  /-- Removing records. -/
  remove : ∀ w id ids, ∃ w', (loc.remove id ids).exec w = (.ok (), w') ∧
    queue w' = Function.update (queue w) id ((queue w id).remove ids).1
  /-- Releasing records. -/
  release : ∀ w id ids, ∃ w', (loc.release id ids).exec w = (.ok (), w') ∧
    queue w' = Function.update (queue w) id ((queue w id).release ids)

/-- Where a locator finds queues, whatever the world: the current queue of interface `i` is
`cur i`, and a remembered queue `o` is reached, directly or through its reincarnation, as
`reach o`. Finding a queue changes no queue. -/
structure Locator.Places (loc : Locator W) (queue : W → String → Queue)
    (cur reach : String → String) : Prop where
  /-- The current queue is always found. -/
  current : ∀ i w, ∃ w', (loc.current i).exec w = (.ok (cur i), w') ∧ queue w' = queue w
  /-- Resolving a remembered queue. -/
  resolve : ∀ o w, queue ((loc.resolve o).exec w).2 = queue w ∧
    ∀ q, ((loc.resolve o).exec w).1 = .ok q → q = reach o
  /-- The reincarnation of a remembered queue. -/
  reincarnation : ∀ o w, queue ((loc.reincarnation o).exec w).2 = queue w ∧
    ∀ q, ((loc.reincarnation o).exec w).1 = .ok q → q = reach o

/-- The remembered queue that recovery of an interface moves records from: a named queue other
than the current one. -/
def source (remembered : Option String) (cur : String) : Option String :=
  match remembered with
  | some o => if o.isEmpty || o = cur then none else some o
  | none => none

/-- The remembered queue is reached as `reach o`, directly or through its reincarnation when
it is unreachable, and the rest of the recovery runs from a world with the same queues. -/
theorem exec_reached {β : Type} {loc : Locator W} {queue : W → String → Queue}
    {cur reach : String → String} (hp : loc.Places queue cur reach) {o : String}
    {k : String → Run W β} {w w' : W} {b : β}
    (h : (do
      let old ← match ← Run.attempt (loc.resolve o) with
        | .ok q => pure (Except.ok q)
        | .error e =>
          if e.mentions .unreachable then Run.attempt (loc.reincarnation o) else pure (.error e)
      let old ← match old with
        | .ok q => pure q
        | .error e => throw (.context ("resolve queue " ++ o) e)
      k old : Run W β).exec w = (.ok b, w')) :
    ∃ w₁, queue w₁ = queue w ∧ (k (reach o)).exec w₁ = (.ok b, w') := by
  obtain ⟨hv, hr⟩ := hp.resolve o w
  rcases hres : (loc.resolve o).exec w with ⟨r, w₁⟩
  rw [hres] at hv hr
  simp only [exec_bind, exec_attempt, hres] at h
  cases r with
  | ok q =>
    obtain rfl := hr q rfl
    exact ⟨w₁, hv, by simpa using h⟩
  | error e =>
    by_cases hu : e.mentions .unreachable = true
    · obtain ⟨hv', hr'⟩ := hp.reincarnation o w₁
      rcases hre : (loc.reincarnation o).exec w₁ with ⟨r', w₂⟩
      rw [hre] at hv' hr'
      simp only [hu, if_true, exec_bind, exec_attempt, hre] at h
      cases r' with
      | ok q =>
        obtain rfl := hr' q rfl
        exact ⟨w₂, hv'.trans hv, by simpa using h⟩
      | error e' => simp at h
    · simp [hu] at h

/-- The records recovery moves out of queue `src`, when it moves records, from queues `U`. -/
def takenFrom (A : List Uuid) (U : String → Queue) : Option String → List WorkflowRecord
  | some O => (U O).wanted A
  | none => []

/-- What recovery of one interface did between worlds `w` and `w'`, with current queue `c` and
`src` the queue it moved records from, if any. It answered `c`, the identifiers of `A` that
either queue held, and the number of records moved. The current queue appended the moved
records it lacked, the source kept its records outside `A`, and no other queue changed. -/
structure Moved (queue : W → String → Queue) (A : List Uuid) (c : String) (src : Option String)
    (w w' : W) (res : String × List Uuid × Nat) : Prop where
  /-- The current queue is answered. -/
  current : res.1 = c
  /-- The identifiers still pending. -/
  pending : ∀ x, x ∈ res.2.1 ↔ x ∈ A ∧ (x ∈ (queue w c).ids ∨ ∃ O ∈ src, x ∈ (queue w O).ids)
  /-- The records moved. -/
  count : res.2.2 = (takenFrom A (queue w) src).length
  /-- The current queue after. -/
  target : Queue.Becomes (queue w c) (queue w' c)
    ((queue w c).records ++ (takenFrom A (queue w) src).filter fun r => !(queue w c).holds r.id)
  /-- The source queue after. -/
  source : ∀ O ∈ src, Queue.Becomes (queue w O) (queue w' O)
    ((queue w O).records.filter fun r => !A.contains r.id)
  /-- Every other queue. -/
  other : ∀ id, id ≠ c → id ∉ src → queue w' id = queue w id

/-- The queue that recovery of interface `i` moves records from, given the remembered queues
`queues`, as the locator reaches it. -/
def movedFrom (queues : List (String × String)) (cur reach : String → String) (i : String) :
    Option String :=
  (source (queues.lookup i) (cur i)).map reach

/-- Queue `id` is one that recovery of interface `i` works on: its current queue `c i`, or the
queue `src i` it moves records from. -/
def Touches (c : String → String) (src : String → Option String) (i id : String) : Prop :=
  id = c i ∨ id ∈ src i

/-- The queues that recovery of the interfaces `L` works on are apart: an interface moves records
from another queue than its current one, and two interfaces work on no common queue. -/
structure Separated (c : String → String) (src : String → Option String) (L : List String) :
    Prop where
  /-- The queue an interface moves records from is not its current one. -/
  self : ∀ i ∈ L, ∀ O ∈ src i, O ≠ c i
  /-- Two interfaces work on no common queue. -/
  apart : ∀ i ∈ L, ∀ j ∈ L, i ≠ j → ∀ id, Touches c src i id → ¬Touches c src j id

/-- An identifier of `A` that the queues `U` hold for interface `i`, in its current queue or in
the queue it moves records from. -/
def Held (A : List Uuid) (c : String → String) (src : String → Option String)
    (U : String → Queue) (i : String) (x : Uuid) : Prop :=
  x ∈ A ∧ (x ∈ (U (c i)).ids ∨ ∃ O ∈ src i, x ∈ (U O).ids)

/-- The queues `V` are the queues `U` after recovery of the interfaces `L`: each current queue
holds its records and then the moved ones it lacked, each queue records moved from keeps those
outside `A`, and every other queue is as it was. -/
structure Reconciled (A : List Uuid) (c : String → String) (src : String → Option String)
    (L : List String) (U V : String → Queue) : Prop where
  /-- The current queues. -/
  target : ∀ i ∈ L, Queue.Becomes (U (c i)) (V (c i))
    ((U (c i)).records ++ (takenFrom A U (src i)).filter fun r => !(U (c i)).holds r.id)
  /-- The queues records moved from. -/
  source : ∀ i ∈ L, ∀ O ∈ src i, Queue.Becomes (U O) (V O)
    ((U O).records.filter fun r => !A.contains r.id)
  /-- Every other queue. -/
  other : ∀ id, (∀ i ∈ L, ¬Touches c src i id) → V id = U id

/-- What recovery of the interfaces `L` from the queues `U` gathered: the identifiers of `A` held
for them, as a sorted set, the current queue of each, the records moved, and no failure. -/
structure Gathered (A : List Uuid) (c : String → String) (src : String → Option String)
    (U : String → Queue) (L : List String)
    (acc : List Uuid × List (String × String) × Nat × Bool) : Prop where
  /-- The identifiers still pending. -/
  active : ∀ x, x ∈ acc.1 ↔ ∃ i ∈ L, Held A c src U i x
  /-- They form a set sorted by value. -/
  sorted : acc.1.Pairwise fun a b => a.value < b.value
  /-- The current queue of each interface. -/
  queues : acc.2.1 = L.foldl (fun qs i => insertByName i (c i) qs) []
  /-- The records moved. -/
  moved : acc.2.2.1 = ∑ i ∈ L.toFinset, (takenFrom A U (src i)).length
  /-- No interface failed. -/
  ok : acc.2.2.2 = false

theorem Separated.mono {c : String → String} {src : String → Option String} {L L' : List String}
    (h : Separated c src L) (hsub : L' ⊆ L) : Separated c src L' :=
  ⟨fun i hi => h.self i (hsub hi), fun i hi j hj => h.apart i (hsub hi) j (hsub hj)⟩

/-- Interfaces that move no records stay separated: they still work on distinct current
queues. -/
theorem Separated.of_no_source {c : String → String} {src src' : String → Option String}
    {L : List String} (h : Separated c src L) (hnone : ∀ i ∈ L, src' i = none) :
    Separated c src' L := by
  refine ⟨fun i hi O hO => by simp [hnone i hi] at hO, fun i hi j hj hij id hti htj => ?_⟩
  have hti' : id = c i := by simpa [Touches, hnone i hi] using hti
  have htj' : id = c j := by simpa [Touches, hnone j hj] using htj
  exact h.apart i hi j hj hij id (.inl hti') (.inl htj')

section Step

variable {loc : Locator W} {queue : W → String → Queue} {cur reach : String → String}

/-! Recovery of one interface ends in one of three ways: it only hands the current queue's
wanted records out and takes them back, it also finds nothing wanted in the remembered queue, or
it moves the remembered queue's wanted records to the current queue. Each lemma below takes what
the queues are afterwards and gives what recovery did. -/

/-- Recovery that only handed the current queue's wanted records out and took them back. -/
theorem moved_stay {A : List Uuid} {c : String} {w w' : W} (hidle : (queue w c).running = [])
    (hc : queue w' c = ((queue w c).pendingIn A).2.release (((queue w c).wanted A).map (·.id)))
    (hother : ∀ id, id ≠ c → queue w' id = queue w id) :
    Moved queue A c none w w' (c, addIds (addIds [] (((queue w c).wanted A).map (·.id))) [], 0) := by
  have hcur : Queue.Becomes (queue w c) (queue w' c) (queue w c).records := by
    rw [hc]
    simpa [Queue.pendingIn_of_idle hidle] using Queue.becomes_pendingIn_release (q := queue w c) A
  refine ⟨rfl, fun x => ?_, rfl, by simpa [takenFrom] using hcur, by simp,
    fun id hid _ => hother id hid⟩
  simp [mem_addIds, Queue.mem_ids_wanted]

/-- Recovery whose remembered queue `O` holds none of the active set moves nothing. -/
theorem moved_of_wanted_nil {A : List Uuid} {c O : String} {w w' : W} (hne : O ≠ c)
    (hidle : (queue w c).running = []) (hw : (queue w O).wanted A = [])
    (hc : queue w' c = ((queue w c).pendingIn A).2.release (((queue w c).wanted A).map (·.id)))
    (hother : ∀ id, id ≠ c → queue w' id = queue w id) :
    Moved queue A c (some O) w w'
      (c, addIds (addIds (addIds [] (((queue w c).wanted A).map (·.id))) []) [], 0) := by
  have hstay := moved_stay hidle hc hother
  refine ⟨rfl, fun x => ?_, by simp [takenFrom, hw], by simpa [takenFrom, hw] using hstay.target,
    ?_, fun id hid _ => hother id hid⟩
  · have hx : ¬(x ∈ A ∧ x ∈ (queue w O).ids) := by
      rw [← Queue.mem_ids_wanted, hw]
      exact List.not_mem_nil
    simp only [mem_addIds, Queue.mem_ids_wanted, Option.mem_def, Option.some.injEq,
      exists_eq_left', List.not_mem_nil, or_false, false_or]
    tauto
  · intro O' hO'
    obtain rfl : O = O' := Option.some.inj hO'
    rw [hother O hne]
    -- no record of `O` is wanted, so `O` keeps them all
    have hkeep : ((queue w O).records.filter fun r => !A.contains r.id) = (queue w O).records :=
      List.filter_eq_self.2 fun r hr => by
        have hr' : r ∉ (queue w O).wanted A := by simp [hw]
        simpa [Queue.wanted, hr] using hr'
    simpa only [hkeep] using Queue.Becomes.refl (queue w O)

/-- Recovery that moved the wanted records of its remembered queue `O`, each queued once there,
to the current queue. -/
theorem moved_of_append {A : List Uuid} {c O : String} {w w' : W}
    (hidle : (queue w c).running = []) (hidleO : (queue w O).running = [])
    (hnodup : (queue w O).ids.Nodup)
    (hc : queue w' c = (((queue w c).pendingIn A).2.release
      (((queue w c).wanted A).map (·.id))).append ((queue w O).wanted A))
    (hO : queue w' O = (((queue w O).pendingIn A).2.remove (((queue w O).wanted A).map (·.id))).1)
    (hother : ∀ id, id ≠ c → id ≠ O → queue w' id = queue w id) :
    Moved queue A c (some O) w w'
      (c, addIds (addIds (addIds (addIds [] (((queue w c).wanted A).map (·.id))) []) [])
        (((queue w O).wanted A).map (·.id)), ((queue w O).wanted A).length) := by
  generalize hX : ((queue w c).pendingIn A).2.release (((queue w c).wanted A).map (·.id)) = X at hc
  have hcur : Queue.Becomes (queue w c) X (queue w c).records := by
    rw [← hX]
    simpa [Queue.pendingIn_of_idle hidle] using Queue.becomes_pendingIn_release (q := queue w c) A
  have hn : (((queue w O).wanted A).map (·.id)).Nodup :=
    hnodup.sublist ((List.filter_sublist).map _)
  -- the current queue still holds what it held, so it skips the same identifiers
  have hholds : X.holds = (queue w c).holds := by
    funext x
    simp only [Queue.holds, hcur.records]
  refine ⟨rfl, fun x => ?_, by simp [takenFrom], ?_, ?_,
    fun id hid hidO => hother id hid fun he => hidO (he ▸ rfl)⟩
  · simp only [mem_addIds, Queue.mem_ids_wanted, Option.mem_def, Option.some.injEq,
      exists_eq_left', List.not_mem_nil, or_false, false_or]
    tauto
  · rw [hc]
    simpa [takenFrom, hholds] using hcur.append hn
  · intro O' hO'
    obtain rfl : O = O' := Option.some.inj hO'
    rw [hO]
    exact Queue.becomes_pendingIn_remove hidleO A

/-- Migration from a remembered queue `O`, idle and with each identifier queued once, to the
current queue `c`, after recovery handed `c`'s wanted records out and took them back: it moves
nothing when `O` holds none of the active set, and otherwise moves `O`'s wanted records to `c`. -/
theorem migrate_moved (hq : loc.OverQueues queue) {A : List Uuid} {c O : String} {w w₃ w' : W}
    {res : String × List Uuid × Nat} (hne : O ≠ c) (hidle : (queue w c).running = [])
    (hidleO : (queue w O).running = []) (hnodup : (queue w O).ids.Nodup)
    (hcur₃ : queue w₃ c =
      ((queue w c).pendingIn A).2.release (((queue w c).wanted A).map (·.id)))
    (hrest₃ : ∀ id, id ≠ c → queue w₃ id = queue w id)
    (h : (migrate loc c O A (addIds (addIds [] (((queue w c).wanted A).map (·.id))) [])).exec w₃ =
      (.ok res, w')) :
    Moved queue A c (some O) w w' res := by
  have hP₃ : queue w₃ O = queue w O := hrest₃ O hne
  obtain ⟨w₅, hpend', hv₅⟩ := hq.pendingIn w₃ O A
  rw [hP₃, Queue.pendingIn_of_idle hidleO] at hpend'
  rw [hP₃] at hv₅
  -- every queue but `O` is as recovery of the current queue left it
  have hv₅' : ∀ id, id ≠ O → queue w₅ id = queue w₃ id := by
    intro id hid
    rw [hv₅, Function.update_of_ne hid]
  simp only [migrate, exec_bind, hpend'] at h
  by_cases hemp : ((queue w O).wanted A).isEmpty = true
  · -- the remembered queue holds none of the active set: nothing moves
    have hw : (queue w O).wanted A = [] := List.isEmpty_iff.1 hemp
    rw [if_pos hemp] at h
    simp only [exec_pure, Except.ok.injEq, Prod.mk.injEq] at h
    obtain ⟨rfl, rfl⟩ := h
    refine moved_of_wanted_nil hne hidle hw (by rw [hv₅' _ (Ne.symm hne), hcur₃])
      fun id hid => ?_
    by_cases hidO : id = O
    · rw [hidO, hv₅, Function.update_self, Queue.pendingIn_of_wanted_nil hidleO hw]
    · rw [hv₅' id hidO, hrest₃ id hid]
  · -- the wanted records of `O` are appended to the current queue, then removed from `O`
    rw [if_neg hemp] at h
    rcases hx : (queue w₅ c).enqueueAll ((queue w O).wanted A) with e | R'
    · -- a stopped current queue refuses them, and recovery of the interface fails
      have hfail := hq.enqueueAll_refused w₅ c ((queue w O).wanted A) e hx
      rcases hres : (loc.enqueueAll c ((queue w O).wanted A)).exec w₅ with ⟨r, w₆⟩
      rw [hres] at hfail
      subst hfail
      obtain ⟨w₇, hrel', -⟩ := hq.release w₆ O (((queue w O).wanted A).map (·.id))
      simp [exec_bind, exec_attempt, hres, hrel', exec_throw] at h
    · obtain ⟨w₆, henq, hv₆⟩ := hq.enqueueAll w₅ c ((queue w O).wanted A) R' hx
      obtain ⟨w₇, hrem, hv₇⟩ := hq.remove w₆ O (((queue w O).wanted A).map (·.id))
      simp only [exec_bind, exec_attempt, henq, hrem, exec_pure, Except.ok.injEq,
        Prod.mk.injEq] at h
      obtain ⟨rfl, rfl⟩ := h
      refine moved_of_append hidle hidleO hnodup ?_ ?_ fun id hid hidO => ?_
      · rw [hv₇, Function.update_of_ne (Ne.symm hne), hv₆, Function.update_self,
          Queue.enqueueAll_eq hx, hv₅' _ (Ne.symm hne), hcur₃]
      · rw [hv₇, Function.update_self, hv₆, Function.update_of_ne hne, hv₅,
          Function.update_self]
      · rw [hv₇, Function.update_of_ne hidO, hv₆, Function.update_of_ne hid, hv₅' id hidO,
          hrest₃ id hid]

/-- Recovering one interface whose queues are idle and whose remembered queue, when records move
from it, is another queue than the current one with each identifier queued once. -/
theorem recoverInterface_moved (hq : loc.OverQueues queue) (hp : loc.Places queue cur reach)
    {i : String} {A : List Uuid} {rem : Option String} {w w' : W} {res : String × List Uuid × Nat}
    (hidle : (queue w (cur i)).running = [])
    (hsrc : ∀ O ∈ (source rem (cur i)).map reach,
      O ≠ cur i ∧ (queue w O).running = [] ∧ (queue w O).ids.Nodup)
    (h : (recoverInterface loc i A rem).exec w = (.ok res, w')) :
    Moved queue A (cur i) ((source rem (cur i)).map reach) w w' res := by
  obtain ⟨w₁, hc, hv₁⟩ := hp.current i w
  obtain ⟨w₂, hpend, hv₂⟩ := hq.pendingIn w₁ (cur i) A
  rw [hv₁, Queue.pendingIn_of_idle hidle] at hpend
  rw [hv₁] at hv₂
  obtain ⟨w₃, hrel, hv₃⟩ := hq.release w₂ (cur i) (((queue w (cur i)).wanted A).map (·.id))
  -- the current queue hands its wanted records out and takes them back; no other queue changes
  have hv₃' : queue w₃ = Function.update (queue w) (cur i)
      (((queue w (cur i)).pendingIn A).2.release (((queue w (cur i)).wanted A).map (·.id))) := by
    rw [hv₃, hv₂, Function.update_self, Function.update_idem]
  have hcur₃ : queue w₃ (cur i) =
      ((queue w (cur i)).pendingIn A).2.release (((queue w (cur i)).wanted A).map (·.id)) := by
    rw [hv₃', Function.update_self]
  have hrest₃ : ∀ id, id ≠ cur i → queue w₃ id = queue w id := fun id hid => by
    rw [hv₃', Function.update_of_ne hid]
  simp only [recoverInterface, exec_bind, exec_attempt, hc, exec_pure, hpend, hrel] at h
  rcases rem with _ | o
  · simp only [exec_pure, Except.ok.injEq, Prod.mk.injEq] at h
    obtain ⟨rfl, rfl⟩ := h
    exact moved_stay hidle hcur₃ hrest₃
  · simp only at h
    by_cases hs : (o.isEmpty || decide (o = cur i)) = true
    · -- the remembered queue is none or the current one: recovery ends here
      have hnone : source (some o) (cur i) = none := by simp [source, hs]
      rw [if_pos hs] at h
      simp only [exec_pure, Except.ok.injEq, Prod.mk.injEq] at h
      obtain ⟨rfl, rfl⟩ := h
      rw [hnone]
      exact moved_stay hidle hcur₃ hrest₃
    · -- the remembered queue is reached, with the queues as they were, and migrated from
      rw [if_neg hs] at h
      obtain ⟨w₄, hv₄, h⟩ := exec_reached hp h
      have hsome : source (some o) (cur i) = some o := by simp [source, hs]
      simp only [hsome, Option.map_some] at hsrc ⊢
      obtain ⟨hne, hidleO, hnodup⟩ := hsrc (reach o) rfl
      exact migrate_moved hq hne hidle hidleO hnodup (by rw [hv₄, hcur₃])
        (fun id hid => by rw [hv₄, hrest₃ id hid]) h

/-- With no queue to move records from, recovering an interface succeeds. -/
theorem recoverInterface_ok (hq : loc.OverQueues queue) (hp : loc.Places queue cur reach)
    {i : String} {A : List Uuid} {rem : Option String} (hnone : source rem (cur i) = none) (w : W) :
    ∃ res w', (recoverInterface loc i A rem).exec w = (.ok res, w') := by
  obtain ⟨w₁, hc, -⟩ := hp.current i w
  obtain ⟨w₂, hpend, -⟩ := hq.pendingIn w₁ (cur i) A
  obtain ⟨w₃, hrel, -⟩ := hq.release w₂ (cur i) (((queue w₁ (cur i)).pendingIn A).1.1.map (·.id))
  simp only [recoverInterface, exec_bind, exec_attempt, hc, exec_pure, hpend, hrel]
  rcases rem with _ | o
  · exact ⟨_, _, rfl⟩
  · have hs : (o.isEmpty || decide (o = cur i)) = true := by
      by_contra hs
      simp [source, hs] at hnone
    simp only [hs, if_true]
    exact ⟨_, _, rfl⟩

end Step

section Reconciling

variable {A : List Uuid} {c : String → String} {src : String → Option String} {L : List String}
  {U : String → Queue} {queue : W → String → Queue} {w w' : W} {j : String}
  {res : String × List Uuid × Nat}

/-- An interface not yet recovered works on queues that recovery of the others left alone. -/
theorem Reconciled.untouched (hr : Reconciled A c src L U (queue w))
    (hsep : Separated c src (L ++ [j])) (hj : j ∉ L) {id : String} (ht : Touches c src j id) :
    queue w id = U id :=
  hr.other id fun i hi hti =>
    hsep.apart i (List.mem_append_left _ hi) j (by simp) (fun he => hj (he ▸ hi)) id hti ht

/-- Recovery of `j` leaves alone every queue that `j` does not work on. -/
theorem Moved.untouched (hm : Moved queue A (c j) (src j) w w' res) {id : String}
    (hnt : ¬Touches c src j id) : queue w' id = queue w id :=
  hm.other id (fun he => hnt (.inl he)) (fun hs => hnt (.inr hs))

/-- A queue that neither `j` nor an interface of `L` works on is as it was before recovery. -/
theorem Reconciled.other_extend (hr : Reconciled A c src L U (queue w))
    (hm : Moved queue A (c j) (src j) w w' res) (id : String)
    (hid : ∀ i ∈ L ++ [j], ¬Touches c src i id) : queue w' id = U id := by
  rw [hm.untouched (hid j (by simp))]
  exact hr.other id fun i hi => hid i (List.mem_append_left _ hi)

/-- Recovering an interface for the first time reconciles it as well. -/
theorem Reconciled.extend_fresh (hr : Reconciled A c src L U (queue w))
    (hsep : Separated c src (L ++ [j])) (hj : j ∉ L) (hm : Moved queue A (c j) (src j) w w' res) :
    Reconciled A c src (L ++ [j]) U (queue w') ∧ (∀ x, x ∈ res.2.1 ↔ Held A c src U j x) ∧
      res.2.2 = (takenFrom A U (src j)).length := by
  have hc : queue w (c j) = U (c j) := hr.untouched hsep hj (.inl rfl)
  have hO : ∀ O ∈ src j, queue w O = U O := fun O hO => hr.untouched hsep hj (.inr hO)
  have htaken : takenFrom A (queue w) (src j) = takenFrom A U (src j) := by
    cases hs : src j with
    | none => rfl
    | some O => simp [takenFrom, hO O hs]
  -- an interface recovered before works on none of the queues of `j`
  have hkeep : ∀ i ∈ L, ∀ id, Touches c src i id → queue w' id = queue w id :=
    fun i hi id hti => hm.untouched
      (hsep.apart i (List.mem_append_left _ hi) j (by simp) (fun he => hj (he ▸ hi)) id hti)
  refine ⟨⟨fun i hi => ?_, fun i hi O hOi => ?_, hr.other_extend hm⟩, fun x => ?_, ?_⟩
  · rcases List.mem_append.1 hi with hi | hi
    · rw [hkeep i hi (c i) (.inl rfl)]
      exact hr.target i hi
    · obtain rfl := List.mem_singleton.1 hi
      simpa only [hc, htaken] using hm.target
  · rcases List.mem_append.1 hi with hi | hi
    · rw [hkeep i hi O (.inr hOi)]
      exact hr.source i hi O hOi
    · obtain rfl := List.mem_singleton.1 hi
      simpa only [hO O hOi] using hm.source O hOi
  · have hsrc : (∃ O ∈ src j, x ∈ (queue w O).ids) ↔ ∃ O ∈ src j, x ∈ (U O).ids :=
      exists_congr fun O => and_congr_right fun hOj => by rw [hO O hOj]
    rw [hm.pending, Held, hc, hsrc]
  · rw [hm.count, htaken]

/-- A queue records moved from holds no record of `A` any more. -/
theorem Reconciled.wanted_source (hr : Reconciled A c src L U (queue w)) (hj : j ∈ L) {O : String}
    (hO : O ∈ src j) : (queue w O).wanted A = [] := by
  rw [Queue.wanted, (hr.source j hj O hO).records, List.filter_filter]
  exact List.filter_eq_nil_iff.2 fun r _ => by cases A.contains r.id <;> simp

/-- Recovering an interface again moves nothing, and finds pending only what it found before. -/
theorem Reconciled.extend_again (hr : Reconciled A c src L U (queue w))
    (hsep : Separated c src L) (hj : j ∈ L) (hm : Moved queue A (c j) (src j) w w' res) :
    Reconciled A c src (L ++ [j]) U (queue w') ∧ (∀ x, x ∈ res.2.1 → Held A c src U j x) ∧
      res.2.2 = 0 := by
  have htaken : takenFrom A (queue w) (src j) = [] := by
    cases hs : src j with
    | none => rfl
    | some O => exact hr.wanted_source hj hs
  have hL : ∀ i, i ∈ L ++ [j] ↔ i ∈ L := fun i =>
    ⟨fun h => (List.mem_append.1 h).elim id fun h => (List.mem_singleton.1 h).symm ▸ hj,
      List.mem_append_left _⟩
  -- another interface works on none of the queues of `j`
  have hkeep : ∀ i ∈ L, i ≠ j → ∀ id, Touches c src i id → queue w' id = queue w id :=
    fun i hi hne id hti => hm.untouched (hsep.apart i hi j hj hne id hti)
  refine ⟨⟨fun i hi => ?_, fun i hi O hOi => ?_, hr.other_extend hm⟩, fun x hx => ?_, ?_⟩
  · rw [hL] at hi
    by_cases he : i = j
    · subst he
      have hb := hm.target
      rw [htaken, List.filter_nil, List.append_nil] at hb
      exact (hr.target i hi).trans (by rwa [(hr.target i hi).records] at hb)
    · rw [hkeep i hi he (c i) (.inl rfl)]
      exact hr.target i hi
  · rw [hL] at hi
    by_cases he : i = j
    · subst he
      have hb := hm.source O hOi
      rw [(hr.source i hi O hOi).records, List.filter_filter] at hb
      simp only [Bool.and_self] at hb
      exact (hr.source i hi O hOi).trans hb
    · rw [hkeep i hi he O (.inr hOi)]
      exact hr.source i hi O hOi
  · -- the current queue holds what it held and the moved records; the other queue no record of `A`
    obtain ⟨hA, hx | ⟨O, hOj, hx⟩⟩ := (hm.pending x).1 hx
    · rw [Queue.ids, (hr.target j hj).records, List.map_append, List.mem_append] at hx
      rcases hx with hx | hx
      · exact ⟨hA, .inl hx⟩
      · obtain ⟨r, hr', rfl⟩ := List.mem_map.1 hx
        have hr'' := (List.mem_filter.1 hr').1
        cases hs : src j with
        | none => simp [hs, takenFrom] at hr''
        | some O =>
          rw [hs, takenFrom] at hr''
          exact ⟨hA, .inr ⟨O, hs, (Queue.mem_ids_wanted.1 (List.mem_map_of_mem hr'')).2⟩⟩
    · have hnone := hr.wanted_source hj hOj
      have hx' : x ∈ ((queue w O).wanted A).map (·.id) := Queue.mem_ids_wanted.2 ⟨hA, hx⟩
      simp [hnone] at hx'
  · rw [hm.count, htaken, List.length_nil]

/-- No pass runs on a queue that recovery left, when none ran before. -/
theorem Reconciled.running (hr : Reconciled A c src L U (queue w))
    (hidle : ∀ id, (U id).running = []) (id : String) : (queue w id).running = [] := by
  by_cases ht : ∃ i ∈ L, Touches c src i id
  · obtain ⟨i, hi, hid | hid⟩ := ht
    · subst hid
      rw [(hr.target i hi).running, hidle]
    · rw [(hr.source i hi id hid).running, hidle]
  · simp only [not_exists, not_and] at ht
    rw [hr.other id ht, hidle]

/-- A queue records move from holds each identifier once, when it did before recovery. -/
theorem Reconciled.nodup_source (hr : Reconciled A c src L U (queue w))
    (hsep : Separated c src (L ++ [j])) (hnd : ∀ id, (U id).ids.Nodup) {O : String}
    (hO : O ∈ src j) : (queue w O).ids.Nodup := by
  by_cases hj : j ∈ L
  · rw [Queue.ids, (hr.source j hj O hO).records]
    exact (hnd O).sublist (List.filter_sublist.map _)
  · rw [hr.untouched hsep hj (.inr hO)]
    exact hnd O

theorem nodup_ids_takenFrom (hnd : ∀ id, (U id).ids.Nodup) (s : Option String) :
    ((takenFrom A U s).map (·.id)).Nodup := by
  cases s with
  | none => exact List.nodup_nil
  | some O => exact (hnd O).sublist (List.filter_sublist.map _)

/-- After recovery each queue holds each identifier once, when it did before. -/
theorem Reconciled.nodup (hr : Reconciled A c src L U V) (hnd : ∀ id, (U id).ids.Nodup)
    (id : String) : (V id).ids.Nodup := by
  by_cases ht : ∃ i ∈ L, Touches c src i id
  · obtain ⟨i, hi, hid | hid⟩ := ht
    · subst hid
      rw [Queue.ids, (hr.target i hi).records]
      exact Queue.nodup_ids_append_filter (hnd _) (nodup_ids_takenFrom hnd _)
    · rw [Queue.ids, (hr.source i hi id hid).records]
      exact (hnd id).sublist (List.filter_sublist.map _)
  · simp only [not_exists, not_and] at ht
    rw [hr.other id ht]
    exact hnd id

/-- After recovery the current queue of an interface holds every identifier held for it. -/
theorem Reconciled.held_target (hr : Reconciled A c src L U V) {i : String} (hi : i ∈ L) {x : Uuid}
    (hx : Held A c src U i x) : x ∈ (V (c i)).ids := by
  rw [Queue.ids, (hr.target i hi).records, List.map_append, List.mem_append]
  obtain ⟨hA, hc | ⟨O, hO, hxO⟩⟩ := hx
  · exact .inl hc
  · by_cases hc : x ∈ (U (c i)).ids
    · exact .inl hc
    · -- the record of `O` is moved, since the current queue lacked its identifier
      right
      obtain ⟨r, hr', rfl⟩ := Queue.mem_ids.1 hxO
      have hT : r ∈ takenFrom A U (src i) := by
        rw [hO, takenFrom, Queue.wanted, List.mem_filter]
        exact ⟨hr', by simpa using hA⟩
      exact List.mem_map_of_mem (List.mem_filter.2 ⟨hT, by simp [Queue.holds_eq_false hc]⟩)

/-- Recovery that moves no records leaves every queue with its records. -/
theorem Reconciled.records_of_no_source (hr : Reconciled A c src L U V)
    (hnone : ∀ i ∈ L, src i = none) (id : String) : (V id).records = (U id).records := by
  by_cases ht : ∃ i ∈ L, Touches c src i id
  · obtain ⟨i, hi, hid | hid⟩ := ht
    · subst hid
      rw [(hr.target i hi).records, hnone i hi, takenFrom, List.filter_nil, List.append_nil]
    · simp [hnone i hi] at hid
  · simp only [not_exists, not_and] at ht
    rw [hr.other id ht]

theorem Reconciled.nil : Reconciled A c src [] U U :=
  ⟨fun _ h => absurd h List.not_mem_nil, fun _ h => absurd h List.not_mem_nil, fun _ _ => rfl⟩

theorem Gathered.nil : Gathered A c src U [] ([], [], 0, false) :=
  ⟨by simp, List.Pairwise.nil, rfl, rfl, rfl⟩

/-- Gathering what recovery of one more interface returned. -/
theorem Gathered.extend {act : List Uuid} {qs : List (String × String)} {n : Nat}
    (hg : Gathered A c src U L (act, qs, n, false))
    (hpend : ∀ x, x ∈ res.2.1 → Held A c src U j x)
    (hfresh : j ∉ L → ∀ x, Held A c src U j x → x ∈ res.2.1)
    (hcount : res.2.2 = if j ∈ L then 0 else (takenFrom A U (src j)).length) (hc : res.1 = c j) :
    Gathered A c src U (L ++ [j]) (addIds act res.2.1, insertByName j res.1 qs, n + res.2.2, false) := by
  obtain ⟨hact, -, hqs, hn, -⟩ := hg
  dsimp only at hact hqs hn
  refine ⟨fun x => ?_, addIds_sorted _ _, ?_, ?_, rfl⟩ <;> dsimp only
  · rw [mem_addIds, hact]
    simp only [List.mem_append, List.mem_singleton]
    constructor
    · rintro (⟨i, hi, hx⟩ | hx)
      · exact ⟨i, .inl hi, hx⟩
      · exact ⟨j, .inr rfl, hpend x hx⟩
    · rintro ⟨i, hi | rfl, hx⟩
      · exact .inl ⟨i, hi, hx⟩
      · by_cases hj : i ∈ L
        · exact .inl ⟨i, hj, hx⟩
        · exact .inr (hfresh hj x hx)
  · rw [hqs, hc, List.foldl_append]
    rfl
  · rw [hn, hcount]
    by_cases hj : j ∈ L
    · have hset : (L ++ [j]).toFinset = L.toFinset := by
        ext i
        simp only [List.mem_toFinset, List.mem_append, List.mem_singleton]
        exact ⟨fun h => h.elim id (· ▸ hj), .inl⟩
      rw [if_pos hj, hset, Nat.add_zero]
    · have hset : (L ++ [j]).toFinset = insert j L.toFinset := by
        ext i
        simp
      rw [if_neg hj, hset, Finset.sum_insert (by simpa using hj), Nat.add_comm]

/-- Recovering one more interface, for the first time or again, extends what was gathered and
reconciled. -/
theorem Reconciled.extend {act : List Uuid} {qs : List (String × String)} {n : Nat}
    (hr : Reconciled A c src L U (queue w)) (hg : Gathered A c src U L (act, qs, n, false))
    (hsep : Separated c src (L ++ [j])) (hm : Moved queue A (c j) (src j) w w' res) :
    Gathered A c src U (L ++ [j]) (addIds act res.2.1, insertByName j res.1 qs, n + res.2.2, false) ∧
      Reconciled A c src (L ++ [j]) U (queue w') := by
  by_cases hjL : j ∈ L
  · obtain ⟨hr', hpend, hcount⟩ := hr.extend_again (hsep.mono (List.subset_append_left L [j])) hjL hm
    exact ⟨hg.extend hpend (absurd hjL) (by rw [if_pos hjL]; exact hcount) hm.current, hr'⟩
  · obtain ⟨hr', hpend, hcount⟩ := hr.extend_fresh hsep hjL hm
    exact ⟨hg.extend (fun x => (hpend x).1) (fun _ x => (hpend x).2)
      (by rw [if_neg hjL]; exact hcount) hm.current, hr'⟩

end Reconciling

section Fold

variable {loc : Locator W} {A : List Uuid} {queues : List (String × String)}

/-- Once an interface failed, recovery of the others keeps the failure raised. -/
theorem recoverAll_failed (rest : List String) :
    ∀ (act : List Uuid) (qs : List (String × String)) (n : Nat) (w : W) {res w'},
      (recoverAll loc A queues rest (act, qs, n, true)).exec w = (.ok res, w') → res.2.2.2 = true := by
  induction rest with
  | nil =>
    intro act qs n w res w' h
    simp only [recoverAll, exec_pure, Prod.mk.injEq, Except.ok.injEq] at h
    rw [← h.1]
  | cons j rest ih =>
    intro act qs n w res w' h
    simp only [recoverAll, exec_bind, exec_attempt] at h
    rcases hj : (recoverInterface loc j A (queues.lookup j)).exec w with ⟨r, w₁⟩
    rw [hj] at h
    rcases r with e | ⟨c, pending, moved⟩
    · exact ih _ _ _ _ h
    · exact ih _ _ _ _ h

/-- Recovery of a list of interfaces always returns: a failing interface is recorded, not
raised. -/
theorem recoverAll_returns (rest : List String) :
    ∀ (acc : List Uuid × List (String × String) × Nat × Bool) (w : W),
      ∃ res w', (recoverAll loc A queues rest acc).exec w = (.ok res, w') := by
  induction rest with
  | nil => intro acc w; exact ⟨acc, w, rfl⟩
  | cons j rest ih =>
    intro ⟨act, qs, n, failed⟩ w
    simp only [recoverAll, exec_bind, exec_attempt]
    exact ih _ _

variable {queue : W → String → Queue} {cur reach : String → String}

/-- When no interface has a queue to move records from, no interface fails. -/
theorem recoverAll_ok_of_no_source (hq : loc.OverQueues queue) (hp : loc.Places queue cur reach)
    (rest : List String) (hnone : ∀ j ∈ rest, source (queues.lookup j) (cur j) = none) :
    ∀ (act : List Uuid) (qs : List (String × String)) (n : Nat) (w : W) {res w'},
      (recoverAll loc A queues rest (act, qs, n, false)).exec w = (.ok res, w') →
        res.2.2.2 = false := by
  induction rest with
  | nil =>
    intro act qs n w res w' h
    simp only [recoverAll, exec_pure, Prod.mk.injEq, Except.ok.injEq] at h
    rw [← h.1]
  | cons j rest ih =>
    intro act qs n w res w' h
    obtain ⟨⟨cj, pending, moved⟩, w₁, hj⟩ :=
      recoverInterface_ok hq hp (A := A) (hnone j List.mem_cons_self) w
    simp only [recoverAll, exec_bind, exec_attempt, hj] at h
    exact ih (fun j' hj' => hnone j' (List.mem_cons_of_mem _ hj')) _ _ _ _ h

/-- Recovery of the interfaces `rest`, after those of `L`, over idle queues that hold each
identifier once: when no interface fails, it gathers and reconciles all of them. The induction
runs over the interfaces still to recover, with the accumulator and the world generalised. -/
theorem recoverAll_reconciles (hq : loc.OverQueues queue) (hp : loc.Places queue cur reach)
    {U : String → Queue} (hnd : ∀ id, (U id).ids.Nodup) (hidle : ∀ id, (U id).running = [])
    (rest : List String) :
    ∀ (L : List String) (acc : List Uuid × List (String × String) × Nat × Bool) (w w' : W) res,
      Separated cur (movedFrom queues cur reach) (L ++ rest) →
      Gathered A cur (movedFrom queues cur reach) U L acc →
      Reconciled A cur (movedFrom queues cur reach) L U (queue w) →
      (recoverAll loc A queues rest acc).exec w = (.ok res, w') → res.2.2.2 = false →
      Gathered A cur (movedFrom queues cur reach) U (L ++ rest) res ∧
        Reconciled A cur (movedFrom queues cur reach) (L ++ rest) U (queue w') := by
  induction rest with
  | nil =>
    intro L acc w w' res _ hg hr h _
    simp only [recoverAll, exec_pure, Prod.mk.injEq, Except.ok.injEq] at h
    obtain ⟨rfl, rfl⟩ := h
    simpa using And.intro hg hr
  | cons j rest ih =>
    rintro L ⟨act, qs, n, failed⟩ w w' res hsep hg hr h hok
    obtain rfl : failed = false := hg.ok
    have hsep' : Separated cur (movedFrom queues cur reach) (L ++ [j]) :=
      hsep.mono fun i hi => by
        simp only [List.mem_append, List.mem_cons] at hi ⊢
        tauto
    have hsep'' : L ++ [j] ++ rest = L ++ j :: rest := by simp
    simp only [recoverAll, exec_bind, exec_attempt] at h
    rcases hj : (recoverInterface loc j A (queues.lookup j)).exec w with ⟨r, w₁⟩
    rw [hj] at h
    rcases r with e | ⟨cj, pending, moved⟩
    · -- a failing interface raises the flag for good
      have := recoverAll_failed rest _ _ _ _ h
      rw [hok] at this
      cases this
    · have hm := recoverInterface_moved hq hp (hr.running hidle (cur j))
        (fun O hO => ⟨hsep'.self j (by simp) O hO, hr.running hidle O,
          hr.nodup_source hsep' hnd hO⟩) hj
      have hstep := hr.extend hg hsep' hm
      rw [← hsep'']
      exact ih (L ++ [j]) _ w₁ w' res (hsep''.symm ▸ hsep) hstep.1 hstep.2 h hok

end Fold

/-- No interface fails when recovery runs from world `w`: the failure it keeps for an interface
that cannot be examined stays down. -/
def NoneFails (loc : Locator W) (interfaces : List String) (A : List Uuid)
    (queues : List (String × String)) (w : W) : Prop :=
  ∀ acc w', (recoverAll loc A queues interfaces ([], [], 0, false)).exec w = (.ok acc, w') →
    acc.2.2.2 = false

section Recover

variable {loc : Locator W} {queue : W → String → Queue} {cur reach : String → String}
  {interfaces : List String} {A : List Uuid} {queues : List (String × String)}

/-- The map recovery returns names the current queue of each interface. -/
theorem lookup_current (i : String) (hi : i ∈ interfaces) :
    (interfaces.foldl (fun qs i => insertByName i (cur i) qs) []).lookup i = some (cur i) := by
  rw [lookup_foldl_insertByName, if_pos hi]

/-- Recovering again from what recovery returned finds every remembered queue current. -/
theorem movedFrom_current (i : String) (hi : i ∈ interfaces) :
    movedFrom (interfaces.foldl (fun qs i => insertByName i (cur i) qs) []) cur reach i = none := by
  simp [movedFrom, lookup_current i hi, source]

/-- Recovery when no interface fails: it returns, gathers what every interface gave and
reconciles every queue. -/
theorem recover_gathers (hq : loc.OverQueues queue) (hp : loc.Places queue cur reach) {w : W}
    (hnd : ∀ id, (queue w id).ids.Nodup) (hidle : ∀ id, (queue w id).running = [])
    (hsep : Separated cur (movedFrom queues cur reach) interfaces)
    (hnf : NoneFails loc interfaces A queues w) :
    ∃ r w', (recover loc interfaces A queues).exec w = (.ok r, w') ∧
      Gathered A cur (movedFrom queues cur reach) (queue w) interfaces
        (r.active, r.queues, r.migrated, false) ∧
      Reconciled A cur (movedFrom queues cur reach) interfaces (queue w) (queue w') ∧
      r.changed = (!sameIds r.active A || !sameQueues r.queues queues) := by
  obtain ⟨⟨act, qs, n, failed⟩, w', hrun⟩ : ∃ res w',
      (recoverAll loc A queues interfaces ([], [], 0, false)).exec w = (.ok res, w') :=
    recoverAll_returns interfaces _ w
  obtain rfl : failed = false := hnf _ _ hrun
  obtain ⟨hg, hr⟩ := recoverAll_reconciles hq hp hnd hidle interfaces [] _ w w' _ (by simpa using hsep)
    Gathered.nil Reconciled.nil hrun rfl
  refine ⟨⟨act, qs, n, !sameIds act A || !sameQueues qs queues⟩, w', ?_, by simpa using hg,
    by simpa using hr, rfl⟩
  simp only [recover, exec_bind, hrun]
  rfl

/-- Recovering again, from what recovery returned, returns the same set and map, moves nothing,
reports no change and leaves every record where it is. -/
theorem recover_again (hq : loc.OverQueues queue) (hp : loc.Places queue cur reach)
    {U : String → Queue} (hnd : ∀ id, (U id).ids.Nodup) (hidle : ∀ id, (U id).running = [])
    (hsep : Separated cur (movedFrom queues cur reach) interfaces) {act : List Uuid} {n : Nat}
    (hg : Gathered A cur (movedFrom queues cur reach) U interfaces
      (act, interfaces.foldl (fun qs i => insertByName i (cur i) qs) [], n, false))
    {w' : W} (hr : Reconciled A cur (movedFrom queues cur reach) interfaces U (queue w')) :
    ∃ w'', (recover loc interfaces act
        (interfaces.foldl (fun qs i => insertByName i (cur i) qs) [])).exec w' =
      (.ok ⟨act, interfaces.foldl (fun qs i => insertByName i (cur i) qs) [], 0, false⟩, w'') ∧
      ∀ id, (queue w'' id).records = (queue w' id).records := by
  set qs := interfaces.foldl (fun qs i => insertByName i (cur i) qs) [] with hqs
  -- with every remembered queue current, interfaces work on their current queues only
  have hnone : ∀ i ∈ interfaces, movedFrom qs cur reach i = none := movedFrom_current
  obtain ⟨⟨act', qs', n', failed⟩, w'', hrun⟩ : ∃ res w'',
      (recoverAll loc act qs interfaces ([], [], 0, false)).exec w' = (.ok res, w'') :=
    recoverAll_returns interfaces _ w'
  have hok : failed = false := recoverAll_ok_of_no_source hq hp interfaces
    (fun j hj => by simpa [movedFrom] using hnone j hj) _ _ _ _ hrun
  subst hok
  obtain ⟨hg', hr'⟩ := recoverAll_reconciles hq hp (hr.nodup hnd) (hr.running hidle) interfaces []
    _ w' w'' _ (by simpa using hsep.of_no_source hnone) Gathered.nil Reconciled.nil hrun rfl
  simp only [List.nil_append] at hg' hr'
  -- the second run holds for each interface exactly the identifiers of the first
  have hact : act' = act := by
    refine eq_of_sorted_of_mem_iff hg'.sorted hg.sorted fun x => ?_
    rw [hg'.active]
    constructor
    · rintro ⟨i, hi, hx, -⟩
      exact hx
    · intro hx
      obtain ⟨i, hi, hheld⟩ := (hg.active x).1 hx
      exact ⟨i, hi, hx, .inl (hr.held_target hi hheld)⟩
  have hmoved : n' = 0 := by
    have hm := hg'.moved
    dsimp only at hm
    rw [hm]
    exact Finset.sum_eq_zero fun i hi => by
      rw [hnone i (List.mem_toFinset.1 hi)]
      rfl
  have hqs' : qs' = qs := hg'.queues
  refine ⟨w'', ?_, hr'.records_of_no_source hnone⟩
  simp only [recover, exec_bind, hrun]
  rw [hact, hmoved, hqs']
  have hsame : sameIds act act = true := sameIds_iff.2 fun _ => Iff.rfl
  have hsame' : sameQueues qs qs = true :=
    sameQueues_self (namesSorted_foldl_insertByName _ _ _ List.Pairwise.nil)
  simp [hsame, hsame']

/-- A locator over a table of queues by identifier: interface `i` is served by queue `cur i`, a
remembered queue is found as itself, and each queue operation is the queue's own. -/
def tableLocator (cur : String → String) : Locator (String → Queue) where
  current i := pure (cur i)
  resolve o := pure o
  reincarnation o := pure o
  pendingIn id ws := do
    let U ← get
    set (Function.update U id ((U id).pendingIn ws).2)
    pure ((U id).pendingIn ws).1
  enqueueAll id recs := do
    let U ← get
    match (U id).enqueueAll recs with
    | .ok q => set (Function.update U id q)
    | .error e => throw e
  remove id ids := modify fun U => Function.update U id ((U id).remove ids).1
  release id ids := modify fun U => Function.update U id ((U id).release ids)

theorem tableLocator_overQueues (cur : String → String) :
    (tableLocator cur).OverQueues fun U => U where
  pendingIn _ _ _ := ⟨_, rfl, rfl⟩
  enqueueAll U id recs q h := ⟨_, by simp [tableLocator, exec_bind, h], rfl⟩
  enqueueAll_refused U id recs e h := by simp [tableLocator, exec_bind, h]
  remove _ _ _ := ⟨_, rfl, rfl⟩
  release _ _ _ := ⟨_, rfl, rfl⟩

theorem tableLocator_places (cur : String → String) :
    (tableLocator cur).Places (fun U => U) cur id where
  current _ U := ⟨U, rfl, rfl⟩
  resolve _ _ := ⟨rfl, fun _ h => (Except.ok.inj h).symm⟩
  reincarnation _ _ := ⟨rfl, fun _ h => (Except.ok.inj h).symm⟩

/-- A record of `player/a` with identifier `1`. -/
def sampleRecord : WorkflowRecord := ⟨⟨1⟩, ⟨"player", "a"⟩, "IPlayer", []⟩

/-- Queue `q1` holds the sample record; every other queue is empty. -/
def sampleQueues (id : String) : Queue :=
  if id = "q1" then { id := "q1", records := [sampleRecord], listed := true } else { id := id }

/-- Recovery over idle queues that hold each identifier once, for interfaces that work on queues
apart, when no interface fails. It returns. Each current queue holds its records and then, in
their order, the records of the active set it lacked from the remembered queue, and each
remembered queue keeps exactly its records outside the active set; no other queue changes, no
new mark is left, and every queue holds each identifier once. The new active set is the sorted
set of identifiers of the active set that either queue held, the records moved are counted once
per interface, and the map names the current queues. When no current queue identifier is empty,
the change flag reports whether the set or the map changed. Recovering again from what it
returned returns the same, moves nothing and leaves every record where it is. -/
theorem recover_migrates_each_record_once (hq : loc.OverQueues queue)
    (hp : loc.Places queue cur reach) {w : W} (hsound : ∀ id, (queue w id).Sound)
    (hidle : ∀ id, (queue w id).running = [])
    (hsep : Separated cur (movedFrom queues cur reach) interfaces) (hmap : NamesSorted queues)
    (hnf : NoneFails loc interfaces A queues w) :
    ∃ r w', (recover loc interfaces A queues).exec w = (.ok r, w') ∧
      Reconciled A cur (movedFrom queues cur reach) interfaces (queue w) (queue w') ∧
      (∀ id, (queue w' id).ids.Nodup) ∧
      (∀ x, x ∈ r.active ↔
        ∃ i ∈ interfaces, Held A cur (movedFrom queues cur reach) (queue w) i x) ∧
      r.active.Pairwise (fun a b => a.value < b.value) ∧
      r.migrated = ∑ i ∈ interfaces.toFinset,
        (takenFrom A (queue w) (movedFrom queues cur reach i)).length ∧
      (∀ k, r.queues.lookup k = if k ∈ interfaces then some (cur k) else none) ∧
      ((∀ i ∈ interfaces, cur i ≠ "") →
        (r.changed = false ↔ (∀ x, x ∈ r.active ↔ x ∈ A) ∧ r.queues = queues)) ∧
      ∃ w'', (recover loc interfaces r.active r.queues).exec w' =
          (.ok ⟨r.active, r.queues, 0, false⟩, w'') ∧
        ∀ id, (queue w'' id).records = (queue w' id).records := by
  have hnd : ∀ id, (queue w id).ids.Nodup := fun id => (hsound id).ids_nodup
  obtain ⟨r, w', hrun, hg, hr, hch⟩ := recover_gathers hq hp hnd hidle hsep hnf
  have hqs : r.queues = interfaces.foldl (fun qs i => insertByName i (cur i) qs) [] := hg.queues
  have hsorted : NamesSorted r.queues := by
    rw [hqs]
    exact namesSorted_foldl_insertByName _ _ _ List.Pairwise.nil
  refine ⟨r, w', hrun, hr, hr.nodup hnd, hg.active, hg.sorted, hg.moved,
    fun k => by rw [hqs, lookup_foldl_insertByName]; rfl, fun hne => ?_, ?_⟩
  · -- every queue the map names is a current queue, so none is empty
    have hv : ∀ p ∈ r.queues, p.2 ≠ "" := by
      rintro ⟨k, v⟩ hp
      have hl := (lookup_eq_some_iff hsorted).2 hp
      rw [hqs, lookup_foldl_insertByName] at hl
      by_cases hk : k ∈ interfaces
      · rw [if_pos hk, Option.some.injEq] at hl
        exact hl ▸ hne k hk
      · simp [hk] at hl
    rw [hch, Bool.or_eq_false_iff, Bool.not_eq_false', Bool.not_eq_false', sameIds_iff,
      sameQueues_iff hsorted hmap hv]
  · rw [hqs] at hg ⊢
    exact recover_again hq hp hnd hidle hsep hg hr

/-- Recovering `player/a`, whose record waits in `q1` while `q2` now serves its interface, moves
the record to `q2`, leaves `q1` empty and keeps its identifier pending. -/
theorem recover_moves_sample_record :
    NoneFails (tableLocator fun _ => "q2") ["IPlayer"] [⟨1⟩] [("IPlayer", "q1")] sampleQueues ∧
      ∃ r U, (recover (tableLocator fun _ => "q2") ["IPlayer"] [⟨1⟩] [("IPlayer", "q1")]).exec
          sampleQueues = (.ok r, U) ∧
        (U "q2").records = [sampleRecord] ∧ (U "q1").records = [] ∧ r.active = [⟨1⟩] ∧
        r.migrated = 1 ∧ r.queues.lookup "IPlayer" = some "q2" := by
  have hnf : NoneFails (tableLocator fun _ => "q2") ["IPlayer"] [⟨1⟩] [("IPlayer", "q1")]
      sampleQueues := by
    intro acc w' h
    -- the flag alone is evaluated: the sets the run builds are not
    have hflag : (((recoverAll (tableLocator fun _ => "q2") [⟨1⟩] [("IPlayer", "q1")] ["IPlayer"]
        ([], [], 0, false)).exec sampleQueues).1.toOption.map (·.2.2.2)) = some false := by
      decide
    rw [h] at hflag
    exact Option.some.inj hflag
  have hsound : ∀ id, (sampleQueues id).Sound := by
    intro id
    unfold sampleQueues
    split <;> exact ⟨by simp [Queue.ids, sampleRecord], by simp⟩
  have hidle : ∀ id, (sampleQueues id).running = [] := by
    intro id
    unfold sampleQueues
    split <;> rfl
  have hsep : Separated (fun _ => "q2") (movedFrom [("IPlayer", "q1")] (fun _ => "q2") id)
      ["IPlayer"] :=
    ⟨by simp [movedFrom, source], by simp⟩
  obtain ⟨r, w', hrun, hr, -, hact, hsorted, hmig, hlook, -⟩ :=
    recover_migrates_each_record_once (tableLocator_overQueues _) (tableLocator_places _) hsound
      hidle hsep (List.pairwise_singleton _ _) hnf
  have hI : "IPlayer" ∈ ["IPlayer"] := List.mem_singleton_self _
  refine ⟨hnf, r, w', hrun, (hr.target "IPlayer" hI).records.trans rfl,
    (hr.source "IPlayer" hI "q1" rfl).records.trans rfl, ?_, hmig.trans rfl, ?_⟩
  · refine eq_of_sorted_of_mem_iff hsorted (List.pairwise_singleton _ _) fun x => ?_
    rw [hact]
    constructor
    · rintro ⟨i, -, hx, -⟩
      exact hx
    · intro hx
      obtain rfl : x = ⟨1⟩ := List.mem_singleton.1 hx
      exact ⟨"IPlayer", hI, hx, .inr ⟨"q1", by decide, by decide⟩⟩
  · rw [hlook, if_pos hI]

/-- The change flag reads a name missing from the remembered map as the empty queue identifier:
when a new interface is served by a queue with the empty identifier in place of a remembered
interface, the map changes and the flag reports no change. -/
theorem recover_misses_new_empty_queue :
    ∃ r w', (recover (tableLocator fun _ => "") ["I1"] [] [("I2", "q")]).exec
        (fun id => { id := id }) = (.ok r, w') ∧
      r.queues = [("I1", "")] ∧ r.queues ≠ [("I2", "q")] ∧ r.changed = false := by
  rcases hx : (recover (tableLocator fun _ => "") ["I1"] [] [("I2", "q")]).exec
    (fun id => { id := id }) with ⟨res, w'⟩
  have hout : res.toOption.map (fun r => (r.queues, r.changed)) = some ([("I1", "")], false) := by
    have h : ((recover (tableLocator fun _ => "") ["I1"] [] [("I2", "q")]).exec
        (fun id => { id := id })).1.toOption.map (fun r => (r.queues, r.changed)) =
          some ([("I1", "")], false) := by
      decide +kernel
    rwa [hx] at h
  rcases res with e | r
  · cases hout
  · simp only [Except.toOption, Option.map_some, Option.some.injEq, Prod.mk.injEq] at hout
    exact ⟨r, w', rfl, hout.1, by simp [hout.1], hout.2⟩

end Recover

end EntityIndex.Indexing
