import EntityIndex.Workflow.Queue

/-!
# Runs of a workflow queue

A queue is driven by calls of its interface (append, hand out for migration, release, remove,
pause, resume, stop), interleaved in any order with the steps of its drain loop: taking a batch,
then the pass over it succeeding or failing. `Queue.Op` names these steps and `Queue.run`
applies a list of them in order.

The queue's bookkeeping stays sound along every run (`Queue.Sound`): no identifier is queued
twice, and no identifier of the running pass is migrating. Every batch is the queued records
that are not migrating, in queue order, and the records of a queue are always a subsequence of
what was appended to it, so records reach the handler in the order they were appended. A
record handed out for migration stays out of every batch until its identifier is released or
removed. A record leaves the queue only when it is removed, or when the pass that holds it
succeeds; a failed pass leaves every record queued and none running.

Removing an identifier also clears its migrating mark, so a record removed after it was handed
out and then appended again is taken by the next batch although it was never released.
-/

namespace EntityIndex.Workflow

namespace Queue

/-- One step of a queue: a call of its interface, or a step of its drain loop. -/
inductive Op where
  /-- Append records; refused once the queue is stopped. -/
  | enqueueAll (recs : List WorkflowRecord)
  /-- Hand out the wanted records that no pass holds, marking them as migrating. -/
  | pendingIn (wanted : List Uuid)
  /-- Give migrating records back to the queue. -/
  | release (back : List Uuid)
  /-- Drop records for good. -/
  | remove (drop : List Uuid)
  /-- Suspend passes. -/
  | pause
  /-- Restart passes. -/
  | resume
  /-- Stop the queue. -/
  | stop
  /-- The drain loop takes a batch and starts a pass over it. -/
  | next
  /-- The running pass ends, successfully or not. -/
  | finish (ok : Bool)
  deriving DecidableEq

/-- The queue after one step. A refused append leaves it as it was. -/
def step (q : Queue) : Op → Queue
  | .enqueueAll recs =>
    match q.enqueueAll recs with
    | .ok q' => q'
    | .error _ => q
  | .pendingIn wanted => (q.pendingIn wanted).2
  | .release back => q.release back
  | .remove drop => (q.remove drop).1
  | .pause => { q with paused := true }
  | .resume => { q with paused := false }
  | .stop => q.stop
  | .next => q.startPass.2
  | .finish ok => q.finishPass ok

/-- The queue after a list of steps, applied in order. -/
def run (q : Queue) (ops : List Op) : Queue := ops.foldl step q

/-- The records a step offers to append. -/
def Op.appended : Op → List WorkflowRecord
  | .enqueueAll recs => recs
  | _ => []

/-- Whether a step ends the migration of identifier `i`: a release or a remove naming it. -/
def Op.frees (i : Uuid) : Op → Bool
  | .release back => back.contains i
  | .remove drop => drop.contains i
  | _ => false

/-- The queue's bookkeeping is consistent. -/
structure Sound (q : Queue) : Prop where
  /-- No identifier is queued twice. -/
  ids_nodup : q.ids.Nodup
  /-- No identifier of the running pass is migrating. -/
  running_not_migrating : ∀ i ∈ q.running, i ∉ q.migrating

variable {q q' : Queue} {i : Uuid}

@[simp] theorem run_nil : q.run [] = q := rfl

@[simp] theorem run_cons (op : Op) (ops : List Op) : q.run (op :: ops) = (q.step op).run ops := rfl

theorem run_append (xs ys : List Op) : q.run (xs ++ ys) = (q.run xs).run ys := List.foldl_append

theorem mem_ids : i ∈ q.ids ↔ ∃ r ∈ q.records, r.id = i := by simp [ids]

theorem holds_eq_false (h : i ∉ q.ids) : q.holds i = false := by
  simpa [holds, mem_ids] using h

/-! ## Appending -/

theorem append_nil : q.append [] = q := rfl

theorem append_cons (r : WorkflowRecord) (recs : List WorkflowRecord) :
    q.append (r :: recs) =
      (if q.holds r.id then q else { q with records := q.records ++ [r], listed := true }).append
        recs := rfl

/-- Appending changes only the record list and whether it exists. -/
theorem append_eq (recs : List WorkflowRecord) : ∀ q : Queue,
    q.append recs = { q with records := (q.append recs).records, listed := (q.append recs).listed } := by
  induction recs with
  | nil => intro q; rfl
  | cons r recs ih =>
    intro q
    rw [append_cons]
    split
    · exact ih q
    · rw [ih]

@[simp] theorem running_append (recs : List WorkflowRecord) : (q.append recs).running = q.running := by
  rw [append_eq]

@[simp] theorem migrating_append (recs : List WorkflowRecord) :
    (q.append recs).migrating = q.migrating := by
  rw [append_eq]

/-- Appending keeps the records already queued, in front. -/
theorem records_prefix_append (recs : List WorkflowRecord) :
    ∀ q : Queue, q.records <+: (q.append recs).records := by
  induction recs with
  | nil => intro q; exact List.prefix_refl _
  | cons r recs ih =>
    intro q
    rw [append_cons]
    split
    · exact ih q
    · exact (List.prefix_append q.records [r]).trans
        (ih { q with records := q.records ++ [r], listed := true })

/-- Appending adds only records it was given, in the order given. -/
theorem records_append_sublist (recs : List WorkflowRecord) :
    ∀ q : Queue, (q.append recs).records.Sublist (q.records ++ recs) := by
  induction recs with
  | nil => intro q; simp [append_nil]
  | cons r recs ih =>
    intro q
    rw [append_cons]
    split
    · exact (ih q).trans ((List.sublist_cons_self r recs).append_left _)
    · simpa using ih { q with records := q.records ++ [r], listed := true }

/-- Appending skips identifiers already queued, so it never queues one twice. -/
theorem ids_append_nodup (recs : List WorkflowRecord) :
    ∀ q : Queue, q.ids.Nodup → (q.append recs).ids.Nodup := by
  induction recs with
  | nil => intro q h; exact h
  | cons r recs ih =>
    intro q h
    rw [append_cons]
    split
    · exact ih q h
    · rename_i hr
      apply ih
      have hr : r.id ∉ q.ids := by simpa [holds, mem_ids] using hr
      simpa [ids, List.nodup_append] using And.intro h fun a ha hra => hr (mem_ids.2 ⟨a, ha, hra⟩)

theorem enqueueAll_eq (h : q.enqueueAll recs = .ok q') : q' = q.append recs := by
  unfold enqueueAll at h
  split at h
  · cases h
  · exact (Except.ok.inj h).symm

/-! ## Handing out, releasing, removing -/

/-- The identifiers of records added one at a time to a list, skipping those already there. -/
theorem mem_foldl_addId (xs : List WorkflowRecord) :
    ∀ m : List Uuid, i ∈ xs.foldl (fun m r => if m.contains r.id then m else m ++ [r.id]) m ↔
      i ∈ m ∨ i ∈ xs.map (·.id) := by
  induction xs with
  | nil => simp
  | cons r xs ih =>
    intro m
    rw [List.foldl_cons, ih]
    split
    · rename_i hr
      have hr : r.id ∈ m := by simpa using hr
      constructor
      · rintro (h | h)
        · exact Or.inl h
        · exact Or.inr (List.mem_cons_of_mem _ h)
      · rintro (h | h)
        · exact Or.inl h
        · rcases List.mem_cons.1 h with rfl | h
          · exact Or.inl hr
          · exact Or.inr h
    · simp [or_assoc, or_comm, or_left_comm]

/-- The records `pendingIn` hands out: the wanted records that the running pass does not hold. -/
theorem mem_pendingIn_records {wanted : List Uuid} {r : WorkflowRecord} :
    r ∈ (q.pendingIn wanted).1.1 ↔ r ∈ q.records ∧ r.id ∈ wanted ∧ r.id ∉ q.running := by
  simp only [pendingIn, List.mem_filter, List.contains_iff_mem, Bool.not_eq_true', and_assoc]
  simp [and_comm]

/-- After `pendingIn`, the migrating identifiers are the earlier ones and those handed out. -/
theorem mem_migrating_pendingIn {wanted : List Uuid} :
    i ∈ (q.pendingIn wanted).2.migrating ↔
      i ∈ q.migrating ∨ ∃ r ∈ (q.pendingIn wanted).1.1, r.id = i := by
  simp only [pendingIn, mem_foldl_addId, List.mem_map]

@[simp] theorem records_pendingIn (wanted : List Uuid) : (q.pendingIn wanted).2.records = q.records :=
  rfl

@[simp] theorem running_pendingIn (wanted : List Uuid) : (q.pendingIn wanted).2.running = q.running :=
  rfl

@[simp] theorem records_remove (drop : List Uuid) :
    (q.remove drop).1.records = q.records.filter fun r => !drop.contains r.id := rfl

@[simp] theorem migrating_remove (drop : List Uuid) :
    (q.remove drop).1.migrating = q.migrating.filter (!drop.contains ·) := rfl

@[simp] theorem running_remove (drop : List Uuid) : (q.remove drop).1.running = q.running := rfl

/-! ## Passes -/

/-- A nonempty batch is every queued record that is not migrating, in queue order. -/
theorem batch_of_ne_nil (h : q.batch ≠ []) :
    q.batch = q.records.filter fun r => !q.migrating.contains r.id := by
  unfold batch at h ⊢
  split
  · rename_i hc
    simp [hc] at h
  · rfl

/-- A pass starts only when none runs and the batch is not empty; it takes the batch and marks
its identifiers as running. -/
theorem startPass_eq_some {b : List WorkflowRecord} (h : q.startPass = (some b, q')) :
    q.running = [] ∧ b ≠ [] ∧ b = q.batch ∧ q' = { q with running := b.map (·.id) } := by
  unfold startPass at h
  split at h
  · cases h
  · rename_i hr
    split at h
    · cases h
    · rename_i _ hne
      simp only [Prod.mk.injEq, Option.some.injEq] at h
      obtain ⟨rfl, rfl⟩ := h
      exact ⟨by simpa using hr, hne, rfl, rfl⟩

/-- When no pass starts, nothing changes. -/
theorem startPass_eq_none (h : q.startPass = (none, q')) : q' = q := by
  unfold startPass at h
  split at h
  · exact (Prod.mk.inj h).2.symm
  · split at h <;> simp_all

/-- A batch holds no migrating record. -/
theorem not_mem_batch_of_migrating {b : List WorkflowRecord} (h : q.startPass = (some b, q'))
    (hi : i ∈ q.migrating) : i ∉ b.map (·.id) := by
  obtain ⟨-, hne, rfl, -⟩ := startPass_eq_some h
  rw [batch_of_ne_nil hne]
  simp only [List.mem_map, List.mem_filter, not_exists, not_and]
  intro r hr hri
  subst hri
  simp [hi] at hr

/-! ## One step -/

theorem step_enqueueAll (recs : List WorkflowRecord) :
    q.step (.enqueueAll recs) = if q.stopped then q else q.append recs := by
  unfold step enqueueAll
  by_cases hs : q.stopped <;> simp [hs]

@[simp] theorem step_pendingIn (wanted : List Uuid) : q.step (.pendingIn wanted) = (q.pendingIn wanted).2 :=
  rfl

@[simp] theorem step_release (back : List Uuid) : q.step (.release back) = q.release back := rfl

@[simp] theorem step_remove (drop : List Uuid) : q.step (.remove drop) = (q.remove drop).1 := rfl

@[simp] theorem step_stop : q.step .stop = q.stop := rfl

@[simp] theorem step_finish (ok : Bool) : q.step (.finish ok) = q.finishPass ok := rfl

/-- Asking for a batch either changes nothing or starts a pass. -/
theorem step_next_cases (q : Queue) :
    q.step .next = q ∨ ∃ b, q.startPass = (some b, q.step .next) := by
  unfold step
  rcases h : q.startPass with ⟨_ | b, q''⟩
  · exact Or.inl (startPass_eq_none h)
  · exact Or.inr ⟨b, rfl⟩

/-- A step changes the records only by dropping some, or by appending what it offers. -/
theorem records_step_sublist (op : Op) : (q.step op).records.Sublist (q.records ++ op.appended) := by
  cases op with
  | enqueueAll recs =>
    rw [step_enqueueAll]
    split
    · exact List.sublist_append_left _ _
    · exact records_append_sublist recs q
  | next =>
    rcases step_next_cases q with h | ⟨b, h⟩
    · simp [h, Op.appended]
    · rw [(startPass_eq_some h).2.2.2]
      simp [Op.appended]
  | remove drop => simp [Op.appended]
  | finish ok => cases ok <;> simp [finishPass, Op.appended, List.filter_sublist]
  | _ => simp [step, Op.appended, release, stop]

/-- A step other than a release or a remove naming `i` keeps `i` migrating. -/
theorem migrating_step (op : Op) (hi : i ∈ q.migrating) (hf : op.frees i = false) :
    i ∈ (q.step op).migrating := by
  cases op with
  | enqueueAll recs =>
    rw [step_enqueueAll]
    split
    · exact hi
    · simpa using hi
  | pendingIn wanted => exact mem_migrating_pendingIn.2 (Or.inl hi)
  | release back => simpa [release, Op.frees, hi] using hf
  | remove drop => simpa [Op.frees, hi] using hf
  | next =>
    rcases step_next_cases q with h | ⟨b, h⟩
    · rw [h]; exact hi
    · rw [(startPass_eq_some h).2.2.2]; exact hi
  | finish ok => cases ok <;> exact hi
  | _ => exact hi

/-- A record leaves the queue only when it is removed, or when the running pass that holds it
succeeds. -/
theorem leaves_by_remove_or_pass (op : Op) (h : i ∈ q.ids) (h' : i ∉ (q.step op).ids) :
    (∃ drop, op = .remove drop ∧ i ∈ drop) ∨ (op = .finish true ∧ i ∈ q.running) := by
  obtain ⟨r, hr, rfl⟩ := mem_ids.1 h
  cases op with
  | enqueueAll recs =>
    rw [step_enqueueAll] at h'
    split at h'
    · exact absurd h h'
    · exact absurd (mem_ids.2 ⟨r, (records_prefix_append recs q).subset hr, rfl⟩) h'
  | remove drop =>
    refine Or.inl ⟨drop, rfl, ?_⟩
    by_cases hd : r.id ∈ drop
    · exact hd
    · exact absurd (mem_ids.2 ⟨r, by simpa [hd] using hr, rfl⟩) h'
  | next =>
    rcases step_next_cases q with he | ⟨b, he⟩
    · rw [he] at h'; exact absurd h h'
    · rw [(startPass_eq_some he).2.2.2] at h'; exact absurd h h'
  | finish ok =>
    cases ok with
    | false => exact absurd h h'
    | true =>
      refine Or.inr ⟨rfl, ?_⟩
      by_cases hd : r.id ∈ q.running
      · exact hd
      · exact absurd (mem_ids.2 ⟨r, by simpa [finishPass, hd] using hr, rfl⟩) h'
  | _ => exact absurd h h'

/-- A failed pass leaves every record queued and nothing running. -/
theorem failed_pass_keeps_records : (q.step (.finish false)).records = q.records ∧
    (q.step (.finish false)).running = [] := ⟨rfl, rfl⟩

/-- Every step keeps the queue sound. -/
theorem Sound.step (hq : q.Sound) (op : Op) : (q.step op).Sound := by
  cases op with
  | enqueueAll recs =>
    rw [step_enqueueAll]
    split
    · exact hq
    · exact ⟨ids_append_nodup recs q hq.ids_nodup, by simpa using hq.running_not_migrating⟩
  | pendingIn wanted =>
    refine ⟨hq.ids_nodup, fun j hj hm => ?_⟩
    rcases mem_migrating_pendingIn.1 hm with hm | ⟨r, hr, rfl⟩
    · exact hq.running_not_migrating j hj hm
    · exact (mem_pendingIn_records.1 hr).2.2 hj
  | release back =>
    exact ⟨hq.ids_nodup, fun j hj hm => hq.running_not_migrating j hj (List.mem_filter.1 hm).1⟩
  | remove drop =>
    refine ⟨(List.filter_sublist.map _).nodup hq.ids_nodup, fun j hj hm => ?_⟩
    exact hq.running_not_migrating j hj (List.mem_filter.1 hm).1
  | next =>
    rcases step_next_cases q with h | ⟨b, h⟩
    · rw [h]; exact hq
    · obtain ⟨-, -, -, he⟩ := startPass_eq_some h
      rw [he]
      exact ⟨hq.ids_nodup, fun j hj hm => not_mem_batch_of_migrating h hm hj⟩
  | finish ok =>
    cases ok
    · exact ⟨hq.ids_nodup, by simp [finishPass]⟩
    · exact ⟨(List.filter_sublist.map _).nodup hq.ids_nodup, by simp [finishPass]⟩
  | pause => exact ⟨hq.ids_nodup, hq.running_not_migrating⟩
  | resume => exact ⟨hq.ids_nodup, hq.running_not_migrating⟩
  | stop => exact ⟨hq.ids_nodup, by simp [stop]⟩

/-! ## Whole runs -/

theorem Sound.run (hq : q.Sound) (ops : List Op) : (q.run ops).Sound := by
  induction ops generalizing q with
  | nil => exact hq
  | cons op ops ih => exact ih (hq.step op)

/-- The records of a queue are always a subsequence of what it held at first followed by what
it was offered since, in order. -/
theorem records_run_sublist (ops : List Op) :
    (q.run ops).records.Sublist (q.records ++ ops.flatMap Op.appended) := by
  induction ops generalizing q with
  | nil => simp
  | cons op ops ih =>
    simpa using ih.trans ((records_step_sublist op).append_right _)

/-- An identifier stays migrating through every step that neither releases nor removes it. -/
theorem migrating_run (ops : List Op) (hi : i ∈ q.migrating) (hf : ∀ op ∈ ops, op.frees i = false) :
    i ∈ (q.run ops).migrating := by
  induction ops generalizing q with
  | nil => exact hi
  | cons op ops ih =>
    exact ih (migrating_step op hi (hf op (List.mem_cons_self ..)))
      fun o ho => hf o (List.mem_cons_of_mem _ ho)

/-- The bookkeeping of a queue after the steps `ops`, run from `q`. -/
structure Bookkeeping (q : Queue) (ops : List Op) : Prop where
  /-- No identifier is queued twice. -/
  ids_nodup : (q.run ops).ids.Nodup
  /-- No identifier is both running and migrating. -/
  running_not_migrating : ∀ i ∈ (q.run ops).running, i ∉ (q.run ops).migrating
  /-- A batch is every queued record that is not migrating, in queue order; it is a
  subsequence of what the queue was given, in the order given; its identifiers become the
  running ones. -/
  batch : ∀ b q', (q.run ops).startPass = (some b, q') →
    b = (q.run ops).records.filter (fun r => !(q.run ops).migrating.contains r.id) ∧
    b.Sublist (q.records ++ ops.flatMap Op.appended) ∧ q'.running = b.map (·.id)
  /-- A record handed out for migration is in no batch until a release or a remove names it. -/
  handed_out_unbatched : ∀ pre wanted post r, ops = pre ++ .pendingIn wanted :: post →
    r ∈ ((q.run pre).pendingIn wanted).1.1 → (∀ op ∈ post, op.frees r.id = false) →
    ∀ b q', (q.run ops).startPass = (some b, q') → r.id ∉ b.map (·.id)
  /-- A record leaves the queue only through a remove naming it, or through the success of the
  pass that runs it. -/
  leaves : ∀ op i, i ∈ (q.run ops).ids → i ∉ ((q.run ops).step op).ids →
    (∃ drop, op = .remove drop ∧ i ∈ drop) ∨ (op = .finish true ∧ i ∈ (q.run ops).running)
  /-- A failed pass leaves the records queued and nothing running. -/
  failed_pass : ((q.run ops).step (.finish false)).records = (q.run ops).records ∧
    ((q.run ops).step (.finish false)).running = []

/-- Along any run of calls and drain steps from a sound queue, the queue keeps its
bookkeeping. -/
theorem queue_run_bookkeeping (q : Queue) (hq : q.Sound) (ops : List Op) : q.Bookkeeping ops := by
  have hs := hq.run ops
  refine ⟨hs.ids_nodup, hs.running_not_migrating, ?_, ?_, fun op i => leaves_by_remove_or_pass op,
    failed_pass_keeps_records⟩
  · intro b q' h
    obtain ⟨-, hne, hb, he⟩ := startPass_eq_some h
    have hf := batch_of_ne_nil (hb ▸ hne)
    refine ⟨hb.trans hf, ?_, by rw [he]⟩
    rw [hb, hf]
    exact List.filter_sublist.trans (records_run_sublist ops)
  · intro pre wanted post r hops hr hf b q' h
    subst hops
    have hm : r.id ∈ ((q.run pre).pendingIn wanted).2.migrating :=
      mem_migrating_pendingIn.2 (Or.inr ⟨r, hr, rfl⟩)
    rw [run_append, run_cons] at h
    exact not_mem_batch_of_migrating h (migrating_run post hm hf)

/-! ## Leaving a queue for good -/

/-- A queue that was never written to. -/
def blank : Queue := { id := "queue/I/0@n1" }

/-- A record of entity `player/a` with identifier 1. -/
def sampleRecord : WorkflowRecord := ⟨⟨1⟩, ⟨"player", "a"⟩, "IPlayer", []⟩

/-- The record is handed out, removed, then appended again. -/
def requeueRun : List Op :=
  [.enqueueAll [sampleRecord], .pendingIn [sampleRecord.id], .remove [sampleRecord.id],
    .enqueueAll [sampleRecord]]

/-- The bookkeeping holds along the run that hands out, removes and appends a record again. -/
theorem requeue_run_bookkeeping : blank.Sound ∧ blank.Bookkeeping requeueRun :=
  ⟨⟨List.nodup_nil, fun _ h => by simp [blank] at h⟩,
    queue_run_bookkeeping blank ⟨List.nodup_nil, fun _ h => by simp [blank] at h⟩ requeueRun⟩

/-- A record handed out for migration is taken by a batch although its identifier was never
released: it was removed, which clears its migrating mark, and appended again. -/
theorem requeued_record_batched_unreleased :
    ((blank.run [.enqueueAll [sampleRecord]]).pendingIn [sampleRecord.id]).1.1 = [sampleRecord] ∧
    (∀ op ∈ requeueRun, ∀ back, op ≠ .release back) ∧
    (blank.run requeueRun).startPass.1 = some [sampleRecord] := by
  refine ⟨by decide, ?_, by decide⟩
  intro op hop back
  simp only [requeueRun, List.mem_cons, List.not_mem_nil, or_false] at hop
  rcases hop with rfl | rfl | rfl | rfl <;> simp

end Queue

end EntityIndex.Workflow
