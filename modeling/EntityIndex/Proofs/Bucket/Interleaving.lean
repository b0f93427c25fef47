import EntityIndex.Proofs.Bucket.Steps
import EntityIndex.Bucket.Index

/-!
# Chain walks under interleaving

`Index.apply` and `Index.applyBatch` walk the chain of each partition they touch, one bucket
step at a time. Each bucket step runs under the bucket's lock:

* applying an update (`State.apply`) or a batch (`batchStep` folded over the items);
* growing the bucket (`grow`) after it answered that the key belongs further down;
* reading the status of a bucket just grown;
* giving the new successor that status (`setStatusAt`).

Between two steps the walk holds no lock, and the steps of concurrent calls interleave
arbitrarily. This module makes that explicit. Buckets are named by partition and depth in the
chain. A call starts one walk per partition it touches. A walk is the part of the call that
remains, at a depth, in a phase. A scheduler picks which walk moves next. Each step is the
model's own bucket operation, applied to the bucket's state.

On a unique index every reachable state keeps at most one entity in every entry, so a reader
of any bucket sees at most one entity under a key.
-/

namespace EntityIndex.Bucket

/-- The address of the bucket at `depth` in the chain of partition `p`. -/
def Index.bucketAt (x : Index) (p : Nat) : Nat → String
  | 0 => headId x.name p
  | d + 1 => nextId (x.bucketAt p d)

/-- What a walk still has to apply on its partition. -/
inductive Job where
  /-- One part of an update, for an entity. -/
  | single (r : EntityRef) (u : IndexUpdate)
  /-- The items of a batch not yet taken by a bucket. -/
  | batch (items : List Item)
  deriving DecidableEq, Repr

/-- Where a walk stands between two of its bucket steps. -/
inductive Phase where
  /-- About to apply its job to the bucket at its depth. -/
  | walk
  /-- Told that the keys belong further down, about to grow the bucket. -/
  | grow
  /-- Has grown the bucket, about to read its status. -/
  | inherit
  /-- About to give the new successor the status read. -/
  | setStatus (st : Status)
  deriving DecidableEq, Repr

/-- The part of a call that walks one partition's chain. -/
structure Walk where
  /-- The partition. -/
  part : Nat
  /-- The depth of the bucket it is at. -/
  depth : Nat
  /-- What it still has to apply. -/
  job : Job
  /-- Its phase. -/
  phase : Phase := .walk
  deriving DecidableEq, Repr

/-- A call of an index. -/
inductive Call where
  /-- `Index.apply`: an update for an entity. -/
  | apply (r : EntityRef) (u : IndexUpdate)
  /-- `Index.applyBatch`: a batch of items. -/
  | applyBatch (items : List Item)

/-- The walks a call starts, one per partition it touches. The model applies the parts of one
call in order; here they are independent walks, which only adds interleavings. -/
def Call.walks (x : Index) : Call → List Walk
  | .apply r u =>
    (x.route u).map fun (p, part) => { part := p, depth := 0, job := .single r part }
  | .applyBatch items =>
    (x.parts items).map fun (p, its) => { part := p, depth := 0, job := .batch its }

/-- The buckets of an index by partition and depth, and the walks in progress. -/
structure Sys where
  /-- The state of every bucket. -/
  buckets : Nat → Nat → State
  /-- The walks in progress. -/
  walks : List Walk

/-- Empty buckets and no call in progress. -/
def Sys.init : Sys := ⟨fun _ _ => {}, []⟩

/-- The buckets with the one at depth `d` of partition `p` replaced. -/
def putBucket (b : Nat → Nat → State) (p d : Nat) (s : State) : Nat → Nat → State :=
  fun p' d' => if p' = p ∧ d' = d then s else b p' d'

/-- The buckets after a bucket step of a walk on partition `p` wrote `write`, if anything. -/
def putWrite (b : Nat → Nat → State) (p : Nat) : Option (Nat × State) → Nat → Nat → State
  | some (d, s) => putBucket b p d s
  | none => b

/-- One bucket step of a walk: the bucket of its partition it writes, by depth, and the walk
after it, none when its part of the call is over. -/
def Walk.step (x : Index) (buckets : Nat → Nat → State) (w : Walk) :
    Option (Nat × State) × Option Walk :=
  let s := buckets w.part w.depth
  match w.phase with
  | .walk =>
    match w.job with
    | .single r u =>
      match s.apply r u x.desc.unique x.desc with
      | .error _ => (none, none)
      | .ok (.notFoundHere, _) => (none, some { w with phase := .grow })
      | .ok (.applied, s') => (some (w.depth, s'), none)
    | .batch items =>
      let pass := items.foldl (batchStep x.desc) ⟨s, [], [], 0, []⟩
      let write := if 0 < pass.applied then some (w.depth, pass.state) else none
      if pass.rest.isEmpty then (write, none)
      else (write, some { w with job := .batch pass.rest, phase := .grow })
  | .grow =>
    if s.next.isEmpty then
      (some (w.depth, { s with next := nextId (x.bucketAt w.part w.depth) }),
        some { w with phase := .inherit })
    else (none, some { w with depth := w.depth + 1, phase := .walk })
  | .inherit =>
    if s.status ≠ .available then (none, some { w with phase := .setStatus s.status })
    else (none, some { w with depth := w.depth + 1, phase := .walk })
  | .setStatus st =>
    let t := buckets w.part (w.depth + 1)
    (if t.status = st then none else some (w.depth + 1, (t.setStatus st).2),
      some { w with depth := w.depth + 1, phase := .walk })

/-- What a scheduler does next. -/
inductive Event where
  /-- A new call starts. -/
  | call (c : Call)
  /-- The walk at this position takes its next bucket step. -/
  | advance (i : Nat)

/-- The system after the walk at position `i`, on partition `p`, took a step that wrote `write`
and left it as `next`. -/
def Sys.settle (sys : Sys) (i p : Nat) : Option (Nat × State) × Option Walk → Sys
  | (write, next) =>
    ⟨putWrite sys.buckets p write,
     match next with
      | some w' => sys.walks.set i w'
      | none => sys.walks.eraseIdx i⟩

/-- The system after an event; none when no walk is at the position. -/
def Sys.step (x : Index) (sys : Sys) : Event → Option Sys
  | .call c => some { sys with walks := sys.walks ++ c.walks x }
  | .advance i =>
    match sys.walks[i]? with
    | none => none
    | some w => some (sys.settle i w.part (w.step x sys.buckets))

/-- The states some interleaving of calls reaches from empty buckets. -/
inductive Reachable (x : Index) : Sys → Prop where
  | init : Reachable x Sys.init
  | step {s s' : Sys} {e : Event} : Reachable x s → s.step x e = some s' → Reachable x s'

/-- Run events in order. -/
def Sys.run (x : Index) : Sys → List Event → Option Sys
  | s, [] => some s
  | s, e :: rest => (s.step x e).bind (Sys.run x · rest)

theorem reachable_of_run {x : Index} :
    ∀ {s s' : Sys} {l : List Event}, Reachable x s → Sys.run x s l = some s' → Reachable x s'
  | s, s', [], hs, h => by simp only [Sys.run, Option.some.injEq] at h; exact h ▸ hs
  | s, s', e :: rest, hs, h => by
    simp only [Sys.run] at h
    cases hn : s.step x e with
    | none => simp [hn] at h
    | some s1 =>
      simp only [hn, Option.bind_some] at h
      exact reachable_of_run (Reachable.step hs hn) h

/-! ## One entity per key and bucket -/

/-- Every entry of every bucket holds at most one entity. -/
def Sys.SingleValued (sys : Sys) : Prop := ∀ p d, (sys.buckets p d).SingleValued

/-- A bucket step on a unique index writes a bucket whose entries hold one entity at most. -/
theorem Walk.step_write_singleValued {x : Index} {b : Nat → Nat → State} {w : Walk}
    (hu : x.desc.unique = true) (hb : ∀ p d, (b p d).SingleValued) {d : Nat} {t : State}
    (h : (w.step x b).1 = some (d, t)) : t.SingleValued := by
  unfold Walk.step at h
  dsimp only at h
  -- one case per phase, as `Walk.step` is written
  split at h
  · split at h
    · split at h
      · cases h
      · cases h
      · rename_i s' ha
        simp only [Option.some.injEq, Prod.mk.injEq] at h
        obtain ⟨-, rfl⟩ := h
        rw [hu] at ha
        exact (hb w.part w.depth).apply ha
    · rename_i items hj
      have hs := batch_singleValued hu items ⟨b w.part w.depth, [], [], 0, []⟩ (hb w.part w.depth)
      split at h <;> (split at h <;> simp only [Option.some.injEq, Prod.mk.injEq, reduceCtorEq] at h)
      all_goals (obtain ⟨-, rfl⟩ := h; exact hs)
  · split at h
    · simp only [Option.some.injEq, Prod.mk.injEq] at h
      obtain ⟨-, rfl⟩ := h
      exact fun k e he => hb w.part w.depth k e he
    · cases h
  · split at h <;> cases h
  · split at h
    · cases h
    · simp only [Option.some.injEq, Prod.mk.injEq] at h
      obtain ⟨-, rfl⟩ := h
      exact (hb w.part (w.depth + 1)).setStatus _

theorem Sys.step_singleValued {x : Index} {sys sys' : Sys} {e : Event} (hu : x.desc.unique = true)
    (h : sys.SingleValued) (hs : sys.step x e = some sys') : sys'.SingleValued := by
  cases e with
  | call c =>
    simp only [Sys.step, Option.some.injEq] at hs
    subst hs
    exact h
  | advance i =>
    simp only [Sys.step] at hs
    split at hs
    · cases hs
    · rename_i w hw
      simp only [Option.some.injEq] at hs
      subst hs
      intro p d
      rcases hstep : w.step x sys.buckets with ⟨_ | ⟨d', t⟩, next⟩
      · exact h p d
      · simp only [Sys.settle, putWrite, putBucket]
        split
        · exact Walk.step_write_singleValued hu h (d := d') (by rw [hstep])
        · exact h p d

/-- On a unique index, in every state some interleaving reaches, every entry of every bucket
holds at most one entity. -/
theorem reachable_singleValued {x : Index} {sys : Sys} (hu : x.desc.unique = true)
    (h : Reachable x sys) : sys.SingleValued := by
  induction h with
  | init => intro p d k e he; simp [Sys.init, State.entry?] at he
  | step _ hs ih => exact Sys.step_singleValued hu ih hs

/-- On a unique index a lookup never returns two entities: whatever the interleaving, the
bucket a reader stops at shows at most one entity under the key. -/
theorem reachable_lookup_at_most_one {x : Index} {sys : Sys} (hu : x.desc.unique = true)
    (h : Reachable x sys) (p d : Nat) (k : Key) : ((sys.buckets p d).lookup k).values.length ≤ 1 :=
  (reachable_singleValued hu h p d).lookup k

end EntityIndex.Bucket
