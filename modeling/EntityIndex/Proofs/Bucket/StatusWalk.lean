import EntityIndex.Proofs.Bucket.Ownership
import EntityIndex.Proofs.Bucket.Chains

/-!
# The status walk of an index

`Index.setStatus` visits every chain the way `Index.walk` does. For each partition in turn it
sets the status of the bucket it is at, under that bucket's lock, then reads the bucket's link,
under the lock again, and moves on to the successor; from a tail it goes on to the head of the
next partition. Here that walk joins the walks of applying calls (`Sys`) as one more sequence of
bucket steps, interleaved with theirs. Calls of `setStatus` run one at a time.

Whatever the interleaving, the chains keep their shape (`Shaped`): a bucket links to the next
bucket of its chain or to nothing, the buckets past a tail are untouched, and every walk stands
on a bucket of its chain, one with a successor once the walk has grown it.
-/

namespace EntityIndex.Bucket

/-- Where the status walk stands at a bucket. -/
inductive Sweep.Phase where
  /-- About to set the bucket's status. -/
  | set
  /-- Has set it, about to read its link. -/
  | next
  deriving DecidableEq, Repr

/-- The walk of a `setStatus` call: the status it gives, and the bucket it is at, by partition
and depth. -/
structure Sweep where
  status : Status
  part : Nat
  depth : Nat
  phase : Sweep.Phase
  deriving DecidableEq, Repr

/-- The status walk of a call that just started, at the head of the first partition. -/
def Sweep.start (st : Status) : Sweep := ⟨st, 0, 0, .set⟩

/-- One bucket step of the status walk: the bucket of its partition it writes, by depth, and
the walk after it, none once it has left the last partition. Setting the status a bucket has
already writes nothing. -/
def Sweep.step (x : Index) (b : Nat → Nat → State) (sw : Sweep) :
    Option (Nat × State) × Option Sweep :=
  let s := b sw.part sw.depth
  match sw.phase with
  | .set =>
    (if s.status = sw.status then none else some (sw.depth, (s.setStatus sw.status).2),
      some { sw with phase := .next })
  | .next =>
    if s.next.isEmpty then
      (none, if sw.part + 1 < x.desc.partitionCount then some ⟨sw.status, sw.part + 1, 0, .set⟩
        else none)
    else (none, some { sw with depth := sw.depth + 1, phase := .set })

/-- Whether a walk is between growing its bucket and giving the new successor its status. -/
def Phase.growing : Phase → Bool
  | .inherit | .setStatus _ => true
  | .walk | .grow => false

/-- The buckets with the walks of applying calls, and the status walk of the running
`setStatus` call, if any. -/
structure StatusSys where
  sys : Sys
  sweep : Option Sweep

namespace StatusSys

/-- What a scheduler does next. -/
inductive Event where
  /-- An applying call starts, or one of their walks takes a bucket step. -/
  | apply (e : Bucket.Event)
  /-- A `setStatus` call starts, when none runs. -/
  | setStatus (st : Status)
  /-- The status walk takes its next bucket step. -/
  | sweep

/-- The system after an event; none when the event cannot happen now. -/
def step (x : Index) (t : StatusSys) : Event → Option StatusSys
  | .apply e => (t.sys.step x e).map fun sys => ⟨sys, t.sweep⟩
  | .setStatus st =>
    match t.sweep with
    | none => some ⟨t.sys, some (Sweep.start st)⟩
    | some _ => none
  | .sweep =>
    match t.sweep with
    | none => none
    | some sw =>
      some ⟨⟨putWrite t.sys.buckets sw.part (sw.step x t.sys.buckets).1, t.sys.walks⟩,
        (sw.step x t.sys.buckets).2⟩

/-- The states reached from `t` by steps that `ok` lets happen. -/
inductive Steps (x : Index) (ok : StatusSys → Event → Bool) (t : StatusSys) : StatusSys → Prop where
  | refl : Steps x ok t t
  | step {t' t'' : StatusSys} {e : Event} :
      Steps x ok t t' → t'.step x e = some t'' → ok t' e = true → Steps x ok t t''

/-- The states some interleaving reaches from empty buckets with no call running. -/
def Reachable (x : Index) (t : StatusSys) : Prop := Steps x (fun _ _ => true) ⟨Sys.init, none⟩ t

/-- Run events in order while `ok` lets them happen. -/
def runWith (x : Index) (ok : StatusSys → Event → Bool) : StatusSys → List Event → Option StatusSys
  | t, [] => some t
  | t, e :: rest => if ok t e then (t.step x e).bind (runWith x ok · rest) else none

section Runs

variable {x : Index} {ok : StatusSys → Event → Bool}

theorem Steps.trans {t t' t'' : StatusSys} (h : Steps x ok t t') (h' : Steps x ok t' t'') :
    Steps x ok t t'' := by
  induction h' with
  | refl => exact h
  | step _ hs he ih => exact .step ih hs he

theorem steps_of_runWith : ∀ {t t' : StatusSys} {l : List Event},
    runWith x ok t l = some t' → Steps x ok t t'
  | t, t', [], h => by simp only [runWith, Option.some.injEq] at h; exact h ▸ .refl
  | t, t', e :: rest, h => by
    simp only [runWith] at h
    split at h
    · rename_i he
      cases hn : t.step x e with
      | none => simp [hn] at h
      | some t₁ =>
        simp only [hn, Option.bind_some] at h
        exact (Steps.step .refl hn he).trans (steps_of_runWith h)
    · cases h

/-- Steps of any kind from a reachable state reach a reachable state. -/
theorem Reachable.steps {t t' : StatusSys} (h : Reachable x t) (hs : Steps x ok t t') :
    Reachable x t' := by
  induction hs with
  | refl => exact h
  | step _ hs' _ ih => exact .step ih hs' rfl

end Runs

end StatusSys

/-! ## What one step does -/

/-- The write that gives the bucket at depth `d` of partition `p` the status `st`; none when
the bucket has it already. -/
def statusWrite (b : Nat → Nat → State) (p d : Nat) (st : Status) : Option (Nat × State) :=
  if (b p d).status = st then none else some (d, ((b p d).setStatus st).2)

/-- What one bucket step of a walk does (`Walk.step`), by phase. -/
inductive Walk.Moves (x : Index) (b : Nat → Nat → State) (w : Walk) :
    Option (Nat × State) → Option Walk → Prop where
  /-- At its bucket it writes that bucket at most, keeping its link and status, and is done or
  waits to grow the bucket with what the bucket passed on. -/
  | apply {write : Option (Nat × State)} {next : Option Walk} : w.phase = .walk →
      (∀ d t, write = some (d, t) →
        d = w.depth ∧ t.next = (b w.part w.depth).next ∧ t.status = (b w.part w.depth).status) →
      (next = none ∨ ∃ j, next = some { w with job := j, phase := .grow }) → Moves x b w write next
  /-- It links the tail to the next bucket of the chain. -/
  | grow : w.phase = .grow → (b w.part w.depth).next = "" →
      Moves x b w (some (w.depth, { b w.part w.depth with next := x.bucketAt w.part (w.depth + 1) }))
        (some { w with phase := .inherit })
  /-- It finds the bucket grown already and moves on to the successor. -/
  | pass : w.phase = .grow → (b w.part w.depth).next ≠ "" →
      Moves x b w none (some { w with depth := w.depth + 1, phase := .walk })
  /-- It reads a status other than available, for the successor. -/
  | inherit : w.phase = .inherit → (b w.part w.depth).status ≠ .available →
      Moves x b w none (some { w with phase := .setStatus (b w.part w.depth).status })
  /-- It reads available and moves on to the successor. -/
  | skip : w.phase = .inherit → (b w.part w.depth).status = .available →
      Moves x b w none (some { w with depth := w.depth + 1, phase := .walk })
  /-- It gives the successor the status read and moves on to it. -/
  | copy {st : Status} : w.phase = .setStatus st →
      Moves x b w (statusWrite b w.part (w.depth + 1) st)
        (some { w with depth := w.depth + 1, phase := .walk })

theorem Walk.moves (x : Index) (b : Nat → Nat → State) (w : Walk) :
    w.Moves x b (w.step x b).1 (w.step x b).2 := by
  generalize hs : w.step x b = r
  obtain ⟨write, next⟩ := r
  unfold Walk.step at hs
  dsimp only at hs
  -- one case per phase, as `Walk.step` is written
  split at hs
  · rename_i hp
    split at hs
    · split at hs
      · obtain ⟨rfl, rfl⟩ := Prod.mk.inj hs
        exact .apply hp (by simp) (.inl rfl)
      · obtain ⟨rfl, rfl⟩ := Prod.mk.inj hs
        exact .apply hp (by simp) (.inr ⟨_, rfl⟩)
      · rename_i s' ha
        obtain ⟨rfl, rfl⟩ := Prod.mk.inj hs
        refine .apply hp ?_ (.inl rfl)
        simp only [Option.some.injEq, Prod.mk.injEq]
        rintro d t ⟨rfl, rfl⟩
        exact ⟨rfl, State.apply_next ha, State.apply_status ha⟩
    · rename_i items _
      -- the batch writes its bucket when it applied something, keeping link and status
      have hkeep : ∀ d t,
          (if 0 < (items.foldl (batchStep x.desc) ⟨b w.part w.depth, [], [], 0, []⟩).applied then
            some (w.depth, (items.foldl (batchStep x.desc) ⟨b w.part w.depth, [], [], 0, []⟩).state)
            else none) = some (d, t) →
          d = w.depth ∧ t.next = (b w.part w.depth).next ∧ t.status = (b w.part w.depth).status := by
        intro d t h
        split at h
        · simp only [Option.some.injEq, Prod.mk.injEq] at h
          obtain ⟨rfl, rfl⟩ := h
          exact ⟨rfl, batch_next items _, batch_status items _⟩
        · cases h
      split at hs
      · obtain ⟨rfl, rfl⟩ := Prod.mk.inj hs
        exact .apply hp hkeep (.inl rfl)
      · obtain ⟨rfl, rfl⟩ := Prod.mk.inj hs
        exact .apply hp hkeep (.inr ⟨_, rfl⟩)
  · rename_i hp
    split at hs
    · rename_i ht
      obtain ⟨rfl, rfl⟩ := Prod.mk.inj hs
      exact .grow hp (by simpa using ht)
    · rename_i ht
      obtain ⟨rfl, rfl⟩ := Prod.mk.inj hs
      exact .pass hp (by simpa using ht)
  · rename_i hp
    split at hs
    · rename_i hs'
      obtain ⟨rfl, rfl⟩ := Prod.mk.inj hs
      exact .inherit hp hs'
    · rename_i hs'
      obtain ⟨rfl, rfl⟩ := Prod.mk.inj hs
      exact .skip hp (by simpa using hs')
  · rename_i st hp
    obtain ⟨rfl, rfl⟩ := Prod.mk.inj hs
    exact .copy hp

/-- What one bucket step of the status walk does (`Sweep.step`), by phase. -/
inductive Sweep.Moves (x : Index) (b : Nat → Nat → State) (sw : Sweep) :
    Option (Nat × State) → Option Sweep → Prop where
  /-- It gives its bucket the status. -/
  | set : sw.phase = .set →
      Moves x b sw (statusWrite b sw.part sw.depth sw.status) (some { sw with phase := .next })
  /-- It moves on to the successor. -/
  | descend : sw.phase = .next → (b sw.part sw.depth).next ≠ "" →
      Moves x b sw none (some { sw with depth := sw.depth + 1, phase := .set })
  /-- It leaves a tail for the head of the next partition. -/
  | nextPart : sw.phase = .next → (b sw.part sw.depth).next = "" →
      sw.part + 1 < x.desc.partitionCount → Moves x b sw none (some ⟨sw.status, sw.part + 1, 0, .set⟩)
  /-- It leaves the tail of the last partition, and the call returns. -/
  | finish : sw.phase = .next → (b sw.part sw.depth).next = "" →
      ¬ sw.part + 1 < x.desc.partitionCount → Moves x b sw none none

theorem Sweep.moves (x : Index) (b : Nat → Nat → State) (sw : Sweep) :
    sw.Moves x b (sw.step x b).1 (sw.step x b).2 := by
  generalize hs : sw.step x b = r
  obtain ⟨write, next⟩ := r
  unfold Sweep.step at hs
  dsimp only at hs
  split at hs
  · rename_i hp
    obtain ⟨rfl, rfl⟩ := Prod.mk.inj hs
    exact .set hp
  · rename_i hp
    split at hs
    · rename_i ht
      have ht' : (b sw.part sw.depth).next = "" := by simpa using ht
      split at hs
      · obtain ⟨rfl, rfl⟩ := Prod.mk.inj hs
        exact .nextPart hp ht' ‹_›
      · obtain ⟨rfl, rfl⟩ := Prod.mk.inj hs
        exact .finish hp ht' ‹_›
    · rename_i ht
      obtain ⟨rfl, rfl⟩ := Prod.mk.inj hs
      exact .descend hp (by simpa using ht)

section Inversion

variable {x : Index}

/-- A call's walks start at the heads of their partitions, in their walk phase. -/
theorem Call.walks_start (c : Call) : ∀ w ∈ c.walks x, w.depth = 0 ∧ w.phase = .walk := by
  intro w hw
  cases c <;> simp only [Call.walks, List.mem_map] at hw <;> obtain ⟨_, _, rfl⟩ := hw <;>
    exact ⟨rfl, rfl⟩

theorem Sys.step_call {sys sys' : Sys} {c : Call} (h : sys.step x (.call c) = some sys') :
    sys' = ⟨sys.buckets, sys.walks ++ c.walks x⟩ := by
  simp only [Sys.step, Option.some.injEq] at h
  exact h.symm

theorem Sys.step_advance {sys sys' : Sys} {i : Nat} (h : sys.step x (.advance i) = some sys') :
    ∃ w, sys.walks[i]? = some w ∧ sys' = sys.settle i w.part (w.step x sys.buckets) := by
  simp only [Sys.step] at h
  split at h
  · cases h
  · rename_i w hw
    exact ⟨w, hw, (Option.some.inj h).symm⟩

namespace StatusSys

variable {t t' : StatusSys}

theorem step_apply {e : Bucket.Event} (h : t.step x (.apply e) = some t') :
    ∃ sys, t.sys.step x e = some sys ∧ t' = ⟨sys, t.sweep⟩ := by
  simp only [step, Option.map_eq_some_iff] at h
  obtain ⟨sys, hs, rfl⟩ := h
  exact ⟨sys, hs, rfl⟩

theorem step_setStatus {st : Status} (h : t.step x (.setStatus st) = some t') :
    t.sweep = none ∧ t' = ⟨t.sys, some (Sweep.start st)⟩ := by
  simp only [step] at h
  split at h
  · rename_i hn
    exact ⟨hn, (Option.some.inj h).symm⟩
  · cases h

theorem step_sweep (h : t.step x .sweep = some t') :
    ∃ sw, t.sweep = some sw ∧ t' = ⟨⟨putWrite t.sys.buckets sw.part (sw.step x t.sys.buckets).1,
      t.sys.walks⟩, (sw.step x t.sys.buckets).2⟩ := by
  simp only [step] at h
  split at h
  · cases h
  · rename_i sw hsw
    exact ⟨sw, hsw, (Option.some.inj h).symm⟩

end StatusSys

end Inversion

/-! ## Writes that keep the chains in shape -/

/-- A write of a bucket step on partition `p`: none; new contents for a bucket of the chain
that keep its link; or the link from the tail to the next bucket of the chain. -/
inductive ChainWrite (x : Index) (b : Nat → Nat → State) (p : Nat) :
    Option (Nat × State) → Prop where
  | none : ChainWrite x b p none
  | keep {d : Nat} {t : State} : Linked b p d → t.next = (b p d).next → ChainWrite x b p (some (d, t))
  | grow {d : Nat} : Linked b p d → (b p d).next = "" →
      ChainWrite x b p (some (d, { b p d with next := x.bucketAt p (d + 1) }))

/-- A bucket links to the next bucket of its chain, or to nothing. -/
def Links (x : Index) (b : Nat → Nat → State) : Prop :=
  ∀ p d, (b p d).next = "" ∨ (b p d).next = x.bucketAt p (d + 1)

section Write

variable {x : Index} {b : Nat → Nat → State} {p : Nat} {write : Option (Nat × State)}

@[simp]
theorem statusWrite_status (p' d' : Nat) {d : Nat} {st : Status} :
    (putWrite b p (statusWrite b p d st) p' d').status =
      if p' = p ∧ d' = d then st else (b p' d').status := by
  unfold statusWrite
  split
  · rename_i hs
    split
    · rename_i h
      obtain ⟨rfl, rfl⟩ := h
      exact hs
    · rfl
  · simp only [putWrite, putBucket]
    split <;> simp

@[simp]
theorem statusWrite_next (p' d' : Nat) {d : Nat} {st : Status} :
    (putWrite b p (statusWrite b p d st) p' d').next = (b p' d').next := by
  unfold statusWrite
  split
  · rfl
  · simp only [putWrite]
    exact putBucket_next (State.setStatus_next st) p' d'

theorem ChainWrite.statusWrite {d : Nat} {st : Status} (hl : Linked b p d) :
    ChainWrite x b p (statusWrite b p d st) := by
  unfold Bucket.statusWrite
  split
  · exact .none
  · exact .keep hl (State.setStatus_next st)

namespace ChainWrite

theorem linked (h : ChainWrite x b p write) {p' d' : Nat} (hl : Linked b p' d') :
    Linked (putWrite b p write) p' d' := by
  cases h with
  | none => exact hl
  | keep _ hn => exact (linked_putBucket_iff hn).2 hl
  | grow _ _ => exact hl.grow (Index.bucketAt_ne_empty x _ _)

/-- A link is never cut. -/
theorem next_ne (h : ChainWrite x b p write) {p' d' : Nat} (hn : (b p' d').next ≠ "") :
    (putWrite b p write p' d').next ≠ "" := by
  cases h with
  | none => exact hn
  | keep _ hk =>
    simp only [putWrite]
    rw [putBucket_next hk]
    exact hn
  | grow _ _ =>
    simp only [putWrite, putBucket]
    split
    · exact Index.bucketAt_ne_empty x _ _
    · exact hn

theorem untouched (h : ChainWrite x b p write) (hu : Untouched b) : Untouched (putWrite b p write) := by
  cases h with
  | none => exact hu
  | keep hl hn => exact hu.put hl hn
  | grow hl ht => exact hu.grow hl ht (Index.bucketAt_ne_empty x _ _)

theorem links (h : ChainWrite x b p write) (hl : Links x b) : Links x (putWrite b p write) := by
  intro p' d'
  cases h with
  | none => exact hl p' d'
  | keep _ hn =>
    simp only [putWrite]
    rw [putBucket_next hn]
    exact hl p' d'
  | grow _ _ =>
    simp only [putWrite, putBucket]
    split
    · rename_i h
      obtain ⟨rfl, rfl⟩ := h
      exact .inr rfl
    · exact hl p' d'

end ChainWrite

end Write

/-! ## The shape of the chains -/

/-- What every interleaving keeps of the chains. -/
structure Shaped (x : Index) (t : StatusSys) : Prop where
  links : Links x t.sys.buckets
  untouched : Untouched t.sys.buckets
  /-- Every walk stands on a bucket of its chain, which has a successor once the walk grew it. -/
  walks : ∀ w ∈ t.sys.walks, Linked t.sys.buckets w.part w.depth ∧
    (w.phase.growing = true → (t.sys.buckets w.part w.depth).next ≠ "")
  /-- The status walk stands on a bucket of its chain. -/
  sweep : ∀ sw, t.sweep = some sw → Linked t.sys.buckets sw.part sw.depth

section Shape

variable {x : Index} {b : Nat → Nat → State} {w w' : Walk} {write : Option (Nat × State)}
  {next : Option Walk}

/-- A walk on its chain writes only what keeps the chains in shape. -/
theorem Walk.Moves.chainWrite (h : w.Moves x b write next) (hl : Linked b w.part w.depth)
    (hg : w.phase.growing = true → (b w.part w.depth).next ≠ "") : ChainWrite x b w.part write := by
  cases h with
  | apply _ hkeep _ =>
    rcases write with _ | ⟨d, t⟩
    · exact .none
    · obtain ⟨rfl, hn, -⟩ := hkeep d t rfl
      exact .keep hl hn
  | grow _ ht => exact .grow hl ht
  | pass => exact .none
  | inherit => exact .none
  | skip => exact .none
  | copy hp => exact .statusWrite (hl.succ (hg (by simp [hp, Phase.growing])))

/-- The walk a step leaves stands on a bucket of its chain, one with a successor while it is
growing. -/
theorem Walk.Moves.next_shaped (h : w.Moves x b write (some w')) (hl : Linked b w.part w.depth)
    (hg : w.phase.growing = true → (b w.part w.depth).next ≠ "") :
    Linked (putWrite b w.part write) w'.part w'.depth ∧
      (w'.phase.growing = true → (putWrite b w.part write w'.part w'.depth).next ≠ "") := by
  have hw : ∀ {p' d'}, Linked b p' d' → Linked (putWrite b w.part write) p' d' :=
    (h.chainWrite hl hg).linked
  cases h with
  | apply _ _ hn =>
    obtain ⟨j, hj⟩ := hn.resolve_left (by simp)
    cases hj
    exact ⟨hw hl, by simp [Phase.growing]⟩
  | grow _ _ =>
    refine ⟨hw hl, fun _ => ?_⟩
    simp only [putWrite, putBucket_self]
    exact Index.bucketAt_ne_empty x _ _
  | pass _ hn => exact ⟨hl.succ hn, by simp [Phase.growing]⟩
  | inherit hp _ => exact ⟨hl, fun _ => hg (by simp [hp, Phase.growing])⟩
  | skip hp _ => exact ⟨hl.succ (hg (by simp [hp, Phase.growing])), by simp [Phase.growing]⟩
  | copy hp => exact ⟨hw (hl.succ (hg (by simp [hp, Phase.growing]))), by simp [Phase.growing]⟩

/-- The status walk on its chain writes only what keeps the chains in shape, and moves on along
it. -/
theorem Sweep.Moves.shaped {sw : Sweep} {next : Option Sweep} (h : sw.Moves x b write next)
    (hl : Linked b sw.part sw.depth) :
    ChainWrite x b sw.part write ∧ ∀ sw', next = some sw' → Linked b sw'.part sw'.depth := by
  cases h with
  | set _ =>
    refine ⟨.statusWrite hl, ?_⟩
    rintro sw' ⟨⟩
    exact hl
  | descend _ hn =>
    refine ⟨.none, ?_⟩
    rintro sw' ⟨⟩
    exact hl.succ hn
  | nextPart _ _ _ =>
    refine ⟨.none, ?_⟩
    rintro sw' ⟨⟩
    exact Linked.head
  | finish _ _ _ => exact ⟨.none, fun _ h => by cases h⟩

namespace Shaped

variable {t t' : StatusSys}

theorem init : Shaped x ⟨Sys.init, none⟩ where
  links _ _ := .inl rfl
  untouched _ _ _ _ _ _ := rfl
  walks _ hw := by simp [Sys.init] at hw
  sweep _ h := by cases h

/-- A write that keeps the chains in shape keeps every other walk and the status walk on its
chain. -/
theorem chainWrite {p : Nat} (h : Shaped x t) (hw : ChainWrite x t.sys.buckets p write) :
    Links x (putWrite t.sys.buckets p write) ∧ Untouched (putWrite t.sys.buckets p write) ∧
      (∀ a ∈ t.sys.walks, Linked (putWrite t.sys.buckets p write) a.part a.depth ∧
        (a.phase.growing = true → (putWrite t.sys.buckets p write a.part a.depth).next ≠ "")) ∧
      ∀ sw, t.sweep = some sw → Linked (putWrite t.sys.buckets p write) sw.part sw.depth :=
  ⟨hw.links h.links, hw.untouched h.untouched,
    fun a ha => ⟨hw.linked (h.walks a ha).1, fun hg => hw.next_ne ((h.walks a ha).2 hg)⟩,
    fun sw hsw => hw.linked (h.sweep sw hsw)⟩

theorem advance (h : Shaped x t) {i : Nat} {w : Walk} (hi : t.sys.walks[i]? = some w) :
    Shaped x ⟨t.sys.settle i w.part (w.step x t.sys.buckets), t.sweep⟩ := by
  have hw := h.walks w (List.mem_of_getElem? hi)
  have hm := Walk.moves x t.sys.buckets w
  generalize w.step x t.sys.buckets = r at hm ⊢
  obtain ⟨write, next⟩ := r
  obtain ⟨hlinks, hun, hwalks, hsweep⟩ := h.chainWrite (hm.chainWrite hw.1 hw.2)
  refine ⟨hlinks, hun, fun a ha => ?_, hsweep⟩
  rcases Sys.mem_settle_walks ha with ha | rfl
  · exact hwalks a ha
  · exact hm.next_shaped hw.1 hw.2

theorem sweep_step (h : Shaped x t) {sw : Sweep} (hsw : t.sweep = some sw) :
    Shaped x ⟨⟨putWrite t.sys.buckets sw.part (sw.step x t.sys.buckets).1, t.sys.walks⟩,
      (sw.step x t.sys.buckets).2⟩ := by
  obtain ⟨hcw, hnext⟩ := (Sweep.moves x t.sys.buckets sw).shaped (h.sweep sw hsw)
  obtain ⟨hlinks, hun, hwalks, -⟩ := h.chainWrite hcw
  exact ⟨hlinks, hun, hwalks, fun sw' hsw' => hcw.linked (hnext sw' hsw')⟩

theorem step {e : StatusSys.Event} (h : Shaped x t) (hs : t.step x e = some t') : Shaped x t' := by
  cases e with
  | apply e =>
    obtain ⟨sys, hsys, rfl⟩ := StatusSys.step_apply hs
    cases e with
    | call c =>
      obtain rfl := Sys.step_call hsys
      refine ⟨h.links, h.untouched, fun a ha => ?_, h.sweep⟩
      rcases List.mem_append.1 ha with ha | ha
      · exact h.walks a ha
      · obtain ⟨hd, hp⟩ := c.walks_start a ha
        exact ⟨hd ▸ Linked.head, by simp [hp, Phase.growing]⟩
    | advance i =>
      obtain ⟨w, hi, rfl⟩ := Sys.step_advance hsys
      exact h.advance hi
  | setStatus st =>
    obtain ⟨-, rfl⟩ := StatusSys.step_setStatus hs
    refine ⟨h.links, h.untouched, h.walks, ?_⟩
    rintro sw ⟨⟩
    exact Linked.head
  | sweep =>
    obtain ⟨sw, hsw, rfl⟩ := StatusSys.step_sweep hs
    exact h.sweep_step hsw

end Shaped

/-- Every interleaving keeps the chains in shape. -/
theorem StatusSys.Reachable.shaped {t : StatusSys} (h : StatusSys.Reachable x t) : Shaped x t := by
  induction h with
  | refl => exact Shaped.init
  | step _ hs _ ih => exact ih.step hs

end Shape

end EntityIndex.Bucket
