import EntityIndex.Proofs.Bucket.StatusWalk
import EntityIndex.Proofs.Bucket.Flat

/-!
# One status for every bucket

A `setStatus` call sets the status of every bucket it visits, and a bucket grown while the call
runs is to take its predecessor's status from the walk that grew it. The two fit together only
if growing a bucket and giving it its status happen as one step. They do not: a walk reads the
predecessor's status in one step and writes the successor in a later one, and other steps fall
in between. Two interleavings leave a chain with two statuses (`status_walk_leaves_chain_mixed`):

* a walk reads a status the call is about to replace; the call sets the predecessor, passes the
  successor and returns, and the walk then writes the old status into the successor;
* a walk has grown a successor but not yet given it its status when another walk grows that
  successor in turn, reads its status, still available, and gives the bucket after it none.

Where growth is atomic, so that no step of another walk and no step of the status walk falls
between a walk's growth and its status copy (`StatusSys.atomic`), the status walk covers every
chain (`Covered`): once it is over and the walks have finished, every bucket of every chain has
the call's status, and then `isAvailable` answers true exactly when no lookup fails as
unavailable (`atomic_growth_leaves_one_status`).
-/

namespace EntityIndex.Bucket

open EntityIndex.Bucket.Shelf

namespace StatusSys

/-- Whether some walk is between growing its bucket and giving the new successor its status. -/
def growing (t : StatusSys) : Bool := t.sys.walks.any (·.phase.growing)

/-- The steps of one `setStatus` call's run: no other call of it starts. -/
def alone (_ : StatusSys) : Event → Bool
  | .setStatus _ => false
  | _ => true

/-- The steps of one `setStatus` call's run in which growth is atomic: while a walk is between
growing its bucket and giving the new successor its status, only such a walk takes a step. -/
def atomic (t : StatusSys) : Event → Bool
  | .apply (.call _) => true
  | .apply (.advance i) => !t.growing || (t.sys.walks[i]?.any (·.phase.growing))
  | .setStatus _ => false
  | .sweep => !t.growing

end StatusSys

/-- Whether the status walk has passed the bucket at depth `d` of partition `p`: set it and
read its link. Once the walk is over it has passed every bucket. -/
def Sweep.Passed : Option Sweep → Nat → Nat → Prop
  | none, _, _ => True
  | some sw, p, d => p < sw.part ∨ (p = sw.part ∧ (d < sw.depth ∨ (d = sw.depth ∧ sw.phase = .next)))

/-- No walk of the list is growing. -/
def NoneGrowing (l : List Walk) : Prop := ∀ w ∈ l, w.phase.growing = false

/-- A growing walk is about to give the bucket at depth `d` of partition `p` its status. -/
def Pending (l : List Walk) (p d : Nat) : Prop :=
  ∃ w ∈ l, w.phase.growing = true ∧ w.part = p ∧ w.depth + 1 = d

section Passed

variable {sw : Sweep} {p d : Nat}

theorem Sweep.Passed.pred {s : Option Sweep} (h : Sweep.Passed s p (d + 1)) : Sweep.Passed s p d := by
  cases s with
  | none => trivial
  | some sw =>
    rcases h with h | ⟨rfl, h | ⟨h, -⟩⟩
    · exact .inl h
    · exact .inr ⟨rfl, .inl (by omega)⟩
    · exact .inr ⟨rfl, .inl (by omega)⟩

/-- Having set its bucket, the status walk has passed no other bucket than before. -/
theorem Sweep.Passed.of_set (h : Sweep.Passed (some { sw with phase := .next }) p d)
    (hpd : ¬ (p = sw.part ∧ d = sw.depth)) : Sweep.Passed (some sw) p d := by
  rcases h with h | ⟨rfl, h | ⟨h, -⟩⟩
  · exact .inl h
  · exact .inr ⟨rfl, .inl h⟩
  · exact absurd ⟨rfl, h⟩ hpd

/-- Moving on to the successor, the status walk has passed no other bucket than before. -/
theorem Sweep.Passed.of_descend (hp : sw.phase = .next)
    (h : Sweep.Passed (some { sw with depth := sw.depth + 1, phase := .set }) p d) :
    Sweep.Passed (some sw) p d := by
  rcases h with h | ⟨rfl, h | ⟨-, h⟩⟩
  · exact .inl h
  · rcases Nat.lt_succ_iff_lt_or_eq.1 h with h | h
    · exact .inr ⟨rfl, .inl h⟩
    · exact .inr ⟨rfl, .inr ⟨h, hp⟩⟩
  · cases h

/-- Leaving a tail, the status walk has passed every bucket of the chain and of the partitions
before. -/
theorem Sweep.Passed.of_tail {b : Nat → Nat → State} (hp : sw.phase = .next)
    (ht : (b sw.part sw.depth).next = "") (hl : Linked b p d) (hle : p ≤ sw.part) :
    Sweep.Passed (some sw) p d := by
  rcases Nat.lt_or_ge p sw.part with hlt | hge
  · exact .inl hlt
  · obtain rfl : p = sw.part := by omega
    rcases Nat.lt_trichotomy d sw.depth with hd | rfl | hd
    · exact .inr ⟨rfl, .inl hd⟩
    · exact .inr ⟨rfl, .inr ⟨rfl, hp⟩⟩
    · exact absurd ht (hl _ hd)

end Passed

theorem StatusSys.noneGrowing_of_growing {t : StatusSys} (h : t.growing = false) :
    NoneGrowing t.sys.walks := by
  simpa [StatusSys.growing, NoneGrowing] using h

theorem NoneGrowing.not_pending {l : List Walk} {p d : Nat} (h : NoneGrowing l) : ¬ Pending l p d :=
  fun ⟨w, hw, hg, _⟩ => by simp [h w hw] at hg

/-- Where every growing walk stands at position `i`, so does every growing walk once that
position is overwritten. -/
theorem growing_at_set {l : List Walk} {i : Nat} {w' : Walk}
    (h : ∀ j a, l[j]? = some a → a.phase.growing = true → j = i) {j : Nat} {a : Walk}
    (hj : (l.set i w')[j]? = some a) (hg : a.phase.growing = true) : j = i := by
  rcases getElem?_set_eq_some hj with ⟨rfl, -⟩ | ⟨-, hj⟩
  · rfl
  · exact h j a hj hg

theorem putBucket_congr {α : Type} (f : State → α) {b : Nat → Nat → State} {p d : Nat} {s : State}
    (h : f s = f (b p d)) (p' d' : Nat) : f (putBucket b p d s p' d') = f (b p' d') := by
  unfold putBucket
  split
  · rename_i hpd
    obtain ⟨rfl, rfl⟩ := hpd
    exact h
  · rfl

theorem putWrite_congr {α : Type} (f : State → α) {b : Nat → Nat → State} {p : Nat}
    {write : Option (Nat × State)} (h : ∀ d s, write = some (d, s) → f s = f (b p d)) (p' d' : Nat) :
    f (putWrite b p write p' d') = f (b p' d') := by
  rcases write with _ | ⟨d, s⟩
  · rfl
  · exact putBucket_congr f (h d s rfl) p' d'

@[simp]
theorem status_putBucket_grow {b : Nat → Nat → State} {p d : Nat} {n : String} (p' d' : Nat) :
    (putBucket b p d { b p d with next := n } p' d').status = (b p' d').status :=
  @putBucket_congr _ State.status b p d { b p d with next := n } rfl p' d'

/-- A bucket on a chain after a growth was on it before, or is the new successor. -/
theorem Linked.of_grow {b : Nat → Nat → State} {p d : Nat} {n : String} (hu : Untouched b)
    (hl : Linked b p d) (ht : (b p d).next = "") {p' d' : Nat}
    (h : Linked (putBucket b p d { b p d with next := n }) p' d') :
    Linked b p' d' ∨ (p' = p ∧ d' = d + 1) := by
  by_cases hp : p' = p
  · subst hp
    rcases Nat.lt_or_ge (d + 1) d' with hdd | hdd
    · -- past the grown bucket the chain would go on from its untouched successor
      have := h (d + 1) hdd
      rw [putBucket_of_ne (by omega), hu p' d hl ht (d + 1) (by omega)] at this
      exact absurd rfl this
    · rcases Nat.lt_or_ge d d' with hlt | hge
      · exact .inr ⟨rfl, by omega⟩
      · refine .inl fun j hj => ?_
        have := h j hj
        rwa [putBucket_of_ne (by omega)] at this
  · refine .inl fun j hj => ?_
    have := h j hj
    rwa [putBucket_of_ne fun h => hp h.1] at this

/-! ## What the status walk keeps while growth is atomic -/

/-- What a run of a `setStatus` call for `st` keeps, where growth is atomic. -/
structure Covered (x : Index) (st : Status) (t : StatusSys) : Prop where
  status : ∀ sw, t.sweep = some sw → sw.status = st
  /-- At most one walk is growing. -/
  single : ∀ (i j : Nat) (wi wj : Walk), t.sys.walks[i]? = some wi → t.sys.walks[j]? = some wj →
    wi.phase.growing = true → wj.phase.growing = true → i = j
  /-- A growing walk's successor is new, and the status the walk is about to give it is its
  bucket's. -/
  fresh : ∀ w ∈ t.sys.walks, w.phase.growing = true →
    (t.sys.buckets w.part (w.depth + 1)).status = .available ∧
      ∀ s, w.phase = .setStatus s → s = (t.sys.buckets w.part w.depth).status
  /-- A bucket of a chain that the status walk has passed has the status, unless a growing walk
  is about to give it one. -/
  passed : ∀ p d, p < x.desc.partitionCount → Linked t.sys.buckets p d → Sweep.Passed t.sweep p d →
    (t.sys.buckets p d).status = st ∨ Pending t.sys.walks p d

namespace Covered

variable {x : Index} {st : Status} {t t' : StatusSys}

/-- A growing walk is the only one. -/
theorem eq_of_growing (h : Covered x st t) {i : Nat} {w a : Walk} (hi : t.sys.walks[i]? = some w)
    (hw : w.phase.growing = true) (ha : a ∈ t.sys.walks) (hga : a.phase.growing = true) : a = w := by
  obtain ⟨j, hj⟩ := List.mem_iff_getElem?.1 ha
  obtain rfl := h.single j i a w hj hi hga hw
  rw [hi] at hj
  exact (Option.some.inj hj).symm

/-- Where no walk is growing, every passed bucket of a chain has the status. -/
theorem passed_of_noneGrowing (h : Covered x st t) (hno : NoneGrowing t.sys.walks) {p d : Nat}
    (hp : p < x.desc.partitionCount) (hl : Linked t.sys.buckets p d)
    (hpass : Sweep.Passed t.sweep p d) : (t.sys.buckets p d).status = st :=
  (h.passed p d hp hl hpass).resolve_right hno.not_pending

/-- Where no walk is growing, a state is covered once the status walk gives the status and
every passed bucket of a chain has it. -/
theorem of_noneGrowing (hno : NoneGrowing t.sys.walks)
    (hst : ∀ sw, t.sweep = some sw → sw.status = st)
    (hpassed : ∀ p d, p < x.desc.partitionCount → Linked t.sys.buckets p d →
      Sweep.Passed t.sweep p d → (t.sys.buckets p d).status = st) : Covered x st t where
  status := hst
  single _ _ _ _ hi _ hg _ := by simp [hno _ (List.mem_of_getElem? hi)] at hg
  fresh w hw hg := by simp [hno w hw] at hg
  passed p d hp hl hpass := .inl (hpassed p d hp hl hpass)

theorem start {t₀ : StatusSys} (hg : t₀.growing = false) :
    Covered x st ⟨t₀.sys, some (Sweep.start st)⟩ :=
  of_noneGrowing (StatusSys.noneGrowing_of_growing hg) (fun _ h => by cases h; rfl)
    fun _ _ _ _ hpass => by simp [Sweep.Passed, Sweep.start] at hpass

/-- A new call adds walks at the heads, none growing. -/
theorem call (h : Covered x st t) (c : Call) :
    Covered x st ⟨⟨t.sys.buckets, t.sys.walks ++ c.walks x⟩, t.sweep⟩ := by
  have hnew : NoneGrowing (c.walks x) := by
    intro a ha
    simp [(c.walks_start a ha).2, Phase.growing]
  -- a growing walk is an old one, at the same position
  have hold : ∀ {j : Nat} {a : Walk}, (t.sys.walks ++ c.walks x)[j]? = some a → a.phase.growing = true →
      t.sys.walks[j]? = some a := by
    intro j a hj hg
    rcases Nat.lt_or_ge j t.sys.walks.length with hlt | hge
    · rwa [List.getElem?_append_left hlt] at hj
    · rw [List.getElem?_append_right hge] at hj
      simp [hnew a (List.mem_of_getElem? hj)] at hg
  refine ⟨h.status, fun j k wj wk hj hk hgj hgk => h.single j k wj wk (hold hj hgj) (hold hk hgk) hgj hgk,
    fun a ha hga => ?_, fun p d hp hl hpass => ?_⟩
  · rcases List.mem_append.1 ha with ha | ha
    · exact h.fresh a ha hga
    · simp [hnew a ha] at hga
  · rcases h.passed p d hp hl hpass with hs | ⟨a, ha, hrest⟩
    · exact .inl hs
    · exact .inr ⟨a, List.mem_append_left _ ha, hrest⟩

/-- A step that changes no status and no link, from and to a state where no walk is growing. -/
theorem quiet (h : Covered x st t) (hno : NoneGrowing t.sys.walks) {sys : Sys}
    (hno' : NoneGrowing sys.walks) (hstatus : ∀ p d, (sys.buckets p d).status = (t.sys.buckets p d).status)
    (hnext : ∀ p d, (sys.buckets p d).next = (t.sys.buckets p d).next) :
    Covered x st ⟨sys, t.sweep⟩ :=
  of_noneGrowing hno' h.status fun p d hp hl hpass => by
    have hl' : Linked t.sys.buckets p d := by simpa [Linked, hnext] using hl
    exact (hstatus p d).trans (h.passed_of_noneGrowing hno hp hl' hpass)

/-- A walk grows the tail of its chain: it is the one growing walk, and the new successor, past
the old tail, is untouched. -/
theorem grow (hsh : Shaped x t) (h : Covered x st t) (hno : NoneGrowing t.sys.walks) {i : Nat}
    {w : Walk} (hi : t.sys.walks[i]? = some w) (hl : Linked t.sys.buckets w.part w.depth)
    (ht : (t.sys.buckets w.part w.depth).next = "") :
    Covered x st ⟨⟨putBucket t.sys.buckets w.part w.depth
      { t.sys.buckets w.part w.depth with next := x.bucketAt w.part (w.depth + 1) },
      t.sys.walks.set i { w with phase := .inherit }⟩, t.sweep⟩ := by
  have hidx : ∀ {j : Nat} {a : Walk}, (t.sys.walks.set i { w with phase := .inherit })[j]? = some a →
      a.phase.growing = true → j = i :=
    growing_at_set fun j a hj hg => by simp [hno a (List.mem_of_getElem? hj)] at hg
  refine ⟨h.status, fun j k wj wk hj hk hgj hgk => (hidx hj hgj).trans (hidx hk hgk).symm,
    fun a ha hga => ?_, fun p d hp hl' hpass => ?_⟩
  · rcases List.mem_or_eq_of_mem_set ha with ha | rfl
    · simp [hno a ha] at hga
    · refine ⟨?_, fun s hs => by cases hs⟩
      show (putBucket _ w.part w.depth _ w.part (w.depth + 1)).status = _
      rw [putBucket_of_ne (by omega), hsh.untouched _ _ hl ht _ (Nat.lt_succ_self _)]
  · dsimp only at hl' ⊢
    rcases Linked.of_grow hsh.untouched hl ht hl' with hl' | ⟨rfl, rfl⟩
    · -- growth changes no status
      rw [status_putBucket_grow]
      exact .inl (h.passed_of_noneGrowing hno hp hl' hpass)
    · exact .inr ⟨_, List.mem_of_getElem? (getElem?_set_of_getElem? hi), rfl, rfl, rfl⟩

/-- The growing walk moves to another growing phase at the same bucket, with no write. -/
theorem rephase (h : Covered x st t) {i : Nat} {w : Walk} (hi : t.sys.walks[i]? = some w)
    (hw : w.phase.growing = true) {φ : Phase} (hφ : φ.growing = true)
    (hs : ∀ s, φ = .setStatus s → s = (t.sys.buckets w.part w.depth).status) :
    Covered x st ⟨⟨t.sys.buckets, t.sys.walks.set i { w with phase := φ }⟩, t.sweep⟩ := by
  have hidx : ∀ {j : Nat} {a : Walk}, (t.sys.walks.set i { w with phase := φ })[j]? = some a →
      a.phase.growing = true → j = i :=
    growing_at_set fun j a hj hg => h.single j i a w hj hi hg hw
  have hfr := h.fresh w (List.mem_of_getElem? hi) hw
  refine ⟨h.status, fun j k wj wk hj hk hgj hgk => (hidx hj hgj).trans (hidx hk hgk).symm,
    fun a ha hga => ?_, fun p d hp hl hpass => ?_⟩
  · rcases List.mem_or_eq_of_mem_set ha with ha | rfl
    · obtain rfl := h.eq_of_growing hi hw ha hga
      exact hfr
    · exact ⟨hfr.1, hs⟩
  · rcases h.passed p d hp hl hpass with hst | ⟨a, ha, hga, hpa, hda⟩
    · exact .inl hst
    · obtain rfl := h.eq_of_growing hi hw ha hga
      exact .inr ⟨_, List.mem_of_getElem? (getElem?_set_of_getElem? hi), hφ, hpa, hda⟩

/-- The growing walk moves on to its successor, done growing, having left it the status `st` if
its own bucket had it. -/
theorem descend (h : Covered x st t) {i : Nat} {w : Walk} (hi : t.sys.walks[i]? = some w)
    (hw : w.phase.growing = true) {b : Nat → Nat → State}
    (hnext : ∀ p d, (b p d).next = (t.sys.buckets p d).next)
    (hstatus : ∀ p d, ¬ (p = w.part ∧ d = w.depth + 1) → (b p d).status = (t.sys.buckets p d).status)
    (hsucc : (t.sys.buckets w.part w.depth).status = st → (b w.part (w.depth + 1)).status = st) :
    Covered x st ⟨⟨b, t.sys.walks.set i { w with depth := w.depth + 1, phase := .walk }⟩, t.sweep⟩ := by
  have hno : NoneGrowing (t.sys.walks.set i { w with depth := w.depth + 1, phase := .walk }) := by
    intro a ha
    obtain ⟨j, hj⟩ := List.mem_iff_getElem?.1 ha
    rcases getElem?_set_eq_some hj with ⟨-, rfl⟩ | ⟨hji, hj⟩
    · rfl
    · cases hga : a.phase.growing
      · rfl
      · exact absurd (h.single j i a w hj hi hga hw) hji
  -- the only bucket a growing walk was about to give a status is this walk's successor
  have hpend : ∀ {p d}, Pending t.sys.walks p d → p = w.part ∧ d = w.depth + 1 := by
    rintro p d ⟨a, ha, hga, rfl, rfl⟩
    obtain rfl := h.eq_of_growing hi hw ha hga
    exact ⟨rfl, rfl⟩
  refine of_noneGrowing hno h.status fun p d hp hl hpass => ?_
  have hl' : Linked t.sys.buckets p d := by simpa [Linked, hnext] using hl
  by_cases hpd : p = w.part ∧ d = w.depth + 1
  · obtain ⟨rfl, rfl⟩ := hpd
    -- the walk's own bucket is passed too, and no walk was about to give it a status
    apply hsucc
    rcases h.passed _ _ hp (fun j hj => hl' j (by omega)) hpass.pred with hs | hp'
    · exact hs
    · exact absurd (hpend hp').2 (by omega)
  · rw [hstatus p d hpd]
    rcases h.passed p d hp hl' hpass with hs | hp'
    · exact hs
    · exact absurd (hpend hp') hpd

theorem advance (hsh : Shaped x t) (h : Covered x st t) {i : Nat} {w : Walk}
    (hi : t.sys.walks[i]? = some w) (hg : t.growing = false ∨ w.phase.growing = true) :
    Covered x st ⟨t.sys.settle i w.part (w.step x t.sys.buckets), t.sweep⟩ := by
  have hw := hsh.walks w (List.mem_of_getElem? hi)
  have hm := Walk.moves x t.sys.buckets w
  generalize w.step x t.sys.buckets = r at hm ⊢
  obtain ⟨write, next⟩ := r
  dsimp only at hm
  -- a walk that is not growing steps only while no walk is
  have hquiet : w.phase.growing = false → NoneGrowing t.sys.walks := fun hw' =>
    StatusSys.noneGrowing_of_growing (hg.resolve_right (by simp [hw']))
  cases hm with
  | apply hp hkeep hnext =>
    have hno := hquiet (by simp [hp, Phase.growing])
    refine h.quiet hno (fun a ha => ?_)
      (putWrite_congr State.status fun d s hs => by obtain ⟨rfl, -, h⟩ := hkeep d s hs; exact h)
      (putWrite_congr State.next fun d s hs => by obtain ⟨rfl, h, -⟩ := hkeep d s hs; exact h)
    rcases Sys.mem_settle_walks ha with ha | ha
    · exact hno a ha
    · rcases hnext with rfl | ⟨j, rfl⟩
      · cases ha
      · cases ha
        rfl
  | grow hp ht => exact h.grow hsh (hquiet (by simp [hp, Phase.growing])) hi hw.1 ht
  | pass hp _ =>
    have hno := hquiet (by simp [hp, Phase.growing])
    refine h.quiet hno (fun a ha => ?_) (fun _ _ => rfl) (fun _ _ => rfl)
    rcases Sys.mem_settle_walks ha with ha | ha
    · exact hno a ha
    · cases ha
      rfl
  | inherit hp _ =>
    exact h.rephase hi (by simp [hp, Phase.growing]) rfl fun s hs => by cases hs; rfl
  | skip hp hs =>
    -- the successor is new, and `st` is available, the status of the bucket read
    refine h.descend hi (by simp [hp, Phase.growing]) (fun _ _ => rfl) (fun _ _ _ => rfl) fun hst => ?_
    rw [← hst, hs]
    exact (h.fresh w (List.mem_of_getElem? hi) (by simp [hp, Phase.growing])).1
  | copy hp =>
    have hfr := h.fresh w (List.mem_of_getElem? hi) (by simp [hp, Phase.growing])
    refine h.descend hi (by simp [hp, Phase.growing]) (fun p d => statusWrite_next p d)
      (fun p d hpd => by simp [hpd]) fun hst => ?_
    simp only [statusWrite_status, and_self, if_true]
    rw [hfr.2 _ hp, hst]

theorem sweep_step (h : Covered x st t) (hno : NoneGrowing t.sys.walks) {sw : Sweep}
    (hsw : t.sweep = some sw) :
    Covered x st ⟨⟨putWrite t.sys.buckets sw.part (sw.step x t.sys.buckets).1, t.sys.walks⟩,
      (sw.step x t.sys.buckets).2⟩ := by
  have hst := h.status sw hsw
  have hm := Sweep.moves x t.sys.buckets sw
  generalize sw.step x t.sys.buckets = r at hm ⊢
  obtain ⟨write, next⟩ := r
  dsimp only at hm ⊢
  -- what the walk passed before, with statuses unchanged, keeps the status
  have hold : ∀ p d, p < x.desc.partitionCount → Linked t.sys.buckets p d →
      Sweep.Passed (some sw) p d → (t.sys.buckets p d).status = st := fun p d hp hl hpass =>
    h.passed_of_noneGrowing hno hp hl (hsw ▸ hpass)
  cases hm with
  | set _ =>
    refine of_noneGrowing hno (fun sw' h' => by cases h'; exact hst) fun p d hp' hl hpass => ?_
    have hl' : Linked t.sys.buckets p d := by simpa [Linked] using hl
    dsimp only
    rw [statusWrite_status]
    split
    · exact hst
    · rename_i hpd
      exact hold p d hp' hl' (hpass.of_set hpd)
  | descend hp _ =>
    exact of_noneGrowing hno (fun sw' h' => by cases h'; exact hst)
      fun p d hp' hl hpass => hold p d hp' hl (hpass.of_descend hp)
  | nextPart hp ht _ =>
    refine of_noneGrowing hno (fun sw' h' => by cases h'; exact hst)
      fun p d hp' hl hpass => hold p d hp' hl (Sweep.Passed.of_tail hp ht hl ?_)
    rcases hpass with h' | ⟨rfl, h' | ⟨-, h'⟩⟩
    · simp only at h'
      omega
    · cases h'
    · cases h'
  | finish hp ht hlast =>
    exact of_noneGrowing hno (fun _ h' => by cases h')
      fun p d hp' hl _ => hold p d hp' hl (Sweep.Passed.of_tail hp ht hl (by omega))

theorem step (hsh : Shaped x t) (h : Covered x st t) {e : StatusSys.Event}
    (hs : t.step x e = some t') (ha : t.atomic e = true) : Covered x st t' := by
  cases e with
  | apply e =>
    obtain ⟨sys, hsys, rfl⟩ := StatusSys.step_apply hs
    cases e with
    | call c =>
      obtain rfl := Sys.step_call hsys
      exact h.call c
    | advance i =>
      obtain ⟨w, hi, rfl⟩ := Sys.step_advance hsys
      exact h.advance hsh hi (by simpa [StatusSys.atomic, hi] using ha)
  | setStatus _ => simp [StatusSys.atomic] at ha
  | sweep =>
    obtain ⟨sw, hsw, rfl⟩ := StatusSys.step_sweep hs
    exact h.sweep_step (StatusSys.noneGrowing_of_growing (by simpa [StatusSys.atomic] using ha)) hsw

/-- The run of a call keeps its coverage, step by step. -/
theorem steps {t₁ : StatusSys} (hc : Covered x st t₁) (h₁ : StatusSys.Reachable x t₁)
    (hs : StatusSys.Steps x StatusSys.atomic t₁ t) : Covered x st t := by
  induction hs with
  | refl => exact hc
  | step hprev hstep ha ih => exact ih.step (h₁.steps hprev).shaped hstep ha

end Covered

/-! ## Reads from chains of one status -/

section Reads

variable {x : Index} {V : String → State} {st : Status}

theorem partitionCount_pos (m : IndexMeta) : 0 < m.partitionCount := by
  unfold IndexMeta.partitionCount
  split <;> omega

theorem Index.partitionOf_lt (x : Index) (k : Key) : x.partitionOf k < x.desc.partitionCount := by
  unfold Index.partitionOf Key.partition
  split
  · exact partitionCount_pos x.desc
  · simpa using Nat.mod_lt k.hash.toNat (partitionCount_pos x.desc)

/-- Heads that share one status answer whether it is available. -/
theorem Runs.headsAvailable_of_status {ps : List Nat} (h : ∀ p ∈ ps, (V (headId x.name p)).status = st) :
    Runs (x.headsAvailable ps) V (.ok (ps.isEmpty || decide (st = .available))) V := by
  induction ps with
  | nil =>
    simp only [Index.headsAvailable, List.isEmpty_nil, Bool.true_or]
    exact Runs.pure true V
  | cons p ps ih =>
    simp only [Index.headsAvailable]
    refine Runs.bind (Runs.resolve _ V) ?_
    rw [h p List.mem_cons_self]
    by_cases hst : st = .available
    · subst hst
      simpa using ih fun q hq => h q (List.mem_cons_of_mem _ hq)
    · simpa [hst] using Runs.pure false V

theorem Runs.isAvailable_of_status (h : ∀ p < x.desc.partitionCount, (V (headId x.name p)).status = st) :
    Runs x.isAvailable V (.ok (decide (st = .available))) V := by
  have hr : Runs (x.headsAvailable (List.range x.desc.partitionCount)) V _ V :=
    Runs.headsAvailable_of_status fun p hp => h p (List.mem_range.1 hp)
  have hne : (List.range x.desc.partitionCount).isEmpty = false := by
    simpa using (partitionCount_pos x.desc).ne'
  rwa [hne, Bool.false_or] at hr

theorem Runs.visibleFrom_unavailable {k : Key} {id : String} {fuel : Nat} (hid : id ≠ "")
    (hs : (V id).status ≠ .available) :
    Runs (x.visibleFrom k (fuel + 1) id) V (.error (x.unavailableAs (V id).status)) V := by
  simp only [Index.visibleFrom, String.isEmpty_iff, hid, if_false]
  refine Runs.bind (Runs.resolve id V) ?_
  simp only [hs, ne_eq, not_false_eq_true, ↓reduceIte]
  exact Runs.bind_error (Runs.throw _ V)

theorem chainTooLong_ne_unavailableAs (st : Status) : chainTooLong ≠ x.unavailableAs st := by
  simp [chainTooLong, Index.unavailableAs, Error.other]

/-- On a chain of available buckets a lookup never fails as unavailable: it answers, or runs out
of fuel. -/
theorem Runs.visibleFrom_available {b : Nat → Nat → State} {p : Nat} {k : Key}
    (hV : ∀ d, V (x.bucketAt p d) = b p d) (hlinks : Links x b)
    (hst : ∀ d, Linked b p d → (b p d).status = .available) (fuel : Nat) :
    ∀ d, Linked b p d → ∃ r, Runs (x.visibleFrom k fuel (x.bucketAt p d)) V r V ∧
      ∀ st', r ≠ .error (x.unavailableAs st') := by
  -- by induction on the fuel, one bucket of the chain at a time
  induction fuel with
  | zero =>
    intro d _
    exact ⟨.error chainTooLong, Runs.throw chainTooLong V,
      fun st' h => chainTooLong_ne_unavailableAs st' (Except.error.inj h)⟩
  | succ fuel ih =>
    intro d hl
    have hid := Index.bucketAt_ne_empty x p d
    have hs : (V (x.bucketAt p d)).status = .available := by rw [hV]; exact hst d hl
    cases hf : ((V (x.bucketAt p d)).lookup k).found
    · -- not here: on to the successor, or off the end of the chain
      rcases hlinks p d with hn | hn
      · cases fuel with
        | zero =>
          refine ⟨.error chainTooLong, Runs.visibleFrom_pass hid hs hf ?_, fun st' h =>
            chainTooLong_ne_unavailableAs st' (Except.error.inj h)⟩
          rw [hV, hn]
          exact Runs.throw chainTooLong V
        | succ f =>
          refine ⟨.ok [], Runs.visibleFrom_pass hid hs hf ?_, fun st' h => nomatch h⟩
          rw [hV, hn]
          exact Runs.visibleFrom_end
      · have hl' : Linked b p (d + 1) := hl.succ (by rw [hn]; exact Index.bucketAt_ne_empty x p (d + 1))
        obtain ⟨r, hr, hne⟩ := ih (d + 1) hl'
        refine ⟨r, Runs.visibleFrom_pass hid hs hf ?_, hne⟩
        rwa [hV, hn]
    · exact ⟨.ok ((V (x.bucketAt p d)).lookup k).values, Runs.visibleFrom_found hid hs hf,
        fun st' h => nomatch h⟩

/-- Reads of an index whose chains have one status: `isAvailable` answers whether it is
available, and lookups fail as unavailable exactly when it is not. -/
theorem Runs.reads_of_one_status {b : Nat → Nat → State} (hV : ∀ p d, V (x.bucketAt p d) = b p d)
    (hlinks : Links x b)
    (hst : ∀ p d, p < x.desc.partitionCount → Linked b p d → (b p d).status = st) :
    Runs x.isAvailable V (.ok (decide (st = .available))) V ∧
      (st ≠ .available → ∀ k, Runs (x.visible k) V (.error (x.unavailableAs st)) V) ∧
      (st = .available → ∀ k, ∃ r, Runs (x.visible k) V r V ∧
        ∀ st', r ≠ .error (x.unavailableAs st')) := by
  have hhead : ∀ p < x.desc.partitionCount, (V (x.bucketAt p 0)).status = st := fun p hp => by
    rw [hV]
    exact hst p 0 hp Linked.head
  refine ⟨Runs.isAvailable_of_status hhead, fun hne k => ?_, fun heq k => ?_⟩
  · -- the head of the key's partition refuses the read
    have hs := hhead _ (x.partitionOf_lt k)
    have hr : Runs (x.visibleFrom k (chainLimit - 1 + 1) (x.bucketAt (x.partitionOf k) 0)) V
        (.error (x.unavailableAs (V (x.bucketAt (x.partitionOf k) 0)).status)) V :=
      Runs.visibleFrom_unavailable (Index.bucketAt_ne_empty x _ 0) (by rw [hs]; exact hne)
    rw [hs] at hr
    exact hr
  · subst heq
    exact Runs.visibleFrom_available (fun d => hV _ d) hlinks
      (fun d hl => hst _ d (x.partitionOf_lt k) hl) chainLimit 0 Linked.head

end Reads

/-! ## One status for every bucket -/

/-- Where growth is atomic, a `setStatus` call gives every bucket of every chain its status:
once the call has returned and every applying call with it, including the buckets grown
meanwhile. Reads then agree with `isAvailable`: it answers whether the status is available, and
lookups fail as unavailable exactly when it is not. -/
theorem atomic_growth_leaves_one_status {x : Index} {st : Status} {t₀ t₁ t : StatusSys}
    (h₀ : StatusSys.Reachable x t₀) (hg : t₀.growing = false)
    (h₁ : t₀.step x (.setStatus st) = some t₁) (hrun : StatusSys.Steps x StatusSys.atomic t₁ t)
    (hdone : t.sweep = none) (hidle : t.sys.walks = []) :
    (∀ p d, p < x.desc.partitionCount → Linked t.sys.buckets p d → (t.sys.buckets p d).status = st) ∧
    ∀ V : String → State, (∀ p d, V (x.bucketAt p d) = t.sys.buckets p d) →
      Runs x.isAvailable V (.ok (decide (st = .available))) V ∧
      (st ≠ .available → ∀ k, Runs (x.visible k) V (.error (x.unavailableAs st)) V) ∧
      (st = .available → ∀ k, ∃ r, Runs (x.visible k) V r V ∧
        ∀ st', r ≠ .error (x.unavailableAs st')) := by
  have h₀₁ : StatusSys.Steps x (fun _ _ => true) t₀ t₁ := .step .refl h₁ rfl
  have hr₁ : StatusSys.Reachable x t₁ := h₀.steps h₀₁
  obtain ⟨-, rfl⟩ := StatusSys.step_setStatus h₁
  have hc := (Covered.start hg).steps hr₁ hrun
  -- the walk is over, so it has passed every bucket, and no walk is left to give one a status
  have hone : ∀ p d, p < x.desc.partitionCount → Linked t.sys.buckets p d →
      (t.sys.buckets p d).status = st := by
    intro p d hp hl
    rcases hc.passed p d hp hl (by rw [hdone]; trivial) with hs | ⟨w, hw, -⟩
    · exact hs
    · simp [hidle] at hw
  exact ⟨hone, fun V hV => Runs.reads_of_one_status hV (hr₁.steps hrun).shaped.links hone⟩

/-- A schedule from empty buckets to the start of a `setStatus` call, and on through the call
with steps that `ok` lets happen, checked at its end. -/
theorem StatusSys.run_call {x : Index} {ok : StatusSys → Event → Bool} {pre win : List Event}
    {st : Status} {P : StatusSys → StatusSys → Bool}
    (h : ((runWith x (fun _ _ => true) ⟨Sys.init, none⟩ pre).bind fun t₀ =>
      (t₀.step x (.setStatus st)).bind fun t₁ => (runWith x ok t₁ win).map (P t₀)) = some true) :
    ∃ t₀ t₁ t, Reachable x t₀ ∧ t₀.step x (.setStatus st) = some t₁ ∧ Steps x ok t₁ t ∧
      P t₀ t = true := by
  cases h₀ : runWith x (fun _ _ => true) ⟨Sys.init, none⟩ pre with
  | none => simp [h₀] at h
  | some t₀ =>
    cases h₁ : t₀.step x (.setStatus st) with
    | none => simp [h₀, h₁] at h
    | some t₁ =>
      cases h₂ : runWith x ok t₁ win with
      | none => simp [h₀, h₁, h₂] at h
      | some t =>
        simp only [h₀, h₁, h₂, Option.bind_some, Option.map_some, Option.some.injEq] at h
        exact ⟨t₀, t₁, t, steps_of_runWith h₀, h₁, steps_of_runWith h₂, h⟩

/-- An index of one partition whose buckets hold one key each, made under construction, with
its head full: a `setStatus underConstruction` call runs to its end, then `b` fills the head. -/
def fullHeadUnderConstruction : List StatusSys.Event :=
  [.setStatus .underConstruction, .sweep, .sweep,
   .apply (.call (.apply ⟨"player", "b"⟩ (insertOf fillKey))), .apply (.advance 0)]

/-- During `setStatus available`, `a` grows the full head and gives the new successor the
head's status before the status walk moves; the walk then sets both buckets. -/
def atomicGrowth : List StatusSys.Event :=
  [.apply (.call (.apply ⟨"player", "a"⟩ (insertOf raceKey)))] ++
    List.replicate 5 (.apply (.advance 0)) ++ List.replicate 4 .sweep

theorem atomic_growth_makes_chain_available :
    ∃ t₀ t₁ t : StatusSys, StatusSys.Reachable tinyUnique t₀ ∧ t₀.growing = false ∧
      t₀.step tinyUnique (.setStatus .available) = some t₁ ∧
      StatusSys.Steps tinyUnique StatusSys.atomic t₁ t ∧ t.sweep = none ∧ t.sys.walks = [] ∧
      Linked t.sys.buckets 0 1 ∧
      ∀ p d, p < tinyUnique.desc.partitionCount → Linked t.sys.buckets p d →
        (t.sys.buckets p d).status = .available := by
  have hrun : ((StatusSys.runWith tinyUnique (fun _ _ => true) ⟨Sys.init, none⟩
      fullHeadUnderConstruction).bind fun (t₀ : StatusSys) =>
      (t₀.step tinyUnique (.setStatus .available)).bind fun (t₁ : StatusSys) =>
        (StatusSys.runWith tinyUnique StatusSys.atomic t₁ atomicGrowth).map fun (t : StatusSys) =>
          decide (t₀.growing = false ∧ t.sweep = none ∧ t.sys.walks = [] ∧
            ∀ i : Nat, i < 1 → (t.sys.buckets 0 i).next ≠ "")) = some true := by
    decide
  obtain ⟨t₀, t₁, t, h₀, h₁, hsteps, hP⟩ := StatusSys.run_call hrun
  obtain ⟨hg, hdone, hidle, hl⟩ := of_decide_eq_true hP
  exact ⟨t₀, t₁, t, h₀, hg, h₁, hsteps, hdone, hidle, hl,
    (atomic_growth_leaves_one_status h₀ hg h₁ hsteps hdone hidle).1⟩

/-- During `setStatus available`, `a` grows the full head and reads its status, still under
construction; the status walk then sets the head, passes the new successor and returns, and `a`
gives the successor the old status and inserts its key there. -/
def staleStatusCopy : List StatusSys.Event :=
  [.apply (.call (.apply ⟨"player", "a"⟩ (insertOf raceKey)))] ++
    List.replicate 3 (.apply (.advance 0)) ++ List.replicate 4 .sweep ++
    List.replicate 2 (.apply (.advance 0))

/-- An index of one partition whose buckets hold one key each, with its head full. -/
def fullHead : List StatusSys.Event :=
  [.apply (.call (.apply ⟨"player", "b"⟩ (insertOf fillKey))), .apply (.advance 0)]

/-- During `setStatus underConstruction`, which sets the head and returns at once, `a`, `c` and
`d` insert keys. `a` grows the full head; before `a` gives the new successor a status, `c` fills
the successor and `d` grows it in turn, reads its status, still available, and inserts past it.
Then `a` gives the successor the head's status and inserts at the end of the chain. -/
def skippedStatusCopy : List StatusSys.Event :=
  [.apply (.call (.apply ⟨"player", "a"⟩ (insertOf raceKey))),
   .apply (.call (.apply ⟨"player", "c"⟩ (insertOf ⟨"s:c"⟩))),
   .apply (.call (.apply ⟨"player", "d"⟩ (insertOf ⟨"s:d"⟩))), .sweep, .sweep] ++
    List.replicate 2 (.apply (.advance 0)) ++ List.replicate 9 (.apply (.advance 1)) ++
    List.replicate 8 (.apply (.advance 0))

/-- A `setStatus` call with concurrent inserts can leave a chain with two statuses after all
calls have returned: a successor keeps the status the call replaced, while the head that
`isAvailable` reads is available; or a bucket grown during the call stays available behind
buckets under construction. -/
theorem status_walk_leaves_chain_mixed :
    (∃ t₀ t₁ t : StatusSys, StatusSys.Reachable tinyUnique t₀ ∧ t₀.growing = false ∧
      t₀.step tinyUnique (.setStatus .available) = some t₁ ∧
      StatusSys.Steps tinyUnique StatusSys.alone t₁ t ∧ t.sweep = none ∧ t.sys.walks = [] ∧
      Linked t.sys.buckets 0 1 ∧ (t.sys.buckets 0 0).status = .available ∧
      (t.sys.buckets 0 1).status = .underConstruction ∧ (t.sys.buckets 0 1).hasKey raceKey = true) ∧
    (∃ t₀ t₁ t : StatusSys, StatusSys.Reachable tinyUnique t₀ ∧ t₀.growing = false ∧
      t₀.step tinyUnique (.setStatus .underConstruction) = some t₁ ∧
      StatusSys.Steps tinyUnique StatusSys.alone t₁ t ∧ t.sweep = none ∧ t.sys.walks = [] ∧
      Linked t.sys.buckets 0 2 ∧ (t.sys.buckets 0 0).status = .underConstruction ∧
      (t.sys.buckets 0 2).status = .available) := by
  have hstale : ((StatusSys.runWith tinyUnique (fun _ _ => true) ⟨Sys.init, none⟩
      fullHeadUnderConstruction).bind fun (t₀ : StatusSys) =>
      (t₀.step tinyUnique (.setStatus .available)).bind fun (t₁ : StatusSys) =>
        (StatusSys.runWith tinyUnique StatusSys.alone t₁ staleStatusCopy).map fun (t : StatusSys) =>
          decide (t₀.growing = false ∧ t.sweep = none ∧ t.sys.walks = [] ∧
            (∀ i : Nat, i < 1 → (t.sys.buckets 0 i).next ≠ "") ∧ (t.sys.buckets 0 0).status = .available ∧
            (t.sys.buckets 0 1).status = .underConstruction ∧
            (t.sys.buckets 0 1).hasKey raceKey = true)) = some true := by
    decide
  have hskip : ((StatusSys.runWith tinyUnique (fun _ _ => true) ⟨Sys.init, none⟩ fullHead).bind
      fun (t₀ : StatusSys) => (t₀.step tinyUnique (.setStatus .underConstruction)).bind fun (t₁ : StatusSys) =>
        (StatusSys.runWith tinyUnique StatusSys.alone t₁ skippedStatusCopy).map fun (t : StatusSys) =>
          decide (t₀.growing = false ∧ t.sweep = none ∧ t.sys.walks = [] ∧
            (∀ i : Nat, i < 2 → (t.sys.buckets 0 i).next ≠ "") ∧
            (t.sys.buckets 0 0).status = .underConstruction ∧
            (t.sys.buckets 0 2).status = .available)) = some true := by
    decide
  obtain ⟨t₀, t₁, t, h₀, h₁, hsteps, hP⟩ := StatusSys.run_call hstale
  obtain ⟨u₀, u₁, u, g₀, g₁, gsteps, gP⟩ := StatusSys.run_call hskip
  exact ⟨⟨t₀, t₁, t, h₀, (of_decide_eq_true hP).1, h₁, hsteps, (of_decide_eq_true hP).2⟩,
    ⟨u₀, u₁, u, g₀, (of_decide_eq_true gP).1, g₁, gsteps, (of_decide_eq_true gP).2⟩⟩

end EntityIndex.Bucket
