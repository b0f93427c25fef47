import EntityIndex.Proofs.Cluster.EnforcedPairs

/-!
# Active-only indexes follow activations

An active-only index sees an entity through the image it would show: the recorded image while
the entity has a live activation, and the null key otherwise. Every event of the entity's life
generates the change between what the index saw before the event and what it sees after:
activation inserts the image read from the committed state (`updateFor_activate`), a write moves
the entity from its image to its new key, and deactivation deletes the image
(`updateFor_deactivate`). When each such update is settled in the order of the events, on an
unbounded index that refuses nothing, the index holds the entity exactly under the key of its
committed state while it is active, and nowhere while it is not
(`active_only_index_follows_activations`).

A unique lazy index without fault tolerance does not apply its updates in that order. The delete
of a deactivation is applied tentatively and its record queued; the insert of the next
activation is the write's only unique update, so it is applied for good and queues no record.
The queued delete is then replayed after the insert and takes the active entity out. The last
section runs this in a cluster.
-/

namespace EntityIndex.Bucket

namespace State

variable {s : State} {r : EntityRef} {b a : Key} {m : IndexMeta}

/-- The bucket holds `r` under `k` and under no other key; nowhere when `k` is the null key. -/
def At (s : State) (r : EntityRef) (k : Key) : Prop :=
  ∀ x, s.holds x r = true ↔ x = k ∧ k ≠ Key.null

theorem next_settle {u : IndexUpdate} {uq : Bool} : (s.settle r u uq m).next = s.next := by
  unfold settle
  cases h : s.apply r u uq m with
  | ok res => exact apply_next h
  | error _ => rfl

theorem settle_diff_self (uq : Bool) : s.settle r (.plain (diff b b)) uq m = s := by
  have hop : (IndexUpdate.plain (diff b b)).op = .none := by simp [diff, IndexUpdate.plain]
  simp [settle, apply_of_none hop]

/-- Settling the change from `b` to `a` moves an entity seen at `b` to `a`: an insert puts it
under `a`, a delete takes it from `b`, and an update finds it under `b` and moves it. -/
theorem At.settle_diff (hn : s.next = "") (hc : m.chained = false) (h : s.At r b) :
    (s.settle r (.plain (diff b a)) false m).At r a := by
  by_cases hab : b = a
  · subst hab
    rwa [settle_diff_self]
  rw [settle_plain (canCreate_of_unchained hn hc)]
  intro x
  rcases diff_of_ne hab with ⟨hb, hd⟩ | ⟨ha, hd⟩ | ⟨hb, ha, hd⟩
  · -- from nowhere: the entity is held by no key yet
    have hnone : s.holds x r = false := Bool.eq_false_iff.2 fun hx => ((h x).1 hx).2 hb
    have ha : a ≠ Key.null := fun ha => hab (hb.trans ha.symm)
    simp only [hd, holds_add, hnone]
    simp [ha]
  · have hb : b ≠ Key.null := fun hb => hab (hb.trans ha.symm)
    have hx : s.holds x r = true ↔ x = b := by simpa [hb] using h x
    simp only [hd, holds_trackDelete, holds_remove, hx]
    simp [ha]
  · -- the entity is under `b`, so the update moves it
    have hhb : s.holds b r = true := (h b).2 ⟨rfl, hb⟩
    have hx : s.holds x r = true ↔ x = b := by simpa [hb] using h x
    simp only [hd, hhb, if_true, holds_trackDelete, holds_remove, holds_add, hx, and_true]
    constructor
    · rintro ⟨hxa | hxa, hxb⟩
      · exact absurd hxa hxb
      · exact ⟨hxa, ha⟩
    · rintro ⟨rfl, -⟩
      exact ⟨.inr rfl, fun hx' => hab hx'.symm⟩

/-- A bucket sees `r` at the null key exactly when it holds `r` nowhere. -/
theorem at_null_iff : s.At r Key.null ↔ ∀ x, s.holds x r = false := by
  simp [At]

end State

end EntityIndex.Bucket

namespace EntityIndex.Indexing

open Bucket

variable {σ : Type}

/-- Activation is the change from the null key to the recorded image. -/
theorem updateFor_activate (d : IndexDef σ) (k : Key) (st : σ) :
    updateFor d k st .activate = .ok (diff Key.null k) := by
  have hnull : Key.null.isNull = true := Key.isNull_iff.2 rfl
  by_cases hk : k.isNull = true
  · rw [Key.isNull_iff.1 hk]
    simp [updateFor, diff, hnull]
  · simp [updateFor, diff, hk, hnull]

/-- Deactivation is the change from the recorded image to the null key. -/
theorem updateFor_deactivate (d : IndexDef σ) (k : Key) (st : σ) :
    updateFor d k st .deactivate = .ok (diff k Key.null) := by
  have hnull : Key.null.isNull = true := Key.isNull_iff.2 rfl
  by_cases hk : k.isNull = true
  · rw [Key.isNull_iff.1 hk]
    simp [updateFor, diff, hnull]
  · simp [updateFor, diff, hk, hnull]

/-- The image a change leaves is its target. -/
theorem nextImage_diff (b a : Key) : (diff b a).nextImage b = a := by
  by_cases hab : b = a
  · subst hab
    simp [diff, MemberUpdate.nextImage]
  · rcases diff_of_ne hab with ⟨-, hd⟩ | ⟨ha, hd⟩ | ⟨-, -, hd⟩
    · simp [hd, MemberUpdate.nextImage]
    · rw [hd]
      simp [MemberUpdate.nextImage, ha]
    · simp [hd, MemberUpdate.nextImage]

/-- Activation leaves the image it inserts, also when that image is the null key. -/
theorem nextImage_diff_null (k : Key) : (diff Key.null k).nextImage k = k := by
  by_cases hk : k = Key.null
  · rw [hk, nextImage_diff]
  · rcases diff_of_ne (Ne.symm hk) with ⟨-, hd⟩ | ⟨h, -⟩ | ⟨h, -, -⟩
    · simp [hd, MemberUpdate.nextImage]
    · exact absurd h hk
    · exact absurd rfl h

/-- An entity's life as one active-only index sees it: the bucket holding the index's keys, the
committed state, the recorded image, and whether the entity has a live activation. -/
structure Life (σ : Type) where
  /-- The bucket of the index. -/
  bucket : Bucket.State
  /-- The committed state. -/
  state : σ
  /-- The recorded image of the index. -/
  image : Key
  /-- Whether the entity has a live activation. -/
  active : Bool

/-- What an entity does that generates updates for its active-only indexes. -/
inductive Event (σ : Type) where
  /-- A new activation, from the committed state. -/
  | activate
  /-- A write of a new state. -/
  | write (st : σ)
  /-- The deactivation of the live activation. -/
  | deactivate

namespace Life

/-- The image the index shows: the recorded one while active, the null key otherwise. -/
def seen (l : Life σ) : Key := if l.active then l.image else Key.null

/-- Settle the update `reason` generates from the image `before` towards the state `st`, and
record the image the update leaves, as a committed update does. -/
def settleUpdate (l : Life σ) (d : IndexDef σ) (r : EntityRef) (before : Key) (st : σ)
    (reason : Reason) : Life σ :=
  match updateFor d before st reason with
  | .ok u =>
    { l with bucket := l.bucket.settle r (.plain u) d.desc.unique d.desc,
             image := u.nextImage before }
  | .error _ => l

/-- One event with its update settled at once. An activation reads its image from the committed
state and needs no live activation; a write or a deactivation needs one, and a write to a state
without a key is refused. -/
def step (d : IndexDef σ) (r : EntityRef) (l : Life σ) : Event σ → Life σ
  | .activate =>
    match l.active, Schema.keyAt d l.state with
    | false, .ok k => { l.settleUpdate d r k l.state .activate with active := true }
    | _, _ => l
  | .write st =>
    match l.active, Schema.keyAt d st with
    | true, .ok _ => { l.settleUpdate d r l.image st .write with state := st }
    | _, _ => l
  | .deactivate =>
    if l.active then { l.settleUpdate d r l.image l.state .deactivate with active := false } else l

/-- The life after each event of a list in turn. -/
def run (d : IndexDef σ) (r : EntityRef) (l : Life σ) (evs : List (Event σ)) : Life σ :=
  evs.foldl (step d r) l

variable {d : IndexDef σ} {r : EntityRef} {l : Life σ}

theorem settleUpdate_of_diff {before : Key} {st : σ} {reason : Reason} {b a : Key}
    (h : updateFor d before st reason = .ok (diff b a)) (hi : (diff b a).nextImage before = a) :
    l.settleUpdate d r before st reason =
      { l with bucket := l.bucket.settle r (.plain (diff b a)) d.desc.unique d.desc, image := a } := by
  simp [settleUpdate, h, hi]

/-! ### The three events that take place -/

theorem step_activate {k : Key} (hact : l.active = false) (hk : Schema.keyAt d l.state = .ok k) :
    l.step d r .activate =
      { l with bucket := l.bucket.settle r (.plain (diff Key.null k)) d.desc.unique d.desc,
               image := k, active := true } := by
  simp [step, hact, hk, settleUpdate_of_diff (updateFor_activate d k l.state) (nextImage_diff_null k)]

theorem step_write {st : σ} {a : Key} (hact : l.active = true) (hk : Schema.keyAt d st = .ok a) :
    l.step d r (.write st) =
      { l with bucket := l.bucket.settle r (.plain (diff l.image a)) d.desc.unique d.desc,
               image := a, state := st } := by
  simp [step, hact, hk, settleUpdate_of_diff (updateFor_write d hk l.image) (nextImage_diff _ _)]

theorem step_deactivate (hact : l.active = true) :
    l.step d r .deactivate =
      { l with bucket := l.bucket.settle r (.plain (diff l.image Key.null)) d.desc.unique d.desc,
               image := Key.null, active := false } := by
  simp [step, hact, settleUpdate_of_diff (updateFor_deactivate d l.image l.state) (nextImage_diff _ _)]

/-- What one event can do: nothing, or one of the three transitions, each under its guard. -/
theorem step_cases (ev : Event σ) :
    l.step d r ev = l ∨
    (∃ k, l.active = false ∧ Schema.keyAt d l.state = .ok k ∧ l.step d r ev =
      { l with bucket := l.bucket.settle r (.plain (diff Key.null k)) d.desc.unique d.desc,
               image := k, active := true }) ∨
    (∃ st a, l.active = true ∧ Schema.keyAt d st = .ok a ∧ l.step d r ev =
      { l with bucket := l.bucket.settle r (.plain (diff l.image a)) d.desc.unique d.desc,
               image := a, state := st }) ∨
    (l.active = true ∧ l.step d r ev =
      { l with bucket := l.bucket.settle r (.plain (diff l.image Key.null)) d.desc.unique d.desc,
               image := Key.null, active := false }) := by
  cases ev with
  | activate =>
    cases hact : l.active with
    | true => exact .inl (by simp [step, hact])
    | false =>
      cases hk : Schema.keyAt d l.state with
      | error _ => exact .inl (by simp [step, hact, hk])
      | ok k => exact .inr (.inl ⟨k, rfl, rfl, step_activate hact hk⟩)
  | write st =>
    cases hact : l.active with
    | false => exact .inl (by simp [step, hact])
    | true =>
      cases hk : Schema.keyAt d st with
      | error _ => exact .inl (by simp [step, hact, hk])
      | ok a => exact .inr (.inr (.inl ⟨st, a, rfl, hk, by rw [step_write hact hk, hact]⟩))
  | deactivate =>
    cases hact : l.active with
    | true => exact .inr (.inr (.inr ⟨rfl, step_deactivate hact⟩))
    | false => exact .inl (by simp [step, hact])

/-- Every event settles the change from the image the index saw before it to the one it sees
after it; an event that is refused changes neither. -/
theorem bucket_step (ev : Event σ) :
    (l.step d r ev).bucket = l.bucket.settle r (.plain (diff l.seen (l.step d r ev).seen))
      d.desc.unique d.desc := by
  rcases step_cases (d := d) (r := r) (l := l) ev with
    h | ⟨k, hact, -, h⟩ | ⟨st, a, hact, -, h⟩ | ⟨hact, h⟩ <;> rw [h]
  · exact (State.settle_diff_self _).symm
  all_goals simp [seen, hact]

/-- A live activation's recorded image stays the key of its committed state. -/
theorem image_step (hi : l.active = true → Schema.keyAt d l.state = .ok l.image) (ev : Event σ)
    (hact' : (l.step d r ev).active = true) :
    Schema.keyAt d (l.step d r ev).state = .ok (l.step d r ev).image := by
  rcases step_cases (d := d) (r := r) (l := l) ev with
    h | ⟨k, -, hk, h⟩ | ⟨st, a, -, hk, h⟩ | ⟨-, h⟩ <;> rw [h] at hact' ⊢
  · exact hi hact'
  · exact hk
  · exact hk
  · exact absurd hact' Bool.false_ne_true

/-! ### The index follows the entity -/

/-- The invariant of a life settled in order: the bucket is the tail of its chain, it holds the
entity exactly where the index sees it, and a live activation's image is its state's key. -/
structure Tracks (d : IndexDef σ) (r : EntityRef) (l : Life σ) : Prop where
  /-- The bucket has no successor, so it takes every new key. -/
  tail : l.bucket.next = ""
  /-- The entity is held at the image the index sees. -/
  sees : l.bucket.At r l.seen
  /-- A live activation records the key of its committed state. -/
  image : l.active = true → Schema.keyAt d l.state = .ok l.image

section Tracking

variable (hu : d.desc.unique = false) (hc : d.desc.chained = false)
include hu hc

theorem Tracks.step (ht : Tracks d r l) (ev : Event σ) : Tracks d r (l.step d r ev) where
  tail := by rw [bucket_step, State.next_settle]; exact ht.tail
  sees := by rw [bucket_step, hu]; exact ht.sees.settle_diff ht.tail hc
  image := image_step ht.image ev

theorem Tracks.run (evs : List (Event σ)) (ht : Tracks d r l) : Tracks d r (l.run d r evs) := by
  induction evs generalizing l with
  | nil => exact ht
  | cons ev evs ih => exact ih (ht.step hu hc ev)

end Tracking

/-- What a tracked life holds: the entity is under `k` exactly when it is active and `k` is the
non-null key of its committed state. -/
theorem Tracks.holds_iff (ht : Tracks d r l) (k : Key) :
    l.bucket.holds k r = true ↔ l.active = true ∧ Schema.keyAt d l.state = .ok k ∧ k ≠ Key.null := by
  rw [ht.sees k]
  cases hact : l.active with
  | false => simp [seen, hact]
  | true =>
    have himg := ht.image hact
    simp only [seen, hact, if_true, true_and, himg, Except.ok.injEq]
    constructor
    · rintro ⟨rfl, hn⟩
      exact ⟨rfl, hn⟩
    · rintro ⟨rfl, hn⟩
      exact ⟨rfl, hn⟩

end Life

/-- An active-only index that settles each update of an entity in the order of the entity's
events holds the entity exactly under the key of its committed state while the entity is active,
and nowhere while it is not. The index is not unique, so it refuses no insert, and not chained,
so its one bucket takes every key. The entity starts inactive and held nowhere, with any stored
state; the events are any activations, writes and deactivations. -/
theorem active_only_index_follows_activations {σ : Type} (d : IndexDef σ)
    (hu : d.desc.unique = false) (hc : d.desc.chained = false) (r : EntityRef) {s : Bucket.State}
    (hn : s.next = "") (hs : ∀ k, s.holds k r = false) (st : σ) (evs : List (Event σ)) (k : Key) :
    (Life.run d r ⟨s, st, Key.null, false⟩ evs).bucket.holds k r = true ↔
      (Life.run d r ⟨s, st, Key.null, false⟩ evs).active = true ∧
        Schema.keyAt d (Life.run d r ⟨s, st, Key.null, false⟩ evs).state = .ok k ∧ k ≠ Key.null := by
  have hstart : Life.Tracks d r ⟨s, st, Key.null, false⟩ :=
    ⟨hn, State.at_null_iff.2 hs, fun h => absurd h Bool.false_ne_true⟩
  exact (hstart.run hu hc evs).holds_iff k

/-- A non-unique active-only index on the optional field `email` of interface `IPlayer`. -/
def activeEmailDecl : IndexDef Cluster.Fields :=
  ⟨"IPlayer", { name := "email", activeOnly := true }, some (Cluster.FieldKind.optional.extract "email")⟩

/-- The activation, write, deactivation and reactivation of `player/a`, settled in order: the
index holds it under `s:x` again. -/
theorem reactivated_entity_held_under_its_key :
    (Life.run activeEmailDecl ⟨"player", "a"⟩ ⟨{}, [], Key.null, false⟩
      [.activate, .write [("email", "x")], .deactivate, .activate]).bucket.holds ⟨"s:x"⟩
        ⟨"player", "a"⟩ = true :=
  (active_only_index_follows_activations activeEmailDecl rfl rfl ⟨"player", "a"⟩ rfl
    (fun _ => rfl) [] _ ⟨"s:x"⟩).2 ⟨rfl, rfl, by decide⟩

end EntityIndex.Indexing

namespace EntityIndex.Cluster

open EntityIndex.Indexing

/-- A unique lazy active-only index on the optional field `email` of interface `IPlayer`. -/
def uniqueActiveEmailDecl : IndexDef Fields :=
  ⟨"IPlayer", { name := "email", unique := true, activeOnly := true },
    some (FieldKind.optional.extract "email")⟩

/-- The buckets of `uniqueActiveEmailDecl` once a type `player` declares it. -/
def uniqueActiveEmailBuckets : Bucket.Index := ⟨qualify "player" "email", uniqueActiveEmailDecl.desc⟩

/-- A deactivation replayed after the next activation. Type `player` has no fault tolerance.
Entity `a` sets `email = x`; with passes paused it is deactivated and activated again, and then
the passes run. Returns the entities a lookup of `x` sees, the entries of the index's bucket, the
state of the live activation of `a` and whether it is deactivated, and whether every live queue
is empty. -/
def reactivationRun :
    Run World (List EntityRef × List (Key × Bucket.Entry) × Fields × Bool × Bool) := do
  World.register "player" false [uniqueActiveEmailDecl]
  let a ← World.getEntity "player" "a"
  World.updateEntity a (fun st => .ok (st.set "email" "x"))
  World.flush
  World.setPaused true
  World.deactivateEntity a
  let a ← World.getEntity "player" "a"
  World.setPaused false
  World.flush
  let refs ← uniqueActiveEmailBuckets.visible ⟨"s:x"⟩
  let head ← Bucket.resolve (Bucket.headId uniqueActiveEmailBuckets.name 0)
  let e ← World.entityAt a
  let w ← get
  pure (refs, head.entries, e.state, e.deactivated,
    w.liveQueues.all fun id => (w.queue? id).all (·.records.isEmpty))

set_option maxRecDepth 200000 in
set_option synthInstance.maxSize 400 in
/-- At a quiescent point the index has lost an active entity: every queue is empty and the live
activation of `a` has `email = x`, yet the index holds no entry and a lookup of `x` finds no
entity. -/
theorem replayed_deactivation_hides_active_entity :
    (reactivationRun.exec freshCluster).1.toOption =
      some ([], [], [("email", "x")], false, true) := by
  decide +kernel

end EntityIndex.Cluster
