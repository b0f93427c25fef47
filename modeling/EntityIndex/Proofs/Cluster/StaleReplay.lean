import EntityIndex.Proofs.Bucket.Steps
import EntityIndex.Cluster.Nodes
import EntityIndex.Cluster.Register
import EntityIndex.Requests.Systems

/-!
# Replaying a stale delete on a lazy unique index

A unique index refuses a key to an entity while the key's entry holds another entity, whatever
marker the entry carries. The refusal therefore protects a committed value only while the index
still holds it.

Without fault tolerance, a lazy index can stop holding a key that a committed state still has.
Suppose an entity's write clears its value. That write deletes, so its unique update is applied
tentatively and its record is queued. Suppose the entity's next write sets the same value back.
That write has one unique insert, so it is applied for good and its record is not queued. The
queued record of the first write is replayed later as a plain delete and removes the entity from
the key. From then on the committed value is unprotected. Another entity can take the same
value, and a lookup of the value misses the entity that holds it, even with every queue empty.
The last section runs this in a cluster.
-/

namespace EntityIndex.Bucket

/-- Removing the entry of `k` forgets any entry `putEntry` put under `k`. -/
theorem filter_putEntry_key (k : Key) (e : Entry) (es : List (Key × Entry)) :
    (putEntry k e es).filter (·.1 != k) = es.filter (·.1 != k) := by
  induction es with
  | nil => simp [putEntry]
  | cons hd rest ih =>
    obtain ⟨k', e'⟩ := hd
    by_cases hk : k = k'
    · subst hk
      simp [putEntry]
    · by_cases hlt : k < k'
      · simp [putEntry, hk, hlt]
      · have hb : (k' != k) = true := by simpa using Ne.symm hk
        simp [putEntry, hk, hlt, hb, ih]

namespace State

@[simp]
theorem drop_put (s : State) (k : Key) (e : Entry) : (s.put k e).drop k = s.drop k := by
  simp [drop, put, filter_putEntry_key]

theorem size_drop_le (s : State) (k : Key) : (s.drop k).size ≤ s.size :=
  List.length_filter_le _ _

@[simp]
theorem entries_trackDelete (s : State) (k : Key) (r : EntityRef) :
    (s.trackDelete k r).entries = s.entries := by
  unfold trackDelete
  dsimp only
  repeat' split
  all_goals rfl

/-- Which keys a bucket drops depends on its entries alone. -/
theorem drop_entries_congr {s t : State} (k : Key) (h : s.entries = t.entries) :
    (s.drop k).entries = (t.drop k).entries := by
  simp [drop, h]

/-- A settled remove of the only entity under a key drops the entry. -/
theorem remove_sole {s : State} {k : Key} {r : EntityRef} {mk : Marker}
    (he : s.entry? k = some ⟨[r], mk⟩) : s.remove k r false = s.drop k := by
  simp [remove, he, Entry.contains]

/-- A bucket with no more keys than one that can take a new key, and the same link, can take one
too. -/
theorem canCreate_of_size_le {s t : State} {m : IndexMeta} (hc : s.canCreate m = true)
    (hn : t.next = s.next) (hs : t.size ≤ s.size) : t.canCreate m = true := by
  simp only [canCreate, IndexMeta.atCapacity, Bool.and_eq_true, Bool.not_eq_eq_eq_not,
    Bool.not_true, Bool.and_eq_false_iff, decide_eq_false_iff_not, Int.not_le] at hc ⊢
  refine ⟨hn ▸ hc.1, ?_⟩
  rcases hc.2 with h | h
  · exact Or.inl h
  · exact Or.inr (Int.lt_of_le_of_lt (by exact_mod_cast hs) h)

end State

open State

/-- An insert of a key whose entry holds another entity is refused. -/
theorem apply_insertOf_of_holdsOther {s : State} {m : IndexMeta} {f : EntityRef} {k : Key}
    {e : Entry} (he : s.entry? k = some e) (ho : e.holdsOther f = true) :
    s.apply f (insertOf k) true m = .error (.uniqueness m.name k f) := by
  simp [apply, insertOf, IndexUpdate.plain, State.insert, he, ho]

/-- On a unique index, an entity's insert of key `k` is refused exactly when the entry of `k`
holds another entity. The entry's marker plays no part: a tentative entry reserves its key like
a settled one. -/
theorem insert_refused_iff_held_by_other (s : State) (m : IndexMeta) (f : EntityRef) (k : Key) :
    s.apply f (insertOf k) true m = .error (.uniqueness m.name k f) ↔
      ∃ e, s.entry? k = some e ∧ e.holdsOther f = true := by
  constructor
  · simp only [apply, insertOf, IndexUpdate.plain, State.insert]
    cases he : s.entry? k with
    | none => cases s.canCreate m <;> simp
    | some e => cases ho : e.holdsOther f <;> simp [ho]
  · rintro ⟨e, he, ho⟩
    exact apply_insertOf_of_holdsOther he ho

/-- The replay that breaks faithfulness, in one bucket that can take keys. Entity `r` alone holds
`k`, settled. Its write that clears `k` is applied tentatively; its next write, setting `k` back,
is applied for good and reserves `k` again, so another entity `f` is refused. The first write's
record is then replayed as a plain delete: `k` leaves the bucket, and `f` takes it. -/
theorem replayed_delete_frees_key (s : State) (m : IndexMeta) (r f : EntityRef) (k : Key)
    (hf : f ≠ r) (hs : s.entry? k = some ⟨[r], .none⟩) (hc : s.canCreate m = true) :
    ∃ s₁ s₂ s₃ s₄,
      s.apply r (deleteOf k).asTentative true m = .ok (.applied, s₁) ∧
      s₁.apply r (insertOf k) true m = .ok (.applied, s₂) ∧
      s₂.apply f (insertOf k) true m = .error (.uniqueness m.name k f) ∧
      s₂.apply r (deleteOf k) true m = .ok (.applied, s₃) ∧
      s₃.entry? k = none ∧
      s₃.apply f (insertOf k) true m = .ok (.applied, s₄) ∧
      s₄.entry? k = some ⟨[f], .none⟩ := by
  -- the four states, each the previous one with one update applied
  let s₁ := (s.remove k r true).trackDelete k r
  let s₂ := s₁.add k r false
  let s₃ := (s₂.remove k r false).trackDelete k r
  have h₁ : s₁.entry? k = some ⟨[r], .delete⟩ := by
    simp [s₁, State.remove, hs, Entry.contains]
  have h₂ : s₂.entry? k = some ⟨[r], .none⟩ := by
    simp [s₂, State.add, h₁, Entry.contains]
  have h₃ : s₃.entry? k = none := by
    simp [s₃, State.remove, h₂, Entry.contains]
  have hc₃ : s₃.canCreate m = true := by
    refine canCreate_of_size_le hc (by simp [s₃, s₂, s₁]) ?_
    -- the three updates leave the other keys as they were: `s₃` is `s` without `k`
    have hdrop : s₃.entries = (s.drop k).entries :=
      calc s₃.entries = (s₂.drop k).entries := by simp [s₃, remove_sole h₂]
        _ = (s₁.drop k).entries := by simp [s₂, State.add]
        _ = ((s.remove k r true).drop k).entries := drop_entries_congr k (by simp [s₁])
        _ = (s.drop k).entries := by simp [State.remove, hs, Entry.contains]
    simpa [State.size, hdrop] using size_drop_le s k
  refine ⟨s₁, s₂, s₃, s₃.add k f false, ?_, ?_, ?_, ?_, h₃, ?_, ?_⟩
  · simp [apply, deleteOf, IndexUpdate.asTentative, IndexUpdate.plain, State.delete, hs, s₁]
  · simp [apply, insertOf, IndexUpdate.plain, State.insert, h₁, Entry.holdsOther, s₂]
  · exact apply_insertOf_of_holdsOther h₂ (by simpa [Entry.holdsOther] using Ne.symm hf)
  · simp [apply, deleteOf, IndexUpdate.plain, State.delete, h₂, s₃]
  · simp [apply, insertOf, IndexUpdate.plain, State.insert, h₃, hc₃]
  · simp [State.add, h₃, Entry.contains]

/-- An unbounded unique index. -/
def uniqueEmail : IndexMeta := { name := "email", unique := true }

/-- A bucket in which entity `a` alone holds key `s:x`. -/
def heldByA : State := { entries := [(⟨"s:x"⟩, ⟨[⟨"player", "a"⟩], .none⟩)] }

/-- The replay in that bucket: `b` is refused `s:x` until the stale delete of `a` is replayed,
and then takes it. -/
theorem stale_delete_lets_other_take_key :
    ∃ s₁ s₂ s₃ s₄,
      heldByA.apply ⟨"player", "a"⟩ (deleteOf ⟨"s:x"⟩).asTentative true uniqueEmail =
        .ok (.applied, s₁) ∧
      s₁.apply ⟨"player", "a"⟩ (insertOf ⟨"s:x"⟩) true uniqueEmail = .ok (.applied, s₂) ∧
      s₂.apply ⟨"player", "b"⟩ (insertOf ⟨"s:x"⟩) true uniqueEmail =
        .error (.uniqueness "email" ⟨"s:x"⟩ ⟨"player", "b"⟩) ∧
      s₂.apply ⟨"player", "a"⟩ (deleteOf ⟨"s:x"⟩) true uniqueEmail = .ok (.applied, s₃) ∧
      s₃.entry? ⟨"s:x"⟩ = none ∧
      s₃.apply ⟨"player", "b"⟩ (insertOf ⟨"s:x"⟩) true uniqueEmail = .ok (.applied, s₄) ∧
      s₄.entry? ⟨"s:x"⟩ = some ⟨[⟨"player", "b"⟩], .none⟩ :=
  replayed_delete_frees_key heldByA uniqueEmail ⟨"player", "a"⟩ ⟨"player", "b"⟩ ⟨"s:x"⟩
    (by decide) rfl rfl

end EntityIndex.Bucket

namespace EntityIndex.Cluster

open EntityIndex.Indexing

/-- A unique lazy index on the optional field `email`, of interface `IPlayer`. -/
def emailDecl : IndexDef Fields :=
  ⟨"IPlayer", { name := "email", unique := true }, some (FieldKind.optional.extract "email")⟩

/-- The buckets of `emailDecl` once a type `player` declares it. -/
def emailBuckets : Bucket.Index := ⟨qualify "player" "email", emailDecl.desc⟩

/-- A cluster with the default options and an empty store. -/
def freshCluster : World := ({} : Requests.Setup).open {} 0

/-- The writes of the replay. Type `player` has no fault tolerance. Entity `a` sets
`email = x`. With passes paused, it clears the value and sets it back, and then the passes run.
Returns the handle of `a`. -/
def replayWrites : Run World Nat := do
  World.register "player" false [emailDecl]
  let a ← World.getEntity "player" "a"
  World.updateEntity a (fun st => .ok (st.set "email" "x"))
  World.flush
  World.setPaused true
  World.updateEntity a (fun st => .ok (st.unset "email"))
  World.updateEntity a (fun st => .ok (st.set "email" "x"))
  World.setPaused false
  World.flush
  pure a

/-- After the replay, entity `b` sets `email = x` as well; the handles of `a` and `b`. -/
def takeoverRun : Run World (Nat × Nat) := do
  let a ← replayWrites
  let b ← World.getEntity "player" "b"
  World.updateEntity b (fun st => .ok (st.set "email" "x"))
  pure (a, b)

set_option maxRecDepth 200000 in
/-- Two entities hold the same value of a unique index: every write of the run is accepted, and
`a` and `b` both end with `email = x`. -/
theorem lazy_unique_value_held_twice :
    (takeoverRun.exec freshCluster).1.toOption = some (0, 1) ∧
      (takeoverRun.exec freshCluster).2.entities.map (fun e => (e.ref, e.state)) =
        [(⟨"player", "a"⟩, [("email", "x")]), (⟨"player", "b"⟩, [("email", "x")])] := by
  decide +kernel

/-- After the replay: the entities a lookup of `email = x` sees, the state stored for `a`, and
whether every live queue is empty. -/
def replayLookup : Run World (List EntityRef × Option Fields × Bool) := do
  let _ ← replayWrites
  -- `s:x` is the key of the text value `x`
  let refs ← emailBuckets.visible ⟨"s:x"⟩
  let stored ← World.onStore (Store.DocStore.load (Entity.addr ⟨"player", "a"⟩) Stored.ofDoc)
  let w ← get
  pure (refs, stored.map (·.state), w.liveQueues.all fun id => (w.queue? id).all (·.records.isEmpty))

set_option maxRecDepth 200000 in
/-- At a quiescent point the index misses a committed value: every queue is empty and the stored
state of `a` has `email = x`, yet a lookup of `x` finds no entity. -/
theorem lazy_index_misses_committed_value :
    (replayLookup.exec freshCluster).1.toOption = some ([], some [("email", "x")], true) := by
  decide +kernel

end EntityIndex.Cluster
