import EntityIndex.Proofs.Bucket.Steps
import EntityIndex.Proofs.Persist.StoredForms

/-!
# Buckets stay storable

A bucket's stored form reads back when its entries are strictly sorted by key and its markers
and status are byte codes (`State.Storable`). Every operation keeps that: `putEntry` inserts a
key in its place, dropping and recording deletes keep the order, and the only markers an update
sets are the named ones. So does every status a byte code names. Hence every state reached from
an empty bucket by updates and status changes (`State.Reachable`) is storable.
-/

namespace EntityIndex.Bucket

/-! ## Entries sorted by key -/

theorem mem_putEntry {k : Key} {e : Entry} {x : Key × Entry} {es : List (Key × Entry)}
    (h : x ∈ putEntry k e es) : x = (k, e) ∨ x ∈ es := by
  rw [putEntry_eq_putSorted] at h
  exact mem_putSorted h

/-- `putEntry` keeps entries strictly sorted by key. -/
theorem pairwise_putEntry (k : Key) (e : Entry) {es : List (Key × Entry)}
    (h : es.Pairwise (fun x y => x.1 < y.1)) : (putEntry k e es).Pairwise (fun x y => x.1 < y.1) := by
  rw [putEntry_eq_putSorted]
  exact pairwise_putSorted k e h

/-- The status a byte code names is stored as a code that names it again. -/
theorem Status.ofCode_code_ofCode (n : Nat) :
    Status.ofCode (Status.ofCode n).code = Status.ofCode n := by
  rw [Status.code_ofCode]
  unfold Status.ofCode
  rw [Nat.mod_mod]

/-! ## One step at a time -/

namespace State.Storable

variable {s s' : State} {r : EntityRef} {k : Key} {t uq : Bool} {m : IndexMeta} {o : Outcome}
  {u : IndexUpdate}

theorem put (hs : s.Storable) {e : Entry} (he : Marker.ofCode e.marker.code = e.marker) :
    (s.put k e).Storable where
  sorted := pairwise_putEntry k e hs.sorted
  markers p hp := by
    rcases mem_putEntry hp with rfl | hp
    · exact he
    · exact hs.markers p hp
  status := hs.status

theorem drop (hs : s.Storable) : (s.drop k).Storable where
  sorted := hs.sorted.filter _
  markers p hp := hs.markers p (List.mem_of_mem_filter hp)
  status := hs.status

theorem trackDelete (hs : s.Storable) : (s.trackDelete k r).Storable := by
  unfold State.trackDelete
  dsimp only
  split_ifs
  · exact hs
  · exact hs
  · exact ⟨hs.sorted, hs.markers, hs.status⟩

theorem add (hs : s.Storable) : (s.add k r t).Storable :=
  hs.put (by cases t <;> rfl)

theorem remove (hs : s.Storable) : (s.remove k r t).Storable := by
  unfold State.remove
  split
  · exact hs
  · dsimp only
    repeat' split
    · exact hs
    · exact hs.put rfl
    · exact hs.drop
    · exact hs.put rfl

theorem insert (hs : s.Storable) (h : s.insert r k t uq m = .ok (o, s')) : s'.Storable := by
  rcases State.insert_result h with ⟨-, rfl, -, -⟩ | ⟨-, rfl, -⟩
  · exact hs
  · exact hs.add

/-- An update that succeeds leaves a storable bucket storable. -/
theorem apply (hs : s.Storable) (h : s.apply r u uq m = .ok (o, s')) : s'.Storable := by
  rcases State.apply_cases h with ⟨-, -, rfl⟩ | ⟨-, h⟩ | ⟨-, h⟩ | ⟨-, h⟩
  · exact hs
  · exact hs.insert h
  · rcases State.delete_result h with ⟨-, rfl, -, -⟩ | ⟨-, rfl⟩
    · exact hs
    · exact hs.remove.trackDelete
  · rcases State.change_cases h with h | ⟨-, rfl, -, -⟩
    · exact hs.insert h
    · exact hs.add.remove.trackDelete

theorem enforce (reps : List Repair) :
    ∀ s : State, s.Storable → (s.enforce reps).2.Storable := by
  induction reps with
  | nil => intro s hs; exact hs
  | cons rep rest ih =>
    intro s hs
    unfold State.enforce
    split
    · split
      · exact ih _ hs.remove
      · exact ih s hs
    · exact ih s hs

/-- Changing to a status that a byte code names leaves a storable bucket storable. -/
theorem setStatus (hs : s.Storable) (n : Nat) : (s.setStatus (Status.ofCode n)).2.Storable := by
  unfold State.setStatus
  split
  · have he := enforce s.repairs s hs
    exact ⟨he.sorted, he.markers, Status.ofCode_code_ofCode n⟩
  · exact ⟨hs.sorted, hs.markers, Status.ofCode_code_ofCode n⟩

end State.Storable

/-! ## Reachable states -/

/-- The bucket states that updates and status changes reach from an empty bucket; a status is
given by its byte code. -/
inductive State.Reachable : State → Prop
  | empty : State.Reachable {}
  | apply {s s' : State} {r : EntityRef} {u : IndexUpdate} {uq : Bool} {m : IndexMeta}
      {o : Outcome} : s.Reachable → s.apply r u uq m = .ok (o, s') → s'.Reachable
  | setStatus {s : State} (n : Nat) : s.Reachable → (s.setStatus (Status.ofCode n)).2.Reachable

/-- Every reachable bucket state is storable: the induction follows the steps that reach it. -/
theorem State.Reachable.storable {s : State} (h : s.Reachable) : s.Storable := by
  induction h with
  | empty => exact ⟨List.Pairwise.nil, nofun, rfl⟩
  | apply _ happ ih => exact ih.apply happ
  | setStatus n _ ih => exact ih.setStatus n

end EntityIndex.Bucket
