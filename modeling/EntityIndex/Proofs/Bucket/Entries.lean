import EntityIndex.Bucket.Host
import EntityIndex.Proofs.Model.Maps

/-!
# Entries of a bucket

Each operation on a bucket's state touches one thing. `put` and `drop` replace or remove the
entry of their own key. `add` and `remove` change the entities of one entry. Recording a delete
changes only the repairs. No update changes the successor link, so only `grow` decides whether a
bucket is the tail of its chain.

These are the frame lemmas that later proofs use to read bucket steps: an entry under another
key is unchanged, and so is the link.
-/

namespace EntityIndex.Bucket

/-- The entries of a bucket are a map sorted by key. -/
theorem putEntry_eq_putSorted (k : Key) (e : Entry) :
    ∀ es : List (Key × Entry), putEntry k e es = putSorted k e es
  | [] => rfl
  | (k', e') :: rest => by
    simp only [putEntry, putSorted, putEntry_eq_putSorted k e rest]

theorem lookup_putEntry (k x : Key) (e : Entry) (es : List (Key × Entry)) :
    (putEntry k e es).lookup x = if x = k then some e else es.lookup x := by
  rw [putEntry_eq_putSorted]
  exact lookup_putSorted k x e es

/-- Looking a key up after filtering out the entry of `k`. -/
theorem lookup_filter_key_ne (k x : Key) (es : List (Key × Entry)) :
    (es.filter (·.1 != k)).lookup x = if x = k then none else es.lookup x := by
  induction es with
  | nil => simp
  | cons hd rest ih =>
    obtain ⟨k', e'⟩ := hd
    by_cases hk : k' = k
    · subst hk
      have hb : (k' != k') = false := by simp
      simp only [List.filter, hb, ih]
      by_cases hx : x = k' <;> simp [hx]
    · have hb : (k' != k) = true := by simpa using hk
      simp only [List.filter, hb, lookup_cons_eq_ite, ih]
      by_cases hx : x = k'
      · subst hx
        simp [hk]
      · simp [hx]

namespace State

variable (s : State) (k x : Key) (r : EntityRef)

@[simp]
theorem entry?_put (e : Entry) : State.entry? (s.put k e) x = if x = k then some e else s.entry? x :=
  lookup_putEntry k x e s.entries

@[simp]
theorem entry?_drop : State.entry? (s.drop k) x = if x = k then none else s.entry? x :=
  lookup_filter_key_ne k x s.entries

@[simp] theorem next_put (e : Entry) : (s.put k e).next = s.next := rfl
@[simp] theorem status_put (e : Entry) : (s.put k e).status = s.status := rfl
@[simp] theorem next_drop : (s.drop k).next = s.next := rfl
@[simp] theorem status_drop : (s.drop k).status = s.status := rfl

@[simp]
theorem next_add (t : Bool) : (s.add k r t).next = s.next := rfl

@[simp]
theorem next_remove (t : Bool) : (s.remove k r t).next = s.next := by
  unfold remove
  split
  · rfl
  · dsimp only
    repeat' split
    all_goals simp

@[simp]
theorem status_remove (t : Bool) : (s.remove k r t).status = s.status := by
  unfold remove
  split
  · rfl
  · dsimp only
    repeat' split
    all_goals simp

@[simp]
theorem next_trackDelete : (s.trackDelete k r).next = s.next := by
  unfold trackDelete
  dsimp only
  repeat' split
  all_goals rfl

@[simp]
theorem status_trackDelete : (s.trackDelete k r).status = s.status := by
  unfold trackDelete
  dsimp only
  repeat' split
  all_goals rfl

@[simp]
theorem entry?_trackDelete : State.entry? (s.trackDelete k r) x = s.entry? x := by
  unfold trackDelete
  dsimp only
  repeat' split
  all_goals rfl

/-- Adding an entity leaves the entries of other keys alone. -/
theorem entry?_add_of_ne {x k : Key} (t : Bool) (h : x ≠ k) :
    State.entry? (s.add k r t) x = s.entry? x := by
  simp [add, h]

/-- Removing an entity leaves the entries of other keys alone. -/
theorem entry?_remove_of_ne {x k : Key} (t : Bool) (h : x ≠ k) :
    State.entry? (s.remove k r t) x = s.entry? x := by
  unfold remove
  split
  · rfl
  · dsimp only
    repeat' split
    all_goals simp [h]

/-- Removing never creates an entry. -/
theorem entry?_remove_isSome {t : Bool} (h : (State.entry? (s.remove k r t) x).isSome) :
    (s.entry? x).isSome := by
  by_cases hx : x = k
  · subst hx
    revert h
    unfold remove
    split
    · exact id
    · rename_i e he
      intro _
      simp [he]
  · rwa [entry?_remove_of_ne s r t hx] at h

end State

end EntityIndex.Bucket
