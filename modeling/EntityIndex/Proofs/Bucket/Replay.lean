import EntityIndex.Proofs.Bucket.Chains

/-!
# Replaying an update on one bucket

A queue delivers its records at least once, so a bucket may see one update twice in a row.
Applying it again repeats the first application (`apply_again`). A refused update is refused
again with the same error, since a refusal leaves the bucket as it was. An update that was
applied is applied again and leaves the bucket as the first application left it: the same entry
under every key, the same status, successor and repairs (`State.Alike`).

The answer repeats too, with one exception that the chain walk makes: a delete that took the last
entity out of its key, in a bucket of a chained index that has a successor, finds the key gone
the second time, and a key that is not here belongs further down the chain, so the second answer
is `notFoundHere`.

The one update that does not replay is an update between two equal keys, which `diff` never
makes: each settled application flips whether the bucket holds the entity under that key
(`change_same_key_flips`). The first application inserts the key, the second finds the entity
under the before-image and moves it off the after-image, which is the same key
(`replayed_same_key_update_drops_key`).

Main statement: `replay_repeats_update`, for an update and for its reverse.
-/

namespace EntityIndex.Bucket

/-! ## What `add` and `remove` leave under their key -/

namespace Entry

/-- The entry `State.add` leaves under its key, from the entry there before. -/
def added (o : Option Entry) (r : EntityRef) (t : Bool) : Entry :=
  let e := o.getD { values := [] }
  ⟨if e.contains r then e.values else e.values ++ [r], if t then .insert else .none⟩

/-- The entry `State.remove` leaves under its key, from the entry there before. -/
def removed (o : Option Entry) (r : EntityRef) (t : Bool) : Option Entry :=
  match o with
  | none => none
  | some e =>
    if !e.contains r then some e
    else if t then some { e with marker := .delete }
    else
      let values := e.values.filter (· != r)
      if values.isEmpty then none else some ⟨values, .none⟩

variable {o : Option Entry} {r : EntityRef} {t : Bool} {e : Entry}

@[simp]
theorem contains_added : (added o r t).contains r = true := by
  unfold added contains
  generalize o.getD { values := [] } = e
  by_cases h : r ∈ e.values <;> simp [h]

@[simp]
theorem marker_added : (added o r t).marker = if t then .insert else .none := rfl

/-- Adding `r` gives the entry no entity other than `r` that it did not have. -/
@[simp]
theorem holdsOther_added : (added o r t).holdsOther r = (o.getD { values := [] }).holdsOther r := by
  unfold added holdsOther contains
  generalize o.getD { values := [] } = e
  by_cases h : r ∈ e.values <;> simp [h]

/-- Adding an entity already added changes nothing but the marker. -/
@[simp]
theorem added_added {t' : Bool} : added (some (added o r t)) r t' = added o r t' := by
  rw [added]
  simp only [Option.getD_some, contains_added, if_true]
  rfl

theorem removed_of_not_contains (hc : e.contains r = false) : removed (some e) r t = some e := by
  simp [removed, hc]

theorem removed_tentative (hc : e.contains r = true) :
    removed (some e) r true = some { e with marker := .delete } := by
  simp [removed, hc]

theorem removed_settled (hc : e.contains r = true) :
    removed (some e) r false =
      if (e.values.filter (· != r)).isEmpty then none else some ⟨e.values.filter (· != r), .none⟩ := by
  simp [removed, hc]

/-- A settled remove leaves the entity nowhere under the key. -/
theorem removed_not_contains (h : removed o r false = some e) : e.contains r = false := by
  cases o with
  | none => cases h
  | some e₀ =>
    cases hc : e₀.contains r with
    | false =>
      rw [removed_of_not_contains hc] at h
      cases h
      exact hc
    | true =>
      rw [removed_settled hc] at h
      split at h
      · cases h
      · cases h
        simp [contains, List.mem_filter]

/-- Removing an entity already removed changes nothing. -/
@[simp]
theorem removed_removed : removed (removed o r t) r t = removed o r t := by
  cases o with
  | none => rfl
  | some e =>
    cases hc : e.contains r with
    | false => rw [removed_of_not_contains hc, removed_of_not_contains hc]
    | true =>
      cases t with
      | true => rw [removed_tentative hc, removed_tentative (by simpa [contains] using hc)]
      | false =>
        cases h : removed (some e) r false with
        | none => rfl
        | some e' => exact removed_of_not_contains (removed_not_contains h)

end Entry

namespace State

variable (s : State) (k x : Key) (r : EntityRef) (t : Bool)

theorem entry?_add :
    State.entry? (s.add k r t) x = if x = k then some (Entry.added (s.entry? k) r t) else s.entry? x := by
  simp [State.add, Entry.added]

theorem entry?_remove :
    State.entry? (s.remove k r t) x = if x = k then Entry.removed (s.entry? k) r t else s.entry? x := by
  unfold State.remove
  cases he : s.entry? k with
  | none => by_cases hx : x = k <;> simp [Entry.removed, hx, he]
  | some e =>
    by_cases hc : e.contains r = true
    · cases t with
      | true => by_cases hx : x = k <;> simp [Entry.removed, hx, hc]
      | false =>
        by_cases hv : (e.values.filter (· != r)).isEmpty = true
        · by_cases hx : x = k <;> simp [Entry.removed, hx, hc, hv]
        · by_cases hx : x = k <;> simp [Entry.removed, hx, hc, hv]
    · by_cases hx : x = k <;> simp [Entry.removed, hx, hc, he]

@[simp] theorem repairs_add : (s.add k r t).repairs = s.repairs := rfl

@[simp]
theorem repairs_remove : (s.remove k r t).repairs = s.repairs := by
  unfold remove
  split
  · rfl
  · dsimp only
    repeat' split
    all_goals rfl

/-- Recording a delete adds its pair once, and only while the bucket is not available. -/
theorem repairs_trackDelete :
    (s.trackDelete k r).repairs =
      if s.status = .available ∨ ⟨k, r⟩ ∈ s.repairs then s.repairs else s.repairs ++ [⟨k, r⟩] := by
  unfold trackDelete
  by_cases hs : s.status = .available
  · simp [hs]
  · by_cases hm : (⟨k, r⟩ : Repair) ∈ s.repairs <;> simp [hs, hm]

/-- Whether the bucket holds `r` under `k`: its (key, entity) memberships. -/
def holds (s : State) (k : Key) (r : EntityRef) : Bool :=
  match s.entry? k with
  | some e => e.contains r
  | none => false

/-- A change reads whether the entity is under the before-image. -/
theorem change_eq (u : IndexUpdate) (uq : Bool) (m : IndexMeta) :
    s.change r u uq m =
      if !s.holds u.before r then s.insert r u.after u.tentative uq m
      else
        match s.entry? u.after with
        | none =>
          if s.canCreate m then
            .ok (.applied, ((s.add u.after r u.tentative).remove u.before r u.tentative).trackDelete u.before r)
          else .error (.splitRequired u)
        | some e =>
          if uq && e.holdsOther r then .error (.uniqueness m.name u.after r)
          else .ok (.applied, ((s.add u.after r u.tentative).remove u.before r u.tentative).trackDelete u.before r) :=
  rfl

/-! ## Two states alike -/

/-- Two bucket states alike: the same entry under every key, the same status, successor and
repairs. The entries form a map from keys, so this compares the maps. -/
structure Alike (s s' : State) : Prop where
  /-- The same entry under every key. -/
  entries : ∀ k, s.entry? k = s'.entry? k
  /-- The same status. -/
  status : s.status = s'.status
  /-- The same successor. -/
  next : s.next = s'.next
  /-- The same repairs. -/
  repairs : s.repairs = s'.repairs

theorem Alike.refl (s : State) : s.Alike s := ⟨fun _ => rfl, rfl, rfl, rfl⟩

/-- The bucket after an application: the new state, or the old one when the update is refused. -/
def settle (s : State) (r : EntityRef) (u : IndexUpdate) (uq : Bool) (m : IndexMeta) : State :=
  match s.apply r u uq m with
  | .ok (_, s') => s'
  | .error _ => s

end State

/-- A second answer repeats a first: the same error, or a state alike to the first's with the
first's outcome, except that a delete on a chained index, in a bucket with a successor that no
longer holds its key, may answer `notFoundHere` where the first answered `applied`. -/
def Repeats (u : IndexUpdate) (m : IndexMeta) :
    Except Error (Outcome × State) → Except Error (Outcome × State) → Prop
  | .error e, .error e' => e' = e
  | .ok (o, s₁), .ok (o', s₂) =>
    s₂.Alike s₁ ∧ (o' = o ∨ (u.op = .delete ∧ m.chained = true ∧ s₁.next ≠ "" ∧
      s₁.entry? u.before = none ∧ o = .applied ∧ o' = .notFoundHere))
  | _, _ => False

/-! ## The second application, operation by operation -/

namespace State

variable {s s₁ : State} {r : EntityRef} {k : Key} {t uq : Bool} {m : IndexMeta} {o : Outcome}
  {u : IndexUpdate}

/-- Adding to a key whose entry is already an added entry changes nothing. -/
theorem add_alike {o' : Option Entry} (h : s.entry? k = some (Entry.added o' r t)) :
    (s.add k r t).Alike s := by
  refine ⟨fun x => ?_, rfl, rfl, rfl⟩
  rw [entry?_add, h, Entry.added_added]
  by_cases hx : x = k
  · rw [if_pos hx, hx, h]
  · rw [if_neg hx]

/-- A delete already recorded is not recorded again. -/
theorem trackDelete_of_tracked (h : s.status = .available ∨ ⟨k, r⟩ ∈ s.repairs) :
    s.trackDelete k r = s := by
  unfold trackDelete
  rcases h with h | h <;> simp [h]

theorem tracked_trackDelete (s : State) (k : Key) (r : EntityRef) :
    (s.trackDelete k r).status = .available ∨ ⟨k, r⟩ ∈ (s.trackDelete k r).repairs := by
  unfold trackDelete
  by_cases hs : s.status = .available
  · simp [hs]
  · by_cases hm : (⟨k, r⟩ : Repair) ∈ s.repairs <;> simp [hs, hm]

/-- What is under `k` refuses no insert that was accepted there. -/
theorem insert_free (h : s.insert r k t uq m = .ok (o, s₁)) :
    (uq && ((s.entry? k).getD { values := [] }).holdsOther r) = false := by
  cases he : s.entry? k with
  | none => simp [Entry.holdsOther]
  | some e =>
    rw [insert_of_entry he] at h
    split at h
    · cases h
    · rename_i ho
      simpa using ho

/-- An insert accepted once is accepted again, with its outcome, and changes nothing more. -/
theorem insert_again (h : s.insert r k t uq m = .ok (o, s₁)) :
    ∃ s₂, s₁.insert r k t uq m = .ok (o, s₂) ∧ s₂.Alike s₁ := by
  have hfree := insert_free h
  rcases insert_result h with ⟨-, rfl, -, -⟩ | ⟨rfl, rfl, -⟩
  · exact ⟨_, h, Alike.refl _⟩
  · -- the key now holds an added entry, which the entity joins again
    have he : State.entry? (s.add k r t) k = some (Entry.added (s.entry? k) r t) := by
      simp [entry?_add]
    refine ⟨_, ?_, add_alike he⟩
    rw [insert_of_entry he, Entry.holdsOther_added, hfree]
    rfl

/-- A delete applied twice leaves what it left once. The second answer is the first, unless the
first took the key's last entity out of a bucket with a successor on a chained index. -/
theorem delete_again (h : s.delete r k t m = .ok (o, s₁)) :
    ∃ o' s₂, s₁.delete r k t m = .ok (o', s₂) ∧ s₂.Alike s₁ ∧
      (o' = o ∨ (m.chained = true ∧ s₁.next ≠ "" ∧ s₁.entry? k = none ∧ o = .applied ∧
        o' = .notFoundHere)) := by
  rcases delete_result h with ⟨-, rfl, -, -⟩ | ⟨rfl, rfl⟩
  · exact ⟨o, _, h, Alike.refl _, .inl rfl⟩
  · by_cases hp : State.entry? ((s.remove k r t).trackDelete k r) k = none ∧ m.chained = true ∧
        ((s.remove k r t).trackDelete k r).next ≠ ""
    · -- the key's last entity is gone, so the key now belongs further down the chain
      obtain ⟨he, hc, hn⟩ := hp
      exact ⟨_, _, delete_of_passed he hc hn, Alike.refl _, .inr ⟨hc, hn, he, rfl, rfl⟩⟩
    · have hown : (State.entry? ((s.remove k r t).trackDelete k r) k).isSome ∨ m.chained = false ∨
          ((s.remove k r t).trackDelete k r).next = "" := by
        cases he : State.entry? ((s.remove k r t).trackDelete k r) k <;> cases hc : m.chained <;>
          simp_all
      refine ⟨_, _, delete_of_owned hown, ?_, .inl rfl⟩
      rw [trackDelete_of_tracked (by simpa using tracked_trackDelete (s.remove k r t) k r)]
      refine ⟨fun x => ?_, by simp, by simp, by simp⟩
      by_cases hx : x = k <;> simp [entry?_remove, hx]

/-- A change that finds the entity under its before-image moves it. -/
theorem change_of_holds (hh : s.holds u.before r = true) (h : s.change r u uq m = .ok (o, s₁)) :
    o = .applied ∧
      s₁ = ((s.add u.after r u.tentative).remove u.before r u.tentative).trackDelete u.before r ∧
      (uq && ((s.entry? u.after).getD { values := [] }).holdsOther r) = false := by
  rw [change_eq, hh] at h
  simp only [Bool.not_true, Bool.false_eq_true, ↓reduceIte] at h
  cases ha : s.entry? u.after with
  | none =>
    simp only [ha] at h
    by_cases hc : s.canCreate m = true
    · simp only [hc, ↓reduceIte, Except.ok.injEq, Prod.mk.injEq] at h
      obtain ⟨rfl, rfl⟩ := h
      exact ⟨rfl, rfl, by simp [Entry.holdsOther]⟩
    · simp [hc] at h
  | some e =>
    simp only [ha] at h
    by_cases ho : (uq && e.holdsOther r) = true
    · simp [ho] at h
    · simp only [ho, Bool.false_eq_true, ↓reduceIte, Except.ok.injEq, Prod.mk.injEq] at h
      obtain ⟨rfl, rfl⟩ := h
      exact ⟨rfl, rfl, by simpa using ho⟩

/-- A change that finds the entity under its before-image, and the after-image free for it,
moves it. -/
theorem change_of_entry {e : Entry} (hh : s.holds u.before r = true) (ha : s.entry? u.after = some e)
    (ho : (uq && e.holdsOther r) = false) :
    s.change r u uq m =
      .ok (.applied, ((s.add u.after r u.tentative).remove u.before r u.tentative).trackDelete u.before r) := by
  rw [change_eq, hh]
  simp [ha, ho]

/-- A change between two different keys applied twice leaves what it left once, with the same
answer: a move leaves the entity under the after-image, where the replay finds it again. -/
theorem change_again (hba : u.before ≠ u.after) (h : s.change r u uq m = .ok (o, s₁)) :
    ∃ s₂, s₁.change r u uq m = .ok (o, s₂) ∧ s₂.Alike s₁ := by
  cases hh : s.holds u.before r with
  | false =>
    -- an insert of the after-image leaves the before-image alone, so the replay inserts again
    rw [change_eq, hh] at h
    have hh₁ : s₁.holds u.before r = false := by
      rw [holds, insert_entry?_of_ne h hba]
      exact hh
    obtain ⟨s₂, h₂, hA⟩ := insert_again h
    exact ⟨s₂, by rw [change_eq, hh₁]; exact h₂, hA⟩
  | true =>
    obtain ⟨rfl, rfl, hfree⟩ := change_of_holds hh h
    have ha₁ : State.entry? (((s.add u.after r u.tentative).remove u.before r u.tentative).trackDelete
        u.before r) u.after = some (Entry.added (s.entry? u.after) r u.tentative) := by
      simp [entry?_remove, entry?_add, Ne.symm hba]
    have hfree₁ : (uq && (Entry.added (s.entry? u.after) r u.tentative).holdsOther r) = false := by
      rw [Entry.holdsOther_added]
      exact hfree
    by_cases ht : u.tentative = true
    · -- a tentative move only marks the before-image, so the replay moves again
      have hh₁ : State.holds (((s.add u.after r u.tentative).remove u.before r u.tentative).trackDelete
          u.before r) u.before r = true := by
        cases hb : s.entry? u.before with
        | none => simp [holds, hb] at hh
        | some e =>
          have hc : e.contains r = true := by simpa [holds, hb] using hh
          simp [holds, entry?_remove, entry?_add, hba, hb, ht, Entry.removed_tentative hc,
            Entry.contains, show r ∈ e.values by simpa [Entry.contains] using hc]
      refine ⟨_, change_of_entry hh₁ ha₁ hfree₁, ?_⟩
      rw [trackDelete_of_tracked (by
        simpa [status_add] using
          tracked_trackDelete ((s.add u.after r u.tentative).remove u.before r u.tentative) u.before r)]
      refine ⟨fun x => ?_, by simp [status_add], by simp, by simp⟩
      by_cases hxb : x = u.before
      · simp [entry?_remove, entry?_add, hxb, hba]
      · by_cases hxa : x = u.after <;> simp [entry?_remove, entry?_add, hxb, hxa, Ne.symm hba]
    · -- a settled move takes the entity off the before-image, so the replay inserts again
      have ht' : u.tentative = false := by simpa using ht
      have hh₁ : State.holds (((s.add u.after r u.tentative).remove u.before r u.tentative).trackDelete
          u.before r) u.before r = false := by
        unfold holds
        rw [entry?_trackDelete, entry?_remove, if_pos rfl, entry?_add_of_ne _ _ _ hba, ht']
        cases hrm : Entry.removed (s.entry? u.before) r false with
        | none => rfl
        | some e => exact Entry.removed_not_contains hrm
      refine ⟨_, ?_, add_alike ha₁⟩
      rw [change_eq, hh₁]
      simp only [Bool.not_false, ↓reduceIte]
      rw [insert_of_entry ha₁, hfree₁]
      rfl

/-- A settled change between two equal keys flips whether the bucket holds the entity there. An
entity it does not find is inserted; one it finds is added to the after-image and then taken off
the before-image, which is the same key. -/
theorem change_same_key_flips (hba : u.before = u.after) (ht : u.tentative = false)
    (h : s.change r u uq m = .ok (.applied, s₁)) :
    s₁.holds u.after r = !s.holds u.after r := by
  cases hh : s.holds u.before r with
  | false =>
    -- not under the before-image: the change inserts the after-image
    rw [change_eq, hh] at h
    rcases insert_result h with ⟨ho, -⟩ | ⟨-, rfl, -⟩
    · cases ho
    · rw [← hba, hh]
      simp [holds, entry?_add]
  | true =>
    obtain ⟨-, rfl, -⟩ := change_of_holds hh h
    rw [← hba, hh, ht]
    unfold holds
    rw [entry?_trackDelete, entry?_remove, if_pos rfl]
    cases hrm : Entry.removed (State.entry? (s.add u.before r false) u.before) r false with
    | none => rfl
    | some e => exact Entry.removed_not_contains hrm

/-- An update that a bucket accepts passes the check for tentative updates. -/
theorem apply_ok_settledOrUnique (h : s.apply r u uq m = .ok (o, s₁)) (hop : u.op ≠ .none) :
    (u.tentative && !uq) = false := by
  cases ht : (u.tentative && !uq) with
  | false => rfl
  | true =>
    rw [apply_of_tentative ht hop] at h
    cases h

end State

/-- The reverse of an update between two different keys is one too. -/
theorem IndexUpdate.reverse_moves {u : IndexUpdate} (hu : u.op = .update → u.before ≠ u.after) :
    u.reverse.op = .update → u.reverse.before ≠ u.reverse.after := by
  intro hop
  have hop' : u.op = .update := by
    cases h : u.op <;> simp_all [IndexUpdate.reverse]
  exact Ne.symm (hu hop')

/-! ## Replays -/

section Replay

variable {s : State} {r : EntityRef} {u : IndexUpdate} {uq : Bool} {m : IndexMeta}

/-- Applying an update to the bucket its first application left repeats that application. -/
theorem apply_again (hu : u.op = .update → u.before ≠ u.after) :
    Repeats u m (s.apply r u uq m) ((s.settle r u uq m).apply r u uq m) := by
  cases h : s.apply r u uq m with
  | error e =>
    -- a refusal leaves the bucket as it was, and the replay meets the same refusal
    have hs : s.settle r u uq m = s := by simp [State.settle, h]
    rw [hs, h]
    rfl
  | ok p =>
    obtain ⟨o, s₁⟩ := p
    have hs : s.settle r u uq m = s₁ := by simp [State.settle, h]
    rw [hs]
    rcases State.apply_cases h with ⟨-, rfl, rfl⟩ | ⟨hop, hi⟩ | ⟨hop, hd⟩ | ⟨hop, hc⟩
    · rw [h]
      exact ⟨State.Alike.refl _, .inl rfl⟩
    · have ht := State.apply_ok_settledOrUnique h (by simp [hop])
      obtain ⟨s₂, h₂, hA⟩ := State.insert_again hi
      rw [State.apply_of_insert hop ht, h₂]
      exact ⟨hA, .inl rfl⟩
    · have ht := State.apply_ok_settledOrUnique h (by simp [hop])
      obtain ⟨o', s₂, h₂, hA, ho⟩ := State.delete_again hd
      rw [State.apply_of_delete hop ht, h₂]
      exact ⟨hA, ho.imp_right fun h' => ⟨hop, h'⟩⟩
    · have ht := State.apply_ok_settledOrUnique h (by simp [hop])
      obtain ⟨s₂, h₂, hA⟩ := State.change_again (hu hop) hc
      rw [State.apply_of_update hop ht, h₂]
      exact ⟨hA, .inl rfl⟩

/-- Replaying an update, or its reverse, right after it was applied repeats the application: a
refused update is refused again with the same error, an applied one is applied again and leaves
a bucket alike to the one it left (entries key by key, status, successor, repairs), with the same
answer except for a delete on a chained index that emptied its key in a bucket with a successor.
This holds for every update but one between two equal keys. -/
theorem replay_repeats_update (s : State) (r : EntityRef) (u : IndexUpdate) (uq : Bool)
    (m : IndexMeta) (hu : u.op = .update → u.before ≠ u.after) :
    Repeats u m (s.apply r u uq m) ((s.settle r u uq m).apply r u uq m) ∧
      Repeats u.reverse m (s.apply r u.reverse uq m) ((s.settle r u.reverse uq m).apply r u.reverse uq m) :=
  ⟨apply_again hu, apply_again (IndexUpdate.reverse_moves hu)⟩

/-- A bucket where `a` alone holds `s:x`. -/
def holdsX : State := { entries := [(⟨"s:x"⟩, ⟨[⟨"player", "a"⟩], .none⟩)] }

/-- The move of an entity from `s:x` to `s:y`. -/
def moveXY : IndexUpdate := IndexUpdate.plain (diff ⟨"s:x"⟩ ⟨"s:y"⟩)

theorem replayed_move_repeats :
    (moveXY.op = .update → moveXY.before ≠ moveXY.after) ∧
      Repeats moveXY { name := "email" } (holdsX.apply ⟨"player", "a"⟩ moveXY true { name := "email" })
        ((holdsX.settle ⟨"player", "a"⟩ moveXY true { name := "email" }).apply ⟨"player", "a"⟩ moveXY
          true { name := "email" }) ∧
      Repeats moveXY.reverse { name := "email" }
        (holdsX.apply ⟨"player", "a"⟩ moveXY.reverse true { name := "email" })
        ((holdsX.settle ⟨"player", "a"⟩ moveXY.reverse true { name := "email" }).apply ⟨"player", "a"⟩
          moveXY.reverse true { name := "email" }) :=
  ⟨by decide, replay_repeats_update holdsX ⟨"player", "a"⟩ moveXY true { name := "email" } (by decide)⟩

/-- A settled update of an entity from `s:y` to `s:y`. -/
def stayY : IndexUpdate := ⟨.update, ⟨"s:y"⟩, ⟨"s:y"⟩, false, .plain⟩

/-- An update between two equal keys, applied to an empty bucket and then replayed: the first
application puts `a` under `s:y`, the replay takes it off again and leaves the bucket empty. -/
theorem replayed_same_key_update_drops_key :
    State.apply {} ⟨"player", "a"⟩ stayY false { name := "email" } =
        .ok (.applied, { entries := [(⟨"s:y"⟩, ⟨[⟨"player", "a"⟩], .none⟩)] }) ∧
      State.apply { entries := [(⟨"s:y"⟩, ⟨[⟨"player", "a"⟩], .none⟩)] } ⟨"player", "a"⟩ stayY false
        { name := "email" } = .ok (.applied, {}) :=
  ⟨rfl, rfl⟩

/-- The last entity of `s:x` deleted from a bucket of a chained index that has a successor: the
first delete answers `applied`, its replay `notFoundHere`. -/
theorem replayed_delete_passes_key_on :
    State.apply { holdsX with next := "bucket/email/0/next" } ⟨"player", "a"⟩ (deleteOf ⟨"s:x"⟩) false
        { name := "email", maxEntries := 1 } = .ok (.applied, { next := "bucket/email/0/next" }) ∧
      State.apply { next := "bucket/email/0/next" } ⟨"player", "a"⟩ (deleteOf ⟨"s:x"⟩) false
        { name := "email", maxEntries := 1 } = .ok (.notFoundHere, { next := "bucket/email/0/next" }) :=
  ⟨rfl, rfl⟩

end Replay

end EntityIndex.Bucket
