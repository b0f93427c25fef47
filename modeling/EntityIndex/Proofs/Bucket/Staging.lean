import EntityIndex.Proofs.Bucket.Replay

/-!
# Tentative staging on one unique bucket

A write that changes several unique indexes stages each change: it applies the update in
tentative form, which marks the entries it touches so that readers see neither key, and later
settles it with the final form, or undoes it with the reverse when the write fails. On a bucket
of an unchained unique index that agrees with the writer's before-image (`ImageOf`), staging
keeps both promises (`staging_confirms_or_undoes`). A staged update hides its keys; its final
form then leaves what the plain update leaves; its reverse gives the bucket back. A staging that
is refused for uniqueness is undone by its reverse as well.

Undoing needs one thing more: the entry under the after-image, if there is one, must not be
empty. The bucket itself never keeps an empty entry, since removing the last entity drops the
key. A state that holds one anyway loses it to the reverse, which drops the key it re-empties.
-/

namespace EntityIndex

theorem Key.isNull_iff {k : Key} : k.isNull = true ↔ k = Key.null := by
  cases k
  simp [Key.isNull, Key.null, String.isEmpty_iff]

/-- The change between two different images keeps both: it is an insert from the null key, a
delete to the null key, or an update between two keys. -/
theorem diff_of_ne {b a : Key} (h : b ≠ a) :
    (b = Key.null ∧ diff b a = ⟨.insert, b, a⟩) ∨ (a = Key.null ∧ diff b a = ⟨.delete, b, a⟩) ∨
      (b ≠ Key.null ∧ a ≠ Key.null ∧ diff b a = ⟨.update, b, a⟩) := by
  by_cases hb : b = Key.null
  · have ha : a ≠ Key.null := fun h' => h (hb.trans h'.symm)
    refine .inl ⟨hb, ?_⟩
    simp [diff, Key.isNull_iff, hb, ha]
  · by_cases ha : a = Key.null
    · refine .inr (.inl ⟨ha, ?_⟩)
      simp [diff, Key.isNull_iff, hb, ha]
    · refine .inr (.inr ⟨hb, ha, ?_⟩)
      simp [diff, Key.isNull_iff, hb, ha, h]

end EntityIndex

namespace EntityIndex.Bucket

/-! ## Entries of one entity -/

namespace Entry

variable {E : Entry} {e : EntityRef} {t : Bool}

/-- An entry whose only entity is `e`, possibly more than once. -/
def Sole (E : Entry) (e : EntityRef) : Prop := E.values ≠ [] ∧ ∀ v ∈ E.values, v = e

theorem Sole.contains (h : E.Sole e) : E.contains e = true := by
  obtain ⟨hne, hall⟩ := h
  obtain ⟨v, hv⟩ := List.exists_mem_of_ne_nil _ hne
  simpa [Entry.contains, hall v hv] using hv

theorem Sole.holdsOther (h : E.Sole e) : E.holdsOther e = false := by
  simpa [Entry.holdsOther] using h.2

/-- A settled remove of the only entity empties the entry. -/
theorem Sole.removed (h : E.Sole e) : removed (some E) e false = none := by
  have hf : E.values.filter (· != e) = [] := List.filter_eq_nil_iff.2 fun v hv => by simp [h.2 v hv]
  rw [removed_settled h.contains, hf]
  rfl

theorem Sole.marked (h : E.Sole e) (m : Marker) : Sole { E with marker := m } e := h

/-- Adding the only entity of an entry again only sets the marker. -/
theorem Sole.added (h : E.Sole e) : added (some E) e t = { E with marker := if t then .insert else .none } := by
  simp [Entry.added, h.contains]

theorem sole_added_none : (added none e t).Sole e := by
  simp [Sole, Entry.added, Entry.contains]

/-- A nonempty entry without `e` holds another entity. -/
theorem holdsOther_of_not_contains (hne : E.values ≠ []) (hc : E.contains e = false) :
    E.holdsOther e = true := by
  obtain ⟨v, hv⟩ := List.exists_mem_of_ne_nil _ hne
  have hve : v ≠ e := fun h' => by simp [Entry.contains, ← h', hv] at hc
  simpa [Entry.holdsOther] using ⟨v, hv, hve⟩

end Entry

/-- Readers see nothing under a key whose entry carries a marker. -/
theorem State.lookup_values_of_marker {s : State} {k : Key} {E : Entry} (he : s.entry? k = some E)
    (hm : E.marker ≠ .none) : (s.lookup k).values = [] := by
  simp [State.lookup, he, Entry.visible, hm]

/-! ## The promise of staging -/

/-- A bucket that agrees with `b` as the image of entity `e`: when `b` is a key, `e` is the only
entity under it, settled; and `e` is under no other key. -/
structure ImageOf (s : State) (e : EntityRef) (b : Key) : Prop where
  /-- Under a key `b`, `e` alone and settled. -/
  held : b ≠ Key.null → ∃ E, s.entry? b = some E ∧ E.marker = .none ∧ E.Sole e
  /-- Nowhere else. -/
  only : ∀ k E, k ≠ b → s.entry? k = some E → E.contains e = false

/-- What staging `u` on a unique bucket promises. Staged, it hides both keys of `u`, its final
form leaves what `u` itself leaves, and its reverse gives the bucket back; refused for
uniqueness, its reverse gives the bucket back too. -/
def Stages (s : State) (e : EntityRef) (u : IndexUpdate) (m : IndexMeta) : Prop :=
  (∀ o s₁, s.apply e u.asTentative true m = .ok (o, s₁) →
    (u.before ≠ Key.null → (s₁.lookup u.before).values = []) ∧
    (u.after ≠ Key.null → (s₁.lookup u.after).values = []) ∧
    (∃ o' s₂ s₃, s₁.apply e u.asTentative.asFinal true m = .ok (o', s₂) ∧
      s.apply e u true m = .ok (o', s₃) ∧ s₂.Alike s₃) ∧
    ∃ o' s₂, s₁.apply e u.asTentative.reverse true m = .ok (o', s₂) ∧ s₂.Alike s) ∧
  (∀ n k r, s.apply e u.asTentative true m = .error (.uniqueness n k r) →
    ∃ o' s₂, s.apply e u.asTentative.reverse true m = .ok (o', s₂) ∧ s₂.Alike s)

section Staging

variable {s : State} {e : EntityRef} {b a : Key} {m : IndexMeta}

/-- A tentative insert of a key the bucket does not hold for another entity is confirmed or undone
exactly. -/
theorem stages_insert (hm : m.chained = false) (hs : s.status = .available) (hb : b = Key.null)
    (hab : b ≠ a) (himg : ImageOf s e b) (hne : ∀ E, s.entry? a = some E → E.values ≠ []) :
    Stages s e ⟨.insert, b, a, false, .plain⟩ m := by
  have hrev : ∀ s₁ : State, s₁.status = .available →
      s₁.apply e (IndexUpdate.asTentative ⟨.insert, b, a, false, .plain⟩).reverse true m =
        .ok (.applied, s₁.remove a e false) := fun s₁ hs₁ => by
    rw [State.apply_of_delete rfl rfl, State.delete_of_owned (.inr (.inl hm)),
      State.trackDelete_of_available (by simpa using hs₁)]
    rfl
  have hfwd : s.apply e (IndexUpdate.asTentative ⟨.insert, b, a, false, .plain⟩) true m =
      s.insert e a true true m := State.apply_of_insert rfl rfl
  have hfin : ∀ s₁ : State, s₁.apply e (IndexUpdate.asTentative ⟨.insert, b, a, false, .plain⟩).asFinal
      true m = s₁.insert e a false true m := fun s₁ => State.apply_of_insert rfl rfl
  have hplain : s.apply e ⟨.insert, b, a, false, .plain⟩ true m = s.insert e a false true m :=
    State.apply_of_insert rfl rfl
  cases ha : s.entry? a with
  | none =>
    refine ⟨fun o s₁ h => ?_, fun n k r h => ?_⟩
    · rw [hfwd] at h
      cases hc : s.canCreate m with
      | false =>
        -- passed on: nothing staged, and both forms pass on again
        rw [State.insert_of_full ha hc] at h
        cases h
        refine ⟨fun h' => absurd hb h', fun _ => by simp [State.lookup, ha], ⟨_, _, _,
          by rw [hfin, State.insert_of_full ha hc], by rw [hplain, State.insert_of_full ha hc],
          State.Alike.refl _⟩, _, _, hrev s hs, ?_⟩
        rw [State.remove_of_not_holds (by simp [ha])]
        exact State.Alike.refl _
      | true =>
        rw [State.insert_of_canCreate ha hc] at h
        cases h
        have ha₁ : State.entry? (s.add a e true) a = some (Entry.added none e true) := by
          simp [State.entry?_add, ha]
        refine ⟨fun h' => absurd hb h', fun _ => State.lookup_values_of_marker ha₁ (by simp), ⟨_, _, _,
          by rw [hfin, State.insert_of_entry ha₁, Entry.sole_added_none.holdsOther]; rfl,
          by rw [hplain, State.insert_of_canCreate ha hc], ?_⟩, _, _, hrev _ hs, ?_⟩
        · refine ⟨fun x => ?_, rfl, rfl, rfl⟩
          by_cases hx : x = a <;> simp [State.entry?_add, hx, ha]
        · refine ⟨fun x => ?_, by simp [State.status_add], by simp, by simp⟩
          by_cases hx : x = a
          · simp [State.entry?_remove, State.entry?_add, hx, ha, Entry.sole_added_none.removed]
          · simp [State.entry?_remove, State.entry?_add, hx]
    · rw [hfwd, State.insert_of_canCreate ha] at h
      · cases h
      · cases hc : s.canCreate m
        · rw [State.insert_of_full ha hc] at h
          cases h
        · rfl
  | some E =>
    -- another entity holds the after-image: refused, and the reverse finds nothing to undo
    have hc : E.contains e = false := himg.only a E (Ne.symm hab) ha
    have hrefused : s.insert e a true true m = .error (.uniqueness m.name a e) := by
      rw [State.insert_of_entry ha, Entry.holdsOther_of_not_contains (hne E ha) hc]
      rfl
    refine ⟨fun o s₁ h => ?_, fun n k r _ => ⟨_, _, hrev s hs, ?_⟩⟩
    · rw [hfwd, hrefused] at h
      cases h
    · rw [State.remove_of_not_holds (by simp [ha, hc])]
      exact State.Alike.refl _

/-- A tentative delete of the writer's own settled key is confirmed or undone exactly. -/
theorem stages_delete (hm : m.chained = false) (hs : s.status = .available) (hb : b ≠ Key.null)
    (ha : a = Key.null) (himg : ImageOf s e b) : Stages s e ⟨.delete, b, a, false, .plain⟩ m := by
  obtain ⟨E, hE, hmk, hsole⟩ := himg.held hb
  have hdel : ∀ (s₁ : State) (t : Bool) (w : Wrapper), s₁.status = .available →
      s₁.apply e ⟨.delete, b, a, t, w⟩ true m = .ok (.applied, s₁.remove b e t) := fun s₁ t w hs₁ => by
    rw [State.apply_of_delete rfl (by cases t <;> rfl), State.delete_of_owned (.inr (.inl hm)),
      State.trackDelete_of_available (by simpa using hs₁)]
  -- the staged state marks the key as a tentative delete
  have hb₁ : State.entry? (s.remove b e true) b = some { E with marker := .delete } := by
    simp [State.entry?_remove, hE, Entry.removed_tentative hsole.contains]
  refine ⟨fun o s₁ h => ?_, fun n k r h => ?_⟩
  · rw [show IndexUpdate.asTentative ⟨.delete, b, a, false, .plain⟩ = ⟨.delete, b, a, true, .tentative⟩
      from rfl, hdel s true _ hs] at h
    cases h
    -- the reverse inserts the entity again under its own key, which settles it
    have hrev : (s.remove b e true).apply e ⟨.insert, a, b, false, .reverseTentative⟩ true m =
        .ok (.applied, (s.remove b e true).add b e false) := by
      rw [State.apply_of_insert rfl rfl, State.insert_of_entry hb₁, (hsole.marked .delete).holdsOther]
      rfl
    refine ⟨fun _ => State.lookup_values_of_marker hb₁ (by simp), fun h' => absurd ha h', ⟨_, _, _,
      hdel _ false _ (by simpa using hs), hdel s false _ hs, ?_⟩, _, _, hrev, ?_⟩
    · refine ⟨fun x => ?_, by simp, by simp, by simp⟩
      by_cases hx : x = b
      · simp [State.entry?_remove, hx, hE, Entry.removed_tentative hsole.contains,
          (hsole.marked .delete).removed, hsole.removed]
      · simp [State.entry?_remove, hx]
    · refine ⟨fun x => ?_, by simp [State.status_add], by simp, by simp⟩
      by_cases hx : x = b
      · subst hx
        rw [State.entry?_add, if_pos rfl, hb₁, (hsole.marked .delete).added, hE]
        simp [← hmk]
      · simp [State.entry?_add, State.entry?_remove, hx]
  · rw [show IndexUpdate.asTentative ⟨.delete, b, a, false, .plain⟩ = ⟨.delete, b, a, true, .tentative⟩
      from rfl, hdel s true _ hs] at h
    cases h

/-- A move staged from the writer's settled key `b` to a free key `a`, then made final, leaves
the entries, status, link and repairs of the plain move. -/
theorem staged_move_final_alike (hs : s.status = .available) (hab : b ≠ a) {E : Entry}
    (hE : s.entry? b = some E) (hsole : E.Sole e) (ha : s.entry? a = none) :
    ((((s.add a e true).remove b e true).add a e false).remove b e false |>.trackDelete b e).Alike
      (((s.add a e false).remove b e false).trackDelete b e) := by
  refine ⟨fun x => ?_, by simp [State.status_add], by simp, ?_⟩
  · by_cases hxb : x = b
    · simp [State.entry?_remove, State.entry?_add, hxb, hab, hE, hsole.removed,
        (hsole.marked .delete).removed, Entry.removed_tentative hsole.contains]
    · by_cases hxa : x = a <;>
        simp [State.entry?_remove, State.entry?_add, hxb, hxa, ha, Ne.symm hab]
  · simp [State.repairs_trackDelete, hs, State.status_add]

/-- The reverse of a move staged from the writer's settled key `b` to a free key `a` gives the
bucket back. -/
theorem staged_move_reverse_alike (hs : s.status = .available) (hab : b ≠ a) {E : Entry}
    (hE : s.entry? b = some E) (hmk : E.marker = .none) (hsole : E.Sole e)
    (ha : s.entry? a = none)
    (hb₁ : State.entry? ((s.add a e true).remove b e true) b = some { E with marker := .delete }) :
    ((((s.add a e true).remove b e true).add b e false).remove a e false |>.trackDelete a e).Alike
      s := by
  refine ⟨fun x => ?_, by simp [State.status_add], by simp, ?_⟩
  · by_cases hxb : x = b
    · subst hxb
      simp only [State.entry?_trackDelete, State.entry?_remove, State.entry?_add,
        if_neg hab, hb₁, (hsole.marked .delete).added, hE]
      simp [← hmk]
    · by_cases hxa : x = a
      · simp [State.entry?_remove, State.entry?_add, hxa, ha, Ne.symm hab,
          Entry.sole_added_none.removed]
      · simp [State.entry?_remove, State.entry?_add, hxb, hxa]
  · simp [State.repairs_trackDelete, hs, State.status_add]

/-- The writer holds its before-image. -/
theorem ImageOf.holds (himg : ImageOf s e b) (hb : b ≠ Key.null) : s.holds b e = true := by
  obtain ⟨E, hE, -, hsole⟩ := himg.held hb
  simp [State.holds, hE, hsole.contains]

/-- A move taken tentatively is the change of its tentative form. -/
theorem apply_tentative_move :
    s.apply e (IndexUpdate.asTentative ⟨.update, b, a, false, .plain⟩) true m =
      s.change e ⟨.update, b, a, true, .tentative⟩ true m :=
  State.apply_of_update rfl rfl

/-- A bucket that takes no new key asks for a move to a free key to be split: it is neither
staged nor refused for uniqueness. -/
theorem stages_update_of_full (hb : b ≠ Key.null) (himg : ImageOf s e b)
    (ha : s.entry? a = none) (hc : s.canCreate m = false) :
    Stages s e ⟨.update, b, a, false, .plain⟩ m := by
  have hsplit : s.change e ⟨.update, b, a, true, .tentative⟩ true m =
      .error (.splitRequired ⟨.update, b, a, true, .tentative⟩) := by
    rw [State.change_eq, himg.holds hb]
    simp [ha, hc]
  refine ⟨fun o s₁ h => ?_, fun n k r h => ?_⟩ <;> rw [apply_tentative_move, hsplit] at h <;> cases h

/-- A move of the writer from its settled key to a free key, on a bucket that takes new keys, is
staged as a tentative insert and a tentative delete, hiding both keys; made final it leaves what
the plain move leaves, and its reverse gives the bucket back. -/
theorem stages_update_of_free (hs : s.status = .available) (hb : b ≠ Key.null) (hab : b ≠ a)
    (himg : ImageOf s e b) (ha : s.entry? a = none) (hc : s.canCreate m = true) :
    Stages s e ⟨.update, b, a, false, .plain⟩ m := by
  obtain ⟨E, hE, hmk, hsole⟩ := himg.held hb
  have hh := himg.holds hb
  -- the staged state: a tentative insert under `a`, a tentative delete under `b`
  have hmove : s.change e ⟨.update, b, a, true, .tentative⟩ true m =
      .ok (.applied, (s.add a e true).remove b e true) := by
    rw [State.change_eq, hh]
    simp [ha, hc, State.trackDelete_of_available (show ((s.add a e true).remove b e true).status =
      .available by simpa [State.status_add] using hs)]
  have ha₁ : State.entry? ((s.add a e true).remove b e true) a = some (Entry.added none e true) := by
    simp [State.entry?_remove, State.entry?_add, Ne.symm hab, ha]
  have hb₁ : State.entry? ((s.add a e true).remove b e true) b = some { E with marker := .delete } := by
    simp [State.entry?_remove, State.entry?_add, hab, hE, Entry.removed_tentative hsole.contains]
  -- its final form settles `a` and drops `b`, as the plain move does from the start
  have hfin : ((s.add a e true).remove b e true).apply e ⟨.update, b, a, false, .plain⟩ true m =
      .ok (.applied, ((((s.add a e true).remove b e true).add a e false).remove b e
        false).trackDelete b e) := by
    rw [State.apply_of_update rfl rfl]
    exact State.change_of_entry (by simp [State.holds, hb₁, (hsole.marked .delete).contains]) ha₁
      (by simp [Entry.sole_added_none.holdsOther])
  have hplain : s.apply e ⟨.update, b, a, false, .plain⟩ true m =
      .ok (.applied, (((s.add a e false).remove b e false).trackDelete b e)) := by
    rw [State.apply_of_update rfl rfl, State.change_eq, hh]
    simp [ha, hc]
  -- its reverse settles `b` and drops `a`
  have hrev : ((s.add a e true).remove b e true).apply e ⟨.update, a, b, false, .reverseTentative⟩
      true m = .ok (.applied, ((((s.add a e true).remove b e true).add b e false).remove a e
        false).trackDelete a e) := by
    rw [State.apply_of_update rfl rfl]
    exact State.change_of_entry (by simp [State.holds, ha₁, Entry.sole_added_none.contains]) hb₁
      (by simp [(hsole.marked .delete).holdsOther])
  refine ⟨fun o s₁ h => ?_, fun n k r h => ?_⟩
  · rw [apply_tentative_move, hmove] at h
    cases h
    exact ⟨fun _ => State.lookup_values_of_marker hb₁ (by simp),
      fun _ => State.lookup_values_of_marker ha₁ (by simp),
      ⟨_, _, _, hfin, hplain, staged_move_final_alike hs hab hE hsole ha⟩, _, _, hrev,
      staged_move_reverse_alike hs hab hE hmk hsole ha hb₁⟩
  · rw [apply_tentative_move, hmove] at h
    cases h

/-- A move to a key another entity holds is refused, and its reverse settles the writer's key as
it was. -/
theorem stages_update_of_held (hb : b ≠ Key.null) (hab : b ≠ a) (himg : ImageOf s e b)
    (hne : ∀ E, s.entry? a = some E → E.values ≠ []) {A : Entry} (ha : s.entry? a = some A) :
    Stages s e ⟨.update, b, a, false, .plain⟩ m := by
  obtain ⟨E, hE, hmk, hsole⟩ := himg.held hb
  have hc : A.contains e = false := himg.only a A (Ne.symm hab) ha
  have hrefused : s.change e ⟨.update, b, a, true, .tentative⟩ true m =
      .error (.uniqueness m.name a e) := by
    rw [State.change_eq, himg.holds hb]
    simp [ha, Entry.holdsOther_of_not_contains (hne A ha) hc]
  -- the reverse finds the entity away from `a` and inserts it under `b`, which it holds already
  have hrev : s.apply e ⟨.update, a, b, false, .reverseTentative⟩ true m = .ok (.applied, s.add b e false) := by
    rw [State.apply_of_update rfl rfl, State.change_eq]
    simp only [show s.holds a e = false by simp [State.holds, ha, hc], Bool.not_false, ↓reduceIte]
    rw [State.insert_of_entry hE, hsole.holdsOther]
    rfl
  refine ⟨fun o s₁ h => ?_, fun n k r _ => ⟨_, _, hrev, ?_⟩⟩
  · rw [apply_tentative_move, hrefused] at h
    cases h
  · refine ⟨fun x => ?_, rfl, rfl, rfl⟩
    by_cases hxb : x = b
    · subst hxb
      rw [State.entry?_add, if_pos rfl, hE, hsole.added]
      simp [← hmk]
    · simp [State.entry?_add, hxb]

/-- A tentative move of the writer from its own settled key to a key no other entity holds is
confirmed or undone exactly; a move to a key another entity holds is refused and undone. -/
theorem stages_update (hs : s.status = .available) (hb : b ≠ Key.null)
    (hab : b ≠ a) (himg : ImageOf s e b) (hne : ∀ E, s.entry? a = some E → E.values ≠ []) :
    Stages s e ⟨.update, b, a, false, .plain⟩ m := by
  -- the after-image decides: free on a bucket that takes new keys or not, or held by another
  cases ha : s.entry? a with
  | none =>
    cases hc : s.canCreate m with
    | false => exact stages_update_of_full hb himg ha hc
    | true => exact stages_update_of_free hs hb hab himg ha hc
  | some A => exact stages_update_of_held hb hab himg hne ha

/-- Staging a plain update between two different images of an entity on a bucket of an unchained
unique index, where the bucket agrees with the before-image and holds no empty entry under the
after-image, keeps its promise: staged, it hides both keys, its final form leaves what the plain
update leaves, and its reverse gives the bucket back; refused for uniqueness, its reverse gives
the bucket back too. -/
theorem staging_confirms_or_undoes {s : State} {e : EntityRef} {b a : Key} {m : IndexMeta}
    (hm : m.chained = false) (hs : s.status = .available) (hab : b ≠ a) (himg : ImageOf s e b)
    (hne : ∀ E, s.entry? a = some E → E.values ≠ []) :
    Stages s e (IndexUpdate.plain (diff b a)) m := by
  rcases diff_of_ne hab with ⟨hb, hd⟩ | ⟨ha, hd⟩ | ⟨hb, ha, hd⟩
  · rw [show IndexUpdate.plain (diff b a) = ⟨.insert, b, a, false, .plain⟩ by rw [IndexUpdate.plain, hd]]
    exact stages_insert hm hs hb hab himg hne
  · rw [show IndexUpdate.plain (diff b a) = ⟨.delete, b, a, false, .plain⟩ by rw [IndexUpdate.plain, hd]]
    exact stages_delete hm hs (fun h => hab (h.trans ha.symm)) ha himg
  · rw [show IndexUpdate.plain (diff b a) = ⟨.update, b, a, false, .plain⟩ by rw [IndexUpdate.plain, hd]]
    exact stages_update hs hb hab himg hne

theorem staged_move_keeps_its_promise :
    ImageOf holdsX ⟨"player", "a"⟩ ⟨"s:x"⟩ ∧ (∀ E, holdsX.entry? ⟨"s:y"⟩ = some E → E.values ≠ []) ∧
      Stages holdsX ⟨"player", "a"⟩ (IndexUpdate.plain (diff ⟨"s:x"⟩ ⟨"s:y"⟩))
        { name := "email", unique := true } := by
  have himg : ImageOf holdsX ⟨"player", "a"⟩ ⟨"s:x"⟩ :=
    ⟨fun _ => ⟨_, rfl, rfl, by simp [Entry.Sole]⟩, fun k E hk h => by simp [holdsX, State.entry?, hk] at h⟩
  have hne : ∀ E, holdsX.entry? ⟨"s:y"⟩ = some E → E.values ≠ [] := fun E h => by
    simp [holdsX, State.entry?] at h
  exact ⟨himg, hne, staging_confirms_or_undoes (by decide) rfl (by decide) himg hne⟩

/-- A bucket with an empty entry under `s:a`, which the bucket itself never leaves. -/
def emptyUnderA : State := { entries := [(⟨"s:a"⟩, ⟨[], .none⟩)] }

/-- An insert of `s:a` staged over an empty entry and then undone drops the entry. -/
theorem undone_staging_drops_empty_entry :
    emptyUnderA.apply ⟨"player", "e"⟩ (IndexUpdate.plain (diff Key.null ⟨"s:a"⟩)).asTentative true
        { name := "email", unique := true } =
      .ok (.applied, { entries := [(⟨"s:a"⟩, ⟨[⟨"player", "e"⟩], .insert⟩)] }) ∧
    State.apply { entries := [(⟨"s:a"⟩, ⟨[⟨"player", "e"⟩], .insert⟩)] } ⟨"player", "e"⟩
        (IndexUpdate.plain (diff Key.null ⟨"s:a"⟩)).asTentative.reverse true
        { name := "email", unique := true } = .ok (.applied, {}) ∧
    State.entry? {} ⟨"s:a"⟩ ≠ emptyUnderA.entry? ⟨"s:a"⟩ :=
  ⟨rfl, rfl, by decide⟩

end Staging

end EntityIndex.Bucket
