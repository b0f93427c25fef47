import EntityIndex.Proofs.Bucket.Locality

/-!
# A write's update and its reverse on one unique index

When a write violates a unique index, the coordinator applies the reverse of every update it had
applied, the refused one included. Here is why that gives every bucket of a unique index its old
entries back. The writer's images say what the index holds for it (`BeforeImage`): every key one
entity, and the writer exactly the before-image of its update, settled.

On the flat bucket, an update refused leaves the bucket as it was and its reverse changes no
entry (`BeforeImage.reverse_of_error`); an update accepted in tentative form keeps every held key
held, and its reverse gives every key its old entry (`BeforeImage.reverse_of_ok`). The same
update accepted tentatively is accepted again in its final form (`BeforeImage.final_of_ok`).

On the buckets, a call writes the entry of each key in one bucket at most (`OneBucket`), so a key
held before and after a call stays in its bucket (`Refines.holder_eq`). A key held throughout then
has its old bucket and its old entry back, and a key held neither before nor after is in no
bucket: `Ready.reverse_restores` puts this together for one index.
-/

namespace EntityIndex.Bucket

namespace State

variable {s : State} {r r' : EntityRef} {k : Key} {t : Bool} {mk : Marker}

theorem entry?_add_of_none (h : s.entry? k = none) :
    State.entry? (s.add k r t) k = some ⟨[r], if t then .insert else .none⟩ := by
  simp [State.add, h, Entry.contains]

theorem entry?_add_of_self (h : s.entry? k = some ⟨[r], mk⟩) :
    State.entry? (s.add k r t) k = some ⟨[r], if t then .insert else .none⟩ := by
  simp [State.add, h, Entry.contains]

theorem entry?_remove_of_self_tentative (h : s.entry? k = some ⟨[r], mk⟩) :
    State.entry? (s.remove k r true) k = some ⟨[r], .delete⟩ := by
  simp [State.remove, h, Entry.contains]

theorem entry?_remove_of_self (h : s.entry? k = some ⟨[r], mk⟩) :
    State.entry? (s.remove k r false) k = none := by
  simp [State.remove, h, Entry.contains]

/-- An entry that holds only `r` never makes an insert of `r` a uniqueness violation. -/
theorem holdsOther_of_entry?_self (h : s.entry? k = some ⟨[r], mk⟩) :
    ∀ e, s.entry? k = some e → e.holdsOther r = false := by
  intro e he
  rw [h] at he
  cases he
  simp [Entry.holdsOther]

end State

/-! ## The flat bucket of a unique index -/

section FlatUnique

variable {x : Index} {F : State} {r : EntityRef} {v : IndexUpdate} {k : Key} {t : Bool}

theorem flat_apply_insert (hx : x.desc.unique = true) (hop : v.op = .insert) :
    F.apply r v x.desc.unique x.flatMeta = F.insert r v.after v.tentative x.desc.unique x.flatMeta :=
  State.apply_of_insert hop (by simp [hx])

theorem flat_apply_delete (hx : x.desc.unique = true) (hs : F.status = .available)
    (hop : v.op = .delete) :
    F.apply r v x.desc.unique x.flatMeta = .ok (.applied, F.remove v.before r v.tentative) := by
  rw [State.apply_of_delete hop (by simp [hx]), State.delete_of_owned (.inr (.inl x.flatMeta_chained)),
    State.trackDelete_of_available (by rw [State.status_remove]; exact hs)]

theorem flat_apply_update (hx : x.desc.unique = true) (hn : F.next = "")
    (hs : F.status = .available) (hop : v.op = .update) (hba : v.before ≠ v.after) :
    F.apply r v x.desc.unique x.flatMeta =
      (F.insert r v.after v.tentative x.desc.unique x.flatMeta).bind fun p =>
        .ok (.applied, p.2.remove v.before r v.tentative) := by
  rw [State.apply_of_update hop (by simp [hx]),
    State.change_eq_halves (x.canCreate_flatMeta hn) hs hba]
  cases hi : F.insert r v.after v.tentative x.desc.unique x.flatMeta with
  | error e => rfl
  | ok p =>
    obtain ⟨o, F₁⟩ := p
    have hs₁ : (F₁.remove v.before r v.tentative).status = .available := by
      rw [State.status_remove, State.insert_status hi, hs]
    simp [Except.bind, State.trackDelete_of_available hs₁]

theorem flat_insert_of_free (hn : F.next = "") (hfree : ∀ e, F.entry? k = some e → e.holdsOther r = false) :
    F.insert r k t x.desc.unique x.flatMeta = .ok (.applied, F.add k r t) := by
  cases he : F.entry? k with
  | none => exact State.insert_of_canCreate he (x.canCreate_flatMeta hn)
  | some e => simp [State.insert_of_entry he, hfree e he]

theorem flat_insert_of_other (hx : x.desc.unique = true) {e : Entry} (he : F.entry? k = some e)
    (ho : e.holdsOther r = true) :
    F.insert r k t x.desc.unique x.flatMeta = .error (.uniqueness x.flatMeta.name k r) := by
  simp [State.insert_of_entry he, hx, ho]

/-- What the images of a write say of the flat bucket of a unique index: every key holds one
entity, and the writer holds the before-image of its update, settled, and no other key. The
update is one a write makes: an insert, a delete, or an update between two different keys. -/
structure BeforeImage (F : State) (r : EntityRef) (u : IndexUpdate) : Prop where
  /-- Every key holds one entity. -/
  one : ∀ k e, F.entry? k = some e → ∃ r', e.values = [r']
  /-- The writer holds no key but the before-image of a delete or an update. -/
  only : ∀ k e, F.entry? k = some e → e.contains r = true →
    k = u.before ∧ (u.op = .delete ∨ u.op = .update)
  /-- The writer holds the before-image of a delete or an update, settled. -/
  settled : u.op = .delete ∨ u.op = .update → F.entry? u.before = some ⟨[r], .none⟩
  /-- A write's update. -/
  op : u.op = .insert ∨ u.op = .delete ∨ u.op = .update
  /-- An update moves between two keys. -/
  moves : u.op = .update → u.before ≠ u.after
  /-- It is taken as it is. -/
  plain : u.tentative = false

namespace BeforeImage

variable {u : IndexUpdate} (hb : BeforeImage F r u)
include hb

/-- The after-image of an insert or an update is free, or another entity holds it. -/
theorem after_cases (hop : u.op = .insert ∨ u.op = .update) :
    F.entry? u.after = none ∨ ∃ r' mk, r' ≠ r ∧ F.entry? u.after = some ⟨[r'], mk⟩ := by
  cases he : F.entry? u.after with
  | none => exact .inl rfl
  | some e =>
    obtain ⟨vals, mk⟩ := e
    obtain ⟨r', rfl⟩ := hb.one _ _ he
    refine .inr ⟨r', mk, fun h => ?_, rfl⟩
    subst h
    -- the writer holds only the before-image, which an update moves away from
    obtain ⟨hba, hop'⟩ := hb.only _ _ he (by simp [Entry.contains])
    rcases hop with hop | hop
    · rcases hop' with hop' | hop' <;> simp [hop] at hop'
    · exact hb.moves hop hba.symm

/-- The writer holds no key but the before-image of a delete or an update. -/
theorem not_holds {k : Key} (hk : k ≠ u.before ∨ u.op = .insert) (e : Entry)
    (he : F.entry? k = some e) : e.contains r = false := by
  cases hc : e.contains r with
  | false => rfl
  | true =>
    obtain ⟨rfl, hop⟩ := hb.only k e he hc
    rcases hk with hk | hk
    · exact absurd rfl hk
    · rcases hop with hop | hop <;> simp [hk] at hop

/-- The tentative form of an update marks its free after-image as an insert and its before-image
as a delete. -/
theorem tentative_move_entries (hu : u.op = .update) (ha : F.entry? u.after = none) :
    State.entry? ((F.add u.after r true).remove u.before r true) u.after = some ⟨[r], .insert⟩ ∧
      State.entry? ((F.add u.after r true).remove u.before r true) u.before =
        some ⟨[r], .delete⟩ := by
  have hba := hb.moves hu
  constructor
  · rw [State.entry?_remove_of_ne _ _ _ (Ne.symm hba), State.entry?_add_of_none ha]
    rfl
  · exact State.entry?_remove_of_self_tentative
      (by rw [State.entry?_add_of_ne _ _ _ hba]; exact hb.settled (.inr hu))

variable (hx : x.desc.unique = true) (hn : F.next = "") (hs : F.status = .available)
include hx hn hs

/-- A write's update that the flat bucket refuses leaves it as it was, and its reverse then
changes no entry. The refused update may be the write's own or its tentative form. -/
theorem reverse_of_error {v : IndexUpdate} (hop : v.op = u.op) (hbv : v.before = u.before)
    (hav : v.after = u.after) {e : Error} (h : F.apply r v x.desc.unique x.flatMeta = .error e) :
    ∃ o F₂, F.apply r u.reverse x.desc.unique x.flatMeta = .ok (o, F₂) ∧
      ∀ k, F₂.entry? k = F.entry? k := by
  rcases hb.op with hu | hu | hu
  · -- an insert is refused where another entity holds the key; the reverse removes nothing
    have hrev : u.reverse.op = .delete := by simp [IndexUpdate.reverse, hu]
    refine ⟨_, _, flat_apply_delete hx hs hrev, fun k => ?_⟩
    rw [State.remove_of_not_holds (hb.not_holds (.inr hu))]
  · rw [flat_apply_delete hx hs (hop.trans hu)] at h
    cases h
  · -- an update is refused where another entity holds the after-image
    have hrev : u.reverse.op = .update := by simp [IndexUpdate.reverse, hu]
    have hba := hb.moves hu
    rw [flat_apply_update hx hn hs (hop.trans hu) (by rw [hbv, hav]; exact hba), hav] at h
    rcases hb.after_cases (.inr hu) with ha | ⟨r', mk, hr', ha⟩
    · rw [flat_insert_of_free hn (by simp [ha])] at h
      cases h
    · have hbb := hb.settled (.inr hu)
      have hins : F.insert r u.before false x.desc.unique x.flatMeta =
          .ok (.applied, F.add u.before r false) :=
        flat_insert_of_free hn (State.holdsOther_of_entry?_self hbb)
      rw [flat_apply_update hx hn hs hrev (Ne.symm hba)]
      simp only [IndexUpdate.reverse, hins, Except.bind]
      refine ⟨_, _, rfl, fun k => ?_⟩
      rw [State.remove_of_not_holds (by
        simp [State.entry?_add_of_ne _ _ _ hba.symm, ha, Entry.contains, hr'.symm])]
      by_cases hk : k = u.before
      · subst hk
        rw [State.entry?_add_of_self hbb, hbb]
        rfl
      · exact State.entry?_add_of_ne _ _ _ hk

/-- What a write's update does to the flat bucket when, made tentative, it is accepted: an insert or
an update takes a free after-image, marked as a tentative insert, and a delete or an update marks
the before-image as a tentative delete. -/
theorem forward_ok {o : Outcome} {F₁ : State}
    (h : F.apply r u.asTentative x.desc.unique x.flatMeta = .ok (o, F₁)) :
    (u.op = .insert ∧ F.entry? u.after = none ∧ F₁ = F.add u.after r true) ∨
      (u.op = .delete ∧ F₁ = F.remove u.before r true) ∨
      (u.op = .update ∧ F.entry? u.after = none ∧
        F₁ = (F.add u.after r true).remove u.before r true) := by
  rcases hb.op with hu | hu | hu
  · rw [flat_apply_insert hx (show u.asTentative.op = .insert from hu)] at h
    rcases hb.after_cases (.inl hu) with ha | ⟨r', mk, hr', ha⟩
    · rw [show u.asTentative.after = u.after from rfl, flat_insert_of_free hn (by simp [ha])] at h
      cases h
      exact .inl ⟨hu, ha, rfl⟩
    · rw [show u.asTentative.after = u.after from rfl,
        flat_insert_of_other hx ha (by simp [Entry.holdsOther, hr'])] at h
      cases h
  · rw [flat_apply_delete hx hs (show u.asTentative.op = .delete from hu)] at h
    cases h
    exact .inr (.inl ⟨hu, rfl⟩)
  · rw [flat_apply_update hx hn hs (show u.asTentative.op = .update from hu) (hb.moves hu)] at h
    rcases hb.after_cases (.inr hu) with ha | ⟨r', mk, hr', ha⟩
    · rw [show u.asTentative.after = u.after from rfl, flat_insert_of_free hn (by simp [ha])] at h
      cases h
      exact .inr (.inr ⟨hu, ha, rfl⟩)
    · rw [show u.asTentative.after = u.after from rfl,
        flat_insert_of_other hx ha (by simp [Entry.holdsOther, hr'])] at h
      cases h

/-- A write's update accepted in tentative form keeps every key that was held held, and its
reverse then gives every key back its old entry. -/
theorem reverse_of_ok {o : Outcome} {F₁ : State}
    (h : F.apply r u.asTentative x.desc.unique x.flatMeta = .ok (o, F₁)) :
    (∀ k, F.entry? k ≠ none → F₁.entry? k ≠ none) ∧
      ∃ o' F₂, F₁.apply r u.reverse x.desc.unique x.flatMeta = .ok (o', F₂) ∧
        ∀ k, F₂.entry? k = F.entry? k := by
  rcases hb.forward_ok hx hn hs h with ⟨hu, ha, rfl⟩ | ⟨hu, rfl⟩ | ⟨hu, ha, rfl⟩
  · -- a tentative insert of a free key: its reverse drops the key again
    have ha₁ := State.entry?_add_of_none (r := r) (t := true) ha
    have hrev : u.reverse.op = .delete := by simp [IndexUpdate.reverse, hu]
    refine ⟨fun k hk => ?_, _, _, flat_apply_delete hx (by simp [State.status_add, hs]) hrev,
      fun k => ?_⟩
    · have hka : k ≠ u.after := fun h => hk (h ▸ ha)
      rwa [State.entry?_add_of_ne _ _ _ hka]
    · by_cases hka : k = u.after
      · subst hka
        simp only [IndexUpdate.reverse]
        rw [State.entry?_remove_of_self ha₁, ha]
      · simp only [IndexUpdate.reverse]
        rw [State.entry?_remove_of_ne _ _ _ hka, State.entry?_add_of_ne _ _ _ hka]
  · -- a tentative delete only marks the key; its reverse settles it again
    have hbb := hb.settled (.inl hu)
    have hb₁ := State.entry?_remove_of_self_tentative hbb
    have hrev : u.reverse.op = .insert := by simp [IndexUpdate.reverse, hu]
    have hins : (F.remove u.before r true).insert r u.before false x.desc.unique x.flatMeta =
        .ok (.applied, (F.remove u.before r true).add u.before r false) :=
      flat_insert_of_free (by simp [hn]) (State.holdsOther_of_entry?_self hb₁)
    refine ⟨fun k hk => ?_, _, _, by rw [flat_apply_insert hx hrev]; exact hins, fun k => ?_⟩
    · by_cases hkb : k = u.before
      · subst hkb
        simp [hb₁]
      · rwa [State.entry?_remove_of_ne _ _ _ hkb]
    · by_cases hkb : k = u.before
      · subst hkb
        rw [State.entry?_add_of_self hb₁, hbb]
        rfl
      · rw [State.entry?_add_of_ne _ _ _ hkb, State.entry?_remove_of_ne _ _ _ hkb]
  · -- a tentative update marks both keys; its reverse settles the before-image and drops the
    -- after-image
    have hbb := hb.settled (.inr hu)
    have hba := hb.moves hu
    obtain ⟨ha₁, hb₁⟩ := hb.tentative_move_entries hu ha
    have hrev : u.reverse.op = .update := by simp [IndexUpdate.reverse, hu]
    have hins : ((F.add u.after r true).remove u.before r true).insert r u.before false
        x.desc.unique x.flatMeta =
        .ok (.applied, ((F.add u.after r true).remove u.before r true).add u.before r false) :=
      flat_insert_of_free (by simp [hn]) (State.holdsOther_of_entry?_self hb₁)
    refine ⟨fun k hk => ?_, .applied,
      (((F.add u.after r true).remove u.before r true).add u.before r false).remove u.after r false,
      ?_, fun k => ?_⟩
    · by_cases hkb : k = u.before
      · subst hkb
        simp [hb₁]
      · have hka : k ≠ u.after := fun h => hk (h ▸ ha)
        rwa [State.entry?_remove_of_ne _ _ _ hkb, State.entry?_add_of_ne _ _ _ hka]
    · rw [flat_apply_update hx (by simp [hn]) (by simp [State.status_add, hs]) hrev (Ne.symm hba)]
      simp only [IndexUpdate.reverse, hins, Except.bind]
    · by_cases hka : k = u.after
      · subst hka
        rw [State.entry?_remove_of_self (by rw [State.entry?_add_of_ne _ _ _ (Ne.symm hba)]; exact ha₁),
          ha]
      · rw [State.entry?_remove_of_ne _ _ _ hka]
        by_cases hkb : k = u.before
        · subst hkb
          rw [State.entry?_add_of_self hb₁, hbb]
          rfl
        · rw [State.entry?_add_of_ne _ _ _ hkb, State.entry?_remove_of_ne _ _ _ hkb,
            State.entry?_add_of_ne _ _ _ hka]

/-- A write's update accepted in tentative form is accepted again in its final form. -/
theorem final_of_ok {o : Outcome} {F₁ : State}
    (h : F.apply r u.asTentative x.desc.unique x.flatMeta = .ok (o, F₁)) :
    ∃ o' F₃, F₁.apply r u x.desc.unique x.flatMeta = .ok (o', F₃) := by
  rcases hb.forward_ok hx hn hs h with ⟨hu, ha, rfl⟩ | ⟨hu, rfl⟩ | ⟨hu, ha, rfl⟩
  · have ha₁ := State.entry?_add_of_none (r := r) (t := true) ha
    rw [flat_apply_insert hx hu,
      flat_insert_of_free (by simp [hn]) (State.holdsOther_of_entry?_self ha₁)]
    exact ⟨_, _, rfl⟩
  · exact ⟨_, _, flat_apply_delete hx (by simp [hs]) hu⟩
  · obtain ⟨ha₁, -⟩ := hb.tentative_move_entries hu ha
    rw [flat_apply_update hx (by simp [hn]) (by simp [State.status_add, hs]) hu (hb.moves hu),
      flat_insert_of_free (by simp [hn]) (State.holdsOther_of_entry?_self ha₁)]
    exact ⟨_, _, rfl⟩

end BeforeImage

end FlatUnique


/-! ## Where a key is held -/

section Holders

variable {x : Index} {P P' P₀ P₂ : String → State} {F F' F₀ F₂ : State} {len len' len₀ len₂ : Nat → Nat}
  {k : Key}

/-- The bucket that holds a key has its entry, and no other bucket has one. -/
theorem Refines.entry?_eq_of_holder (h : Refines x P F len) {id₀ : String} {e : Entry}
    (he : State.entry? (P id₀) k = some e) (id : String) :
    State.entry? (P id) k = if id = id₀ then some e else none := by
  by_cases hid : id = id₀
  · rw [if_pos hid, hid, he]
  · rw [if_neg hid]
    cases he' : State.entry? (P id) k with
    | none => rfl
    | some e' =>
      exact absurd (h.once id id₀ k (by simp [State.hasKey, he']) (by simp [State.hasKey, he])) hid

/-- A call that writes the entry of `k` in one bucket at most leaves a key that is held before and
after it in the same bucket. -/
theorem Refines.holder_eq (h : Refines x P F len) (h' : Refines x P' F' len')
    (hone : OneBucket k P P') {id id' : String} (hid : (P id).hasKey k = true)
    (hid' : (P' id').hasKey k = true) : id = id' := by
  obtain ⟨T, hT⟩ := hone
  -- outside the one bucket written, the entry under `k` is what it was
  have hkeep : ∀ j, j ≠ T → State.entry? (P' j) k = State.entry? (P j) k := fun j hj => by
    by_contra hne
    exact hj (hT j hne)
  by_cases h₁ : id' = T
  · by_cases h₀ : id = T
    · rw [h₀, h₁]
    · exact h'.once id id' k (by simpa [State.hasKey, hkeep id h₀] using hid) hid'
  · exact h.once id id' k hid (by simpa [State.hasKey, hkeep id' h₁] using hid')

/-- Two bucket maps that refine flat buckets with one entry under `k`, and that hold `k` in the
same bucket when they hold it, have the same entry under `k` in every bucket. -/
theorem Refines.entry?_eq (h₀ : Refines x P₀ F₀ len₀) (h₂ : Refines x P₂ F₂ len₂)
    (hF : F₂.entry? k = F₀.entry? k)
    (hsame : ∀ id id', (P₀ id).hasKey k = true → (P₂ id').hasKey k = true → id = id')
    (id : String) : State.entry? (P₂ id) k = State.entry? (P₀ id) k := by
  cases hF₀ : F₀.entry? k with
  | none => rw [h₂.entry?_eq_none (hF.trans hF₀), h₀.entry?_eq_none hF₀]
  | some e =>
    obtain ⟨id₀, h₀e⟩ := (h₀.holds k e).1 hF₀
    obtain ⟨id₂, h₂e⟩ := (h₂.holds k e).1 (hF.trans hF₀)
    have hid : id₀ = id₂ :=
      hsame id₀ id₂ (by simp [State.hasKey, h₀e]) (by simp [State.hasKey, h₂e])
    rw [h₀.entry?_eq_of_holder h₀e, h₂.entry?_eq_of_holder h₂e, hid]

end Holders

/-- A call of an index, run where its chains link inside it, writes the entry of each key in one
bucket at most. -/
theorem Index.LocalRuns.oneBucket {x : Index} {P P' : String → State} {r : EntityRef}
    {u : IndexUpdate} {res : Except Error Unit} (hl : x.LocalRuns (x.apply r u) P res P')
    (hL : x.LinksInside P) (hz : Viewable P) (hu : u.regular = true) (k : Key) :
    OneBucket k P P' := by
  obtain ⟨res', P'', hl', -, hone, -⟩ := x.apply_local r u hL
  obtain ⟨-, rfl⟩ := Runs.eq_of_viewable hl.runs hl'.runs hz
  exact hone hu k

/-! ## One unique index through a write and its undo -/

/-- A unique index ready for a write's update: its buckets alone refine a flat bucket on which
the write's images hold, with room on every chain for two more buckets. -/
structure Ready (x : Index) (B : String → State) (r : EntityRef) (u : IndexUpdate) : Prop where
  /-- The index is unique. -/
  unique : x.desc.unique = true
  /-- Its buckets refine a flat bucket that the images describe. -/
  flat : ∃ F len, Refines x (x.restrict B) F len ∧ (∀ q, len q + 1 < chainLimit) ∧
    BeforeImage F r u

theorem BeforeImage.regular {F : State} {r : EntityRef} {u : IndexUpdate} (hb : BeforeImage F r u)
    {v : IndexUpdate} (hop : v.op = u.op) (hbv : v.before = u.before) (hav : v.after = u.after) :
    v.regular = true := by
  rcases hb.op with hu | hu | hu <;> simp only [IndexUpdate.regular, hop, hu]
  simpa [hbv, hav] using hb.moves hu

theorem BeforeImage.reverse_regular {F : State} {r : EntityRef} {u : IndexUpdate}
    (hb : BeforeImage F r u) : u.reverse.regular = true := by
  rcases hb.op with hu | hu | hu
  · simp [IndexUpdate.regular, IndexUpdate.reverse, hu]
  · simp [IndexUpdate.regular, IndexUpdate.reverse, hu]
  · have hba := hb.moves hu
    simp [IndexUpdate.regular, IndexUpdate.reverse, hu, Ne.symm hba]

section Ready

variable {x : Index} {B : String → State} {r : EntityRef} {u : IndexUpdate}

/-- A unique index's update, in the form the coordinator applied it, and then its reverse give
every bucket of the index its old entries back: the update was refused and changed nothing, or it
was accepted in tentative form. -/
theorem Ready.reverse_restores (hR : Ready x B r u) (hz : Viewable B) {u' : IndexUpdate}
    (hu' : u' = u ∨ u' = u.asTentative) {res₁ : Except Error Unit} {P₁ : String → State}
    (hfwd : x.LocalRuns (x.apply r u') (x.restrict B) res₁ P₁)
    (hok : res₁ = .ok () → u' = u.asTentative) {res₂ : Except Error Unit} {P₂ : String → State}
    (hrev : x.LocalRuns (x.apply r u.reverse) P₁ res₂ P₂) :
    ∀ id k, State.entry? (P₂ id) k = State.entry? (x.restrict B id) k := by
  obtain ⟨F, len, hRef, hfuel, hb⟩ := hR.flat
  have hzP := hz.restrict x
  have hsame : u'.op = u.op ∧ u'.before = u.before ∧ u'.after = u.after := by
    rcases hu' with rfl | rfl <;> exact ⟨rfl, rfl, rfl⟩
  have hfol := hRef.call_local (fun q => by have := hfuel q; omega)
    (hb.regular hsame.1 hsame.2.1 hsame.2.2) hzP hfwd
  have hone₁ := hfwd.oneBucket (hRef.linksInside) hzP
    (hb.regular hsame.1 hsame.2.1 hsame.2.2)
  revert hfol hone₁
  cases hf : F.apply r u' x.desc.unique x.flatMeta with
  | error e =>
    -- refused: nothing changed, and the reverse runs where the update started
    rintro ⟨e', -, -, rfl⟩ -
    obtain ⟨o, F₂, hF₂, hent⟩ := hb.reverse_of_error hR.unique hRef.flatNext hRef.flatAvailable
      hsame.1 hsame.2.1 hsame.2.2 hf
    have hfol₂ := hRef.call_local (fun q => by have := hfuel q; omega) hb.reverse_regular hzP hrev
    rw [hF₂] at hfol₂
    obtain ⟨-, len₂, hR₂, -⟩ := hfol₂
    have hone₂ := hrev.oneBucket (hRef.linksInside) hzP hb.reverse_regular
    intro id k
    exact hRef.entry?_eq hR₂ (hent k) (fun _ _ h h' => hRef.holder_eq hR₂ (hone₂ k) h h') id
  | ok p =>
    -- accepted in tentative form: every key held before stays in its bucket
    obtain ⟨o, F₁⟩ := p
    rintro ⟨rfl, len₁, hR₁, hl₁⟩ hone₁
    obtain rfl := hok rfl
    obtain ⟨hheld, o', F₂, hF₂, hent⟩ := hb.reverse_of_ok hR.unique hRef.flatNext
      hRef.flatAvailable hf
    have hzP₁ := Runs.viewable hfwd.runs hzP
    have hfol₂ := hR₁.call_local (fun q => by have := hl₁ q; have := hfuel q; omega)
      hb.reverse_regular hzP₁ hrev
    rw [hF₂] at hfol₂
    obtain ⟨-, len₂, hR₂, -⟩ := hfol₂
    have hone₂ := hrev.oneBucket (hR₁.linksInside) hzP₁ hb.reverse_regular
    intro id k
    refine hRef.entry?_eq hR₂ (hent k) (fun i₀ i₂ h₀ h₂ => ?_) id
    obtain ⟨e, he⟩ := Option.ne_none_iff_exists'.1 (hheld k (by
      obtain ⟨e, he⟩ := Option.isSome_iff_exists.1 h₀
      exact (hRef.holds k e).2 ⟨i₀, he⟩ ▸ Option.some_ne_none e))
    obtain ⟨i₁, hi₁⟩ := (hR₁.holds k e).1 he
    have hk₁ : (P₁ i₁).hasKey k = true := by simp [State.hasKey, hi₁]
    exact (hRef.holder_eq hR₁ (hone₁ k) h₀ hk₁).trans
      (hR₁.holder_eq hR₂ (hone₂ k) hk₁ h₂)

/-- A unique index's update accepted in tentative form is accepted again in its final form. -/
theorem Ready.final_succeeds (hR : Ready x B r u) (hz : Viewable B) {P₁ : String → State}
    (hfwd : x.LocalRuns (x.apply r u.asTentative) (x.restrict B) (.ok ()) P₁)
    {res : Except Error Unit} {P₂ : String → State} (hfin : x.LocalRuns (x.apply r u) P₁ res P₂) :
    res = .ok () := by
  obtain ⟨F, len, hRef, hfuel, hb⟩ := hR.flat
  have hzP := hz.restrict x
  have hfol := hRef.call_local (fun q => by have := hfuel q; omega)
    (hb.regular (v := u.asTentative) rfl rfl rfl) hzP hfwd
  revert hfol
  cases hf : F.apply r u.asTentative x.desc.unique x.flatMeta with
  | error e =>
    rintro ⟨e', he', -⟩
    cases he'
  | ok p =>
    obtain ⟨o, F₁⟩ := p
    rintro ⟨-, len₁, hR₁, hl₁⟩
    obtain ⟨o', F₃, hF₃⟩ := hb.final_of_ok hR.unique hRef.flatNext hRef.flatAvailable hf
    have hfol₂ := hR₁.call_local (fun q => by have := hl₁ q; have := hfuel q; omega)
      (hb.regular rfl rfl rfl) (Runs.viewable hfwd.runs hzP) hfin
    rw [hF₃] at hfol₂
    exact hfol₂.1

end Ready

end EntityIndex.Bucket
