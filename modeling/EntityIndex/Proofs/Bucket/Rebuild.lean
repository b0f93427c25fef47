import EntityIndex.Proofs.Bucket.Replay

/-!
# Rebuilding a bucket: recorded deletes win

While a bucket is under construction it takes updates in whatever order they are delivered, and
records every delete it applies; becoming available again enforces the recorded deletes, so that
an insert delivered after the delete that overtook it cannot bring the pair back.

For an index that is neither unique nor chained, the pairs a rebuild leaves are those of the
start and those an update put in, less those a delete took and those an update found and moved
away (`holds_rebuild`), and no repair is left over (`repairs_rebuild`). Which pairs an update
moves away depends on the order: an update records its before-image only when it finds the entity
there on arrival. Delivered before the insert of its before-image, it finds nothing to move and
the insert survives; delivered after, it moves the entity and the pair is gone
(`rebuild_depends_on_order`). When every update moves its entity off a pair the bucket held at the
start, or off a pair that nothing in the sequence puts in, the order is forgotten: the pairs left
are those of the start and those put in, less every before-image of a delete or an update, for
every order of the updates (`rebuild_lets_deletes_win`).
-/

namespace EntityIndex

namespace MemberUpdate

/-- The update puts its entity under `k`: `k` is the after-image of an insert or an update. -/
def Puts (u : MemberUpdate) (k : Key) : Prop := (u.op = .insert ∨ u.op = .update) ∧ u.after = k

/-- The update deletes its entity from `k`: `k` is the before-image of a delete. -/
def Deletes (u : MemberUpdate) (k : Key) : Prop := u.op = .delete ∧ u.before = k

/-- The update moves its entity off `k`: `k` is the before-image of an update. -/
def MovesOff (u : MemberUpdate) (k : Key) : Prop := u.op = .update ∧ u.before = k

end MemberUpdate

namespace Bucket

/-! ## A rebuild -/

namespace State

/-- Apply member updates in turn, each as a plain update of a non-unique index, to the bucket
the one before left; a refused update leaves the bucket as it was. -/
def applyPlain (s : State) (m : IndexMeta) : List (EntityRef × MemberUpdate) → State
  | [] => s
  | (r, u) :: rest => (s.settle r (.plain u) false m).applyPlain m rest

/-- A rebuild of a bucket of a non-unique index: it goes under construction, takes the updates
in the order given, and becomes available again. -/
def rebuild (s : State) (m : IndexMeta) (ws : List (EntityRef × MemberUpdate)) : State :=
  (((s.setStatus .underConstruction).2.applyPlain m ws).setStatus .available).2

/-- Some update of the sequence for `r`, applied in turn from `s`, finds `r` under its
before-image `k` on arrival and so moves it away. -/
def MovesAway (s : State) (m : IndexMeta) (k : Key) (r : EntityRef) :
    List (EntityRef × MemberUpdate) → Prop
  | [] => False
  | (r', u) :: rest =>
    (r' = r ∧ u.MovesOff k ∧ s.holds k r = true) ∨
      (s.settle r' (.plain u) false m).MovesAway m k r rest

/-- Every update of the sequence moves its entity off a pair the bucket holds, or off a pair that
nothing in the sequence puts in. -/
def MovesFromStart (s : State) (ws : List (EntityRef × MemberUpdate)) : Prop :=
  ∀ r u k, (r, u) ∈ ws → u.MovesOff k →
    s.holds k r = true ∨ ¬∃ u', (r, u') ∈ ws ∧ u'.Puts k

end State

/-! ## Entities under a key through `add` and a settled `remove` -/

namespace Entry

variable {o : Option Entry} {r r' : EntityRef} {t : Bool} {e : Entry}

theorem contains_added_iff :
    (added o r' t).contains r = true ↔ (o.getD { values := [] }).contains r = true ∨ r = r' := by
  unfold added contains
  generalize o.getD { values := [] } = e
  by_cases h : r' ∈ e.values
  · by_cases hr : r = r'
    · subst hr; simp [h]
    · simp [h, hr]
  · simp [h]

/-- A settled remove keeps every entity but its own. -/
theorem contains_removed_iff :
    ((removed o r' false).getD { values := [] }).contains r = true ↔
      (o.getD { values := [] }).contains r = true ∧ r ≠ r' := by
  cases o with
  | none => simp [removed, contains]
  | some e =>
    cases hc : e.contains r' with
    | false =>
      rw [removed_of_not_contains hc]
      by_cases hr : r = r'
      · subst hr; simp [hc]
      · simp [hr]
    | true =>
      rw [removed_settled hc]
      split
      · rename_i hv
        simp only [List.isEmpty_iff, List.filter_eq_nil_iff, bne_iff_ne, ne_eq, Decidable.not_not] at hv
        simp only [Option.getD_none, contains, List.contains_nil, Bool.false_eq_true, false_iff,
          Option.getD_some, List.contains_iff_mem, not_and, Decidable.not_not]
        exact hv r
      · simp [contains]

/-- A settled remove leaves the entry it found, or a settled one. -/
theorem removed_same_or_settled (h : removed o r false = some e) : o = some e ∨ e.marker = .none := by
  cases o with
  | none => cases h
  | some e₀ =>
    cases hc : e₀.contains r with
    | false => rw [removed_of_not_contains hc] at h; exact .inl h
    | true =>
      rw [removed_settled hc] at h
      split at h
      · cases h
      · cases h; exact .inr rfl

end Entry

namespace State

variable {s : State} {k x : Key} {r r' : EntityRef} {t : Bool}

theorem holds_eq_getD : s.holds k r = ((s.entry? k).getD { values := [] }).contains r := by
  unfold holds
  cases s.entry? k <;> rfl

@[simp]
theorem holds_add : (s.add k r' t).holds x r = true ↔ s.holds x r = true ∨ (x = k ∧ r = r') := by
  rw [holds_eq_getD, holds_eq_getD, entry?_add]
  by_cases hx : x = k
  · subst hx; simp [Entry.contains_added_iff]
  · simp [hx]

@[simp]
theorem holds_remove :
    (s.remove k r' false).holds x r = true ↔ s.holds x r = true ∧ ¬(x = k ∧ r = r') := by
  rw [holds_eq_getD, holds_eq_getD, entry?_remove]
  by_cases hx : x = k
  · subst hx; simp [Entry.contains_removed_iff]
  · simp [hx]

theorem holds_remove_self : (s.remove k r false).holds k r = false :=
  Bool.eq_false_iff.2 (by simp)

@[simp]
theorem holds_trackDelete : (s.trackDelete k r').holds x r = s.holds x r := by
  simp [holds]

/-- While the bucket is not available, recording a delete adds its pair. -/
theorem mem_repairs_trackDelete (hs : s.status ≠ .available) {rep : Repair} :
    rep ∈ (s.trackDelete k r).repairs ↔ rep ∈ s.repairs ∨ rep = ⟨k, r⟩ := by
  rw [repairs_trackDelete]
  by_cases hm : (⟨k, r⟩ : Repair) ∈ s.repairs
  · rw [if_pos (.inr hm)]
    constructor
    · exact .inl
    · rintro (h | rfl) <;> assumption
  · simp [hs, hm]

variable {ws : List (EntityRef × MemberUpdate)}

theorem exists_mem_cons {P : MemberUpdate → Prop} {u₀ : MemberUpdate} :
    (∃ u, (r, u) ∈ (r', u₀) :: ws ∧ P u) ↔ (r' = r ∧ P u₀) ∨ ∃ u, (r, u) ∈ ws ∧ P u := by
  simp only [List.mem_cons, Prod.mk.injEq]
  constructor
  · rintro ⟨u, ⟨rfl, rfl⟩ | hu, hp⟩
    · exact .inl ⟨rfl, hp⟩
    · exact .inr ⟨u, hu, hp⟩
  · rintro (⟨rfl, hp⟩ | ⟨u, hu, hp⟩)
    · exact ⟨u₀, .inl ⟨rfl, rfl⟩, hp⟩
    · exact ⟨u, .inr hu, hp⟩

/-! ## Enforcing recorded deletes -/

/-- Each of `reps` whose entity is still under its key finds that entry settled, so that
enforcing it takes the entity out. -/
def Enforceable (s : State) (reps : List Repair) : Prop :=
  ∀ rep ∈ reps, ∀ e, s.entry? rep.key = some e → e.contains rep.entity = true → e.marker = .none

variable {reps : List Repair} {rep : Repair}

theorem Enforceable.tail (h : s.Enforceable (rep :: reps)) : s.Enforceable reps :=
  fun rep' hrep' => h rep' (List.mem_cons_of_mem rep hrep')

theorem Enforceable.add (h : s.Enforceable reps) : (s.add k r false).Enforceable reps := by
  intro rep' hrep' e he hc
  rw [entry?_add] at he
  by_cases hx : rep'.key = k
  · rw [if_pos hx] at he
    cases he
    rfl
  · rw [if_neg hx] at he
    exact h rep' hrep' e he hc

theorem Enforceable.remove (h : s.Enforceable reps) : (s.remove k r false).Enforceable reps := by
  intro rep' hrep' e he hc
  rw [entry?_remove] at he
  by_cases hx : rep'.key = k
  · rw [if_pos hx] at he
    rcases Entry.removed_same_or_settled he with he | hm
    · exact h rep' hrep' e (hx ▸ he) hc
    · exact hm
  · rw [if_neg hx] at he
    exact h rep' hrep' e he hc

/-- A delete recorded once its pair is gone is enforceable. -/
theorem Enforceable.trackDelete (h : s.Enforceable s.repairs) (hh : s.holds k r = false) :
    (s.trackDelete k r).Enforceable (s.trackDelete k r).repairs := by
  intro rep' hrep' e he hc
  rw [entry?_trackDelete] at he
  rw [repairs_trackDelete] at hrep'
  split at hrep'
  · exact h rep' hrep' e he hc
  · rcases List.mem_append.1 hrep' with hrep' | hrep'
    · exact h rep' hrep' e he hc
    · rw [List.mem_singleton] at hrep'
      subst hrep'
      simp [holds, he, hc] at hh

/-- Enforcing a delete whose pair is held takes the entity out. -/
theorem enforce_cons_of_holds (hh : s.holds rep.key rep.entity = true)
    (he : s.Enforceable [rep]) :
    (s.enforce (rep :: reps)).2 = ((s.remove rep.key rep.entity false).enforce reps).2 := by
  unfold holds at hh
  split at hh
  · rename_i e hE
    have hm : e.marker = .none := he rep (List.mem_singleton_self rep) e hE hh
    simp [State.enforce, hE, hh, hm]
  · cases hh

/-- A delete whose pair is not held is skipped. -/
theorem enforce_cons_of_not_holds (hh : s.holds rep.key rep.entity = false) :
    (s.enforce (rep :: reps)).2 = (s.enforce reps).2 := by
  unfold holds at hh
  split at hh
  · rename_i e hE
    simp [State.enforce, hE, hh]
  · rename_i hE
    simp [State.enforce, hE]

/-- Enforcing recorded deletes leaves exactly the held pairs that none of them names. -/
theorem holds_enforce (reps : List Repair) :
    ∀ s : State, s.Enforceable reps →
      ((s.enforce reps).2.holds k r = true ↔ s.holds k r = true ∧ ⟨k, r⟩ ∉ reps) := by
  induction reps with
  | nil => intro s _; simp [State.enforce]
  | cons rep rest ih =>
    intro s hs
    obtain ⟨k₀, r₀⟩ := rep
    cases hh : s.holds k₀ r₀ with
    | true =>
      have hs' : Enforceable s [⟨k₀, r₀⟩] := fun rep' h' => hs rep' (by simp_all)
      rw [enforce_cons_of_holds hh hs', ih _ hs.tail.remove, holds_remove]
      simp only [List.mem_cons, Repair.mk.injEq, not_or]
      tauto
    | false =>
      rw [enforce_cons_of_not_holds hh, ih _ hs.tail]
      simp only [List.mem_cons, Repair.mk.injEq, not_or]
      constructor
      · rintro ⟨hk, hn⟩
        refine ⟨hk, ?_, hn⟩
        rintro ⟨rfl, rfl⟩
        rw [hh] at hk
        cases hk
      · rintro ⟨hk, -, hn⟩
        exact ⟨hk, hn⟩

/-! ## One plain update on a bucket that creates every key -/

variable {m : IndexMeta} {u : MemberUpdate}

/-- What a plain update does to a bucket of a non-unique index that may create keys: an insert
adds, a delete removes and records, an update moves the entity when it finds it under the
before-image and otherwise inserts it, and any other update leaves the bucket as it is. -/
theorem settle_plain (hc : s.canCreate m = true) (r : EntityRef) (u : MemberUpdate) :
    s.settle r (.plain u) false m =
      match u.op with
      | .insert => s.add u.after r false
      | .delete => (s.remove u.before r false).trackDelete u.before r
      | .update =>
        if s.holds u.before r then
          ((s.add u.after r false).remove u.before r false).trackDelete u.before r
        else s.add u.after r false
      | _ => s := by
  -- a non-unique index refuses no insert
  have hins : ∀ k, s.insert r k false false m = .ok (.applied, s.add k r false) := fun k => by
    cases he : s.entry? k with
    | none => exact insert_of_canCreate he hc
    | some e => simp [insert_of_entry he]
  have hn : s.next = "" := next_eq_empty_of_canCreate hc
  cases hop : u.op with
  | none => simp [settle, apply_of_none (u := .plain u) hop]
  | insert =>
    rw [settle, apply_of_insert (u := .plain u) hop rfl]
    simp [IndexUpdate.plain, hins]
  | delete =>
    rw [settle, apply_of_delete (u := .plain u) hop rfl]
    simp [IndexUpdate.plain, delete_of_owned (.inr (.inr hn))]
  | update =>
    rw [settle, apply_of_update (u := .plain u) hop rfl, change_eq]
    by_cases hh : s.holds u.before r = true
    · cases he : s.entry? u.after <;> simp [IndexUpdate.plain, hh, he, hc]
    · simp [IndexUpdate.plain, hh, hins]
  | other c => simp [settle, State.apply, IndexUpdate.plain, hop]

/-- A bucket being rebuilt: under construction, without a successor, and each recorded delete
finds its entry settled. -/
structure Building (s : State) : Prop where
  /-- Not available: deletes are recorded. -/
  status : s.status ≠ .available
  /-- The tail of its chain. -/
  next : s.next = ""
  /-- Every recorded delete takes its entity out when enforced. -/
  enforceable : s.Enforceable s.repairs

section Building

variable (hm : m.chained = false)
include hm

theorem Building.settle (h : s.Building) : (s.settle r' (.plain u) false m).Building := by
  rw [settle_plain (canCreate_of_unchained h.next hm)]
  have hs := h.status
  have hn := h.next
  have he := h.enforceable
  cases u.op with
  | insert => exact ⟨by simpa [status_add] using hs, hn, he.add⟩
  | delete =>
    dsimp only
    refine ⟨by simpa using hs, by simpa using hn,
      Enforceable.trackDelete (by rw [repairs_remove]; exact he.remove) holds_remove_self⟩
  | update =>
    dsimp only
    split
    · refine ⟨by simpa [status_add] using hs, by simpa using hn,
        Enforceable.trackDelete (by rw [repairs_remove, repairs_add]; exact he.add.remove)
          holds_remove_self⟩
    · exact ⟨by simpa [status_add] using hs, hn, he.add⟩
  | none => exact h
  | other c => exact h

/-- The pairs one plain update leaves: those held and those it puts in, less the one it
deletes and the one it finds and moves away. -/
theorem holds_settle (h : s.Building) :
    (s.settle r' (.plain u) false m).holds k r = true ↔
      (s.holds k r = true ∨ (r' = r ∧ u.Puts k)) ∧ ¬(r' = r ∧ u.Deletes k) ∧
        ¬(r' = r ∧ u.MovesOff k ∧ s.holds k r = true) := by
  rw [settle_plain (canCreate_of_unchained h.next hm)]
  simp only [MemberUpdate.Puts, MemberUpdate.Deletes, MemberUpdate.MovesOff]
  cases hop : u.op with
  | insert => simp only [holds_add]; grind
  | delete => simp only [holds_trackDelete, holds_remove]; grind
  | update =>
    dsimp only
    split
    · simp only [holds_trackDelete, holds_remove, holds_add]; grind
    · simp only [holds_add]; grind
  | none => grind
  | other c => grind

/-- The deletes one plain update records: its delete, or the move it makes. -/
theorem mem_repairs_settle (h : s.Building) :
    ⟨k, r⟩ ∈ (s.settle r' (.plain u) false m).repairs ↔
      ⟨k, r⟩ ∈ s.repairs ∨ (r' = r ∧ u.Deletes k) ∨
        (r' = r ∧ u.MovesOff k ∧ s.holds k r = true) := by
  rw [settle_plain (canCreate_of_unchained h.next hm)]
  simp only [MemberUpdate.Deletes, MemberUpdate.MovesOff]
  cases hop : u.op with
  | insert => simp
  | delete =>
    rw [mem_repairs_trackDelete (by simpa using h.status)]
    simp only [repairs_remove, Repair.mk.injEq]
    grind
  | update =>
    dsimp only
    split
    · rw [mem_repairs_trackDelete (by simpa [status_add] using h.status)]
      simp only [repairs_remove, repairs_add, Repair.mk.injEq]
      grind
    · simp only [repairs_add]; grind
  | none => simp
  | other c => simp

/-! ## A run of plain updates -/

theorem Building.applyPlain (ws : List (EntityRef × MemberUpdate)) :
    ∀ {s : State}, s.Building → (s.applyPlain m ws).Building := by
  induction ws with
  | nil => intro s h; exact h
  | cons w rest ih =>
    obtain ⟨r', u⟩ := w
    intro s h
    exact ih (h.settle hm)

/-- The pairs a run leaves held and unrecorded: those held and unrecorded at its start or put in
by one of its updates, unless one of its deletes took them or one of its updates found and moved
them. The induction is on the run; each step is `holds_settle` with `mem_repairs_settle`. -/
theorem keeps_applyPlain (ws : List (EntityRef × MemberUpdate)) :
    ∀ s : State, s.Building →
      ((s.applyPlain m ws).holds k r = true ∧ ⟨k, r⟩ ∉ (s.applyPlain m ws).repairs ↔
        (s.holds k r = true ∨ ∃ u, (r, u) ∈ ws ∧ u.Puts k) ∧ ⟨k, r⟩ ∉ s.repairs ∧
          (¬∃ u, (r, u) ∈ ws ∧ u.Deletes k) ∧ ¬s.MovesAway m k r ws) := by
  induction ws with
  | nil => intro s _; simp [applyPlain, MovesAway]
  | cons w rest ih =>
    obtain ⟨r', u⟩ := w
    intro s h
    rw [applyPlain, ih _ (h.settle hm), holds_settle hm h, mem_repairs_settle hm h, MovesAway,
      exists_mem_cons, exists_mem_cons]
    grind

/-- Each update that moves `r` off `k` while `r` is there finds it, unless a delete took it
first: so a run that keeps `r` under `k` until one of its updates moves it off moves it away. -/
theorem movesAway_of_holds (ws : List (EntityRef × MemberUpdate)) :
    ∀ s : State, s.Building → s.holds k r = true → (¬∃ u, (r, u) ∈ ws ∧ u.Deletes k) →
      (∃ u, (r, u) ∈ ws ∧ u.MovesOff k) → s.MovesAway m k r ws := by
  induction ws with
  | nil => intro s _ _ _ hmo; simp at hmo
  | cons w rest ih =>
    obtain ⟨r', u⟩ := w
    intro s h hh hd hmo
    rw [exists_mem_cons] at hd hmo
    by_cases hu : r' = r ∧ u.MovesOff k
    · exact .inl ⟨hu.1, hu.2, hh⟩
    · -- the head neither deletes nor moves the pair, so the pair is still there after it
      have hh' : (s.settle r' (.plain u) false m).holds k r = true := by
        rw [holds_settle hm h]
        tauto
      exact .inr (ih _ (h.settle hm) hh' (fun h' => hd (.inr h')) (hmo.resolve_left hu))

end Building

theorem movesOff_of_movesAway {m : IndexMeta} (ws : List (EntityRef × MemberUpdate)) :
    ∀ s : State, s.MovesAway m k r ws → ∃ u, (r, u) ∈ ws ∧ u.MovesOff k := by
  induction ws with
  | nil => intro s h; cases h
  | cons w rest ih =>
    obtain ⟨r', u⟩ := w
    intro s h
    rw [exists_mem_cons]
    rcases h with ⟨hr, hmo, -⟩ | h
    · exact .inl ⟨hr, hmo⟩
    · exact .inr (ih _ h)

/-! ## The rebuild -/

theorem setStatus_underConstruction :
    (s.setStatus .underConstruction).2 = { s with status := .underConstruction } :=
  rfl

theorem setStatus_available (hs : s.status ≠ .available) :
    (s.setStatus .available).2 = { (s.enforce s.repairs).2 with repairs := [], status := .available } := by
  simp [setStatus, hs]

variable {m : IndexMeta}

theorem building_start (hr : s.repairs = []) (hn : s.next = "") :
    (s.setStatus .underConstruction).2.Building := by
  rw [setStatus_underConstruction]
  refine ⟨nofun, hn, ?_⟩
  intro rep hrep
  simp [hr] at hrep

/-- A rebuild leaves no recorded delete behind. -/
theorem repairs_rebuild (hm : m.chained = false) (hr : s.repairs = []) (hn : s.next = "")
    (ws : List (EntityRef × MemberUpdate)) : (s.rebuild m ws).repairs = [] := by
  unfold rebuild
  rw [setStatus_available ((building_start hr hn).applyPlain hm ws).status]

/-- The pairs a rebuild leaves: those of the start and those put in, less those a delete took
and those an update found and moved away, in whatever order they were delivered. -/
theorem holds_rebuild (hm : m.chained = false) (hr : s.repairs = []) (hn : s.next = "")
    (ws : List (EntityRef × MemberUpdate)) (k : Key) (r : EntityRef) :
    (s.rebuild m ws).holds k r = true ↔
      (s.holds k r = true ∨ ∃ u, (r, u) ∈ ws ∧ u.Puts k) ∧ (¬∃ u, (r, u) ∈ ws ∧ u.Deletes k) ∧
        ¬(s.setStatus .underConstruction).2.MovesAway m k r ws := by
  have h₀ := building_start hr hn
  have hN := h₀.applyPlain hm ws
  unfold rebuild
  rw [setStatus_available hN.status]
  change (State.enforce _ _).2.holds k r = true ↔ _
  rw [holds_enforce _ _ hN.enforceable, keeps_applyPlain hm ws _ h₀]
  -- the run starts from the state itself, under construction and with no repairs
  have hh₀ : (s.setStatus .underConstruction).2.holds k r = s.holds k r := rfl
  have hr₀ : (s.setStatus .underConstruction).2.repairs = [] := hr
  simp only [hh₀, hr₀, List.not_mem_nil, not_false_eq_true, true_and]

/-- When every update moves its entity off a pair of the start or off a pair nothing puts in,
each update that moves `r` off `k` counts as taking the pair, whenever it arrives. -/
theorem holds_rebuild_of_movesFromStart (hm : m.chained = false) (hr : s.repairs = [])
    (hn : s.next = "") (hmv : s.MovesFromStart ws) (k : Key) (r : EntityRef) :
    (s.rebuild m ws).holds k r = true ↔
      (s.holds k r = true ∨ ∃ u, (r, u) ∈ ws ∧ u.Puts k) ∧
        ¬∃ u, (r, u) ∈ ws ∧ (u.Deletes k ∨ u.MovesOff k) := by
  rw [holds_rebuild hm hr hn]
  constructor
  · rintro ⟨hp, hd, hma⟩
    refine ⟨hp, ?_⟩
    rintro ⟨u, hu, hdu | hmo⟩
    · exact hd ⟨u, hu, hdu⟩
    · -- the pair is there from the start, so the update that moves it off finds it
      have hs : s.holds k r = true := (hmv r u k hu hmo).elim id hp.resolve_right
      exact hma (movesAway_of_holds hm ws _ (building_start hr hn) hs hd ⟨u, hu, hmo⟩)
  · rintro ⟨hp, hn'⟩
    refine ⟨hp, fun ⟨u, hu, hdu⟩ => hn' ⟨u, hu, .inl hdu⟩, fun hma => ?_⟩
    obtain ⟨u, hu, hmo⟩ := movesOff_of_movesAway ws _ hma
    exact hn' ⟨u, hu, .inr hmo⟩

theorem MovesFromStart.perm {ws' : List (EntityRef × MemberUpdate)} (h : s.MovesFromStart ws)
    (hp : ws.Perm ws') : s.MovesFromStart ws' := by
  intro r u k hu hmo
  simpa only [hp.mem_iff] using h r u k (hp.mem_iff.2 hu) hmo

end State

/-! ## Deletes win, and when the order is forgotten -/

/-- A rebuild of a bucket of an index that is neither unique nor chained, from a bucket with no
successor and no recorded delete, leaves no recorded delete; the pairs it leaves are those of the
start and those put in, less those a delete took and those an update found and moved away; and
when every update moves its entity off a pair of the start or off a pair nothing puts in, those
are the pairs of the start and those put in, less every before-image of a delete or an update,
whatever the order of the updates. -/
theorem rebuild_lets_deletes_win {s : State} {m : IndexMeta} (hm : m.chained = false)
    (hr : s.repairs = []) (hn : s.next = "") (ws : List (EntityRef × MemberUpdate)) :
    (s.rebuild m ws).repairs = [] ∧
    (∀ k r, (s.rebuild m ws).holds k r = true ↔
      (s.holds k r = true ∨ ∃ u, (r, u) ∈ ws ∧ u.Puts k) ∧ (¬∃ u, (r, u) ∈ ws ∧ u.Deletes k) ∧
        ¬(s.setStatus .underConstruction).2.MovesAway m k r ws) ∧
    (s.MovesFromStart ws → ∀ ws', ws.Perm ws' → ∀ k r,
      (s.rebuild m ws').holds k r = (s.rebuild m ws).holds k r ∧
      ((s.rebuild m ws).holds k r = true ↔
        (s.holds k r = true ∨ ∃ u, (r, u) ∈ ws ∧ u.Puts k) ∧
          ¬∃ u, (r, u) ∈ ws ∧ (u.Deletes k ∨ u.MovesOff k))) := by
  refine ⟨State.repairs_rebuild hm hr hn ws, State.holds_rebuild hm hr hn ws, ?_⟩
  intro hmv ws' hp k r
  have hws := State.holds_rebuild_of_movesFromStart hm hr hn hmv k r
  have hws' := State.holds_rebuild_of_movesFromStart hm hr hn (hmv.perm hp) k r
  refine ⟨Bool.eq_iff_iff.2 ?_, hws⟩
  rw [hws, hws']
  simp only [hp.mem_iff]

/-- Entity `a` moved off `s:x` to `s:y`, and put under `s:x` again. -/
def moveThenReturn : List (EntityRef × MemberUpdate) :=
  [(⟨"player", "a"⟩, diff ⟨"s:x"⟩ ⟨"s:y"⟩), (⟨"player", "a"⟩, diff Key.null ⟨"s:x"⟩)]

theorem moveThenReturn_movesFromStart : holdsX.MovesFromStart moveThenReturn := by
  intro r u k hu hmo
  simp only [moveThenReturn, List.mem_cons, Prod.mk.injEq, List.not_mem_nil, or_false] at hu
  rcases hu with ⟨rfl, rfl⟩ | ⟨rfl, rfl⟩
  · obtain ⟨-, rfl⟩ := hmo
    exact .inl rfl
  · exact absurd hmo.1 nofun

/-- From a bucket holding `a` under `s:x`, moving `a` to `s:y` and putting it under `s:x` again:
in either order the move wins, and `a` ends up under `s:y` only. -/
theorem returning_entity_stays_moved :
    holdsX.repairs = [] ∧ holdsX.next = "" ∧ IndexMeta.chained { name := "email" } = false ∧
    holdsX.MovesFromStart moveThenReturn ∧
    ((holdsX.rebuild { name := "email" } moveThenReturn).repairs = [] ∧
    (∀ k r, (holdsX.rebuild { name := "email" } moveThenReturn).holds k r = true ↔
      (holdsX.holds k r = true ∨ ∃ u, (r, u) ∈ moveThenReturn ∧ u.Puts k) ∧
        (¬∃ u, (r, u) ∈ moveThenReturn ∧ u.Deletes k) ∧
        ¬(holdsX.setStatus .underConstruction).2.MovesAway { name := "email" } k r moveThenReturn) ∧
    (holdsX.MovesFromStart moveThenReturn → ∀ ws', moveThenReturn.Perm ws' → ∀ k r,
      (holdsX.rebuild { name := "email" } ws').holds k r =
        (holdsX.rebuild { name := "email" } moveThenReturn).holds k r ∧
      ((holdsX.rebuild { name := "email" } moveThenReturn).holds k r = true ↔
        (holdsX.holds k r = true ∨ ∃ u, (r, u) ∈ moveThenReturn ∧ u.Puts k) ∧
          ¬∃ u, (r, u) ∈ moveThenReturn ∧ (u.Deletes k ∨ u.MovesOff k)))) :=
  ⟨rfl, rfl, rfl, moveThenReturn_movesFromStart, rebuild_lets_deletes_win rfl rfl rfl moveThenReturn⟩

/-- Moving an entity off a key before it is put there lets the insert survive the rebuild;
putting it there first lets the move take the pair away. -/
theorem rebuild_depends_on_order :
    (State.rebuild {} { name := "email" } [(⟨"player", "a"⟩, diff ⟨"s:x"⟩ ⟨"s:y"⟩),
      (⟨"player", "a"⟩, diff Key.null ⟨"s:x"⟩)]).holds ⟨"s:x"⟩ ⟨"player", "a"⟩ = true ∧
    (State.rebuild {} { name := "email" } [(⟨"player", "a"⟩, diff Key.null ⟨"s:x"⟩),
      (⟨"player", "a"⟩, diff ⟨"s:x"⟩ ⟨"s:y"⟩)]).holds ⟨"s:x"⟩ ⟨"player", "a"⟩ = false :=
  ⟨rfl, rfl⟩

end Bucket

end EntityIndex
