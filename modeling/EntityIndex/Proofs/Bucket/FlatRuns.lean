import EntityIndex.Proofs.Bucket.Flat

/-!
# The flat bucket over a list of parts

A batch is routed into parts, each an update of one partition, and applied partition by
partition; on a chained index each bucket passes on what is not its own. Against the flat
bucket of `Refines` this is one fold, `Index.flatRun`, over the parts in some order. The order
matters only among the parts that touch one key: the flat bucket's entries under a set of keys
depend on the parts touching the set and on nothing else (`Index.flatRun_entry?_filter`).
Where the flat bucket takes every update of a list, applying their routed parts is applying the
updates (`Index.flatRun_routedParts_of_accepts`).
-/

namespace EntityIndex.Bucket

/-! ## Two buckets that agree under the keys of an update -/

namespace State

variable {s s' : State} {r : EntityRef} {a y : Key} {t uq : Bool} {m m' : IndexMeta}
  {u : IndexUpdate}

theorem entry?_add_agree (ha : s.entry? a = s'.entry? a) (hy : s.entry? y = s'.entry? y) :
    State.entry? (s.add a r t) y = State.entry? (s'.add a r t) y := by
  by_cases hya : y = a
  · subst hya
    exact entry?_add_congr ha
  · rw [entry?_add_of_ne s r t hya, entry?_add_of_ne s' r t hya, hy]

theorem entry?_remove_agree (ha : s.entry? a = s'.entry? a) (hy : s.entry? y = s'.entry? y) :
    State.entry? (s.remove a r t) y = State.entry? (s'.remove a r t) y := by
  by_cases hya : y = a
  · subst hya
    exact entry?_remove_congr ha
  · rw [entry?_remove_of_ne s r t hya, entry?_remove_of_ne s' r t hya, hy]

/-- Two buckets that may take new keys and agree under the keys of a change decide it alike:
both refuse it with one error, or both apply it and still agree under its two keys. -/
theorem change_agree (hc : s.canCreate m = true) (hc' : s'.canCreate m' = true)
    (hn : m.name = m'.name) (hb : s.entry? u.before = s'.entry? u.before)
    (ha : s.entry? u.after = s'.entry? u.after) :
    (∃ e, s.change r u uq m = .error e ∧ s'.change r u uq m' = .error e) ∨
      ∃ t t', s.change r u uq m = .ok (.applied, t) ∧ s'.change r u uq m' = .ok (.applied, t') ∧
        t.entry? u.before = t'.entry? u.before ∧ t.entry? u.after = t'.entry? u.after := by
  -- an insert of the after-image, where the entity is not under the before-image
  have hins : (∃ e, s.insert r u.after u.tentative uq m = .error e ∧
      s'.insert r u.after u.tentative uq m' = .error e) ∨
      ∃ t t', s.insert r u.after u.tentative uq m = .ok (.applied, t) ∧
        s'.insert r u.after u.tentative uq m' = .ok (.applied, t') ∧
        t.entry? u.before = t'.entry? u.before ∧ t.entry? u.after = t'.entry? u.after := by
    rcases insert_congr ha hc hc' hn r u.tentative uq with ⟨e, he, he'⟩ | ⟨hi, hi'⟩
    · exact .inl ⟨e, he, he'⟩
    · exact .inr ⟨_, _, hi, hi', entry?_add_agree ha hb, entry?_add_congr ha⟩
  -- a move of the entity, where both buckets make it
  have hmove : ∀ y, s.entry? y = s'.entry? y →
      State.entry? (((s.add u.after r u.tentative).remove u.before r u.tentative).trackDelete
        u.before r) y =
      State.entry? (((s'.add u.after r u.tentative).remove u.before r u.tentative).trackDelete
        u.before r) y := fun y hy => by
    simp only [entry?_trackDelete]
    exact entry?_remove_agree (entry?_add_agree ha hb) (entry?_add_agree ha hy)
  unfold State.change
  dsimp only
  rw [hb, ha, hn]
  cases hB : s'.entry? u.before with
  | none => simpa using hins
  | some e =>
    by_cases hcon : e.contains r = true
    · simp only [hcon, Bool.not_true, Bool.false_eq_true, ↓reduceIte]
      cases hA : s'.entry? u.after with
      | none => exact .inr ⟨_, _, by simp [hc], by simp [hc'], hmove _ hb, hmove _ ha⟩
      | some e' =>
        by_cases ho : (uq && e'.holdsOther r) = true
        · exact .inl ⟨_, if_pos ho, if_pos ho⟩
        · exact .inr ⟨_, _, if_neg ho, if_neg ho, hmove _ hb, hmove _ ha⟩
    · simpa [hcon] using hins

/-- Two buckets that may take new keys and agree under the keys of an update decide it alike:
both refuse it with one error, or both apply it and still agree under its keys. -/
theorem apply_agree (r : EntityRef) (uq : Bool) (hc : s.canCreate m = true)
    (hc' : s'.canCreate m' = true) (hn : m.name = m'.name)
    (h : ∀ k ∈ updateKeys u, s.entry? k = s'.entry? k) :
    (∃ e, s.apply r u uq m = .error e ∧ s'.apply r u uq m' = .error e) ∨
      ∃ t t', s.apply r u uq m = .ok (.applied, t) ∧ s'.apply r u uq m' = .ok (.applied, t') ∧
        ∀ k ∈ updateKeys u, t.entry? k = t'.entry? k := by
  by_cases hnone : u.op = .none
  · exact .inr ⟨s, s', apply_of_none hnone, apply_of_none hnone, h⟩
  cases ht : (u.tentative && !uq)
  case true => exact .inl ⟨_, apply_of_tentative ht hnone, apply_of_tentative ht hnone⟩
  case false =>
    cases hop : u.op with
    | none => exact absurd hop hnone
    | insert =>
      have ha := h u.after (by simp [updateKeys, hop])
      rw [apply_of_insert hop ht, apply_of_insert hop ht]
      rcases insert_congr ha hc hc' hn r u.tentative uq with ⟨e, he, he'⟩ | ⟨hi, hi'⟩
      · exact .inl ⟨e, he, he'⟩
      · refine .inr ⟨_, _, hi, hi', fun k hk => ?_⟩
        obtain rfl : k = u.after := by simpa [updateKeys, hop] using hk
        exact entry?_add_congr ha
    | delete =>
      -- both are tails, so both delete where they are
      have hb := h u.before (by simp [updateKeys, hop])
      rw [apply_of_delete hop ht, apply_of_delete hop ht,
        delete_of_owned (.inr (.inr (next_eq_empty_of_canCreate hc))),
        delete_of_owned (.inr (.inr (next_eq_empty_of_canCreate hc')))]
      refine .inr ⟨_, _, rfl, rfl, fun k hk => ?_⟩
      obtain rfl : k = u.before := by simpa [updateKeys, hop] using hk
      simpa using entry?_remove_congr hb
    | update =>
      rw [apply_of_update hop ht, apply_of_update hop ht]
      rcases change_agree hc hc' hn (h u.before (by simp [updateKeys, hop]))
          (h u.after (by simp [updateKeys, hop])) with ⟨e, he, he'⟩ | ⟨t, t', hi, hi', hb, ha⟩
      · exact .inl ⟨e, he, he'⟩
      · refine .inr ⟨t, t', hi, hi', fun k hk => ?_⟩
        simp only [updateKeys, hop, List.mem_cons, List.not_mem_nil, or_false] at hk
        rcases hk with rfl | rfl
        · exact hb
        · exact ha
    | other c =>
      exact .inl ⟨.other ("bucket: unknown operation " ++ (Operation.other c).name),
        by simp [State.apply, ht, hop], by simp [State.apply, ht, hop]⟩

end State

/-! ## The flat bucket over parts -/

/-- The shape of the flat bucket: the tail of its chain, and available. -/
structure State.Flat (F : State) : Prop where
  /-- No successor. -/
  next : F.next = ""
  /-- Available. -/
  available : F.status = .available

theorem Refines.flatShape {x : Index} {b : String → State} {F : State} {len : Nat → Nat}
    (h : Refines x b F len) : F.Flat :=
  ⟨h.flatNext, h.flatAvailable⟩

/-- The flat bucket after parts applied one at a time, each part it refuses leaving it as it
was. -/
def Index.flatRun (x : Index) (F : State) (parts : List Item) : State :=
  parts.foldl (fun F it => x.flatApply F it.entity it.update) F

/-- Whether the flat bucket takes every update of a list, one after another. -/
def Index.accepts (x : Index) : State → List Item → Bool
  | _, [] => true
  | F, it :: its => (F.apply it.entity it.update x.desc.unique x.flatMeta).toBool &&
      x.accepts (x.flatApply F it.entity it.update) its

/-- Whether a part touches a key of a set. -/
def touches (K : Key → Bool) (it : Item) : Bool := (updateKeys it.update).any K

section FlatRun

variable {x : Index} {F G : State} {r : EntityRef} {u : IndexUpdate}

theorem Index.flatApply_of_ok {o : Outcome} {F' : State}
    (h : F.apply r u x.desc.unique x.flatMeta = .ok (o, F')) : x.flatApply F r u = F' := by
  simp [Index.flatApply, h]

theorem Index.flatApply_of_error {e : Error}
    (h : F.apply r u x.desc.unique x.flatMeta = .error e) : x.flatApply F r u = F := by
  simp [Index.flatApply, h]

theorem State.Flat.flatApply (hF : F.Flat) : (x.flatApply F r u).Flat := by
  cases ha : F.apply r u x.desc.unique x.flatMeta with
  | error e => rwa [Index.flatApply_of_error ha]
  | ok res =>
    rw [Index.flatApply_of_ok ha]
    exact ⟨(State.apply_next ha).trans hF.next, (State.apply_status ha).trans hF.available⟩

/-- A part leaves the flat bucket's entries under other keys alone. -/
theorem Index.flatApply_entry?_of_not_mem {k : Key} (hk : k ∉ updateKeys u) :
    State.entry? (x.flatApply F r u) k = F.entry? k := by
  cases ha : F.apply r u x.desc.unique x.flatMeta with
  | error e => rw [Index.flatApply_of_error ha]
  | ok res => rw [Index.flatApply_of_ok ha, State.apply_entry?_of_not_mem ha hk]

/-- Two flat buckets that agree under the keys of a part agree there after it. -/
theorem Index.flatApply_agree (hF : F.Flat) (hG : G.Flat)
    (h : ∀ k ∈ updateKeys u, F.entry? k = G.entry? k) :
    ∀ k ∈ updateKeys u, State.entry? (x.flatApply F r u) k = State.entry? (x.flatApply G r u) k := by
  rcases State.apply_agree r x.desc.unique (x.canCreate_flatMeta hF.next)
      (x.canCreate_flatMeta hG.next) rfl h with ⟨e, he, he'⟩ | ⟨t, t', ht, ht', hk⟩
  · rw [Index.flatApply_of_error he, Index.flatApply_of_error he']
    exact h
  · rw [Index.flatApply_of_ok ht, Index.flatApply_of_ok ht']
    exact hk

@[simp] theorem Index.flatRun_nil : x.flatRun F [] = F := rfl

@[simp] theorem Index.flatRun_cons (it : Item) (L : List Item) :
    x.flatRun F (it :: L) = x.flatRun (x.flatApply F it.entity it.update) L := rfl

theorem Index.flatRun_append (L L' : List Item) :
    x.flatRun F (L ++ L') = x.flatRun (x.flatRun F L) L' :=
  List.foldl_append

theorem State.Flat.flatRun (hF : F.Flat) (L : List Item) : (x.flatRun F L).Flat := by
  induction L generalizing F with
  | nil => exact hF
  | cons it L ih => exact ih hF.flatApply

/-- The flat bucket's entries under a set of keys depend only on the parts that touch the set,
in their order, when each part's keys lie all inside the set or all outside it. -/
theorem Index.flatRun_entry?_filter (K : Key → Bool) (L : List Item)
    (hL : ∀ it ∈ L, (∀ k ∈ updateKeys it.update, K k = true) ∨
      ∀ k ∈ updateKeys it.update, K k = false) :
    ∀ {F G : State}, F.Flat → G.Flat → (∀ k, K k = true → F.entry? k = G.entry? k) →
      ∀ k, K k = true → State.entry? (x.flatRun F L) k = State.entry? (x.flatRun G (L.filter (touches K))) k := by
  induction L with
  | nil => intro F G _ _ hFG; exact hFG
  | cons it L ih =>
    intro F G hF hG hFG
    have hL' : ∀ it' ∈ L, _ := fun it' h => hL it' (List.mem_cons_of_mem _ h)
    cases htouch : touches K it with
    | true =>
      -- the part's keys are all in the set: both buckets take it alike
      have hin : ∀ k ∈ updateKeys it.update, K k = true := by
        rcases hL it List.mem_cons_self with hin | hout
        · exact hin
        · obtain ⟨k, hk, hK⟩ := List.any_eq_true.1 htouch
          simp [hout k hk] at hK
      rw [flatRun_cons, List.filter_cons_of_pos htouch, flatRun_cons]
      refine ih hL' hF.flatApply hG.flatApply fun k hk => ?_
      by_cases hmem : k ∈ updateKeys it.update
      · exact Index.flatApply_agree hF hG (fun k' hk' => hFG k' (hin k' hk')) k hmem
      · rw [Index.flatApply_entry?_of_not_mem hmem, Index.flatApply_entry?_of_not_mem hmem]
        exact hFG k hk
    | false =>
      -- the part's keys are all outside the set: it changes nothing there
      rw [flatRun_cons, List.filter_cons_of_neg (by simp [htouch])]
      refine ih hL' hF.flatApply hG fun k hk => ?_
      have hmem : k ∉ updateKeys it.update := fun hmem => by
        simp [List.any_eq_false.1 htouch k hmem] at hk
      rw [Index.flatApply_entry?_of_not_mem hmem]
      exact hFG k hk

end FlatRun

/-! ## Routed parts -/

/-- The parts of a batch in batch order, each with the partition it is routed to. -/
def Index.routed (x : Index) (items : List Item) : List (Nat × Item) :=
  items.flatMap fun it => (x.route it.update).map fun pv => (pv.1, ⟨it.entity, pv.2⟩)

/-- The parts of a batch in batch order. -/
def Index.routedParts (x : Index) (items : List Item) : List Item := (x.routed items).map Prod.snd

section Routed

variable {x : Index} {u v : IndexUpdate} {q : Nat}

theorem Index.routedParts_cons (it : Item) (items : List Item) :
    x.routedParts (it :: items) =
      (x.route it.update).map (fun pv => ⟨it.entity, pv.2⟩) ++ x.routedParts items := by
  simp [Index.routedParts, Index.routed, Function.comp_def]

theorem Index.length_route_le (u : IndexUpdate) : (x.route u).length ≤ 2 := by
  unfold Index.route
  split
  · simp
  · simp
  · simp
  · dsimp only
    split <;> simp

theorem Index.length_routedParts_le (items : List Item) :
    (x.routedParts items).length ≤ 2 * items.length := by
  induction items with
  | nil => simp [Index.routedParts, Index.routed]
  | cons it items ih =>
    rw [Index.routedParts_cons, List.length_append, List.length_map, List.length_cons]
    have := x.length_route_le it.update
    omega

/-- Each part of a route names keys of its own partition only. -/
theorem Index.route_partition (h : (q, v) ∈ x.route u) :
    ∀ k ∈ updateKeys v, x.partitionOf k = q := by
  unfold Index.route at h
  split at h
  · simp at h
  · rename_i hop
    obtain ⟨rfl, rfl⟩ := by simpa using h
    simp [updateKeys, hop]
  · rename_i hop
    obtain ⟨rfl, rfl⟩ := by simpa using h
    simp [updateKeys, hop]
  · dsimp only at h
    split at h
    · rename_i hop _ hs
      obtain ⟨rfl, rfl⟩ := by simpa using h
      simp only [Bool.and_eq_true, decide_eq_true_eq] at hs
      intro k hk
      unfold updateKeys at hk
      split at hk <;> simp at hk <;> rcases hk with rfl | rfl <;> simp_all
    · rcases (by simpa using h : (q = x.partitionOf u.after ∧ v = u.split.1) ∨
          (q = x.partitionOf u.before ∧ v = u.split.2)) with ⟨rfl, rfl⟩ | ⟨rfl, rfl⟩
      · simp [updateKeys]
      · simp [updateKeys]

/-- The parts of a regular update are regular. -/
theorem Index.route_regular (h : (q, v) ∈ x.route u) (hu : u.regular = true) :
    v.regular = true := by
  unfold Index.route at h
  split at h
  · simp at h
  · obtain ⟨-, rfl⟩ := by simpa using h
    exact hu
  · obtain ⟨-, rfl⟩ := by simpa using h
    exact hu
  · dsimp only at h
    split at h
    · obtain ⟨-, rfl⟩ := by simpa using h
      exact hu
    · rcases (by simpa using h : (q = x.partitionOf u.after ∧ v = u.split.1) ∨
          (q = x.partitionOf u.before ∧ v = u.split.2)) with ⟨-, rfl⟩ | ⟨-, rfl⟩
      · simp [IndexUpdate.regular]
      · simp [IndexUpdate.regular]

/-- On a chained index every part is a half. -/
theorem Index.route_half (h : (q, v) ∈ x.route u) (hc : x.desc.chained = true) :
    isHalf v = true := by
  unfold Index.route at h
  split at h
  · simp at h
  · rename_i hop
    obtain ⟨-, rfl⟩ := by simpa using h
    simp [isHalf, hop]
  · rename_i hop
    obtain ⟨-, rfl⟩ := by simpa using h
    simp [isHalf, hop]
  · dsimp only at h
    rw [if_neg (by simp [hc])] at h
    rcases (by simpa using h : (q = x.partitionOf u.after ∧ v = u.split.1) ∨
        (q = x.partitionOf u.before ∧ v = u.split.2)) with ⟨-, rfl⟩ | ⟨-, rfl⟩
    · simp [isHalf]
    · simp [isHalf]

/-- Where the flat bucket takes a regular update, its routed parts one after another do what the
update does: a split update is its insert half followed by its delete half. -/
theorem Index.flatRun_route {F : State} {r : EntityRef} (hF : F.Flat) (hu : u.regular = true)
    (ha : (F.apply r u x.desc.unique x.flatMeta).toBool = true) :
    x.flatRun F ((x.route u).map fun pv => ⟨r, pv.2⟩) = x.flatApply F r u := by
  by_cases hnone : u.op = .none
  · simp [Index.route_of_none hnone, Index.flatApply_of_ok (State.apply_of_none hnone)]
  cases ht : (u.tentative && !x.desc.unique)
  case true => simp [State.apply_of_tentative ht hnone, Except.toBool] at ha
  case false =>
    cases hop : u.op with
    | none => exact absurd hop hnone
    | insert => simp [Index.route_of_insert hop]
    | delete => simp [Index.route_of_delete hop]
    | update =>
      have hba : u.before ≠ u.after := by simpa [IndexUpdate.regular, hop] using hu
      by_cases hs : x.partitionOf u.before = x.partitionOf u.after ∧ x.desc.chained = false
      · simp [Index.route_of_whole hop hs.1 hs.2]
      · have hch : F.apply r u x.desc.unique x.flatMeta =
            (F.insert r u.after u.tentative x.desc.unique x.flatMeta).bind fun p =>
              .ok (.applied, (p.2.remove u.before r u.tentative).trackDelete u.before r) := by
          rw [State.apply_of_update hop ht,
            State.change_eq_halves (x.canCreate_flatMeta hF.next) hF.available hba]
        rw [hch] at ha
        -- the flat bucket takes the insert half, then deletes where it is
        cases hi : F.insert r u.after u.tentative x.desc.unique x.flatMeta with
        | error e => simp [hi, Except.bind, Except.toBool] at ha
        | ok res =>
          obtain ⟨o, F₁⟩ := res
          have h₁ : x.flatApply F r u.split.1 = F₁ :=
            Index.flatApply_of_ok (by rw [State.apply_of_insert (by simp) (by simpa using ht)]; simpa using hi)
          have h₂ : x.flatApply F₁ r u.split.2 = (F₁.remove u.before r u.tentative).trackDelete u.before r :=
            Index.flatApply_of_ok (by
              rw [State.apply_of_delete (by simp) (by simpa using ht)]
              simpa using State.delete_of_owned (.inr (.inl x.flatMeta_chained)))
          rw [Index.route_of_split hop hs, Index.flatApply_of_ok (by rw [hch, hi]; rfl)]
          simp [h₁, h₂]
    | other c => simp [IndexUpdate.regular, hop] at hu

/-- Where the flat bucket takes every update of a regular list, the routed parts one after
another do what the updates do. -/
theorem Index.flatRun_routedParts_of_accepts (items : List Item) :
    ∀ {F : State}, F.Flat → (∀ it ∈ items, it.update.regular = true) →
      x.accepts F items = true → x.flatRun F (x.routedParts items) = x.flatRun F items := by
  induction items with
  | nil => intro F _ _ _; rfl
  | cons it items ih =>
    intro F hF hu ha
    simp only [Index.accepts, Bool.and_eq_true] at ha
    rw [Index.routedParts_cons, Index.flatRun_append,
      Index.flatRun_route hF (hu it List.mem_cons_self) ha.1, flatRun_cons]
    exact ih hF.flatApply (fun it' h => hu it' (List.mem_cons_of_mem _ h)) ha.2

end Routed

end EntityIndex.Bucket
