import Mathlib.Data.String.Basic
import EntityIndex.Proofs.Indexing.Generation

/-!
# Which declarations a schema accepts

`Schema.make` sorts the declarations of an entity type by interface and then by name, and checks
them in that order against the first: each must have an interface, a name and a reader, no
negative bucket limit, the eagerness of the first, and no eagerness on a fault-tolerant type; and
no name may come twice. The order of the check does not matter for what it accepts: a schema is
made exactly when the type has a name and the declarations, in whatever order they come, are
`Schema.Accepts` (`Schema.make_isOk_iff`). Every refusal is a configuration failure.

A schema that is made keeps the declarations strictly sorted by interface and then by name, since
no name comes twice, and lists the interfaces once each, in order (`Schema.make_defs`,
`Schema.make_interfaces`). Reading the images of a state succeeds exactly when every declaration's
value has a key, and fails as a configuration failure otherwise (`Schema.extract_isOk_iff`).
-/

namespace EntityIndex.Indexing

variable {σ : Type}

/-- The order of the declarations of a schema: by interface, then by name. -/
def IndexDef.Precedes (a b : IndexDef σ) : Prop :=
  a.iface < b.iface ∨ (a.iface = b.iface ∧ a.desc.name < b.desc.name)

/-- Declarations that a schema accepts, in whatever order they come: each has an interface, a
name and a reader and no negative bucket limit, all share one eagerness, which is lazy on a
fault-tolerant type, and no two share a name. -/
structure Schema.Accepts (faultTolerant : Bool) (defs : List (IndexDef σ)) : Prop where
  iface : ∀ d ∈ defs, d.iface ≠ ""
  name : ∀ d ∈ defs, d.desc.name ≠ ""
  reader : ∀ d ∈ defs, d.extract.isSome
  limits : ∀ d ∈ defs, 0 ≤ d.desc.maxEntries ∧ 0 ≤ d.desc.partitions
  eager : ∀ d ∈ defs, ∀ d' ∈ defs, d.desc.eager = d'.desc.eager
  lazy : faultTolerant = true → ∀ d ∈ defs, d.desc.eager = false
  distinct : (defs.map (·.desc.name)).Nodup

namespace Schema

/-! ## One declaration -/

/-- A declaration has nothing wrong exactly when it passes every check against the first. -/
theorem refusal_eq_none_iff {entityType : String} {faultTolerant : Bool} {first d : IndexDef σ} :
    refusal entityType faultTolerant first d = none ↔
      d.iface ≠ "" ∧ d.desc.name ≠ "" ∧ d.extract.isSome ∧
        (0 ≤ d.desc.maxEntries ∧ 0 ≤ d.desc.partitions) ∧ d.desc.eager = first.desc.eager ∧
        (faultTolerant = true → d.desc.eager = false) := by
  unfold refusal
  split_ifs with hi hn hx hl he hf <;>
    simp_all [String.isEmpty_iff, Option.isNone_iff_eq_none, Option.isSome_iff_ne_none]
  -- only the bucket limits are left, against their negation
  omega

/-! ## The order of declarations -/

theorem before_iff (a b : IndexDef σ) :
    before a b = true ↔ a.iface < b.iface ∨ (a.iface = b.iface ∧ a.desc.name ≤ b.desc.name) := by
  simp [before]

theorem before_trans (a b c : IndexDef σ) (hab : before a b = true) (hbc : before b c = true) :
    before a c = true := by
  rw [before_iff] at hab hbc ⊢
  rcases hab with hab | ⟨hab, hab'⟩ <;> rcases hbc with hbc | ⟨hbc, hbc'⟩
  · exact .inl (lt_trans hab hbc)
  · exact .inl (hbc ▸ hab)
  · exact .inl (hab ▸ hbc)
  · exact .inr ⟨hab.trans hbc, le_trans hab' hbc'⟩

theorem before_total (a b : IndexDef σ) : (before a b || before b a) = true := by
  rw [Bool.or_eq_true, before_iff, before_iff]
  rcases lt_trichotomy a.iface b.iface with h | h | h
  · exact .inl (.inl h)
  · rcases le_total a.desc.name b.desc.name with hn | hn
    · exact .inl (.inr ⟨h, hn⟩)
    · exact .inr (.inr ⟨h.symm, hn⟩)
  · exact .inr (.inl h)

theorem pairwise_before_mergeSort (defs : List (IndexDef σ)) :
    (defs.mergeSort before).Pairwise fun a b => before a b = true :=
  List.pairwise_mergeSort before_trans before_total defs

/-- Declarations in order with no name twice are strictly in order. -/
theorem precedes_of_before {defs : List (IndexDef σ)} (h : defs.Pairwise fun a b => before a b = true)
    (hn : (defs.map (·.desc.name)).Nodup) : defs.Pairwise IndexDef.Precedes := by
  have hne : defs.Pairwise fun a b => a.desc.name ≠ b.desc.name := List.pairwise_map.1 hn
  refine (h.and hne).imp fun {a b} ⟨hab, hn'⟩ => ?_
  rcases (before_iff a b).1 hab with hlt | ⟨heq, hle⟩
  · exact .inl hlt
  · exact .inr ⟨heq, lt_of_le_of_ne hle hn'⟩

/-! ## The checks in order -/

/-- Adding an interface unless it is the last one keeps a strictly sorted list of interfaces
strictly sorted, when no interface there is above it. -/
theorem pushIface_spec {ifaces : List String} {x : String} (hs : ifaces.Pairwise (· < ·))
    (hle : ∀ i ∈ ifaces, i ≤ x) :
    (if ifaces.getLast? = some x then ifaces else ifaces ++ [x]).Pairwise (· < ·) ∧
      ∀ i, i ∈ (if ifaces.getLast? = some x then ifaces else ifaces ++ [x]) ↔
        i ∈ ifaces ∨ i = x := by
  split_ifs with hx
  · obtain ⟨init, rfl⟩ := List.getLast?_eq_some_iff.1 hx
    refine ⟨hs, fun i => ⟨.inl, ?_⟩⟩
    rintro (hi | rfl)
    · exact hi
    · exact List.mem_append_right _ List.mem_cons_self
  · refine ⟨List.pairwise_append.2 ⟨hs, List.pairwise_singleton _ _, fun i hi j hj => ?_⟩,
      fun i => by simp⟩
    rw [List.mem_singleton.1 hj]
    refine lt_of_le_of_ne (hle i hi) fun hix => hx ?_
    -- `x` is there and nothing there is above it, so it is the last interface
    obtain ⟨init, l, rfl⟩ : ∃ init l, ifaces = init ++ [l] :=
      ⟨ifaces.dropLast, ifaces.getLast (List.ne_nil_of_mem hi),
        (List.dropLast_append_getLast _).symm⟩
    rcases List.mem_append.1 hi with hin | hl
    · have hil : i < l := (List.pairwise_append.1 hs).2.2 i hin l List.mem_cons_self
      exact absurd (hle l (List.mem_append_right _ List.mem_cons_self)) (not_le.2 (hix ▸ hil))
    · rw [List.mem_singleton.1 hl] at hix
      simp [hix]

variable {entityType : String} {faultTolerant : Bool} {first : IndexDef σ}

/-- Declarations sorted by interface, each with nothing wrong and no name twice or seen before,
pass the checks; the interfaces collected are strictly sorted, and are those given and those of
the declarations. -/
theorem check_eq_ok :
    ∀ {seen ifaces : List String} {ds : List (IndexDef σ)},
      ds.Pairwise (fun a b => a.iface ≤ b.iface) → ifaces.Pairwise (· < ·) →
      (∀ i ∈ ifaces, ∀ d ∈ ds, i ≤ d.iface) →
      (∀ d ∈ ds, refusal entityType faultTolerant first d = none) →
      (ds.map (·.desc.name)).Nodup → (∀ d ∈ ds, d.desc.name ∉ seen) →
      ∃ r, check entityType faultTolerant first seen ifaces ds = .ok r ∧
        r.Pairwise (· < ·) ∧ ∀ i, i ∈ r ↔ i ∈ ifaces ∨ ∃ d ∈ ds, d.iface = i
  | _, ifaces, [], _, hs, _, _, _, _ => ⟨ifaces, rfl, hs, by simp⟩
  | seen, ifaces, d :: ds, hsorted, hs, hle, href, hnodup, hseen => by
    obtain ⟨hd, hds⟩ := List.pairwise_cons.1 hsorted
    obtain ⟨hdn, hnodup'⟩ := List.nodup_cons.1 hnodup
    obtain ⟨hpush, hmem⟩ := pushIface_spec hs fun i hi => hle i hi d List.mem_cons_self
    -- the interfaces so far are below every later declaration's
    have hle' : ∀ i ∈ (if ifaces.getLast? = some d.iface then ifaces else ifaces ++ [d.iface]),
        ∀ d' ∈ ds, i ≤ d'.iface := by
      intro i hi d' hd'
      rcases (hmem i).1 hi with hi | rfl
      · exact hle i hi d' (List.mem_cons_of_mem _ hd')
      · exact hd d' hd'
    have hseen' : ∀ d' ∈ ds, d'.desc.name ∉ seen ++ [d.desc.name] := by
      intro d' hd' hm
      rcases List.mem_append.1 hm with hm | hm
      · exact hseen d' (List.mem_cons_of_mem _ hd') hm
      · exact hdn (List.mem_map.2 ⟨d', hd', List.mem_singleton.1 hm⟩)
    obtain ⟨r, hr, hrs, hrm⟩ := check_eq_ok hds hpush hle'
      (fun d' hd' => href d' (List.mem_cons_of_mem _ hd')) hnodup' hseen'
    have hcontains : seen.contains d.desc.name = false := by
      simpa using hseen d List.mem_cons_self
    refine ⟨r, ?_, hrs, fun i => ?_⟩
    · simp only [check, href d List.mem_cons_self, hcontains]
      exact hr
    · rw [hrm, hmem]
      simp only [List.mem_cons, exists_eq_or_imp]
      tauto

/-- A failing check is a configuration failure. -/
theorem check_error :
    ∀ {seen ifaces : List String} {ds : List (IndexDef σ)} {e : Error},
      check entityType faultTolerant first seen ifaces ds = .error e → ∃ m, e = .config m
  | _, _, [], _, h => by cases h
  | seen, ifaces, d :: ds, e, h => by
    unfold check at h
    split at h
    · next why _ => exact ⟨why, (Except.error.inj h).symm⟩
    · split at h
      · exact ⟨_, (Except.error.inj h).symm⟩
      · exact check_error h

/-! ## Schemas made from declarations -/

variable {defs : List (IndexDef σ)} {s : Schema σ}

/-- Accepted declarations have nothing wrong against any of them. -/
theorem Accepts.refusal (h : Accepts faultTolerant defs) {first : IndexDef σ} (hf : first ∈ defs) :
    ∀ d ∈ defs, refusal entityType faultTolerant first d = none := fun d hd =>
  refusal_eq_none_iff.2 ⟨h.iface d hd, h.name d hd, h.reader d hd, h.limits d hd,
    h.eager d hd first hf, fun hft => h.lazy hft d hd⟩

/-- Declarations that pass the checks in order are accepted in any order. -/
theorem accepts_of_check {ifaces : List String}
    (hc : check entityType faultTolerant first [] [] (defs.mergeSort before) = .ok ifaces) :
    Accepts faultTolerant defs := by
  obtain ⟨href, -, hnodup⟩ := check_ok hc
  have hok : ∀ d ∈ defs, refusal entityType faultTolerant first d = none :=
    fun d hd => href d (List.mem_mergeSort.2 hd)
  have hall := fun d hd => refusal_eq_none_iff.1 (hok d hd)
  exact {
    iface := fun d hd => (hall d hd).1
    name := fun d hd => (hall d hd).2.1
    reader := fun d hd => (hall d hd).2.2.1
    limits := fun d hd => (hall d hd).2.2.2.1
    eager := fun d hd d' hd' => (hall d hd).2.2.2.2.1.trans (hall d' hd').2.2.2.2.1.symm
    lazy := fun hft d hd => (hall d hd).2.2.2.2.2 hft
    distinct := ((List.mergeSort_perm defs before).map _).nodup_iff.1 hnodup }

/-- The checks run on the sorted declarations, against the first of them. -/
theorem make_eq (h : entityType ≠ "") :
    make entityType faultTolerant defs = match defs.mergeSort before with
      | [] => .ok ⟨entityType, faultTolerant, [], []⟩
      | first :: rest => (check entityType faultTolerant first [] [] (first :: rest)).map
          fun ifaces => ⟨entityType, faultTolerant, first :: rest, ifaces⟩ := by
  simp only [make, String.isEmpty_iff, h, if_false]
  split <;> simp_all

/-- Accepted declarations, sorted, pass the checks against the first of them, which collect
every interface once, in order. -/
theorem check_sorted (entityType : String) (hacc : Accepts faultTolerant defs) {first : IndexDef σ}
    {rest : List (IndexDef σ)} (hsort : defs.mergeSort before = first :: rest) :
    ∃ r, check entityType faultTolerant first [] [] (first :: rest) = .ok r ∧
      r.Pairwise (· < ·) ∧ ∀ i, i ∈ r ↔ ∃ d ∈ defs, d.iface = i := by
  have hmem : ∀ d, d ∈ first :: rest ↔ d ∈ defs := fun d => hsort ▸ List.mem_mergeSort
  have hbefore := pairwise_before_mergeSort defs
  rw [hsort] at hbefore
  have hsorted : (first :: rest).Pairwise fun a b => a.iface ≤ b.iface :=
    hbefore.imp fun {a b} h => by
      rcases (before_iff a b).1 h with h | ⟨h, -⟩
      · exact le_of_lt h
      · exact le_of_eq h
  have hnodup : ((first :: rest).map (·.desc.name)).Nodup := by
    rw [← hsort]
    exact ((List.mergeSort_perm defs before).map _).nodup_iff.2 hacc.distinct
  have hnone : ∀ d ∈ first :: rest, d.desc.name ∉ ([] : List String) := by simp
  have hifaces : ∀ i ∈ ([] : List String), ∀ d ∈ first :: rest, i ≤ d.iface := by simp
  obtain ⟨r, hr, hrs, hrm⟩ := check_eq_ok hsorted List.Pairwise.nil hifaces
    (fun d hd => hacc.refusal ((hmem first).1 List.mem_cons_self) d ((hmem d).1 hd)) hnodup hnone
  refine ⟨r, hr, hrs, fun i => ?_⟩
  rw [hrm]
  simp only [List.not_mem_nil, false_or]
  exact exists_congr fun d => and_congr_left fun _ => hmem d

/-- A schema that is made is of a type with a name, and holds no declarations when it was given
none, or else the declarations sorted, with the interfaces their checks collected. -/
theorem make_eq_ok (h : make entityType faultTolerant defs = .ok s) :
    entityType ≠ "" ∧ ((defs = [] ∧ s = ⟨entityType, faultTolerant, [], []⟩) ∨
      ∃ first rest ifaces, defs.mergeSort before = first :: rest ∧
        check entityType faultTolerant first [] [] (first :: rest) = .ok ifaces ∧
        s = ⟨entityType, faultTolerant, first :: rest, ifaces⟩) := by
  have he : entityType ≠ "" := by
    rintro rfl
    simp [make] at h
  rw [make_eq he] at h
  refine ⟨he, ?_⟩
  split at h
  · next hnil =>
    cases h
    exact .inl ⟨List.perm_nil.1 (hnil ▸ (List.mergeSort_perm defs before).symm), rfl⟩
  · next first rest hsort =>
    cases hc : check entityType faultTolerant first [] [] (first :: rest) with
    | error e => simp [hc, Except.map] at h
    | ok ifaces =>
      simp only [hc, Except.map, Except.ok.injEq] at h
      exact .inr ⟨first, rest, ifaces, hsort, hc, h.symm⟩

/-- A schema is made exactly when the type has a name and its declarations are accepted. -/
theorem make_isOk_iff :
    (∃ s, make entityType faultTolerant defs = .ok s) ↔
      entityType ≠ "" ∧ Accepts faultTolerant defs := by
  constructor
  · rintro ⟨s, hs⟩
    obtain ⟨he, ⟨rfl, -⟩ | ⟨first, rest, ifaces, hsort, hc, -⟩⟩ := make_eq_ok hs
    · exact ⟨he, by simp, by simp, by simp, by simp, by simp, by simp, List.nodup_nil⟩
    · exact ⟨he, accepts_of_check (hsort ▸ hc)⟩
  · rintro ⟨he, hacc⟩
    rw [make_eq he]
    split
    · exact ⟨_, rfl⟩
    · next first rest hsort =>
      obtain ⟨r, hr, -⟩ := check_sorted entityType hacc hsort
      exact ⟨_, by rw [hr]; rfl⟩

/-- A schema that is made holds the declarations sorted. -/
theorem make_defs_eq (h : make entityType faultTolerant defs = .ok s) :
    s.defs = defs.mergeSort before := by
  obtain ⟨-, ⟨rfl, rfl⟩ | ⟨first, rest, ifaces, hsort, -, rfl⟩⟩ := make_eq_ok h
  · simp
  · exact hsort.symm

/-- A schema that is made holds the declarations given, strictly in order of interface and then
name. -/
theorem make_defs (h : make entityType faultTolerant defs = .ok s) :
    s.defs.Perm defs ∧ s.defs.Pairwise IndexDef.Precedes := by
  have hacc := (make_isOk_iff.1 ⟨s, h⟩).2
  rw [make_defs_eq h]
  refine ⟨List.mergeSort_perm defs before, precedes_of_before (pairwise_before_mergeSort defs) ?_⟩
  exact ((List.mergeSort_perm defs before).map _).nodup_iff.2 hacc.distinct

/-- A schema that is made lists the interfaces of its declarations once each, in order. -/
theorem make_interfaces (h : make entityType faultTolerant defs = .ok s) :
    s.interfaces.Pairwise (· < ·) ∧ ∀ i, i ∈ s.interfaces ↔ ∃ d ∈ defs, d.iface = i := by
  have hacc := (make_isOk_iff.1 ⟨s, h⟩).2
  obtain ⟨-, ⟨rfl, rfl⟩ | ⟨first, rest, ifaces, hsort, hc, rfl⟩⟩ := make_eq_ok h
  · simp
  · obtain ⟨r, hr, hrs, hrm⟩ := check_sorted entityType hacc hsort
    -- the checks collect one list of interfaces
    obtain rfl : ifaces = r := Except.ok.inj (hc.symm.trans hr)
    exact ⟨hrs, hrm⟩

/-- A schema that is not made is refused as a configuration failure. -/
theorem make_error {e : Error} (h : make entityType faultTolerant defs = .error e) :
    ∃ m, e = .config m := by
  by_cases he : entityType = ""
  · simp only [make, String.isEmpty_iff, he, if_true, Except.error.injEq] at h
    exact ⟨_, h.symm⟩
  rw [make_eq he] at h
  split at h
  · cases h
  · next first rest _ =>
    cases hc : check entityType faultTolerant first [] [] (first :: rest) with
    | error e' =>
      simp only [hc, Except.map, Except.error.injEq] at h
      exact h ▸ check_error hc
    | ok ifaces => simp [hc, Except.map] at h

/-! ## The images of a state -/

/-- A declaration gives a state a key exactly when its value has one. -/
theorem keyAt_isOk_iff (d : IndexDef σ) (st : σ) :
    (∃ k, keyAt d st = .ok k) ↔ ∃ k, (d.valueOf st).keyOf = .ok k := by
  unfold keyAt
  split <;> simp_all

/-- A value without a key is a configuration failure, named after its index. -/
theorem keyAt_error {d : IndexDef σ} {st : σ} {e : Error} (h : keyAt d st = .error e) :
    e.mentions .config = true := by
  unfold keyAt at h
  split at h
  · cases h
  · next e' he' =>
    cases h
    unfold IndexValue.keyOf at he'
    split at he'
    · cases he'
    · cases he'
      simp [Error.mentions]

/-- One step of reading the images of a state: the key of one declaration's value. -/
def imageStep (st : σ) (im : Images) (d : IndexDef σ) : Except Error Images := do
  pure (im.set d.iface d.desc.name (← keyAt d st))

theorem extract_eq_foldlM (s : Schema σ) (st : σ) :
    s.extract st = s.defs.foldlM (imageStep st) {} := rfl

theorem foldlM_imageStep_of_ok {st : σ} {d : IndexDef σ} {k : Key} (hk : keyAt d st = .ok k)
    (ds : List (IndexDef σ)) (im : Images) :
    (d :: ds).foldlM (imageStep st) im = ds.foldlM (imageStep st) (im.set d.iface d.desc.name k) := by
  rw [List.foldlM_cons, imageStep, hk]
  rfl

theorem foldlM_imageStep_of_error {st : σ} {d : IndexDef σ} {e : Error} (hk : keyAt d st = .error e)
    (ds : List (IndexDef σ)) (im : Images) : (d :: ds).foldlM (imageStep st) im = .error e := by
  rw [List.foldlM_cons, imageStep, hk]
  rfl

theorem foldlM_imageStep_isOk_iff (st : σ) : ∀ (ds : List (IndexDef σ)) (im : Images),
    (∃ new, ds.foldlM (imageStep st) im = .ok new) ↔ ∀ d ∈ ds, ∃ k, keyAt d st = .ok k
  | [], im => ⟨fun _ => by simp, fun _ => ⟨im, rfl⟩⟩
  | d :: ds, im => by
    cases hk : keyAt d st with
    | error e => simp [foldlM_imageStep_of_error hk, hk]
    | ok k =>
      rw [foldlM_imageStep_of_ok hk, foldlM_imageStep_isOk_iff st ds, List.forall_mem_cons]
      exact ⟨fun h => ⟨⟨k, hk⟩, h⟩, fun h => h.2⟩

theorem foldlM_imageStep_error (st : σ) : ∀ (ds : List (IndexDef σ)) (im : Images) (e : Error),
    ds.foldlM (imageStep st) im = .error e → ∃ d ∈ ds, keyAt d st = .error e
  | [], im, e, h => by cases h
  | d :: ds, im, e, h => by
    cases hk : keyAt d st with
    | error e' =>
      rw [foldlM_imageStep_of_error hk, Except.error.injEq] at h
      exact ⟨d, List.mem_cons_self, h ▸ hk⟩
    | ok k =>
      rw [foldlM_imageStep_of_ok hk] at h
      obtain ⟨d', hd', h'⟩ := foldlM_imageStep_error st ds _ e h
      exact ⟨d', List.mem_cons_of_mem _ hd', h'⟩

/-- The images of a state are read exactly when every declaration's value has a key. -/
theorem extract_isOk_iff (s : Schema σ) (st : σ) :
    (∃ im, s.extract st = .ok im) ↔ ∀ d ∈ s.defs, ∃ k, (d.valueOf st).keyOf = .ok k := by
  rw [extract_eq_foldlM, foldlM_imageStep_isOk_iff]
  exact forall₂_congr fun d _ => keyAt_isOk_iff d st

/-- Images that cannot be read are a configuration failure. -/
theorem extract_error (s : Schema σ) (st : σ) {e : Error} (h : s.extract st = .error e) :
    e.mentions .config = true := by
  obtain ⟨d, -, hd⟩ := foldlM_imageStep_error st s.defs {} e (extract_eq_foldlM s st ▸ h)
  exact keyAt_error hd

end Schema

end EntityIndex.Indexing
