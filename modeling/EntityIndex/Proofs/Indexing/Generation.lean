import Mathlib.Data.List.Nodup
import EntityIndex.Indexing.Generate
import EntityIndex.Proofs.Model.Maps
import EntityIndex.Proofs.Cluster.EnforcedPairs
import EntityIndex.Proofs.Cluster.ActivationTracking

/-!
# Generated updates advance the images

Updates and images are both maps of maps: by interface, then by index name. Setting one pair of
names changes the value under that pair only (`lookup_insertByName₂`), and generation keeps its
updates `Grouped`: both levels sorted by name, no interface without an update. Committing grouped
updates therefore moves each image on by the update of its own index, and leaves every other
image alone (`Images.get_commit`).

A schema that `Schema.make` accepts is `Sound`: no two declarations share a name, and all of them
are eager or all lazy. Generation over a sound schema never meets the eager and lazy mix it
refuses, and collects exactly the real updates of the declarations it considers (`Collected`,
carried by `Collected.step` over the declarations). The main statement,
`generated_updates_advance_images`, reads this off for the three events: a write produces the
change from each image to the key of the new state, after which the committed images are the new
keys and a second write finds nothing to do; activation inserts and deactivation deletes the
recorded images of the active-only indexes, and committing a deactivation clears them.
-/

namespace EntityIndex.Indexing

/-! ## Maps of maps -/

section Maps

variable {α : Type}

/-- Setting a value under a pair of names in a map of maps changes the value under that pair
and no other. -/
theorem lookup_insertByName₂ (l : List (String × List (String × α))) (i n i' n' : String)
    (v : α) :
    ((insertByName i (insertByName n v ((l.lookup i).getD [])) l).lookup i').bind (·.lookup n') =
      if i' = i ∧ n' = n then some v else (l.lookup i').bind (·.lookup n') := by
  rw [lookup_insertByName]
  by_cases hi : i' = i
  · subst hi
    rw [if_pos rfl, Option.bind_some, lookup_insertByName]
    by_cases hn : n' = n
    · simp [hn]
    · cases l.lookup i' <;> simp [hn]
  · simp [hi]

/-- A map of maps as generation builds it: interfaces sorted by name, the indexes of each
sorted by name, and no interface without an entry. -/
structure Grouped (l : List (String × List (String × α))) : Prop where
  sorted : NamesSorted l
  inner : ∀ g ∈ l, NamesSorted g.2 ∧ g.2 ≠ []

theorem Grouped.nil : Grouped ([] : List (String × List (String × α))) :=
  ⟨List.Pairwise.nil, fun _ h => absurd h List.not_mem_nil⟩

theorem Grouped.insert {l : List (String × List (String × α))} (h : Grouped l) (i n : String)
    (v : α) : Grouped (insertByName i (insertByName n v ((l.lookup i).getD [])) l) := by
  refine ⟨namesSorted_insertByName _ _ h.sorted, fun g hg => ?_⟩
  rcases mem_insertByName hg with rfl | hg
  · -- the interface's own map gains the index, keeping its order
    have hold : NamesSorted ((l.lookup i).getD []) := by
      cases hl : l.lookup i with
      | none => exact List.Pairwise.nil
      | some g => exact (h.inner _ (mem_of_lookup_eq_some hl)).1
    refine ⟨namesSorted_insertByName _ _ hold, ?_⟩
    cases (l.lookup i).getD [] with
    | nil => simp [insertByName]
    | cons p rest =>
      simp only [insertByName]
      split_ifs <;> simp
  · exact h.inner g hg

/-- A grouped map of maps is empty exactly when no pair of names finds anything in it. -/
theorem Grouped.eq_nil_iff {l : List (String × List (String × α))} (h : Grouped l) :
    l = [] ↔ ∀ i n, (l.lookup i).bind (·.lookup n) = none := by
  constructor
  · rintro rfl i n
    rfl
  · intro hnone
    cases l with
    | nil => rfl
    | cons g rest =>
      -- the first interface has an index, and looking it up finds its entry
      obtain ⟨i, us⟩ := g
      obtain ⟨⟨n, v⟩, us', rfl⟩ := List.exists_cons_of_ne_nil (h.inner _ List.mem_cons_self).2
      have := hnone i n
      simp at this

end Maps

/-! ## Images and updates by interface and index -/

/-- The update generated for an index of an interface, if any. -/
def Updates.find? (u : Updates) (iface index : String) : Option MemberUpdate :=
  (u.byInterface.lookup iface).bind (·.lookup index)

theorem Updates.find?_add (u : Updates) (i n : String) (m : MemberUpdate) (i' n' : String) :
    (u.add i n m).find? i' n' = if i' = i ∧ n' = n then some m else u.find? i' n' :=
  lookup_insertByName₂ _ _ _ _ _ _

theorem Updates.empty_iff {u : Updates} (h : Grouped u.byInterface) :
    u.empty = true ↔ ∀ i n, u.find? i n = none := by
  rw [Updates.empty, List.isEmpty_iff]
  exact h.eq_nil_iff

theorem Images.get_set (im : Images) (i n : String) (k : Key) (i' n' : String) :
    (im.set i n k).get i' n' = if i' = i ∧ n' = n then k else im.get i' n' := by
  unfold Images.get Images.set
  rw [lookup_insertByName₂]
  split_ifs <;> rfl

/-- Committing the updates of one interface moves each of its images on by its own update. -/
theorem Images.get_commitIface {iface : String} {us : List (String × MemberUpdate)}
    (hus : NamesSorted us) (im : Images) (i n : String) :
    (us.foldl (fun im (index, u) => im.set iface index (u.nextImage (im.get iface index))) im).get
        i n =
      if i = iface then (us.lookup n).elim (im.get i n) (·.nextImage (im.get i n))
      else im.get i n := by
  induction us generalizing im with
  | nil => split_ifs <;> rfl
  | cons p rest ih =>
    obtain ⟨n₀, m⟩ := p
    simp only [NamesSorted, List.pairwise_cons] at hus
    rw [List.foldl_cons, ih hus.2, Images.get_set, lookup_cons_eq_ite]
    by_cases hi : i = iface
    · by_cases hn : n = n₀
      · -- the first index: later indexes have larger names, so its image is set once
        have hrest : rest.lookup n₀ = none :=
          lookup_eq_none_iff.2 fun x hx => (ne_of_lt (hus.1 x hx)).symm
        subst hi hn
        simp [hrest]
      · simp [hi, hn]
    · simp [hi]

/-- Committing grouped updates moves each image on by the update of its own index and leaves every
other image as it was. -/
theorem Images.get_commit {ups : List (String × List (String × MemberUpdate))} (h : Grouped ups)
    (im : Images) (i n : String) :
    (im.commit ups).get i n =
      ((ups.lookup i).bind (·.lookup n)).elim (im.get i n) (·.nextImage (im.get i n)) := by
  induction ups generalizing im with
  | nil => rfl
  | cons g rest ih =>
    obtain ⟨iface, us⟩ := g
    have hrest : Grouped rest :=
      ⟨(List.pairwise_cons.1 h.sorted).2, fun g hg => h.inner g (List.mem_cons_of_mem _ hg)⟩
    unfold Images.commit at ih ⊢
    rw [List.foldl_cons, ih hrest, Images.get_commitIface (h.inner _ List.mem_cons_self).1,
      lookup_cons_eq_ite]
    by_cases hi : i = iface
    · -- a later interface has a larger name, so this one's images are committed once
      have hnone : rest.lookup iface = none :=
        lookup_eq_none_iff.2 fun x hx => (ne_of_lt ((List.pairwise_cons.1 h.sorted).1 x hx)).symm
      subst hi
      simp [hnone]
    · simp [hi]

/-! ## Sound schemas -/

section Sound

variable {σ : Type}

/-- What `Schema.make` guarantees of the declarations it accepts: no two share a name, and all of
them are eager or all lazy. -/
structure Schema.Sound (s : Schema σ) : Prop where
  nodup : (s.defs.map (·.desc.name)).Nodup
  eager : ∀ d ∈ s.defs, ∀ d' ∈ s.defs, d.desc.eager = d'.desc.eager

/-- A declaration with nothing wrong has the eagerness of the first. -/
theorem Schema.eager_of_refusal {entityType : String} {faultTolerant : Bool} {first d : IndexDef σ}
    (h : Schema.refusal entityType faultTolerant first d = none) :
    d.desc.eager = first.desc.eager := by
  unfold Schema.refusal at h
  split_ifs at h with _ _ _ _ heager
  simpa using heager

/-- Declarations that pass the checks have nothing wrong and pairwise different names, none of
them among the names seen before. -/
theorem Schema.check_ok {entityType : String} {faultTolerant : Bool} {first : IndexDef σ} :
    ∀ {seen ifaces : List String} {ds : List (IndexDef σ)} {r : List String},
      Schema.check entityType faultTolerant first seen ifaces ds = .ok r →
      (∀ d ∈ ds, Schema.refusal entityType faultTolerant first d = none) ∧
        (∀ d ∈ ds, d.desc.name ∉ seen) ∧ (ds.map (·.desc.name)).Nodup
  | _, _, [], _, _ => by simp
  | seen, ifaces, d :: ds, r, h => by
    unfold Schema.check at h
    split at h
    · cases h
    · next hd =>
      split at h
      · cases h
      · next hseen =>
        obtain ⟨hrest, hnew, hnodup⟩ := Schema.check_ok h
        have hd' : d.desc.name ∉ seen := by simpa using hseen
        refine ⟨?_, ?_, ?_⟩
        · simpa [hd] using hrest
        · simp only [List.mem_cons, forall_eq_or_imp]
          exact ⟨hd', fun d' hd'' hs => hnew d' hd'' (List.mem_append_left _ hs)⟩
        · -- a later name is not among the names seen before it, the current one included
          refine List.nodup_cons.2 ⟨fun hm => ?_, hnodup⟩
          obtain ⟨d', hd'', hname⟩ := List.mem_map.1 hm
          exact hnew d' hd'' (by simp [hname])

/-- Every schema that `Schema.make` accepts is sound. -/
theorem Schema.make_sound {entityType : String} {faultTolerant : Bool} {decls : List (IndexDef σ)}
    {s : Schema σ} (h : Schema.make entityType faultTolerant decls = .ok s) : s.Sound := by
  unfold Schema.make at h
  split at h
  · cases h
  · dsimp only at h
    split at h
    · cases h
      exact ⟨List.nodup_nil, by simp⟩
    · next first _ _ =>
      cases hcheck : Schema.check entityType faultTolerant first [] [] (decls.mergeSort Schema.before)
        with
      | error e => simp [hcheck, Except.map] at h
      | ok ifaces =>
        simp only [hcheck, Except.map, Except.ok.injEq] at h
        obtain ⟨href, -, hnodup⟩ := Schema.check_ok hcheck
        subst h
        -- every declaration has the eagerness of the first
        have heager : ∀ d ∈ decls.mergeSort Schema.before, d.desc.eager = first.desc.eager :=
          fun d hd => Schema.eager_of_refusal (href d hd)
        exact ⟨hnodup, fun d hd d' hd' => (heager d hd).trans (heager d' hd').symm⟩

/-- In a sound schema a declaration is known by its name. -/
theorem Schema.Sound.eq_of_name {s : Schema σ} (hs : s.Sound) {d d' : IndexDef σ}
    (hd : d ∈ s.defs) (hd' : d' ∈ s.defs) (h : d.desc.name = d'.desc.name) : d = d' :=
  List.inj_on_of_nodup_map hs.nodup hd hd' h

end Sound

/-! ## Generation, one declaration at a time -/

section Collect

variable {σ : Type} (onlyActive : Bool) (upd : IndexDef σ → MemberUpdate)

/-- Whether generation records an update for a declaration: it looks at the declaration (all of
them, or only the active-only ones), and the declaration's update `upd d` changes something. -/
def touches (d : IndexDef σ) : Bool := (!onlyActive || d.desc.activeOnly) && (upd d).isReal

/-- What generation has gathered after the declarations `done`, when `upd d` is the update each
declaration it looks at makes: the real updates grouped by interface and index, the count of those
for unique indexes, whether all of them are, and an eagerness some declaration has. -/
structure Collected (done : List (IndexDef σ)) (p : Progress) : Prop where
  grouped : Grouped p.updates.byInterface
  find : ∀ i n m, p.updates.find? i n = some m ↔
    ∃ d ∈ done, touches onlyActive upd d = true ∧ d.iface = i ∧ d.desc.name = n ∧ m = upd d
  numUnique : p.updates.numUnique =
    (done.filter fun d => touches onlyActive upd d && d.desc.unique).length
  onlyUnique : p.updates.onlyUniqueUpdated =
    done.all fun d => !touches onlyActive upd d || d.desc.unique
  first : ∀ e n, p.first = some (e, n) → ∃ d ∈ done, d.desc.eager = e

variable {onlyActive upd}

theorem Collected.init : Collected onlyActive upd [] ⟨{ onlyUniqueUpdated := true }, none⟩ where
  grouped := Grouped.nil
  find i n m := by simp [Updates.find?]
  numUnique := rfl
  onlyUnique := rfl
  first _ _ h := by cases h

/-- A declaration generation records nothing for leaves what it gathered as it was. -/
theorem Collected.skip {done : List (IndexDef σ)} {p : Progress} {d : IndexDef σ}
    (h : Collected onlyActive upd done p) (hd : touches onlyActive upd d = false) :
    Collected onlyActive upd (done ++ [d]) p where
  grouped := h.grouped
  find i n m := by
    rw [h.find]
    constructor
    · rintro ⟨d', hd', rest⟩
      exact ⟨d', List.mem_append_left _ hd', rest⟩
    · rintro ⟨d', hd', ht, rest⟩
      rcases List.mem_append.1 hd' with hd' | hd'
      · exact ⟨d', hd', ht, rest⟩
      · rw [List.mem_singleton.1 hd', hd] at ht
        cases ht
  numUnique := by simp [h.numUnique, hd]
  onlyUnique := by simp [h.onlyUnique, hd]
  first e n hf := (h.first e n hf).imp fun _ ⟨hd', he⟩ => ⟨List.mem_append_left _ hd', he⟩

/-- Recording the update of a declaration whose name is new finds it under its own interface and
name, and everything gathered before elsewhere. -/
theorem Collected.find_add {done : List (IndexDef σ)} {p : Progress} {d : IndexDef σ}
    (h : Collected onlyActive upd done p) (hd : touches onlyActive upd d = true)
    (hname : ∀ d' ∈ done, d'.desc.name ≠ d.desc.name) (i n : String) (m : MemberUpdate) :
    (p.updates.add d.iface d.desc.name (upd d)).find? i n = some m ↔
      ∃ d' ∈ done ++ [d], touches onlyActive upd d' = true ∧ d'.iface = i ∧ d'.desc.name = n ∧
        m = upd d' := by
  rw [Updates.find?_add]
  by_cases hin : i = d.iface ∧ n = d.desc.name
  · obtain ⟨rfl, rfl⟩ := hin
    rw [if_pos ⟨rfl, rfl⟩, Option.some.injEq]
    constructor
    · rintro rfl
      exact ⟨d, List.mem_append_right _ List.mem_cons_self, hd, rfl, rfl, rfl⟩
    · -- an earlier declaration has another name, so the one found is `d` itself
      rintro ⟨d', hd', -, -, hn, rfl⟩
      rcases List.mem_append.1 hd' with hd' | hd'
      · exact absurd hn (hname d' hd')
      · rw [List.mem_singleton.1 hd']
  · rw [if_neg hin, h.find]
    constructor
    · rintro ⟨d', hd', rest⟩
      exact ⟨d', List.mem_append_left _ hd', rest⟩
    · rintro ⟨d', hd', ht, hi, hn, hm⟩
      rcases List.mem_append.1 hd' with hd' | hd'
      · exact ⟨d', hd', ht, hi, hn, hm⟩
      · rw [List.mem_singleton.1 hd'] at hi hn
        exact absurd ⟨hi.symm, hn.symm⟩ hin

/-- Recording the real update of a declaration with a new name, counted by whether its index is
unique, gathers the declaration. -/
theorem Collected.add {done : List (IndexDef σ)} {p : Progress} {d : IndexDef σ}
    (h : Collected onlyActive upd done p) (hd : touches onlyActive upd d = true)
    (hname : ∀ d' ∈ done, d'.desc.name ≠ d.desc.name) (f : Bool × String)
    (hf : ∃ d' ∈ done ++ [d], d'.desc.eager = f.1) :
    Collected onlyActive upd (done ++ [d])
      ⟨if d.desc.unique then
          { p.updates.add d.iface d.desc.name (upd d) with
            numUnique := (p.updates.add d.iface d.desc.name (upd d)).numUnique + 1 }
        else { p.updates.add d.iface d.desc.name (upd d) with onlyUniqueUpdated := false },
        some f⟩ where
  grouped := by split <;> exact h.grouped.insert _ _ _
  find := by split <;> exact h.find_add hd hname
  numUnique := by
    by_cases hu : d.desc.unique = true <;> simp [hu, hd, h.numUnique, Updates.add]
  onlyUnique := by
    by_cases hu : d.desc.unique = true <;> simp [hu, hd, h.onlyUnique, Updates.add]
  first e n he := by
    cases he
    exact hf

variable (images : Images) (st : σ) (reason : Reason)

/-- One step of generation over a declaration with a new name and the common eagerness, whose
update when looked at is `upd d`, succeeds and gathers the declaration. -/
theorem Collected.step {done : List (IndexDef σ)} {p : Progress} {d : IndexDef σ}
    (h : Collected onlyActive upd done p) (hname : ∀ d' ∈ done, d'.desc.name ≠ d.desc.name)
    (heager : ∀ d' ∈ done, d'.desc.eager = d.desc.eager)
    (hupd : (!onlyActive || d.desc.activeOnly) = true →
      updateFor d (images.get d.iface d.desc.name) st reason = .ok (upd d)) :
    ∃ p', generateStep images st reason onlyActive p d = .ok p' ∧
      Collected onlyActive upd (done ++ [d]) p' := by
  unfold generateStep
  by_cases hsel : (!onlyActive || d.desc.activeOnly) = true
  · have hpass : (onlyActive && !d.desc.activeOnly) = false := by
      cases onlyActive <;> simp_all
    simp only [hpass, Bool.false_eq_true, if_false, hupd hsel, bind, Except.bind]
    by_cases hreal : (upd d).isReal = true
    · have hd : touches onlyActive upd d = true := by simp [touches, hsel, hreal]
      simp only [hreal, Bool.not_true, Bool.false_eq_true, if_false]
      cases hp : p.first with
      | none =>
        exact ⟨_, rfl, h.add hd hname _ ⟨d, List.mem_append_right _ List.mem_cons_self, rfl⟩⟩
      | some f =>
        obtain ⟨e, n⟩ := f
        -- the first eagerness recorded is the common one, so the mix is never met
        obtain ⟨d', hd', he⟩ := h.first e n hp
        have he' : e = d.desc.eager := he ▸ heager d' hd'
        simp only [he', bne_self_eq_false, Bool.false_eq_true, if_false]
        exact ⟨_, rfl, h.add hd hname _ ⟨d', List.mem_append_left _ hd', he.trans he'⟩⟩
    · have hd : touches onlyActive upd d = false := by simp [touches, hreal]
      exact ⟨p, by simp [hreal, pure, Except.pure], h.skip hd⟩
  · have hd : touches onlyActive upd d = false := by simp [touches, hsel]
    have hpass : (onlyActive && !d.desc.activeOnly) = true := by
      cases onlyActive <;> simp_all
    exact ⟨p, by simp [hpass, pure, Except.pure], h.skip hd⟩

/-- Generation over declarations with pairwise different names and one eagerness, each with its
update when looked at, succeeds and gathers them all. -/
theorem Collected.run :
    ∀ (ds done : List (IndexDef σ)) (p : Progress),
      ((done ++ ds).map (·.desc.name)).Nodup →
      (∀ d ∈ done ++ ds, ∀ d' ∈ done ++ ds, d.desc.eager = d'.desc.eager) →
      (∀ d ∈ ds, (!onlyActive || d.desc.activeOnly) = true →
        updateFor d (images.get d.iface d.desc.name) st reason = .ok (upd d)) →
      Collected onlyActive upd done p →
      ∃ p', ds.foldlM (generateStep images st reason onlyActive) p = .ok p' ∧
        Collected onlyActive upd (done ++ ds) p'
  | [], done, p, _, _, _, h => ⟨p, rfl, by simpa using h⟩
  | d :: ds, done, p, hnodup, heager, hupd, h => by
    have hname : ∀ d' ∈ done, d'.desc.name ≠ d.desc.name := by
      rw [List.map_append, List.nodup_append] at hnodup
      exact fun d' hd' =>
        hnodup.2.2 _ (List.mem_map_of_mem hd') _ (List.mem_map_of_mem List.mem_cons_self)
    obtain ⟨p₁, hp₁, h₁⟩ := h.step images st reason hname
      (fun d' hd' => heager d' (List.mem_append_left _ hd') d (by simp))
      (hupd d List.mem_cons_self)
    have happ : done ++ d :: ds = (done ++ [d]) ++ ds := by simp
    rw [happ] at hnodup heager ⊢
    obtain ⟨p', hp', h'⟩ := Collected.run ds (done ++ [d]) p₁ hnodup heager
      (fun d' hd' => hupd d' (List.mem_cons_of_mem _ hd')) h₁
    exact ⟨p', by rw [List.foldlM_cons, hp₁]; exact hp', h'⟩

end Collect

/-! ## What generation produces -/

section Generated

variable {σ : Type} (onlyActive : Bool) (upd : IndexDef σ → MemberUpdate)

/-- The updates generated from the declarations `defs`, when `upd d` is the update of each
declaration looked at: the real ones grouped by interface and index, the count of those for unique
indexes, and the flag that there are some and all of them are for unique indexes. -/
structure Generated (defs : List (IndexDef σ)) (u : Updates) : Prop where
  grouped : Grouped u.byInterface
  find : ∀ i n m, u.find? i n = some m ↔
    ∃ d ∈ defs, touches onlyActive upd d = true ∧ d.iface = i ∧ d.desc.name = n ∧ m = upd d
  numUnique : u.numUnique = (defs.filter fun d => touches onlyActive upd d && d.desc.unique).length
  onlyUnique : u.onlyUniqueUpdated =
    (!u.empty && defs.all fun d => !touches onlyActive upd d || d.desc.unique)

variable {onlyActive upd}

/-- Generation over a sound schema, given the update of each declaration it looks at, succeeds
with exactly those updates. -/
theorem generate_generated (onlyActive : Bool) (upd : IndexDef σ → MemberUpdate) (images : Images)
    (st : σ) (reason : Reason) {s : Schema σ}
    (hs : s.Sound) (hupd : ∀ d ∈ s.defs, (!onlyActive || d.desc.activeOnly) = true →
      updateFor d (images.get d.iface d.desc.name) st reason = .ok (upd d)) :
    ∃ u, generate s images st reason onlyActive = .ok u ∧ Generated onlyActive upd s.defs u := by
  obtain ⟨p, hp, h⟩ := Collected.run images st reason s.defs [] _ (by simpa using hs.nodup)
    (by simpa using hs.eager) hupd Collected.init
  rw [List.nil_append] at h
  unfold generate
  rw [hp]
  refine ⟨_, rfl, ?_⟩
  -- only the eagerness and, when nothing changed, the flag differ from what was gathered
  split_ifs with hempty
  · -- nothing changed, and the flag is cleared
    have hempty' : p.updates.empty = true := hempty
    refine ⟨h.grouped, h.find, h.numUnique, ?_⟩
    change false = (!p.updates.empty && _)
    rw [hempty', Bool.not_true, Bool.false_and]
  · have hempty' : p.updates.empty = false := Bool.eq_false_iff.2 hempty
    refine ⟨h.grouped, h.find, h.numUnique, ?_⟩
    change p.updates.onlyUniqueUpdated = (!p.updates.empty && _)
    rw [hempty', h.onlyUnique, Bool.not_false, Bool.true_and]

/-- In a sound schema, generation has a declaration's update under its interface and name when it
records one, and nothing there otherwise. -/
theorem Generated.find_decl {s : Schema σ} (hs : s.Sound) {u : Updates}
    (h : Generated onlyActive upd s.defs u) {d : IndexDef σ} (hd : d ∈ s.defs) :
    u.find? d.iface d.desc.name = if touches onlyActive upd d then some (upd d) else none := by
  split
  · next ht => exact (h.find _ _ _).2 ⟨d, hd, ht, rfl, rfl, rfl⟩
  · next ht =>
    cases hf : u.find? d.iface d.desc.name with
    | none => rfl
    | some m =>
      -- what is found there belongs to a declaration of the same name, which is `d`
      obtain ⟨d', hd', ht', -, hn, -⟩ := (h.find _ _ _).1 hf
      rw [hs.eq_of_name hd' hd hn] at ht'
      exact absurd ht' ht

end Generated


/-! ## The images of a state -/

section Extract

variable {σ : Type} (st : σ)

/-- Reading the keys of a state declaration by declaration gives each declaration the key of its
value, and leaves the images of every other name as they were. -/
theorem Schema.extract_foldlM :
    ∀ (ds : List (IndexDef σ)) (im : Images), (ds.map (·.desc.name)).Nodup →
      (∀ d ∈ ds, ∃ k, Schema.keyAt d st = .ok k) →
      ∃ new, ds.foldlM (fun im d => do pure (im.set d.iface d.desc.name (← Schema.keyAt d st)))
          im = .ok new ∧
        (∀ d ∈ ds, Schema.keyAt d st = .ok (new.get d.iface d.desc.name)) ∧
        ∀ i n, (∀ d ∈ ds, d.desc.name ≠ n) → new.get i n = im.get i n
  | [], im, _, _ => ⟨im, rfl, by simp, fun _ _ _ => rfl⟩
  | d :: ds, im, hnodup, hkeys => by
    obtain ⟨k, hk⟩ := hkeys d List.mem_cons_self
    obtain ⟨hd, hnodup'⟩ := List.nodup_cons.1 hnodup
    obtain ⟨new, hfold, hnew, hframe⟩ := Schema.extract_foldlM ds (im.set d.iface d.desc.name k)
      hnodup' fun d' hd' => hkeys d' (List.mem_cons_of_mem _ hd')
    -- a later declaration has another name, so `d`'s image stays as it was set
    have hlater : ∀ d' ∈ ds, d'.desc.name ≠ d.desc.name :=
      fun d' hd' hn => hd (List.mem_map.2 ⟨d', hd', hn⟩)
    refine ⟨new, by rw [List.foldlM_cons, hk]; exact hfold, fun d' hd' => ?_, fun i n hn => ?_⟩
    · rcases List.mem_cons.1 hd' with rfl | hd'
      · rw [hframe _ _ hlater, Images.get_set, if_pos ⟨rfl, rfl⟩, hk]
      · exact hnew d' hd'
    · rw [hframe i n fun d' hd' => hn d' (List.mem_cons_of_mem _ hd'), Images.get_set,
        if_neg fun h => hn d List.mem_cons_self h.2.symm]

/-- Under a sound schema, a state whose values all have keys has images, and each declaration's
image is the key of its value. -/
theorem Schema.extract_keys {s : Schema σ} (hs : s.Sound)
    (hkeys : ∀ d ∈ s.defs, ∃ k, Schema.keyAt d st = .ok k) :
    ∃ new, s.extract st = .ok new ∧
      ∀ d ∈ s.defs, Schema.keyAt d st = .ok (new.get d.iface d.desc.name) := by
  obtain ⟨new, hfold, hnew, -⟩ := Schema.extract_foldlM st s.defs {} hs.nodup hkeys
  exact ⟨new, hfold, hnew⟩

end Extract

/-! ## Writes, activations and deactivations -/

theorem diff_null_left {k : Key} (h : k ≠ Key.null) :
    diff Key.null k = ⟨.insert, Key.null, k⟩ := by
  rcases diff_of_ne (Ne.symm h) with ⟨-, hd⟩ | ⟨hk, -⟩ | ⟨hn, -, -⟩
  · exact hd
  · exact absurd hk h
  · exact absurd rfl hn

theorem diff_null_right {k : Key} (h : k ≠ Key.null) :
    diff k Key.null = ⟨.delete, k, Key.null⟩ := by
  rcases diff_of_ne h with ⟨hk, -⟩ | ⟨-, hd⟩ | ⟨-, hn, -⟩
  · exact absurd hk h
  · exact hd
  · exact absurd rfl hn

section Events

variable {σ : Type} {s : Schema σ} (im : Images) (st : σ)

/-- A write looks at every declaration and changes those whose image is not the new key. -/
theorem touches_write (new : Images) (d : IndexDef σ) :
    touches false (fun d => diff (im.get d.iface d.desc.name) (new.get d.iface d.desc.name)) d =
      (im.get d.iface d.desc.name != new.get d.iface d.desc.name) := by
  simp only [touches, Bool.not_false, Bool.true_or, Bool.true_and]
  exact Bool.eq_iff_iff.2 (isReal_diff.trans (ne_comm.trans bne_iff_ne.symm))

/-- A write over a sound schema, with the new keys at hand, changes exactly the indexes whose
image is not the new key, from the image to the key, and nothing when there are none; it counts
and flags the unique ones, and committing it leaves every index at its new key. -/
theorem write_generates_changes (hs : s.Sound) {new : Images}
    (hnew : ∀ d ∈ s.defs, Schema.keyAt d st = .ok (new.get d.iface d.desc.name)) :
    ∃ u, generate s im st .write false = .ok u ∧
      (∀ i n m, u.find? i n = some m ↔ ∃ d ∈ s.defs, d.iface = i ∧ d.desc.name = n ∧
        im.get i n ≠ new.get i n ∧ m = diff (im.get i n) (new.get i n)) ∧
      (u.empty = true ↔ ∀ d ∈ s.defs, im.get d.iface d.desc.name = new.get d.iface d.desc.name) ∧
      u.numUnique = (s.defs.filter fun d =>
        d.desc.unique && im.get d.iface d.desc.name != new.get d.iface d.desc.name).length ∧
      (u.onlyUniqueUpdated = true ↔ u.empty = false ∧ ∀ d ∈ s.defs,
        im.get d.iface d.desc.name ≠ new.get d.iface d.desc.name → d.desc.unique = true) ∧
      ∀ d ∈ s.defs,
        (im.commit u.byInterface).get d.iface d.desc.name = new.get d.iface d.desc.name := by
  obtain ⟨u, hgen, h⟩ := generate_generated false
    (fun d => diff (im.get d.iface d.desc.name) (new.get d.iface d.desc.name)) im st .write hs
    fun d hd _ => updateFor_write d (hnew d hd) _
  have hfind : ∀ i n m, u.find? i n = some m ↔ ∃ d ∈ s.defs, d.iface = i ∧ d.desc.name = n ∧
      im.get i n ≠ new.get i n ∧ m = diff (im.get i n) (new.get i n) := by
    intro i n m
    rw [h.find]
    constructor
    · rintro ⟨d, hd, ht, rfl, rfl, rfl⟩
      rw [touches_write, bne_iff_ne] at ht
      exact ⟨d, hd, rfl, rfl, ht, rfl⟩
    · rintro ⟨d, hd, rfl, rfl, hne, rfl⟩
      exact ⟨d, hd, by rw [touches_write, bne_iff_ne]; exact hne, rfl, rfl, rfl⟩
  refine ⟨u, hgen, hfind, ?_, ?_, ?_, fun d hd => ?_⟩
  · rw [Updates.empty_iff h.grouped]
    constructor
    · -- a changed index would have its update found
      intro hnone d hd
      by_contra hne
      have hsome := (hfind d.iface d.desc.name _).2 ⟨d, hd, rfl, rfl, hne, rfl⟩
      rw [hnone] at hsome
      cases hsome
    · intro hcur i n
      cases hf : u.find? i n with
      | none => rfl
      | some m =>
        obtain ⟨d, hd, rfl, rfl, hne, -⟩ := (hfind _ _ _).1 hf
        exact absurd (hcur d hd) hne
  · rw [h.numUnique]
    congr 1
    exact List.filter_congr fun d _ => by rw [touches_write, Bool.and_comm]
  · rw [h.onlyUnique]
    simp [touches_write, List.all_eq_true, imp_iff_not_or]
  · -- a changed image moves to the new key; an unchanged one already is the new key
    rw [Images.get_commit h.grouped]
    change (u.find? d.iface d.desc.name).elim _ _ = _
    rw [h.find_decl hs hd]
    split
    · exact nextImage_diff _ _
    · next ht =>
      rw [touches_write, bne_iff_ne, ne_eq, not_not] at ht
      exact ht

/-- A write that finds every index already at its new key changes nothing. -/
theorem write_of_current_is_empty (hs : s.Sound) {new : Images}
    (hnew : ∀ d ∈ s.defs, Schema.keyAt d st = .ok (new.get d.iface d.desc.name))
    (hcur : ∀ d ∈ s.defs, im.get d.iface d.desc.name = new.get d.iface d.desc.name) :
    (generate s im st .write false).map Updates.empty = .ok true := by
  obtain ⟨u, hgen, -, hempty, -⟩ := write_generates_changes im st hs hnew
  rw [hgen]
  exact congrArg Except.ok (hempty.2 hcur)

/-- Activation and deactivation look at the active-only indexes, and change those with an image. -/
theorem touches_recorded {toward : Key → MemberUpdate}
    (hreal : ∀ k, (toward k).isReal = true ↔ k ≠ Key.null) (d : IndexDef σ) :
    touches true (fun d => toward (im.get d.iface d.desc.name)) d = true ↔
      d.desc.activeOnly = true ∧ im.get d.iface d.desc.name ≠ Key.null := by
  simp only [touches, Bool.not_true, Bool.false_or, Bool.and_eq_true]
  rw [hreal]

/-- An event that changes each image by `toward` finds, over a sound schema and the active-only
indexes, exactly the changes of the indexes with an image. -/
theorem Generated.find_recorded {toward : Key → MemberUpdate}
    (hreal : ∀ k, (toward k).isReal = true ↔ k ≠ Key.null) {u : Updates}
    (h : Generated true (fun d => toward (im.get d.iface d.desc.name)) s.defs u)
    (i n : String) (m : MemberUpdate) :
    u.find? i n = some m ↔ ∃ d ∈ s.defs, d.iface = i ∧ d.desc.name = n ∧
      d.desc.activeOnly = true ∧ im.get i n ≠ Key.null ∧ m = toward (im.get i n) := by
  rw [h.find]
  constructor
  · rintro ⟨d, hd, ht, rfl, rfl, rfl⟩
    obtain ⟨ha, hne⟩ := (touches_recorded im hreal d).1 ht
    exact ⟨d, hd, rfl, rfl, ha, hne, rfl⟩
  · rintro ⟨d, hd, rfl, rfl, ha, hne, rfl⟩
    exact ⟨d, hd, (touches_recorded im hreal d).2 ⟨ha, hne⟩, rfl, rfl, rfl⟩

/-- Activation over a sound schema inserts the image of every active-only index that has one. -/
theorem activate_inserts_images (hs : s.Sound) :
    ∃ u, generate s im st .activate true = .ok u ∧
      ∀ i n m, u.find? i n = some m ↔ ∃ d ∈ s.defs, d.iface = i ∧ d.desc.name = n ∧
        d.desc.activeOnly = true ∧ im.get i n ≠ Key.null ∧
        m = ⟨.insert, Key.null, im.get i n⟩ := by
  have hreal : ∀ k, (diff Key.null k).isReal = true ↔ k ≠ Key.null := fun _ => isReal_diff
  obtain ⟨u, hgen, h⟩ := generate_generated true
    (fun d => diff Key.null (im.get d.iface d.desc.name)) im st .activate hs
    fun d _ _ => updateFor_activate d _ st
  refine ⟨u, hgen, fun i n m => ?_⟩
  rw [h.find_recorded im hreal]
  -- the change from the null key to an image is its insert
  constructor
  · rintro ⟨d, hd, hi, hn, ha, hne, rfl⟩
    exact ⟨d, hd, hi, hn, ha, hne, diff_null_left hne⟩
  · rintro ⟨d, hd, hi, hn, ha, hne, rfl⟩
    exact ⟨d, hd, hi, hn, ha, hne, (diff_null_left hne).symm⟩

/-- Deactivation over a sound schema deletes the image of every active-only index that has one,
and committing it leaves the active-only indexes without an image and every other as it was. -/
theorem deactivate_clears_images (hs : s.Sound) :
    ∃ u, generate s im st .deactivate true = .ok u ∧
      (∀ i n m, u.find? i n = some m ↔ ∃ d ∈ s.defs, d.iface = i ∧ d.desc.name = n ∧
        d.desc.activeOnly = true ∧ im.get i n ≠ Key.null ∧ m = ⟨.delete, im.get i n, Key.null⟩) ∧
      (∀ d ∈ s.defs, d.desc.activeOnly = true →
        (im.commit u.byInterface).get d.iface d.desc.name = Key.null) ∧
      ∀ i n, (∀ d ∈ s.defs, d.iface = i → d.desc.name = n → d.desc.activeOnly = false) →
        (im.commit u.byInterface).get i n = im.get i n := by
  have hreal : ∀ k, (diff k Key.null).isReal = true ↔ k ≠ Key.null :=
    fun _ => isReal_diff.trans ne_comm
  obtain ⟨u, hgen, h⟩ := generate_generated true
    (fun d => diff (im.get d.iface d.desc.name) Key.null) im st .deactivate hs
    fun d _ _ => updateFor_deactivate d _ st
  refine ⟨u, hgen, fun i n m => ?_, fun d hd ha => ?_, fun i n hother => ?_⟩
  · rw [h.find_recorded im hreal]
    constructor
    · rintro ⟨d, hd, hi, hn, ha, hne, rfl⟩
      exact ⟨d, hd, hi, hn, ha, hne, diff_null_right hne⟩
    · rintro ⟨d, hd, hi, hn, ha, hne, rfl⟩
      exact ⟨d, hd, hi, hn, ha, hne, (diff_null_right hne).symm⟩
  · rw [Images.get_commit h.grouped]
    change (u.find? d.iface d.desc.name).elim _ _ = _
    rw [h.find_decl hs hd]
    split
    · exact nextImage_diff _ _
    · -- an active-only index left alone had no image
      next ht =>
      simpa [touches_recorded im hreal, ha] using ht
  · rw [Images.get_commit h.grouped]
    change (u.find? i n).elim _ _ = _
    cases hf : u.find? i n with
    | none => rfl
    | some m =>
      obtain ⟨d, hd, hi, hn, ha, -⟩ := (h.find_recorded im hreal i n m).1 hf
      rw [hother d hd hi hn] at ha
      cases ha

end Events

/-- Generated updates advance the images. Over a schema that `Schema.make` accepts, a write of a
state whose values all have keys succeeds: it changes exactly the indexes whose image is not the key
of the state's value, by the change between the two, counts and flags those of unique indexes,
and once committed leaves every index at its new key, so that writing the state again changes
nothing. Activation inserts and deactivation deletes the image of each active-only index that has
one, and committing a deactivation clears the images of the active-only indexes and no other. -/
theorem generated_updates_advance_images {σ : Type} {entityType : String} {faultTolerant : Bool}
    {decls : List (IndexDef σ)} {s : Schema σ}
    (hs : Schema.make entityType faultTolerant decls = .ok s) (im : Images) (x : σ)
    (hkeys : ∀ d ∈ s.defs, ∃ k, Schema.keyAt d x = .ok k) :
    (∃ new u, s.extract x = .ok new ∧ generate s im x .write false = .ok u ∧
      (∀ i n m, u.find? i n = some m ↔ ∃ d ∈ s.defs, d.iface = i ∧ d.desc.name = n ∧
        im.get i n ≠ new.get i n ∧ m = diff (im.get i n) (new.get i n)) ∧
      (u.empty = true ↔ ∀ d ∈ s.defs, im.get d.iface d.desc.name = new.get d.iface d.desc.name) ∧
      u.numUnique = (s.defs.filter fun d =>
        d.desc.unique && im.get d.iface d.desc.name != new.get d.iface d.desc.name).length ∧
      (u.onlyUniqueUpdated = true ↔ u.empty = false ∧ ∀ d ∈ s.defs,
        im.get d.iface d.desc.name ≠ new.get d.iface d.desc.name → d.desc.unique = true) ∧
      (∀ d ∈ s.defs,
        (im.commit u.byInterface).get d.iface d.desc.name = new.get d.iface d.desc.name) ∧
      (generate s (im.commit u.byInterface) x .write false).map Updates.empty = .ok true) ∧
    (∃ u, generate s im x .activate true = .ok u ∧
      ∀ i n m, u.find? i n = some m ↔ ∃ d ∈ s.defs, d.iface = i ∧ d.desc.name = n ∧
        d.desc.activeOnly = true ∧ im.get i n ≠ Key.null ∧ m = ⟨.insert, Key.null, im.get i n⟩) ∧
    (∃ u, generate s im x .deactivate true = .ok u ∧
      (∀ i n m, u.find? i n = some m ↔ ∃ d ∈ s.defs, d.iface = i ∧ d.desc.name = n ∧
        d.desc.activeOnly = true ∧ im.get i n ≠ Key.null ∧ m = ⟨.delete, im.get i n, Key.null⟩) ∧
      (∀ d ∈ s.defs, d.desc.activeOnly = true →
        (im.commit u.byInterface).get d.iface d.desc.name = Key.null) ∧
      ∀ i n, (∀ d ∈ s.defs, d.iface = i → d.desc.name = n → d.desc.activeOnly = false) →
        (im.commit u.byInterface).get i n = im.get i n) := by
  have hsound := Schema.make_sound hs
  obtain ⟨new, hext, hnew⟩ := Schema.extract_keys x hsound hkeys
  obtain ⟨u, hgen, hfind, hempty, hnum, honly, hcommit⟩ := write_generates_changes im x hsound hnew
  exact ⟨⟨new, u, hext, hgen, hfind, hempty, hnum, honly, hcommit,
      write_of_current_is_empty _ x hsound hnew hcommit⟩,
    activate_inserts_images im x hsound, deactivate_clears_images im x hsound⟩

/-- A player's profile nickname, unique and indexed only while the player is active, and guild. -/
def playerDecls : List (IndexDef (String × String)) :=
  [⟨"profile", { name := "nick", unique := true, activeOnly := true }, some fun p => .string p.1⟩,
    ⟨"guild", { name := "guild" }, some fun p => .string p.2⟩]

/-- The schema of `playerDecls`, its declarations sorted by interface. -/
def playerSchema : Schema (String × String) :=
  ⟨"player", false,
    [⟨"guild", { name := "guild" }, some fun p => .string p.2⟩,
      ⟨"profile", { name := "nick", unique := true, activeOnly := true }, some fun p => .string p.1⟩],
    ["guild", "profile"]⟩

/-- A player recorded in the blue guild under the nickname `ann`. -/
def annImages : Images :=
  ⟨[("guild", [("guild", ⟨"s:blue"⟩)]), ("profile", [("nick", ⟨"s:ann"⟩)])]⟩

theorem ann_moves_to_red_guild :
    Schema.make "player" false playerDecls = .ok playerSchema ∧
      (∀ d ∈ playerSchema.defs, ∃ k, Schema.keyAt d ("ann", "red") = .ok k) ∧
      (∃ new u, playerSchema.extract ("ann", "red") = .ok new ∧
        generate playerSchema annImages ("ann", "red") .write false = .ok u ∧
        (∀ i n m, u.find? i n = some m ↔ ∃ d ∈ playerSchema.defs, d.iface = i ∧
          d.desc.name = n ∧ annImages.get i n ≠ new.get i n ∧
          m = diff (annImages.get i n) (new.get i n)) ∧
        (u.empty = true ↔ ∀ d ∈ playerSchema.defs,
          annImages.get d.iface d.desc.name = new.get d.iface d.desc.name) ∧
        u.numUnique = (playerSchema.defs.filter fun d =>
          d.desc.unique && annImages.get d.iface d.desc.name != new.get d.iface d.desc.name).length ∧
        (u.onlyUniqueUpdated = true ↔ u.empty = false ∧ ∀ d ∈ playerSchema.defs,
          annImages.get d.iface d.desc.name ≠ new.get d.iface d.desc.name →
            d.desc.unique = true) ∧
        (∀ d ∈ playerSchema.defs,
          (annImages.commit u.byInterface).get d.iface d.desc.name =
            new.get d.iface d.desc.name) ∧
        (generate playerSchema (annImages.commit u.byInterface) ("ann", "red") .write false).map
          Updates.empty = .ok true) ∧
      (∃ u, generate playerSchema annImages ("ann", "red") .activate true = .ok u ∧
        ∀ i n m, u.find? i n = some m ↔ ∃ d ∈ playerSchema.defs, d.iface = i ∧
          d.desc.name = n ∧ d.desc.activeOnly = true ∧ annImages.get i n ≠ Key.null ∧
          m = ⟨.insert, Key.null, annImages.get i n⟩) ∧
      (∃ u, generate playerSchema annImages ("ann", "red") .deactivate true = .ok u ∧
        (∀ i n m, u.find? i n = some m ↔ ∃ d ∈ playerSchema.defs, d.iface = i ∧
          d.desc.name = n ∧ d.desc.activeOnly = true ∧ annImages.get i n ≠ Key.null ∧
          m = ⟨.delete, annImages.get i n, Key.null⟩) ∧
        (∀ d ∈ playerSchema.defs, d.desc.activeOnly = true →
          (annImages.commit u.byInterface).get d.iface d.desc.name = Key.null) ∧
        ∀ i n, (∀ d ∈ playerSchema.defs, d.iface = i → d.desc.name = n →
            d.desc.activeOnly = false) →
          (annImages.commit u.byInterface).get i n = annImages.get i n) := by
  -- the profile declaration sorts after the guild one
  have hsort : playerDecls.mergeSort Schema.before = playerSchema.defs := by
    have hnlt : ¬ ("profile" < "guild") := by decide
    rw [playerDecls, List.mergeSort]
    simp [Schema.before, hnlt, playerSchema]
  have hs : Schema.make "player" false playerDecls = .ok playerSchema := by
    unfold Schema.make
    rw [hsort]
    rfl
  have hkeys : ∀ d ∈ playerSchema.defs, ∃ k, Schema.keyAt d ("ann", "red") = .ok k := by
    intro d hd
    simp only [playerSchema, List.mem_cons, List.not_mem_nil, or_false] at hd
    rcases hd with rfl | rfl <;> exact ⟨_, rfl⟩
  exact ⟨hs, hkeys, generated_updates_advance_images hs annImages ("ann", "red") hkeys⟩

end EntityIndex.Indexing
