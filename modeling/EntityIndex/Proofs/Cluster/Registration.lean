import EntityIndex.Proofs.Indexing.SchemaAcceptance
import EntityIndex.Cluster.Register
import EntityIndex.Proofs.Model.Run
import EntityIndex.Proofs.Cluster.StaleReplay

/-!
# Registering entity types

Registering an entity type on an open cluster checks the names of the type, of its indexes and
of their interfaces, makes the schema of its declarations, reads the images of the empty state,
and refuses a name that is registered already. None of these checks changes the cluster, and
each refusal is a configuration failure.

`Registrable` says in one place what all the checks together ask of a type's configuration,
without their order: names fit for addresses, declarations a schema accepts, and a key for the
value every index reads from the empty state. Registration succeeds exactly when the
configuration is registrable and the name is free, and the type it registers keeps its
declarations strictly in order of interface and name, and its interfaces once each, in order
(`register_accepts_exactly_registrable`).
-/

namespace EntityIndex

open Run

/-! ## Checks that leave the world alone -/

section Checks

variable {W α : Type}

/-- A run of checks that leave the world alone leaves it alone, and fails as the checks do. -/
theorem Run.exec_forM_of_checks {g : α → Run W PUnit} {c : α → Except Error PUnit}
    (hg : ∀ a w, (g a).exec w = (c a, w)) :
    ∀ (l : List α) (w : W), (l.forM g).exec w = (l.forM c, w)
  | [], w => rfl
  | a :: l, w => by
    show (g a >>= fun _ => l.forM g).exec w = (c a >>= fun _ => l.forM c, w)
    rw [exec_bind, hg]
    cases c a with
    | error e => rfl
    | ok u => exact exec_forM_of_checks hg l w

theorem except_forM_eq_ok_iff (c : α → Except Error PUnit) :
    ∀ l : List α, l.forM c = .ok ⟨⟩ ↔ ∀ a ∈ l, c a = .ok ⟨⟩
  | [] => by simp [List.forM_nil, pure, Except.pure]
  | a :: l => by
    show (c a >>= fun _ => l.forM c) = .ok ⟨⟩ ↔ _
    rw [List.forall_mem_cons]
    cases hc : c a with
    | error e => simp [bind, Except.bind]
    | ok u => simpa [bind, Except.bind] using except_forM_eq_ok_iff c l

theorem except_forM_error (c : α → Except Error PUnit) :
    ∀ (l : List α) (e : Error), l.forM c = .error e → ∃ a ∈ l, c a = .error e
  | [], e, h => by simp [List.forM_nil, pure, Except.pure] at h
  | a :: l, e, h => by
    change (c a >>= fun _ => l.forM c) = .error e at h
    cases hc : c a with
    | error e' =>
      simp only [hc, bind, Except.bind, Except.error.injEq] at h
      exact ⟨a, List.mem_cons_self, h ▸ hc⟩
    | ok u =>
      simp only [hc, bind, Except.bind] at h
      obtain ⟨a', ha', h'⟩ := except_forM_error c l e h
      exact ⟨a', List.mem_cons_of_mem _ ha', h'⟩

end Checks

namespace Cluster

open Indexing

/-! ## Names -/

/-- A name fit for addresses: not empty, and free of the separators `/ . @ #`. -/
def NameFits (name : String) : Prop := name ≠ "" ∧ ∀ c ∈ name.toList, c ∉ ['/', '.', '@', '#']

theorem validName_eq_ok_iff (kind name : String) : validName kind name = .ok () ↔ NameFits name := by
  unfold validName NameFits
  split_ifs with he hc
  · simp_all [String.isEmpty_iff]
  · simp only [List.any_eq_true, decide_eq_true_eq] at hc
    obtain ⟨c, hc, hsep⟩ := hc
    simp only [false_iff, not_and]
    exact fun _ h => h c hc (by simpa using hsep)
  · simp only [List.any_eq_true, decide_eq_true_eq, not_exists, not_and] at hc
    simp only [String.isEmpty_iff] at he
    simp only [true_iff]
    exact ⟨he, fun c h => by simpa using hc c h⟩

/-- A name that does not fit is refused as a configuration failure. -/
theorem validName_error {kind name : String} {e : Error} (h : validName kind name = .error e) :
    ∃ m, e = .config m := by
  unfold validName at h
  split_ifs at h <;> exact ⟨_, (Except.error.inj h).symm⟩

/-- The checks of one declaration's names: its index name, then its interface. -/
def namesCheck (d : IndexDef Fields) : Except Error PUnit := do
  validName "index" d.desc.name
  validName "interface" d.iface

theorem namesCheck_eq_ok_iff (d : IndexDef Fields) :
    namesCheck d = .ok ⟨⟩ ↔ NameFits d.desc.name ∧ NameFits d.iface := by
  rw [← validName_eq_ok_iff "index", ← validName_eq_ok_iff "interface", namesCheck]
  cases validName "index" d.desc.name <;> simp [bind, Except.bind]

theorem namesCheck_error {d : IndexDef Fields} {e : Error} (h : namesCheck d = .error e) :
    ∃ m, e = .config m := by
  unfold namesCheck at h
  cases hi : validName "index" d.desc.name with
  | error e' =>
    simp only [hi, bind, Except.bind, Except.error.injEq] at h
    exact validName_error (h ▸ hi)
  | ok u => exact validName_error (by simpa [hi, bind, Except.bind] using h)

/-! ## What registration asks of a configuration -/

/-- A configuration an entity type can be registered with: the names of the type, its indexes
and their interfaces fit for addresses; every index has a reader and no negative bucket limit;
all indexes share one eagerness, lazy on a fault-tolerant type; no two indexes share a name,
whatever their interfaces; and every index reads from the empty state a value with a key. -/
structure Registrable (name : String) (faultTolerant : Bool) (defs : List (IndexDef Fields)) :
    Prop where
  typeName : NameFits name
  indexNames : ∀ d ∈ defs, NameFits d.desc.name
  interfaces : ∀ d ∈ defs, NameFits d.iface
  readers : ∀ d ∈ defs, d.extract.isSome
  limits : ∀ d ∈ defs, 0 ≤ d.desc.maxEntries ∧ 0 ≤ d.desc.partitions
  eager : ∀ d ∈ defs, ∀ d' ∈ defs, d.desc.eager = d'.desc.eager
  lazy : faultTolerant = true → ∀ d ∈ defs, d.desc.eager = false
  distinct : (defs.map (·.desc.name)).Nodup
  emptyKeys : ∀ d ∈ defs, ∃ k, (d.valueOf []).keyOf = .ok k

namespace Registrable

variable {name : String} {faultTolerant : Bool} {defs : List (IndexDef Fields)}

theorem accepts (h : Registrable name faultTolerant defs) : Schema.Accepts faultTolerant defs where
  iface d hd := (h.interfaces d hd).1
  name d hd := (h.indexNames d hd).1
  reader := h.readers
  limits := h.limits
  eager := h.eager
  lazy := h.lazy
  distinct := h.distinct

theorem of_checks (hname : NameFits name)
    (hnames : ∀ d ∈ defs, NameFits d.desc.name ∧ NameFits d.iface)
    (hacc : Schema.Accepts faultTolerant defs) (hkeys : ∀ d ∈ defs, ∃ k, (d.valueOf []).keyOf = .ok k) :
    Registrable name faultTolerant defs where
  typeName := hname
  indexNames d hd := (hnames d hd).1
  interfaces d hd := (hnames d hd).2
  readers := hacc.reader
  limits := hacc.limits
  eager := hacc.eager
  lazy := hacc.lazy
  distinct := hacc.distinct
  emptyKeys := hkeys

end Registrable

/-! ## The steps of registration -/

namespace World

variable {w : World} {name : String} {faultTolerant : Bool} {defs : List (IndexDef Fields)}

theorem checkOpen_exec (h : w.closed = false) : (checkOpen : Run World Unit).exec w = (.ok (), w) := by
  simp [checkOpen, exec_bind, h]

theorem namesChecks_exec (w : World) (defs : List (IndexDef Fields)) :
    ((defs.forM fun d => do
        Run.lift (validName "index" d.desc.name)
        Run.lift (validName "interface" d.iface)) : Run World PUnit).exec w =
      (defs.forM namesCheck, w) := by
  refine Run.exec_forM_of_checks (fun d w => ?_) defs w
  rw [exec_bind, exec_lift, namesCheck]
  cases validName "index" d.desc.name <;> simp [exec_lift, bind, Except.bind]

/-- The coordinator of a schema over the indexes named after its own declarations is always
made. -/
theorem coordinator_make (name : String) (s : Schema Fields) :
    ∃ c, Coordinator.make s (mapOfPairs (s.defs.map fun d =>
      (d.desc.name, (⟨qualify name d.desc.name, d.desc⟩ : Bucket.Index)))) = .ok c := by
  -- every declaration's name is in the map, since inserting keeps what is there
  have hin : ∀ (ps acc : List (String × Bucket.Index)) (k : String),
      ((acc.lookup k).isSome ∨ ∃ v, (k, v) ∈ ps) →
        ((ps.foldl (fun acc p => insertByName p.1 p.2 acc) acc).lookup k).isSome := by
    intro ps
    induction ps with
    | nil => intro acc k h; simpa using h
    | cons p ps ih =>
      intro acc k h
      refine ih _ k ?_
      rw [lookup_insertByName]
      by_cases hk : k = p.1
      · simp [hk]
      · rcases h with h | ⟨v, hv⟩
        · simp [hk, h]
        · rcases List.mem_cons.1 hv with rfl | hv
          · exact absurd rfl hk
          · exact .inr ⟨v, hv⟩
  simp only [Coordinator.make]
  rw [List.find?_eq_none.2 fun d hd => ?_]
  · exact ⟨_, rfl⟩
  have := hin (s.defs.map fun d => (d.desc.name, (⟨qualify name d.desc.name, d.desc⟩ : Bucket.Index)))
    [] d.desc.name (.inr ⟨⟨qualify name d.desc.name, d.desc⟩, List.mem_map.2 ⟨d, hd, rfl⟩⟩)
  simpa [mapOfPairs, Option.isNone_iff_eq_none, ← Option.isSome_iff_ne_none] using this

/-- Registration either registers a registrable type under a free name, with the schema made
from its declarations, or refuses with a configuration failure and changes nothing. -/
theorem register_exec (hopen : w.closed = false) :
    (∃ s c, Schema.make name faultTolerant defs = .ok s ∧
        (register name faultTolerant defs).exec w =
          (.ok (), { w with types := insertByName name ⟨s, c⟩ w.types }) ∧
        Registrable name faultTolerant defs ∧ w.type? name = none) ∨
      ∃ e, (register name faultTolerant defs).exec w = (.error e, w) ∧ e.mentions .config = true ∧
        ¬ (Registrable name faultTolerant defs ∧ w.type? name = none) := by
  simp only [register, exec_bind, checkOpen_exec hopen, exec_lift, namesChecks_exec]
  -- the type's own name
  cases hv : validName "entity type" name with
  | error e =>
    obtain ⟨m, rfl⟩ := validName_error hv
    refine .inr ⟨_, rfl, by simp [Error.mentions], fun h => ?_⟩
    simp [(validName_eq_ok_iff _ _).2 h.1.typeName] at hv
  | ok u =>
  have hname := (validName_eq_ok_iff _ _).1 hv
  -- the names of the declarations
  cases hn : defs.forM namesCheck with
  | error e =>
    obtain ⟨d, hd, hde⟩ := except_forM_error namesCheck defs e hn
    obtain ⟨m, rfl⟩ := namesCheck_error hde
    refine .inr ⟨_, rfl, by simp [Error.mentions], fun h => ?_⟩
    have hok := (namesCheck_eq_ok_iff d).2 ⟨h.1.indexNames d hd, h.1.interfaces d hd⟩
    rw [hde] at hok
    cases hok
  | ok u' =>
  have hnames := fun d hd => (namesCheck_eq_ok_iff d).1 ((except_forM_eq_ok_iff _ defs).1 hn d hd)
  -- the schema
  cases hm : Schema.make name faultTolerant defs with
  | error e =>
    obtain ⟨m, rfl⟩ := Schema.make_error hm
    refine .inr ⟨_, rfl, by simp [Error.mentions], fun h => ?_⟩
    obtain ⟨s, hs⟩ := Schema.make_isOk_iff.2 ⟨h.1.typeName.1, h.1.accepts⟩
    rw [hm] at hs
    cases hs
  | ok s =>
  have hacc := (Schema.make_isOk_iff.1 ⟨s, hm⟩).2
  -- the images of the empty state
  simp only
  cases hx : s.extract [] with
  | error e =>
    refine .inr ⟨.context ("entity type " ++ name) e, by simp,
      by simp [Error.mentions, Schema.extract_error s [] hx], fun h => ?_⟩
    obtain ⟨im, him⟩ := (Schema.extract_isOk_iff s []).2 fun d hd =>
      h.1.emptyKeys d ((Schema.make_defs hm).1.mem_iff.1 hd)
    rw [hx] at him
    cases him
  | ok im =>
  have hkeys : ∀ d ∈ defs, ∃ k, (d.valueOf []).keyOf = .ok k := fun d hd =>
    (Schema.extract_isOk_iff s []).1 ⟨im, hx⟩ d ((Schema.make_defs hm).1.mem_iff.2 hd)
  have hreg := Registrable.of_checks hname hnames hacc hkeys
  -- the coordinator, and the name being free
  obtain ⟨c, hc⟩ := coordinator_make name s
  simp only [exec_bind, exec_lift, hc, exec_get]
  cases ht : w.type? name with
  | some t =>
    exact .inr ⟨.config ("entity type " ++ Quote.quote name ++ " is already registered"),
      by simp, by simp [Error.mentions], fun h => Option.some_ne_none t h.2⟩
  | none => exact .inl ⟨s, c, rfl, by simp, hreg, rfl⟩

end World

/-! ## Registration accepts exactly the registrable configurations -/

/-- On an open cluster, registration succeeds exactly when the configuration is registrable and
no type has the name yet; every refusal is a configuration failure and leaves the cluster as it
was; and the type registered keeps its declarations, strictly in order of interface and name,
and lists their interfaces once each, in order. -/
theorem register_accepts_exactly_registrable (w : World) (hopen : w.closed = false)
    (name : String) (faultTolerant : Bool) (defs : List (IndexDef Fields)) :
    (((World.register name faultTolerant defs).exec w).1 = .ok () ↔
        Registrable name faultTolerant defs ∧ w.type? name = none) ∧
      (∀ e, ((World.register name faultTolerant defs).exec w).1 = .error e →
        e.mentions .config = true ∧ ((World.register name faultTolerant defs).exec w).2 = w) ∧
      (((World.register name faultTolerant defs).exec w).1 = .ok () →
        ∃ t, ((World.register name faultTolerant defs).exec w).2.type? name = some t ∧
          t.schema.defs.Perm defs ∧ t.schema.defs.Pairwise IndexDef.Precedes ∧
          t.schema.interfaces.Pairwise (· < ·) ∧
          ∀ i, i ∈ t.schema.interfaces ↔ ∃ d ∈ defs, d.iface = i) := by
  obtain ⟨s, c, hm, hx, hreg, hfree⟩ | ⟨e, hx, hcfg, hnot⟩ :=
    @World.register_exec w name faultTolerant defs hopen
  · -- registered: the type read back under its name is the one made from the declarations
    have ht : ({ w with types := insertByName name ⟨s, c⟩ w.types } : World).type? name =
        some ⟨s, c⟩ := by
      simp [World.type?, lookup_insertByName]
    rw [hx]
    dsimp only
    refine ⟨⟨fun _ => ⟨hreg, hfree⟩, fun _ => rfl⟩, fun e he => (by cases he), fun _ => ⟨_, ht, ?_⟩⟩
    obtain ⟨hperm, hsorted⟩ := Schema.make_defs hm
    obtain ⟨hifaces, hmem⟩ := Schema.make_interfaces hm
    exact ⟨hperm, hsorted, hifaces, hmem⟩
  · -- refused
    rw [hx]
    dsimp only
    refine ⟨⟨fun h => (by cases h), fun h => absurd h hnot⟩, fun e' he => ?_, fun h => by cases h⟩
    cases he
    exact ⟨hcfg, rfl⟩

/-- A fresh cluster registers a type with one unique index on an optional field. -/
theorem player_registers_on_fresh_cluster :
    freshCluster.closed = false ∧
      ((World.register "player" false [emailDecl]).exec freshCluster).1 = .ok () := by
  have hreg : Registrable "player" false [emailDecl] := by
    refine Registrable.of_checks ((validName_eq_ok_iff "entity type" "player").1 rfl) ?_ ?_ ?_
    · intro d hd
      rw [List.mem_singleton.1 hd]
      exact (namesCheck_eq_ok_iff emailDecl).1 rfl
    · refine ⟨?_, ?_, ?_, ?_, ?_, ?_, ?_⟩ <;> simp [emailDecl]
    · intro d hd
      rw [List.mem_singleton.1 hd]
      exact ⟨_, rfl⟩
  exact ⟨rfl, (register_accepts_exactly_registrable freshCluster rfl "player" false
    [emailDecl]).1.2 ⟨hreg, rfl⟩⟩

end Cluster

end EntityIndex
