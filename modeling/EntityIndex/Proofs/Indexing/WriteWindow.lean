import EntityIndex.Proofs.Bucket.FlatRuns
import EntityIndex.Proofs.Bucket.Reversal
import EntityIndex.Proofs.Bucket.Staging
import EntityIndex.Proofs.Cluster.StaleReplay

/-!
# What readers of a unique index see while a write runs

A write reaches a unique index through calls of `Index.apply`: its update, tentative when the
write has two or more unique updates or one that deletes, or plain otherwise; then, in an eager
write applied tentatively, the plain update again to make it final; or, after a uniqueness
violation, the reverse of the update. Each call applies the parts of its update in route order,
one walk along a chain each: an update that moves between partitions, or along a chain, is an
insert half and then a delete half.

On the flat bucket of `Refines`, every step of a call leaves each key with the entry it had when
the call started or the entry it has when the call ends (`Index.flatSteps_route`), and a refused
call takes no step. The chains follow: after any number of a call's parts, the buckets refine
where the flat bucket started or one of its steps (`Refines.parts_prefix`). Readers on such a
shelf are therefore told under each key what they are told at one of the two ends
(`Refines.reads_of_ok`). For a write whose images agree with the index (`BeforeImage`) the ends
are known: the update taken for good ends where the plain update ends; taken tentatively, it ends
with every key it touches hidden and the others as they were, its finalization ends where the
plain update ends, and its undo ends with the old entries
(`readers_see_old_or_new_owner_during_write`).

All of this is about available buckets, the only ones `Refines` relates. A reader of a bucket
under construction is told that the index is unavailable, whoever holds the key
(`building_index_tells_readers_unavailable`).
-/

namespace EntityIndex.Bucket

open EntityIndex.Bucket.Shelf

/-- Key by key, `G` is `F` or `F'`: every entry of `G` is the entry of one of them. -/
def State.Between (F F' G : State) : Prop :=
  ∀ k, G.entry? k = F.entry? k ∨ G.entry? k = F'.entry? k

/-- `F₁` hides the keys `ks` from readers and keeps every other key's entry from `F`. -/
def State.Hides (F F₁ : State) (ks : List Key) : Prop :=
  ∀ k, (k ∈ ks → (F₁.lookup k).values = []) ∧ (k ∉ ks → F₁.entry? k = F.entry? k)

namespace Index

variable {x : Index} {r : EntityRef}

/-- The flat bucket after each bucket step of a call: the parts of an update in the order the
call applies them, each as the flat bucket applies it, until one is refused. -/
def flatSteps (x : Index) (r : EntityRef) : State → List (Nat × IndexUpdate) → List State
  | _, [] => []
  | F, (_, part) :: rest =>
    match F.apply r part x.desc.unique x.flatMeta with
    | .ok (_, F') => F' :: x.flatSteps r F' rest
    | .error _ => []

/-- Readers of index `x` on shelf `w` are told under every key what they are told on `F` or on
`F'`. -/
def ReadsOn (x : Index) (w : Shelf) (F F' : State) : Prop :=
  ∀ k, ((x.lookupUnique k).exec w).1 = x.uniqueAnswer k (F.lookup k) ∨
    ((x.lookupUnique k).exec w).1 = x.uniqueAnswer k (F'.lookup k)

/-- Apply routed parts in order, each walking the chain of its partition from the head. -/
def applyParts (x : Index) (r : EntityRef) (parts : List (Nat × IndexUpdate)) : Run Shelf Unit :=
  parts.forM fun pp => x.applyChain r pp.2 chainLimit (x.bucketAt pp.1 0)

/-- The shelf after the first `i` parts of the call `x.apply r u` from `w`. -/
def afterSteps (x : Index) (r : EntityRef) (u : IndexUpdate) (i : Nat) (w : Shelf) : Shelf :=
  ((x.applyParts r ((x.route u).take i)).exec w).2

/-- A part of a routed update that one walk takes whole: an insert at the partition of its
after-image, a delete at the partition of its before-image, or an update between two keys of one
partition of an unbounded index; tentative only on a unique index. -/
def OnePart (x : Index) (pp : Nat × IndexUpdate) : Prop :=
  (pp.2.tentative && !x.desc.unique) = false ∧
    ((pp.2.op = .insert ∧ pp.1 = x.partitionOf pp.2.after) ∨
      (pp.2.op = .delete ∧ pp.1 = x.partitionOf pp.2.before) ∨
      (pp.2.op = .update ∧ pp.2.before ≠ pp.2.after ∧
        x.partitionOf pp.2.before = x.partitionOf pp.2.after ∧ x.desc.chained = false ∧
        pp.1 = x.partitionOf pp.2.after))

end Index

namespace State

variable {F F' F'' G : State}

theorem Between.right : F.Between F' F' := fun _ => .inr rfl

/-- An end may be replaced by a state with the same entries. -/
theorem Between.congr_right (h : F.Between F' G) (he : ∀ k, F'.entry? k = F''.entry? k) :
    F.Between F'' G := fun k => (h k).imp_right fun hk => hk.trans (he k)

theorem Between.left : F.Between F' F := fun _ => .inl rfl

/-- Readers of a clean shelf whose buckets refine a state between two ends are told what they are
told at one of the ends. -/
theorem Between.readsOn {x : Index} {w : Shelf} {len : Nat → Nat} (h : F.Between F' G)
    (hc : Clean w) (hR : Refines x (view w) G len) (hfuel : ∀ q, len q < chainLimit) :
    x.ReadsOn w F F' := by
  intro k
  obtain ⟨w', hexec, -⟩ := hR.unique (hfuel (x.partitionOf k)) w hc rfl
  rw [hexec]
  rcases h k with he | he
  · exact .inl (by rw [State.lookup_congr he])
  · exact .inr (by rw [State.lookup_congr he])

end State

namespace Index

variable {x : Index} {r : EntityRef} {F : State} {v : IndexUpdate}

theorem flatSteps_single (p : Nat) :
    x.flatSteps r F [(p, v)] =
      match F.apply r v x.desc.unique x.flatMeta with
      | .ok (_, F') => [F']
      | .error _ => [] := by
  simp only [flatSteps]

/-- A call passes, key by key, from where it starts to where the flat bucket's application of its
update ends, and a refused call takes no step. A call of one part has one step; an update in two
halves first puts the entity under the after-image, which is then as at the end, while every other
key is still as at the start. -/
theorem flatSteps_route (hx : x.desc.unique = true) (hn : F.next = "")
    (hs : F.status = .available) (hv : v.regular = true) :
    (∀ o F', F.apply r v x.desc.unique x.flatMeta = .ok (o, F') →
      ∀ G ∈ x.flatSteps r F (x.route v), F.Between F' G) ∧
    (∀ e, F.apply r v x.desc.unique x.flatMeta = .error e → x.flatSteps r F (x.route v) = []) := by
  have hone : ∀ p, x.route v = [(p, v)] →
      (∀ o F', F.apply r v x.desc.unique x.flatMeta = .ok (o, F') →
        ∀ G ∈ x.flatSteps r F (x.route v), F.Between F' G) ∧
      (∀ e, F.apply r v x.desc.unique x.flatMeta = .error e → x.flatSteps r F (x.route v) = []) := by
    intro p hr
    rw [hr, flatSteps_single]
    refine ⟨fun o F' h G hG => ?_, fun e h => by rw [h]⟩
    rw [h, List.mem_singleton] at hG
    subst hG
    exact State.Between.right
  cases hop : v.op with
  | none => simp [Index.route_of_none hop, flatSteps]
  | insert => exact hone _ (Index.route_of_insert hop)
  | delete => exact hone _ (Index.route_of_delete hop)
  | update =>
    have hba : v.before ≠ v.after := by simpa [IndexUpdate.regular, hop] using hv
    by_cases hw : x.partitionOf v.before = x.partitionOf v.after ∧ x.desc.chained = false
    · exact hone _ (Index.route_of_whole hop hw.1 hw.2)
    rw [Index.route_of_split hop hw, flat_apply_update hx hn hs hop hba]
    have hins : F.apply r v.split.1 x.desc.unique x.flatMeta =
        F.insert r v.after v.tentative x.desc.unique x.flatMeta := flat_apply_insert hx rfl
    cases hi : F.insert r v.after v.tentative x.desc.unique x.flatMeta with
    | error e =>
      refine ⟨fun o F' h => (by cases h), fun _ _ => ?_⟩
      simp [flatSteps, hins, hi]
    | ok p =>
      obtain ⟨o₁, G₁⟩ := p
      have hdel : G₁.apply r v.split.2 x.desc.unique x.flatMeta =
          .ok (.applied, G₁.remove v.before r v.tentative) :=
        flat_apply_delete hx ((State.insert_status hi).trans hs) rfl
      refine ⟨fun o F' h G hG => ?_, fun e h => by cases h⟩
      simp only [Except.bind, Except.ok.injEq, Prod.mk.injEq] at h
      obtain ⟨-, rfl⟩ := h
      simp only [flatSteps, hins, hi, hdel, List.mem_cons, List.not_mem_nil, or_false] at hG
      rcases hG with rfl | rfl
      · -- after the insert half: the after-image as at the end, every other key as at the start
        intro k
        by_cases hk : k = v.after
        · subst hk
          exact .inr (State.entry?_remove_of_ne _ _ _ (Ne.symm hba)).symm
        · exact .inl (State.insert_entry?_of_ne hi hk)
      · exact State.Between.right
  | other c => simp [IndexUpdate.regular, hop] at hv

end Index

/-! ## Calls on chained buckets, part by part -/

namespace Index

variable {x : Index} {r : EntityRef} {u v : IndexUpdate}

theorem apply_eq_applyParts : x.apply r u = x.applyParts r (x.route u) := rfl

theorem applyParts_cons (pp : Nat × IndexUpdate) (rest : List (Nat × IndexUpdate)) :
    x.applyParts r (pp :: rest) =
      x.applyChain r pp.2 chainLimit (x.bucketAt pp.1 0) >>= fun _ => x.applyParts r rest := rfl

/-- After all its parts a call has ended: the shelf after every step of its route is the shelf
the call leaves. -/
theorem afterSteps_length (w : Shelf) :
    x.afterSteps r u (x.route u).length w = ((x.apply r u).exec w).2 := by
  rw [afterSteps, List.take_length, apply_eq_applyParts]

/-- Every part of the route of a regular update is taken whole by one walk. -/
theorem onePart_of_mem_route (hv : v.regular = true)
    (ht : (v.tentative && !x.desc.unique) = false) : ∀ pp ∈ x.route v, x.OnePart pp := by
  intro pp hpp
  cases hop : v.op with
  | none => simp [route_of_none hop] at hpp
  | insert =>
    rw [route_of_insert hop, List.mem_singleton] at hpp
    subst hpp
    exact ⟨ht, .inl ⟨hop, rfl⟩⟩
  | delete =>
    rw [route_of_delete hop, List.mem_singleton] at hpp
    subst hpp
    exact ⟨ht, .inr (.inl ⟨hop, rfl⟩)⟩
  | update =>
    have hba : v.before ≠ v.after := by simpa [IndexUpdate.regular, hop] using hv
    by_cases hw : x.partitionOf v.before = x.partitionOf v.after ∧ x.desc.chained = false
    · rw [route_of_whole hop hw.1 hw.2, List.mem_singleton] at hpp
      subst hpp
      exact ⟨ht, .inr (.inr ⟨hop, hba, hw.1, hw.2, hw.1⟩)⟩
    · -- the two halves: the insert at the after-image, the delete at the before-image
      rw [route_of_split hop hw] at hpp
      simp only [List.mem_cons, List.not_mem_nil, or_false] at hpp
      rcases hpp with rfl | rfl
      · exact ⟨ht, .inl ⟨rfl, rfl⟩⟩
      · exact ⟨ht, .inr (.inl ⟨rfl, rfl⟩)⟩
  | other c => simp [IndexUpdate.regular, hop] at hv

end Index

section Parts

variable {x : Index} (r : EntityRef) {b : String → State} {F : State} {len : Nat → Nat}

/-- The walk of one part does what the flat bucket does with the part. -/
theorem Refines.onePart {pp : Nat × IndexUpdate} (h : Refines x b F len) (hpart : x.OnePart pp)
    (hfuel : len pp.1 < chainLimit) :
    Follows x (x.applyChain r pp.2 chainLimit (x.bucketAt pp.1 0)) b len
      (F.apply r pp.2 x.desc.unique x.flatMeta) := by
  obtain ⟨p, v⟩ := pp
  obtain ⟨ht, hcases⟩ := hpart
  dsimp only at ht hcases hfuel ⊢
  obtain ⟨hop, rfl⟩ | ⟨hop, rfl⟩ | ⟨hop, hba, hp, hc, rfl⟩ := hcases
  · exact h.insert_part r hfuel hop ht
  · exact h.delete_part r hfuel hop ht
  · exact h.whole_part r hop hba ht hp hc

/-- Parts run one after another pass through buckets that refine the flat bucket's steps: after
any number of them the buckets refine where the flat bucket started or one of its steps, each
chain grown by at most one bucket a part. -/
theorem Refines.parts_prefix {parts : List (Nat × IndexUpdate)}
    (hparts : ∀ pp ∈ parts, x.OnePart pp) (h : Refines x b F len)
    (hfuel : ∀ q, len q + parts.length ≤ chainLimit) (i : Nat) :
    ∃ G ∈ F :: x.flatSteps r F parts, ∃ res b' len',
      Runs (x.applyParts r (parts.take i)) b res b' ∧ Refines x b' G len' ∧
        ∀ q, len' q ≤ len q + parts.length := by
  -- induction on the parts, which `flatSteps` and `applyParts` both follow
  induction parts generalizing b F len i with
  | nil =>
    rw [List.take_nil]
    exact ⟨F, List.mem_cons_self, .ok (), b, len, Runs.pure () b, h, by simp⟩
  | cons pp rest ih =>
    cases i with
    | zero => exact ⟨F, List.mem_cons_self, .ok (), b, len, Runs.pure () b, h, by simp⟩
    | succ i =>
      have hf := h.onePart r (hparts pp List.mem_cons_self)
        (by have := hfuel pp.1; simp only [List.length_cons] at this; omega)
      rw [List.take_succ_cons, Index.applyParts_cons]
      cases hF : F.apply r pp.2 x.desc.unique x.flatMeta with
      | error e =>
        -- a refused part changes no bucket and stops the run
        rw [hF] at hf
        obtain ⟨e', -, hrun⟩ := hf
        exact ⟨F, List.mem_cons_self, .error e', b, len, Runs.bind_error hrun, h,
          fun q => Nat.le_add_right _ _⟩
      | ok p =>
        obtain ⟨o, F₁⟩ := p
        rw [hF] at hf
        obtain ⟨b₁, len₁, hrun₁, h₁, hl₁⟩ := hf
        obtain ⟨G, hG, res, b', len', hrun, hR', hl'⟩ :=
          ih (fun pp' hpp' => hparts pp' (List.mem_cons_of_mem _ hpp')) h₁
            (fun q => by
              have := hfuel q
              have := hl₁ q
              simp only [List.length_cons] at *
              omega) i
        have hsteps : x.flatSteps r F (pp :: rest) = F₁ :: x.flatSteps r F₁ rest := by
          obtain ⟨p, v⟩ := pp
          simp only [Index.flatSteps, hF]
        refine ⟨G, hsteps ▸ List.mem_cons_of_mem _ hG, res, b', len', Runs.bind hrun₁ hrun, hR',
          fun q => ?_⟩
        have := hl' q
        have := hl₁ q
        simp only [List.length_cons]
        omega

end Parts

section Calls

variable {x : Index} {w : Shelf} {F : State} {len : Nat → Nat} {r : EntityRef} {v : IndexUpdate}

/-- After any number of the parts of a regular call on a unique index, the shelf is clean and its
buckets refine where the flat bucket started or one of its steps, within the walks' fuel. -/
theorem Refines.steps (hx : x.desc.unique = true) (hc : Clean w) (h : Refines x (view w) F len)
    (hfuel : ∀ q, len q + 2 < chainLimit) (hv : v.regular = true) (i : Nat) :
    ∃ G ∈ F :: x.flatSteps r F (x.route v), ∃ len',
      Clean (x.afterSteps r v i w) ∧ Refines x (view (x.afterSteps r v i w)) G len' ∧
        ∀ q, len' q < chainLimit := by
  have hroute := x.length_route_le v
  obtain ⟨G, hG, res, b', len', hrun, hR', hl'⟩ :=
    h.parts_prefix r (Index.onePart_of_mem_route hv (by simp [hx]))
      (fun q => by have := hfuel q; omega) i
  obtain ⟨w', hexec, hc', hv'⟩ := hrun w hc rfl
  refine ⟨G, hG, len', ?_, ?_, fun q => by have := hl' q; have := hfuel q; omega⟩
  · rw [Index.afterSteps, hexec]
    exact hc'
  · rw [Index.afterSteps, hexec, hv']
    exact hR'

/-- Readers during an accepted call are told what they are told where it starts or where it
ends, the end taken up to its entries. -/
theorem Refines.reads_of_ok (hx : x.desc.unique = true) (hc : Clean w)
    (h : Refines x (view w) F len) (hfuel : ∀ q, len q + 2 < chainLimit) (hv : v.regular = true)
    {o : Outcome} {F' F'' : State} (hok : F.apply r v x.desc.unique x.flatMeta = .ok (o, F'))
    (he : ∀ k, F'.entry? k = F''.entry? k) (i : Nat) :
    x.ReadsOn (x.afterSteps r v i w) F F'' := by
  obtain ⟨G, hG, len', hc', hR', hl'⟩ := h.steps (r := r) hx hc hfuel hv i
  rcases List.mem_cons.1 hG with rfl | hG
  · exact State.Between.left.readsOn hc' hR' hl'
  · have hbetween := (Index.flatSteps_route hx h.flatNext h.flatAvailable hv).1 o F' hok G hG
    exact (hbetween.congr_right he).readsOn hc' hR' hl'

/-- Readers during a refused call are told what they are told where it starts, and the call
leaves a clean shelf with every bucket as it was. -/
theorem Refines.reads_of_error (hx : x.desc.unique = true) (hc : Clean w)
    (h : Refines x (view w) F len) (hfuel : ∀ q, len q + 2 < chainLimit) (hv : v.regular = true)
    {e : Error} (hE : F.apply r v x.desc.unique x.flatMeta = .error e) :
    (∀ i, x.ReadsOn (x.afterSteps r v i w) F F) ∧ Clean ((x.apply r v).exec w).2 ∧
      view ((x.apply r v).exec w).2 = view w := by
  refine ⟨fun i => ?_, ?_⟩
  · obtain ⟨G, hG, len', hc', hR', hl'⟩ := h.steps (r := r) hx hc hfuel hv i
    rw [(Index.flatSteps_route hx h.flatNext h.flatAvailable hv).2 e hE,
      List.mem_singleton] at hG
    subst hG
    exact State.Between.left.readsOn hc' hR' hl'
  · have hf := h.call r (fun q => by have := hfuel q; omega) hv
    rw [hE] at hf
    obtain ⟨e', -, hrun⟩ := hf
    obtain ⟨w', hexec, hc', hv'⟩ := hrun w hc rfl
    rw [hexec]
    exact ⟨hc', hv'⟩

/-- An accepted call leaves a clean shelf whose buckets refine where the flat bucket ends, each
chain grown by at most one bucket. -/
theorem Refines.after_call (hc : Clean w) (h : Refines x (view w) F len)
    (hfuel : ∀ q, len q < chainLimit) (hv : v.regular = true) {o : Outcome} {F' : State}
    (hok : F.apply r v x.desc.unique x.flatMeta = .ok (o, F')) :
    ∃ len', Clean ((x.apply r v).exec w).2 ∧ Refines x (view ((x.apply r v).exec w).2) F' len' ∧
      ∀ q, len' q ≤ len q + 1 := by
  have hf := h.call r hfuel hv
  rw [hok] at hf
  obtain ⟨-, hc', len', hR', hl'⟩ := hf.exec h hc
  exact ⟨len', hc', hR', hl'⟩

end Calls

/-! ## One write on one unique index -/

namespace BeforeImage

section Flat

variable {x : Index} {F : State} {r : EntityRef} {u : IndexUpdate} (hb : BeforeImage F r u)
  (hx : x.desc.unique = true) (hn : F.next = "") (hs : F.status = .available)
include hb hx hn hs

/-- The tentative form of a write's update, once accepted, hides every key it touches and keeps
the others. -/
theorem hides_of_tentative {o : Outcome} {F₁ : State}
    (h : F.apply r u.asTentative x.desc.unique x.flatMeta = .ok (o, F₁)) :
    F.Hides F₁ (updateKeys u) := by
  intro k
  rcases hb.forward_ok hx hn hs h with ⟨hu, ha, rfl⟩ | ⟨hu, rfl⟩ | ⟨hu, ha, rfl⟩
  · have ha₁ := State.entry?_add_of_none (r := r) (t := true) ha
    simp only [updateKeys, hu, List.mem_singleton]
    refine ⟨fun hk => ?_, fun hk => State.entry?_add_of_ne _ _ _ hk⟩
    subst hk
    exact State.lookup_values_of_marker ha₁ (by simp)
  · have hb₁ := State.entry?_remove_of_self_tentative (hb.settled (.inl hu))
    simp only [updateKeys, hu, List.mem_singleton]
    refine ⟨fun hk => ?_, fun hk => State.entry?_remove_of_ne _ _ _ hk⟩
    subst hk
    exact State.lookup_values_of_marker hb₁ (by simp)
  · obtain ⟨ha₁, hb₁⟩ := hb.tentative_move_entries hu ha
    simp only [updateKeys, hu, List.mem_cons, List.not_mem_nil, or_false]
    refine ⟨fun hk => ?_, fun hk => ?_⟩
    · rcases hk with rfl | rfl
      · exact State.lookup_values_of_marker hb₁ (by simp)
      · exact State.lookup_values_of_marker ha₁ (by simp)
    · rw [not_or] at hk
      rw [State.entry?_remove_of_ne _ _ _ hk.1, State.entry?_add_of_ne _ _ _ hk.2]

/-- Making a tentative update final leaves the entries its plain form leaves: the after-image
settled under the writer, the before-image gone. -/
theorem final_entries {o : Outcome} {F₁ : State}
    (h : F.apply r u.asTentative x.desc.unique x.flatMeta = .ok (o, F₁)) :
    ∃ o₃ F₃ o' F', F₁.apply r u x.desc.unique x.flatMeta = .ok (o₃, F₃) ∧
      F.apply r u x.desc.unique x.flatMeta = .ok (o', F') ∧ ∀ k, F₃.entry? k = F'.entry? k := by
  have hplain := hb.plain
  rcases hb.forward_ok hx hn hs h with ⟨hu, ha, rfl⟩ | ⟨hu, rfl⟩ | ⟨hu, ha, rfl⟩
  · have ha₁ := State.entry?_add_of_none (r := r) (t := true) ha
    refine ⟨.applied, (F.add u.after r true).add u.after r false, .applied, F.add u.after r false,
      ?_, ?_, fun k => ?_⟩
    · rw [flat_apply_insert hx hu, hplain,
        flat_insert_of_free (by simp [hn]) (State.holdsOther_of_entry?_self ha₁)]
    · rw [flat_apply_insert hx hu, hplain, flat_insert_of_free hn (by simp [ha])]
    · by_cases hk : k = u.after
      · subst hk
        rw [State.entry?_add_of_self ha₁, State.entry?_add_of_none ha]
      · rw [State.entry?_add_of_ne _ _ _ hk, State.entry?_add_of_ne _ _ _ hk,
          State.entry?_add_of_ne _ _ _ hk]
  · have hbb := hb.settled (.inl hu)
    have hb₁ := State.entry?_remove_of_self_tentative hbb
    refine ⟨.applied, (F.remove u.before r true).remove u.before r false, .applied,
      F.remove u.before r false, ?_, ?_, fun k => ?_⟩
    · rw [flat_apply_delete hx (by simp [hs]) hu, hplain]
    · rw [flat_apply_delete hx hs hu, hplain]
    · by_cases hk : k = u.before
      · subst hk
        rw [State.entry?_remove_of_self hb₁, State.entry?_remove_of_self hbb]
      · rw [State.entry?_remove_of_ne _ _ _ hk, State.entry?_remove_of_ne _ _ _ hk,
          State.entry?_remove_of_ne _ _ _ hk]
  · have hba := hb.moves hu
    have hbb := hb.settled (.inr hu)
    let F₁ := (F.add u.after r true).remove u.before r true
    obtain ⟨ha₁, hb₁⟩ : F₁.entry? u.after = some ⟨[r], .insert⟩ ∧
        F₁.entry? u.before = some ⟨[r], .delete⟩ := hb.tentative_move_entries hu ha
    refine ⟨.applied, (F₁.add u.after r false).remove u.before r false, .applied,
      (F.add u.after r false).remove u.before r false, ?_, ?_, fun k => ?_⟩
    · rw [flat_apply_update hx (by simp [hn]) (by simp [State.status_add, hs]) hu hba,
        hplain, flat_insert_of_free (by simp [F₁, hn]) (State.holdsOther_of_entry?_self ha₁)]
      rfl
    · rw [flat_apply_update hx hn hs hu hba, hplain, flat_insert_of_free hn (by simp [ha])]
      rfl
    · -- both settle the after-image under the writer and drop the before-image
      by_cases hka : k = u.after
      · subst hka
        rw [State.entry?_remove_of_ne _ _ _ (Ne.symm hba),
          State.entry?_remove_of_ne _ _ _ (Ne.symm hba),
          State.entry?_add_of_self ha₁, State.entry?_add_of_none ha]
      · by_cases hkb : k = u.before
        · subst hkb
          rw [State.entry?_remove_of_self (by rw [State.entry?_add_of_ne _ _ _ hka]; exact hb₁),
            State.entry?_remove_of_self (by rw [State.entry?_add_of_ne _ _ _ hka]; exact hbb)]
        · rw [State.entry?_remove_of_ne _ _ _ hkb, State.entry?_remove_of_ne _ _ _ hkb,
            State.entry?_add_of_ne _ _ _ hka, State.entry?_add_of_ne _ _ _ hka,
            State.entry?_remove_of_ne _ _ _ hkb, State.entry?_add_of_ne _ _ _ hka]

end Flat

section Shelf

variable {x : Index} {w : Shelf} {F : State} {len : Nat → Nat} {r : EntityRef} {u : IndexUpdate}
  (hb : BeforeImage F r u) (hx : x.desc.unique = true) (hc : Clean w)
  (hR : Refines x (view w) F len) (hfuel : ∀ q, len q + 3 < chainLimit)
include hb hx hc hR hfuel

/-- The update taken for good: after every step readers are told the owner before or the owner
after. -/
theorem plain_steps {o : Outcome} {F' : State}
    (h : F.apply r u x.desc.unique x.flatMeta = .ok (o, F')) (i : Nat) :
    x.ReadsOn (x.afterSteps r u i w) F F' :=
  hR.reads_of_ok hx hc (fun q => by have := hfuel q; omega) (hb.regular rfl rfl rfl) h
    (fun _ => rfl) i

/-- The update taken tentatively: it hides the keys it touches and keeps the others; after each
of its steps readers are told the owner before or the hidden state; from the shelf it leaves,
after each step of its finalization they are told the hidden state or the owner after, and after
each step of its undo the hidden state or the owner before. -/
theorem tentative_steps {o : Outcome} {F₁ : State}
    (h : F.apply r u.asTentative x.desc.unique x.flatMeta = .ok (o, F₁)) :
    F.Hides F₁ (updateKeys u) ∧
      (∀ i, x.ReadsOn (x.afterSteps r u.asTentative i w) F F₁) ∧
      (∃ o' F', F.apply r u x.desc.unique x.flatMeta = .ok (o', F') ∧
        ∀ i, x.ReadsOn (x.afterSteps r u i ((x.apply r u.asTentative).exec w).2) F₁ F') ∧
      ∀ i, x.ReadsOn (x.afterSteps r u.reverse i ((x.apply r u.asTentative).exec w).2) F₁ F := by
  have hn := hR.flatNext
  have hs := hR.flatAvailable
  have hv : u.asTentative.regular = true := hb.regular rfl rfl rfl
  obtain ⟨o₃, F₃, o', F', h₃, h', hfinal⟩ := hb.final_entries hx hn hs h
  obtain ⟨-, o₂, F₂, h₂, hback⟩ := hb.reverse_of_ok hx hn hs h
  -- the shelf the tentative call leaves refines the hidden state, one bucket longer at most
  obtain ⟨len₁, hc₁, hR₁, hl₁⟩ := hR.after_call hc (fun q => by have := hfuel q; omega) hv h
  have hfuel₁ : ∀ q, len₁ q + 2 < chainLimit := fun q => by
    have := hl₁ q
    have := hfuel q
    omega
  exact ⟨hb.hides_of_tentative hx hn hs h,
    hR.reads_of_ok hx hc (fun q => by have := hfuel q; omega) hv h (fun _ => rfl),
    ⟨o', F', h', hR₁.reads_of_ok hx hc₁ hfuel₁ (hb.regular rfl rfl rfl) h₃ hfinal⟩,
    hR₁.reads_of_ok hx hc₁ hfuel₁ hb.reverse_regular h₂ hback⟩

/-- The update refused, in either form: after each of its steps readers are told the owner
before, it leaves every bucket as it was, and after each step of its undo readers are told the
owner before. -/
theorem refused_steps (t : Bool) {e : Error}
    (h : F.apply r (if t then u.asTentative else u) x.desc.unique x.flatMeta = .error e) :
    (∀ i, x.ReadsOn (x.afterSteps r (if t then u.asTentative else u) i w) F F) ∧
      view ((x.apply r (if t then u.asTentative else u)).exec w).2 = view w ∧
      ∀ i, x.ReadsOn
        (x.afterSteps r u.reverse i ((x.apply r (if t then u.asTentative else u)).exec w).2) F F := by
  have hop : (if t then u.asTentative else u).op = u.op := by cases t <;> rfl
  have hbv : (if t then u.asTentative else u).before = u.before := by cases t <;> rfl
  have hav : (if t then u.asTentative else u).after = u.after := by cases t <;> rfl
  have hfuel₂ : ∀ q, len q + 2 < chainLimit := fun q => by have := hfuel q; omega
  obtain ⟨o₂, F₂, h₂, hback⟩ :=
    hb.reverse_of_error hx hR.flatNext hR.flatAvailable hop hbv hav h
  obtain ⟨hreads, hc', hsame⟩ := hR.reads_of_error hx hc hfuel₂ (hb.regular hop hbv hav) h
  -- the undo starts from the buckets the refused call left alone
  have hR' : Refines x (view ((x.apply r (if t then u.asTentative else u)).exec w).2) F len :=
    hsame ▸ hR
  exact ⟨hreads, hsame, hR'.reads_of_ok hx hc' hfuel₂ hb.reverse_regular h₂ hback⟩

end Shelf

end BeforeImage

/-- Readers of a unique index never see a wrong owner while one write runs. The index's buckets,
on a clean shelf `w`, refine a flat bucket `F` that agrees with the write's images: it holds one
entity per key, and the writer only under its before-image, settled. After every bucket step of
every call the write makes to the index, readers of the shelf are told under every key what they
are told at one end of the call:

* the update taken for good steps from the owner before to the owner after, `F'`;
* taken tentatively, it ends in `F₁`, which hides every key the update touches and keeps every
  other key; its finalization, from the shelf the tentative call leaves, steps from `F₁` to the
  owner after; its undo, from the same shelf, steps from `F₁` back to the owner before;
* refused, tentative or not, it changes no bucket, and its undo steps only through the owner
  before.

So a reader is told the owner before, the owner after, or, under a hidden key, an integrity
failure; and a key a tentative update touches stays hidden from its tentative step until its
own finalization or the undo. -/
theorem readers_see_old_or_new_owner_during_write {x : Index} {w : Shelf} {F : State}
    {len : Nat → Nat} {r : EntityRef} {u : IndexUpdate} (hx : x.desc.unique = true)
    (hc : Clean w) (hR : Refines x (view w) F len) (hfuel : ∀ q, len q + 3 < chainLimit)
    (hb : BeforeImage F r u) :
    (∀ o F', F.apply r u x.desc.unique x.flatMeta = .ok (o, F') →
      ∀ i, x.ReadsOn (x.afterSteps r u i w) F F') ∧
    (∀ o F₁, F.apply r u.asTentative x.desc.unique x.flatMeta = .ok (o, F₁) →
      F.Hides F₁ (updateKeys u) ∧
        (∀ i, x.ReadsOn (x.afterSteps r u.asTentative i w) F F₁) ∧
        (∃ o' F', F.apply r u x.desc.unique x.flatMeta = .ok (o', F') ∧
          ∀ i, x.ReadsOn (x.afterSteps r u i ((x.apply r u.asTentative).exec w).2) F₁ F') ∧
        ∀ i, x.ReadsOn (x.afterSteps r u.reverse i ((x.apply r u.asTentative).exec w).2) F₁ F) ∧
    (∀ (t : Bool) e,
      F.apply r (if t then u.asTentative else u) x.desc.unique x.flatMeta = .error e →
      (∀ i, x.ReadsOn (x.afterSteps r (if t then u.asTentative else u) i w) F F) ∧
        view ((x.apply r (if t then u.asTentative else u)).exec w).2 = view w ∧
        ∀ i, x.ReadsOn
          (x.afterSteps r u.reverse i ((x.apply r (if t then u.asTentative else u)).exec w).2)
          F F) :=
  ⟨fun _ _ h => hb.plain_steps hx hc hR hfuel h, fun _ _ h => hb.tentative_steps hx hc hR hfuel h,
    fun t _ h => hb.refused_steps hx hc hR hfuel t h⟩

/-- A unique index on nicknames. -/
def nickBuckets : Index := ⟨"player.nick", { name := "nick", unique := true }⟩

/-- The flat bucket of `nickBuckets` with `player/a` alone under `s:x`. -/
def nickAtX : State := { entries := [(⟨"s:x"⟩, ⟨[⟨"player", "a"⟩], .none⟩)] }

/-- The same bucket once `player/a` has moved to `s:y`. -/
def nickAtY : State := { entries := [(⟨"s:y"⟩, ⟨[⟨"player", "a"⟩], .none⟩)] }

/-- The move of `player/a` from `s:x` to `s:y`. -/
def nickMove : IndexUpdate := IndexUpdate.plain ⟨.update, ⟨"s:x"⟩, ⟨"s:y"⟩⟩

theorem entry?_nickAtX (k : Key) :
    nickAtX.entry? k = if k = ⟨"s:x"⟩ then some ⟨[⟨"player", "a"⟩], .none⟩ else none := by
  by_cases hk : k = ⟨"s:x"⟩ <;> simp [nickAtX, State.entry?, hk]

/-- The images of `player/a` agree with `nickAtX` for its move. -/
theorem nickAtX_image : BeforeImage nickAtX ⟨"player", "a"⟩ nickMove where
  one k e he := by
    rw [entry?_nickAtX] at he
    split at he
    · cases he
      exact ⟨_, rfl⟩
    · cases he
  only k e he _ := by
    rw [entry?_nickAtX] at he
    split at he
    · rename_i hk
      exact ⟨hk, .inr rfl⟩
    · cases he
  settled _ := rfl
  op := .inr (.inr rfl)
  moves _ := by decide
  plain := rfl

/-- The bucket once the move is taken tentatively: both keys marked, `player/a` under each. -/
def nickHidden : State :=
  { entries := [(⟨"s:x"⟩, ⟨[⟨"player", "a"⟩], .delete⟩), (⟨"s:y"⟩, ⟨[⟨"player", "a"⟩], .insert⟩)] }

/-- The insert of `player/a` under `s:x`. -/
def nickInsert : IndexUpdate := ⟨.insert, Key.null, ⟨"s:x"⟩, false, .plain⟩

/-- The shelf once `player/a` has taken `s:x` on `nickBuckets`, from the empty shelf. -/
def nickShelf : Shelf := ((nickBuckets.apply ⟨"player", "a"⟩ nickInsert).exec {}).2

/-- The move of `player/a` on the shelf where it holds `s:x`. After each step of the move taken
for good, readers are told what they are told before the move or after it; taken tentatively it
hides both `s:x` and `s:y`. -/
theorem nick_move_reads_old_or_new_owner :
    Clean nickShelf ∧ Refines nickBuckets (view nickShelf) nickAtX (fun _ => 1) ∧
      1 + 3 < chainLimit ∧
      (∀ i, nickBuckets.ReadsOn (nickBuckets.afterSteps ⟨"player", "a"⟩ nickMove i nickShelf)
        nickAtX nickAtY) ∧
      nickAtX.Hides nickHidden [⟨"s:x"⟩, ⟨"s:y"⟩] := by
  have happ := Applied.call ⟨"player", "a"⟩ nickInsert (Applied.empty (x := nickBuckets)) rfl
  obtain ⟨hc, len, hR, -⟩ := happ.refines (by decide)
  -- an unbounded index keeps one bucket per partition
  obtain rfl : len = fun _ => 1 := funext (hR.flat rfl)
  have hfuel : 1 + 3 < chainLimit := by decide
  have hw := readers_see_old_or_new_owner_during_write (x := nickBuckets) rfl hc hR
    (fun _ => hfuel) nickAtX_image
  exact ⟨hc, hR, hfuel, hw.1 .applied nickAtY rfl, (hw.2.1 .applied nickHidden rfl).1⟩

end EntityIndex.Bucket

namespace EntityIndex.Cluster

/-- What a reader of `s:x` on the unique index `emailBuckets` is told, as the kind and text of a
failure or an entity: once `a` has set `email = x` while the index is under construction, and
again once the index is available. -/
def toldWhileBuilding :
    Run World (Except (Kind × String) EntityRef × Except (Kind × String) EntityRef) := do
  World.register "player" false [emailDecl]
  emailBuckets.setStatus .underConstruction
  let a ← World.getEntity "player" "a"
  World.updateEntity a (fun st => .ok (st.set "email" "x"))
  World.flush
  let during ← Run.attempt (emailBuckets.lookupUnique ⟨"s:x"⟩)
  emailBuckets.setStatus .available
  let after ← Run.attempt (emailBuckets.lookupUnique ⟨"s:x"⟩)
  pure (during.mapError fun e => (e.kind, e.message), after.mapError fun e => (e.kind, e.message))

set_option maxRecDepth 200000 in
/-- A reader of a unique index under construction is told neither the owner before a write nor
the owner after it, nor an integrity failure: after `a`'s write of `email = x` it is told that the
index is unavailable, and `a` is the owner it is told once the index is available. -/
theorem building_index_tells_readers_unavailable :
    (toldWhileBuilding.exec freshCluster).1.toOption =
      some (.error (.unavailable, "index player.email is under-construction: index unavailable"),
        .ok ⟨"player", "a"⟩) := by
  decide +kernel

end EntityIndex.Cluster
