import EntityIndex.Cluster.SharedDirectory
import EntityIndex.Proofs.Model.Maps

/-!
# Single-flight activation

What holds in every state of a `SharedDirectory` that some interleaving reaches (`Inv`):

* the table (`TableOk`): its addresses are strictly sorted, so each has one entry; no entry sits
  on a node marked down; every entry it points at exists on the node it records and has not
  failed; and no entry is pointed at twice;
* every activation (`CallOk`): the entry it holds exists, a creator's entry is still pending, an
  activation that returned a value returned its entry's value and node, and an activation
  holding an entry the table points at is for that entry's address;
* each pending entry has one creator.

From these, `activations_share_one_live_entry`: the table keeps one entry per address, on nodes
that are up; every activation through a live entry returns that entry's value and node; as long
as an address is neither removed nor its node failed, its completed entry stays and every new
activation of the address joins it, so create runs once; and failing a node returns exactly the
entries it hosted, completed or pending, by address, and leaves none of them.

What does not hold is that an activation never returns a node that is down when it returns:
`failNode` drops an entry whose create call is still running, the create call succeeds
afterwards, and its caller gets the failed node (`activation_returns_failed_node`). The true
statement is that a returned node is down only once its entry has left the table.
-/

namespace EntityIndex.Cluster

/-! ## The table -/

namespace Directory

variable {β : Type} {d : Directory β}

theorem find?_eq_some_iff (hs : NamesSorted d.entries) {addr addr' n : String} {v : β} :
    d.find? addr = some ⟨addr', n, v⟩ ↔ addr' = addr ∧ (addr, n, v) ∈ d.entries := by
  simp only [find?, Option.map_eq_some_iff, Prod.exists, Activation.mk.injEq]
  constructor
  · rintro ⟨n', v', hl, rfl, rfl, rfl⟩
    exact ⟨rfl, (lookup_eq_some_iff hs).mp hl⟩
  · rintro ⟨rfl, hm⟩
    exact ⟨n, v, (lookup_eq_some_iff hs).mpr hm, rfl, rfl, rfl⟩

theorem mem_put {addr n : String} {v : β} (h : d.find? addr = none) {x : String × String × β} :
    x ∈ (d.put addr n v).entries ↔ x = (addr, n, v) ∨ x ∈ d.entries := by
  simp only [find?, Option.map_eq_none_iff] at h
  exact mem_insertByName_of_lookup h

theorem namesSorted_put (hs : NamesSorted d.entries) (addr n : String) (v : β) :
    NamesSorted (d.put addr n v).entries :=
  namesSorted_insertByName addr (n, v) hs

@[simp] theorem isDown_put (addr n m : String) (v : β) : (d.put addr n v).isDown m = d.isDown m :=
  rfl

theorem mem_drop {addr : String} {x : String × String × β} :
    x ∈ (d.drop addr).entries ↔ x ∈ d.entries ∧ x.1 ≠ addr := by
  simp [drop]

theorem namesSorted_drop (hs : NamesSorted d.entries) (addr : String) :
    NamesSorted (d.drop addr).entries :=
  List.Pairwise.filter _ hs

@[simp] theorem isDown_drop (addr m : String) : (d.drop addr).isDown m = d.isDown m := rfl

theorem mem_failNode {n : String} {x : String × String × β} :
    x ∈ (d.failNode n).2.entries ↔ x ∈ d.entries ∧ x.2.1 ≠ n := by
  simp [failNode]

theorem namesSorted_failNode (hs : NamesSorted d.entries) (n : String) :
    NamesSorted (d.failNode n).2.entries :=
  List.Pairwise.filter _ hs

theorem isDown_failNode (n m : String) :
    (d.failNode n).2.isDown m = true ↔ d.isDown m = true ∨ m = n := by
  simp only [failNode, isDown]
  split_ifs with h
  · constructor
    · exact .inl
    · rintro (hm | rfl)
      · exact hm
      · exact h
  · simp

theorem isDown_setPlacement (n m : String) :
    (d.setPlacement n).isDown m = true ↔ d.isDown m = true ∧ m ≠ n := by
  simp [setPlacement, isDown]

@[simp] theorem setPlacement_entries (n : String) : (d.setPlacement n).entries = d.entries := rfl

theorem isDown_of_target {addr node : String} {node? : Option String}
    (h : d.target addr node? = .ok node) : d.isDown node = false := by
  simp only [target] at h
  by_cases hd : d.isDown (node?.getD d.placement) = true
  · simp [hd] at h
  · simp only [hd, Bool.false_eq_true, if_false, Except.ok.injEq] at h
    subst h
    exact Bool.eq_false_iff.mpr hd

end Directory

namespace SharedDirectory

variable {α : Type} {t t' : SharedDirectory α}

/-- The error of an activation on a node asked for that is empty. -/
def emptyNode (addr : String) : Error := .other ("activate " ++ addr ++ ": empty node")

/-! ## Step inversions -/

section Steps

variable [DecidableEq α]

theorem step_activate {addr : String} {node? : Option String}
    (h : t.step (.activate addr node?) = some t') :
    (node? = some "" ∧ t' = { t with calls := t.calls ++ [⟨addr, none, .returned (.refused (emptyNode addr))⟩] }) ∨
    (node? ≠ some "" ∧ ∃ n c, t.dir.find? addr = some ⟨addr, n, c⟩ ∧
      t' = { t with calls := t.calls ++ [⟨addr, some c, .waiting⟩] }) ∨
    (node? ≠ some "" ∧ t.dir.find? addr = none ∧ ∃ e, t.dir.target addr node? = .error e ∧
      t' = { t with calls := t.calls ++ [⟨addr, none, .returned (.refused e)⟩] }) ∨
    (node? ≠ some "" ∧ t.dir.find? addr = none ∧ ∃ node, t.dir.target addr node? = .ok node ∧
      t' = { t with
        dir := t.dir.put addr node t.entries.length
        entries := t.entries ++ [⟨node, .pending⟩]
        calls := t.calls ++ [⟨addr, some t.entries.length, .creating⟩] }) := by
  simp only [step] at h
  split_ifs at h with hn
  · exact .inl ⟨hn, (Option.some.inj h).symm⟩
  · split at h
    · rename_i a ha
      -- the table only answers for the address asked
      have hsame : a = ⟨addr, a.node, a.value⟩ := by
        simp only [Directory.find?, Option.map_eq_some_iff] at ha
        obtain ⟨_, _, rfl⟩ := ha
        rfl
      exact .inr (.inl ⟨hn, a.node, a.value, hsame ▸ ha, (Option.some.inj h).symm⟩)
    · rename_i ha
      split at h
      · rename_i e he
        exact .inr (.inr (.inl ⟨hn, ha, e, he, (Option.some.inj h).symm⟩))
      · rename_i node he
        exact .inr (.inr (.inr ⟨hn, ha, node, he, (Option.some.inj h).symm⟩))

theorem step_complete {i : Nat} {v? : Option α} (h : t.step (.complete i v?) = some t') :
    ∃ addr c e, t.calls[i]? = some ⟨addr, some c, .creating⟩ ∧ t.entries[c]? = some e ∧
      ((∃ v, v? = some v ∧ t' = { t with
          entries := t.entries.set c ⟨e.node, .created v⟩
          calls := t.calls.set i ⟨addr, some c, .returned (.activated v e.node)⟩ }) ∨
       (v? = none ∧ t' = { t with
          dir := if (t.dir.find? addr).map (·.value) = some c then t.dir.drop addr else t.dir
          entries := t.entries.set c ⟨e.node, .failed⟩
          calls := t.calls.set i ⟨addr, some c, .returned .failed⟩ })) := by
  simp only [step] at h
  split at h
  · rename_i addr c hk
    split at h
    · rename_i e he
      refine ⟨addr, c, e, hk, he, ?_⟩
      cases v? with
      | some v => exact .inl ⟨v, rfl, (Option.some.inj h).symm⟩
      | none => exact .inr ⟨rfl, (Option.some.inj h).symm⟩
    · cases h
  · cases h

theorem step_wake {i : Nat} (h : t.step (.wake i) = some t') :
    ∃ addr c n, t.calls[i]? = some ⟨addr, some c, .waiting⟩ ∧
      ((∃ v, t.entries[c]? = some ⟨n, .created v⟩ ∧
          t' = { t with calls := t.calls.set i ⟨addr, some c, .returned (.activated v n)⟩ }) ∨
       (t.entries[c]? = some ⟨n, .failed⟩ ∧
          t' = { t with calls := t.calls.set i ⟨addr, some c, .returned .failed⟩ })) := by
  simp only [step] at h
  split at h
  · rename_i addr c hk
    split at h
    · rename_i n v he
      exact ⟨addr, c, n, hk, .inl ⟨v, he, (Option.some.inj h).symm⟩⟩
    · rename_i n he
      exact ⟨addr, c, n, hk, .inr ⟨he, (Option.some.inj h).symm⟩⟩
    · cases h
  · cases h

theorem step_cancel {i : Nat} (h : t.step (.cancel i) = some t') :
    ∃ addr c, t.calls[i]? = some ⟨addr, c, .waiting⟩ ∧
      t' = { t with calls := t.calls.set i ⟨addr, c, .returned .canceled⟩ } := by
  simp only [step] at h
  split at h
  · rename_i addr c hk
    exact ⟨addr, c, hk, (Option.some.inj h).symm⟩
  · cases h

theorem step_remove {addr : String} {v? : Option α} (h : t.step (.remove addr v?) = some t') :
    t' = t ∨ t' = { t with dir := t.dir.drop addr } := by
  simp only [step] at h
  split at h
  · exact .inl (Option.some.inj h).symm
  · exact .inr (Option.some.inj h).symm
  · split_ifs at h
    · exact .inr (Option.some.inj h).symm
    · exact .inl (Option.some.inj h).symm

end Steps

/-! ## The invariant -/

/-- The table: addresses strictly sorted, no entry on a node marked down, every entry pointed at
exists on the node the table records and has not failed, and none is pointed at twice. -/
structure TableOk (dir : Directory Nat) (entries : List (Entry α)) : Prop where
  sorted : NamesSorted dir.entries
  up : ∀ x ∈ dir.entries, dir.isDown x.2.1 = false
  live : ∀ x ∈ dir.entries, ∃ o, entries[x.2.2]? = some ⟨x.2.1, o⟩ ∧ o ≠ .failed
  once : ∀ x ∈ dir.entries, ∀ y ∈ dir.entries, x.2.2 = y.2.2 → x = y

/-- An activation: the entry it holds exists; a creator's entry is pending; a value it returned
is its entry's, with the entry's node; and when the table points at its entry, the entry is the
activation's address's. -/
structure CallOk (dir : Directory Nat) (entries : List (Entry α)) (k : Call α) : Prop where
  bound : ∀ c, k.entry = some c → c < entries.length
  creating : k.stage = .creating → ∃ c n, k.entry = some c ∧ entries[c]? = some ⟨n, .pending⟩
  activated : ∀ v n, k.stage = .returned (.activated v n) →
    ∃ c, k.entry = some c ∧ entries[c]? = some ⟨n, .created v⟩
  addr : ∀ x ∈ dir.entries, k.entry = some x.2.2 → k.addr = x.1

/-- What holds in every reachable state. -/
structure Inv (t : SharedDirectory α) : Prop where
  table : TableOk t.dir t.entries
  calls : ∀ (i : Nat) (k : Call α), t.calls[i]? = some k → CallOk t.dir t.entries k
  /-- A pending entry has one creator. -/
  creator : ∀ (i j : Nat) (ki kj : Call α), t.calls[i]? = some ki → t.calls[j]? = some kj →
    ki.stage = .creating → kj.stage = .creating → ki.entry = kj.entry → i = j

/-- An activation keeps its bounds when its own entry keeps what it says of it and the table
only loses entries it could point at. -/
theorem CallOk.frame {dir dir' : Directory Nat} {entries entries' : List (Entry α)} {k : Call α}
    (h : CallOk dir entries k) (hlen : entries.length ≤ entries'.length)
    (hkeep : ∀ c e, k.entry = some c → entries[c]? = some e →
      (k.stage = .creating ∨ e.outcome ≠ .pending) → entries'[c]? = some e)
    (htab : ∀ x ∈ dir'.entries, k.entry = some x.2.2 → x ∈ dir.entries) :
    CallOk dir' entries' k where
  bound c hc := Nat.lt_of_lt_of_le (h.bound c hc) hlen
  creating hs := by
    obtain ⟨c, n, hc, he⟩ := h.creating hs
    exact ⟨c, n, hc, hkeep c _ hc he (.inl hs)⟩
  activated v n hs := by
    obtain ⟨c, hc, he⟩ := h.activated v n hs
    exact ⟨c, hc, hkeep c _ hc he (.inr nofun)⟩
  addr x hx hc := h.addr x (htab x hx hc) hc

section CallOk

variable {dir : Directory Nat} {entries : List (Entry α)} {k : Call α}

/-- The entry an activation holds while it creates is pending. -/
theorem CallOk.pending_of_creating (h : CallOk dir entries k) (hs : k.stage = .creating) {c : Nat}
    (hc : k.entry = some c) {e : Entry α} (he : entries[c]? = some e) : e.outcome = .pending := by
  obtain ⟨c', n, hc', he'⟩ := h.creating hs
  rw [hc] at hc'
  obtain rfl := Option.some.inj hc'
  rw [he] at he'
  rw [Option.some.inj he']

/-- The entry an activation holds once it returned a value holds that value, on the node it
returned. -/
theorem CallOk.entry_of_activated (h : CallOk dir entries k) {v : α} {n : String}
    (hs : k.stage = .returned (.activated v n)) {c : Nat} (hc : k.entry = some c) {e : Entry α}
    (he : entries[c]? = some e) : e = ⟨n, .created v⟩ := by
  obtain ⟨c', hc', he'⟩ := h.activated v n hs
  rw [hc] at hc'
  obtain rfl := Option.some.inj hc'
  rw [he] at he'
  exact Option.some.inj he'

end CallOk

/-- Overwriting an activation with one that does not create keeps one creator per pending entry. -/
theorem creator_set {calls : List (Call α)}
    (h : ∀ (i j : Nat) (ki kj : Call α), calls[i]? = some ki → calls[j]? = some kj →
      ki.stage = .creating → kj.stage = .creating → ki.entry = kj.entry → i = j)
    {i : Nat} {k : Call α} (hc : k.stage ≠ .creating) (j₁ j₂ : Nat) (k₁ k₂ : Call α)
    (h₁ : (calls.set i k)[j₁]? = some k₁) (h₂ : (calls.set i k)[j₂]? = some k₂)
    (hs₁ : k₁.stage = .creating) (hs₂ : k₂.stage = .creating) (he : k₁.entry = k₂.entry) :
    j₁ = j₂ := by
  rcases getElem?_set_eq_some h₁ with ⟨-, rfl⟩ | ⟨-, h₁⟩
  · exact absurd hs₁ hc
  · rcases getElem?_set_eq_some h₂ with ⟨-, rfl⟩ | ⟨-, h₂⟩
    · exact absurd hs₂ hc
    · exact h j₁ j₂ k₁ k₂ h₁ h₂ hs₁ hs₂ he

/-- A new activation that holds no pending entry of its own. -/
theorem Inv.push_call (h : Inv t) {k : Call α} (hk : CallOk t.dir t.entries k)
    (hc : k.stage ≠ .creating) : Inv { t with calls := t.calls ++ [k] } where
  table := h.table
  calls i k' hk' := by
    rcases getElem?_push_eq_some hk' with hk' | ⟨-, rfl⟩
    · exact h.calls i k' hk'
    · exact hk
  creator i j ki kj hi hj hsi hsj he := by
    rcases getElem?_push_eq_some hi with hi | ⟨-, rfl⟩
    · rcases getElem?_push_eq_some hj with hj | ⟨-, rfl⟩
      · exact h.creator i j ki kj hi hj hsi hsj he
      · exact absurd hsj hc
    · exact absurd hsi hc

/-- An activation moves on without creating. -/
theorem Inv.set_call (h : Inv t) {i : Nat} {k : Call α} (hk : CallOk t.dir t.entries k)
    (hc : k.stage ≠ .creating) : Inv { t with calls := t.calls.set i k } where
  table := h.table
  calls j k' hk' := by
    rcases getElem?_set_eq_some hk' with ⟨-, rfl⟩ | ⟨-, hk'⟩
    · exact hk
    · exact h.calls j k' hk'
  creator := creator_set h.creator hc

/-- The table changes only by losing entries, and keeps every remaining node up. -/
theorem Inv.with_dir (h : Inv t) {d : Directory Nat} (hsub : ∀ x ∈ d.entries, x ∈ t.dir.entries)
    (hsorted : NamesSorted d.entries) (hup : ∀ x ∈ d.entries, d.isDown x.2.1 = false) :
    Inv { t with dir := d } where
  table :=
    { sorted := hsorted
      up := hup
      live := fun x hx => h.table.live x (hsub x hx)
      once := fun x hx y hy => h.table.once x (hsub x hx) y (hsub y hy) }
  calls i k hk := (h.calls i k hk).frame (Nat.le_refl _) (fun _ _ _ he _ => he)
    (fun x hx _ => hsub x hx)
  creator := h.creator

/-- An activation that returns without holding an entry. -/
theorem callOk_refused {dir : Directory Nat} {entries : List (Entry α)} (addr : String)
    (e : Error) : CallOk dir entries ⟨addr, none, .returned (.refused e)⟩ where
  bound _ hc := by cases hc
  creating hs := by cases hs
  activated _ _ hs := by cases hs
  addr _ _ hc := by cases hc

/-- An activation that changes stage keeps its bounds, as long as a value it returns is its
entry's. -/
theorem CallOk.restage {dir : Directory Nat} {entries : List (Entry α)} {k : Call α}
    (h : CallOk dir entries k) {st : Stage α} (hc : st ≠ .creating)
    (hact : ∀ v n, st = .returned (.activated v n) →
      ∃ c, k.entry = some c ∧ entries[c]? = some ⟨n, .created v⟩) :
    CallOk dir entries { k with stage := st } where
  bound := h.bound
  creating hs := absurd hs hc
  activated := hact
  addr := h.addr

/-- An activation that finds the address's entry waits on it. -/
theorem Inv.join (h : Inv t) {addr n : String} {c : Nat}
    (hf : t.dir.find? addr = some ⟨addr, n, c⟩) :
    Inv { t with calls := t.calls ++ [⟨addr, some c, .waiting⟩] } := by
  have hm : (addr, n, c) ∈ t.dir.entries := ((Directory.find?_eq_some_iff h.table.sorted).mp hf).2
  refine h.push_call ⟨fun c' hc => ?_, nofun, (fun _ _ hs => by cases hs), fun x hx hc => ?_⟩ nofun
  · obtain ⟨o, he, -⟩ := h.table.live _ hm
    obtain rfl := Option.some.inj hc
    exact (List.getElem?_eq_some_iff.mp he).1
  · -- the table points at this entry from this address only
    rw [h.table.once x hx _ hm (Option.some.inj hc).symm]

/-- An activation that finds no entry publishes a pending one on an up node and creates. -/
theorem Inv.publish (h : Inv t) {addr node : String} (hf : t.dir.find? addr = none)
    (hup : t.dir.isDown node = false) :
    Inv { t with
      dir := t.dir.put addr node t.entries.length
      entries := t.entries ++ [⟨node, .pending⟩]
      calls := t.calls ++ [⟨addr, some t.entries.length, .creating⟩] } := by
  -- every entry the table or an activation points at is older than the new one
  have hold : ∀ x ∈ t.dir.entries, x.2.2 < t.entries.length := fun x hx => by
    obtain ⟨o, he, -⟩ := h.table.live x hx
    exact (List.getElem?_eq_some_iff.mp he).1
  have hput : ∀ x, x ∈ (t.dir.put addr node t.entries.length).entries ↔
      x = (addr, node, t.entries.length) ∨ x ∈ t.dir.entries := fun _ => Directory.mem_put hf
  refine ⟨⟨Directory.namesSorted_put h.table.sorted _ _ _, ?_, ?_, ?_⟩, ?_, ?_⟩
  · intro x hx
    rcases (hput x).mp hx with rfl | hx
    · exact hup
    · exact h.table.up x hx
  · intro x hx
    rcases (hput x).mp hx with rfl | hx
    · exact ⟨.pending, List.getElem?_concat_length, nofun⟩
    · obtain ⟨o, he, ho⟩ := h.table.live x hx
      exact ⟨o, getElem?_push_of_getElem? he, ho⟩
  · intro x hx y hy hxy
    rcases (hput x).mp hx with rfl | hx <;> rcases (hput y).mp hy with rfl | hy
    · rfl
    · exact absurd hxy (Nat.ne_of_gt (hold y hy))
    · exact absurd hxy (Nat.ne_of_lt (hold x hx))
    · exact h.table.once x hx y hy hxy
  · intro i k hk
    rcases getElem?_push_eq_some hk with hk | ⟨-, rfl⟩
    · have hc := h.calls i k hk
      refine hc.frame (by simp) (fun c e _ he _ => getElem?_push_of_getElem? he) fun x hx hkx => ?_
      rcases (hput x).mp hx with rfl | hx
      · exact absurd (hc.bound _ hkx) (Nat.lt_irrefl _)
      · exact hx
    · refine ⟨fun c hc => ?_, fun _ => ⟨_, node, rfl, List.getElem?_concat_length⟩,
        (fun _ _ hs => by cases hs), fun x hx hc => ?_⟩
      · obtain rfl := Option.some.inj hc
        simp
      · rcases (hput x).mp hx with rfl | hx
        · rfl
        · exact absurd (Option.some.inj hc).symm (Nat.ne_of_lt (hold x hx))
  · intro i j ki kj hi hj hsi hsj he
    -- an older creator holds an older entry
    have hbound : ∀ (m : Nat) (km : Call α), t.calls[m]? = some km →
        km.entry ≠ some t.entries.length :=
      fun m km hm hkm => Nat.lt_irrefl _ ((h.calls m km hm).bound _ hkm)
    rcases getElem?_push_eq_some hi with hi | ⟨rfl, rfl⟩ <;>
      rcases getElem?_push_eq_some hj with hj | ⟨rfl, rfl⟩
    · exact h.creator i j ki kj hi hj hsi hsj he
    · exact absurd he (hbound i ki hi)
    · exact absurd he.symm (hbound j kj hj)
    · rfl

/-- A create call returns: its entry takes an outcome that is not pending, its caller returns,
and the table loses entries, never the one taking a failure. -/
theorem Inv.complete (h : Inv t) {i c : Nat} {addr : String} {e : Entry α} {o : Outcome α}
    {r : Reply α} {d : Directory Nat}
    (hk : t.calls[i]? = some ⟨addr, some c, .creating⟩) (he : t.entries[c]? = some e)
    (hsub : ∀ x ∈ d.entries, x ∈ t.dir.entries) (hsorted : NamesSorted d.entries)
    (hup : ∀ x ∈ d.entries, d.isDown x.2.1 = false) (ho : o ≠ .pending)
    (hlive : o = .failed → ∀ x ∈ d.entries, x.2.2 ≠ c)
    (hr : ∀ v n, r = .activated v n → o = .created v ∧ n = e.node) :
    Inv { t with
      dir := d
      entries := t.entries.set c ⟨e.node, o⟩
      calls := t.calls.set i ⟨addr, some c, .returned r⟩ } := by
  have hki := h.calls i _ hk
  -- the entry was pending: its creator is the one returning
  have hpend : e.outcome = .pending := hki.pending_of_creating rfl rfl he
  refine ⟨⟨hsorted, hup, fun x hx => ?_, fun x hx y hy => h.table.once x (hsub x hx) y (hsub y hy)⟩,
    fun j k hj => ?_, creator_set h.creator nofun⟩
  · obtain ⟨o', hx', ho'⟩ := h.table.live x (hsub x hx)
    by_cases hxc : x.2.2 = c
    · rw [hxc] at hx' ⊢
      rw [he] at hx'
      obtain rfl := Option.some.inj hx'
      refine ⟨o, getElem?_set_of_getElem? he, fun hf => hlive hf x hx hxc⟩
    · exact ⟨o', by rw [getElem?_set_of_ne hxc, hx'], ho'⟩
  · rcases getElem?_set_eq_some hj with ⟨-, rfl⟩ | ⟨hji, hj'⟩
    · refine ⟨fun c' hc' => ?_, nofun, fun v n hs => ⟨c, rfl, ?_⟩,
        fun x hx hc' => hki.addr x (hsub x hx) hc'⟩
      · rw [List.length_set]; exact hki.bound c' hc'
      · obtain ⟨rfl, rfl⟩ := hr v n (by cases hs; rfl)
        exact getElem?_set_of_getElem? he
    · have hkj := h.calls j k hj'
      refine hkj.frame (by simp) (fun c' e' hc' he' hs => ?_) (fun x hx _ => hsub x hx)
      -- no other activation holds this entry as creator, and the entry was pending
      have hne : c' ≠ c := by
        rintro rfl
        rcases hs with hs | hs
        · exact hji (h.creator j i k _ hj' hk hs rfl hc')
        · rw [he] at he'
          exact hs (Option.some.inj he' ▸ hpend)
      rw [getElem?_set_of_ne hne, he']

/-- When a create call fails, the table drops the address only if it still points at the
failing entry; either way it no longer points at that entry. -/
theorem Inv.drop_failed (h : Inv t) {i c : Nat} {addr : String}
    (hk : t.calls[i]? = some ⟨addr, some c, .creating⟩) :
    let d := if (t.dir.find? addr).map (·.value) = some c then t.dir.drop addr else t.dir
    (∀ x ∈ d.entries, x ∈ t.dir.entries) ∧ NamesSorted d.entries ∧
      (∀ x ∈ d.entries, d.isDown x.2.1 = false) ∧ ∀ x ∈ d.entries, x.2.2 ≠ c := by
  have hki := h.calls i _ hk
  intro d
  by_cases hcur : (t.dir.find? addr).map (·.value) = some c
  · have hd : d = t.dir.drop addr := if_pos hcur
    rw [hd]
    refine ⟨fun x hx => (Directory.mem_drop.mp hx).1, Directory.namesSorted_drop h.table.sorted _,
      fun x hx => ?_, fun x hx hxc => ?_⟩
    · rw [Directory.isDown_drop]; exact h.table.up x (Directory.mem_drop.mp hx).1
    · -- an entry of this activation is this address's
      obtain ⟨hx, hne⟩ := Directory.mem_drop.mp hx
      exact hne (hki.addr x hx (by rw [hxc])).symm
  · have hd : d = t.dir := if_neg hcur
    rw [hd]
    refine ⟨fun x hx => hx, h.table.sorted, h.table.up, fun x hx hxc => hcur ?_⟩
    -- were the table still pointing at the entry, it would do so from this address
    have ha : addr = x.1 := hki.addr x hx (by rw [hxc])
    have hf : t.dir.find? addr = some ⟨addr, x.2.1, x.2.2⟩ :=
      (Directory.find?_eq_some_iff h.table.sorted).mpr ⟨rfl, by rw [ha]; exact hx⟩
    rw [hf, hxc]
    rfl

/-- Each address has one entry at most. -/
theorem TableOk.eq_of_addr_eq {dir : Directory Nat} {entries : List (Entry α)}
    (h : TableOk dir entries) {x y : String × String × Nat} (hx : x ∈ dir.entries)
    (hy : y ∈ dir.entries) (hxy : x.1 = y.1) : x = y := by
  have h₁ : dir.entries.lookup x.1 = some x.2 := (lookup_eq_some_iff h.sorted).mpr hx
  have h₂ : dir.entries.lookup x.1 = some y.2 := (lookup_eq_some_iff h.sorted).mpr (by rw [hxy]; exact hy)
  exact Prod.ext hxy (Option.some.inj (h₁.symm.trans h₂))

/-! ## Failing a node -/

theorem mem_dropped {n : String} {a : Activation (Option α)} :
    a ∈ t.dropped n ↔ ∃ c, (a.addr, n, c) ∈ t.dir.entries ∧ a.node = n ∧
      a.value = (t.entries[c]?).bind Entry.value? := by
  simp only [dropped, Directory.failNode, List.map_map, List.mem_map, List.mem_filter,
    decide_eq_true_eq, Function.comp, Prod.exists]
  constructor
  · rintro ⟨addr, m, c, ⟨hx, rfl⟩, rfl⟩
    exact ⟨c, hx, rfl, rfl⟩
  · rintro ⟨c, hx, hn, hv⟩
    exact ⟨a.addr, n, c, ⟨hx, rfl⟩, by rw [← hn, ← hv]⟩

theorem dropped_sorted (hs : NamesSorted t.dir.entries) (n : String) :
    (t.dropped n).Pairwise fun a b => a.addr < b.addr := by
  simp only [dropped, Directory.failNode, List.map_map, List.pairwise_map]
  exact hs.filter _

theorem Inv.init (placement : String) : Inv (⟨{ placement }, [], []⟩ : SharedDirectory α) where
  table := ⟨List.Pairwise.nil, nofun, nofun, nofun⟩
  calls _ _ h := by simp at h
  creator _ _ _ _ h := by simp at h

section Run

variable [DecidableEq α]

theorem Inv.step (h : Inv t) {e : Event α} (hs : t.step e = some t') : Inv t' := by
  cases e with
  | activate addr node? =>
    rcases step_activate hs with ⟨-, rfl⟩ | ⟨-, n, c, hf, rfl⟩ | ⟨-, -, err, -, rfl⟩ |
      ⟨-, hf, node, ht, rfl⟩
    · exact h.push_call (callOk_refused _ _) nofun
    · exact h.join hf
    · exact h.push_call (callOk_refused _ _) nofun
    · exact h.publish hf (Directory.isDown_of_target ht)
  | complete i v? =>
    obtain ⟨addr, c, e, hk, he, ⟨v, -, rfl⟩ | ⟨-, rfl⟩⟩ := step_complete hs
    · exact h.complete hk he (fun x hx => hx) h.table.sorted h.table.up nofun nofun
        fun v' n hr => by cases hr; exact ⟨rfl, rfl⟩
    · obtain ⟨hsub, hsorted, hup, hlive⟩ := h.drop_failed hk
      exact h.complete hk he hsub hsorted hup nofun (fun _ => hlive) fun _ _ hr => by cases hr
  | wake i =>
    obtain ⟨addr, c, n, hk, ⟨v, he, rfl⟩ | ⟨he, rfl⟩⟩ := step_wake hs
    · exact h.set_call ((h.calls i _ hk).restage nofun fun v' n' hr => by
        cases hr; exact ⟨c, rfl, he⟩) nofun
    · exact h.set_call ((h.calls i _ hk).restage nofun fun _ _ hr => by cases hr) nofun
  | cancel i =>
    obtain ⟨addr, c, hk, rfl⟩ := step_cancel hs
    exact h.set_call ((h.calls i _ hk).restage nofun fun _ _ hr => by cases hr) nofun
  | remove addr v? =>
    rcases step_remove hs with rfl | rfl
    · exact h
    · exact h.with_dir (fun x hx => (Directory.mem_drop.mp hx).1)
        (Directory.namesSorted_drop h.table.sorted _) fun x hx => by
          rw [Directory.isDown_drop]; exact h.table.up x (Directory.mem_drop.mp hx).1
  | failNode n =>
    obtain rfl : { t with dir := (t.dir.failNode n).2 } = t' := Option.some.inj hs
    refine h.with_dir (fun x hx => (Directory.mem_failNode.mp hx).1)
      (Directory.namesSorted_failNode h.table.sorted _) fun x hx => ?_
    -- what stays is on another node, which was up
    obtain ⟨hx, hne⟩ := Directory.mem_failNode.mp hx
    have hup := h.table.up x hx
    refine Bool.eq_false_iff.mpr fun hd => ?_
    rcases (Directory.isDown_failNode n _).mp hd with hd | hd
    · rw [hup] at hd; cases hd
    · exact hne hd
  | setPlacement n =>
    obtain rfl : { t with dir := t.dir.setPlacement n } = t' := Option.some.inj hs
    refine h.with_dir (fun x hx => hx) h.table.sorted fun x hx => ?_
    have hup := h.table.up x hx
    refine Bool.eq_false_iff.mpr fun hd => ?_
    rw [((Directory.isDown_setPlacement n _).mp hd).1] at hup
    cases hup

theorem reachable_inv {placement : String} (h : Reachable placement t) : Inv t := by
  induction h with
  | init => exact Inv.init _
  | step _ hs ih => exact ih.step hs

end Run

/-! ## Activations keep what they hold -/

/-- `k'` is a later state of activation `k`: same address and entry, and the same reply once it
returned. -/
def Call.Evolves (k k' : Call α) : Prop :=
  k'.addr = k.addr ∧ k'.entry = k.entry ∧ ∀ r, k.stage = .returned r → k'.stage = .returned r

theorem Call.Evolves.refl (k : Call α) : k.Evolves k := ⟨rfl, rfl, fun _ h => h⟩

theorem Call.Evolves.trans {k₁ k₂ k₃ : Call α} (h₁ : k₁.Evolves k₂) (h₂ : k₂.Evolves k₃) :
    k₁.Evolves k₃ :=
  ⟨h₂.1.trans h₁.1, h₂.2.1.trans h₁.2.1, fun r hr => h₂.2.2 r (h₁.2.2 r hr)⟩

/-- Overwriting an activation that had not returned with one of the same address and entry. -/
theorem evolves_set {calls : List (Call α)} {i j : Nat} {k₀ k' k : Call α}
    (h₀ : calls[i]? = some k₀) (hk' : k₀.Evolves k')
    (hk : calls[j]? = some k) : ∃ k'', (calls.set i k')[j]? = some k'' ∧ k.Evolves k'' := by
  by_cases hji : j = i
  · subst hji
    rw [h₀] at hk
    obtain rfl := Option.some.inj hk
    exact ⟨k', getElem?_set_of_getElem? h₀, hk'⟩
  · exact ⟨k, by rw [getElem?_set_of_ne hji, hk], .refl k⟩

/-! ## A completed entry that stays -/

/-- An activation of `addr` that was refused for an empty node, or that holds entry `c`. -/
def Joined (addr : String) (c : Nat) (k : Call α) : Prop :=
  k.addr = addr → k.stage = .returned (.refused (emptyNode addr)) ∨ k.entry = some c

theorem Joined.evolves {addr : String} {c : Nat} {k k' : Call α} (h : Joined addr c k)
    (he : k.Evolves k') : Joined addr c k' := by
  intro ha
  obtain ⟨ha', he', hr⟩ := he
  rcases h (ha'.symm.trans ha) with hs | hc
  · exact .inl (hr _ hs)
  · exact .inr (he'.trans hc)

section Runs

variable [DecidableEq α]

theorem step_evolves (hs : t.step e = some t') {i : Nat} {k : Call α} (hk : t.calls[i]? = some k) :
    ∃ k', t'.calls[i]? = some k' ∧ k.Evolves k' := by
  cases e with
  | activate addr node? =>
    rcases step_activate hs with ⟨-, rfl⟩ | ⟨-, -, -, -, rfl⟩ | ⟨-, -, -, -, rfl⟩ | ⟨-, -, -, -, rfl⟩ <;>
      exact ⟨k, getElem?_push_of_getElem? hk, .refl k⟩
  | complete i' v? =>
    obtain ⟨addr, c, e, hk', -, ⟨v, -, rfl⟩ | ⟨-, rfl⟩⟩ := step_complete hs <;>
      exact evolves_set hk' ⟨rfl, rfl, nofun⟩ hk
  | wake i' =>
    obtain ⟨addr, c, n, hk', ⟨v, -, rfl⟩ | ⟨-, rfl⟩⟩ := step_wake hs <;>
      exact evolves_set hk' ⟨rfl, rfl, nofun⟩ hk
  | cancel i' =>
    obtain ⟨addr, c, hk', rfl⟩ := step_cancel hs
    exact evolves_set hk' ⟨rfl, rfl, nofun⟩ hk
  | remove addr v? =>
    rcases step_remove hs with rfl | rfl <;> exact ⟨k, hk, .refl k⟩
  | failNode n =>
    obtain rfl : { t with dir := (t.dir.failNode n).2 } = t' := Option.some.inj hs
    exact ⟨k, hk, .refl k⟩
  | setPlacement n =>
    obtain rfl : { t with dir := t.dir.setPlacement n } = t' := Option.some.inj hs
    exact ⟨k, hk, .refl k⟩

/-- A run of events that ends takes its first step, then runs the rest. -/
theorem run_cons_eq_some {e : Event α} {rest : List (Event α)} :
    run t (e :: rest) = some t' ↔ ∃ t₁, t.step e = some t₁ ∧ run t₁ rest = some t' := by
  simp only [run, Option.bind_eq_some_iff]

theorem run_evolves : ∀ {t t' : SharedDirectory α} {evs : List (Event α)}, run t evs = some t' →
    ∀ {i : Nat} {k : Call α}, t.calls[i]? = some k → ∃ k', t'.calls[i]? = some k' ∧ k.Evolves k'
  | t, t', [], h, i, k, hk => by
    obtain rfl : t = t' := Option.some.inj h
    exact ⟨k, hk, .refl k⟩
  | t, t', e :: rest, h, i, k, hk => by
    obtain ⟨t₁, hs, h⟩ := run_cons_eq_some.1 h
    obtain ⟨k₁, hk₁, he₁⟩ := step_evolves hs hk
    obtain ⟨k', hk', he'⟩ := run_evolves h hk₁
    exact ⟨k', hk', he₁.trans he'⟩

/-- One step that neither removes the address nor fails its node keeps a completed entry, and an
activation of the address that enters in it joins the entry. -/
theorem Inv.keeps_entry (h : Inv t) (hs : t.step e = some t') {addr n : String} {c : Nat} {v : α}
    (hx : (addr, n, c) ∈ t.dir.entries) (hc : t.entries[c]? = some ⟨n, .created v⟩)
    (hr : ∀ v?, e ≠ .remove addr v?) (hf : e ≠ .failNode n) :
    (addr, n, c) ∈ t'.dir.entries ∧ t'.entries[c]? = some ⟨n, .created v⟩ ∧
      ∀ i k, t.calls.length ≤ i → t'.calls[i]? = some k → Joined addr c k := by
  have hfind : t.dir.find? addr = some ⟨addr, n, c⟩ :=
    (Directory.find?_eq_some_iff h.table.sorted).mpr ⟨rfl, hx⟩
  -- steps that add no activation
  have hnone : ∀ (calls : List (Call α)), calls.length = t.calls.length →
      ∀ i k, t.calls.length ≤ i → calls[i]? = some k → Joined addr c k := by
    intro calls hl i k hi hk
    rw [List.getElem?_eq_none (by omega)] at hk
    cases hk
  cases e with
  | activate addr' node? =>
    -- the new activation is the only one past the old ones
    have hnew : ∀ k₀ : Call α, Joined addr c k₀ → ∀ i k, t.calls.length ≤ i →
        (t.calls ++ [k₀])[i]? = some k → Joined addr c k := by
      intro k₀ hk₀ i k hi hk
      rcases getElem?_push_eq_some hk with hk | ⟨-, rfl⟩
      · exact absurd (List.getElem?_eq_some_iff.mp hk).1 (by omega)
      · exact hk₀
    rcases step_activate hs with ⟨-, rfl⟩ | ⟨-, n', c', hf', rfl⟩ | ⟨-, hf', -, -, rfl⟩ |
      ⟨-, hf', node, -, rfl⟩
    · exact ⟨hx, hc, hnew _ fun ha => .inl (by cases ha; rfl)⟩
    · refine ⟨hx, hc, hnew _ fun ha => .inr ?_⟩
      cases ha
      rw [hfind] at hf'
      cases hf'
      rfl
    · refine ⟨hx, hc, hnew _ fun ha => ?_⟩
      cases ha
      rw [hfind] at hf'
      cases hf'
    · -- another address was free, so this one keeps its entry
      have hne : addr' ≠ addr := by rintro rfl; rw [hfind] at hf'; cases hf'
      exact ⟨(Directory.mem_put hf').mpr (.inr hx), getElem?_push_of_getElem? hc,
        hnew _ fun ha => absurd ha hne⟩
  | complete i v? =>
    obtain ⟨addr', c', e, hk, he, hcases⟩ := step_complete hs
    -- the completing entry was pending, so it is not this one
    have hne : c ≠ c' := by
      rintro rfl
      cases (h.calls i _ hk).pending_of_creating rfl rfl hc
    rcases hcases with ⟨w, -, rfl⟩ | ⟨-, rfl⟩
    · exact ⟨hx, by rw [getElem?_set_of_ne hne, hc], hnone _ (List.length_set ..)⟩
    · refine ⟨?_, by rw [getElem?_set_of_ne hne, hc], hnone _ (List.length_set ..)⟩
      show (addr, n, c) ∈ (if (t.dir.find? addr').map (·.value) = some c' then
        t.dir.drop addr' else t.dir).entries
      split_ifs with hcur
      · -- the table dropped the failing entry's address, which is not this one
        refine Directory.mem_drop.mpr ⟨hx, fun ha => hne ?_⟩
        rw [← ha, hfind] at hcur
        exact Option.some.inj hcur
      · exact hx
  | wake i =>
    obtain ⟨addr', c', n', -, ⟨w, -, rfl⟩ | ⟨-, rfl⟩⟩ := step_wake hs <;>
      exact ⟨hx, hc, hnone _ (List.length_set ..)⟩
  | cancel i =>
    obtain ⟨addr', c', -, rfl⟩ := step_cancel hs
    exact ⟨hx, hc, hnone _ (List.length_set ..)⟩
  | remove addr' v? =>
    have hne : addr' ≠ addr := by rintro rfl; exact hr v? rfl
    rcases step_remove hs with rfl | rfl
    · exact ⟨hx, hc, hnone _ rfl⟩
    · exact ⟨Directory.mem_drop.mpr ⟨hx, Ne.symm hne⟩, hc, hnone _ rfl⟩
  | failNode n' =>
    have hne : n' ≠ n := by rintro rfl; exact hf rfl
    obtain rfl : { t with dir := (t.dir.failNode n').2 } = t' := Option.some.inj hs
    exact ⟨Directory.mem_failNode.mpr ⟨hx, Ne.symm hne⟩, hc, hnone _ rfl⟩
  | setPlacement n' =>
    obtain rfl : { t with dir := t.dir.setPlacement n' } = t' := Option.some.inj hs
    exact ⟨hx, hc, hnone _ rfl⟩

/-- Along a run that neither removes the address nor fails its node, a completed entry stays, and
every activation of the address that enters joins it. -/
theorem keeps_entry_along {placement addr n : String} {c : Nat} {v : α} :
    ∀ {t t' : SharedDirectory α} {evs : List (Event α)}, Reachable placement t →
      run t evs = some t' → (∀ e ∈ evs, (∀ v?, e ≠ .remove addr v?) ∧ e ≠ .failNode n) →
      (addr, n, c) ∈ t.dir.entries → t.entries[c]? = some ⟨n, .created v⟩ →
      (addr, n, c) ∈ t'.dir.entries ∧ t'.entries[c]? = some ⟨n, .created v⟩ ∧
        ∀ i k, t.calls.length ≤ i → t'.calls[i]? = some k → Joined addr c k
  | t, t', [], _, h, _, hx, hc => by
    obtain rfl : t = t' := Option.some.inj h
    refine ⟨hx, hc, fun i k hi hk => ?_⟩
    exact absurd (List.getElem?_eq_some_iff.mp hk).1 (by omega)
  | t, t', e :: rest, ht, h, hevs, hx, hc => by
    obtain ⟨t₁, hs, h⟩ := run_cons_eq_some.1 h
    have he := hevs e List.mem_cons_self
    obtain ⟨hx₁, hc₁, hj₁⟩ := (reachable_inv ht).keeps_entry hs hx hc he.1 he.2
    obtain ⟨hx', hc', hj'⟩ := keeps_entry_along (ht.step hs) h
      (fun e' he' => hevs e' (List.mem_cons_of_mem _ he')) hx₁ hc₁
    refine ⟨hx', hc', fun i k hi hk => ?_⟩
    by_cases hi₁ : t₁.calls.length ≤ i
    · exact hj' i k hi₁ hk
    · -- it entered in the first step, and kept its address and entry since
      obtain ⟨k₁, hk₁⟩ : ∃ k₁, t₁.calls[i]? = some k₁ := ⟨_, List.getElem?_eq_getElem (by omega)⟩
      obtain ⟨k', hk', hev⟩ := run_evolves h hk₁
      rw [hk] at hk'
      obtain rfl := Option.some.inj hk'
      exact (hj₁ i k₁ hi hk₁).evolves hev

/-- Single-flight activation. In every reachable state of a directory shared by concurrent
activations:

* each address has one entry at most, and no entry sits on a node marked down;
* every activation holding an entry the table points at is for that entry's address; while it
  creates, the entry is pending; and a value it returned is the entry's, with the entry's node;
* as long as the address is neither removed nor its node failed, a completed entry stays, and
  every activation of the address that enters meanwhile is refused for an empty node or joins
  the entry: it never creates, and a value it returns is the entry's, with the entry's node;
* a successful activation returned its entry's value and node, and the node is down only once
  the entry has left the table;
* failing a node returns, by address, exactly the entries it hosted, with their values (none
  while pending), leaves none of them, and marks the node down. -/
theorem activations_share_one_live_entry {placement : String} (ht : Reachable placement t) :
    (∀ x ∈ t.dir.entries, ∀ y ∈ t.dir.entries, x.1 = y.1 → x = y) ∧
    (∀ x ∈ t.dir.entries, t.dir.isDown x.2.1 = false) ∧
    (∀ x ∈ t.dir.entries, (∃ o, t.entries[x.2.2]? = some ⟨x.2.1, o⟩ ∧ o ≠ .failed) ∧
      ∀ (i : Nat) (k : Call α), t.calls[i]? = some k → k.entry = some x.2.2 → k.addr = x.1 ∧
        (k.stage = .creating → t.entries[x.2.2]? = some ⟨x.2.1, .pending⟩) ∧
        ∀ v n, k.stage = .returned (.activated v n) →
          n = x.2.1 ∧ t.entries[x.2.2]? = some ⟨n, .created v⟩) ∧
    (∀ (addr n : String) (c : Nat) (v : α) (evs : List (Event α)) (t' : SharedDirectory α),
      (addr, n, c) ∈ t.dir.entries → t.entries[c]? = some ⟨n, .created v⟩ →
      (∀ e ∈ evs, (∀ v?, e ≠ .remove addr v?) ∧ e ≠ .failNode n) → run t evs = some t' →
      (addr, n, c) ∈ t'.dir.entries ∧ t'.entries[c]? = some ⟨n, .created v⟩ ∧
      ∀ (i : Nat) (k : Call α), t.calls.length ≤ i → t'.calls[i]? = some k → k.addr = addr →
        k.stage = .returned (.refused (emptyNode addr)) ∨
        (k.entry = some c ∧ k.stage ≠ .creating ∧
          ∀ v' n', k.stage = .returned (.activated v' n') → v' = v ∧ n' = n)) ∧
    (∀ (i : Nat) (k : Call α) (v : α) (n : String), t.calls[i]? = some k →
      k.stage = .returned (.activated v n) →
      ∃ c, k.entry = some c ∧ t.entries[c]? = some ⟨n, .created v⟩ ∧
        ∀ x ∈ t.dir.entries, x.2.2 = c → t.dir.isDown n = false) ∧
    (∀ n, (t.dropped n).Pairwise (fun a b => a.addr < b.addr) ∧
      (∀ a, a ∈ t.dropped n ↔ ∃ c, (a.addr, n, c) ∈ t.dir.entries ∧ a.node = n ∧
        a.value = (t.entries[c]?).bind Entry.value?) ∧
      (∀ x, x ∈ (t.dir.failNode n).2.entries ↔ x ∈ t.dir.entries ∧ x.2.1 ≠ n) ∧
      (t.dir.failNode n).2.isDown n = true) := by
  have hi := reachable_inv ht
  refine ⟨fun x hx y hy => hi.table.eq_of_addr_eq hx hy, hi.table.up, fun x hx => ?_,
    fun addr n c v evs t' hx hc hevs hrun => ?_, fun i k v n hk hs => ?_,
    fun n => ⟨dropped_sorted hi.table.sorted n, fun _ => mem_dropped, fun _ => Directory.mem_failNode,
      (Directory.isDown_failNode n n).mpr (.inr rfl)⟩⟩
  · obtain ⟨o, he, ho⟩ := hi.table.live x hx
    refine ⟨⟨o, he, ho⟩, fun i k hk hc => ⟨(hi.calls i k hk).addr x hx hc, fun hs => ?_, fun v n hs => ?_⟩⟩
    · obtain rfl : o = .pending := (hi.calls i k hk).pending_of_creating hs hc he
      exact he
    · cases (hi.calls i k hk).entry_of_activated hs hc he
      exact ⟨rfl, he⟩
  · obtain ⟨hx', hc', hj⟩ := keeps_entry_along ht hrun hevs hx hc
    have hi' := reachable_inv (reachable_of_run ht hrun)
    refine ⟨hx', hc', fun i k hle hk ha => ?_⟩
    rcases hj i k hle hk ha with hr | hkc
    · exact .inl hr
    · -- it holds the completed entry, so it does not create and returns the entry's value
      refine .inr ⟨hkc, fun hs => ?_, fun v' n' hs => ?_⟩
      · cases (hi'.calls i k hk).pending_of_creating hs hkc hc'
      · cases (hi'.calls i k hk).entry_of_activated hs hkc hc'
        exact ⟨rfl, rfl⟩
  · obtain ⟨c, hc, he⟩ := (hi.calls i k hk).activated v n hs
    refine ⟨c, hc, he, fun x hx hxc => ?_⟩
    -- a live entry sits on the node the table records, which is up
    obtain ⟨o, hx', -⟩ := hi.table.live x hx
    rw [hxc, he] at hx'
    cases hx'
    exact hi.table.up x hx

end Runs

/-- A second activation of an address arrives while the first one's create call runs. -/
def joinWhileCreating : List (Event Nat) :=
  [.activate "a" none, .activate "a" none, .complete 0 (some 7), .wake 1]

/-- An activation that arrives while another creates its address joins that entry: the table
keeps the one entry, on a node that is up, and both activations return its value and node. -/
theorem joined_activation_shares_entry :
    ∃ t : SharedDirectory Nat, Reachable "n1" t ∧ t.dir.entries = [("a", "n1", 0)] ∧
      t.calls = [⟨"a", some 0, .returned (.activated 7 "n1")⟩,
        ⟨"a", some 0, .returned (.activated 7 "n1")⟩] ∧
      ∀ x ∈ t.dir.entries, t.dir.isDown x.2.1 = false := by
  have hrun : run ⟨{ placement := "n1" }, [], []⟩ joinWhileCreating =
      some ⟨{ placement := "n1", entries := [("a", "n1", 0)] }, [⟨"n1", .created 7⟩],
        [⟨"a", some 0, .returned (.activated 7 "n1")⟩, ⟨"a", some 0, .returned (.activated 7 "n1")⟩]⟩ :=
    rfl
  have ht := reachable_of_run .init hrun
  exact ⟨_, ht, rfl, rfl, (activations_share_one_live_entry ht).2.1⟩

/-- The node fails while the create call of the first activation runs there; the create call
then succeeds. -/
def failDuringCreate : List (Event Nat) := [.activate "a" none, .failNode "n1", .complete 0 (some 7)]

/-- An activation can return a node that is down: failing a node drops an entry whose create
call is still running, and the create call's success is handed back with the failed node. -/
theorem activation_returns_failed_node :
    ∃ t : SharedDirectory Nat, Reachable "n1" t ∧
      t.calls[0]? = some ⟨"a", some 0, .returned (.activated 7 "n1")⟩ ∧ t.dir.isDown "n1" = true := by
  have hrun : run ⟨{ placement := "n1" }, [], []⟩ failDuringCreate =
      some ⟨{ placement := "n1", down := ["n1"], entries := [] }, [⟨"n1", .created 7⟩],
        [⟨"a", some 0, .returned (.activated 7 "n1")⟩]⟩ := rfl
  exact ⟨_, reachable_of_run .init hrun, rfl, rfl⟩

end SharedDirectory

end EntityIndex.Cluster
