import EntityIndex.Proofs.Bucket.Rebuild
import EntityIndex.Proofs.Bucket.Staging
import EntityIndex.Proofs.Cluster.StaleReplay

/-!
# A pair taken out by enforcement

When a bucket becomes available again it enforces the deletes recorded while it was not, and
takes each recorded pair out for good (`State.holds_enforce`), whether or not the entity's
committed state still has the key. Nothing in the bucket remembers the pair afterwards, and the
entity's images still name the key.

The entity's next write brings the pair back only if the write changes the entity's key. Its
update for the index compares the recorded image with the new key: when the key is the image,
the update changes nothing and the index keeps missing the entity; when the key is another one,
the update finds nothing under the image and inserts the entity under the new key
(`enforced_pair_returns_only_with_new_key`). The last section runs the first case in a cluster.
-/

namespace EntityIndex.Bucket

namespace State

variable {s : State} {k a : Key} {r : EntityRef} {uq : Bool} {m : IndexMeta}

theorem holds_setStatus_available (hs : s.status ≠ .available) :
    (s.setStatus .available).2.holds k r = (s.enforce s.repairs).2.holds k r := by
  have hne : (s.status != .available) = true := by simpa using hs
  simp only [setStatus, hne, decide_true]
  rfl

/-- Becoming available takes every recorded pair out, when each finds its entry settled. -/
theorem enforced_pair_gone (hs : s.status ≠ .available) (he : s.Enforceable s.repairs)
    (hrep : ⟨k, r⟩ ∈ s.repairs) : (s.setStatus .available).2.holds k r = false := by
  rw [holds_setStatus_available hs]
  cases hh : (s.enforce s.repairs).2.holds k r with
  | false => rfl
  | true => exact absurd hrep ((holds_enforce s.repairs s he).1 hh).2

/-- The entity a settled insert added is seen under its key. -/
theorem mem_lookup_add : r ∈ ((s.add k r false).lookup k).values := by
  have hmem : r ∈ (Entry.added (s.entry? k) r false).values := by
    simpa [Entry.contains] using Entry.contains_added_iff.2 (.inr rfl)
  have hvis : (Entry.added (s.entry? k) r false).visible = true := by
    simpa [Entry.visible, Entry.added] using List.ne_nil_of_mem hmem
  simp only [State.lookup, entry?_add, hvis, if_true]
  exact hmem

/-- Room for `r` under `k`: the entry of `k` takes `r`, or the bucket may create `k`. -/
def Room (s : State) (r : EntityRef) (k : Key) (uq : Bool) (m : IndexMeta) : Prop :=
  match s.entry? k with
  | none => s.canCreate m = true
  | some e => (uq && e.holdsOther r) = false

theorem insert_of_room (h : s.Room r k uq m) : s.insert r k false uq m = .ok (.applied, s.add k r false) := by
  unfold Room at h
  cases he : s.entry? k with
  | none =>
    rw [he] at h
    exact insert_of_canCreate he h
  | some e =>
    rw [he] at h
    simp [insert_of_entry he, h]

/-- The change from an image that does not hold the entity to another key inserts the entity
under that key, whatever the image was. -/
theorem apply_diff_of_not_holds (hh : s.holds k r = false) (hka : k ≠ a) (ha : a ≠ Key.null)
    (hroom : s.Room r a uq m) :
    ∃ s', s.apply r (.plain (diff k a)) uq m = .ok (.applied, s') ∧ r ∈ (s'.lookup a).values := by
  refine ⟨s.add a r false, ?_, mem_lookup_add⟩
  rcases diff_of_ne hka with ⟨-, hd⟩ | ⟨hnull, -⟩ | ⟨-, -, hd⟩
  · rw [hd, apply_of_insert rfl (by simp [IndexUpdate.plain])]
    exact insert_of_room hroom
  · exact absurd hnull ha
  · -- the image does not hold the entity, so the move is an insert of the new key
    rw [hd, apply_of_update rfl (by simp [IndexUpdate.plain]), change_eq]
    simpa [IndexUpdate.plain, hh] using insert_of_room hroom

end State

end EntityIndex.Bucket

namespace EntityIndex.Indexing

open Bucket

theorem updateFor_write {σ : Type} (d : IndexDef σ) {st : σ} {k' : Key}
    (h : Schema.keyAt d st = .ok k') (before : Key) :
    updateFor d before st .write = .ok (diff before k') := by
  simp [updateFor, h, Except.map]

/-- The change between two images changes something exactly when they differ. -/
theorem isReal_diff {b a : Key} : (diff b a).isReal = true ↔ a ≠ b := by
  by_cases hab : a = b
  · subst hab
    simp [diff, MemberUpdate.isReal]
  · rcases diff_of_ne (Ne.symm hab) with ⟨-, hd⟩ | ⟨-, hd⟩ | ⟨-, -, hd⟩ <;>
      simp [hd, MemberUpdate.isReal, hab]

/-- A pair `(k, e)` that becoming available takes out stays out until the entity's key changes.
Each recorded delete finds its entry settled, and `(k, e)` is one of them, so enforcement takes
the pair out, even when the entity's committed state still has the key `k`. The entity's next
write, to a state whose key is `k'`, makes the index hold it under `k'` exactly when `k'` is not
`k`. Its update compares the recorded image `k` with `k'`. When they are equal it changes
nothing, and the pair stays out. When they differ it finds nothing under `k` and inserts the
entity under `k'`, given room there. -/
theorem enforced_pair_returns_only_with_new_key {s : State} {e : EntityRef} {k k' : Key}
    (hst : s.status ≠ .available) (hs : s.Enforceable s.repairs) (hrep : ⟨k, e⟩ ∈ s.repairs)
    {σ : Type} (d : IndexDef σ) {st : σ} (hkey : Schema.keyAt d st = .ok k')
    (hnull : k' ≠ Key.null) {uq : Bool} {m : IndexMeta}
    (hroom : (s.setStatus .available).2.Room e k' uq m) :
    (s.setStatus .available).2.holds k e = false ∧
      ((∃ u s', updateFor d k st .write = .ok u ∧ u.isReal = true ∧
          (s.setStatus .available).2.apply e (.plain u) uq m = .ok (.applied, s') ∧
          e ∈ (s'.lookup k').values) ↔ k' ≠ k) := by
  have hgone := State.enforced_pair_gone hst hs hrep
  refine ⟨hgone, ⟨?_, fun hne => ?_⟩⟩
  · rintro ⟨u, s', hu, hreal, -, -⟩
    rw [updateFor_write d hkey, Except.ok.injEq] at hu
    subst hu
    exact isReal_diff.1 hreal
  · obtain ⟨s', happ, hmem⟩ := State.apply_diff_of_not_holds hgone (Ne.symm hne) hnull hroom
    exact ⟨diff k k', s', updateFor_write d hkey k, isReal_diff.2 hne, happ, hmem⟩

/-- A lazy index on the optional field `email` of interface `IPlayer`, not unique. -/
def plainEmailDecl : IndexDef Cluster.Fields :=
  ⟨"IPlayer", { name := "email" }, some (Cluster.FieldKind.optional.extract "email")⟩

/-- A bucket under construction in which `player/a` holds `s:x`, settled, with its delete from
`s:x` recorded. -/
def rebuiltX : State :=
  { entries := [(⟨"s:x"⟩, ⟨[⟨"player", "a"⟩], .none⟩)], status := .underConstruction,
    repairs := [⟨⟨"s:x"⟩, ⟨"player", "a"⟩⟩] }

/-- Enforcement takes `player/a` out of `s:x`; its next write, moving `email` to `y`, puts it
under `s:y`. -/
theorem moved_value_restores_enforced_pair :
    (rebuiltX.setStatus .available).2.holds ⟨"s:x"⟩ ⟨"player", "a"⟩ = false ∧
      ∃ u s', updateFor plainEmailDecl ⟨"s:x"⟩ [("email", "y")] .write = .ok u ∧
        u.isReal = true ∧
        (rebuiltX.setStatus .available).2.apply ⟨"player", "a"⟩ (.plain u) false
          plainEmailDecl.desc = .ok (.applied, s') ∧
        ⟨"player", "a"⟩ ∈ (s'.lookup ⟨"s:y"⟩).values := by
  have henf : rebuiltX.Enforceable rebuiltX.repairs := by
    intro rep hrep e he _
    simp only [rebuiltX, List.mem_singleton] at hrep
    subst hrep
    simp only [rebuiltX, State.entry?, List.lookup_cons, beq_self_eq_true, Option.some.injEq] at he
    rw [← he]
  have hkey : Schema.keyAt plainEmailDecl [("email", "y")] = .ok ⟨"s:y"⟩ := rfl
  have hroom : (rebuiltX.setStatus .available).2.Room ⟨"player", "a"⟩ ⟨"s:y"⟩ false
      plainEmailDecl.desc := rfl
  obtain ⟨hgone, hback⟩ := enforced_pair_returns_only_with_new_key (by decide) henf
    (List.mem_singleton_self _) plainEmailDecl hkey (by decide) hroom
  exact ⟨hgone, hback.2 (by decide)⟩

end EntityIndex.Indexing

namespace EntityIndex.Cluster

open EntityIndex.Indexing

/-- The buckets of `plainEmailDecl` once a type `player` declares it. -/
def plainEmailBuckets : Bucket.Index := ⟨qualify "player" "email", plainEmailDecl.desc⟩

/-- Enforcement of a pair whose value comes back. Type `player` has no fault tolerance and one
lazy index on `email`. Entity `a` sets `email = x`; the index goes under construction; `a` moves
its value to `y` and back to `x`; the index becomes available; `a` then writes another field.
Every write is followed by the passes of its records. Returns the entities a lookup of `x` sees
after the index becomes available and after the last write, and the state stored for `a`. -/
def enforcedRun : Run World (List EntityRef × List EntityRef × Option Fields) := do
  World.register "player" false [plainEmailDecl]
  let a ← World.getEntity "player" "a"
  World.updateEntity a (fun st => .ok (st.set "email" "x"))
  World.flush
  plainEmailBuckets.setStatus .underConstruction
  World.updateEntity a (fun st => .ok (st.set "email" "y"))
  World.flush
  World.updateEntity a (fun st => .ok (st.set "email" "x"))
  World.flush
  plainEmailBuckets.setStatus .available
  let afterEnforcing ← plainEmailBuckets.visible ⟨"s:x"⟩
  World.updateEntity a (fun st => .ok (st.set "name" "z"))
  World.flush
  let afterWrite ← plainEmailBuckets.visible ⟨"s:x"⟩
  let stored ← World.onStore (Store.DocStore.load (Entity.addr ⟨"player", "a"⟩) Stored.ofDoc)
  pure (afterEnforcing, afterWrite, stored.map (·.state))

set_option maxRecDepth 200000 in
/-- The next write does not restore an enforced pair that keeps its value: the stored state of
`a` has `email = x` throughout, yet a lookup of `x` finds no entity once the index is available,
and still none after `a`'s next write. -/
theorem next_write_leaves_enforced_pair_out :
    (enforcedRun.exec freshCluster).1.toOption =
      some ([], [], some [("email", "x"), ("name", "z")]) := by
  decide +kernel

end EntityIndex.Cluster
