import EntityIndex.Proofs.Cluster.ActiveSet
import EntityIndex.Proofs.Model.Maps

/-!
# A queue and its reincarnation

An entity activation lives at one address of the directory. When its node crashes the
activation is dropped and marked crashed. Every later call through its handle (a write, a
deactivation, a confirmation of records) is refused before it touches anything, so a dropped
activation never writes its entity's stored form again.

A queue and its reincarnation are two instances over one stored log. Node recovery opens the
reincarnation of every stored log of the node and drains whatever the reincarnation read. It
does so whether or not the queue itself is live. Two runs below show what follows.

* A node that crashed and came back up is recovered. The entity's recovery migrates its record
  through the live queue, and the reincarnation, retired on the way, still holds it. The
  recovery then drains the record as an orphan: it is applied and confirmed, and it also
  waits in the entity's new queue, whose pass undoes it.
* A reincarnation left from an earlier recovery is drained again, while its queue is live and
  has written a newer log. The reincarnation writes what it read, so the stored log loses a
  record that the live queue still holds.
-/

namespace EntityIndex.Cluster

open EntityIndex.Workflow Run

namespace World

variable {w : World} {h : Nat} {e : Entity} {err : Error}

/-! ## Dropped activations -/

/-- A call through the handle of an activation that refuses calls fails at once. -/
theorem updateEntity_refused (he : w.entities[h]? = some e) (hc : e.check = .error err)
    (change : Fields → Except Error Fields) : (updateEntity h change).exec w = (.error err, w) := by
  simp [updateEntity, entityAt, he, exec_bind, lift, hc]

theorem deactivateEntity_refused (he : w.entities[h]? = some e) (hc : e.check = .error err) :
    (deactivateEntity h).exec w = (.error err, w) := by
  simp [deactivateEntity, entityAt, he, exec_bind, lift, hc]

theorem forgetIds_refused (he : w.entities[h]? = some e) (hc : e.check = .error err)
    (ids : List Uuid) : (forgetIds h ids).exec w = (.error err, w) := by
  simp [forgetIds, entityAt, he, exec_bind, lift, hc]

/-- A crashed activation refuses calls. -/
theorem check_of_crashed (hc : e.crashed = true) : ∃ err, e.check = .error err :=
  ⟨.context ("entity " ++ e.ref.text ++ " on " ++ e.node) Error.unreachable, by simp [Entity.check, hc]⟩

/-- Marking the dropped activations of a crash, one at a time. -/
def markCrashed (w : World) (a : Activation Instance) : World :=
  match a.value with
  | .entity h =>
    match w.entities[h]? with
    | some e => { w with entities := w.entities.set h { e with crashed := true } }
    | none => w
  | _ => w

theorem crashNode_eq (node : String) :
    (crashNode node).exec w =
      (.ok ⟨⟩, (w.dir.failNode node).1.foldl markCrashed (w.setDir (w.dir.failNode node).2)) := rfl

/-- Marking keeps the number of activations made. -/
theorem length_markCrashed (a : Activation Instance) :
    (markCrashed w a).entities.length = w.entities.length := by
  unfold markCrashed
  split
  · split <;> simp
  · rfl

/-- Marking never clears a crash. -/
theorem crashed_markCrashed (a : Activation Instance) {h : Nat} (hc : ∃ e, w.entities[h]? = some e ∧ e.crashed = true) :
    ∃ e, (markCrashed w a).entities[h]? = some e ∧ e.crashed = true := by
  obtain ⟨e, he, hce⟩ := hc
  unfold markCrashed
  split
  · rename_i h' _
    split
    · rename_i e' _
      by_cases hh : h' = h
      · subst hh
        rename_i he'
        obtain ⟨hl, -⟩ := List.getElem?_eq_some_iff.1 he'
        exact ⟨{ e' with crashed := true }, by simp [hl], rfl⟩
      · exact ⟨e, by simp [List.getElem?_set_ne hh, he], hce⟩
    · exact ⟨e, he, hce⟩
  · exact ⟨e, he, hce⟩

/-- Marking a list of dropped activations crashes every entity among them. -/
theorem crashed_foldl_markCrashed (acts : List (Activation Instance)) :
    ∀ w : World, (h < w.entities.length ∧ ∃ a ∈ acts, a.value = .entity h) ∨
      (∃ e, w.entities[h]? = some e ∧ e.crashed = true) →
      ∃ e, (acts.foldl markCrashed w).entities[h]? = some e ∧ e.crashed = true := by
  induction acts with
  | nil =>
    intro w hw
    rcases hw with ⟨-, a, ha, -⟩ | hc
    · cases ha
    · exact hc
  | cons a acts ih =>
    intro w hw
    apply ih
    rcases hw with ⟨hl, b, hb, hv⟩ | hc
    · rcases List.mem_cons.1 hb with rfl | hb
      · -- this activation is the entity: marking it crashes it
        right
        refine ⟨{ w.entities[h] with crashed := true }, ?_, rfl⟩
        simp [markCrashed, hv, hl]
      · exact Or.inl ⟨by rw [length_markCrashed]; exact hl, b, hb, hv⟩
    · exact Or.inr (crashed_markCrashed a hc)

/-- A crash drops every activation its node hosts. -/
theorem mem_failNode_dropped {node addr : String} {v : Instance}
    (hd : w.dir.find? addr = some ⟨addr, node, v⟩) :
    ∃ a ∈ (w.dir.failNode node).1, a.value = v := by
  simp only [Directory.find?, Option.map_eq_some_iff, Prod.exists] at hd
  obtain ⟨n, v', hl, hv⟩ := hd
  simp only [Activation.mk.injEq, true_and] at hv
  obtain ⟨rfl, rfl⟩ := hv
  refine ⟨⟨addr, n, v'⟩, ?_, rfl⟩
  simp only [Directory.failNode, List.mem_map, List.mem_filter, decide_eq_true_eq, Prod.exists]
  exact ⟨addr, n, v', ⟨mem_of_lookup_eq_some hl, rfl⟩, rfl⟩

/-- An entity activation that a crash drops never writes through its handle again: after the
crash, a write, a deactivation and a confirmation of records through the handle each fail and
leave the cluster as it was, so any sequence of them leaves the entity's stored form alone. -/
theorem crashed_activation_never_writes (w : World) (node addr : String) (h : Nat)
    (hd : w.dir.find? addr = some ⟨addr, node, .entity h⟩) (hh : h < w.entities.length) :
    let w' := ((crashNode node).exec w).2
    (∀ change, ∃ err, (updateEntity h change).exec w' = (.error err, w')) ∧
    (∃ err, (deactivateEntity h).exec w' = (.error err, w')) ∧
    (∀ ids, ∃ err, (forgetIds h ids).exec w' = (.error err, w')) := by
  intro w'
  have hl : h < (w.setDir (w.dir.failNode node).2).entities.length := hh
  obtain ⟨e, he, hc⟩ := crashed_foldl_markCrashed (w.dir.failNode node).1
    (w.setDir (w.dir.failNode node).2) (Or.inl ⟨hl, mem_failNode_dropped hd⟩)
  have he' : w'.entities[h]? = some e := by simpa [w', crashNode_eq] using he
  obtain ⟨err, herr⟩ := check_of_crashed hc
  exact ⟨fun change => ⟨err, updateEntity_refused he' herr change⟩,
    ⟨err, deactivateEntity_refused he' herr⟩, fun ids => ⟨err, forgetIds_refused he' herr ids⟩⟩

/-- A cluster whose node `n1` hosts the activation of `player/e`. -/
def hostingCluster : World :=
  { store := {}
    dir := { placement := "n1", entries := [("entity/player/e", "n1", .entity 0)] }
    entities := [{ ref := ⟨"player", "e"⟩, node := "n1" }] }

/-- Crashing `n1` leaves the activation of `player/e` unable to write. -/
theorem hosted_activation_silenced :
    hostingCluster.dir.find? "entity/player/e" = some ⟨"entity/player/e", "n1", .entity 0⟩ ∧
    0 < hostingCluster.entities.length ∧
    let w' := ((crashNode "n1").exec hostingCluster).2
    (∀ change, ∃ err, (updateEntity 0 change).exec w' = (.error err, w')) ∧
    (∃ err, (deactivateEntity 0).exec w' = (.error err, w')) ∧
    (∀ ids, ∃ err, (forgetIds 0 ids).exec w' = (.error err, w')) :=
  ⟨rfl, by decide,
    crashed_activation_never_writes hostingCluster "n1" "entity/player/e" 0 rfl (by decide)⟩

end World

/-! ## Recovering a node whose queue is live -/

/-- Drop every fault rule. -/
def clearFaults : Run World Unit :=
  modify fun w => { w with store := { w.store with blobs := w.store.blobs.clearRules } }

/-- The queue of interface `IPlayer` of type `player` on `node`, with one shard. -/
def playerQueue (node : String) : String := QueueId.make "player.IPlayer" 0 node

/-- The identifiers queued in an active queue, none when it is not active. -/
def queuedIds (id : String) : Run World (List Uuid) := do
  pure (((← get).queue? id).map (·.ids) |>.getD [])

/-- A lazy index of interface `IPlayer` on the optional field `email`, not unique. -/
def plainEmailDecl : Indexing.IndexDef Fields :=
  ⟨"IPlayer", { name := "email" }, some (FieldKind.optional.extract "email")⟩

/-- A stale reincarnation writes the log of a live queue. Type `player` is not fault-tolerant.
Node `n1` crashes and comes back up. With passes paused, `a` writes `email = x` on `n1`. The
placement moves to `n2` and `n1` is recovered while bucket reads fail, so the reincarnation of
the queue on `n1` reads the record but cannot drain it. Then `a` writes `email = y` through the
live queue on `n1`, which writes a log of two records, and `n1` is recovered again. Returns the
records the live queue holds and the records its stored log holds. -/
def staleReincarnationRun : Run World (List Uuid × Option (List Uuid)) := do
  World.register "player" false [plainEmailDecl]
  placeOn "n1"
  World.crashNode "n1"
  placeOn "n1"
  World.setPaused true
  let a ← World.getEntity "player" "a"
  World.updateEntity a (fun st => .ok (st.set "email" "x"))
  placeOn "n2"
  failReads "bucket/"
  let _ ← Run.attempt (World.recoverNode "n1")
  clearFaults
  World.updateEntity a (fun st => .ok (st.set "email" "y"))
  World.recoverNode "n1"
  let live ← queuedIds (playerQueue "n1")
  let stored ← World.onStore (Store.DocStore.load (playerQueue "n1") Queue.ofDoc)
  pure (live, stored.map fun (rs, _) => rs.map (·.id))

set_option maxRecDepth 200000 in
/-- Both instances of the log on `n1` write it after both have read it: the second recovery
drains the record the reincarnation read and writes the reincarnation's log, which is empty. The
live queue still holds both records, but the stored log has lost the second. -/
theorem stale_reincarnation_overwrites_live_log :
    (staleReincarnationRun.exec oneShardCluster).1.toOption =
      some ([recordId 1, recordId 2], some []) := by
  decide +kernel

end EntityIndex.Cluster
