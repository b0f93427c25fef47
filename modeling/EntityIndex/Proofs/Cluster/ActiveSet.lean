import EntityIndex.Proofs.Model.Run
import EntityIndex.Proofs.Cluster.StaleReplay

/-!
# What recovery keeps of an active set

A fault-tolerant entity keeps the identifiers of its written but unapplied records in its active
set. When it activates, recovery reconciles that set with the queues of each interface. It asks
the current queue and the remembered queue which of the identifiers they hold, either queued or
in flight in a running pass. The new set is exactly what they answer, and the current queue
becomes the remembered one.

Two facts about recovery, over any way of reaching queues, make the set lose a record:

* when the remembered queue holds the records only in flight, nothing is moved; the identifiers
  are kept, but the current queue is remembered in its place;
* when the remembered queue is the current one, the identifiers it does not hold are dropped.

Suppose the pass holding the records then fails. The records go back to the old queue, which no
later recovery examines, so the next recovery drops their identifiers. The last section runs
this in a cluster, with bucket reads failing so that the pass fails.
-/

namespace EntityIndex.Indexing

open Run

/-- The identifiers `addIds` gives are those of the set and those added. -/
@[simp]
theorem mem_addIds {set ids : List Uuid} {i : Uuid} : i ∈ addIds set ids ↔ i ∈ set ∨ i ∈ ids := by
  simp only [addIds, Uuid.sorted, List.mem_mergeSort, List.mem_eraseDups, List.mem_append,
    List.mem_filter]
  by_cases h : i ∈ set <;> simp [h]

section

variable {W : Type} {loc : Locator W} {iface cur : String} {active : List Uuid}
  {recs : List WorkflowRecord} {fl : List Uuid} {w w₁ w₂ w₃ : W}

/-- Recovery of an interface whose remembered queue is the current one keeps exactly the
identifiers that queue holds, queued or in flight. An identifier of the active set whose record
waits in any other queue is dropped. -/
theorem recover_same_queue_keeps_only_current
    (hcur : (loc.current iface).exec w = (.ok cur, w₁))
    (hpend : (loc.pendingIn cur active).exec w₁ = (.ok (recs, fl), w₂))
    (hrel : (loc.release cur (recs.map (·.id))).exec w₂ = (.ok (), w₃)) :
    ∃ r, (recover loc [iface] active [(iface, cur)]).exec w = (.ok r, w₃) ∧
      (∀ i, i ∈ r.active ↔ i ∈ recs.map (·.id) ∨ i ∈ fl) ∧ r.queues = [(iface, cur)] := by
  simp only [recover, recoverAll, recoverInterface, exec_bind, exec_attempt, exec_pure, hcur,
    hpend, hrel, List.lookup_cons_self, decide_true, Bool.or_true, ↓reduceIte]
  refine ⟨_, rfl, ?_, ?_⟩
  · intro i
    simp
  · simp [insertByName]

variable {old q : String} {inFlight : List Uuid} {w₄ w₅ : W}

/-- Recovery of an interface whose remembered queue holds the entity's records only in flight.
Nothing is moved and their identifiers are kept, but the queue that holds them is forgotten:
the current queue becomes the remembered one, and the records moved number zero. -/
theorem recover_forgets_queue_holding_in_flight (hold : old.isEmpty = false) (hne : old ≠ cur)
    (hcur : (loc.current iface).exec w = (.ok cur, w₁))
    (hpend : (loc.pendingIn cur active).exec w₁ = (.ok (recs, fl), w₂))
    (hrel : (loc.release cur (recs.map (·.id))).exec w₂ = (.ok (), w₃))
    (hres : (loc.resolve old).exec w₃ = (.ok q, w₄))
    (hold_pend : (loc.pendingIn q active).exec w₄ = (.ok ([], inFlight), w₅)) :
    ∃ r, (recover loc [iface] active [(iface, old)]).exec w = (.ok r, w₅) ∧
      (∀ i, i ∈ r.active ↔ i ∈ recs.map (·.id) ∨ i ∈ fl ∨ i ∈ inFlight) ∧
      r.queues = [(iface, cur)] ∧ r.migrated = 0 := by
  have hskip : (old.isEmpty || decide (old = cur)) = false := by simp [hold, hne]
  simp only [recover, recoverAll, recoverInterface, migrate, exec_bind, exec_attempt, exec_pure,
    hcur, hpend, hrel, List.lookup_cons_self, hskip, Bool.false_eq_true, ↓reduceIte, hres,
    hold_pend, List.isEmpty_nil]
  refine ⟨_, rfl, ?_, ?_, rfl⟩
  · intro i
    simp [or_assoc]
  · simp [insertByName]

end

/-- Two queues over no world. `q2` serves every interface and holds nothing. `q1` holds in a
running pass every record it is asked for. -/
def passingLocator : Locator Unit where
  current _ := pure "q2"
  resolve q := pure q
  reincarnation q := pure q
  pendingIn q ids := pure ([], if q = "q1" then ids else [])
  enqueueAll _ _ := pure ()
  remove _ _ := pure ()
  release _ _ := pure ()

/-- Recovering from `q1` while its pass runs keeps the identifier and remembers `q2`. -/
theorem recover_forgets_passing_queue :
    ∃ r, (recover passingLocator ["IPlayer"] [⟨1⟩] [("IPlayer", "q1")]).exec () = (.ok r, ()) ∧
      (∀ i, i ∈ r.active ↔ i ∈ ([] : List WorkflowRecord).map (·.id) ∨ i ∈ [] ∨ i ∈ [⟨1⟩]) ∧
      r.queues = [("IPlayer", "q2")] ∧ r.migrated = 0 :=
  recover_forgets_queue_holding_in_flight (by decide) (by decide) rfl rfl rfl rfl rfl

end EntityIndex.Indexing

namespace EntityIndex.Cluster

/-- Move the placement to `node`. -/
def placeOn (node : String) : Run World Unit := modify fun w => w.setDir (w.dir.setPlacement node)

/-- Make every read of a blob whose name starts with `pre` fail. -/
def failReads (pre : String) : Run World Unit :=
  modify fun w => { w with store := { w.store with blobs := w.store.blobs.addRule pre ⟨0, true⟩ } }

/-- A cluster with one queue shard per interface, placing on node `n0`. -/
def oneShardCluster : World := ({ node := "n0", shards := 1 } : Requests.Setup).open {} 0

/-- A record left behind by a failed pass. Type `player` is fault-tolerant. The bucket of its
index is activated on node `nb`. Entity `e` writes on `n1`, so its record waits in the queue on
`n1`, and is closed. The placement moves to `n2`, `nb` crashes, and bucket reads fail. The pass
of the queue on `n1` activates `e` on `n2`: recovery finds the record in flight and switches to
the queue on `n2`. Then the pass fails on the bucket. The run returns three things: `e`'s active
set at that point; its active set after it is closed and activated again; and whether the
records of the first set still wait in a live queue. -/
def lostRecordRun : Run World (List Uuid × List Uuid × Bool) := do
  World.register "player" true [emailDecl]
  World.setPaused true
  placeOn "nb"
  let _ ← Run.attempt (emailBuckets.visible ⟨"s:zzz"⟩)
  placeOn "n1"
  let e ← World.getEntity "player" "e"
  World.updateEntity e (fun st => .ok (st.set "email" "x"))
  World.deactivateEntity e
  placeOn "n2"
  World.crashNode "nb"
  failReads "bucket/"
  World.setPaused false
  let _ ← Run.attempt World.flush
  World.setPaused true
  let e ← World.getEntity "player" "e"
  let before := (← World.entityAt e).active
  World.deactivateEntity e
  let e ← World.getEntity "player" "e"
  let after := (← World.entityAt e).active
  let w ← get
  pure (before, after, w.liveQueues.any fun id => (w.queue? id).any fun q => before.all q.holds)

set_option maxRecDepth 200000 in
/-- The active set loses a record that no pass has handled: the identifier of `e`'s first write
is in its set after the failed pass, and is dropped by the next activation, while the record
still waits in a live queue. -/
theorem failed_pass_loses_active_record :
    (lostRecordRun.exec oneShardCluster).1.toOption = some ([recordId 1], [], true) := by
  decide +kernel

end EntityIndex.Cluster
