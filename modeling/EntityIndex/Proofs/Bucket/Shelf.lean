import Mathlib.Logic.Function.Basic
import EntityIndex.Proofs.Model.Run
import EntityIndex.Proofs.Model.Maps
import EntityIndex.Bucket.Shelf

/-!
# A shelf as a map of bucket states

A shelf keeps the buckets it has activated, and loads every other address from its store. When
the store lets reads and writes through and holds only what active buckets wrote (`Clean`), a
shelf behaves as one map from addresses to bucket states (`view`). An address not yet used reads
as the empty available bucket. Committing a state replaces the map at its address. Resolving,
growing and counting change nothing in the map.

`Runs m b r b'` says that running `m` on any clean shelf whose map is `b` returns `r` and leaves a
clean shelf whose map is `b'`. Proofs about index operations follow their steps with it, one
lemma per host operation, without looking at the store again.
-/

namespace EntityIndex.Store

open Run

/-! ## A store without fault rules -/

theorem Blobs.rule?_of_rules_nil {b : Blobs} (h : b.rules = []) (name : String) :
    b.rule? name = none := by
  simp [Blobs.rule?, h]

theorem Blobs.read_exec {b : Blobs} (h : b.rules = []) (name : String) :
    (Blobs.read name).exec b = (.ok (b.get? name), b) := by
  simp [Blobs.read, exec_bind, Blobs.rule?_of_rules_nil h]

theorem Blobs.put_exec {b : Blobs} (h : b.rules = []) (name : String) (bytes : List UInt8) :
    (Blobs.put name bytes).exec b =
      (.ok (), { b with data := insertByName name bytes b.data, puts := b.puts + 1 }) := by
  simp [Blobs.put, exec_bind, Blobs.rule?_of_rules_nil h]

/-- Loading a name with no blob finds nothing and changes nothing. -/
theorem DocStore.load_exec_none {s : DocStore} (h : s.blobs.rules = []) {name : String}
    (hn : s.blobs.get? name = none) {β : Type} (decode : Json.Value → Option β) :
    (DocStore.load name decode).exec s = (.ok none, s) := by
  have hr : (onBlobs (Blobs.read name)).exec s = (.ok none, s) := by
    simp [onBlobs, exec_zoom, Blobs.read_exec h, hn]
  simp [DocStore.load, exec_bind, exec_retry_ok hr]

/-- The default codec's name fits a frame header, and an uncompressed frame needs nothing else. -/
theorem Frame.frame_fast (cs : Compressors) (raw : List UInt8) :
    ∃ data, Frame.frame cs Codec.fast.name .none raw = .ok data := by
  have hlen : Codec.fast.name.toByteArray.toList.length = 7 := by decide +kernel
  simp [Frame.frame, Frame.compress, hlen, Except.map]

/-- A write on a store with no fault rules, in the default codec without compression, goes
through: it adds the blob and changes nothing else that reads or writes depend on. -/
theorem DocStore.save_exec {s : DocStore} (hr : s.blobs.rules = []) (hc : s.codec = .fast)
    (hz : s.compression = .none) (name : String) (doc : Json.Value) :
    ∃ s', (DocStore.save name doc).exec s = (.ok (), s') ∧ s'.blobs.rules = [] ∧
      s'.codec = .fast ∧ s'.compression = .none ∧
      ∀ j, (s'.blobs.get? j).isSome → j = name ∨ (s.blobs.get? j).isSome := by
  obtain ⟨data, hd⟩ := Frame.frame_fast s.compressors (s.codec.write s.json doc)
  rw [← hc] at hd
  let s' : DocStore := { s with blobs := { s.blobs with
    data := insertByName name data s.blobs.data, puts := s.blobs.puts + 1 } }
  have hp : (onBlobs (Blobs.put name data)).exec s = (.ok (), s') := by
    simp [onBlobs, exec_zoom, Blobs.put_exec hr, s']
  refine ⟨s', ?_, hr, hc, hz, ?_⟩
  · simp only [DocStore.save, exec_bind, exec_get, hz, hd, DocStore.putFrame, exec_retry_ok hp]
  · intro j hj
    by_cases hjn : j = name
    · exact .inl hjn
    · simpa [Blobs.get?, s', lookup_insertByName, hjn] using hj

end EntityIndex.Store

namespace EntityIndex.Bucket.Shelf

open Run

/-! ## The map of a clean shelf -/

/-- The state of every address on a shelf: its activation, or the empty bucket that an address
with nothing stored is activated as. -/
def view (w : Shelf) (id : String) : State := (w.active.lookup id).getD {}

/-- A shelf whose store lets every read and write through, in the default format, and holds
only what its active buckets wrote. An address used for the first time starts as an empty
available bucket. -/
structure Clean (w : Shelf) : Prop where
  /-- No fault rule. -/
  rules : w.store.blobs.rules = []
  /-- The default codec. -/
  codec : w.store.codec = .fast
  /-- No compression. -/
  compression : w.store.compression = .none
  /-- Only active buckets have been written. -/
  stored : ∀ id, (w.store.blobs.get? id).isSome → (w.active.lookup id).isSome

theorem clean_empty : Clean {} where
  rules := rfl
  codec := rfl
  compression := rfl
  stored id h := by simp [Store.Blobs.get?] at h

theorem view_empty : view {} = fun _ => {} := rfl

/-- From every clean shelf whose buckets are `b`, `m` returns `r` and leaves a clean shelf whose
buckets are `b'`. -/
def Runs {α : Type} (m : Run Shelf α) (b : String → State) (r : Except Error α)
    (b' : String → State) : Prop :=
  ∀ w, Clean w → view w = b → ∃ w', m.exec w = (r, w') ∧ Clean w' ∧ view w' = b'

namespace Runs

variable {α β : Type} {b b₁ b₂ : String → State}

theorem pure (a : α) (b : String → State) : Runs (Pure.pure a) b (.ok a) b :=
  fun w hc hv => ⟨w, rfl, hc, hv⟩

theorem throw (e : Error) (b : String → State) :
    Runs (MonadExcept.throw e : Run Shelf α) b (.error e) b :=
  fun w hc hv => ⟨w, rfl, hc, hv⟩

theorem bind {m : Run Shelf α} {f : α → Run Shelf β} {a : α} {r : Except Error β}
    (h : Runs m b (.ok a) b₁) (hf : Runs (f a) b₁ r b₂) : Runs (m >>= f) b r b₂ := by
  intro w hc hv
  obtain ⟨w₁, hx, hc₁, hv₁⟩ := h w hc hv
  obtain ⟨w₂, hx₂, hc₂, hv₂⟩ := hf w₁ hc₁ hv₁
  exact ⟨w₂, by rw [exec_bind_ok hx, hx₂], hc₂, hv₂⟩

theorem bind_error {m : Run Shelf α} {f : α → Run Shelf β} {e : Error}
    (h : Runs m b (.error e) b₁) : Runs (m >>= f) b (.error e) b₁ := by
  intro w hc hv
  obtain ⟨w₁, hx, hc₁, hv₁⟩ := h w hc hv
  exact ⟨w₁, by rw [exec_bind, hx], hc₁, hv₁⟩

/-- A run whose failure is caught returns its outcome, and leaves what it left. -/
theorem attempt {m : Run Shelf α} {r : Except Error α} (h : Runs m b r b₁) :
    Runs (Run.attempt m) b (.ok r) b₁ := fun w hc hv => by
  obtain ⟨w', hx, hc', hv'⟩ := h w hc hv
  exact ⟨w', by rw [exec_attempt, hx], hc', hv'⟩

end Runs

/-! ## One lemma per host operation -/

theorem view_activate (w : Shelf) (id : String) (hn : w.active.lookup id = none) :
    view { w with active := insertByName id {} w.active } = view w := by
  funext j
  by_cases hj : j = id
  · subst hj
    simp [view, lookup_insertByName, hn]
  · simp [view, lookup_insertByName, hj]

/-- Resolving an address returns its bucket and changes no bucket: an address not yet active
is activated empty, since nothing is stored under it. -/
theorem Runs.resolve (id : String) (b : String → State) : Runs (resolve id) b (.ok (b id)) b := by
  intro w hc hv
  subst hv
  cases ha : w.active.lookup id with
  | some s =>
    refine ⟨w, ?_, hc, rfl⟩
    simp [Bucket.resolve, exec_bind, Host.active?, ha, view]
  | none =>
    have hs : w.store.blobs.get? id = none := by
      cases hg : w.store.blobs.get? id with
      | none => rfl
      | some _ => simpa [ha] using hc.stored id (by simp [hg])
    have hl : (loadState id).exec w.store = (.ok {}, w.store) := by
      simp [loadState, exec_bind, exec_attempt, Store.DocStore.load_exec_none hc.rules hs]
    refine ⟨{ w with active := insertByName id {} w.active }, ?_, ?_, view_activate w id ha⟩
    · simp [Bucket.resolve, exec_bind, Host.active?, ha, Host.activate, onStore, exec_zoom, hl,
        exec_map, view]
    · exact ⟨hc.rules, hc.codec, hc.compression, fun j hj => by
        by_cases hji : j = id <;> simp [lookup_insertByName, hji, hc.stored j hj]⟩

/-- Committing a state replaces the bucket at its address, and the write goes through. -/
theorem Runs.commit (id : String) (s : State) (b : String → State) :
    Runs (commit id s) b (.ok ()) (Function.update b id s) := by
  intro w hc hv
  subst hv
  obtain ⟨st, hx, hr, hcod, hz, hst⟩ :=
    Store.DocStore.save_exec hc.rules hc.codec hc.compression id s.toDoc
  refine ⟨{ w with active := insertByName id s w.active, store := st }, ?_, ?_, ?_⟩
  · simp [Bucket.commit, exec_bind, Host.keep, Host.persist, onStore, exec_zoom, hx]
  · refine ⟨hr, hcod, hz, fun j hj => ?_⟩
    by_cases hji : j = id
    · simp [lookup_insertByName, hji]
    · have hold := (hst j hj).resolve_left hji
      simp [lookup_insertByName, hji, hc.stored j hold]
  · funext j
    by_cases hji : j = id
    · subst hji
      simp [view, lookup_insertByName]
    · simp [view, lookup_insertByName, hji]

/-- Counting a growth changes no bucket. -/
theorem Runs.grew (b : String → State) : Runs (modify Host.grew) b (.ok ()) b := by
  intro w hc hv
  exact ⟨Host.grew w, rfl, ⟨hc.rules, hc.codec, hc.compression, hc.stored⟩, hv⟩

section Steps

variable {b : String → State} {id : String} {m : IndexMeta} {r : EntityRef} {u : IndexUpdate}

theorem Runs.applyAt_error {e : Error} (h : (b id).apply r u m.unique m = .error e) :
    Runs (applyAt m id r u) b (.error e) b := by
  refine Runs.bind (Runs.resolve id b) ?_
  simp only [h]
  exact Runs.throw e b

theorem Runs.applyAt_notFoundHere {s' : State}
    (h : (b id).apply r u m.unique m = .ok (.notFoundHere, s')) :
    Runs (applyAt m id r u) b (.ok .notFoundHere) b := by
  refine Runs.bind (Runs.resolve id b) ?_
  simp only [h]
  exact Runs.pure _ b

theorem Runs.applyAt_applied {s' : State} (h : (b id).apply r u m.unique m = .ok (.applied, s')) :
    Runs (applyAt m id r u) b (.ok .applied) (Function.update b id s') := by
  refine Runs.bind (Runs.resolve id b) ?_
  simp only [h]
  exact Runs.bind (Runs.commit id s' b) (Runs.pure _ _)

/-- Growing a bucket that has a successor returns it and changes nothing. -/
theorem Runs.grow_linked (h : (b id).next ≠ "") :
    Runs (grow id) b (.ok ((b id).next, false)) b := by
  refine Runs.bind (Runs.resolve id b) ?_
  simp only [String.isEmpty_iff, h, if_false]
  exact Runs.pure _ b

/-- Growing the tail links its successor. -/
theorem Runs.grow_tail (h : (b id).next = "") :
    Runs (grow id) b (.ok (nextId id, true))
      (Function.update b id { b id with next := nextId id }) := by
  refine Runs.bind (Runs.resolve id b) ?_
  simp only [String.isEmpty_iff, h, if_true]
  exact Runs.bind (Runs.commit id _ b) (Runs.pure _ _)

theorem Runs.successor_linked (h : (b id).next ≠ "") :
    Runs (Index.successor id) b (.ok (b id).next) b := by
  refine Runs.bind (Runs.grow_linked h) ?_
  simp only [Bool.false_eq_true, if_false]
  exact Runs.pure _ b

/-- The successor of an available tail is a new bucket, linked now; it keeps the available
status it is activated with. -/
theorem Runs.successor_tail (h : (b id).next = "") (hs : (b id).status = .available) :
    Runs (Index.successor id) b (.ok (nextId id))
      (Function.update b id { b id with next := nextId id }) := by
  refine Runs.bind (Runs.grow_tail h) ?_
  simp only [if_true]
  refine Runs.bind (Runs.grew _) (Runs.bind (Runs.resolve id _) ?_)
  simp only [Function.update_self, hs, ne_eq, not_true_eq_false, if_false]
  exact Runs.bind (Runs.pure _ _) (Runs.pure _ _)

end Steps

end EntityIndex.Bucket.Shelf
