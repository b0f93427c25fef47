import EntityIndex.Proofs.Model.Run
import EntityIndex.Bucket.Shelf
import EntityIndex.Indexing.Coordinator

/-!
# A world that carries a shelf

Requests that drive an index together with other state (the entities of a coordinator or of a
handler) keep the buckets on a shelf inside a larger world and reach them through
`Shelf.hostVia`. An index operation then runs on the carried shelf and leaves the rest of the
world as it was. `OnShelf view update m n` says so of two programs: `m` over the world gives what
`n` gives over the world's shelf, and the world afterwards is the old one with the shelf `n`
left put back.

`OnShelf` goes through binds, failures, `attempt` and loops, so the lemmas follow the index
operations one by one: resolving and committing a bucket, growing a chain, applying an update
along a chain and to an index, and a coordinator's unique updates with their undo.
-/

namespace EntityIndex.Bucket

open Run

/-- A shelf carried in a world: reading it back gives what was put, a second put replaces the
first, and putting back what was read changes nothing. -/
structure Carries {W : Type} (view : W → Shelf) (update : W → Shelf → W) : Prop where
  /-- The shelf put is the one read. -/
  view_update : ∀ w v, view (update w v) = v
  /-- The last put wins. -/
  update_update : ∀ w v v', update (update w v) v' = update w v'
  /-- Putting back the shelf read changes nothing. -/
  update_view : ∀ w, update w (view w) = w

/-- `m` over the world does what `n` does over the world's shelf, and nothing else. -/
def OnShelf {W α : Type} (view : W → Shelf) (update : W → Shelf → W) (m : Run W α)
    (n : Run Shelf α) : Prop :=
  ∀ w, m.exec w = ((n.exec (view w)).1, update w (n.exec (view w)).2)

namespace OnShelf

variable {W α β : Type} {view : W → Shelf} {update : W → Shelf → W}

theorem pure (hc : Carries view update) (a : α) :
    OnShelf view update (Pure.pure a) (Pure.pure a) := by
  intro w
  simp [hc.update_view]

theorem throw (hc : Carries view update) (e : Error) :
    OnShelf view update (MonadExcept.throw e : Run W α) (MonadExcept.throw e) := by
  intro w
  simp [hc.update_view]

theorem bind (hc : Carries view update) {m : Run W α} {n : Run Shelf α} {f : α → Run W β}
    {g : α → Run Shelf β} (hm : OnShelf view update m n) (hf : ∀ a, OnShelf view update (f a) (g a)) :
    OnShelf view update (m >>= f) (n >>= g) := by
  intro w
  rw [exec_bind, exec_bind, hm w]
  rcases n.exec (view w) with ⟨r, v⟩
  cases r with
  | ok a =>
    dsimp only
    rw [hf a (update w v), hc.view_update, hc.update_update]
  | error e => rfl

theorem attempt {m : Run W α} {n : Run Shelf α} (hm : OnShelf view update m n) :
    OnShelf view update (Run.attempt m) (Run.attempt n) := by
  intro w
  rw [exec_attempt, exec_attempt, hm w]

theorem zoom (n : Run Shelf α) : OnShelf view update (Run.zoom view update n) n :=
  exec_zoom view update n

theorem forM (hc : Carries view update) {f : α → Run W PUnit} {g : α → Run Shelf PUnit}
    (hf : ∀ a, OnShelf view update (f a) (g a)) :
    ∀ l : List α, OnShelf view update (l.forM f) (l.forM g)
  | [] => pure hc _
  | a :: l => bind hc (hf a) fun _ => forM hc hf l

theorem mapM {β : Type} (hc : Carries view update) {f : α → Run W β} {g : α → Run Shelf β}
    (hf : ∀ a, OnShelf view update (f a) (g a)) :
    ∀ l : List α, OnShelf view update (l.mapM f) (l.mapM g)
  | [] => by simpa only [List.mapM_nil] using pure hc []
  | a :: l => by
    simp only [List.mapM_cons]
    exact bind hc (hf a) fun b => bind hc (mapM hc hf l) fun bs => pure hc (b :: bs)

end OnShelf

section Host

variable {W : Type} {view : W → Shelf} {update : W → Shelf → W} [inst : Host W]

/-! ## Bucket operations on the carried shelf -/

theorem resolve_onShelf (hc : Carries view update) (hh : inst = Shelf.hostVia view update)
    (id : String) : OnShelf view update (resolve id : Run W State) (resolve id) := by
  subst hh
  intro w
  simp only [resolve, exec_bind, exec_get]
  cases h : Host.active? (view w) id with
  | some s => simp [hc.update_view]
  | none => exact exec_zoom view update _ w

theorem commit_onShelf (hc : Carries view update) (hh : inst = Shelf.hostVia view update)
    (id : String) (s : State) : OnShelf view update (commit id s : Run W Unit) (commit id s) := by
  subst hh
  intro w
  simp only [commit, exec_bind, exec_modify]
  have hp := exec_zoom view update (Host.persist id s : Run Shelf Unit)
    (update w (Host.keep id s (view w)))
  simp only [hc.view_update, hc.update_update] at hp
  exact hp

theorem applyAt_onShelf (hc : Carries view update) (hh : inst = Shelf.hostVia view update)
    (m : IndexMeta) (id : String) (r : EntityRef) (u : IndexUpdate) :
    OnShelf view update (applyAt m id r u : Run W Outcome) (applyAt m id r u) := by
  refine OnShelf.bind hc (resolve_onShelf hc hh id) fun s => ?_
  cases s.apply r u m.unique m with
  | error e => exact OnShelf.throw hc e
  | ok p =>
    obtain ⟨o, s'⟩ := p
    cases o with
    | applied => exact OnShelf.bind hc (commit_onShelf hc hh id s') fun _ => OnShelf.pure hc _
    | notFoundHere => exact OnShelf.pure hc _

theorem grow_onShelf (hc : Carries view update) (hh : inst = Shelf.hostVia view update)
    (id : String) : OnShelf view update (grow id : Run W (String × Bool)) (grow id) := by
  refine OnShelf.bind hc (resolve_onShelf hc hh id) fun s => ?_
  by_cases hn : s.next.isEmpty
  · simp only [hn]
    exact OnShelf.bind hc (commit_onShelf hc hh id _) fun _ => OnShelf.pure hc _
  · simp only [hn]
    exact OnShelf.pure hc _

theorem setStatusAt_onShelf (hc : Carries view update) (hh : inst = Shelf.hostVia view update)
    (id : String) (st : Status) :
    OnShelf view update (setStatusAt id st : Run W Unit) (setStatusAt id st) := by
  refine OnShelf.bind hc (resolve_onShelf hc hh id) fun s => ?_
  by_cases hs : s.status = st
  · simp only [hs, ↓reduceIte]
    exact OnShelf.pure hc _
  · simp only [hs, ↓reduceIte]
    exact commit_onShelf hc hh id _

theorem grew_onShelf (hh : inst = Shelf.hostVia view update) :
    OnShelf view update (modify Host.grew : Run W PUnit) (modify Host.grew) := by
  subst hh
  exact fun _ => rfl

theorem successor_onShelf (hc : Carries view update) (hh : inst = Shelf.hostVia view update)
    (id : String) : OnShelf view update (Index.successor id : Run W String) (Index.successor id) := by
  refine OnShelf.bind hc (grow_onShelf hc hh id) fun p => ?_
  obtain ⟨next, created⟩ := p
  cases created with
  | false => exact OnShelf.pure hc _
  | true =>
    refine OnShelf.bind hc (grew_onShelf hh) fun _ => ?_
    refine OnShelf.bind hc (resolve_onShelf hc hh id) fun s => ?_
    by_cases hs : s.status = .available
    · simp only [hs, ne_eq, not_true_eq_false, ↓reduceIte]
      exact OnShelf.pure hc _
    · simp only [hs, ne_eq, not_false_eq_true, ↓reduceIte]
      exact OnShelf.bind hc (setStatusAt_onShelf hc hh next s.status) fun _ => OnShelf.pure hc _

/-! ## Index operations on the carried shelf -/

theorem applyChain_onShelf (hc : Carries view update) (hh : inst = Shelf.hostVia view update)
    (x : Index) (r : EntityRef) (u : IndexUpdate) :
    ∀ (fuel : Nat) (id : String),
      OnShelf view update (x.applyChain r u fuel id : Run W Unit) (x.applyChain r u fuel id)
  | 0, _ => OnShelf.throw hc _
  | fuel + 1, id => by
    refine OnShelf.bind hc (applyAt_onShelf hc hh x.desc id r u) fun o => ?_
    cases o with
    | applied => exact OnShelf.pure hc _
    | notFoundHere =>
      exact OnShelf.bind hc (successor_onShelf hc hh id) fun next =>
        applyChain_onShelf hc hh x r u fuel next

theorem Index.apply_onShelf (hc : Carries view update) (hh : inst = Shelf.hostVia view update)
    (x : Index) (r : EntityRef) (u : IndexUpdate) :
    OnShelf view update (x.apply r u : Run W Unit) (x.apply r u) :=
  OnShelf.forM hc (fun _ => applyChain_onShelf hc hh x r _ _ _) _

end Host

end EntityIndex.Bucket

namespace EntityIndex.Indexing.Coordinator

open EntityIndex.Bucket

variable {W : Type} {view : W → Shelf} {update : W → Shelf → W} [inst : Host W]

/-! ## A coordinator's unique updates on the carried shelf -/

theorem applyTo_onShelf (hc : Carries view update) (hh : inst = Shelf.hostVia view update)
    (c : Coordinator) (name : String) (r : EntityRef) (u : IndexUpdate) :
    OnShelf view update (c.applyTo name r u : Run W Unit) (c.applyTo name r u) := by
  unfold applyTo
  cases c.indexes.lookup name with
  | some x => exact Index.apply_onShelf hc hh x r u
  | none => exact OnShelf.throw hc _

theorem undo_onShelf (hc : Carries view update) (hh : inst = Shelf.hostVia view update)
    (c : Coordinator) (r : EntityRef) (applied : List (String × IndexUpdate)) :
    OnShelf view update (c.undo r applied : Run W Unit) (c.undo r applied) :=
  OnShelf.forM hc (fun ⟨name, _⟩ => OnShelf.bind hc (OnShelf.attempt (applyTo_onShelf hc hh c name r _))
    fun _ => OnShelf.pure hc _) applied

theorem applyUniqueFrom_onShelf (hc : Carries view update) (hh : inst = Shelf.hostVia view update)
    (c : Coordinator) (r : EntityRef) (tentative : Bool) :
    ∀ done rest : List (String × IndexUpdate),
      OnShelf view update (c.applyUniqueFrom r tentative done rest : Run W Unit)
        (c.applyUniqueFrom r tentative done rest)
  | _, [] => OnShelf.pure hc _
  | done, (name, u) :: rest => by
    refine OnShelf.bind hc (OnShelf.attempt (applyTo_onShelf hc hh c name r _)) fun res => ?_
    cases res with
    | ok _ => exact applyUniqueFrom_onShelf hc hh c r tentative _ rest
    | error e =>
      by_cases he : e.kind = .uniqueness
      · simp only [he, ↓reduceIte]
        exact OnShelf.bind hc (undo_onShelf hc hh c r _) fun _ => OnShelf.throw hc e
      · simp only [he, ↓reduceIte]
        exact OnShelf.throw hc e

theorem applyUnique_onShelf (hc : Carries view update) (hh : inst = Shelf.hostVia view update)
    (c : Coordinator) (r : EntityRef) (us : Updates) :
    OnShelf view update (c.applyUnique r us : Run W Bool) (c.applyUnique r us) :=
  OnShelf.bind hc (applyUniqueFrom_onShelf hc hh c r _ [] _) fun _ => OnShelf.pure hc _

end EntityIndex.Indexing.Coordinator
