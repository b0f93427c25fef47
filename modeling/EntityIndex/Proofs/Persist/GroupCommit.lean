import EntityIndex.Persist.Committer
import EntityIndex.Proofs.Model.Maps

/-!
# Group commit is durable and ordered

`Inv` holds in every state that an interleaving of requests, writes and mutations reaches
(`reachable_inv`). It has three parts:

* `BatchesOk`: at most one batch holds the flag, and then the flag is set; the open batch is
  gathering; a write in progress is the newest write and belongs to the batch that runs it; a
  batch whose write finished carries that write's outcome.
* `SnapshotsOk`: snapshots grow in write order and never run ahead of the actor's state, and the
  store holds the largest snapshot persisted.
* `RequestOk`, for every request: the writes started after it entered snapshot every mutation it
  saw; the batch it waits on has no write yet, or one started after it entered; and a request
  that returned a write's outcome returned the outcome of such a write.

`group_commit_durable_and_ordered` draws three properties of group commit from `Inv`: one write
at most is in flight; a request served by a write was served by one that started after it
entered, whose snapshot holds every mutation the request saw and, when the write succeeded, is
covered by the store; and writes finish in the order they start, so the store holds the newest
snapshot persisted.
-/

namespace EntityIndex.Committer

/-! ## Step inversions -/

variable {s s' : Committer}

theorem step_enter (h : s.step .enter = some s') :
    (∃ b, s.next = some b ∧ s' = { s with requests := s.requests ++ [s.arrival (.follows b)] }) ∨
    (s.next = none ∧ s' = { s with
      next := some s.batches.length
      batches := s.batches ++ [.gathering]
      requests := s.requests ++ [s.arrival (.leads s.batches.length)] }) := by
  simp only [step] at h
  split at h
  · rename_i b hb; exact .inl ⟨b, hb, (Option.some.inj h).symm⟩
  · rename_i hb; exact .inr ⟨hb, (Option.some.inj h).symm⟩

theorem step_take {b : Nat} (h : s.step (.take b) = some s') :
    s.writing = false ∧ s.batches[b]? = some .gathering ∧
      s' = { s with writing := true, next := none, batches := s.batches.set b .taken } := by
  simp only [step] at h
  split at h
  · rename_i hg; exact ⟨hg.1, hg.2, (Option.some.inj h).symm⟩
  · cases h

theorem step_start {b : Nat} (h : s.step (.start b) = some s') :
    s.batches[b]? = some .taken ∧ s' = { s with
      writes := s.writes ++ [⟨s.version, none⟩]
      batches := s.batches.set b (.writing s.writes.length) } := by
  simp only [step] at h
  split at h
  · rename_i hg; exact ⟨hg, (Option.some.inj h).symm⟩
  · cases h

theorem step_finish {b : Nat} {ok : Bool} (h : s.step (.finish b ok) = some s') :
    ∃ w wr, s.batches[b]? = some (.writing w) ∧ s.writes[w]? = some wr ∧ s' = { s with
      writes := s.writes.set w { wr with outcome := some ok }
      store := if ok then some wr.snapshot else s.store
      batches := s.batches.set b (.wrote w ok) } := by
  simp only [step] at h
  split at h
  · rename_i w hb
    split at h
    · rename_i wr hw; exact ⟨w, wr, hb, hw, (Option.some.inj h).symm⟩
    · cases h
  · cases h

theorem step_release {b : Nat} (h : s.step (.release b) = some s') :
    ∃ w ok, s.batches[b]? = some (.wrote w ok) ∧
      s' = { s with writing := false, batches := s.batches.set b (.released w ok) } := by
  simp only [step] at h
  split at h
  · rename_i w ok hb; exact ⟨w, ok, hb, (Option.some.inj h).symm⟩
  · cases h

theorem step_publish {b : Nat} (h : s.step (.publish b) = some s') :
    ∃ w ok, s.batches[b]? = some (.released w ok) ∧
      s' = { s with batches := s.batches.set b (.done w ok) } := by
  simp only [step] at h
  split at h
  · rename_i w ok hb; exact ⟨w, ok, hb, (Option.some.inj h).symm⟩
  · cases h

theorem step_wake {i : Nat} (h : s.step (.wake i) = some s') :
    ∃ r b w ok, s.requests[i]? = some r ∧ r.stage.batch? = some b ∧ s.batches[b]? = some (.done w ok) ∧
      s' = { s with requests := s.requests.set i { r with stage := .returned (.served w ok) } } := by
  simp only [step] at h
  split at h
  · rename_i r hr
    split at h
    · rename_i b hb
      split at h
      · rename_i w ok hd; exact ⟨r, b, w, ok, hr, hb, hd, (Option.some.inj h).symm⟩
      · cases h
    · cases h
  · cases h

theorem step_cancel {i : Nat} (h : s.step (.cancel i) = some s') :
    ∃ r b, s.requests[i]? = some r ∧ r.stage = .follows b ∧
      s' = { s with requests := s.requests.set i { r with stage := .returned .canceled } } := by
  simp only [step] at h
  split at h
  · rename_i r hr
    split at h
    · rename_i b hb; exact ⟨r, b, hr, hb, (Option.some.inj h).symm⟩
    · cases h
  · cases h

/-! ## Batches and the flag -/

/-- The leader of a batch in this phase holds the flag. -/
def Batch.holdsFlag : Batch → Bool
  | .taken | .writing _ | .wrote _ _ => true
  | _ => false

/-- The outcome a batch carries once its write finished. -/
def Batch.outcome? : Batch → Option (Nat × Bool)
  | .wrote w ok | .released w ok | .done w ok => some (w, ok)
  | _ => none

/-- Write `w` has started and not finished. -/
def InProgress (writes : List Write) (w : Nat) : Prop := ∃ v, writes[w]? = some ⟨v, none⟩

/-- How the batches, the flag and the writes fit together. -/
structure BatchesOk (writing : Bool) (next : Option Nat) (batches : List Batch)
    (writes : List Write) : Prop where
  flag : ∀ (b : Nat) (bt : Batch), batches[b]? = some bt → bt.holdsFlag = true →
    writing = true ∧ ∀ (b' : Nat) (bt' : Batch), batches[b']? = some bt' → bt'.holdsFlag = true → b' = b
  gathering : ∀ b, next = some b → batches[b]? = some .gathering
  running : ∀ w, InProgress writes w → ∃ b : Nat, batches[b]? = some (.writing w)
  newest : ∀ (b w : Nat), batches[b]? = some (.writing w) → w + 1 = writes.length ∧ InProgress writes w
  outcome : ∀ (b : Nat) (bt : Batch) (w : Nat) (ok : Bool), batches[b]? = some bt →
    bt.outcome? = some (w, ok) → ∃ v, writes[w]? = some ⟨v, some ok⟩

namespace BatchesOk

variable {writing : Bool} {next : Option Nat} {batches : List Batch} {writes : List Write}
  {b : Nat}

theorem holder_eq (h : BatchesOk writing next batches writes) {b b' : Nat} {bt bt' : Batch}
    (hb : batches[b]? = some bt) (hh : bt.holdsFlag = true) (hb' : batches[b']? = some bt')
    (hh' : bt'.holdsFlag = true) : b' = b :=
  (h.flag b bt hb hh).2 b' bt' hb' hh'

/-- While a batch holds the flag without having started its write, no write is in progress. -/
theorem not_inProgress_of_taken (h : BatchesOk writing next batches writes)
    (hb : batches[b]? = some .taken) (w : Nat) : ¬ InProgress writes w := by
  intro hw
  obtain ⟨b', hb'⟩ := h.running w hw
  obtain rfl := h.holder_eq hb rfl hb' rfl
  rw [hb] at hb'
  cases hb'

/-- Overwriting a batch that does not write keeps a batch for every write in progress. -/
theorem running_set (h : BatchesOk writing next batches writes) {bt x : Batch}
    (hb : batches[b]? = some bt) (hbt : ∀ w, bt ≠ .writing w) (w : Nat)
    (hw : InProgress writes w) : ∃ b' : Nat, (batches.set b x)[b']? = some (.writing w) := by
  obtain ⟨b', hb'⟩ := h.running w hw
  exact ⟨b', getElem?_set_of_getElem?_ne hb hb' (hbt w)⟩

/-- Overwriting a batch with one that does not write keeps what every writing batch says. -/
theorem newest_set (h : BatchesOk writing next batches writes) {x : Batch}
    (hx : ∀ w, x ≠ .writing w) (b' w : Nat) (hb' : (batches.set b x)[b']? = some (.writing w)) :
    w + 1 = writes.length ∧ InProgress writes w := by
  rcases getElem?_set_eq_some hb' with ⟨-, h'⟩ | ⟨-, hb'⟩
  · exact absurd h'.symm (hx w)
  · exact h.newest b' w hb'

/-- Overwriting a batch with one that carries the same outcome keeps every outcome recorded. -/
theorem outcome_set (h : BatchesOk writing next batches writes) {bt x : Batch}
    (hb : batches[b]? = some bt) (hx : x.outcome? = bt.outcome?) (b' : Nat) (bt' : Batch) (w : Nat)
    (ok : Bool) (hb' : (batches.set b x)[b']? = some bt') (ho : bt'.outcome? = some (w, ok)) :
    ∃ v, writes[w]? = some ⟨v, some ok⟩ := by
  rcases getElem?_set_eq_some hb' with ⟨-, rfl⟩ | ⟨-, hb'⟩
  · exact h.outcome b bt w ok hb (hx ▸ ho)
  · exact h.outcome b' bt' w ok hb' ho

theorem open_batch (h : BatchesOk writing none batches writes) :
    BatchesOk writing (some batches.length) (batches ++ [.gathering]) writes where
  flag b bt hb hh := by
    rcases getElem?_push_eq_some hb with hb | ⟨-, rfl⟩
    · refine ⟨(h.flag b bt hb hh).1, fun b' bt' hb' hh' => ?_⟩
      rcases getElem?_push_eq_some hb' with hb' | ⟨-, rfl⟩
      · exact h.holder_eq hb hh hb' hh'
      · cases hh'
    · cases hh
  gathering b hb := by
    obtain rfl := Option.some.inj hb
    exact List.getElem?_concat_length
  running w hw := by
    obtain ⟨b, hb⟩ := h.running w hw
    exact ⟨b, getElem?_push_of_getElem? hb⟩
  newest b w hb := by
    rcases getElem?_push_eq_some hb with hb | ⟨-, h'⟩
    · exact h.newest b w hb
    · cases h'
  outcome b bt w ok hb ho := by
    rcases getElem?_push_eq_some hb with hb | ⟨-, rfl⟩
    · exact h.outcome b bt w ok hb ho
    · cases ho

theorem take (h : BatchesOk false next batches writes) (hb : batches[b]? = some .gathering) :
    BatchesOk true none (batches.set b .taken) writes where
  flag b₁ bt hb₁ hh := by
    refine ⟨rfl, fun b' bt' hb' hh' => ?_⟩
    -- the flag was clear, so the taken batch is the only holder
    have hfree : ∀ (b₂ : Nat) (bt₂ : Batch), batches[b₂]? = some bt₂ → bt₂.holdsFlag = true → False :=
      fun b₂ bt₂ hb₂ hh₂ => Bool.false_ne_true (h.flag b₂ bt₂ hb₂ hh₂).1
    rcases getElem?_set_eq_some hb₁ with ⟨rfl, -⟩ | ⟨-, hb₁⟩
    · rcases getElem?_set_eq_some hb' with ⟨rfl, -⟩ | ⟨-, hb'⟩
      · rfl
      · exact (hfree _ _ hb' hh').elim
    · exact (hfree _ _ hb₁ hh).elim
  gathering _ hn := by cases hn
  running := h.running_set hb nofun
  newest := h.newest_set nofun
  outcome := h.outcome_set hb rfl

theorem start (h : BatchesOk writing next batches writes) (hb : batches[b]? = some .taken)
    (v : Nat) :
    BatchesOk writing next (batches.set b (.writing writes.length)) (writes ++ [⟨v, none⟩]) where
  flag b₁ bt hb₁ hh := by
    -- every holder is the batch starting its write
    have honly : ∀ (b₂ : Nat) (bt₂ : Batch), (batches.set b (.writing writes.length))[b₂]? = some bt₂ →
        bt₂.holdsFlag = true → b₂ = b := by
      intro b₂ bt₂ hb₂ hh₂
      rcases getElem?_set_eq_some hb₂ with ⟨rfl, -⟩ | ⟨-, hb₂⟩
      · rfl
      · exact h.holder_eq hb rfl hb₂ hh₂
    refine ⟨(h.flag b .taken hb rfl).1, fun b' bt' hb' hh' => ?_⟩
    rw [honly b' bt' hb' hh', honly b₁ bt hb₁ hh]
  gathering b' hn := getElem?_set_of_getElem?_ne hb (h.gathering b' hn) nofun
  running w hw := by
    obtain ⟨v', hw⟩ := hw
    rcases getElem?_push_eq_some hw with hw | ⟨rfl, -⟩
    · exact (h.not_inProgress_of_taken hb w ⟨v', hw⟩).elim
    · exact ⟨b, getElem?_set_of_getElem? hb⟩
  newest b' w hb' := by
    rcases getElem?_set_eq_some hb' with ⟨-, h'⟩ | ⟨-, hb'⟩
    · obtain rfl : writes.length = w := by cases h'; rfl
      exact ⟨by simp, v, List.getElem?_concat_length⟩
    · exact (h.not_inProgress_of_taken hb w (h.newest b' w hb').2).elim
  outcome b' bt w ok hb' ho := by
    rcases getElem?_set_eq_some hb' with ⟨-, rfl⟩ | ⟨-, hb'⟩
    · cases ho
    · obtain ⟨v', hw⟩ := h.outcome b' bt w ok hb' ho
      exact ⟨v', getElem?_push_of_getElem? hw⟩

theorem finish (h : BatchesOk writing next batches writes) {w : Nat} {wr : Write} {ok : Bool}
    (hb : batches[b]? = some (.writing w)) (hw : writes[w]? = some wr) :
    BatchesOk writing next (batches.set b (.wrote w ok)) (writes.set w { wr with outcome := some ok }) where
  flag b₁ bt hb₁ hh := by
    have honly : ∀ (b₂ : Nat) (bt₂ : Batch), (batches.set b (.wrote w ok))[b₂]? = some bt₂ →
        bt₂.holdsFlag = true → b₂ = b := by
      intro b₂ bt₂ hb₂ hh₂
      rcases getElem?_set_eq_some hb₂ with ⟨rfl, -⟩ | ⟨-, hb₂⟩
      · rfl
      · exact h.holder_eq hb rfl hb₂ hh₂
    refine ⟨(h.flag b _ hb rfl).1, fun b' bt' hb' hh' => ?_⟩
    rw [honly b' bt' hb' hh', honly b₁ bt hb₁ hh]
  gathering b' hn := getElem?_set_of_getElem?_ne hb (h.gathering b' hn) nofun
  running w' hw' := by
    obtain ⟨v', hw'⟩ := hw'
    rcases getElem?_set_eq_some hw' with ⟨-, h'⟩ | ⟨hne, hw'⟩
    · cases h'
    · obtain ⟨b', hb'⟩ := h.running w' ⟨v', hw'⟩
      exact ⟨b', getElem?_set_of_getElem?_ne hb hb' fun he => hne (Batch.writing.inj he).symm⟩
  newest b' w' hb' := by
    rcases getElem?_set_eq_some hb' with ⟨-, h'⟩ | ⟨hne, hb'⟩
    · cases h'
    · exact (hne (h.holder_eq hb rfl hb' rfl)).elim
  outcome b' bt w' ok' hb' ho := by
    obtain ⟨v, hv⟩ := (h.newest b w hb).2
    rw [hv] at hw
    obtain rfl := Option.some.inj hw
    rcases getElem?_set_eq_some hb' with ⟨-, rfl⟩ | ⟨-, hb'⟩
    · obtain ⟨rfl, rfl⟩ : w = w' ∧ ok = ok' := by simpa [Batch.outcome?] using ho
      exact ⟨v, getElem?_set_of_getElem? hv⟩
    · obtain ⟨v', hw'⟩ := h.outcome b' bt w' ok' hb' ho
      -- a finished write is not the one finishing now
      exact ⟨v', getElem?_set_of_getElem?_ne hv hw' nofun⟩

theorem release (h : BatchesOk writing next batches writes) {w : Nat} {ok : Bool}
    (hb : batches[b]? = some (.wrote w ok)) :
    BatchesOk false next (batches.set b (.released w ok)) writes where
  flag b₁ bt hb₁ hh := by
    -- the releasing batch was the only holder, and it holds the flag no more
    rcases getElem?_set_eq_some hb₁ with ⟨-, rfl⟩ | ⟨hne, hb₁⟩
    · cases hh
    · exact (hne (h.holder_eq hb rfl hb₁ hh)).elim
  gathering b' hn := getElem?_set_of_getElem?_ne hb (h.gathering b' hn) nofun
  running := h.running_set hb nofun
  newest := h.newest_set nofun
  outcome := h.outcome_set hb rfl

theorem publish (h : BatchesOk writing next batches writes) {w : Nat} {ok : Bool}
    (hb : batches[b]? = some (.released w ok)) :
    BatchesOk writing next (batches.set b (.done w ok)) writes where
  flag b₁ bt hb₁ hh := by
    have hold : ∀ (b₂ : Nat) (bt₂ : Batch), (batches.set b (.done w ok))[b₂]? = some bt₂ →
        bt₂.holdsFlag = true → batches[b₂]? = some bt₂ := by
      intro b₂ bt₂ hb₂ hh₂
      rcases getElem?_set_eq_some hb₂ with ⟨-, rfl⟩ | ⟨-, hb₂⟩
      · cases hh₂
      · exact hb₂
    exact ⟨(h.flag b₁ bt (hold _ _ hb₁ hh) hh).1,
      fun b' bt' hb' hh' => h.holder_eq (hold _ _ hb₁ hh) hh (hold _ _ hb' hh') hh'⟩
  gathering b' hn := getElem?_set_of_getElem?_ne hb (h.gathering b' hn) nofun
  running := h.running_set hb nofun
  newest := h.newest_set nofun
  outcome := h.outcome_set hb rfl

end BatchesOk

/-! ## Snapshots and the store -/

/-- Snapshots grow in the order writes start and never run ahead of the actor's state, and the
store holds the largest snapshot persisted. -/
structure SnapshotsOk (version : Nat) (writes : List Write) (store : Option Nat) : Prop where
  mono : ∀ (w w' v v' : Nat) (o o' : Option Bool), w ≤ w' → writes[w]? = some ⟨v, o⟩ →
    writes[w']? = some ⟨v', o'⟩ → v ≤ v'
  le_version : ∀ (w v : Nat) (o : Option Bool), writes[w]? = some ⟨v, o⟩ → v ≤ version
  persisted : ∀ (w v : Nat), writes[w]? = some ⟨v, some true⟩ → ∃ v', store = some v' ∧ v ≤ v'
  stored : ∀ v, store = some v → ∃ w : Nat, writes[w]? = some ⟨v, some true⟩

/-- Finishing a write keeps every snapshot. -/
theorem getElem?_set_outcome {writes : List Write} {w j v v' : Nat} {o o' o'' : Option Bool}
    (hw : writes[w]? = some ⟨v, o⟩) (hj : (writes.set w ⟨v, o'⟩)[j]? = some ⟨v', o''⟩) :
    ∃ o₀, writes[j]? = some ⟨v', o₀⟩ := by
  rcases getElem?_set_eq_some hj with ⟨rfl, hx⟩ | ⟨-, hj⟩
  · cases hx; exact ⟨o, hw⟩
  · exact ⟨o'', hj⟩

namespace SnapshotsOk

variable {version : Nat} {writes : List Write} {store : Option Nat}

theorem mutate (h : SnapshotsOk version writes store) : SnapshotsOk (version + 1) writes store where
  mono := h.mono
  le_version w v o hw := Nat.le_succ_of_le (h.le_version w v o hw)
  persisted := h.persisted
  stored := h.stored

theorem start (h : SnapshotsOk version writes store) :
    SnapshotsOk version (writes ++ [⟨version, none⟩]) store where
  mono w w' v v' o o' hle hw hw' := by
    rcases getElem?_push_eq_some hw' with hw' | ⟨-, hx⟩
    · rcases getElem?_push_eq_some hw with hw | ⟨rfl, -⟩
      · exact h.mono w w' v v' o o' hle hw hw'
      · exact absurd (List.getElem?_eq_some_iff.mp hw').1 (by omega)
    · -- the new snapshot is the current version, which no older snapshot exceeds
      cases hx
      rcases getElem?_push_eq_some hw with hw | ⟨-, hx⟩
      · exact h.le_version w v o hw
      · cases hx; exact Nat.le_refl _
  le_version w v o hw := by
    rcases getElem?_push_eq_some hw with hw | ⟨-, hx⟩
    · exact h.le_version w v o hw
    · cases hx; exact Nat.le_refl _
  persisted w v hw := by
    rcases getElem?_push_eq_some hw with hw | ⟨-, hx⟩
    · exact h.persisted w v hw
    · cases hx
  stored v hv := by
    obtain ⟨w, hw⟩ := h.stored v hv
    exact ⟨w, getElem?_push_of_getElem? hw⟩

/-- The newest write finishes: when it succeeded its snapshot, the largest one, is stored. -/
theorem finish (h : SnapshotsOk version writes store) {w v : Nat} {ok : Bool}
    (hw : writes[w]? = some ⟨v, none⟩) (hlast : w + 1 = writes.length) :
    SnapshotsOk version (writes.set w ⟨v, some ok⟩) (if ok then some v else store) where
  mono j j' u u' o o' hle hj hj' := by
    obtain ⟨o₁, hj⟩ := getElem?_set_outcome hw hj
    obtain ⟨o₂, hj'⟩ := getElem?_set_outcome hw hj'
    exact h.mono j j' u u' o₁ o₂ hle hj hj'
  le_version j u o hj := by
    obtain ⟨o₁, hj⟩ := getElem?_set_outcome hw hj
    exact h.le_version j u o₁ hj
  persisted j u hj := by
    rcases getElem?_set_eq_some hj with ⟨-, hx⟩ | ⟨-, hold⟩
    · cases hx; exact ⟨_, rfl, Nat.le_refl _⟩
    · cases ok with
      | false => exact h.persisted j u hold
      | true =>
        -- every other write started before the newest one
        have hle : j ≤ w := by have := (List.getElem?_eq_some_iff.mp hold).1; omega
        exact ⟨v, rfl, h.mono j w u v _ none hle hold hw⟩
  stored u hu := by
    cases ok with
    | false =>
      obtain ⟨j, hj⟩ := h.stored u hu
      exact ⟨j, getElem?_set_of_getElem?_ne hw hj nofun⟩
    | true =>
      cases hu
      exact ⟨w, getElem?_set_of_getElem? hw⟩

end SnapshotsOk

/-! ## Requests -/

/-- What a request can rely on: the writes started after it entered snapshot every mutation it
saw, the batch it waits on has no write or one started after it entered, and an outcome it
returned is that of such a write. -/
structure RequestOk (version : Nat) (writes : List Write) (batches : List Batch) (r : Request) :
    Prop where
  seen_le : r.seen ≤ version
  entered_le : r.entered ≤ writes.length
  sees : ∀ (w v : Nat) (o : Option Bool), r.entered ≤ w → writes[w]? = some ⟨v, o⟩ → r.seen ≤ v
  waits : ∀ (b : Nat) (bt : Batch) (w : Nat), r.stage.batch? = some b → batches[b]? = some bt →
    bt.write? = some w → r.entered ≤ w
  served : ∀ (w : Nat) (ok : Bool), r.stage = .returned (.served w ok) →
    r.entered ≤ w ∧ ∃ v, writes[w]? = some ⟨v, some ok⟩

namespace RequestOk

variable {version : Nat} {writes : List Write} {batches : List Batch} {r : Request}

theorem mutate (h : RequestOk version writes batches r) : RequestOk (version + 1) writes batches r :=
  { h with seen_le := Nat.le_succ_of_le h.seen_le }

theorem push_batch (h : RequestOk version writes batches r) :
    RequestOk version writes (batches ++ [.gathering]) r :=
  { h with
    waits := fun b bt w hr hb hw => by
      rcases getElem?_push_eq_some hb with hb | ⟨-, rfl⟩
      · exact h.waits b bt w hr hb hw
      · cases hw }

/-- Setting a batch keeps a request's bounds when the write it names, if the request waits on the
batch, started after the request entered. -/
theorem set_batch (h : RequestOk version writes batches r) {b : Nat} {x : Batch}
    (hx : ∀ w, r.stage.batch? = some b → x.write? = some w → r.entered ≤ w) :
    RequestOk version writes (batches.set b x) r :=
  { h with
    waits := fun b' bt w hr hb hw => by
      rcases getElem?_set_eq_some hb with ⟨rfl, rfl⟩ | ⟨-, hb⟩
      · exact hx w hr hw
      · exact h.waits b' bt w hr hb hw }

theorem push_write (h : RequestOk version writes batches r) :
    RequestOk version (writes ++ [⟨version, none⟩]) batches r where
  seen_le := h.seen_le
  entered_le := by simp only [List.length_append, List.length_singleton]; have := h.entered_le; omega
  sees w v o hle hw := by
    rcases getElem?_push_eq_some hw with hw | ⟨-, hx⟩
    · exact h.sees w v o hle hw
    · cases hx; exact h.seen_le
  waits := h.waits
  served w ok hr := by
    obtain ⟨hle, v, hw⟩ := h.served w ok hr
    exact ⟨hle, v, getElem?_push_of_getElem? hw⟩

theorem finish_write (h : RequestOk version writes batches r) {w v : Nat} {ok : Bool}
    (hw : writes[w]? = some ⟨v, none⟩) : RequestOk version (writes.set w ⟨v, some ok⟩) batches r where
  seen_le := h.seen_le
  entered_le := by rw [List.length_set]; exact h.entered_le
  sees j u o hle hj := by
    obtain ⟨o₁, hj⟩ := getElem?_set_outcome hw hj
    exact h.sees j u o₁ hle hj
  waits := h.waits
  served j ok' hr := by
    obtain ⟨hle, u, hj⟩ := h.served j ok' hr
    -- an outcome already returned is not that of the write finishing now
    exact ⟨hle, u, getElem?_set_of_getElem?_ne hw hj nofun⟩

/-- A request entering now waits on a gathering batch. -/
theorem arrival {s : Committer} {stage : Stage} {b : Nat} (hs : stage.batch? = some b)
    (hb : s.batches[b]? = some .gathering) : RequestOk s.version s.writes s.batches (s.arrival stage) where
  seen_le := Nat.le_refl _
  entered_le := Nat.le_refl _
  sees w v o hle hw := absurd (List.getElem?_eq_some_iff.mp hw).1 (Nat.not_lt.mpr hle)
  waits b' bt w hr hb' hw := by
    rw [show b' = b from Option.some.inj (hr.symm.trans hs), hb] at hb'
    cases hb'
    cases hw
  served w ok hr := by
    simp only [Committer.arrival] at hr
    rw [hr] at hs
    cases hs

theorem wake (h : RequestOk version writes batches r) {b w : Nat} {ok : Bool} {v : Nat}
    (hr : r.stage.batch? = some b) (hb : batches[b]? = some (.done w ok))
    (hw : writes[w]? = some ⟨v, some ok⟩) :
    RequestOk version writes batches { r with stage := .returned (.served w ok) } where
  seen_le := h.seen_le
  entered_le := h.entered_le
  sees := h.sees
  waits _ _ _ hr' := by cases hr'
  served w' ok' hr' := by
    obtain ⟨rfl, rfl⟩ : w = w' ∧ ok = ok' := by simpa using hr'
    exact ⟨h.waits b _ w hr hb rfl, v, hw⟩

theorem cancel (h : RequestOk version writes batches r) :
    RequestOk version writes batches { r with stage := .returned .canceled } where
  seen_le := h.seen_le
  entered_le := h.entered_le
  sees := h.sees
  waits _ _ _ hr' := by cases hr'
  served _ _ hr' := by cases hr'

end RequestOk

/-! ## The invariant -/

/-- What holds in every reachable state. -/
structure Inv (s : Committer) : Prop where
  batches : BatchesOk s.writing s.next s.batches s.writes
  snapshots : SnapshotsOk s.version s.writes s.store
  requests : ∀ r ∈ s.requests, RequestOk s.version s.writes s.batches r

theorem Inv.init : Inv {} where
  batches :=
    { flag := fun _ _ h => by simp at h
      gathering := fun _ h => by cases h
      running := fun _ ⟨_, h⟩ => by simp at h
      newest := fun _ _ h => by simp at h
      outcome := fun _ _ _ _ h => by simp at h }
  snapshots :=
    { mono := fun _ _ _ _ _ _ _ h => by simp at h
      le_version := fun _ _ _ h => by simp at h
      persisted := fun _ _ h => by simp at h
      stored := fun _ h => by cases h }
  requests _ h := by cases h

theorem Inv.step {e : Event} (h : Inv s) (hs : s.step e = some s') : Inv s' := by
  cases e with
  | enter =>
    rcases step_enter hs with ⟨b, hn, rfl⟩ | ⟨hn, rfl⟩
    · -- joins the open batch
      exact ⟨h.batches, h.snapshots, forall_mem_push h.requests
        (RequestOk.arrival rfl (h.batches.gathering b hn))⟩
    · -- opens a batch and leads it
      have hb := h.batches
      rw [hn] at hb
      exact ⟨hb.open_batch, h.snapshots, forall_mem_push (fun r hr => (h.requests r hr).push_batch)
        (RequestOk.arrival (s := { s with batches := s.batches ++ [.gathering] }) rfl
          List.getElem?_concat_length)⟩
  | mutate =>
    simp only [Committer.step, Option.some.injEq] at hs
    subst hs
    exact ⟨h.batches, h.snapshots.mutate, fun r hr => (h.requests r hr).mutate⟩
  | take b =>
    obtain ⟨hw, hb, rfl⟩ := step_take hs
    have hok := h.batches
    rw [hw] at hok
    exact ⟨hok.take hb, h.snapshots,
      fun r hr => (h.requests r hr).set_batch fun _ _ hx => by cases hx⟩
  | start b =>
    obtain ⟨hb, rfl⟩ := step_start hs
    exact ⟨h.batches.start hb _, h.snapshots.start, fun r hr =>
      (h.requests r hr).push_write.set_batch fun w _ hx => by
        cases hx; exact (h.requests r hr).entered_le⟩
  | finish b ok =>
    obtain ⟨w, wr, hb, hw, rfl⟩ := step_finish hs
    obtain ⟨hlast, v, hv⟩ := h.batches.newest b w hb
    obtain rfl : wr = ⟨v, none⟩ := Option.some.inj (hw.symm.trans hv)
    exact ⟨h.batches.finish hb hv, h.snapshots.finish hv hlast, fun r hr =>
      ((h.requests r hr).finish_write hv).set_batch fun w' hrb hx =>
        (h.requests r hr).waits b _ w' hrb hb hx⟩
  | release b =>
    obtain ⟨w, ok, hb, rfl⟩ := step_release hs
    exact ⟨h.batches.release hb, h.snapshots, fun r hr =>
      (h.requests r hr).set_batch fun w' hrb hx => (h.requests r hr).waits b _ w' hrb hb hx⟩
  | publish b =>
    obtain ⟨w, ok, hb, rfl⟩ := step_publish hs
    exact ⟨h.batches.publish hb, h.snapshots, fun r hr =>
      (h.requests r hr).set_batch fun w' hrb hx => (h.requests r hr).waits b _ w' hrb hb hx⟩
  | wake i =>
    obtain ⟨r, b, w, ok, hr, hrb, hb, rfl⟩ := step_wake hs
    obtain ⟨v, hv⟩ := h.batches.outcome b _ w ok hb rfl
    have hmem : r ∈ s.requests := List.mem_of_getElem? hr
    exact ⟨h.batches, h.snapshots, forall_mem_set h.requests ((h.requests r hmem).wake hrb hb hv)⟩
  | cancel i =>
    obtain ⟨r, b, hr, -, rfl⟩ := step_cancel hs
    have hmem : r ∈ s.requests := List.mem_of_getElem? hr
    exact ⟨h.batches, h.snapshots, forall_mem_set h.requests (h.requests r hmem).cancel⟩

theorem reachable_inv (h : Reachable s) : Inv s := by
  induction h with
  | init => exact Inv.init
  | step _ hs ih => exact ih.step hs

/-! ## Group commit -/

/-- Only the newest write can be in progress. -/
theorem Inv.inProgress_newest (h : Inv s) {w : Nat} (hw : InProgress s.writes w) :
    w + 1 = s.writes.length := by
  obtain ⟨b, hb⟩ := h.batches.running w hw
  exact (h.batches.newest b w hb).1

/-- The finished writes are a prefix of the started ones. -/
theorem Inv.finished_prefix (h : Inv s) {w w' v' : Nat} {ok' : Bool} (hle : w ≤ w')
    (hw' : s.writes[w']? = some ⟨v', some ok'⟩) : ∃ v ok, s.writes[w]? = some ⟨v, some ok⟩ := by
  have hlt : w' < s.writes.length := (List.getElem?_eq_some_iff.mp hw').1
  obtain ⟨⟨v, o⟩, hw⟩ : ∃ wr, s.writes[w]? = some wr := ⟨_, List.getElem?_eq_getElem (by omega)⟩
  cases o with
  | some ok => exact ⟨v, ok, hw⟩
  | none =>
    -- a write in progress is the newest, so it is `w'` itself, which has finished
    have hnew := h.inProgress_newest ⟨v, hw⟩
    obtain rfl : w = w' := by omega
    rw [hw] at hw'
    cases hw'

/-- Group commit is durable and ordered. In every reachable state: at most one write is in
progress; a request that returned the outcome of write `w` entered before `w` started, the
snapshot of `w` holds every mutation the request saw, and the outcome is the write's own, so on
success the store covers it; the finished writes are a prefix of the started ones, the
snapshots grow in that order, and the store holds the largest snapshot persisted. -/
theorem group_commit_durable_and_ordered (h : Reachable s) :
    (∀ (w w' v v' : Nat), s.writes[w]? = some ⟨v, none⟩ → s.writes[w']? = some ⟨v', none⟩ →
      w = w') ∧
    (∀ r ∈ s.requests, ∀ (w : Nat) (ok : Bool), r.stage = .returned (.served w ok) →
      r.entered ≤ w ∧ ∃ v, s.writes[w]? = some ⟨v, some ok⟩ ∧ r.seen ≤ v ∧
        (ok = true → ∃ v', s.store = some v' ∧ v ≤ v')) ∧
    (∀ (w w' v' : Nat) (ok' : Bool), w ≤ w' → s.writes[w']? = some ⟨v', some ok'⟩ →
      ∃ v ok, s.writes[w]? = some ⟨v, some ok⟩) ∧
    (∀ (w w' v v' : Nat) (o o' : Option Bool), w ≤ w' → s.writes[w]? = some ⟨v, o⟩ →
      s.writes[w']? = some ⟨v', o'⟩ → v ≤ v') ∧
    (∀ (w v : Nat), s.writes[w]? = some ⟨v, some true⟩ → ∃ v', s.store = some v' ∧ v ≤ v') ∧
    (∀ v, s.store = some v → ∃ w : Nat, s.writes[w]? = some ⟨v, some true⟩) := by
  have hi := reachable_inv h
  refine ⟨fun w w' v v' hw hw' => ?_, fun r hr w ok hs => ?_, fun _ _ _ _ => hi.finished_prefix,
    hi.snapshots.mono, hi.snapshots.persisted, hi.snapshots.stored⟩
  · have h1 := hi.inProgress_newest ⟨v, hw⟩
    have h2 := hi.inProgress_newest ⟨v', hw'⟩
    omega
  · have hr := hi.requests r hr
    obtain ⟨hle, v, hw⟩ := hr.served w ok hs
    refine ⟨hle, v, hw, hr.sees w v _ hle hw, fun hok => ?_⟩
    subst hok
    exact hi.snapshots.persisted w v hw

/-- A first request leads write 0. While it runs the actor's state changes and two more requests
enter: the second opens a batch and the third joins it, and write 1 serves both. -/
def sharedWriteSchedule : List Event :=
  [.enter, .take 0, .start 0, .mutate, .enter, .enter, .finish 0 true, .release 0, .publish 0,
   .wake 0, .take 1, .start 1, .finish 1 true, .release 1, .publish 1, .wake 1, .wake 2]

theorem shared_write_covers_follower :
    ∃ s, Reachable s ∧ (⟨.returned (.served 1 true), 1, 1⟩ : Request) ∈ s.requests ∧
      ∃ v, s.store = some v ∧ 1 ≤ v := by
  have hrun : (run {} sharedWriteSchedule).map
      (fun s => decide ((⟨.returned (.served 1 true), 1, 1⟩ : Request) ∈ s.requests)) = some true := by
    decide
  cases hr : run {} sharedWriteSchedule with
  | none => simp [hr] at hrun
  | some s =>
    have hs := reachable_of_run .init hr
    have hmem : (⟨.returned (.served 1 true), 1, 1⟩ : Request) ∈ s.requests := by simpa [hr] using hrun
    obtain ⟨-, hserved, -⟩ := group_commit_durable_and_ordered hs
    obtain ⟨-, v, -, hseen, hstore⟩ := hserved _ hmem 1 true rfl
    obtain ⟨v', hv', hle⟩ := hstore rfl
    exact ⟨s, hs, hmem, v', hv', Nat.le_trans hseen hle⟩

end EntityIndex.Committer
