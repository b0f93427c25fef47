import Mathlib.Data.String.Basic
import EntityIndex.Proofs.Model.Run
import EntityIndex.Proofs.Model.Maps
import EntityIndex.Store.Documents

/-!
# Writes retried over injected faults

A store writes a blob with retries: as many tries as it is configured for, at least one. A fault
rule counts down the writes it still refuses, one each time it refuses a write of a blob under
its prefix, and a negative count refuses every write. Of the rules whose prefix starts a name,
the one with the longest prefix decides.

So a write goes through exactly when that rule's count `n` is at least zero and below the number
of tries `A`: the first `n` tries are refused, the next one writes the blob once, and the count
ends at zero. Otherwise every try is refused, nothing is written, the failure names the blob,
the `A` tries and the injected fault, and a count that was not negative has come down by `A`
(`write_goes_through_within_tries`).

The retry loop is taken apart first, over any world whose tries fail the same way a number of
times (`exec_retry_of_fails`, `exec_retry_of_succeeds`); the fault rules are then one such world.
-/

namespace EntityIndex

open Run

/-! ## Retries -/

namespace Run

variable {W α : Type} {step : Run W α} {total : Nat} {name : String} {e : Error}

/-- Retrying after a failure from worlds where each try fails with `e` gives up when no try is
left, in the world the last try left. -/
theorem exec_retryRest_of_fails (F : Nat → W) :
    ∀ (left j : Nat), (∀ i < left, step.exec (F (j + i)) = (.error e, F (j + i + 1))) →
      (retryRest total name step left e).exec (F j) =
        (.error (.persistence name total e), F (j + left))
  | 0, j, _ => by simp [retryRest]
  | left + 1, j, h => by
    have h0 : step.exec (F j) = (.error e, F (j + 1)) := by simpa using h 0 (Nat.succ_pos left)
    have hrest := exec_retryRest_of_fails F left (j + 1) fun i hi => by
      simpa [Nat.add_assoc, Nat.add_comm 1 i] using h (i + 1) (by omega)
    simp only [retryRest, exec_tryCatch, h0, hrest]
    rw [Nat.add_assoc, Nat.add_comm 1 left]

/-- Retrying after a failure from worlds where the first `m` tries fail with `e` and the next
succeeds returns that success, when more than `m` tries are left. -/
theorem exec_retryRest_of_succeeds (F : Nat → W) {a : α} {w' : W} :
    ∀ (m left j : Nat), m < left → (∀ i < m, step.exec (F (j + i)) = (.error e, F (j + i + 1))) →
      step.exec (F (j + m)) = (.ok a, w') → ∀ e₀, (retryRest total name step left e₀).exec (F j) =
        (.ok a, w')
  | _, 0, _, hm, _, _, _ => absurd hm (Nat.not_lt_zero _)
  | 0, left + 1, j, _, _, hs, e₀ => by
    rw [Nat.add_zero] at hs
    simp only [retryRest, exec_tryCatch, hs]
  | m + 1, left + 1, j, hm, hf, hs, e₀ => by
    have h0 : step.exec (F j) = (.error e, F (j + 1)) := by simpa using hf 0 (Nat.succ_pos m)
    have hrest := exec_retryRest_of_succeeds F m left (j + 1) (by omega)
      (fun i hi => by simpa [Nat.add_assoc, Nat.add_comm 1 i] using hf (i + 1) (by omega))
      (by rw [Nat.add_assoc, Nat.add_comm 1 m]; exact hs) e
    simp only [retryRest, exec_tryCatch, h0, hrest]

/-- The number of tries of a retry: the count asked for, at least one. -/
theorem tries_eq (attempts : Int) : max attempts.toNat 1 = (max attempts 1).toNat := by
  omega

/-- A retry is its first try followed by the retries after it. -/
theorem retry_eq_retryRest (attempts : Int) (e₀ : Error) :
    retry attempts name step =
      retryRest (max attempts.toNat 1) name step (max attempts.toNat 1) e₀ := by
  obtain ⟨t, ht⟩ : ∃ t, max attempts.toNat 1 = t + 1 := ⟨max attempts.toNat 1 - 1, by omega⟩
  simp only [retry, ht, retryRest, Nat.add_sub_cancel]

/-- A retry whose every try fails with `e` gives up after all its tries. -/
theorem exec_retry_of_fails (attempts : Int) (F : Nat → W)
    (h : ∀ i < max attempts.toNat 1, step.exec (F i) = (.error e, F (i + 1))) :
    (retry attempts name step).exec (F 0) =
      (.error (.persistence name (max attempts.toNat 1) e), F (max attempts.toNat 1)) := by
  rw [retry_eq_retryRest attempts e]
  simpa using exec_retryRest_of_fails F _ 0 (by simpa using h)

/-- A retry whose first `m` tries fail and whose next try succeeds returns that success, when it
has more than `m` tries. -/
theorem exec_retry_of_succeeds (attempts : Int) (F : Nat → W) {a : α} {w' : W} (m : Nat)
    (hm : m < max attempts.toNat 1) (h : ∀ i < m, step.exec (F i) = (.error e, F (i + 1)))
    (hs : step.exec (F m) = (.ok a, w')) :
    (retry attempts name step).exec (F 0) = (.ok a, w') := by
  rw [retry_eq_retryRest attempts e]
  exact exec_retryRest_of_succeeds F m _ 0 hm (by simpa using h) (by simpa using hs) e

end Run

/-! ## Fault rules -/

/-- Inserting a name that is already in a map by name replaces its value in place. -/
theorem insertByName_eq_map {β : Type} {k : String} {v v' : β} :
    ∀ {l : List (String × β)}, NamesSorted l → (k, v) ∈ l →
      insertByName k v' l = l.map fun p => if p.1 = k then (k, v') else p
  | [], _, hm => absurd hm List.not_mem_nil
  | (k', w) :: rest, hs, hm => by
    simp only [NamesSorted, List.pairwise_cons] at hs
    by_cases hk : k = k'
    · subst hk
      -- every later name is larger, so the head is the only pair of this name
      have hrest : rest.map (fun p => if p.1 = k then (k, v') else p) = rest :=
        (List.map_congr_left fun p hp => if_neg (ne_of_gt (hs.1 p hp))).trans (List.map_id rest)
      simp [insertByName, hrest]
    · have hin : (k, v) ∈ rest := by simpa [hk] using hm
      have hlt : ¬ k < k' := fun hlt => lt_asymm hlt (hs.1 _ hin)
      simp only [insertByName, hk, hlt, if_false, List.map_cons, Ne.symm hk,
        insertByName_eq_map hs.2 hin]

/-- Inserting a pair that a map by name already holds changes nothing. -/
theorem insertByName_of_mem {β : Type} {k : String} {v : β} {l : List (String × β)}
    (hs : NamesSorted l) (hm : (k, v) ∈ l) : insertByName k v l = l := by
  rw [insertByName_eq_map hs hm]
  refine (List.map_congr_left fun p hp => ?_).trans (List.map_id l)
  split_ifs with hp1
  · -- the pair of name `k` is the one held
    have h1 := (lookup_eq_some_iff hs).2 hm
    have h2 := (lookup_eq_some_iff hs).2 (show (p.1, p.2) ∈ l from hp)
    rw [hp1, h1] at h2
    rw [Option.some.inj h2, ← hp1]
    rfl
  · rfl

/-- Inserting under one name twice keeps the second value. -/
theorem insertByName_insertByName {β : Type} (k : String) (v v' : β) :
    ∀ l : List (String × β), insertByName k v (insertByName k v' l) = insertByName k v l
  | [] => by simp [insertByName]
  | (k', w) :: rest => by
    by_cases hk : k = k'
    · simp [insertByName, hk]
    · by_cases hlt : k < k'
      · simp [insertByName, hk, hlt]
      · simp [insertByName, hk, hlt, insertByName_insertByName k v v' rest]

namespace Store.Blobs

/-- One step of the search for the rule with the longest prefix of `name`. -/
def longer (name : String) (best : Option (String × Fault)) (r : String × Fault) :
    Option (String × Fault) :=
  if r.1.isPrefixOf name then
    match best with
    | some q => if q.1.length < r.1.length then some r else best
    | none => some r
  else best

theorem rule?_eq_foldl (b : Blobs) (name : String) :
    b.rule? name = b.rules.foldl (longer name) none := rfl

/-- The search picks by prefixes alone: changing the faults of the rules changes its pick the
same way. -/
theorem foldl_longer_map (name : String) (g : String × Fault → String × Fault)
    (hg : ∀ r, (g r).1 = r.1) :
    ∀ (rules : List (String × Fault)) (best : Option (String × Fault)),
      (rules.map g).foldl (longer name) (best.map g) = (rules.foldl (longer name) best).map g
  | [], _ => rfl
  | r :: rest, best => by
    have hstep : longer name (best.map g) (g r) = (longer name best r).map g := by
      cases best <;> simp only [longer, hg, Option.map] <;> split_ifs <;> rfl
    simp only [List.map_cons, List.foldl_cons, hstep, foldl_longer_map name g hg rest]

/-- One step of the search keeps its pick or takes the rule it looks at. -/
theorem longer_eq_some {name : String} {best : Option (String × Fault)} {q r : String × Fault}
    (h : longer name best q = some r) : best = some r ∨ r = q := by
  unfold longer at h
  split_ifs at h
  · cases best with
    | none => exact .inr (Option.some.inj h).symm
    | some b =>
      simp only at h
      split_ifs at h
      · exact .inr (Option.some.inj h).symm
      · exact .inl h
  · exact .inl h

/-- The search picks one of the rules, or keeps what it started from. -/
theorem foldl_longer_mem (name : String) :
    ∀ (rules : List (String × Fault)) (best : Option (String × Fault)) (r : String × Fault),
      rules.foldl (longer name) best = some r → best = some r ∨ r ∈ rules
  | [], _, _, h => .inl h
  | q :: rest, best, r, h => by
    rcases foldl_longer_mem name rest _ r h with h' | h'
    · rcases longer_eq_some h' with h'' | rfl
      · exact .inl h''
      · exact .inr List.mem_cons_self
    · exact .inr (List.mem_cons_of_mem _ h')

theorem rule?_mem {b : Blobs} {name : String} {r : String × Fault} (h : b.rule? name = some r) :
    r ∈ b.rules := by
  rcases foldl_longer_mem name b.rules none r h with h' | h'
  · cases h'
  · exact h'

/-- The blobs with the count of the rule of prefix `pre` set to `k`. -/
def withCount (b : Blobs) (pre : String) (f : Fault) (k : Int) : Blobs :=
  { b with rules := insertByName pre { f with failPuts := k } b.rules }

variable {b : Blobs} {name pre : String} {f : Fault}

/-- Changing the count of the rule that decides a name leaves it deciding the name. -/
theorem rule?_withCount (hs : NamesSorted b.rules) (hr : b.rule? name = some (pre, f)) (k : Int) :
    (b.withCount pre f k).rule? name = some (pre, { f with failPuts := k }) := by
  have hm := rule?_mem hr
  let g : String × Fault → String × Fault := fun p => if p.1 = pre then (pre, { f with failPuts := k }) else p
  have hg : ∀ p, (g p).1 = p.1 := fun p => by
    by_cases hp : p.1 = pre <;> simp [g, hp]
  rw [withCount, rule?_eq_foldl]
  simp only
  rw [insertByName_eq_map hs hm, show (none : Option (String × Fault)) = none.map g from rfl,
    foldl_longer_map name g hg, ← rule?_eq_foldl, hr]
  simp [g]

theorem withCount_self (hs : NamesSorted b.rules) (hr : b.rule? name = some (pre, f)) :
    b.withCount pre f f.failPuts = b := by
  simp [withCount, insertByName_of_mem hs (rule?_mem hr)]

theorem withCount_withCount (k k' : Int) :
    (b.withCount pre f k).withCount pre { f with failPuts := k } k' = b.withCount pre f k' := by
  simp [withCount, insertByName_insertByName]

theorem namesSorted_withCount (hs : NamesSorted b.rules) (k : Int) :
    NamesSorted (b.withCount pre f k).rules :=
  namesSorted_insertByName _ _ hs

/-- The writes of `name` the blobs still refuse: the count of the rule that decides the name,
zero when no rule matches it. -/
def refusals (b : Blobs) (name : String) : Int := ((b.rule? name).map (·.2.failPuts)).getD 0

/-- The refusals depend on the rules alone. -/
theorem refusals_of_rules {b' : Blobs} (h : b'.rules = b.rules) :
    b'.refusals name = b.refusals name := by
  simp only [refusals, rule?_eq_foldl, h]

theorem refusals_of_rule? (hr : b.rule? name = some (pre, f)) : b.refusals name = f.failPuts := by
  simp [refusals, hr]

theorem refusals_of_none (hr : b.rule? name = none) : b.refusals name = 0 := by
  simp [refusals, hr]

theorem refusals_withCount (hs : NamesSorted b.rules) (hr : b.rule? name = some (pre, f))
    (k : Int) : (b.withCount pre f k).refusals name = k :=
  refusals_of_rule? (rule?_withCount hs hr k)

/-- A write under a rule with writes left to refuse is refused, and the count comes down by one;
a negative count stays. -/
theorem put_exec_refused (data : List UInt8) (hr : b.rule? name = some (pre, f))
    (hf : f.failPuts ≠ 0) :
    (put name data).exec b = (.error injectedFault,
      b.withCount pre f (if 0 < f.failPuts then f.failPuts - 1 else f.failPuts)) := by
  simp only [put, exec_bind, exec_get, hr, hf, ne_eq, not_false_eq_true, if_true, withCount]
  split_ifs <;> rfl

/-- A write under a rule with nothing left to refuse goes through. -/
theorem put_exec_written {data : List UInt8} (hr : b.rule? name = some (pre, f))
    (hf : f.failPuts = 0) :
    (put name data).exec b =
      (.ok (), { b with data := insertByName name data b.data, puts := b.puts + 1 }) := by
  simp [put, exec_bind, hr, hf]

/-- A write that no rule matches goes through. -/
theorem put_exec_free {data : List UInt8} (hr : b.rule? name = none) :
    (put name data).exec b =
      (.ok (), { b with data := insertByName name data b.data, puts := b.puts + 1 }) := by
  simp [put, exec_bind, hr]

end Store.Blobs

/-! ## Writes of a store -/

namespace Store.DocStore

open Blobs

variable {s : DocStore} {name pre : String} {f : Fault} {data : List UInt8}

theorem onBlobs_put_exec (s : DocStore) :
    (onBlobs (Blobs.put name data)).exec s =
      (((Blobs.put name data).exec s.blobs).1,
        { s with blobs := ((Blobs.put name data).exec s.blobs).2 }) :=
  exec_zoom _ _ _ s

/-- The store whose rule of prefix `pre` has `f.failPuts - i` writes left to refuse. -/
def countedDown (s : DocStore) (pre : String) (f : Fault) (i : Nat) : DocStore :=
  { s with blobs := s.blobs.withCount pre f (f.failPuts - i) }

section Rule

variable (hs : NamesSorted s.blobs.rules) (hr : s.blobs.rule? name = some (pre, f))
include hs hr

theorem countedDown_zero : s.countedDown pre f 0 = s := by
  simp [countedDown, withCount_self hs hr]

/-- A write is its retry loop, run from the store whose rule has counted down nothing yet. -/
theorem putFrame_exec_countedDown :
    (putFrame name data).exec s =
      (Run.retry s.attempts name (onBlobs (Blobs.put name data))).exec (s.countedDown pre f 0) := by
  rw [countedDown_zero hs hr]
  simp only [putFrame, exec_bind, exec_get]

/-- Under a rule that refuses the next `n` writes, the try after `i < n` refused ones is refused
too and counts the rule down once more. -/
theorem put_exec_countedDown {i : Nat} (hi : (i : Int) < f.failPuts) :
    (onBlobs (Blobs.put name data)).exec (s.countedDown pre f i) =
      (.error injectedFault, s.countedDown pre f (i + 1)) := by
  have hpos : (0 : Int) < f.failPuts - i := by omega
  have hstep := put_exec_refused data (rule?_withCount hs hr (f.failPuts - i))
    (ne_of_gt hpos)
  dsimp only at hstep
  rw [if_pos hpos, withCount_withCount,
    show f.failPuts - i - 1 = f.failPuts - ((i + 1 : Nat) : Int) by omega] at hstep
  rw [onBlobs_put_exec, countedDown, hstep]
  rfl

/-- Under a rule that refuses every write, every try is refused and nothing changes. -/
theorem put_exec_always_refused (hneg : f.failPuts < 0) :
    (onBlobs (Blobs.put name data)).exec s = (.error injectedFault, s) := by
  rw [onBlobs_put_exec, put_exec_refused _ hr (by omega), if_neg (by omega), withCount_self hs hr]

/-- Writing under a rule that refuses the next `n` writes, with more than `n` tries: the first
`n` tries are refused, the next writes the blob once, and the rule's count ends at zero. -/
theorem putFrame_exec_of_lt (hpos : 0 ≤ f.failPuts) (hlt : f.failPuts < (max s.attempts 1).toNat) :
    (putFrame name data).exec s = (.ok (), { s with blobs := { s.blobs.withCount pre f 0 with
      data := insertByName name data s.blobs.data, puts := s.blobs.puts + 1 } }) := by
  have hend : s.countedDown pre f f.failPuts.toNat = { s with blobs := s.blobs.withCount pre f 0 } := by
    simp only [countedDown, show f.failPuts - (f.failPuts.toNat : Int) = 0 by omega]
  rw [putFrame_exec_countedDown hs hr]
  refine exec_retry_of_succeeds s.attempts (s.countedDown pre f) f.failPuts.toNat
    (by rw [tries_eq]; omega) (fun i hi => put_exec_countedDown hs hr (by omega)) ?_
  rw [hend, onBlobs_put_exec, put_exec_written (rule?_withCount hs hr 0) rfl]
  rfl

/-- Writing under a rule that refuses at least as many writes as there are tries: every try is
refused, nothing is written, and the count comes down by the number of tries. -/
theorem putFrame_exec_of_le (hle : (max s.attempts 1).toNat ≤ f.failPuts) :
    (putFrame name data).exec s = (.error (.persistence name (max s.attempts 1).toNat injectedFault),
      s.countedDown pre f (max s.attempts 1).toNat) := by
  rw [putFrame_exec_countedDown hs hr, ← tries_eq]
  exact exec_retry_of_fails s.attempts (s.countedDown pre f)
    fun i hi => put_exec_countedDown hs hr (by omega)

/-- Writing under a rule that refuses every write fails after all tries and changes nothing. -/
theorem putFrame_exec_of_neg (hneg : f.failPuts < 0) :
    (putFrame name data).exec s =
      (.error (.persistence name (max s.attempts 1).toNat injectedFault), s) := by
  simp only [putFrame, exec_bind, exec_get]
  rw [← tries_eq]
  exact exec_retry_of_fails s.attempts (fun _ => s)
    fun _ _ => put_exec_always_refused hs hr hneg

end Rule

/-- Writing a name that no rule matches goes through at the first try. -/
theorem putFrame_exec_of_free (hr : s.blobs.rule? name = none) :
    (putFrame name data).exec s = (.ok (), { s with blobs := { s.blobs with
      data := insertByName name data s.blobs.data, puts := s.blobs.puts + 1 } }) := by
  simp only [putFrame, exec_bind, exec_get]
  exact exec_retry_ok (by rw [onBlobs_put_exec, put_exec_free hr]) _ _

end Store.DocStore

open Store Store.DocStore Store.Blobs in
/-- A write retried over injected faults. With `A` tries (the count asked for, at least one) and
`n` writes left to refuse under the rule that decides the name (zero with no rule, negative when
the rule refuses every write), the write goes through exactly when `0 ≤ n < A`; then the blob is
written once and the count ends at zero. Otherwise the failure names the blob, the `A` tries and
the injected fault, nothing is written, and a count that was not negative ends at `n - A`. -/
theorem write_goes_through_within_tries (s : DocStore) (name : String) (data : List UInt8)
    (hs : NamesSorted s.blobs.rules) :
    (((putFrame name data).exec s).1 = .ok () ↔
        0 ≤ s.blobs.refusals name ∧ s.blobs.refusals name < (max s.attempts 1).toNat) ∧
      (0 ≤ s.blobs.refusals name ∧ s.blobs.refusals name < (max s.attempts 1).toNat →
        ((putFrame name data).exec s).2.blobs.data = insertByName name data s.blobs.data ∧
        ((putFrame name data).exec s).2.blobs.puts = s.blobs.puts + 1 ∧
        ((putFrame name data).exec s).2.blobs.refusals name = 0) ∧
      (¬ (0 ≤ s.blobs.refusals name ∧ s.blobs.refusals name < (max s.attempts 1).toNat) →
        ((putFrame name data).exec s).1 =
          .error (.persistence name (max s.attempts 1).toNat injectedFault) ∧
        ((putFrame name data).exec s).2.blobs.data = s.blobs.data ∧
        ((putFrame name data).exec s).2.blobs.puts = s.blobs.puts ∧
        (0 ≤ s.blobs.refusals name →
          ((putFrame name data).exec s).2.blobs.refusals name =
            s.blobs.refusals name - (max s.attempts 1).toNat)) := by
  have htries : (0 : Int) < (max s.attempts 1).toNat := by omega
  cases hr : s.blobs.rule? name with
  | none =>
    -- no rule: the first try writes
    rw [putFrame_exec_of_free hr, refusals_of_none hr]
    refine ⟨⟨fun _ => ⟨le_refl 0, htries⟩, fun _ => rfl⟩, fun _ => ⟨rfl, rfl, ?_⟩,
      fun h => absurd ⟨le_refl 0, htries⟩ h⟩
    exact (refusals_of_rules rfl).trans (refusals_of_none hr)
  | some r =>
    obtain ⟨pre, f⟩ := r
    rw [refusals_of_rule? hr]
    by_cases hneg : f.failPuts < 0
    · -- every write is refused
      rw [putFrame_exec_of_neg hs hr hneg]
      exact ⟨by simp; omega, fun h => absurd h.1 (by omega),
        fun _ => ⟨rfl, rfl, rfl, fun h => absurd h (by omega)⟩⟩
    · by_cases hlt : f.failPuts < (max s.attempts 1).toNat
      · -- the first `n` tries are refused and the next writes
        rw [putFrame_exec_of_lt hs hr (by omega) hlt]
        refine ⟨⟨fun _ => ⟨by omega, hlt⟩, fun _ => rfl⟩, fun _ => ⟨rfl, rfl, ?_⟩,
          fun h => absurd ⟨by omega, hlt⟩ h⟩
        exact (refusals_of_rules rfl).trans (refusals_withCount hs hr 0)
      · -- every try is refused and counts the rule down
        rw [putFrame_exec_of_le hs hr (by omega)]
        exact ⟨by simp; omega, fun h => absurd h.2 hlt,
          fun _ => ⟨rfl, rfl, rfl, fun _ => refusals_withCount hs hr _⟩⟩

/-- A store whose rule for the blobs under `bucket/` refuses one write, with the default two
tries. -/
def refusingOnce : Store.DocStore := { blobs := { rules := [("bucket/", { failPuts := 1 })] } }

/-- Against one refusal, the second of two tries writes the blob and clears the count. -/
theorem second_try_writes_past_one_refusal :
    NamesSorted refusingOnce.blobs.rules ∧
      ((Store.DocStore.putFrame "bucket/a" [7]).exec refusingOnce).1 = .ok () ∧
      ((Store.DocStore.putFrame "bucket/a" [7]).exec refusingOnce).2.blobs.puts = 1 ∧
      ((Store.DocStore.putFrame "bucket/a" [7]).exec refusingOnce).2.blobs.refusals "bucket/a" = 0 := by
  have hs : NamesSorted refusingOnce.blobs.rules := List.pairwise_singleton _ _
  have h := write_goes_through_within_tries refusingOnce "bucket/a" [7] hs
  have h1 : refusingOnce.blobs.refusals "bucket/a" = 1 := by decide +kernel
  have hn : 0 ≤ refusingOnce.blobs.refusals "bucket/a" ∧
      refusingOnce.blobs.refusals "bucket/a" < (max refusingOnce.attempts 1).toNat := by
    rw [h1]
    decide
  exact ⟨hs, h.1.2 hn, (h.2.1 hn).2.1, (h.2.1 hn).2.2⟩

end EntityIndex
