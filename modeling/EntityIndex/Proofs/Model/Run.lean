import EntityIndex.Model.Run

/-!
# Running computations over a world

`Run.exec` reads a computation as a function from a world to a result and the world after it.
The lemmas here take the monad apart one combinator at a time: a bind runs its second part from
the world the first left, a failure stops the run and keeps the world, `attempt` turns a
failure into a result, a handler runs only after a failure, and `zoom` runs on one part of the
world. Proofs about a program over a world use them to follow its steps.

A property of programs that holds of `pure` and is kept by `bind` and `attempt` (`Closed`) holds
of every sequence of attempts, loop and fold built from programs that have it.
-/

namespace EntityIndex.Run

variable {W α β : Type}

@[simp] theorem exec_pure (a : α) (w : W) : (pure a : Run W α).exec w = (.ok a, w) := rfl

@[simp] theorem exec_throw (e : Error) (w : W) : (throw e : Run W α).exec w = (.error e, w) := rfl

@[simp] theorem exec_get (w : W) : (get : Run W W).exec w = (.ok w, w) := rfl

@[simp] theorem exec_set (w w' : W) : (set w' : Run W PUnit).exec w = (.ok ⟨⟩, w') := rfl

@[simp]
theorem exec_modify (f : W → W) (w : W) : (modify f : Run W PUnit).exec w = (.ok ⟨⟩, f w) := rfl

@[simp]
theorem exec_lift (r : Except Error α) (w : W) : (lift r : Run W α).exec w = (r, w) := by
  cases r <;> rfl

/-- A bind runs its continuation from the world the first part left, unless that part failed. -/
theorem exec_bind (m : Run W α) (f : α → Run W β) (w : W) :
    (m >>= f).exec w = match m.exec w with
      | (.ok a, w') => (f a).exec w'
      | (.error e, w') => (.error e, w') := by
  simp only [exec, ExceptT.run_bind]
  show (StateT.run _ w) = _
  rw [StateT.run_bind]
  rcases m.run.run w with ⟨r, w'⟩
  cases r <;> rfl

/-- A bind whose first part succeeds. -/
theorem exec_bind_ok {m : Run W α} {w w' : W} {a : α} (h : m.exec w = (.ok a, w'))
    (f : α → Run W β) : (m >>= f).exec w = (f a).exec w' := by
  rw [exec_bind, h]

/-- `attempt` never fails: it returns the computation's result and keeps its world. -/
theorem exec_attempt (m : Run W α) (w : W) :
    (attempt m).exec w = (.ok (m.exec w).1, (m.exec w).2) := by
  unfold attempt exec
  have h : StateT.run m w = m.run.run w := rfl
  show (ExceptT.tryCatch (ExceptT.map Except.ok m) fun e => pure (Except.error e)).run.run w = _
  simp only [ExceptT.tryCatch, ExceptT.map, ExceptT.run, ExceptT.mk, StateT.run_bind, h]
  rcases m.run.run w with ⟨r, w'⟩
  cases r <;> rfl

/-- `attempt` of a computation that succeeds. -/
theorem exec_attempt_ok {m : Run W α} {w w' : W} {a : α} (h : m.exec w = (.ok a, w')) :
    (attempt m).exec w = (.ok (.ok a), w') := by
  rw [exec_attempt, h]

/-- A handler runs only after a failure, from the world the failure left. -/
theorem exec_tryCatch (m : Run W α) (h : Error → Run W α) (w : W) :
    (tryCatch m h).exec w = match m.exec w with
      | (.ok a, w') => (.ok a, w')
      | (.error e, w') => (h e).exec w' := by
  unfold exec
  have hm : StateT.run m w = m.run.run w := rfl
  show (ExceptT.tryCatch m h).run.run w = _
  simp only [ExceptT.tryCatch, ExceptT.run, ExceptT.mk, StateT.run_bind, hm]
  rcases m.run.run w with ⟨r, w'⟩
  cases r <;> rfl

theorem exec_map (f : α → β) (m : Run W α) (w : W) :
    (f <$> m).exec w = match m.exec w with
      | (.ok a, w') => (.ok (f a), w')
      | (.error e, w') => (.error e, w') := by
  rw [map_eq_pure_bind, exec_bind]
  rcases m.exec w with ⟨r, w'⟩
  cases r <;> rfl

/-- A computation on a part of the world runs on that part, and the world takes back the part
it left, whether it failed or not. -/
theorem exec_zoom {V : Type} (view : W → V) (update : W → V → W) (m : Run V α) (w : W) :
    (zoom view update m).exec w = ((m.exec (view w)).1, update w (m.exec (view w)).2) := by
  unfold zoom
  simp only [exec_bind, exec_get, exec_set]
  rcases m.exec (view w) with ⟨r, v⟩
  cases r <;> rfl

/-- A store operation whose first try succeeds is not retried. -/
theorem exec_retry_ok {step : Run W α} {w w' : W} {a : α} (h : step.exec w = (.ok a, w'))
    (attempts : Int) (name : String) : (retry attempts name step).exec w = (.ok a, w') := by
  simp only [retry, exec_tryCatch, h]

/-! ## Properties closed under the combinators -/

/-- A property of programs that holds of `pure` and is kept by `bind` and `attempt`. -/
structure Closed (P : (α : Type) → Run W α → Prop) : Prop where
  pure : ∀ {α : Type} (a : α), P α (Pure.pure a)
  bind : ∀ {α β : Type} {m : Run W α} {f : α → Run W β}, P α m → (∀ a, P β (f a)) →
    P β (m >>= f)
  attempt : ∀ {α : Type} {m : Run W α}, P α m → P (Except Error α) (attempt m)

namespace Closed

variable {P : (α : Type) → Run W α → Prop}

theorem attemptAll (hP : Closed P) :
    ∀ {ms : List (Run W Unit)}, (∀ m ∈ ms, P Unit m) → P (List Error) (Run.attemptAll ms)
  | [], _ => hP.pure _
  | m :: ms, h => by
    rw [Run.attemptAll]
    refine hP.bind (hP.attempt (h m List.mem_cons_self)) fun r => ?_
    refine hP.bind (hP.attemptAll fun m' hm' => h m' (List.mem_cons_of_mem _ hm')) fun es => ?_
    -- the failure of the attempt, if any, is put before the others
    split
    · exact hP.pure _
    · exact hP.pure _

theorem forM (hP : Closed P) {f : α → Run W PUnit} :
    ∀ (l : List α), (∀ a, P PUnit (f a)) → P PUnit (l.forM f)
  | [], _ => hP.pure _
  | a :: l, h => hP.bind (h a) fun _ => hP.forM l h

theorem foldlM (hP : Closed P) {f : β → α → Run W β} (hf : ∀ acc a, P β (f acc a)) :
    ∀ (l : List α) (init : β), P β (l.foldlM f init)
  | [], init => hP.pure init
  | a :: l, init => hP.bind (hf init a) fun acc => hP.foldlM hf l acc

end Closed

end EntityIndex.Run
