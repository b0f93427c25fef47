/-!
# Group commit

A committer persists one actor's state on request and merges concurrent requests. A request
joins the open batch, or opens a batch and leads it. A leader waits until no write is in
flight, takes the write (which closes its batch to newcomers), runs it, clears the flag and
publishes the write's outcome to its batch. Followers wait for that outcome, or give up when
their own context ends. The write is not cut short by the leader's context.

Each step below is one critical section of a request under the committer's mutex, one end of
the write, or one mutation of the actor's state. The write snapshots the actor's state when it
starts and persists the snapshot when it succeeds. The actor's state is its version, the number
of mutations completed so far. Batches and writes are named by position: the `b`-th batch
opened, the `w`-th write started. Steps of different requests interleave arbitrarily.
-/

namespace EntityIndex

/-- How far the leader of a batch got. -/
inductive Committer.Batch where
  /-- Open to new requests; the leader waits for the flag. -/
  | gathering
  /-- Closed: the leader holds the flag and has not started the write. -/
  | taken
  /-- The write of the batch, the `w`-th, is running. -/
  | writing (w : Nat)
  /-- The write finished with outcome `ok`; the leader still holds the flag. -/
  | wrote (w : Nat) (ok : Bool)
  /-- The flag is cleared and waiting leaders are woken; the outcome is not yet published. -/
  | released (w : Nat) (ok : Bool)
  /-- The outcome is stored in the batch and its `done` channel is closed. -/
  | done (w : Nat) (ok : Bool)
  deriving DecidableEq, Repr

/-- A write: the version of the actor's state it snapshot, and its outcome once finished. -/
structure Committer.Write where
  snapshot : Nat
  outcome : Option Bool := none
  deriving DecidableEq, Repr

/-- What a request returned. -/
inductive Committer.Reply where
  /-- The outcome of the `w`-th write: nil when `ok`, the write's error otherwise. -/
  | served (w : Nat) (ok : Bool)
  /-- The request's own context error. -/
  | canceled
  deriving DecidableEq, Repr

/-- Where a request stands. -/
inductive Committer.Stage where
  | leads (b : Nat)
  | follows (b : Nat)
  | returned (r : Committer.Reply)
  deriving DecidableEq, Repr

/-- A request, with what had happened when it entered: the writes started and the mutations
completed. -/
structure Committer.Request where
  stage : Committer.Stage
  entered : Nat
  seen : Nat
  deriving DecidableEq, Repr

/-- A committer, the actor state it snapshots, the store it writes to, and its requests. -/
structure Committer where
  /-- A write is in flight. -/
  writing : Bool := false
  /-- The open batch. -/
  next : Option Nat := none
  batches : List Committer.Batch := []
  writes : List Committer.Write := []
  requests : List Committer.Request := []
  /-- Mutations of the actor's state completed so far. -/
  version : Nat := 0
  /-- The snapshot last persisted. -/
  store : Option Nat := none
  deriving DecidableEq, Repr

namespace Committer

/-- The write a batch started, if any. -/
def Batch.write? : Batch → Option Nat
  | .gathering | .taken => none
  | .writing w | .wrote w _ | .released w _ | .done w _ => some w

/-- The batch a request waits on. -/
def Stage.batch? : Stage → Option Nat
  | .leads b | .follows b => some b
  | .returned _ => none

/-- What the scheduler runs next. -/
inductive Event where
  /-- A request enters: it joins the open batch, or opens one and leads it. -/
  | enter
  /-- A mutation of the actor's state completes. -/
  | mutate
  /-- The leader of batch `b` finds no write in flight, sets the flag and closes its batch. -/
  | take (b : Nat)
  /-- The write of batch `b` starts and snapshots the actor's state. -/
  | start (b : Nat)
  /-- The write of batch `b` returns, having persisted its snapshot when `ok`. -/
  | finish (b : Nat) (ok : Bool)
  /-- The leader of batch `b` clears the flag and wakes waiting leaders. -/
  | release (b : Nat)
  /-- The leader of batch `b` stores the outcome and closes `done`. -/
  | publish (b : Nat)
  /-- Request `i` sees its batch done and returns the outcome. -/
  | wake (i : Nat)
  /-- Request `i`, a follower, returns its context error. -/
  | cancel (i : Nat)
  deriving DecidableEq, Repr

/-- A request entering now, at some stage. -/
def arrival (s : Committer) (stage : Stage) : Request :=
  ⟨stage, s.writes.length, s.version⟩

/-- The committer after an event; none when the event cannot happen now. -/
def step (s : Committer) : Event → Option Committer
  | .enter =>
    match s.next with
    | some b => some { s with requests := s.requests ++ [s.arrival (.follows b)] }
    | none => some { s with
        next := some s.batches.length
        batches := s.batches ++ [.gathering]
        requests := s.requests ++ [s.arrival (.leads s.batches.length)] }
  | .mutate => some { s with version := s.version + 1 }
  | .take b =>
    if s.writing = false ∧ s.batches[b]? = some .gathering then
      some { s with writing := true, next := none, batches := s.batches.set b .taken }
    else none
  | .start b =>
    if s.batches[b]? = some .taken then
      some { s with
        writes := s.writes ++ [⟨s.version, none⟩]
        batches := s.batches.set b (.writing s.writes.length) }
    else none
  | .finish b ok =>
    match s.batches[b]? with
    | some (.writing w) =>
      match s.writes[w]? with
      | some wr => some { s with
          writes := s.writes.set w { wr with outcome := some ok }
          store := if ok then some wr.snapshot else s.store
          batches := s.batches.set b (.wrote w ok) }
      | none => none
    | _ => none
  | .release b =>
    match s.batches[b]? with
    | some (.wrote w ok) => some { s with writing := false, batches := s.batches.set b (.released w ok) }
    | _ => none
  | .publish b =>
    match s.batches[b]? with
    | some (.released w ok) => some { s with batches := s.batches.set b (.done w ok) }
    | _ => none
  | .wake i =>
    match s.requests[i]? with
    | some r =>
      match r.stage.batch? with
      | some b =>
        match s.batches[b]? with
        | some (.done w ok) =>
          some { s with requests := s.requests.set i { r with stage := .returned (.served w ok) } }
        | _ => none
      | none => none
    | none => none
  | .cancel i =>
    match s.requests[i]? with
    | some r =>
      match r.stage with
      | .follows _ => some { s with requests := s.requests.set i { r with stage := .returned .canceled } }
      | _ => none
    | none => none

/-- The states some interleaving reaches from an idle committer. -/
inductive Reachable : Committer → Prop where
  | init : Reachable {}
  | step {s s' : Committer} {e : Event} : Reachable s → s.step e = some s' → Reachable s'

/-- Run events in order. -/
def run : Committer → List Event → Option Committer
  | s, [] => some s
  | s, e :: rest => (s.step e).bind (run · rest)

theorem reachable_of_run : ∀ {s s' : Committer} {l : List Event},
    Reachable s → run s l = some s' → Reachable s'
  | s, s', [], hs, h => by simp only [run, Option.some.injEq] at h; exact h ▸ hs
  | s, s', e :: rest, hs, h => by
    simp only [run] at h
    cases hn : s.step e with
    | none => simp [hn] at h
    | some s1 =>
      simp only [hn, Option.bind_some] at h
      exact reachable_of_run (Reachable.step hs hn) h

end Committer

end EntityIndex
