import EntityIndex.Proofs.Json.ReadBack
import EntityIndex.Proofs.Model.UuidText
import EntityIndex.Proofs.Model.Maps
import EntityIndex.Proofs.Bucket.Entries
import EntityIndex.Bucket.Stored
import EntityIndex.Workflow.Queue
import EntityIndex.Cluster.Entity

/-!
# Stored forms read back

Each persisted value has a stored form, a document, and a reader that takes the document back.
For each of them the reader gives back the value written, provided the value is one the stored
form can carry:

* a bucket state whose entries are strictly sorted by key, and whose markers and status are the
  byte codes they are stored as (`State.Storable`, `State.ofDoc_toDoc`);
* a workflow queue that holds records only once its record list exists, each record with a
  128-bit identifier, updates sorted by index name and operations that are byte codes
  (`Queue.Storable`, `Queue.ofDoc_toDoc`);
* an entity whose state and remembered queues are maps by name and whose active set is listed in
  order (`Entity.Storable`, `Stored.ofDoc_recordDoc`).

Maps are written as objects and read back by inserting their fields one after another, so a
map sorted by name reads back as itself; optional fields that are left out read back as the
zero value they stood for. Every number these documents hold is a byte code, which is a plain
number (`byteCode_plain`), so the documents also read back from their bytes
(`Value.PlainNumbers`).
-/

namespace EntityIndex

open Json Forms

/-! ## Byte codes -/

theorem Operation.code_ofCode (n : Nat) : (Operation.ofCode n).code = n % 256 := by
  unfold Operation.ofCode
  split <;> simp_all [Operation.code]

theorem Bucket.Marker.code_ofCode (n : Nat) : (Bucket.Marker.ofCode n).code = n % 256 := by
  unfold Bucket.Marker.ofCode
  split <;> simp_all [Bucket.Marker.code]

theorem Bucket.Status.code_ofCode (n : Nat) : (Bucket.Status.ofCode n).code = n % 256 := by
  unfold Bucket.Status.ofCode
  split <;> simp_all [Bucket.Status.code]

/-- An operation that is the operation of its own code is a byte. -/
theorem Operation.code_lt {o : Operation} (h : Operation.ofCode o.code = o) : o.code < 256 := by
  have hc := congrArg Operation.code h
  rw [Operation.code_ofCode] at hc
  omega

theorem Bucket.Marker.code_lt {m : Bucket.Marker} (h : Bucket.Marker.ofCode m.code = m) :
    m.code < 256 := by
  have hc := congrArg Bucket.Marker.code h
  rw [Bucket.Marker.code_ofCode] at hc
  omega

theorem Bucket.Status.code_lt {st : Bucket.Status} (h : Bucket.Status.ofCode st.code = st) :
    st.code < 256 := by
  have hc := congrArg Bucket.Status.code h
  rw [Bucket.Status.code_ofCode] at hc
  omega

/-- A byte code is written as a plain number, and an 8-bit field reads it back. -/
theorem byteCode_plain : ∀ n < 256,
    isPlainNumber n.repr = true ∧ Decimal.parseUnsigned 8 n.repr = some n := by
  decide +kernel

/-! ## Reading lists, fields and maps -/

namespace Forms

theorem readItems_map {α : Type} {f : Value → Option α} {g : α → Value} :
    ∀ {xs : List α}, (∀ x ∈ xs, f (g x) = some x) → readItems f (xs.map g) = some xs
  | [], _ => rfl
  | x :: xs, h => by
    rw [List.map_cons, readItems, h x (by simp), Option.bind_some,
      readItems_map fun y hy => h y (by simp [hy])]
    rfl

theorem readFields_map {α β : Type} {f : Value → Option α} {g : β → String × Value}
    {g' : β → String × α} :
    ∀ {ps : List β}, (∀ p ∈ ps, (g p).1 = (g' p).1 ∧ f (g p).2 = some (g' p).2) →
      readFields f (ps.map g) = some (ps.map g')
  | [], _ => rfl
  | p :: ps, h => by
    obtain ⟨h1, h2⟩ := h p (by simp)
    rw [List.map_cons, List.map_cons, ← Prod.mk.eta (p := g p), readFields, h2, Option.bind_some,
      readFields_map fun q hq => h q (by simp [hq]), h1]
    rfl

/-- A monadic fold whose every step succeeds is the plain fold. -/
theorem foldlM_map_some {α β γ : Type} {f : β → γ → Option β} {g : α → γ}
    {h : β → α → β} : ∀ {l : List α} {acc : β}, (∀ acc a, a ∈ l → f acc (g a) = some (h acc a)) →
      (l.map g).foldlM f acc = some (l.foldl h acc)
  | [], _, _ => rfl
  | a :: l, acc, hs => by
    rw [List.map_cons, List.foldlM_cons, hs acc a List.mem_cons_self, Option.bind_eq_bind,
      Option.bind_some, foldlM_map_some fun acc b hb => hs acc b (List.mem_cons_of_mem a hb)]
    rfl

/-- A monadic map whose every step succeeds is the plain map. -/
theorem mapM_map_some {α β γ : Type} {f : γ → Option β} {g : α → γ} {h : α → β} :
    ∀ {l : List α}, (∀ a ∈ l, f (g a) = some (h a)) → (l.map g).mapM f = some (l.map h)
  | [], _ => rfl
  | a :: l, hs => by
    rw [List.map_cons, List.mapM_cons, hs a List.mem_cons_self,
      mapM_map_some fun b hb => hs b (List.mem_cons_of_mem a hb)]
    rfl

theorem refOfDoc_refDoc (r : EntityRef) : refOfDoc (refDoc r) = some r := by
  simp [refOfDoc, refDoc, textField, Value.field?]

theorem memberOfDoc_memberDoc (u : MemberUpdate) (h : Operation.ofCode u.op.code = u.op) :
    memberOfDoc (memberDoc u) = some u := by
  have hop := (byteCode_plain _ (Operation.code_lt h)).2
  obtain ⟨op, ⟨b⟩, ⟨a⟩⟩ := u
  unfold memberOfDoc memberDoc
  -- an empty image is left out and reads back as the empty text
  by_cases hb : b = "" <;> by_cases ha : a = "" <;>
    simp_all [natField, textField, Value.field?, Value.nat, Key.isNull]

/-! Documents with no numbers but byte codes. -/

theorem plainNumbers_nat {n : Nat} (h : n < 256) : Value.PlainNumbers (Value.nat n) :=
  (byteCode_plain n h).1

theorem plainNumbers_string (s : String) : Value.PlainNumbers (.string s) := trivial

theorem plainNumbers_null : Value.PlainNumbers .null := trivial

/-- An object of texts has no numbers. -/
theorem plainNumbers_texts (fs : List (String × String)) :
    Value.PlainNumbers (.object (fs.map fun p => (p.1, .string p.2))) := by
  rw [Value.plainNumbers_object]
  intro p hp
  obtain ⟨⟨k, v⟩, -, rfl⟩ := List.mem_map.mp hp
  trivial

theorem plainNumbers_refDoc (r : EntityRef) : Value.PlainNumbers (refDoc r) := by
  simp [refDoc, Value.plainNumbers_object, plainNumbers_string]

theorem plainNumbers_memberDoc {u : MemberUpdate} (h : Operation.ofCode u.op.code = u.op) :
    Value.PlainNumbers (memberDoc u) := by
  unfold memberDoc
  split_ifs <;> simp [Value.plainNumbers_object, plainNumbers_string,
    plainNumbers_nat (Operation.code_lt h)]

end Forms

theorem eraseDups_of_nodup {α : Type} [BEq α] [LawfulBEq α] :
    ∀ {l : List α}, l.Nodup → l.eraseDups = l
  | [], _ => rfl
  | a :: l, h => by
    have ha : a ∉ l := (List.nodup_cons.mp h).1
    have hf : l.filter (fun b => !b == a) = l :=
      List.filter_eq_self.mpr fun b hb => by
        have : b ≠ a := fun e => ha (e ▸ hb)
        simpa using this
    rw [List.eraseDups_cons, hf, eraseDups_of_nodup (List.nodup_cons.mp h).2]

/-- Listing identifiers that are already listed in order, without repeats, changes nothing. -/
theorem Uuid.sorted_eraseDups {l : List Uuid} (h : l.Pairwise fun a b => a.value < b.value) :
    Uuid.sorted l.eraseDups = l := by
  have hnd : l.Nodup := h.imp fun hab e => by rw [e] at hab; exact Nat.lt_irrefl _ hab
  rw [eraseDups_of_nodup hnd, Uuid.sorted, List.mergeSort_of_pairwise]
  exact h.imp fun hab => by simpa using Nat.le_of_lt hab

/-! ## Workflow records -/

/-- What a stored workflow record needs to be read back: a 128-bit identifier, updates sorted
by index name, and operations that are the byte codes they are stored as. -/
structure WorkflowRecord.Storable (r : WorkflowRecord) : Prop where
  id_lt : r.id.value < 2 ^ 128
  sorted : NamesSorted r.updates
  ops : ∀ p ∈ r.updates, Operation.ofCode p.2.op.code = p.2.op

namespace Forms

theorem recordOfDoc_recordDoc {r : WorkflowRecord} (hr : r.Storable) :
    recordOfDoc (recordDoc r) = some r := by
  have hups : readFields memberOfDoc (r.updates.map fun p => (p.1, memberDoc p.2)) =
      some r.updates := by
    have h := @readFields_map MemberUpdate (String × MemberUpdate) memberOfDoc
      (fun p => (p.1, memberDoc p.2)) (fun p => p) r.updates
      fun p hp => ⟨rfl, memberOfDoc_memberDoc p.2 (hr.ops p hp)⟩
    rwa [List.map_id'] at h
  obtain ⟨id, ref, iface, ups⟩ := r
  unfold recordOfDoc recordDoc
  -- no updates are written as `null`, which reads back as no updates
  by_cases hu : ups = []
  · subst hu
    simp [Value.field?, Uuid.parse?_text _ hr.id_lt, refOfDoc_refDoc, fieldsField, textField,
      readFields, mapOfPairs]
  · simp [hu, Value.field?, Uuid.parse?_text _ hr.id_lt, refOfDoc_refDoc, fieldsField, textField,
      hups, mapOfPairs_of_sorted hr.sorted]

theorem plainNumbers_recordDoc {r : WorkflowRecord} (hr : r.Storable) :
    Value.PlainNumbers (recordDoc r) := by
  have hups : ∀ p ∈ r.updates.map (fun p => (p.1, memberDoc p.2)), Value.PlainNumbers p.2 := by
    intro p hp
    obtain ⟨⟨k, u⟩, hu, rfl⟩ := List.mem_map.mp hp
    exact plainNumbers_memberDoc (hr.ops _ hu)
  unfold recordDoc
  split_ifs <;> simp [Value.plainNumbers_object, plainNumbers_string, plainNumbers_refDoc,
    plainNumbers_null, Value.plainNumbers_object.mpr hups]

end Forms

/-! ## Bucket states -/

namespace Bucket

theorem Entry.ofDoc_toDoc (e : Entry) (hm : Marker.ofCode e.marker.code = e.marker) :
    Entry.ofDoc e.toDoc = some e := by
  have hv : readItems refOfDoc (e.values.map refDoc) = some e.values :=
    readItems_map fun r _ => refOfDoc_refDoc r
  unfold Entry.ofDoc Entry.toDoc
  -- a settled marker is left out and reads back as code 0
  by_cases h0 : e.marker.code = 0
  · simp [h0, itemsField, natField, Value.field?, hv]
    rw [← h0, hm]
  · simp [h0, itemsField, natField, Value.field?, Value.nat, hv,
      (byteCode_plain _ (Marker.code_lt hm)).2, hm]

theorem Repair.ofDoc_toDoc (r : Repair) : Repair.ofDoc r.toDoc = some r := by
  simp [Repair.ofDoc, Repair.toDoc, textField, Value.field?, refOfDoc_refDoc]

/-- Putting the entries of a key-sorted list one after another, after entries with smaller keys,
appends them. -/
theorem foldl_putEntry_sorted {acc es : List (Key × Entry)}
    (h : (acc ++ es).Pairwise (fun x y => x.1 < y.1)) :
    (es.map fun p => (p.1.text, p.2)).foldl (fun acc p => putEntry ⟨p.1⟩ p.2 acc) acc =
      acc ++ es := by
  -- a key is rebuilt from its text, so the fold puts the pairs themselves
  rw [List.foldl_map]
  simp only [putEntry_eq_putSorted]
  exact foldl_putSorted_of_sorted h

/-- What a stored bucket state needs to be read back: entries strictly sorted by key, and
markers and status that are the byte codes they are stored as. -/
structure State.Storable (s : State) : Prop where
  sorted : s.entries.Pairwise fun x y => x.1 < y.1
  markers : ∀ p ∈ s.entries, Marker.ofCode p.2.marker.code = p.2.marker
  status : Status.ofCode s.status.code = s.status

theorem State.field?_entries (s : State) :
    s.toDoc.field? "entries" = some (.object (s.entries.map fun (k, e) => (k.text, e.toDoc))) := by
  unfold State.toDoc
  split_ifs <;> simp [Value.field?]

theorem State.field?_status (s : State) : s.toDoc.field? "status" = some (.nat s.status.code) := by
  unfold State.toDoc
  split_ifs <;> simp [Value.field?]

theorem State.textField_next (s : State) : textField s.toDoc "next" = some s.next := by
  unfold State.toDoc
  by_cases hn : s.next = "" <;> split_ifs <;> simp_all [textField, Value.field?]

theorem State.itemsField_repairs (s : State) :
    itemsField s.toDoc "repairs" = some (s.repairs.map Repair.toDoc) := by
  unfold State.toDoc
  by_cases hr : s.repairs = [] <;> split_ifs <;> simp_all [itemsField, Value.field?]

theorem State.ofDoc_toDoc {s : State} (hs : s.Storable) : State.ofDoc s.toDoc = some s := by
  have hfold := @foldl_putEntry_sorted [] s.entries hs.sorted
  have hrep : readItems Repair.ofDoc (s.repairs.map Repair.toDoc) = some s.repairs :=
    readItems_map fun r _ => Repair.ofDoc_toDoc r
  have hst := (byteCode_plain _ (Status.code_lt hs.status)).2
  unfold State.ofDoc
  simp only [fieldsField, State.field?_entries, natField, State.field?_status, Value.nat,
    Nat.toString_eq_repr, hst, State.textField_next, State.itemsField_repairs, hrep,
    Option.bind_eq_bind, Option.bind_some, Option.pure_def]
  rw [@readFields_map _ _ _ _ (fun p => (p.1.text, p.2)) _ fun ⟨k, e⟩ hp =>
    ⟨rfl, Entry.ofDoc_toDoc e (hs.markers _ hp)⟩]
  simp only [Option.bind_some, hfold, List.nil_append, hs.status]

theorem Entry.plainNumbers_toDoc {e : Entry} (hm : Marker.ofCode e.marker.code = e.marker) :
    Value.PlainNumbers e.toDoc := by
  unfold Entry.toDoc
  split_ifs <;> simp [Value.plainNumbers_object, Value.plainNumbers_array, plainNumbers_refDoc,
    plainNumbers_nat (Marker.code_lt hm)]

theorem State.plainNumbers_toDoc {s : State} (hs : s.Storable) : Value.PlainNumbers s.toDoc := by
  have hent :
      ∀ p ∈ s.entries.map (fun (k, e) => (k.text, e.toDoc)), Value.PlainNumbers p.2 := by
    intro p hp
    obtain ⟨⟨k, e⟩, he, rfl⟩ := List.mem_map.mp hp
    exact Entry.plainNumbers_toDoc (hs.markers _ he)
  have hrep : ∀ r ∈ s.repairs.map Repair.toDoc, Value.PlainNumbers r := by
    intro r hr
    obtain ⟨r, -, rfl⟩ := List.mem_map.mp hr
    simp [Repair.toDoc, Value.plainNumbers_object, plainNumbers_string, plainNumbers_refDoc]
  unfold State.toDoc
  split_ifs <;> simp [Value.plainNumbers_object, plainNumbers_string,
    plainNumbers_nat (Status.code_lt hs.status), Value.plainNumbers_object.mpr hent,
    Value.plainNumbers_array.mpr hrep]

end Bucket

/-! ## Workflow queues -/

namespace Workflow

/-- What a stored queue needs to be read back: a queue that never held a record list holds no
records, and every record can be read back. -/
structure Queue.Storable (q : Queue) : Prop where
  unlisted : q.listed = false → q.records = []
  records : ∀ r ∈ q.records, r.Storable

theorem Queue.ofDoc_toDoc {q : Queue} (hq : q.Storable) :
    Queue.ofDoc q.toDoc = some (q.records, q.listed) := by
  unfold Queue.ofDoc Queue.toDoc
  cases hl : q.listed
  · simp [Value.field?, hq.unlisted hl]
  · simp [Value.field?, readItems_map fun r hr => recordOfDoc_recordDoc (hq.records r hr)]

theorem Queue.plainNumbers_toDoc {q : Queue} (hq : q.Storable) : Value.PlainNumbers q.toDoc := by
  unfold Queue.toDoc
  split_ifs
  · simp only [Value.plainNumbers_object, List.mem_singleton, forall_eq, Value.plainNumbers_array]
    intro x hx
    obtain ⟨r, hr, rfl⟩ := List.mem_map.mp hx
    exact plainNumbers_recordDoc (hq.records r hr)
  · simp [Value.plainNumbers_object, plainNumbers_null]

end Workflow

/-! ## Entities -/

namespace Cluster

theorem Fields.ofDoc_toDoc {fs : Fields} (h : NamesSorted fs) :
    Fields.ofDoc fs.toDoc = some fs := by
  rw [Fields.toDoc, Fields.ofDoc,
    foldlM_map_some (h := fun acc p => insertByName p.1 p.2 acc) fun acc ⟨k, v⟩ _ => rfl,
    @foldl_insertByName_of_sorted _ [] _ h]
  rfl

/-- What the stored form of an entity needs to be read back: its state and its remembered
queues are maps by name, and its active set is a set of 128-bit identifiers listed in order. -/
structure Entity.Storable (e : Entity) (state : Fields) : Prop where
  state : NamesSorted state
  active_sorted : e.active.Pairwise fun a b => a.value < b.value
  active_lt : ∀ u ∈ e.active, u.value < 2 ^ 128
  queues : NamesSorted e.queues

theorem Entity.field?_state (e : Entity) (state : Fields) :
    (e.recordDoc state).field? "state" = some state.toDoc := by
  unfold Entity.recordDoc
  split_ifs <;> simp [Value.field?]

theorem Entity.itemsField_active (e : Entity) (state : Fields) :
    itemsField (e.recordDoc state) "active" = some (e.active.map fun u => .string u.text) := by
  unfold Entity.recordDoc
  by_cases ha : e.active = [] <;> split_ifs <;> simp_all [itemsField, Value.field?]

theorem Entity.field?_queues (e : Entity) (state : Fields) :
    (e.recordDoc state).field? "queues" =
      if e.queues = [] then none
      else some (.object (e.queues.map fun (k, v) => (k, .string v))) := by
  unfold Entity.recordDoc
  by_cases hq : e.queues = [] <;> split_ifs <;> simp_all [Value.field?]

theorem Stored.ofDoc_recordDoc {e : Entity} {state : Fields} (h : e.Storable state) :
    Stored.ofDoc (e.recordDoc state) = some ⟨state, e.active, e.queues⟩ := by
  unfold Stored.ofDoc
  simp only [Entity.field?_state, Option.getD_some, Fields.ofDoc_toDoc h.state,
    Entity.itemsField_active, Option.bind_eq_bind, Option.bind_some, Entity.field?_queues]
  rw [mapM_map_some (h := id)]
  · simp only [Option.bind_some, List.map_id_fun, id, Uuid.sorted_eraseDups h.active_sorted]
    -- no remembered queues are left out and read back as none
    by_cases hq : e.queues = []
    · simp [hq]
    · simp only [hq, if_false]
      rw [foldlM_map_some (h := fun acc p => insertByName p.1 p.2 acc),
        @foldl_insertByName_of_sorted _ [] _ h.queues]
      · rfl
      · intro acc p _
        rfl
  · intro u hu
    exact Uuid.parse?_text u (h.active_lt u hu)

theorem Entity.plainNumbers_recordDoc (e : Entity) (state : Fields) :
    Value.PlainNumbers (e.recordDoc state) := by
  rw [Entity.recordDoc, Value.plainNumbers_object]
  split_ifs <;> simp [Value.plainNumbers_array, plainNumbers_string, Fields.toDoc,
    plainNumbers_texts]

end Cluster

end EntityIndex
