import EntityIndex.Proofs.Bucket.Storable
import EntityIndex.Proofs.Bucket.Shelf
import EntityIndex.Proofs.Persist.FrameLayout

/-!
# Saved state loads back

A store writes a document as a frame that records the codec's name, and reads a frame back with
the codec it names. On a store with no fault rules, writing in one of the two codecs without
compression, whose JSON library reads back what it writes (`DocStore.Readable`), a save
followed by a load of the same name gives the document back through any reader that takes it
(`load_after_save`): the frame's fields are read back from its layout, the codec's name reads
back from its bytes, the library reads what it wrote, and the reader takes the document.

Every persisted actor state is such a document: bucket states reached by updates and status
changes, well-formed workflow queues, and entity records, each read back by its own reader
(`persisted_state_reads_back`). The payload must fit the 32-bit lengths of a frame. The strings
of a state are text, valid UTF-8; bytes that are not are read back as U+FFFD
(`stray_byte_reads_back_as_replacement`).
-/

namespace EntityIndex

open Json Run

/-! ## Frames in a readable codec -/

/-- The codecs a frame can be read back in: `go-json` and `json`. -/
def Codec.Readable (c : Codec) : Prop := c = .fast ∨ c = .standard

theorem Codec.name_length {c : Codec} (hc : c.Readable) : c.name.toUTF8.toList.length < 256 := by
  rcases hc with rfl | rfl <;> rw [String.toUTF8_toList] <;> decide

theorem Codec.reader?_name {c : Codec} (hc : c.Readable) :
    Codec.reader? (Utf8.decodeLossy c.name.toUTF8.toList) = some c := by
  rw [Utf8.decodeLossy_toUTF8]
  rcases hc with rfl | rfl <;> rfl

namespace Frame

/-- Without compression a frame is the layout of the payload under the codec's name. -/
theorem frame_none {c : Codec} (hc : c.Readable) (cs : Compressors) (raw : List UInt8) :
    frame cs c.name .none raw = .ok (layout 0 c.name.toUTF8.toList raw.length raw) := by
  have hn := Codec.name_length hc
  simp only [frame, if_neg (show ¬ 255 < c.name.toUTF8.toList.length by omega), compress]
  rfl

/-- The layout of a payload under a readable codec's name decodes as the reader of that codec
takes the payload. -/
theorem decode_layout {cs : Compressors} {c : Codec} (hc : c.Readable) {raw : List UInt8}
    (hraw : raw.length < 2 ^ 32) {α : Type} (dec : Codec → List UInt8 → Option α) {x : α}
    (hx : dec c raw = some x) :
    decode cs (layout 0 c.name.toUTF8.toList raw.length raw) dec =
      .ok (⟨1, .none, c.name.toUTF8.toList, raw.length⟩, x) := by
  have h32 : (2 : Nat) ^ 32 = 256 ^ 4 := by norm_num
  rw [h32] at hraw
  have hu := @unwrap_layout cs 0 _ _ _ (Codec.name_length hc) hraw hraw
  have he : expand cs (Compression.ofCode (0 : UInt8).toNat) raw.length raw = some raw := rfl
  rw [he] at hu
  simp only [decode, hu, bind, Except.bind, Codec.reader?_name hc, hx, pure, Except.pure]
  rfl

end Frame

/-! ## Saving and loading -/

namespace Store.DocStore

/-- A store that writes what it reads back: no fault rules, a codec a frame can be read back in,
no compression, and a JSON library for that codec that reads back what it writes. -/
structure Readable (st : DocStore) : Prop where
  rules : st.blobs.rules = []
  codec : st.codec.Readable
  compression : st.compression = .none
  json : (st.codec.library st.json).ReadsBack

/-- The store after a frame is written under a name. -/
def written (st : DocStore) (name : String) (data : List UInt8) : DocStore :=
  { st with blobs := { st.blobs with
    data := insertByName name data st.blobs.data, puts := st.blobs.puts + 1 } }

/-- The frame a store writes for a document: its codec's name over the uncompressed payload. -/
def frameOf (st : DocStore) (doc : Value) : List UInt8 :=
  Frame.layout 0 st.codec.name.toUTF8.toList (st.codec.write st.json doc).length
    (st.codec.write st.json doc)

/-- Saving on a readable store writes the document's frame and nothing else. -/
theorem save_writes_frame {st : DocStore} (hst : st.Readable) (name : String) (doc : Value) :
    (save name doc).exec st = (.ok (), st.written name (st.frameOf doc)) := by
  have hp : ∀ data, (onBlobs (Blobs.put name data)).exec st = (.ok (), st.written name data) := by
    intro data
    simp [onBlobs, exec_zoom, Blobs.put_exec hst.rules, written]
  simp only [save, exec_bind, exec_get, hst.compression, Frame.frame_none hst.codec, putFrame,
    exec_retry_ok (hp _), frameOf]

/-- Loading a name whose blob is a frame that decodes gives the decoded value. -/
theorem load_exec_some (st : DocStore) (hr : st.blobs.rules = []) {name : String}
    {data : List UInt8} (hg : st.blobs.get? name = some data) {β : Type}
    {decode : Value → Option β} {h : Frame.Header} {v : β}
    (hd : Frame.decode st.compressors data (fun c raw => (c.read st.json raw).bind decode) =
      .ok (h, v)) :
    (load name decode).exec st = (.ok (some v), st) := by
  have hread : (onBlobs (Blobs.read name)).exec st = (.ok (some data), st) := by
    simp [onBlobs, exec_zoom, Blobs.read_exec hr, hg]
  simp only [load, exec_bind, exec_get, exec_retry_ok hread, hd]
  rfl

/-- The frame of a document loads back through any reader that takes the document, provided its
numbers are plain and its payload fits a frame's 32-bit lengths. -/
theorem load_written {st : DocStore} (hst : st.Readable) (name : String) {doc : Value}
    (hv : Value.PlainNumbers doc) (hlen : (st.codec.write st.json doc).length < 2 ^ 32) {β : Type}
    {decode : Value → Option β} {x : β} (hx : decode doc = some x) :
    (load name decode).exec (st.written name (st.frameOf doc)) =
      (.ok (some x), st.written name (st.frameOf doc)) := by
  have hg : (st.written name (st.frameOf doc)).blobs.get? name = some (st.frameOf doc) := by
    simp [written, Blobs.get?, lookup_insertByName]
  have hdec := @Frame.decode_layout st.compressors _ hst.codec _ hlen _
    (fun c raw => (c.read st.json raw).bind decode) x
    (by simp [Codec.read, Codec.write, hst.json doc hv, hx])
  exact load_exec_some (st.written name (st.frameOf doc)) hst.rules hg hdec

/-- A document saved on a readable store loads back. -/
theorem load_after_save {st : DocStore} (hst : st.Readable) (name : String) {doc : Value}
    (hv : Value.PlainNumbers doc) (hlen : (st.codec.write st.json doc).length < 2 ^ 32) {β : Type}
    {decode : Value → Option β} {x : β} (hx : decode doc = some x) :
    ((save name doc >>= fun _ => load name decode).exec st).1 = .ok (some x) := by
  rw [exec_bind_ok (save_writes_frame hst name doc), load_written hst name hv hlen hx]

end Store.DocStore

/-! ## Persisted actor state -/

/-- A queue saved on a readable store opens again with the records it held, and whether its
record list exists. -/
theorem Workflow.Queue.load_after_save {st : Store.DocStore} (hst : st.Readable)
    {q : Workflow.Queue} (hq : q.Storable) (hlen : (st.codec.write st.json q.toDoc).length < 2 ^ 32)
    (passive paused : Bool) :
    ((q.save >>= fun _ => Workflow.Queue.load q.id passive paused).exec st).1 =
      .ok { id := q.id, records := q.records, listed := q.listed, passive := passive,
            paused := paused } := by
  have hl := Store.DocStore.load_written hst q.name (Workflow.Queue.plainNumbers_toDoc hq) hlen
    (Workflow.Queue.ofDoc_toDoc hq)
  rw [Workflow.Queue.save, exec_bind_ok (Store.DocStore.save_writes_frame hst q.name q.toDoc)]
  simp only [Workflow.Queue.load, exec_bind, show QueueId.stateName q.id = q.name from rfl,
    exec_attempt_ok hl]
  rfl

/-- Persisted actor state reads back as it was saved, on a store that writes what it reads back:
every bucket state that updates and status changes reach, every workflow queue whose records
are well formed, and the state, active set and remembered queues of every entity record. -/
theorem persisted_state_reads_back {st : Store.DocStore} (hst : st.Readable) :
    (∀ (name : String) (s : Bucket.State), s.Reachable →
      (st.codec.write st.json s.toDoc).length < 2 ^ 32 →
      ((Store.DocStore.save name s.toDoc >>= fun _ =>
          Store.DocStore.load name Bucket.State.ofDoc).exec st).1 = .ok (some s)) ∧
    (∀ (q : Workflow.Queue) (passive paused : Bool), q.Storable →
      (st.codec.write st.json q.toDoc).length < 2 ^ 32 →
      ((q.save >>= fun _ => Workflow.Queue.load q.id passive paused).exec st).1 =
        .ok { id := q.id, records := q.records, listed := q.listed, passive := passive,
              paused := paused }) ∧
    (∀ (e : Cluster.Entity) (state : Cluster.Fields), e.Storable state →
      (st.codec.write st.json (e.recordDoc state)).length < 2 ^ 32 →
      ((Store.DocStore.save (Cluster.Entity.addr e.ref) (e.recordDoc state) >>= fun _ =>
          Store.DocStore.load (Cluster.Entity.addr e.ref) Cluster.Stored.ofDoc).exec st).1 =
        .ok (some ⟨state, e.active, e.queues⟩)) := by
  refine ⟨fun name s hs hlen => ?_, fun q passive paused hq hlen => ?_,
    fun e state he hlen => ?_⟩
  · have hst' := hs.storable
    exact Store.DocStore.load_after_save hst name (Bucket.State.plainNumbers_toDoc hst') hlen
      (Bucket.State.ofDoc_toDoc hst')
  · exact Workflow.Queue.load_after_save hst hq hlen passive paused
  · exact Store.DocStore.load_after_save hst _ (Cluster.Entity.plainNumbers_recordDoc e state) hlen
      (Cluster.Stored.ofDoc_recordDoc he)

/-- The default store writes what it reads back, and a bucket put under construction on it loads
back as it was. -/
theorem default_store_reads_back_bucket :
    ({} : Store.DocStore).Readable ∧
      ((Store.DocStore.save "bucket/0"
          (({} : Bucket.State).setStatus (Bucket.Status.ofCode 1)).2.toDoc >>= fun _ =>
        Store.DocStore.load "bucket/0" Bucket.State.ofDoc).exec {}).1 =
        .ok (some (({} : Bucket.State).setStatus (Bucket.Status.ofCode 1)).2) := by
  have hst : ({} : Store.DocStore).Readable :=
    ⟨rfl, .inl rfl, rfl, JsonLibraries.builtin_readsBack .fast⟩
  refine ⟨hst, (persisted_state_reads_back hst).1 "bucket/0" _ (.setStatus 1 .empty) ?_⟩
  simp only [Codec.write, Codec.library, JsonLibraries.builtin, String.toUTF8_toList]
  decide

/-- Strings hold valid UTF-8 here, and only such strings read back. A JSON library reads the
bytes of a string that are not UTF-8 as U+FFFD, as the `go-json` library of this library reads
the lone byte `0xFF`, and writes U+FFFD as its own three bytes: a string holding `0xFF` is
saved and loaded as another string. -/
theorem stray_byte_reads_back_as_replacement :
    JsonLibraries.builtin.goJson.read [34, 255, 34] = some (.string "\uFFFD") ∧
      JsonLibraries.builtin.goJson.write (.string "\uFFFD") = [34, 239, 191, 189, 34] :=
  ⟨rfl, by decide +kernel⟩

end EntityIndex
