import Chiralite.Server.Progress

/-!
# The client's side of a transfer

`SyncEngine.send_write` of `sync/engine.py`, with `_do_transfer`, `_prepare_payload` and
`_split_chunks`. The engine decides between a delta and the full content, cuts the payload into
chunks, sends `TRANSFER_BEGIN`, the chunks and `TRANSFER_COMMIT`, and waits for one answer. It
runs in a world of its own, of which it uses the connection, the clock and `uuid4`. A transfer
that runs alone finds the lock of its path free, so that the lock has no part here.

The two sides are written independently of each other. `sendWrite_delivers` puts them together
over a connection that keeps the order: what the client sends does not depend on what it will
receive, the server takes it for a transfer of the same content, and the answer of the server is
the one the client waits for.
-/

namespace Chiralite

open Py Posix Effect

/-! ### The payload -/

/-- `CHUNK_SIZE`. -/
def chunkSize : Nat := 262144

theorem chunkSize_pos : 0 < chunkSize := by decide

/-- `len(delta) / max(len(content), 1) <= DELTA_THRESHOLD`. The quotient is a float, rounded to
the nearest, and the threshold is the float `7205759403792794 / 2^53`. Its mantissa is even, so
that a quotient half way to the next float is rounded down to it and still passes. -/
def deltaFits (deltaLen contentLen : Nat) : Prop :=
  deltaLen * 2 ^ 54 ≤ (2 * 7205759403792794 + 1) * max contentLen 1

instance (deltaLen contentLen : Nat) : Decidable (deltaFits deltaLen contentLen) :=
  inferInstanceAs (Decidable (_ ≤ _))

/-- **A delta is applied** when it carries the magic and decodes to something. -/
theorem applyDelta_of_decode {X : XDelta} {old delta new : Bytes} (hmagic : vcdiffMagic <+: delta)
    (hdecode : X.decode old delta = .ok new) (hnew : new ≠ []) :
    applyDelta X old delta = .ok new := by
  obtain ⟨rest, rfl⟩ := hmagic
  have hne : vcdiffMagic ++ rest ≠ [] := by simp [vcdiffMagic]
  have htake : (vcdiffMagic ++ rest).take 3 = vcdiffMagic := rfl
  rw [applyDelta, if_neg hne, if_neg (not_not_intro htake), hdecode]
  exact if_neg hnew

/-- The entry of a full transfer. -/
def FileEntry.asFull (entry : FileEntry) : FileEntry :=
  { entry with isFull := true, deltaBaseRapidhash := none }

/-- The entry of a delta transfer. -/
def FileEntry.asDelta (entry : FileEntry) : FileEntry := { entry with isFull := false }

/-- `_prepare_payload`, or the text of an exception of `xdelta3` that is not `NoDeltaFound`. -/
def preparePayload (X : XDelta) (entry : FileEntry) (content : Bytes)
    (baseContent : Option Bytes) : Except Str (FileEntry × Bytes) :=
  match baseContent, entry.deltaBaseRapidhash with
  | some base, some _ =>
    match computeDelta X base content with
    | .ok delta =>
      -- a delta that saves too little is not worth the base
      if deltaFits delta.length content.length then .ok (entry.asDelta, delta)
      else .ok (entry.asFull, content)
    | .error .noDeltaFound => .ok (entry.asFull, content)
    | .error (.failed text) => .error text
  -- no base, or no hash to name it by
  | _, _ => .ok (entry.asFull, content)

/-- The loop of `_split_chunks`, from an offset. -/
def splitFrom (data : Bytes) (offset : Nat) : List Bytes :=
  if offset < data.length then
    (data.drop offset).take chunkSize :: splitFrom data (offset + chunkSize)
  else []
termination_by data.length - offset
decreasing_by
  have := chunkSize_pos
  omega

/-- `_split_chunks`. -/
def splitChunks (data : Bytes) : List Bytes := if data = [] then [[]] else splitFrom data 0

/-! ### The program -/

section Program

variable (E : Env)

/-- The chunks are sent, each with its place in the enumeration. -/
def sendChunks (tid : Uuid) : List (Bytes × Nat) → Io Unit
  | [] => pure ()
  | (chunk, seq) :: rest => do
    send E (.transferChunk ⟨tid, seq, chunk⟩)
    sendChunks tid rest

/-- The answer to a transfer. -/
def awaitAck (tid : Uuid) : Io Str := do
  match ← recv with
  | .transferAck m =>
    if m.transferId ≠ tid then
      Eff.raise (.transfer (lit "ACK for unexpected transfer_id " ++ uuidStr m.transferId))
    else pure m.scanResult
  | .transferNack m =>
    if m.transferId ≠ tid then
      Eff.raise (.transfer (lit "NACK for unexpected transfer_id " ++ uuidStr m.transferId))
    else Eff.raise (.transfer (lit "transfer rejected: " ++ m.reason))
  | m => Eff.raise (.transfer (lit "expected ACK/NACK, got " ++ m.typeName))

/-- `_do_transfer`. The constructors of the messages check their own fields once more, and the
fields always pass: they are lengths, places in a list, and the hash of an entry. -/
def doTransfer (entry : FileEntry) (payload : Bytes) : Io Str := do
  let w ← Eff.look
  -- `uuid4`
  let tid := E.uuid4 w.clock
  let chunks := splitChunks payload
  send E (.transferBegin ⟨tid, entry, payload.length, chunks.length⟩)
  sendChunks E tid chunks.zipIdx
  send E (.transferCommit ⟨tid, entry.rapidhash⟩)
  awaitAck tid

/-- `send_write`. -/
def sendWrite (entry : FileEntry) (content : Bytes) (baseContent : Option Bytes) : Io Str :=
  match preparePayload E.xdelta entry content baseContent with
  | .error text => Eff.raise (.other text)
  | .ok (wireEntry, payload) => doTransfer E wireEntry payload

end Program

/-! ### What `_prepare_payload` returns -/

/-- **What the engine relies on in `xdelta3`**: `encode` returns a delta or reports that there is
none, a delta decodes to what was encoded, and it starts with the VCDIFF magic. -/
structure XDelta.Lawful (X : XDelta) : Prop where
  encode_returns : ∀ old new text, X.encode old new ≠ .error (.failed text)
  decode_encode : ∀ old new delta, X.encode old new = .ok delta → X.decode old delta = .ok new
  magic : ∀ old new delta, X.encode old new = .ok delta → vcdiffMagic <+: delta

section Payload

variable {X : XDelta} {entry wireEntry : FileEntry} {content payload : Bytes}
  {baseContent : Option Bytes}

theorem preparePayload_ok
    (h : preparePayload X entry content baseContent = .ok (wireEntry, payload)) :
    (wireEntry = entry.asFull ∧ payload = content) ∨
      ∃ base baseRapidhash, baseContent = some base ∧
        entry.deltaBaseRapidhash = some baseRapidhash ∧ wireEntry = entry.asDelta ∧
        X.encode base content = .ok payload ∧ deltaFits payload.length content.length := by
  unfold preparePayload computeDelta at h
  split at h
  · rename_i base baseRapidhash hbase
    split at h
    · rename_i delta hencode
      split at h
      · rename_i hfits
        cases h
        exact Or.inr ⟨base, baseRapidhash, rfl, hbase, rfl, hencode, hfits⟩
      · cases h
        exact Or.inl ⟨rfl, rfl⟩
    · cases h
      exact Or.inl ⟨rfl, rfl⟩
    · cases h
  · cases h
    exact Or.inl ⟨rfl, rfl⟩

theorem preparePayload_returns (hX : X.Lawful) (entry : FileEntry) (content : Bytes)
    (baseContent : Option Bytes) :
    ∃ wireEntry payload, preparePayload X entry content baseContent = .ok (wireEntry, payload) := by
  unfold preparePayload computeDelta
  split
  · rename_i base baseRapidhash hbase
    split
    · split
      · exact ⟨_, _, rfl⟩
      · exact ⟨_, _, rfl⟩
    · exact ⟨_, _, rfl⟩
    · rename_i text hencode
      exact absurd hencode (hX.encode_returns base content text)
  · exact ⟨_, _, rfl⟩

/-- `model_copy` does not validate, but the copy that drops the base is valid again. -/
theorem FileEntry.Valid.asFull (h : entry.Valid) : entry.asFull.Valid where
  path := h.path
  rapidhash := h.rapidhash
  size := h.size
  mode := h.mode
  uidName := h.uidName
  gidName := h.gidName
  mtimeNs := h.mtimeNs
  symlinkTarget := h.symlinkTarget
  deltaBase _ hbase := by cases hbase
  symlinkConsistency := h.symlinkConsistency
  deltaConsistency := FileEntry.validateDeltaConsistency_ok_iff.mpr (iff_of_true rfl rfl)

/-- The copy that keeps the base is valid when there is one. -/
theorem FileEntry.Valid.asDelta (h : entry.Valid) {baseRapidhash : Int}
    (hbase : entry.deltaBaseRapidhash = some baseRapidhash) : entry.asDelta.Valid where
  path := h.path
  rapidhash := h.rapidhash
  size := h.size
  mode := h.mode
  uidName := h.uidName
  gidName := h.gidName
  mtimeNs := h.mtimeNs
  symlinkTarget := h.symlinkTarget
  deltaBase := h.deltaBase
  symlinkConsistency := h.symlinkConsistency
  deltaConsistency := by
    refine FileEntry.validateDeltaConsistency_ok_iff.mpr (iff_of_false Bool.false_ne_true ?_)
    show entry.deltaBaseRapidhash ≠ none
    rw [hbase]
    exact Option.some_ne_none _

theorem preparePayload_valid (hentry : entry.Valid)
    (h : preparePayload X entry content baseContent = .ok (wireEntry, payload)) :
    wireEntry.Valid := by
  rcases preparePayload_ok h with ⟨rfl, -⟩ | ⟨base, baseRapidhash, -, hbase, rfl, -⟩
  · exact hentry.asFull
  · exact hentry.asDelta hbase

/-- **No delta stands for the empty content.** The magic alone has three bytes, which is more than
the threshold leaves. -/
theorem content_ne_nil_of_deltaFits (hmagic : vcdiffMagic <+: payload)
    (hfits : deltaFits payload.length content.length) : content ≠ [] := by
  rintro rfl
  have hlen : 3 ≤ payload.length := hmagic.length_le
  unfold deltaFits at hfits
  rw [List.length_nil, Nat.zero_max] at hfits
  omega

end Payload

/-! ### Chunks -/

theorem flatten_splitFrom (data : Bytes) (offset : Nat) :
    (splitFrom data offset).flatten = data.drop offset := by
  fun_induction splitFrom data offset with
  | case1 offset hlt ih =>
    rw [List.flatten_cons, ih, ← List.drop_drop, List.take_append_drop]
  | case2 offset hge =>
    rw [List.drop_eq_nil_of_le (by omega), List.flatten_nil]

/-- The chunks are the data, cut. -/
theorem flatten_splitChunks (data : Bytes) : (splitChunks data).flatten = data := by
  unfold splitChunks
  split
  · rename_i hempty
    rw [hempty]
    rfl
  · exact flatten_splitFrom data 0

/-- There is a chunk even for the empty data. -/
theorem splitChunks_ne_nil (data : Bytes) : splitChunks data ≠ [] := by
  unfold splitChunks
  split
  · exact List.cons_ne_nil _ _
  · rename_i hne
    -- the first round of the loop is taken
    unfold splitFrom
    rw [if_pos (List.length_pos_iff.mpr hne)]
    exact List.cons_ne_nil _ _

/-- The messages of the chunks. -/
def chunkMessages (tid : Uuid) (chunks : List (Bytes × Nat)) : List TransferChunkMsg :=
  chunks.map fun c => ⟨tid, c.2, c.1⟩

/-- When no `seq` comes twice, the dictionary holds every chunk, in the order they came in. -/
theorem items_chunkDict {chunks : List TransferChunkMsg}
    (h : (chunks.map TransferChunkMsg.seq).Nodup) :
    (chunkDict chunks).items = chunks.map fun m => (m.seq, m.data) := by
  have hkeys : ((chunks.map fun m => (m.seq, m.data)).map Prod.fst).Nodup := by
    rw [List.map_map]
    exact h
  have hfold : ((chunks.map fun m => (m.seq, m.data)).foldl (fun d kv => d.set kv.1 kv.2)
      (Dict.empty : Dict Int Bytes)).items = chunks.map fun m => (m.seq, m.data) :=
    Dict.items_foldl_set _ Dict.empty hkeys
  rw [List.foldl_map] at hfold
  exact hfold

theorem get?_chunkDict {chunks : List TransferChunkMsg}
    (h : (chunks.map TransferChunkMsg.seq).Nodup) {m : TransferChunkMsg} (hm : m ∈ chunks) :
    ((chunkDict chunks).get? m.seq).getD [] = m.data := by
  have hmem : (m.seq, m.data) ∈ (chunkDict chunks).items := by
    rw [items_chunkDict h]
    exact List.mem_map_of_mem hm
  rw [(Dict.mem_items_iff _).mp hmem, Option.getD_some]

/-- Chunks that come in the order of their `seq` are joined in the order in which they come. -/
theorem joinChunks_of_sorted {chunks : List TransferChunkMsg}
    (h : (chunks.map TransferChunkMsg.seq).Pairwise (· < ·)) :
    joinChunks (chunkDict chunks) = (chunks.map TransferChunkMsg.data).flatten := by
  have hnodup : (chunks.map TransferChunkMsg.seq).Nodup := h.imp ne_of_lt
  -- sorting the keys does not move them
  have hsort : ((chunkDict chunks).items.map Prod.fst).insertionSort (· ≤ ·) =
      chunks.map TransferChunkMsg.seq := by
    rw [items_chunkDict hnodup, List.map_map]
    exact List.Pairwise.insertionSort_eq (h.imp le_of_lt)
  rw [joinChunks, hsort, List.flatMap_map, List.flatMap_def]
  exact congrArg List.flatten (List.map_congr_left fun m hm => get?_chunkDict hnodup hm)

/-- **Reassembly.** The chunks of an enumeration are joined to what was cut. -/
theorem joinChunks_chunkMessages (tid : Uuid) (chunks : List Bytes) :
    joinChunks (chunkDict (chunkMessages tid chunks.zipIdx)) = chunks.flatten := by
  have hseq : (chunkMessages tid chunks.zipIdx).map TransferChunkMsg.seq =
      (List.range' 0 chunks.length).map Int.ofNat := by
    rw [← List.zipIdx_map_snd, chunkMessages, List.map_map, List.map_map]
    rfl
  have hdata : (chunkMessages tid chunks.zipIdx).map TransferChunkMsg.data = chunks := by
    rw [chunkMessages, List.map_map]
    exact List.zipIdx_map_fst 0 chunks
  rw [joinChunks_of_sorted, hdata]
  rw [hseq, List.pairwise_map]
  exact (List.pairwise_lt_range' 1).imp fun hlt => Int.ofNat_lt.mpr hlt

/-! ### The messages that go out -/

/-- The `TRANSFER_BEGIN` of a transfer. -/
def beginMessage (tid : Uuid) (entry : FileEntry) (payload : Bytes) : TransferBeginMsg :=
  ⟨tid, entry, payload.length, (splitChunks payload).length⟩

/-- What follows it. -/
def restMessages (tid : Uuid) (entry : FileEntry) (payload : Bytes) : List AnyMsg :=
  (chunkMessages tid (splitChunks payload).zipIdx).map .transferChunk ++
    [.transferCommit ⟨tid, entry.rapidhash⟩]

/-- **A `TRANSFER_BEGIN` that the wire accepts**, for a payload: it passes every validator, of
which the two that `_prepare_payload` and `_split_chunks` could miss are named, and it announces
the length of the payload. -/
structure WireBegin (begin : TransferBeginMsg) (payload : Bytes) : Prop where
  valid : begin.Valid
  full_iff : begin.entry.isFull = true ↔ begin.entry.deltaBaseRapidhash = none
  chunkCount : 1 ≤ begin.chunkCount
  totalSize : begin.totalSize = payload.length

theorem wireBegin_beginMessage (tid : Uuid) {entry : FileEntry} (hentry : entry.Valid)
    (payload : Bytes) : WireBegin (beginMessage tid entry payload) payload := by
  have hcount : 1 ≤ (beginMessage tid entry payload).chunkCount := by
    have hpos := List.length_pos_iff.mpr (splitChunks_ne_nil payload)
    show (1 : Int) ≤ ((splitChunks payload).length : Int)
    omega
  have hsize : FileSizeInt (beginMessage tid entry payload).totalSize := Int.natCast_nonneg _
  exact ⟨⟨hentry, hsize, hcount⟩,
    FileEntry.validateDeltaConsistency_ok_iff.mp hentry.deltaConsistency, hcount, rfl⟩

theorem valid_of_mem_restMessages {tid : Uuid} {entry : FileEntry} (hentry : entry.Valid)
    (payload : Bytes) : ∀ m ∈ restMessages tid entry payload, m.Valid := by
  intro m hm
  rcases List.mem_append.mp hm with hm | hm
  -- a chunk: its `seq` is a place in a list
  · obtain ⟨chunk, hchunk, rfl⟩ := List.mem_map.mp hm
    obtain ⟨c, -, rfl⟩ := List.mem_map.mp hchunk
    exact Int.natCast_nonneg _
  · rw [List.mem_singleton.mp hm]
    exact hentry.rapidhash

/-! ### Whatever goes wrong -/

/-- The frame of what sends a `TRANSFER_BEGIN` only if it has a property. -/
def beginFrame (P : TransferBeginMsg → Prop) : Frame World Event Exc where
  change _ _ := True
  refl _ := trivial
  trans _ _ _ _ _ := trivial
  event o := ∀ begin, o = .sent (.transferBegin begin) → P begin
  exception _ := True

section Begin

variable {E : Env} {P : TransferBeginMsg → Prop}

theorem beginFrame_send {m : AnyMsg} (h : ∀ begin, m = .transferBegin begin → P begin) :
    (beginFrame P).Allows (send E m) := by
  intro w evs v w' hrun
  obtain ⟨-, ⟨e, -, rfl⟩ | ⟨-, rfl⟩⟩ := send_inv hrun
  · exact ⟨trivial, by simp, fun _ _ => trivial⟩
  · refine ⟨trivial, fun o ho begin heq => h begin ?_, fun _ _ => trivial⟩
    rw [List.mem_singleton.mp ho] at heq
    exact Event.sent.inj heq

theorem beginFrame_sendChunks (tid : Uuid) (chunks : List (Bytes × Nat)) :
    (beginFrame P).Allows (sendChunks E tid chunks) := by
  induction chunks with
  | nil => exact Frame.allows_pure ()
  | cons chunk rest ih => exact (beginFrame_send (by simp)).bind fun _ => ih

/-- The wait for the answer is quiet. -/
theorem quietFrame_awaitAck (tid : Uuid) : quietFrame.Allows (awaitAck tid) := by
  refine quietFrame_recv.bind fun m => ?_
  split
  · split
    · exact Frame.allows_raise trivial
    · exact Frame.allows_pure _
  · split
    · exact Frame.allows_raise trivial
    · exact Frame.allows_raise trivial
  · exact Frame.allows_raise trivial

theorem beginFrame_awaitAck (tid : Uuid) : (beginFrame P).Allows (awaitAck tid) := by
  refine (quietFrame_awaitAck tid).mono (fun _ _ _ => trivial) ?_ fun _ _ => trivial
  rintro o hquiet begin rfl
  cases hquiet

theorem beginFrame_doTransfer {entry : FileEntry} {payload : Bytes}
    (h : ∀ tid, P (beginMessage tid entry payload)) :
    (beginFrame P).Allows (doTransfer E entry payload) := by
  refine Frame.Allows.look fun w => (beginFrame_send ?_).bind fun _ =>
    (beginFrame_sendChunks _ _).bind fun _ => (beginFrame_send (by simp)).bind fun _ =>
      beginFrame_awaitAck _
  rintro begin ⟨⟩
  exact h _

/-- **Every `TRANSFER_BEGIN` that gets out is one the wire accepts**, also in a run that fails. -/
theorem sendWrite_begin {entry : FileEntry} (hentry : entry.Valid) {content : Bytes}
    {baseContent : Option Bytes} :
    (beginFrame fun begin => ∃ payload, preparePayload E.xdelta entry content baseContent =
      .ok (begin.entry, payload) ∧ WireBegin begin payload).Allows
        (sendWrite E entry content baseContent) := by
  unfold sendWrite
  split
  -- `xdelta3` failed: nothing was sent
  · exact Frame.allows_raise trivial
  · rename_i wireEntry payload hprepare
    refine beginFrame_doTransfer fun tid => ⟨payload, hprepare, ?_⟩
    exact wireBegin_beginMessage tid (preparePayload_valid hentry hprepare) payload

end Begin

/-! ### Nothing goes wrong -/

theorem sends_map_sent (ms : List AnyMsg) : sends (ms.map Event.sent) = ms := by
  induction ms with
  | nil => rfl
  | cons m ms ih =>
    rw [List.map_cons]
    exact congrArg (m :: ·) ih

section Sending

variable {E : Env} {w : World}

theorem sendChunks_runs (hE : E.NoFaults) (tid : Uuid) (chunks : List (Bytes × Nat)) (w : World) :
    ∃ w', Runs (sendChunks E tid chunks) w
      (((chunkMessages tid chunks).map AnyMsg.transferChunk).map Event.sent) (.ok ()) w' ∧
      w'.inbox = w.inbox := by
  induction chunks generalizing w with
  | nil => exact ⟨w, rfl, rfl⟩
  | cons chunk rest ih =>
    obtain ⟨w', hrest, hinbox⟩ := ih w.tick
    exact ⟨w', (send_runs hE _).bind hrest, hinbox⟩

/-- All messages go out, and then the answer is awaited with the connection as it was. -/
theorem doTransfer_runs (hE : E.NoFaults) (entry : FileEntry) (payload : Bytes) (w : World) :
    ∃ w₁, w₁.inbox = w.inbox ∧ ∀ evs v w', Runs (awaitAck (E.uuid4 w.clock)) w₁ evs v w' →
      Runs (doTransfer E entry payload) w
        ((.transferBegin (beginMessage (E.uuid4 w.clock) entry payload) ::
          restMessages (E.uuid4 w.clock) entry payload).map Event.sent ++ evs) v w' := by
  obtain ⟨w₁, hchunks, hinbox⟩ :=
    sendChunks_runs hE (E.uuid4 w.clock) (splitChunks payload).zipIdx w.tick
  refine ⟨w₁.tick, hinbox, fun evs v w' hawait => ?_⟩
  rw [restMessages, List.map_cons, List.map_append, List.cons_append, List.append_assoc]
  exact Runs.look_bind ((send_runs hE _).bind (hchunks.bind ((send_runs hE _).bind hawait)))

theorem awaitAck_runs {tid : Uuid} {text : Str} {valid : AnyMsg.Valid (.transferAck ⟨tid, text⟩)}
    {rest : List Incoming} (h : w.inbox = .message (.transferAck ⟨tid, text⟩) valid :: rest) :
    Runs (awaitAck tid) w [.received (.transferAck ⟨tid, text⟩)] (.ok text)
      { w with inbox := rest } := by
  rw [← List.append_nil [Event.received _]]
  refine (recv_runs h).bind ?_
  dsimp only
  rw [if_neg (not_not_intro rfl)]
  rfl

end Sending

/-! ### Both sides -/

/-- **A server that takes the content.** Its calls return, the entry carries the hash of the
content, the scanner finds the content clean, the owner names are accepted, the time of the entry
fits the platform, and the jail takes the path to a place that can be written. -/
structure Receives (S : Service) (t : Tree) (entry : FileEntry) (content : Bytes)
    (dest : Location) : Prop where
  noFaults : S.env.NoFaults
  rapidhash : entry.rapidhash = rapidhash content
  clean : ScansClean S content
  owner : OwnerAccepted S entry
  time : TimeFits entry.mtimeTotalNs
  resolved : S.session.jail.resolve t S.env.fuel S.env.lstatError entry.path = some (.ok dest)
  writable : Writable S.env t dest

/-- The first live record with the hash names a file with these bytes. -/
def HoldsBase (S : Service) (t : Tree) (baseRapidhash : Int) (base : Bytes) : Prop :=
  ∃ path record p f, findBase S.index.records baseRapidhash = some (path, record) ∧
    S.session.jail.resolve t S.env.fuel S.env.lstatError path = some (.ok p) ∧
    t.node p = some (.file f) ∧
    f.content = base

/-- **On the delta path**, the server has the base that the client has encoded against. -/
def BaseShared (X : XDelta) (S : Service) (t : Tree) (entry : FileEntry) (content : Bytes)
    (baseContent : Option Bytes) : Prop :=
  ∀ wireEntry delta base baseRapidhash,
    preparePayload X entry content baseContent = .ok (wireEntry, delta) →
    wireEntry.isFull = false → baseContent = some base →
    entry.deltaBaseRapidhash = some baseRapidhash → HoldsBase S t baseRapidhash base

section Delivery

variable {S : Service} {t : Tree} {entry wireEntry : FileEntry} {content payload : Bytes}
  {baseContent : Option Bytes} {dest : Location}

/-- What the client prepared, the server takes for the content. -/
theorem reconstructed_of_preparePayload (hX : S.env.xdelta.Lawful)
    (hbase : BaseShared S.env.xdelta S t entry content baseContent)
    (h : preparePayload S.env.xdelta entry content baseContent = .ok (wireEntry, payload)) :
    Reconstructed S t wireEntry payload content := by
  rcases preparePayload_ok h with ⟨rfl, rfl⟩ |
    ⟨base, baseRapidhash, hsome, hhash, rfl, hencode, hfits⟩
  · exact Or.inl ⟨rfl, rfl⟩
  · obtain ⟨path, record, p, f, hfind, hp, hf, hcontent⟩ := hbase _ _ _ _ h rfl hsome hhash
    refine Or.inr ⟨rfl, baseRapidhash, path, record, p, f, hhash, hfind, hp, hf, ?_⟩
    have hmagic := hX.magic _ _ _ hencode
    -- `apply_delta` refuses an empty output, and the threshold has kept that case away
    rw [hcontent]
    exact applyDelta_of_decode hmagic (hX.decode_encode _ _ _ hencode)
      (content_ne_nil_of_deltaFits hmagic hfits)

theorem Receives.of_preparePayload {X : XDelta} (h : Receives S t entry content dest)
    (hprepare : preparePayload X entry content baseContent = .ok (wireEntry, payload)) :
    Receives S t wireEntry content dest := by
  rcases preparePayload_ok hprepare with ⟨rfl, -⟩ | ⟨base, baseRapidhash, -, -, rfl, -⟩
  · exact ⟨h.noFaults, h.rapidhash, h.clean, ⟨h.owner.1, h.owner.2, h.owner.3, h.owner.4⟩,
      h.time, h.resolved, h.writable⟩
  · exact ⟨h.noFaults, h.rapidhash, h.clean, ⟨h.owner.1, h.owner.2, h.owner.3, h.owner.4⟩,
      h.time, h.resolved, h.writable⟩

/-- The server on the messages of a transfer. -/
theorem handleTransfer_of_messages (h : Receives S t wireEntry content dest)
    (hentry : wireEntry.Valid) (hcontent : Reconstructed S t wireEntry payload content)
    (tid : Uuid) {w : World} (hw : w.fs = t)
    (hinbox : w.inbox = deliver (restMessages tid wireEntry payload)
      (valid_of_mem_restMessages hentry payload)) :
    ∃ evs w' f, Runs (handleTransfer S (beginMessage tid wireEntry payload)) w evs (.ok ()) w' ∧
      sends evs = [.transferAck ⟨tid, lit "CLEAN"⟩] ∧
      w'.fs.file dest = some f ∧ f.content = content := by
  subst hw
  -- the chunks are as many as announced, of this transfer, and join to the payload
  have hjoin :
      joinChunks (chunkDict (chunkMessages tid (splitChunks payload).zipIdx)) = payload := by
    rw [joinChunks_chunkMessages, flatten_splitChunks]
  have hcount : (beginMessage tid wireEntry payload).chunkCount =
      (chunkMessages tid (splitChunks payload).zipIdx).length := by
    rw [chunkMessages, List.length_map, List.length_zipIdx]
    rfl
  have hids : ∀ m ∈ chunkMessages tid (splitChunks payload).zipIdx, m.transferId = tid := by
    intro m hm
    obtain ⟨c, -, rfl⟩ := List.mem_map.mp hm
    rfl
  obtain ⟨evs, w', f, hrun, hsends, hfile, hf, -⟩ := handleTransfer_runs h.noFaults
    (wireBegin_beginMessage tid hentry payload).valid hcount hids rfl
    (valid_of_mem_restMessages hentry payload) hinbox (by rw [hjoin]; exact hcontent)
    h.rapidhash.symm h.clean h.owner h.time h.resolved h.writable
  exact ⟨evs, w', f, hrun, hsends, hfile, hf⟩

end Delivery

/-- **End to end.** For every content, base and valid entry: whatever happens, a `TRANSFER_BEGIN`
that `send_write` gets out is one the wire accepts; and where nothing fails, `send_write` and
`_handle_transfer` agree. The client sends the same messages whatever it is answered, the server
answers them with one ACK of this transfer and has the content at the place of the path, and
`send_write` returns with what that ACK says. -/
theorem sendWrite_delivers (C : Env) (entry : FileEntry) (content : Bytes)
    (baseContent : Option Bytes) (hentry : entry.Valid) :
    (∀ c evs v c' begin, Runs (sendWrite C entry content baseContent) c evs v c' →
      Event.sent (.transferBegin begin) ∈ evs →
      ∃ payload, preparePayload C.xdelta entry content baseContent = .ok (begin.entry, payload) ∧
        WireBegin begin payload) ∧
    ∀ (S : Service) (c w : World) (dest : Location), C.NoFaults → C.xdelta = S.env.xdelta →
      C.xdelta.Lawful → Receives S w.fs entry content dest →
      BaseShared C.xdelta S w.fs entry content baseContent →
      ∃ begin rest ack hrest hack,
        (∀ replies, sends (sendWrite C entry content baseContent { c with inbox := replies }).events
          = .transferBegin begin :: rest) ∧
        (∃ evs w' f, Runs (handleTransfer S begin) { w with inbox := deliver rest hrest } evs
            (.ok ()) w' ∧ sends evs = [.transferAck ack] ∧
          w'.fs.file dest = some f ∧ f.content = content) ∧
        ack.transferId = begin.transferId ∧
        ∃ evs c', Runs (sendWrite C entry content baseContent)
          { c with inbox := deliver [.transferAck ack] hack } evs (.ok ack.scanResult) c' := by
  refine ⟨fun c evs v c' begin hrun hsent => ?_, fun S c w dest hC hsame hX hreceives hbase => ?_⟩
  · obtain ⟨-, hevents, -⟩ := sendWrite_begin hentry c evs v c' hrun
    exact hevents _ hsent begin rfl
  -- the payload is the same in every run, and so are the messages
  obtain ⟨wireEntry, payload, hprepare⟩ := preparePayload_returns hX entry content baseContent
  have hwire : wireEntry.Valid := preparePayload_valid hentry hprepare
  have hsend : sendWrite C entry content baseContent = doTransfer C wireEntry payload := by
    rw [sendWrite, hprepare]
  rw [hsend]
  have hcontent : Reconstructed S w.fs wireEntry payload content := by
    rw [hsame] at hX hbase hprepare
    exact reconstructed_of_preparePayload hX hbase hprepare
  refine ⟨beginMessage (C.uuid4 c.clock) wireEntry payload,
    restMessages (C.uuid4 c.clock) wireEntry payload, ⟨C.uuid4 c.clock, lit "CLEAN"⟩,
    valid_of_mem_restMessages hwire payload, fun m hm => ?_, fun replies => ?_, ?_, rfl, ?_⟩
  · rw [List.mem_singleton.mp hm]
    trivial
  · -- the answer comes after the last message
    obtain ⟨w₁, -, hrun⟩ := doTransfer_runs hC wireEntry payload { c with inbox := replies }
    have hawait := runs_self (awaitAck (C.uuid4 c.clock)) w₁
    have hquiet := (quietFrame_awaitAck _ _ _ _ _ hawait).2.1
    rw [show doTransfer C wireEntry payload { c with inbox := replies } = _ from
      hrun _ _ _ hawait, sends_append, sends_map_sent, sends_eq_nil hquiet, List.append_nil]
  · exact handleTransfer_of_messages (hreceives.of_preparePayload hprepare) hwire hcontent _ rfl rfl
  · obtain ⟨w₁, hinbox, hrun⟩ := doTransfer_runs hC wireEntry payload
      { c with inbox := deliver [.transferAck ⟨C.uuid4 c.clock, lit "CLEAN"⟩] _ }
    exact ⟨_, _, hrun _ _ _ (awaitAck_runs hinbox)⟩

/-! ### A line added to a file

The client has a file of 64 bytes, adds one, and sends the change as a delta against the file that
the server has under the same path. -/

namespace Sample

/-- The file that both sides have. -/
def base : Bytes := (List.range 64).map UInt8.ofNat

/-- The file with one byte more. -/
def content : Bytes := base ++ [0x21]

/-- The change as a VCDIFF stream: one window that copies the 64 bytes of the source and adds
one. -/
def delta : Bytes :=
  [0xd6, 0xc3, 0xc4, 0x00, 0x00, 0x01, 0x40, 0x00, 0x0a, 0x41, 0x00, 0x01, 0x03, 0x01, 0x21, 0x13,
    0x40, 0x02, 0x00]

/-- `xdelta3` on this one change. -/
def xdelta : XDelta where
  encode old new :=
    if old = base ∧ new = content then .ok delta else .error .noDeltaFound
  decode old d :=
    if old = base ∧ d = delta then .ok content else .error (lit "cannot decode")

theorem xdelta_encode_ok {old new d : Bytes} (h : xdelta.encode old new = .ok d) :
    old = base ∧ new = content ∧ d = delta := by
  simp only [xdelta] at h
  split at h
  · rename_i hboth
    cases h
    exact ⟨hboth.1, hboth.2, rfl⟩
  · cases h

theorem xdelta_lawful : xdelta.Lawful where
  encode_returns old new text h := by
    simp only [xdelta] at h
    split at h
    · cases h
    · cases h
  decode_encode old new d h := by
    obtain ⟨rfl, rfl, rfl⟩ := xdelta_encode_ok h
    simp [xdelta]
  magic old new d h := by
    obtain ⟨-, -, rfl⟩ := xdelta_encode_ok h
    decide

/-- A system with one user, on which nothing fails and every time is kept. -/
def env : Env where
  fuel := 8
  reprStr s := lit "'" ++ s ++ lit "'"
  osText _ p := pathText p
  accounts :=
    { getpwnam := fun name => if name = lit "alice" then some 1000 else none
      getgrnam := fun name => if name = lit "users" then some 100 else none }
  xdelta := xdelta
  lstatError _ := none
  mkdirError _ := none
  storedNs ns := ns
  fault _ := none
  written _ := 0
  uuid4 k := Fin.ofNat (2 ^ 128) k
  newFile := fun _ => ⟨[], 0o644, 0, 0, 0⟩
  clamd := none

/-- `/srv/notes`, with the bytes of the base. -/
def tree : Tree :=
  PathJail.srvTree.insert [lit "srv", lit "notes"] (.file ⟨base, 0o644, 1000, 100, 0⟩) (by decide)
    (by decide) (by decide)

def world : World := ⟨tree, [], 0⟩

/-- The server's record of the base. -/
def record : FileRecord where
  rapidhash := rapidhash base
  size := 64
  mtimeS := 0
  mtimeNs := 0
  recvTsNs := 0
  mode := 0o644
  uidName := lit "alice"
  gidName := lit "users"

def service : Service where
  env := env
  session :=
    { siloId := 1
      clientCn := lit "laptop"
      jail := ⟨[lit "srv"]⟩
      allowedOps := [.read, .write, .delete, .rename]
      uidPolicy := { default := lit "alice" }
      gidPolicy := { default := lit "users" } }
  index := ⟨1, lit "server", Dict.empty.set (lit "notes") record⟩

def entry : FileEntry where
  path := lit "notes"
  rapidhash := rapidhash content
  size := 65
  mode := 0o644
  uidName := lit "alice"
  gidName := lit "users"
  mtimeS := 1700000000
  mtimeNs := 0
  isFull := false
  deltaBaseRapidhash := some (rapidhash base)

theorem entry_valid : entry.Valid where
  path := by decide
  rapidhash := rapidHashInt_rapidhash content 0
  size := by decide
  mode := by decide
  uidName := by decide
  gidName := by decide
  mtimeNs := by decide
  symlinkTarget := rfl
  deltaBase hash h := by
    cases h
    exact rapidHashInt_rapidhash base 0
  symlinkConsistency := by decide
  deltaConsistency := rfl

theorem receives : Receives service tree entry content [lit "srv", lit "notes"] where
  noFaults _ := rfl
  rapidhash := rfl
  clean clamd h := by cases h
  owner := ⟨⟨1000, by decide⟩, ⟨100, by decide⟩, ⟨1000, by decide⟩, ⟨100, by decide⟩⟩
  time := by decide
  resolved := by decide
  writable :=
    { ne_root := by decide
      parents := by
        intro q hq
        rcases List.prefix_concat_iff.mp (show q <+: [] ++ [lit "srv"] from hq) with rfl | hq
        · exact Or.inr (by decide)
        · rw [List.prefix_nil.mp hq]
          exact Or.inr (by decide)
      grants _ _ _ := rfl
      notDir := by decide
      fresh := by
        intro k
        -- a temporary name begins with a dot
        have hname : tmpName (service.env.uuid4 k) ≠ lit "notes" := by
          intro h
          have hhead : some (ofChar '.') = (lit "notes").head? := congrArg List.head? h
          revert hhead
          decide
        have hnode : tree.node [lit "srv", tmpName (service.env.uuid4 k)] = none := by
          simp [tree, PathJail.srvTree, Tree.node_insert, Tree.empty, hname]
        exact hnode }

theorem preparePayload_eq :
    preparePayload xdelta entry content (some base) = .ok (entry.asDelta, delta) := by
  have hencode : xdelta.encode base content = .ok delta := by simp [xdelta]
  have hfits : deltaFits delta.length content.length := by decide
  simp only [preparePayload, computeDelta, entry, hencode]
  exact if_pos hfits

theorem baseShared : BaseShared xdelta service tree entry content (some base) := by
  rintro wireEntry d base' hash - - ⟨⟩ ⟨⟩
  refine ⟨lit "notes", record, [lit "srv", lit "notes"], ⟨base, 0o644, 1000, 100, 0⟩, ?_, by decide,
    ?_, rfl⟩
  · exact List.find?_cons_of_pos (by simp [record])
  · rfl

/-- The change goes as a delta, and arrives. -/
theorem sample_delivered :
    entry.Valid ∧ Receives service tree entry content [lit "srv", lit "notes"] ∧
      preparePayload xdelta entry content (some base) = .ok (entry.asDelta, delta) ∧
      ∃ begin rest ack hrest hack,
        (∀ replies, sends (sendWrite env entry content (some base)
          { world with inbox := replies }).events = .transferBegin begin :: rest) ∧
        (∃ evs w' f, Runs (handleTransfer service begin) { world with inbox := deliver rest hrest }
            evs (.ok ()) w' ∧ sends evs = [.transferAck ack] ∧
          w'.fs.file [lit "srv", lit "notes"] = some f ∧ f.content = content) ∧
        ack.transferId = begin.transferId ∧
        ∃ evs c', Runs (sendWrite env entry content (some base))
          { world with inbox := deliver [.transferAck ack] hack } evs (.ok ack.scanResult) c' :=
  ⟨entry_valid, receives, preparePayload_eq,
    (sendWrite_delivers env entry content (some base) entry_valid).2 service world world _
      (fun _ => rfl) rfl xdelta_lawful receives baseShared⟩

end Sample

end Chiralite
