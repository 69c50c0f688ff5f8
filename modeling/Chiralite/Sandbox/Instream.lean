import Chiralite.Framework.Chunked
import Chiralite.Sandbox.Clamav

/-!
# The bytes of a scan

What `ClamdClient._scan` of `sandbox/clamav.py` writes to its daemon: the command `zINSTREAM`, the
content in chunks of at most 64 KiB, each behind its length in four bytes, and four zero bytes. On
the other side is `FakeClamd`, the daemon of `tests/test_sandbox.py`, which reads such a stream.

`scan_lossless` says that the loop ends and that the stream has one reading, which is the content,
whatever bytes are in it: a zero word of the content lies inside a chunk, where no length is looked
for, and since no chunk is empty, the first length zero is the one that was written last. So what a
daemon finds, it finds in the content that was to be scanned (`scan_approves_iff`).
-/

namespace Chiralite
namespace Instream

open Py

/-- `b"zINSTREAM\x00"`. -/
def command : Bytes := (lit "zINSTREAM").map (fun c => UInt8.ofNat c.val) ++ [0]

/-- `b"zPING\x00"`. -/
def pingCommand : Bytes := (lit "zPING").map (fun c => UInt8.ofNat c.val) ++ [0]

/-! ### The client -/

/-- `_CHUNK_SIZE`. -/
def chunkSize : Nat := 65536

/-- `struct.pack(">I", n)`, `none` where it raises `struct.error`. -/
def pack (n : Nat) : Option Bytes := if n < 2 ^ 32 then some (BigEndian.toBytes 4 n) else none

/-- `data[start : stop]`. -/
def slice (data : Bytes) (start stop : Nat) : Bytes := (data.drop start).take (stop - start)

/-- Where the writing of a stream stands. -/
inductive Writing where
  /-- The loop has not come to its end. -/
  | unfinished
  /-- `struct.error`. -/
  | raised
  /-- The arguments of `writer.write`, one after the other. -/
  | done (writes : List Bytes)
  deriving DecidableEq

/-- The loop of `_scan`, behind what has been written. -/
def writeChunks (data : Bytes) : Nat → Nat → List Bytes → Writing
  | 0, _, _ => .unfinished
  | fuel + 1, offset, writes =>
    if offset < data.length then
      let chunk := slice data offset (offset + chunkSize)
      (pack chunk.length).elim .raised fun size =>
        writeChunks data fuel (offset + chunk.length) (writes ++ [size, chunk])
    else .done writes

/-- What `_scan` writes, when its loop may go round less than `fuel` times. -/
def scanWrites (fuel : Nat) (data : Bytes) : Writing :=
  match writeChunks data fuel 0 [command] with
  | .done writes => .done (writes ++ [[0, 0, 0, 0]])
  | .unfinished => .unfinished
  | .raised => .raised

/-! ### The daemon -/

/-- `readuntil(b"\x00")`. -/
def readUntilNul : Bytes → Option (Bytes × Bytes)
  | [] => none
  | b :: stream =>
    if b = 0 then some ([b], stream)
    else (readUntilNul stream).map fun (cmd, rest) => (b :: cmd, rest)

/-- What becomes of a connection. -/
inductive Served where
  | pong
  /-- `received_data`, and what has not been read. -/
  | scanned (receivedData rest : Bytes)
  /-- An unknown command. -/
  | ignored
  /-- `IncompleteReadError`. -/
  | incomplete
  deriving DecidableEq

/-- `_FakeClamd._handle`. -/
def FakeClamd.handle (input : Bytes) : Served :=
  match readUntilNul input with
  | none => .incomplete
  | some (cmd, stream) =>
    if cmd = pingCommand then .pong
    else if cmd = command then
      match Chunked.read 4 (stream.length + 1) stream with
      | none => .incomplete
      | some (chunks, rest) => .scanned chunks.flatten rest
    else .ignored

/-! ### The loop -/

section Loop

variable {data : Bytes}

theorem length_slice_le (data : Bytes) (offset : Nat) :
    (slice data offset (offset + chunkSize)).length ≤ chunkSize := by
  have h : (slice data offset (offset + chunkSize)).length ≤ offset + chunkSize - offset :=
    List.length_take_le _ _
  omega

theorem length_slice_pos {offset : Nat} (h : offset < data.length) :
    0 < (slice data offset (offset + chunkSize)).length := by
  rw [slice, List.length_take, List.length_drop]
  unfold chunkSize
  omega

/-- A chunk, and what is left behind it. -/
theorem slice_append_drop (data : Bytes) (offset stop : Nat) :
    slice data offset stop ++ data.drop (offset + (slice data offset stop).length) =
      data.drop offset := by
  rw [← List.drop_drop]
  exact List.prefix_iff_eq_append.mp (List.take_prefix _ _)

/-- The length of a chunk can be packed. -/
theorem pack_length {chunk : Bytes} (h : chunk.length ≤ chunkSize) :
    pack chunk.length = some (BigEndian.toBytes 4 chunk.length) := by
  refine if_pos (h.trans_lt ?_)
  decide

/-- A round of the loop. -/
theorem writeChunks_of_lt {offset : Nat} (h : offset < data.length) (fuel : Nat)
    (writes : List Bytes) :
    let chunk := slice data offset (offset + chunkSize)
    writeChunks data (fuel + 1) offset writes = writeChunks data fuel (offset + chunk.length)
      (writes ++ [BigEndian.toBytes 4 chunk.length, chunk]) := by
  intro chunk
  rw [writeChunks, if_pos h]
  exact congrArg (Option.elim · _ _) (pack_length (length_slice_le data offset))

/-- The end of the loop. -/
theorem writeChunks_of_le {offset : Nat} (h : data.length ≤ offset) (fuel : Nat)
    (writes : List Bytes) : writeChunks data (fuel + 1) offset writes = .done writes := by
  rw [writeChunks, if_neg (Nat.not_lt.mpr h)]

/-- The writes of some rounds of the loop. -/
def writesOf (chunks : List Bytes) : List Bytes :=
  chunks.flatMap fun c => [BigEndian.toBytes 4 c.length, c]

/-- **The loop ends**, and has written the content from the offset on in chunks of the right
sizes. -/
theorem exists_chunks (data : Bytes) (offset : Nat) :
    ∃ chunks : List Bytes, chunks.flatten = data.drop offset ∧
      (∀ c ∈ chunks, 1 ≤ c.length ∧ c.length ≤ chunkSize) ∧
      ∀ fuel writes, chunks.length < fuel → writeChunks data fuel offset writes =
        .done (writes ++ writesOf chunks) := by
  -- by the number of bytes that are left, which every chunk lessens
  induction hleft : data.length - offset using Nat.strong_induction_on generalizing offset with
  | _ left ih =>
    by_cases hlt : offset < data.length
    · have hpos := length_slice_pos hlt
      obtain ⟨chunks, hflatten, hsizes, hrun⟩ :=
        ih (data.length - (offset + (slice data offset (offset + chunkSize)).length)) (by omega)
          (offset + (slice data offset (offset + chunkSize)).length) rfl
      refine ⟨slice data offset (offset + chunkSize) :: chunks, ?_, ?_, fun fuel writes hfuel => ?_⟩
      · rw [List.flatten_cons, hflatten, slice_append_drop]
      · exact List.forall_mem_cons.mpr ⟨⟨hpos, length_slice_le data offset⟩, hsizes⟩
      · obtain ⟨fuel, rfl⟩ := Nat.exists_eq_add_one_of_ne_zero (Nat.ne_zero_of_lt hfuel)
        rw [writeChunks_of_lt hlt, hrun fuel _ (Nat.lt_of_succ_lt_succ hfuel), writesOf,
          writesOf, List.flatMap_cons, List.append_assoc]
    · have hle : data.length ≤ offset := Nat.le_of_not_lt hlt
      refine ⟨[], ?_, List.forall_mem_nil _, fun fuel writes hfuel => ?_⟩
      · rw [List.drop_eq_nil_of_le hle]
        rfl
      · obtain ⟨fuel, rfl⟩ := Nat.exists_eq_add_one_of_ne_zero (Nat.ne_zero_of_lt hfuel)
        rw [writeChunks_of_le hle, writesOf, List.flatMap_nil, List.append_nil]

/-- What the loop has written, as one stream of bytes. -/
theorem flatten_writes (chunks : List Bytes) :
    ([command] ++ writesOf chunks ++ [[0, 0, 0, 0]]).flatten =
      command ++ Chunked.encode 4 chunks := by
  have hframes : (writesOf chunks).flatten = chunks.flatMap (Chunked.frame 4) := by
    induction chunks with
    | nil => rfl
    | cons c chunks ih =>
      unfold writesOf at ih ⊢
      rw [List.flatMap_cons, List.flatten_append, ih, List.flatMap_cons]
      simp [Chunked.frame]
  rw [List.flatten_append, List.flatten_append, hframes, Chunked.encode, List.append_assoc]
  rfl

end Loop

/-! ### The stream -/

theorem readUntilNul_command (stream : Bytes) :
    readUntilNul (command ++ stream) = some (command, stream) := rfl

/-- The daemon reads what the grammar allows behind the command. -/
theorem handle_eq_scanned_iff {stream content rest : Bytes} :
    FakeClamd.handle (command ++ stream) = .scanned content rest ↔
      ∃ chunks, Chunked.Reads 4 stream chunks rest ∧ chunks.flatten = content := by
  have hping : command ≠ pingCommand := by decide
  unfold FakeClamd.handle
  rw [readUntilNul_command]
  simp only [if_neg hping, if_true]
  cases hread : Chunked.read 4 (stream.length + 1) stream with
  | none =>
    refine iff_of_false (by simp) ?_
    rintro ⟨chunks, hreads, -⟩
    rw [Chunked.read_eq_iff.mpr hreads] at hread
    cases hread
  | some p =>
    obtain ⟨chunks, rest'⟩ := p
    have hreads : Chunked.Reads 4 stream chunks rest' := Chunked.read_eq_iff.mp hread
    constructor
    · intro h
      cases h
      exact ⟨chunks, hreads, rfl⟩
    · rintro ⟨chunks', hreads', rfl⟩
      obtain ⟨rfl, rfl⟩ := hreads.unique hreads'
      rfl

/-- What `_scan` writes, for every content. -/
theorem exists_scanWrites (data : Bytes) :
    ∃ chunks : List Bytes, chunks.flatten = data ∧
      (∀ c ∈ chunks, 1 ≤ c.length ∧ c.length ≤ chunkSize) ∧
      ∀ fuel, data.length < fuel → ∃ writes, scanWrites fuel data = .done writes ∧
        writes.flatten = command ++ Chunked.encode 4 chunks := by
  obtain ⟨chunks, hflatten, hsizes, hrun⟩ := exists_chunks data 0
  have hne : ∀ c ∈ chunks, c ≠ [] := fun c hc => List.ne_nil_of_length_pos (hsizes c hc).1
  have hcount : chunks.length ≤ data.length := by
    rw [← show chunks.flatten = data from hflatten]
    exact Chunked.length_le_length_flatten hne
  refine ⟨chunks, hflatten, hsizes, fun fuel hfuel => ⟨_, ?_, flatten_writes chunks⟩⟩
  rw [scanWrites, hrun fuel _ (hcount.trans_lt hfuel)]

/-- The chunks of a content are read back from their stream. -/
theorem reads_of_sizes {chunks : List Bytes}
    (h : ∀ c ∈ chunks, 1 ≤ c.length ∧ c.length ≤ chunkSize) :
    Chunked.Reads 4 (Chunked.encode 4 chunks) chunks [] := by
  have hfit : chunkSize < 256 ^ 4 := by decide
  have hlengths : ∀ c ∈ chunks, c ≠ [] ∧ c.length < 256 ^ 4 := by
    intro c hc
    exact ⟨List.ne_nil_of_length_pos (h c hc).1, (h c hc).2.trans_lt hfit⟩
  have hread := Chunked.reads_encode hlengths []
  rwa [List.append_nil] at hread

/-- **The framing is lossless.** For every content the loop ends, and what is written is the command
and a stream that the grammar reads in one way only: the chunks are of 1 to 65536 bytes, they join
to the content, and nothing is left over. The daemon of the tests receives just that. -/
theorem scan_lossless (data : Bytes) :
    ∃ stream : Bytes, (∀ fuel, data.length < fuel →
        ∃ writes, scanWrites fuel data = .done writes ∧ writes.flatten = command ++ stream) ∧
      (∃ chunks, Chunked.Reads 4 stream chunks []) ∧
      (∀ chunks rest, Chunked.Reads 4 stream chunks rest → chunks.flatten = data ∧ rest = [] ∧
        ∀ c ∈ chunks, 1 ≤ c.length ∧ c.length ≤ 65536) ∧
      FakeClamd.handle (command ++ stream) = .scanned data [] := by
  obtain ⟨chunks, hflatten, hsizes, hwrites⟩ := exists_scanWrites data
  have hreads := reads_of_sizes hsizes
  refine ⟨_, hwrites, ⟨chunks, hreads⟩, ?_, handle_eq_scanned_iff.mpr ⟨chunks, hreads, hflatten⟩⟩
  intro chunks' rest hreads'
  obtain ⟨rfl, rfl⟩ := hreads.unique hreads'
  exact ⟨hflatten, rfl, hsizes⟩

/-- A content that looks like the end of a stream. -/
example : scanWrites 2 [0, 0, 0, 0] =
    .done [command, [0, 0, 0, 4], [0, 0, 0, 0], [0, 0, 0, 0]] := by decide +kernel

/-! ### The verdict -/

/-- A daemon that reads its input as the one of the tests does, and replies to the content. -/
def Follows (daemon verdict : Bytes → ClamdReply) : Prop :=
  ∀ input content, FakeClamd.handle input = .scanned content [] → daemon input = verdict content

/-- A response that makes the client call a content clean. -/
theorem isClean_parseResponse_iff {reprStr : Str → Str} {line : Str} :
    (∃ result, parseResponse reprStr line = .ok result ∧ result.isClean = true) ↔
      line = lit "stream: OK" := by
  constructor
  · rintro ⟨result, hresult, hclean⟩
    unfold parseResponse at hresult
    split at hresult
    · cases hresult
    split at hresult
    · assumption
    -- the other results are an infection and an error
    split at hresult
    · cases hresult
      cases hclean
    split at hresult
    · cases hresult
      cases hclean
    · cases hresult
  · rintro rfl
    exact ⟨.makeClean, rfl, rfl⟩

/-- **A content is called clean only by the daemon's word on that content**, all of it. -/
theorem scan_approves_iff {client : ClamdClient} {reprStr : Str → Str}
    {daemon verdict : Bytes → ClamdReply} (h : Follows daemon verdict) (data : Bytes) :
    ∃ writes, scanWrites (data.length + 1) data = .done writes ∧
      ((∃ result, client.scan reprStr (daemon writes.flatten) = .ok result ∧
          result.isClean = true) ↔
        ∃ response, verdict data = .line response ∧ strip response = lit "stream: OK") := by
  obtain ⟨chunks, hflatten, hsizes, hwrites⟩ := exists_scanWrites data
  obtain ⟨writes, hdone, hstream⟩ := hwrites (data.length + 1) (Nat.lt_succ_self _)
  have hserved := handle_eq_scanned_iff.mpr ⟨chunks, reads_of_sizes hsizes, hflatten⟩
  refine ⟨writes, hdone, ?_⟩
  rw [hstream, h _ _ hserved]
  cases verdict data with
  | line response =>
    have hclean : (∃ result, parseResponse reprStr (strip response) = .ok result ∧
        result.isClean = true) ↔ strip response = lit "stream: OK" := isClean_parseResponse_iff
    simp only [ClamdClient.scan, ClamdReply.line.injEq, exists_eq_left', ← hclean]
    cases parseResponse reprStr (strip response) with
    | error text => simp
    | ok result => simp
  | _ => exact iff_of_false (by simp [ClamdClient.scan]) (by simp)

end Instream
end Chiralite
