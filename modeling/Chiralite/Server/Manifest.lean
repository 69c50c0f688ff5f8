import Chiralite.Sync.Engine

/-!
# What an acknowledged transfer has announced

A `TRANSFER_BEGIN` announces the number of the chunks, the length of the payload, and with its
entry the path, the size and the hash of the content. `_handle_transfer` takes in as many chunks as
were announced, by whatever `seq` they carry; of chunks with one `seq` the last remains. It joins
them, reconstructs the content, and compares its hash with the one of the **commit**. The announced
length of the payload, and the size and the hash of the entry, are not looked at.

`manifest_iff` says what an ACK is worth, then: the content agrees with the announcement exactly
when the messages of the client agree among themselves.
-/

namespace Chiralite

open Py Posix Effect

/-- The chunks that were received. -/
def receivedChunks (evs : List Event) : List TransferChunkMsg :=
  evs.filterMap fun o =>
    match o with
    | .received (.transferChunk m) => some m
    | _ => none

/-- The commits that were received. -/
def receivedCommits (evs : List Event) : List TransferCommitMsg :=
  evs.filterMap fun o =>
    match o with
    | .received (.transferCommit m) => some m
    | _ => none

/-- Every number below the count is there once. -/
def Enumerates (seqs : List Int) (count : Int) : Prop :=
  seqs.Perm ((List.range count.toNat).map Int.ofNat)

/-- **Agreement with the manifest**: the chunks are those announced, and so are the length of the
payload and the size and the hash of the content. -/
structure Manifest (begin : TransferBeginMsg) (chunks : List TransferChunkMsg)
    (content : Bytes) : Prop where
  seqs : Enumerates (chunks.map TransferChunkMsg.seq) begin.chunkCount
  totalSize : ((joinChunks (chunkDict chunks)).length : Int) = begin.totalSize
  size : (content.length : Int) = begin.entry.size
  rapidhash : rapidhash content = begin.entry.rapidhash

/-- **Messages that agree among themselves**: the chunks carry the numbers below the announced
count, once each; their lengths add up to the announced length of the payload; that is also the
size of the entry, or in a delta transfer the size is that of what the delta decodes to; and the
commit has the hash of the entry. -/
structure Consistent (S : Service) (t : Tree) (begin : TransferBeginMsg)
    (chunks : List TransferChunkMsg) (commit : TransferCommitMsg) : Prop where
  seqs : Enumerates (chunks.map TransferChunkMsg.seq) begin.chunkCount
  totalSize : (((chunks.map fun m => m.data.length).sum : Nat) : Int) = begin.totalSize
  size : begin.entry.isFull = true → begin.entry.size = begin.totalSize
  deltaSize : begin.entry.isFull = false → ∃ content,
    Reconstructed S t begin.entry (joinChunks (chunkDict chunks)) content ∧
      (content.length : Int) = begin.entry.size
  rapidhash : commit.rapidhash = begin.entry.rapidhash

section Chunks

theorem receivedChunks_append (evs evs' : List Event) :
    receivedChunks (evs ++ evs') = receivedChunks evs ++ receivedChunks evs' :=
  List.filterMap_append

theorem receivedCommits_append (evs evs' : List Event) :
    receivedCommits (evs ++ evs') = receivedCommits evs ++ receivedCommits evs' :=
  List.filterMap_append

theorem receivedChunks_map (chunks : List TransferChunkMsg) :
    receivedChunks (chunks.map fun m => .received (.transferChunk m)) = chunks := by
  unfold receivedChunks
  rw [List.filterMap_map]
  exact List.filterMap_some

theorem receivedCommits_map (chunks : List TransferChunkMsg) :
    receivedCommits (chunks.map fun m => .received (.transferChunk m)) = [] := by
  refine List.filterMap_eq_nil_iff.mpr fun o ho => ?_
  obtain ⟨m, -, rfl⟩ := List.mem_map.mp ho
  rfl

/-- A trace that begins with the receipt of chunks, and has no more of them, has these. -/
theorem receivedChunks_of_length {chunks : List TransferChunkMsg} {rest : List Event}
    (h : (receivedChunks ((chunks.map fun m => Event.received (.transferChunk m)) ++ rest)).length =
      chunks.length) :
    receivedChunks ((chunks.map fun m => Event.received (.transferChunk m)) ++ rest) = chunks := by
  rw [receivedChunks_append, receivedChunks_map, List.length_append] at h
  have hrest : receivedChunks rest = [] := List.length_eq_zero_iff.mp (by omega)
  rw [receivedChunks_append, receivedChunks_map, hrest, List.append_nil]

theorem Enumerates.nodup {seqs : List Int} {count : Int} (h : Enumerates seqs count) :
    seqs.Nodup := by
  refine h.nodup_iff.mpr ?_
  exact List.nodup_range.map fun _ _ heq => Int.ofNat.inj heq

/-- The payload is as long as the chunks together, when none of them takes the place of
another. -/
theorem length_joinChunks {chunks : List TransferChunkMsg}
    (h : (chunks.map TransferChunkMsg.seq).Nodup) :
    (joinChunks (chunkDict chunks)).length = (chunks.map fun m => m.data.length).sum := by
  have hkeys : (chunkDict chunks).items.map Prod.fst = chunks.map TransferChunkMsg.seq := by
    rw [items_chunkDict h, List.map_map]
    rfl
  -- the order of the chunks does not matter to the sum
  have hperm := (List.perm_insertionSort (· ≤ ·) (chunks.map TransferChunkMsg.seq)).map
    fun i => (((chunkDict chunks).get? i).getD []).length
  rw [joinChunks, List.length_flatMap, hkeys, hperm.sum_eq, List.map_map]
  refine congrArg List.sum (List.map_congr_left fun m hm => ?_)
  exact congrArg List.length (get?_chunkDict h hm)

end Chunks

section Acked

variable {S : Service} {begin : TransferBeginMsg} {w w' : World} {evs : List Event}

/-- **The content agrees with the manifest** exactly when the messages agree among themselves,
for a content with the hash of the commit. -/
theorem manifest_iff_consistent {t : Tree} {chunks : List TransferChunkMsg}
    {commit : TransferCommitMsg} {content : Bytes}
    (hcontent : Reconstructed S t begin.entry (joinChunks (chunkDict chunks)) content)
    (hhash : rapidhash content = commit.rapidhash) :
    Manifest begin chunks content ↔ Consistent S t begin chunks commit := by
  constructor
  · intro h
    have hlength := length_joinChunks h.seqs.nodup
    refine ⟨h.seqs, ?_, fun hfull => ?_, fun _ => ⟨content, hcontent, h.size⟩, ?_⟩
    · rw [← h.totalSize, hlength]
    · -- in a full transfer the payload is the content
      have hpayload := hcontent.unique (Or.inl ⟨hfull, rfl⟩)
      rw [← h.size, ← h.totalSize, hpayload]
    · rw [← hhash, h.rapidhash]
  · intro h
    have hlength := length_joinChunks h.seqs.nodup
    have htotal : ((joinChunks (chunkDict chunks)).length : Int) = begin.totalSize := by
      rw [← h.totalSize, hlength]
    refine ⟨h.seqs, htotal, ?_, by rw [hhash, h.rapidhash]⟩
    cases hfull : begin.entry.isFull with
    | true =>
      have hpayload := hcontent.unique (Or.inl ⟨hfull, rfl⟩)
      rw [h.size hfull, ← htotal, hpayload]
    | false =>
      obtain ⟨content', hcontent', hsize⟩ := h.deltaSize hfull
      rw [hcontent.unique hcontent', hsize]

/-- The chunks and the commit of an accepted transfer are all that was received. -/
theorem Accepted.received (h : Accepted S begin w w' evs) :
    ∃ commit content, receivedCommits evs = [commit] ∧
      ((receivedChunks evs).length : Int) = begin.chunkCount ∧
      Reconstructed S w.fs begin.entry (joinChunks (chunkDict (receivedChunks evs))) content ∧
      rapidhash content = commit.rapidhash ∧
      ∃ dest f,
        S.session.jail.resolve w.fs S.env.fuel S.env.lstatError begin.entry.path =
          some (.ok dest) ∧
        w'.fs.file dest = some f ∧ f.content = content := by
  obtain ⟨chunks, commit, content, evs', hlen, -, -, hcontent, rfl, hhash, result, -, -, evs'', -,
    -, -, rfl, dest, tmp, writes, f, hdest, hfile, hf, hwrites, rfl⟩ := h
  -- nothing is received after the commit
  have htail : ∀ o ∈ writes ++ [Event.touched (.rename dest) tmp,
      .audited (writeRecord S begin.entry content),
      .sent (.transferAck ⟨begin.transferId, result.text⟩)], ∀ m, o ≠ .received m := by
    rintro o ho m rfl
    rcases List.mem_append.mp ho with ho | ho
    · obtain ⟨op, p, heq⟩ := hwrites _ ho
      cases heq
    · simp at ho
  have hnoChunks : receivedChunks (writes ++ [Event.touched (.rename dest) tmp,
      .audited (writeRecord S begin.entry content),
      .sent (.transferAck ⟨begin.transferId, result.text⟩)]) = [] := by
    refine List.filterMap_eq_nil_iff.mpr fun o ho => ?_
    split
    · exact absurd rfl (htail _ ho _)
    · rfl
  have hnoCommits : receivedCommits (writes ++ [Event.touched (.rename dest) tmp,
      .audited (writeRecord S begin.entry content),
      .sent (.transferAck ⟨begin.transferId, result.text⟩)]) = [] := by
    refine List.filterMap_eq_nil_iff.mpr fun o ho => ?_
    split
    · exact absurd rfl (htail _ ho _)
    · rfl
  have hchunks : receivedChunks ((chunks.map fun m => Event.received (.transferChunk m)) ++
      .received (.transferCommit commit) :: .scanned content result ::
        (writes ++ [Event.touched (.rename dest) tmp, .audited (writeRecord S begin.entry content),
          .sent (.transferAck ⟨begin.transferId, result.text⟩)])) = chunks := by
    rw [receivedChunks_append, receivedChunks_map]
    exact (congrArg (chunks ++ ·) hnoChunks).trans (List.append_nil _)
  refine ⟨commit, content, ?_, by rw [hchunks]; exact hlen, by rw [hchunks]; exact hcontent, hhash,
    dest, f, hdest, hfile, hf⟩
  rw [receivedCommits_append, receivedCommits_map]
  exact congrArg (commit :: ·) hnoCommits

end Acked

/-- **When an ACK confirms the manifest.** For every run of the handler that sends a
`TRANSFER_ACK`: one commit was received, the file is at the place of the path, and what was
received and written agrees with the `TRANSFER_BEGIN` if and only if the messages of the client
agree among themselves. -/
theorem manifest_iff (S : Service) (begin : TransferBeginMsg) (w w' : World) (evs : List Event)
    (v : Except Exc Unit) (ack : TransferAckMsg) (hvalid : begin.Valid)
    (h : Runs (handleTransfer S begin) w evs v w') (hack : .transferAck ack ∈ sends evs) :
    ∃ commit dest f, receivedCommits evs = [commit] ∧
      S.session.jail.resolve w.fs S.env.fuel S.env.lstatError begin.entry.path = some (.ok dest) ∧
      w'.fs.file dest = some f ∧
      (Manifest begin (receivedChunks evs) f.content ↔
        Consistent S w.fs begin (receivedChunks evs) commit) := by
  rcases handleTransfer_inv hvalid h with hnone | ⟨reason, hnack, -⟩ | hacc
  · rw [hnone] at hack
    cases hack
  · rw [hnack, List.mem_singleton] at hack
    cases hack
  · obtain ⟨commit, content, hcommit, -, hcontent, hhash, dest, f, hdest, hfile, rfl⟩ :=
      hacc.received
    exact ⟨commit, dest, f, hcommit, hdest, hfile, manifest_iff_consistent hcontent hhash⟩

/-! ### Two announcements of one file

The server of the sample is sent its file in full, once with a true announcement and once with a
false one: two chunks with one `seq`, and a length, a size and a hash that are none of the
file's. -/

namespace Sample

/-- A full transfer of the file, with an announcement. -/
def announce (size hash totalSize chunkCount : Int) : TransferBeginMsg :=
  ⟨1, { entry.asFull with size := size, rapidhash := hash }, totalSize, chunkCount⟩

def fileCommit : TransferCommitMsg := ⟨1, rapidhash content⟩

theorem announce_valid {size hash totalSize chunkCount : Int} (hsize : FileSizeInt size)
    (hhash : RapidHashInt hash) (htotal : FileSizeInt totalSize) (hcount : 1 ≤ chunkCount) :
    (announce size hash totalSize chunkCount).Valid where
  entry := { entry_valid.asFull with size := hsize, rapidhash := hhash }
  totalSize := htotal
  chunkCount := hcount

/-- Whatever was announced, chunks that come to the file are acknowledged. -/
theorem announce_acked {size hash totalSize chunkCount : Int} (chunks : List TransferChunkMsg)
    (hbegin : (announce size hash totalSize chunkCount).Valid)
    (hcount : chunkCount = chunks.length) (hids : ∀ m ∈ chunks, m.transferId = 1)
    (hseqs : ∀ m ∈ chunks, 0 ≤ m.seq) (hjoin : joinChunks (chunkDict chunks) = content) :
    ∃ w evs w' f, w.fs = tree ∧
      Runs (handleTransfer service (announce size hash totalSize chunkCount)) w evs (.ok ()) w' ∧
      sends evs = [.transferAck ⟨1, lit "CLEAN"⟩] ∧
      w'.fs.file [lit "srv", lit "notes"] = some f ∧ f.content = content ∧
      receivedChunks evs = chunks := by
  have hvalid : ∀ m ∈ chunks.map AnyMsg.transferChunk ++ [AnyMsg.transferCommit fileCommit],
      m.Valid := by
    intro m hm
    rcases List.mem_append.mp hm with hm | hm
    · obtain ⟨chunk, hchunk, rfl⟩ := List.mem_map.mp hm
      exact hseqs chunk hchunk
    · rw [List.mem_singleton.mp hm]
      exact rapidHashInt_rapidhash content 0
  have hreceives := receives
  obtain ⟨evs, w', f, hrun, hsends, hfile, hf, rest, hevs⟩ := handleTransfer_runs
    (S := service) (w := ⟨tree, deliver _ hvalid, 0⟩) (fun _ => rfl) hbegin hcount hids rfl hvalid
    rfl (Or.inl ⟨rfl, hjoin.symm⟩) rfl hreceives.clean
    ⟨hreceives.owner.1, hreceives.owner.2, hreceives.owner.3, hreceives.owner.4⟩ hreceives.time
    hreceives.resolved hreceives.writable
  refine ⟨_, evs, w', f, rfl, hrun, hsends, hfile, hf, ?_⟩
  -- as many chunks were received as are at the front of the trace
  rcases handleTransfer_inv hbegin hrun with hnone | ⟨reason, hnack, -⟩ | hacc
  · rw [hnone] at hsends
    cases hsends
  · rw [hnack] at hsends
    cases hsends
  · obtain ⟨-, -, -, hlen, -⟩ := hacc.received
    rw [hevs] at hlen ⊢
    refine receivedChunks_of_length ?_
    have hsame : ((receivedChunks _).length : Int) = (chunks.length : Int) := hlen.trans hcount
    exact Int.ofNat.inj hsame

/-- The true announcement is confirmed. -/
theorem announce_confirmed : ∃ w evs w' f commit, (announce 65 (rapidhash content) 65 1).Valid ∧
    Runs (handleTransfer service (announce 65 (rapidhash content) 65 1)) w evs (.ok ()) w' ∧
    .transferAck ⟨1, lit "CLEAN"⟩ ∈ sends evs ∧
    w'.fs.file [lit "srv", lit "notes"] = some f ∧
    Manifest (announce 65 (rapidhash content) 65 1) (receivedChunks evs) f.content ∧
    Consistent service w.fs (announce 65 (rapidhash content) 65 1) (receivedChunks evs) commit := by
  have hbegin : (announce 65 (rapidhash content) 65 1).Valid :=
    announce_valid (by decide) (rapidHashInt_rapidhash content 0) (by decide) (by decide)
  obtain ⟨w, evs, w', f, hw, hrun, hsends, hfile, hf, hchunks⟩ :=
    announce_acked [⟨1, 0, content⟩] hbegin rfl (by simp) (by simp) (by decide)
  have hack : AnyMsg.transferAck ⟨1, lit "CLEAN"⟩ ∈ sends evs := by rw [hsends]; simp
  have hmanifest : Manifest (announce 65 (rapidhash content) 65 1) (receivedChunks evs)
      f.content := by
    rw [hchunks, hf]
    exact ⟨List.Perm.refl _, by decide, by decide, rfl⟩
  obtain ⟨commit, dest, f', -, hdest, hfile', hiff⟩ :=
    manifest_iff _ _ _ _ _ _ _ hbegin hrun hack
  rw [hw] at hdest
  cases receives.resolved.symm.trans hdest
  cases hfile.symm.trans hfile'
  exact ⟨w, evs, w', f, commit, hbegin, hrun, hack, hfile, hmanifest, hiff.mp hmanifest⟩

/-- The false announcement is acknowledged as well, and nothing in it is true. -/
theorem false_announce_acked : ∃ w evs w' f, (announce 1 0 7 2).Valid ∧
    Runs (handleTransfer service (announce 1 0 7 2)) w evs (.ok ()) w' ∧
    sends evs = [.transferAck ⟨1, lit "CLEAN"⟩] ∧
    w'.fs.file [lit "srv", lit "notes"] = some f ∧
    ¬ Enumerates ((receivedChunks evs).map TransferChunkMsg.seq) 2 ∧
    (joinChunks (chunkDict (receivedChunks evs))).length ≠ 7 ∧ f.content.length ≠ 1 ∧
    rapidhash f.content ≠ 0 := by
  have hbegin : (announce 1 0 7 2).Valid :=
    announce_valid (by decide) (by decide) (by decide) (by decide)
  obtain ⟨w, evs, w', f, -, hrun, hsends, hfile, hf, hchunks⟩ :=
    announce_acked [⟨1, 5, []⟩, ⟨1, 5, content⟩] hbegin rfl (by simp) (by simp) (by decide)
  refine ⟨w, evs, w', f, hbegin, hrun, hsends, hfile, ?_, ?_, ?_, ?_⟩
  · rw [hchunks]
    intro henum
    exact absurd henum.nodup (by decide)
  · rw [hchunks]
    decide
  · rw [hf]
    decide
  · rw [hf]
    decide +kernel

end Sample

end Chiralite
