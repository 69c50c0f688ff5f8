import Mathlib.Data.List.Sort
import Chiralite.Filesystem.Writer
import Chiralite.Hash
import Chiralite.Sync.Index

/-!
# The server's side of a transfer

`_handle_transfer` of `server.py`, with `_drain_and_nack`, `_read_base` and `_scan`. A transfer is
one `TRANSFER_BEGIN`, the number of chunks it announces, and a `TRANSFER_COMMIT`. The handler
reads them, puts the content together, checks its hash, has it scanned, asks the owner policy and
writes the file; it leaves by an ACK, by one of the NACKs, or by an exception that ends the
session.

`handleTransfer_inv` says what a run of the handler can have been: silent (it raised), refused
(one NACK, and the regular files are what they were) or accepted (`Accepted`: one ACK, at the end
of a trace that shows everything the ACK promises).
-/

namespace Chiralite

open Py Posix Effect

/-- `SiloSession`, without the blacklist, which no handler reads. -/
structure SiloSession where
  siloId : Uuid
  clientCn : Str
  jail : PathJail
  allowedOps : List OpType
  uidPolicy : IdPolicy
  gidPolicy : IdPolicy

/-- `SiloSession.permits`. -/
def SiloSession.permits (session : SiloSession) (op : OpType) : Bool := op ∈ session.allowedOps

/-- What the handlers of one session see: the world's decisions, the session and the index. -/
structure Service where
  env : Env
  session : SiloSession
  index : SiloIndex

/-- `b"".join(chunks[i] for i in sorted(chunks))`. -/
def joinChunks (chunks : Dict Int Bytes) : Bytes :=
  ((chunks.items.map Prod.fst).insertionSort (· ≤ ·)).flatMap fun i => (chunks.get? i).getD []

/-- The first live record with the hash, in the order of the index. -/
def findBase (records : Records) (baseRapidhash : Int) : Option (Str × FileRecord) :=
  records.items.find? fun kv => kv.2.rapidhash = baseRapidhash ∧ kv.2.deleted = false

section Program

variable (S : Service)

/-- A NACK. -/
def nack (tid : Uuid) (reason : Str) : Io Unit := send S.env (.transferNack ⟨tid, reason⟩)

/-- The chunks of a transfer, by their `seq`; `none` at a message that is not one of them. -/
def collectChunks (tid : Uuid) : Nat → Dict Int Bytes → Io (Option (Dict Int Bytes))
  | 0, chunks => pure (some chunks)
  | n + 1, chunks => do
    match ← recv with
    | .transferChunk m =>
      -- a chunk that repeats a `seq` takes the place of the earlier one
      if m.transferId ≠ tid then pure none
      else collectChunks tid n (chunks.set m.seq m.data)
    | _ => pure none

/-- The messages of a transfer that has been refused already, read and thrown away. -/
def drain : Nat → Io Unit
  | 0 => pure ()
  | n + 1 => do
    let _ ← recv
    drain n

/-- `_drain_and_nack`. -/
def drainAndNack (begin : TransferBeginMsg) (reason : Str) : Io Unit := do
  -- the chunks and the commit; `except Exception: pass`
  let _ ← Eff.attempt (drain (begin.chunkCount.toNat + 1))
  nack S begin.transferId reason

/-- `_read_base`. -/
def readBase : Option Int → Io Bytes
  | none => Eff.raise (.patch (lit "delta transfer missing base rapidhash"))
  | some baseRapidhash =>
    match findBase S.index.records baseRapidhash with
    -- an escaping path raises `JailbreakError`, which the caller does not catch
    | some (path, _) => do
      let absPath ← jailResolve S.env S.session.jail path
      readBytes S.env absPath
    | none =>
      Eff.raise (.patch (lit "base with rapidhash " ++ Json.dumpInt baseRapidhash ++
        lit " not found in index"))

/-- The full content: the payload itself, or the delta in it applied to the base. -/
def reconstruct (entry : FileEntry) (payload : Bytes) : Io Bytes :=
  if entry.isFull then pure payload
  else do
    let baseContent ← readBase S entry.deltaBaseRapidhash
    match applyDelta S.env.xdelta baseContent payload with
    | .ok content => pure content
    | .error text => Eff.raise (.patch text)

/-- `_scan`. -/
def scan (content : Bytes) : Io ScanResult :=
  match S.env.clamd with
  -- no scanner is configured: everything is clean
  | none => do
    Eff.emit (.scanned content .makeClean)
    pure .makeClean
  | some clamd => do
    let w ← Eff.look
    Eff.change fun w => { w with clock := w.clock + 1 }
    match clamd w.clock content with
    | .error fault => Eff.raise fault.exc
    | .ok result => do
      Eff.emit (.scanned content result)
      pure result

/-- `resolve_uid` and `resolve_gid` in one `try`. -/
def resolveOwner (entry : FileEntry) : Except Str (Int × Int) :=
  match resolveUid S.env.reprStr S.env.accounts entry.uidName S.session.uidPolicy with
  | .error text => .error text
  | .ok uid =>
    match resolveGid S.env.reprStr S.env.accounts entry.gidName S.session.gidPolicy with
    | .error text => .error text
    | .ok gid => .ok (uid, gid)

/-- The record of a finished write. -/
def writeRecord (entry : FileEntry) (content : Bytes) : AuditEvent :=
  .fileWrite S.session.clientCn S.session.siloId entry.path entry.deltaBaseRapidhash
    (rapidhash content) entry.mtimeTotalNs (!entry.isFull) content.length

/-- The last part of `_handle_transfer`: the content is written and acknowledged. -/
def writeAndAck (tid : Uuid) (entry : FileEntry) (content : Bytes) (result : ScanResult) :
    Io Unit := do
  match ← Eff.attempt (atomicWrite S.env S.session.jail entry.path content entry) with
  | .error (.write text) => nack S tid text
  | .error (.jailbreak err) => nack S tid (err.text S.env.reprStr)
  | .error e => Eff.raise e
  | .ok () => do
    audit (writeRecord S entry content)
    send S.env (.transferAck ⟨tid, result.text⟩)

/-- The checks between the content and its writing: hash, scan, owner. -/
def checkAndWrite (tid : Uuid) (entry : FileEntry) (commit : TransferCommitMsg)
    (content : Bytes) : Io Unit := do
  if rapidhash content ≠ commit.rapidhash then nack S tid (lit "rapidhash_mismatch")
  else do
    let result ← scan S content
    -- a scan that failed is not clean either
    if ¬ result.isClean then do
      audit (.quarantine S.session.clientCn S.session.siloId entry.path
        (((truthy result.virusName).or (truthy result.error)).getD (lit "unknown")))
      nack S tid (lit "quarantine")
    else
      match resolveOwner S entry with
      | .error text => do
        audit (.uidDenied S.session.clientCn S.session.siloId text)
        nack S tid (lit "uid_denied")
      -- the ids are thrown away: `atomic_write` looks the names up again
      | .ok _ => writeAndAck S tid entry content result

/-- `_handle_transfer` once the commit is in. -/
def finishTransfer (begin : TransferBeginMsg) (chunks : Dict Int Bytes)
    (commit : TransferCommitMsg) : Io Unit := do
  match ← Eff.attempt (reconstruct S begin.entry (joinChunks chunks)) with
  -- `except (PatchError, OSError)`
  | .error (.patch text) => nack S begin.transferId (lit "delta_error: " ++ text)
  | .error (.os _ text) => nack S begin.transferId (lit "delta_error: " ++ text)
  | .error e => Eff.raise e
  | .ok content => checkAndWrite S begin.transferId begin.entry commit content

/-- `_handle_transfer`. -/
def handleTransfer (begin : TransferBeginMsg) : Io Unit := do
  match ← Eff.attempt (jailResolve S.env S.session.jail begin.entry.path) with
  | .error (.jailbreak err) => do
    audit (.pathTraversal S.session.clientCn S.session.siloId begin.entry.path)
    drainAndNack S begin (err.text S.env.reprStr)
  | .error e => Eff.raise e
  -- the resolved path is not used either: `atomic_write` resolves once more
  | .ok _ =>
    match ← collectChunks begin.transferId begin.chunkCount.toNat Dict.empty with
    | none => nack S begin.transferId (lit "protocol_error")
    | some chunks =>
      match ← recv with
      | .transferCommit commit =>
        if commit.transferId ≠ begin.transferId then
          nack S begin.transferId (lit "protocol_error")
        else finishTransfer S begin chunks commit
      | _ => nack S begin.transferId (lit "protocol_error")

end Program

/-! ### The quiet parts -/

/-- The frame of what sends nothing and changes no file. -/
def quietFrame : Frame World Event Exc where
  change := SameTree
  refl _ := rfl
  trans _ _ _ h h' := h'.trans h
  event o := o.sent? = none
  exception _ := True

/-- An event that neither answers the client nor tells of a change to the silo. -/
def Event.Idle : Event → Prop
  | .received _ => True
  | .scanned _ _ => True
  | .audited (.quarantine _ _ _ _) => True
  | .audited (.pathTraversal _ _ _) => True
  | .audited (.uidDenied _ _ _) => True
  | _ => False

theorem Event.Idle.sent? {o : Event} (h : o.Idle) : o.sent? = none := by
  cases o with
  | sent m => exact absurd h id
  | _ => rfl

/-- The frame of what leaves idle events only. -/
def idleFrame : Frame World Event Exc where
  change := SameTree
  refl _ := rfl
  trans _ _ _ h h' := h'.trans h
  event := Event.Idle
  exception _ := True

section Quiet

variable {S : Service} {w w' : World} {evs : List Event}

theorem quietFrame_of_idle {α : Type} {c : Io α} (h : idleFrame.Allows c) :
    quietFrame.Allows c :=
  h.mono (fun _ _ h => h) (fun _ => Event.Idle.sent?) fun _ h => h

theorem idleFrame_recv : idleFrame.Allows recv := by
  intro w evs v w' h
  obtain ⟨htree, ⟨text, -, rfl⟩ | ⟨m, -, -, rfl⟩⟩ := recv_inv h
  · exact ⟨htree, by simp, fun _ _ => trivial⟩
  · refine ⟨htree, ?_, fun _ _ => trivial⟩
    intro o ho
    rw [List.mem_singleton.mp ho]
    trivial

theorem quietFrame_recv : quietFrame.Allows recv := quietFrame_of_idle idleFrame_recv

theorem idleFrame_jailResolve {jail : PathJail} {relPath : Str} :
    idleFrame.Allows (jailResolve S.env jail relPath) := by
  intro w evs v w' h
  obtain ⟨htree, rfl, -⟩ := jailResolve_inv h
  exact ⟨htree, by simp, fun _ _ => trivial⟩

theorem quietFrame_jailResolve {jail : PathJail} {relPath : Str} :
    quietFrame.Allows (jailResolve S.env jail relPath) := quietFrame_of_idle idleFrame_jailResolve

theorem idleFrame_readBytes {p : Location} : idleFrame.Allows (readBytes S.env p) := by
  intro w evs v w' h
  obtain ⟨htree, rfl, -⟩ := readBytes_inv h
  exact ⟨htree, by simp, fun _ _ => trivial⟩

theorem quietFrame_audit (record : AuditEvent) : quietFrame.Allows (audit record) := by
  intro w evs v w' h
  cases h
  refine ⟨rfl, ?_, fun _ _ => trivial⟩
  intro o ho
  rw [List.mem_singleton.mp ho]
  rfl

theorem idleFrame_collectChunks (tid : Uuid) (n : Nat) (chunks : Dict Int Bytes) :
    idleFrame.Allows (collectChunks tid n chunks) := by
  induction n generalizing chunks with
  | zero => exact Frame.allows_pure _
  | succ n ih =>
    refine idleFrame_recv.bind fun m => ?_
    split
    · split
      · exact Frame.allows_pure _
      · exact ih _
    · exact Frame.allows_pure _

theorem idleFrame_drain (n : Nat) : idleFrame.Allows (drain n) := by
  induction n with
  | zero => exact Frame.allows_pure _
  | succ n ih => exact idleFrame_recv.bind fun _ => ih

theorem idleFrame_reconstruct (entry : FileEntry) (payload : Bytes) :
    idleFrame.Allows (reconstruct S entry payload) := by
  unfold reconstruct
  split
  · exact Frame.allows_pure _
  · refine Frame.Allows.bind ?_ fun base => ?_
    -- the base: no hash, no such record, or a file that is read
    · unfold readBase
      split
      · exact Frame.allows_raise trivial
      · split
        · exact idleFrame_jailResolve.bind fun p => idleFrame_readBytes
        · exact Frame.allows_raise trivial
    · split
      · exact Frame.allows_pure _
      · exact Frame.allows_raise trivial

/-- A scan leaves one event, with what it found. -/
theorem scan_inv {content : Bytes} {v : Except Exc ScanResult}
    (h : Runs (scan S content) w evs v w') :
    SameTree w w' ∧ ((∃ e, v = .error e ∧ evs = []) ∨
      ∃ result, v = .ok result ∧ evs = [.scanned content result]) := by
  unfold scan at h
  split at h
  · obtain ⟨evs₂, hpure, rfl⟩ := h.bind_emit_inv
    obtain ⟨rfl, rfl, rfl⟩ := hpure.pure_inv
    exact ⟨rfl, Or.inr ⟨_, rfl, rfl⟩⟩
  · have hrest := h.bind_look_inv.bind_change_inv
    split at hrest
    · obtain ⟨rfl, rfl, rfl⟩ := hrest.raise_inv
      exact ⟨rfl, Or.inl ⟨_, rfl, rfl⟩⟩
    · obtain ⟨evs₂, hpure, rfl⟩ := hrest.bind_emit_inv
      obtain ⟨rfl, rfl, rfl⟩ := hpure.pure_inv
      exact ⟨rfl, Or.inr ⟨_, rfl, rfl⟩⟩

end Quiet

/-- What only touches the file system sends nothing. -/
theorem sends_touched {evs : List Event} (h : ∀ o ∈ evs, ∃ op p, o = .touched op p) :
    sends evs = [] := by
  refine sends_eq_nil fun o ho => ?_
  obtain ⟨op, p, rfl⟩ := h o ho
  rfl

theorem sends_receivedChunks (chunks : List TransferChunkMsg) :
    sends (chunks.map fun m => Event.received (.transferChunk m)) = [] := by
  refine sends_eq_nil fun o ho => ?_
  obtain ⟨m, -, rfl⟩ := List.mem_map.mp ho
  rfl

/-! ### Transfers that are turned down -/

section TurnedDown

variable {S : Service} {tid : Uuid} {w w₁ w' : World} {evs evs₁ evs₂ : List Event}

theorem nack_inv {reason : Str} {v : Except Exc Unit} (h : Runs (nack S tid reason) w evs v w') :
    SameTree w w' ∧ (evs = [] ∨ evs = [.sent (.transferNack ⟨tid, reason⟩)]) := by
  obtain ⟨htree, ⟨e, -, rfl⟩ | ⟨-, rfl⟩⟩ := send_inv h
  · exact ⟨htree, Or.inl rfl⟩
  · exact ⟨htree, Or.inr rfl⟩

/-- **A transfer that is turned down** before anything is written: the tree is what it was, and
after idle events there is nothing more, or one NACK with the transfer's id. -/
def TurnedDown (tid : Uuid) (w w' : World) (evs : List Event) : Prop :=
  SameTree w w' ∧ ∃ idle, (∀ o ∈ idle, o.Idle) ∧
    (evs = idle ∨ ∃ reason, evs = idle ++ [.sent (.transferNack ⟨tid, reason⟩)])

theorem turnedDown_nack {reason : Str} {v : Except Exc Unit}
    (h : Runs (nack S tid reason) w evs v w') : TurnedDown tid w w' evs := by
  obtain ⟨htree, rfl | rfl⟩ := nack_inv h
  · exact ⟨htree, [], by simp, Or.inl rfl⟩
  · exact ⟨htree, [], by simp, Or.inr ⟨reason, rfl⟩⟩

/-- Idle events in front do not matter. -/
theorem TurnedDown.after (evs₁ : List Event) (hidle : ∀ o ∈ evs₁, o.Idle) (htree : SameTree w w₁)
    (h : TurnedDown tid w₁ w' evs₂) : TurnedDown tid w w' (evs₁ ++ evs₂) := by
  obtain ⟨htree', idle, hidle', hevs⟩ := h
  refine ⟨htree'.trans htree, evs₁ ++ idle, ?_, ?_⟩
  · intro o ho
    rcases List.mem_append.mp ho with ho | ho
    · exact hidle o ho
    · exact hidle' o ho
  · rcases hevs with rfl | ⟨reason, rfl⟩
    · exact Or.inl rfl
    · exact Or.inr ⟨reason, (List.append_assoc _ _ _).symm⟩

/-- An idle run that raised. -/
theorem turnedDown_of_idle (htree : SameTree w w') (hidle : ∀ o ∈ evs, o.Idle) :
    TurnedDown tid w w' evs := ⟨htree, evs, hidle, Or.inl rfl⟩

/-- What is sent to a client that is turned down. -/
theorem TurnedDown.sends_eq (h : TurnedDown tid w w' evs) :
    sends evs = [] ∨ ∃ reason, sends evs = [.transferNack ⟨tid, reason⟩] := by
  obtain ⟨-, idle, hidle, hevs⟩ := h
  have hsilent : sends idle = [] := sends_eq_nil fun o ho => (hidle o ho).sent?
  rcases hevs with rfl | ⟨reason, rfl⟩
  · exact Or.inl hsilent
  · refine Or.inr ⟨reason, ?_⟩
    rw [sends_append, hsilent]
    rfl

end TurnedDown

/-! ### What a handler's run amounts to -/

/-- **The three ways a transfer can go.** Nothing is sent; or one NACK is, with the transfer's id,
and the regular files are what they were (if no temporary name was taken already); or the transfer
is accepted, which is left open here. -/
def Verdict (tid : Uuid) (w w' : World) (evs : List Event) (accepted : Prop) : Prop :=
  sends evs = [] ∨
    (∃ reason, sends evs = [.transferNack ⟨tid, reason⟩] ∧ (FreshNames evs → SameFiles w w')) ∨
    accepted

section Verdicts

variable {S : Service} {tid : Uuid} {w w₁ w' : World} {evs evs₁ evs₂ : List Event}
  {accepted accepted' : Prop}

/-- A NACK that follows what kept the files. -/
theorem verdict_of_nack {reason : Str} {v : Except Exc Unit} (hsilent : sends evs₁ = [])
    (hfiles : FreshNames evs₁ → SameFiles w w₁) (h : Runs (nack S tid reason) w₁ evs₂ v w') :
    Verdict tid w w' (evs₁ ++ evs₂) accepted := by
  obtain ⟨htree, rfl | rfl⟩ := nack_inv h
  · refine Or.inl ?_
    rw [List.append_nil]
    exact hsilent
  · refine Or.inr (Or.inl ⟨reason, ?_, fun hfresh => (hfiles hfresh.left).trans htree.sameFiles⟩)
    rw [sends_append, hsilent]
    rfl

theorem TurnedDown.verdict (h : TurnedDown tid w w' evs) : Verdict tid w w' evs accepted := by
  rcases h.sends_eq with hnone | ⟨reason, hnack⟩
  · exact Or.inl hnone
  · exact Or.inr (Or.inl ⟨reason, hnack, fun _ => h.1.sameFiles⟩)

/-- What goes before a verdict without sending or changing anything does not matter to it. -/
theorem Verdict.after (evs₁ : List Event) (hsilent : sends evs₁ = []) (htree : SameTree w w₁)
    (h : Verdict tid w₁ w' evs₂ accepted) (himp : accepted → accepted') :
    Verdict tid w w' (evs₁ ++ evs₂) accepted' := by
  rcases h with h | ⟨reason, hsent, hfiles⟩ | h
  -- silent
  · refine Or.inl ?_
    rw [sends_append, hsilent, h, List.nil_append]
  -- refused
  · refine Or.inr (Or.inl ⟨reason, ?_, fun hfresh => ?_⟩)
    · rw [sends_append, hsilent, hsent, List.nil_append]
    · exact htree.sameFiles.trans (hfiles hfresh.right)
  · exact Or.inr (Or.inr (himp h))

end Verdicts

/-! ### An accepted transfer -/

/-- The chunks by their `seq`, a later one in the place of an earlier one. -/
def chunkDict (chunks : List TransferChunkMsg) : Dict Int Bytes :=
  chunks.foldl (fun d m => d.set m.seq m.data) Dict.empty

/-- `content` is what the payload stands for: itself in a full transfer; otherwise what
`apply_delta` makes of it and of the file that the first live record with the base hash names. -/
def Reconstructed (S : Service) (t : Tree) (entry : FileEntry) (payload content : Bytes) : Prop :=
  (entry.isFull = true ∧ content = payload) ∨
    (entry.isFull = false ∧ ∃ baseRapidhash path record p base,
      entry.deltaBaseRapidhash = some baseRapidhash ∧
      findBase S.index.records baseRapidhash = some (path, record) ∧
      S.session.jail.resolve t S.env.fuel S.env.lstatError path = some (.ok p) ∧
      t.node p = some (.file base) ∧
      applyDelta S.env.xdelta base.content payload = .ok content)

/-- The write, its record and the ACK: the file at the place the jail resolves the path to holds
the content, and the rename that put it there, the audit record and the ACK are the last three
events, in this order. -/
def WroteAndAcked (S : Service) (tid : Uuid) (entry : FileEntry) (content : Bytes)
    (result : ScanResult) (w w' : World) (evs : List Event) : Prop :=
  ∃ dest tmp writes f,
    S.session.jail.resolve w.fs S.env.fuel S.env.lstatError entry.path = some (.ok dest) ∧
    w'.fs.file dest = some f ∧ f.content = content ∧ (∀ o ∈ writes, ∃ op p, o = .touched op p) ∧
    evs = writes ++ [.touched (.rename dest) tmp, .audited (writeRecord S entry content),
      .sent (.transferAck ⟨tid, result.text⟩)]

/-- The checks that come before the write: the content has the committed hash, its scan was clean,
and the policy accepted both owner names. -/
def Checked (S : Service) (tid : Uuid) (entry : FileEntry) (commit : TransferCommitMsg)
    (content : Bytes) (w w' : World) (evs : List Event) : Prop :=
  rapidhash content = commit.rapidhash ∧ ∃ result uid gid evs',
    result.isClean = true ∧
    resolveUid S.env.reprStr S.env.accounts entry.uidName S.session.uidPolicy = .ok uid ∧
    resolveGid S.env.reprStr S.env.accounts entry.gidName S.session.gidPolicy = .ok gid ∧
    evs = .scanned content result :: evs' ∧
    WroteAndAcked S tid entry content result w w' evs'

/-- **An accepted transfer.** Exactly the announced number of chunks and then a commit came in,
all with the transfer's id; they stand for a content that passed the checks and was written. -/
def Accepted (S : Service) (begin : TransferBeginMsg) (w w' : World) (evs : List Event) : Prop :=
  ∃ (chunks : List TransferChunkMsg) (commit : TransferCommitMsg) (content : Bytes)
    (evs' : List Event),
    (chunks.length : Int) = begin.chunkCount ∧
    (∀ m ∈ chunks, m.transferId = begin.transferId) ∧ commit.transferId = begin.transferId ∧
    Reconstructed S w.fs begin.entry (joinChunks (chunkDict chunks)) content ∧
    evs = (chunks.map fun m => .received (.transferChunk m)) ++
      .received (.transferCommit commit) :: evs' ∧
    Checked S begin.transferId begin.entry commit content w w' evs'

section Acceptance

variable {S : Service} {tid : Uuid} {entry : FileEntry} {commit : TransferCommitMsg}
  {content : Bytes} {result : ScanResult} {w w₁ w' : World} {evs : List Event}

/-- The content that a payload stands for is one. -/
theorem Reconstructed.unique {t : Tree} {entry : FileEntry} {payload content content' : Bytes}
    (h : Reconstructed S t entry payload content) (h' : Reconstructed S t entry payload content') :
    content = content' := by
  rcases h with ⟨hfull, rfl⟩ | ⟨hdelta, hash, path, record, p, base, hhash, hfind, hp, hbase, hd⟩
  · rcases h' with ⟨-, rfl⟩ | ⟨hdelta, -⟩
    · rfl
    · rw [hfull] at hdelta
      cases hdelta
  · rcases h' with ⟨hfull, -⟩ | ⟨-, hash', path', record', p', base', hhash', hfind', hp', hbase',
      hd'⟩
    · rw [hfull] at hdelta
      cases hdelta
    · -- the same record, the same file, the same delta
      rw [hhash] at hhash'
      cases hhash'
      rw [hfind] at hfind'
      cases hfind'
      rw [hp] at hp'
      cases hp'
      rw [hbase] at hbase'
      cases hbase'
      rw [hd] at hd'
      cases hd'
      rfl

theorem WroteAndAcked.of_sameTree (htree : SameTree w w₁)
    (h : WroteAndAcked S tid entry content result w₁ w' evs) :
    WroteAndAcked S tid entry content result w w' evs := by
  unfold WroteAndAcked at h ⊢
  rw [← show w₁.fs = w.fs from htree]
  exact h

theorem Checked.of_sameTree (htree : SameTree w w₁)
    (h : Checked S tid entry commit content w₁ w' evs) :
    Checked S tid entry commit content w w' evs := by
  obtain ⟨hhash, result, uid, gid, evs', hclean, huid, hgid, hevs, hwrote⟩ := h
  exact ⟨hhash, result, uid, gid, evs', hclean, huid, hgid, hevs, hwrote.of_sameTree htree⟩

theorem Accepted.of_sameTree {begin : TransferBeginMsg} {w₁ : World} (htree : SameTree w w₁)
    (h : Accepted S begin w₁ w' evs) : Accepted S begin w w' evs := by
  obtain ⟨chunks, commit, content, evs', hlen, hids, hid, hcontent, hevs, hchecked⟩ := h
  rw [show w₁.fs = w.fs from htree] at hcontent
  exact ⟨chunks, commit, content, evs', hlen, hids, hid, hcontent, hevs,
    hchecked.of_sameTree htree⟩

/-- An accepted transfer sends its ACK and nothing else. -/
theorem Accepted.sends_eq {begin : TransferBeginMsg} (h : Accepted S begin w w' evs) :
    ∃ text, sends evs = [.transferAck ⟨begin.transferId, text⟩] := by
  obtain ⟨chunks, commit, content, evs', -, -, -, -, rfl, -, result, -, -, evs'', -, -, -, rfl,
    dest, tmp, writes, f, -, -, -, hwrites, rfl⟩ := h
  refine ⟨result.text, ?_⟩
  calc sends _ = sends (chunks.map fun m => Event.received (.transferChunk m)) ++
        sends (writes ++ [Event.touched (.rename dest) tmp,
          .audited (writeRecord S begin.entry content),
          .sent (.transferAck ⟨begin.transferId, result.text⟩)]) := by
        rw [sends_append]
        rfl
    _ = [.transferAck ⟨begin.transferId, result.text⟩] := by
        rw [sends_receivedChunks, sends_append, sends_touched hwrites]
        rfl

theorem writeAndAck_inv {v : Except Exc Unit}
    (h : Runs (writeAndAck S tid entry content result) w evs v w') :
    Verdict tid w w' evs (WroteAndAcked S tid entry content result w w' evs) := by
  obtain ⟨r, w₁, evs₁, evs₂, hwrite, hrest, rfl⟩ := h.bind_attempt_inv
  obtain ⟨-, htouched, -⟩ := touchFrame_atomicWrite _ _ _ _ hwrite
  have hsilent : sends evs₁ = [] := sends_touched htouched
  split at hrest
  · -- `WriteError`
    exact verdict_of_nack hsilent (atomicWrite_error hwrite fun h => h) hrest
  · -- `JailbreakError`
    exact verdict_of_nack hsilent (atomicWrite_error hwrite fun h => h) hrest
  · obtain ⟨-, rfl, -⟩ := hrest.raise_inv
    rw [List.append_nil]
    exact Or.inl hsilent
  · obtain ⟨dest, tmp, uid, gid, writes, hdest, -, -, hfile, rfl⟩ := atomicWrite_ok hwrite
    obtain ⟨evs₃, hsend, rfl⟩ := hrest.bind_emit_inv
    obtain ⟨htree, ⟨e, -, rfl⟩ | ⟨-, rfl⟩⟩ := send_inv hsend
    · -- the file is written, but the ACK does not get out
      refine Or.inl ?_
      rw [sends_append, hsilent]
      rfl
    · refine Or.inr (Or.inr ⟨dest, tmp, writes, stagedFile S.env content entry uid gid, hdest, ?_,
        rfl, fun o ho => htouched o (List.mem_append_left _ ho), ?_⟩)
      · rw [show w'.fs = w₁.fs from htree]
        exact Tree.file_eq_some_iff.mpr hfile
      · rw [List.append_assoc]
        rfl

theorem resolveOwner_ok {ids : Int × Int} (h : resolveOwner S entry = .ok ids) :
    resolveUid S.env.reprStr S.env.accounts entry.uidName S.session.uidPolicy = .ok ids.1 ∧
      resolveGid S.env.reprStr S.env.accounts entry.gidName S.session.gidPolicy = .ok ids.2 := by
  unfold resolveOwner at h
  split at h
  · cases h
  · rename_i uid huid
    split at h
    · cases h
    · rename_i gid hgid
      cases h
      exact ⟨huid, hgid⟩

/-- **Every check has passed**, and what is left of the run is the write and its answer. -/
def ReachesWrite (S : Service) (tid : Uuid) (entry : FileEntry) (commit : TransferCommitMsg)
    (content : Bytes) (w w' : World) (evs : List Event) (v : Except Exc Unit) : Prop :=
  rapidhash content = commit.rapidhash ∧ ∃ result ids w₁ evs', result.isClean = true ∧
    resolveOwner S entry = .ok ids ∧ SameTree w w₁ ∧ evs = .scanned content result :: evs' ∧
    Runs (writeAndAck S tid entry content result) w₁ evs' v w'

theorem ReachesWrite.of_sameTree {v : Except Exc Unit} (htree : SameTree w w₁)
    (h : ReachesWrite S tid entry commit content w₁ w' evs v) :
    ReachesWrite S tid entry commit content w w' evs v := by
  obtain ⟨hhash, result, ids, w₂, evs', hclean, howner, htree', hevs, hrun⟩ := h
  exact ⟨hhash, result, ids, w₂, evs', hclean, howner, htree'.trans htree, hevs, hrun⟩

/-- A write that is reached is checked, when it is acknowledged. -/
theorem ReachesWrite.verdict {v : Except Exc Unit}
    (h : ReachesWrite S tid entry commit content w w' evs v) :
    Verdict tid w w' evs (Checked S tid entry commit content w w' evs) := by
  obtain ⟨hhash, result, ids, w₁, evs', hclean, howner, htree, rfl, hrun⟩ := h
  obtain ⟨huid, hgid⟩ := resolveOwner_ok howner
  refine Verdict.after [.scanned content result] rfl htree (writeAndAck_inv hrun) fun hwrote => ?_
  exact ⟨hhash, result, ids.1, ids.2, evs', hclean, huid, hgid, rfl, hwrote.of_sameTree htree⟩

/-- From the content on: a check fails, or the write is reached. -/
theorem checkAndWrite_cases {v : Except Exc Unit}
    (h : Runs (checkAndWrite S tid entry commit content) w evs v w') :
    TurnedDown tid w w' evs ∨ ReachesWrite S tid entry commit content w w' evs v := by
  unfold checkAndWrite at h
  split at h
  -- `rapidhash_mismatch`
  · exact Or.inl (turnedDown_nack h)
  rename_i hhash
  rw [ne_eq, not_not] at hhash
  rcases h.bind_inv with ⟨e, hscan, -⟩ | ⟨result, w₁, evs₁, evs₂, hscan, hrest, rfl⟩
  · obtain ⟨htree, ⟨e', -, rfl⟩ | ⟨result, hv, -⟩⟩ := scan_inv hscan
    · exact Or.inl (turnedDown_of_idle htree (by simp))
    · cases hv
  obtain ⟨htree, ⟨e', hv, -⟩ | ⟨result', hv, rfl⟩⟩ := scan_inv hscan
  · cases hv
  cases hv
  split at hrest
  · -- infected, or not scanned to the end
    obtain ⟨evs₃, hnack, rfl⟩ := hrest.bind_emit_inv
    exact Or.inl (TurnedDown.after [.scanned content result, .audited _]
      (by simp [Event.Idle]) htree (turnedDown_nack hnack))
  rename_i hclean
  rw [not_not] at hclean
  split at hrest
  -- the policy denies a name
  · obtain ⟨evs₃, hnack, rfl⟩ := hrest.bind_emit_inv
    exact Or.inl (TurnedDown.after [.scanned content result, .audited _]
      (by simp [Event.Idle]) htree (turnedDown_nack hnack))
  · rename_i ids howner
    exact Or.inr ⟨hhash, result, ids, w₁, evs₂, hclean, howner, htree, rfl, hrest⟩

/-- The chunks that a collection took in. -/
theorem collectChunks_ok {n : Nat} {d d' : Dict Int Bytes}
    (h : Runs (collectChunks tid n d) w evs (.ok (some d')) w') :
    ∃ chunks : List TransferChunkMsg, chunks.length = n ∧ (∀ m ∈ chunks, m.transferId = tid) ∧
      evs = (chunks.map fun m => .received (.transferChunk m)) ∧
      d' = chunks.foldl (fun d m => d.set m.seq m.data) d := by
  -- on the number of chunks that are still to come, with the dictionary so far
  induction n generalizing d w evs with
  | zero =>
    obtain ⟨hv, rfl, -⟩ := h.pure_inv
    cases hv
    exact ⟨[], rfl, by simp, rfl, rfl⟩
  | succ n ih =>
    obtain ⟨m, w₁, evs₁, evs₂, hrecv, hrest, rfl⟩ := h.bind_ok_inv
    obtain ⟨-, ⟨text, hv, -⟩ | ⟨m', hv, -, rfl⟩⟩ := recv_inv hrecv
    · cases hv
    cases hv
    split at hrest
    · rename_i chunk
      split at hrest
      · obtain ⟨hv, -, -⟩ := hrest.pure_inv
        cases hv
      · rename_i hid
        rw [ne_eq, not_not] at hid
        obtain ⟨chunks, hlen, hids, rfl, rfl⟩ := ih hrest
        refine ⟨chunk :: chunks, by rw [List.length_cons, hlen], ?_, rfl, rfl⟩
        intro m hm
        rcases List.mem_cons.mp hm with rfl | hm
        · exact hid
        · exact hids m hm
    · obtain ⟨hv, -, -⟩ := hrest.pure_inv
      cases hv

theorem reconstruct_ok {payload : Bytes}
    (h : Runs (reconstruct S entry payload) w evs (.ok content) w') :
    evs = [] ∧ Reconstructed S w.fs entry payload content := by
  unfold reconstruct at h
  split at h
  · rename_i hfull
    obtain ⟨hv, rfl, -⟩ := h.pure_inv
    cases hv
    exact ⟨rfl, Or.inl ⟨hfull, rfl⟩⟩
  rename_i hfull
  obtain ⟨base, w₁, evs₁, evs₂, hbase, happly, rfl⟩ := h.bind_ok_inv
  -- `apply_delta` does nothing but compute
  have hdelta : evs₂ = [] ∧ applyDelta S.env.xdelta base payload = .ok content := by
    split at happly
    · rename_i c hc
      obtain ⟨hv, rfl, -⟩ := happly.pure_inv
      cases hv
      exact ⟨rfl, hc⟩
    · obtain ⟨hv, -, -⟩ := happly.raise_inv
      cases hv
  obtain ⟨rfl, hdelta⟩ := hdelta
  -- the base that was read is the file under the path of the first live record
  unfold readBase at hbase
  split at hbase
  · obtain ⟨hv, -, -⟩ := hbase.raise_inv
    cases hv
  rename_i baseRapidhash hhash
  split at hbase
  · rename_i path record hfind
    obtain ⟨p, w₂, evs₃, evs₄, hresolve, hread, rfl⟩ := hbase.bind_ok_inv
    obtain ⟨htree, rfl, ⟨p', hv, hp⟩ | ⟨err, hv, -⟩ | ⟨e, hv, -⟩⟩ := jailResolve_inv hresolve
    · cases hv
      obtain ⟨-, rfl, ⟨f, hv, hf⟩ | ⟨e, hv, -⟩⟩ := readBytes_inv hread
      · cases hv
        rw [show w₂.fs = w.fs from htree] at hf
        exact ⟨rfl, Or.inr ⟨by simpa using hfull, baseRapidhash, path, record, p, f, hhash, hfind,
          hp, hf, hdelta⟩⟩
      · cases hv
    · cases hv
    · cases hv
  · obtain ⟨hv, -, -⟩ := hbase.raise_inv
    cases hv

/-- From the commit on. -/
theorem finishTransfer_cases {begin : TransferBeginMsg} {chunks : Dict Int Bytes}
    {v : Except Exc Unit} (h : Runs (finishTransfer S begin chunks commit) w evs v w') :
    TurnedDown begin.transferId w w' evs ∨ ∃ content,
      Reconstructed S w.fs begin.entry (joinChunks chunks) content ∧
      ReachesWrite S begin.transferId begin.entry commit content w w' evs v := by
  obtain ⟨r, w₁, evs₁, evs₂, hrec, hrest, rfl⟩ := h.bind_attempt_inv
  obtain ⟨htree, hidle, -⟩ := idleFrame_reconstruct _ _ _ _ _ _ hrec
  -- a `PatchError`, an `OSError`, any other exception, or a content
  split at hrest
  · exact Or.inl ((turnedDown_nack hrest).after _ hidle htree)
  · exact Or.inl ((turnedDown_nack hrest).after _ hidle htree)
  · obtain ⟨-, rfl, rfl⟩ := hrest.raise_inv
    rw [List.append_nil]
    exact Or.inl (turnedDown_of_idle htree hidle)
  · rename_i content
    obtain ⟨rfl, hcontent⟩ := reconstruct_ok hrec
    rcases checkAndWrite_cases hrest with hdown | hreaches
    · exact Or.inl (hdown.after _ hidle htree)
    · exact Or.inr ⟨content, hcontent, hreaches.of_sameTree htree⟩

/-- **A transfer that reaches its write.** Exactly the announced number of chunks and then a commit
came in, all with the transfer's id; they stand for a content that passed the checks. -/
def Reaches (S : Service) (begin : TransferBeginMsg) (w w' : World) (evs : List Event)
    (v : Except Exc Unit) : Prop :=
  ∃ (chunks : List TransferChunkMsg) (commit : TransferCommitMsg) (content : Bytes)
    (evs' : List Event),
    (chunks.length : Int) = begin.chunkCount ∧
    (∀ m ∈ chunks, m.transferId = begin.transferId) ∧ commit.transferId = begin.transferId ∧
    Reconstructed S w.fs begin.entry (joinChunks (chunkDict chunks)) content ∧
    evs = (chunks.map fun m => .received (.transferChunk m)) ++
      .received (.transferCommit commit) :: evs' ∧
    ReachesWrite S begin.transferId begin.entry commit content w w' evs' v

theorem Reaches.verdict {begin : TransferBeginMsg} {v : Except Exc Unit}
    (h : Reaches S begin w w' evs v) :
    Verdict begin.transferId w w' evs (Accepted S begin w w' evs) := by
  obtain ⟨chunks, commit, content, evs', hlen, hids, hid, hcontent, rfl, hreaches⟩ := h
  have hsilent : sends ((chunks.map fun m => Event.received (.transferChunk m)) ++
      [.received (.transferCommit commit)]) = [] := by
    rw [sends_append, sends_receivedChunks]
    rfl
  rw [← List.singleton_append, ← List.append_assoc]
  refine Verdict.after _ hsilent rfl hreaches.verdict fun hchecked => ?_
  refine ⟨chunks, commit, content, evs', hlen, hids, hid, hcontent, ?_, hchecked⟩
  rw [List.append_assoc, List.singleton_append]

/-- **What a run of the handler can have been**: turned down before anything was written, or on to
the write. -/
theorem handleTransfer_cases {begin : TransferBeginMsg} (hvalid : begin.Valid)
    {v : Except Exc Unit} (h : Runs (handleTransfer S begin) w evs v w') :
    TurnedDown begin.transferId w w' evs ∨ Reaches S begin w w' evs v := by
  obtain ⟨r, w₁, evs₁, evs₂, hresolve, hrest, rfl⟩ := h.bind_attempt_inv
  obtain ⟨htree, rfl, -⟩ := jailResolve_inv hresolve
  rw [List.nil_append]
  split at hrest
  · -- a path that escapes: the rest of the transfer is read and thrown away
    obtain ⟨evs₃, hdrain, rfl⟩ := hrest.bind_emit_inv
    obtain ⟨r', w₂, evs₄, evs₅, hread, hnack, rfl⟩ := hdrain.bind_attempt_inv
    obtain ⟨htree', hidle, -⟩ := idleFrame_drain _ _ _ _ _ hread
    refine Or.inl (TurnedDown.after [.audited _] (by simp [Event.Idle]) htree ?_)
    exact (turnedDown_nack hnack).after _ hidle htree'
  · obtain ⟨-, rfl, rfl⟩ := hrest.raise_inv
    exact Or.inl (turnedDown_of_idle htree (by simp))
  -- the chunks
  rcases hrest.bind_inv with ⟨e, hcollect, -⟩ | ⟨r', w₂, evs₃, evs₄, hcollect, hrest', rfl⟩
  · obtain ⟨htree', hidle, -⟩ := idleFrame_collectChunks _ _ _ _ _ _ _ hcollect
    exact Or.inl (turnedDown_of_idle (htree'.trans htree) hidle)
  obtain ⟨htree', hidle, -⟩ := idleFrame_collectChunks _ _ _ _ _ _ _ hcollect
  have htree₂ : SameTree w w₂ := htree'.trans htree
  split at hrest'
  · exact Or.inl ((turnedDown_nack hrest').after _ hidle htree₂)
  rename_i d
  obtain ⟨chunks, hlen, hids, rfl, rfl⟩ := collectChunks_ok hcollect
  -- a negative count is no count: `range` of it would be empty
  have hcount : (chunks.length : Int) = begin.chunkCount := by
    have hpos := hvalid.chunkCount
    rw [hlen]
    omega
  -- the commit
  rcases hrest'.bind_inv with ⟨e, hrecv, -⟩ | ⟨m, w₃, evs₅, evs₆, hrecv, hlast, rfl⟩
  · obtain ⟨htree'', hidle', -⟩ := idleFrame_recv _ _ _ _ hrecv
    exact Or.inl ((turnedDown_of_idle htree'' hidle').after _ hidle htree₂)
  obtain ⟨htree'', ⟨text, hv, -⟩ | ⟨m', hv, -, rfl⟩⟩ := recv_inv hrecv
  · cases hv
  cases hv
  have hidle' : ∀ o ∈ [Event.received m], o.Idle := by simp [Event.Idle]
  have hdown : TurnedDown begin.transferId w₃ w' evs₆ → TurnedDown begin.transferId w w'
      ((chunks.map fun m => Event.received (.transferChunk m)) ++ ([.received m] ++ evs₆)) :=
    fun h => (h.after _ hidle' htree'').after _ hidle htree₂
  split at hlast
  · rename_i commit
    split at hlast
    · exact Or.inl (hdown (turnedDown_nack hlast))
    -- it is the commit of this transfer
    · rename_i hid
      rw [ne_eq, not_not] at hid
      have htree₃ : SameTree w w₃ := htree''.trans htree₂
      rcases finishTransfer_cases hlast with hrefused | ⟨content, hcontent, hreaches⟩
      · exact Or.inl (hdown hrefused)
      · rw [show w₃.fs = w.fs from htree₃] at hcontent
        exact Or.inr ⟨chunks, commit, content, evs₆, hcount, hids, hid, hcontent, rfl,
          hreaches.of_sameTree htree₃⟩
  · exact Or.inl (hdown (turnedDown_nack hlast))

/-- **What a run of the handler answers**, for a `TRANSFER_BEGIN` that passed its validators. -/
theorem handleTransfer_inv {begin : TransferBeginMsg} (hvalid : begin.Valid)
    {v : Except Exc Unit} (h : Runs (handleTransfer S begin) w evs v w') :
    Verdict begin.transferId w w' evs (Accepted S begin w w' evs) := by
  rcases handleTransfer_cases hvalid h with hdown | hreaches
  · exact hdown.verdict
  · exact hreaches.verdict

end Acceptance

end Chiralite
