import Chiralite.Server.NamedEntries
import Chiralite.Server.Permissions

/-!
# What the audit log tells

A session writes a record of every file it has put in place, deleted or renamed. The record of a
write carries the hash and the size of the content and the time that the file was given; that of a
delete or of a rename carries its paths. Here the log is read back: `AuditEvent.replay` says what a
record makes of the files, as far as a log can tell them (`Stamp`), and `replayLog` runs through a
log. Which time the file system keeps when it is given one is the reader's to know (`Reading`).

The files that the log does not tell of are the temporary ones of the writer: one is left behind
when its removal fails. Everywhere else the log is complete and true. Whatever the client sends,
and whichever calls fail, the files at the end of a session are those that its records make of the
files at its start (`audit_log_replays`), each record read with the paths as they resolved in its
turn. The one exception is a client that renames a temporary file it found.
-/

namespace Chiralite

open Py Posix Effect

/-! ### Reading a log -/

/-- What a log can tell of a file. -/
structure Stamp where
  rapidhash : Int
  size : Nat
  mtimeNs : Int
  deriving DecidableEq

/-- The stamp of a file. -/
def FileData.stamp (f : FileData) : Stamp := ⟨rapidhash f.content, f.content.length, f.mtimeNs⟩

/-- The files of a tree by their stamps. -/
abbrev Stamps := Location → Option Stamp

/-- The stamps of the regular files. -/
def stampsOf (t : Tree) : Stamps := fun q => (t.file q).map FileData.stamp

/-- The stamps with another one at a location, or none. -/
def Stamps.put (s : Stamps) (p : Location) (stamp : Option Stamp) : Stamps := fun q =>
  if q = p then stamp else s q

/-- The stamps after the entry at `src` was moved to `dst`, with all that is below it. -/
def Stamps.move (s : Stamps) (src dst : Location) : Stamps := fun q =>
  if src = dst then s q
  else if dst <+: q then s (src ++ q.drop dst.length)
  else if src <+: q then none
  else s q

/-- A change to the files. -/
inductive FileChange where
  /-- A file is put in place, or taken away. -/
  | put (p : Location) (stamp : Option Stamp)
  | move (src dst : Location)

/-- The stamps after a change. -/
def FileChange.apply (s : Stamps) : FileChange → Stamps
  | .put p stamp => s.put p stamp
  | .move src dst => s.move src dst

/-- How a log is read: which place a path names, and which time the file system keeps when it is
given the time of a record. -/
structure Reading where
  locate : Str → Option Location
  storedNs : Int → Int

/-- **The change that a record tells of.** -/
def AuditEvent.change? (R : Reading) : AuditEvent → Option FileChange
  | .fileWrite _ _ path _ rapidhashAfter recvTsNs _ sizeBytes =>
    (R.locate path).map fun dest =>
      .put dest (some ⟨rapidhashAfter, sizeBytes, R.storedNs recvTsNs⟩)
  | .fileDelete _ _ path => (R.locate path).map fun p => .put p none
  | .fileRename _ _ oldPath newPath =>
    match R.locate oldPath, R.locate newPath with
    | some src, some dst => some (.move src dst)
    | _, _ => none
  -- the others tell of what was turned down
  | _ => none

/-- The paths of what a record says was changed. -/
def AuditEvent.paths : AuditEvent → List Str
  | .fileWrite _ _ path _ _ _ _ _ => [path]
  | .fileDelete _ _ path => [path]
  | .fileRename _ _ oldPath newPath => [oldPath, newPath]
  | _ => []

/-- What a record makes of the files. -/
def AuditEvent.replay (R : Reading) (s : Stamps) (record : AuditEvent) :
    Stamps :=
  match record.change? R with
  | some c => c.apply s
  | none => s

/-- The record that an event writes. -/
def Event.record? : Event → Option AuditEvent
  | .audited record => some record
  | _ => none

/-- The audit log of a run. -/
def auditRecords (evs : List Event) : List AuditEvent := evs.filterMap Event.record?

/-- What a log makes of the files, from its first record to its last. -/
def replayLog (R : Reading) (s : Stamps) (records : List AuditEvent) : Stamps :=
  records.foldl (AuditEvent.replay R) s

/-- A location with the name of a temporary file. -/
def IsTmp (q : Location) : Prop := ∃ dir id, q = dir ++ [tmpName id]

/-- The stamps are the same but for temporary files. -/
def SameOffTmp (s s' : Stamps) : Prop := ∀ q, ¬ IsTmp q → s q = s' q

/-- No record tells that a temporary file was renamed. -/
def MovesNoTmp (R : Reading) (records : List AuditEvent) : Prop :=
  ∀ record ∈ records, ∀ src dst, record.change? R = some (.move src dst) → ¬ IsTmp src

@[simp] theorem auditRecords_nil : auditRecords [] = [] := rfl

@[simp] theorem auditRecords_append (evs evs' : List Event) :
    auditRecords (evs ++ evs') = auditRecords evs ++ auditRecords evs' := List.filterMap_append

theorem mem_auditRecords {record : AuditEvent} {evs : List Event} :
    record ∈ auditRecords evs ↔ .audited record ∈ evs := by
  unfold auditRecords
  rw [List.mem_filterMap]
  constructor
  · rintro ⟨o, ho, heq⟩
    cases o with
    | audited r =>
      cases heq
      exact ho
    | received m => cases heq
    | sent m => cases heq
    | scanned content result => cases heq
    | touched op p => cases heq
  · intro h
    exact ⟨_, h, rfl⟩

theorem AuditEvent.change?_of_no_paths {R : Reading} {record : AuditEvent}
    (h : record.paths = []) : record.change? R = none := by
  cases record with
  | fileWrite clientCn siloId path before after recvTsNs delta sizeBytes => cases h
  | fileDelete clientCn siloId path => cases h
  | fileRename clientCn siloId oldPath newPath => cases h
  | quarantine clientCn siloId path virus => rfl
  | pathTraversal clientCn siloId path => rfl
  | uidDenied clientCn siloId name => rfl

/-- Only the places of the record's own paths matter, and the times that are kept. -/
theorem AuditEvent.change?_congr {R R' : Reading} {record : AuditEvent}
    (h : ∀ path ∈ record.paths, R.locate path = R'.locate path)
    (hstored : R.storedNs = R'.storedNs) : record.change? R = record.change? R' := by
  cases record with
  | fileWrite clientCn siloId path before after recvTsNs delta sizeBytes =>
    simp only [AuditEvent.change?, h path List.mem_cons_self, hstored]
  | fileDelete clientCn siloId path => simp only [AuditEvent.change?, h path List.mem_cons_self]
  | fileRename clientCn siloId oldPath newPath =>
    simp only [AuditEvent.change?, h oldPath List.mem_cons_self,
      h newPath (List.mem_cons_of_mem _ List.mem_cons_self)]
  | quarantine clientCn siloId path virus => rfl
  | pathTraversal clientCn siloId path => rfl
  | uidDenied clientCn siloId name => rfl

section Replay

variable {R : Reading} {s s' s'' : Stamps} {records records' : List AuditEvent}

@[simp] theorem replayLog_nil : replayLog R s [] = s := rfl

@[simp] theorem replayLog_cons {record : AuditEvent} :
    replayLog R s (record :: records) =
      replayLog R (record.replay R s) records := rfl

/-- A log without changes makes nothing of the files. -/
theorem replayLog_of_no_paths (h : ∀ record ∈ records, record.paths = []) :
    replayLog R s records = s := by
  induction records generalizing s with
  | nil => rfl
  | cons record records ih =>
    have hfirst : record.replay R s = s := by
      rw [AuditEvent.replay, AuditEvent.change?_of_no_paths (h record List.mem_cons_self)]
    rw [replayLog_cons, hfirst]
    exact ih fun r hr => h r (List.mem_cons_of_mem _ hr)

theorem SameOffTmp.trans (h : SameOffTmp s s') (h' : SameOffTmp s' s'') : SameOffTmp s s'' :=
  fun q hq => (h q hq).trans (h' q hq)

theorem MovesNoTmp.left (h : MovesNoTmp R (records ++ records')) :
    MovesNoTmp R records := fun record hmem => h record (List.mem_append_left _ hmem)

theorem MovesNoTmp.right (h : MovesNoTmp R (records ++ records')) :
    MovesNoTmp R records' := fun record hmem => h record (List.mem_append_right _ hmem)

/-- What lies below an entry that is moved keeps its name, so that it is no temporary file, unless
the entry is one itself. -/
theorem not_isTmp_moved {src dst rest : Location} (hsrc : ¬ IsTmp src)
    (hq : ¬ IsTmp (dst ++ rest)) : ¬ IsTmp (src ++ rest) := by
  rcases List.eq_nil_or_concat rest with rfl | ⟨init, last, rfl⟩
  · rw [List.append_nil]
    exact hsrc
  · rw [List.concat_eq_append] at hq ⊢
    rintro ⟨dir, id, heq⟩
    rw [← List.append_assoc] at heq
    obtain ⟨-, hlast⟩ := List.append_inj' heq rfl
    refine hq ⟨dst ++ init, id, ?_⟩
    rw [hlast, List.append_assoc]

theorem SameOffTmp.move {src dst : Location} (h : SameOffTmp s s') (hsrc : ¬ IsTmp src) :
    SameOffTmp (s.move src dst) (s'.move src dst) := by
  intro q hq
  unfold Stamps.move
  split
  · exact h q hq
  split
  · rename_i hpre
    obtain ⟨rest, rfl⟩ := hpre
    rw [List.drop_left]
    exact h _ (not_isTmp_moved hsrc hq)
  split
  · rfl
  · exact h q hq

theorem SameOffTmp.put {p : Location} {stamp : Option Stamp} (h : SameOffTmp s s') :
    SameOffTmp (s.put p stamp) (s'.put p stamp) := by
  intro q hq
  unfold Stamps.put
  split
  · rfl
  · exact h q hq

/-- A record makes the same of files that are the same. -/
theorem SameOffTmp.replay {record : AuditEvent} (h : SameOffTmp s s')
    (htmp : MovesNoTmp R [record]) :
    SameOffTmp (record.replay R s) (record.replay R s') := by
  unfold AuditEvent.replay
  cases hchange : record.change? R with
  | none => exact h
  | some c =>
    cases c with
    | put p stamp => exact h.put
    | move src dst => exact h.move (htmp record List.mem_cons_self src dst hchange)

theorem SameOffTmp.replayLog (h : SameOffTmp s s') (htmp : MovesNoTmp R records) :
    SameOffTmp (replayLog R s records) (replayLog R s' records) := by
  induction records generalizing s s' with
  | nil => exact h
  | cons record records ih =>
    have hboth : MovesNoTmp R ([record] ++ records) := htmp
    exact ih (h.replay hboth.left) hboth.right

end Replay

/-! ### What the handlers tell -/

/-- The place that a path names to a session. -/
def Service.locate (S : Service) (t : Tree) (path : Str) : Option Location :=
  match S.session.jail.resolve t S.env.fuel S.env.lstatError path with
  | some (.ok p) => some p
  | _ => none

/-- How the records of a turn are read, on the tree as it was before the turn. -/
def Service.reading (S : Service) (t : Tree) : Reading := ⟨S.locate t, S.env.storedNs⟩

/-- **The run tells of all it did.** Off the temporary files, the files are what they were, and
the log has no change; or its one record, whose paths name places, makes the files after the run of
those before it. -/
def Told (S : Service) (w : World) (evs : List Event) (w' : World) : Prop :=
  ((∀ record ∈ auditRecords evs, record.paths = []) ∧
      SameOffTmp (stampsOf w'.fs) (stampsOf w.fs)) ∨
    ∃ record, auditRecords evs = [record] ∧
      (∀ path ∈ record.paths, (validateRelativePath path).Ok ∧
        ∃ p, S.session.jail.resolve w.fs S.env.fuel S.env.lstatError path = some (.ok p)) ∧
      SameOffTmp (stampsOf w'.fs) (record.replay (S.reading w.fs) (stampsOf w.fs))

section Handlers

variable {S : Service} {w w₁ w' : World} {evs evs' : List Event}

theorem Service.reading_eq {t : Tree} {path : Str} {p : Location}
    (h : S.session.jail.resolve t S.env.fuel S.env.lstatError path = some (.ok p)) :
    (S.reading t).locate path = some p := by
  show S.locate t path = some p
  unfold Service.locate
  rw [h]

theorem SameFiles.stampsOf (h : SameFiles w w') : stampsOf w'.fs = stampsOf w.fs := by
  funext q
  rw [Chiralite.stampsOf, Chiralite.stampsOf, h q]

theorem stampsOf_eq {t t' : Tree} {q : Location} (h : t'.node q = t.node q) :
    stampsOf t' q = stampsOf t q := by
  rw [stampsOf, stampsOf, Tree.file, Tree.file, h]

theorem auditRecords_touched (h : ∀ o ∈ evs, ∃ op p, o = .touched op p) :
    auditRecords evs = [] := by
  refine List.filterMap_eq_nil_iff.mpr fun o ho => ?_
  obtain ⟨op, p, rfl⟩ := h o ho
  rfl

/-- What changes no file and records no change. -/
theorem told_of_sameFiles (hlog : ∀ record ∈ auditRecords evs, record.paths = [])
    (hfiles : SameFiles w w') : Told S w evs w' :=
  Or.inl ⟨hlog, fun q _ => by rw [hfiles.stampsOf]⟩

/-- What happened in front of a run and is not recorded does not matter. -/
theorem Told.after (hlog : auditRecords evs' = []) (htree : SameTree w w₁) (h : Told S w₁ evs w') :
    Told S w (evs' ++ evs) w' := by
  unfold Told at h ⊢
  rw [auditRecords_append, hlog, List.nil_append, ← show w₁.fs = w.fs from htree]
  exact h

theorem Event.Idle.no_paths {record : AuditEvent} (h : (Event.audited record).Idle) :
    record.paths = [] := by
  cases record with
  | quarantine clientCn siloId path virus => rfl
  | pathTraversal clientCn siloId path => rfl
  | uidDenied clientCn siloId name => rfl
  | fileWrite clientCn siloId path before after recvTsNs delta sizeBytes => cases h
  | fileDelete clientCn siloId path => cases h
  | fileRename clientCn siloId oldPath newPath => cases h

/-- What is turned down is not told of, and has changed nothing. -/
theorem TurnedDown.told {tid : Uuid} (h : TurnedDown tid w w' evs) : Told S w evs w' := by
  obtain ⟨htree, idle, hidle, hevs⟩ := h
  refine told_of_sameFiles (fun record hmem => ?_) htree.sameFiles
  rw [mem_auditRecords] at hmem
  have hmem' : Event.audited record ∈ idle := by
    rcases hevs with rfl | ⟨reason, rfl⟩
    · exact hmem
    · simpa using hmem
  exact (hidle _ hmem').no_paths

/-! ### Writes -/

/-- A removal fails and leaves the tree as it is, or nothing is there any more. -/
theorem unlinkMissingOk_result {E : Env} {p : Location} {v : Except Exc Unit}
    (h : Runs (unlinkMissingOk E p) w evs v w') :
    ((∃ e, v = .error e) ∧ SameTree w w') ∨
      (v = .ok () ∧ ∀ q, w'.fs.node q = if q = p then none else w.fs.node q) := by
  rcases (unlinkMissingOk_inv h).2 with ⟨e, rfl, -⟩ | hok
  · rcases unlinkMissingOk_cases h with ⟨e', -, -, -, htree⟩ | ⟨hv, -⟩ | ⟨hv, -⟩
    · exact Or.inl ⟨⟨e, rfl⟩, htree⟩
    · cases hv
    · cases hv
  · exact Or.inr hok

theorem unlinkMissingOk_elsewhere {E : Env} {p q : Location} {v : Except Exc Unit}
    (h : Runs (unlinkMissingOk E p) w evs v w') (hq : q ≠ p) : w'.fs.node q = w.fs.node q := by
  rcases unlinkMissingOk_result h with ⟨-, htree⟩ | ⟨-, hnode⟩
  · rw [show w'.fs = w.fs from htree]
  · rw [hnode q, if_neg hq]

section Write

variable {E : Env} {jail : PathJail} {relativePath : Str} {content : Bytes} {entry : FileEntry}
  {v : Except Exc Unit}

/-- The name that a write draws is that of a temporary file. -/
theorem attemptWrite_isTmp {tmp : Location} {r : Except Exc Unit}
    (h : Runs (attemptWrite E jail relativePath content entry) w evs (.ok (tmp, r)) w') :
    IsTmp tmp := by
  obtain ⟨dest, w₁, _, _, -, h₁, -⟩ := h.bind_ok_inv
  obtain ⟨_, w₂, _, _, -, h₂, -⟩ := h₁.bind_ok_inv
  obtain ⟨r', w₃, _, _, -, hpure, -⟩ := h₂.bind_look_inv.bind_attempt_inv
  obtain ⟨hv, -, -⟩ := hpure.pure_inv
  cases hv
  exact ⟨_, _, rfl⟩

/-- The stamp of the file that a write puts in place. -/
def writtenStamp (E : Env) (entry : FileEntry) (content : Bytes) : Stamp :=
  ⟨rapidhash content, content.length, E.storedNs entry.mtimeTotalNs⟩

/-- **What a write makes of the files**: it raises, and they are what they were; or it returns, and
the file with the content and what is kept of the entry's time is in place. -/
theorem atomicWrite_stamps
    (h : Runs (atomicWrite E jail relativePath content entry) w evs v w') :
    ((∃ e, v = .error e) ∧ SameOffTmp (stampsOf w'.fs) (stampsOf w.fs)) ∨
      (v = .ok () ∧ ∃ dest, jail.resolve w.fs E.fuel E.lstatError relativePath = some (.ok dest) ∧
        SameOffTmp (stampsOf w'.fs)
          ((stampsOf w.fs).put dest (some (writtenStamp E entry content)))) := by
  rcases atomicWrite_inv h with ⟨e, rfl, -, htree⟩ | ⟨dest, hdest, ⟨e, rfl, hmade⟩ |
    ⟨tmp, r, w₁, w₂, evs₁, evs₂, evs₃, -, -, hmade, -, hbody, hout, -, evs₀, hattempt⟩⟩
  · exact Or.inl ⟨⟨e, rfl⟩, fun q _ => by rw [htree.sameFiles.stampsOf]⟩
  · exact Or.inl ⟨⟨e, rfl⟩, fun q _ => by rw [hmade.dirsAdded.sameFiles.stampsOf]⟩
  have htmp := attemptWrite_isTmp hattempt
  have hstart : stampsOf w₁.fs = stampsOf w.fs := hmade.dirsAdded.sameFiles.stampsOf
  rw [← hstart]
  have hoff : ∀ {q}, ¬ IsTmp q → q ≠ tmp := fun hq heq => hq (heq ▸ htmp)
  cases r with
  | error e =>
    -- the body touched the temporary file alone, and so did its removal
    obtain ⟨e', hundo⟩ := wayOut_error hout
    have hbefore := (writeBody_error hbody).1
    rcases hundo.bind_inv with ⟨e'', hunlink, rfl⟩ | ⟨_, w₃, evs₄, evs₅, hunlink, hraise, -⟩
    · refine Or.inl ⟨⟨e'', rfl⟩, fun q hq => stampsOf_eq ?_⟩
      exact (unlinkMissingOk_elsewhere hunlink (hoff hq)).trans (hbefore q (hoff hq))
    · obtain ⟨rfl, -, rfl⟩ := hraise.raise_inv
      refine Or.inl ⟨⟨e', rfl⟩, fun q hq => stampsOf_eq ?_⟩
      exact (unlinkMissingOk_elsewhere hunlink (hoff hq)).trans (hbefore q (hoff hq))
  | ok u =>
    obtain ⟨rfl, -, rfl⟩ := hout.pure_inv
    obtain ⟨uid, gid, -, -, -, hfile, -⟩ := writeBody_ok hbody
    refine Or.inr ⟨rfl, dest, hdest, fun q hq => ?_⟩
    unfold Stamps.put
    split
    · rename_i heq
      rw [heq, stampsOf, Tree.file_eq_some_iff.mpr hfile]
      rfl
    · rename_i hne
      exact stampsOf_eq ((writeBody_moved hbody).1 q hne (hoff hq))

end Write

/-- A write that returns is recorded before anything else can fail. -/
theorem writeAndAck_told {tid : Uuid} {entry : FileEntry} {content : Bytes} {result : ScanResult}
    {v : Except Exc Unit} (hpath : (validateRelativePath entry.path).Ok)
    (h : Runs (writeAndAck S tid entry content result) w evs v w') : Told S w evs w' := by
  obtain ⟨r, w₁, evs₁, evs₂, hwrite, hrest, rfl⟩ := h.bind_attempt_inv
  have hlog : auditRecords evs₁ = [] :=
    auditRecords_touched (touchFrame_atomicWrite _ _ _ _ hwrite).2.1
  unfold Told
  rw [auditRecords_append, hlog, List.nil_append]
  rcases atomicWrite_stamps hwrite with ⟨⟨e, rfl⟩, hsame⟩ | ⟨rfl, dest, hdest, hsame⟩
  · -- a NACK at most comes after it
    have hnack : ∀ {reason v}, Runs (nack S tid reason) w₁ evs₂ v w' →
        SameTree w₁ w' ∧ auditRecords evs₂ = [] := by
      intro reason v hnack
      obtain ⟨htree, rfl | rfl⟩ := nack_inv hnack
      · exact ⟨htree, rfl⟩
      · exact ⟨htree, rfl⟩
    have hend : SameTree w₁ w' ∧ auditRecords evs₂ = [] := by
      split at hrest
      · exact hnack hrest
      · exact hnack hrest
      · obtain ⟨-, rfl, rfl⟩ := hrest.raise_inv
        exact ⟨rfl, rfl⟩
      · rename_i hv
        cases hv
    obtain ⟨htree, hnone⟩ := hend
    rw [hnone, htree.sameFiles.stampsOf]
    exact Or.inl ⟨by simp, hsame⟩
  · obtain ⟨evs₃, hsend, rfl⟩ := hrest.bind_emit_inv
    have hsent : SameTree w₁ w' ∧ auditRecords evs₃ = [] := by
      obtain ⟨htree, ⟨e, -, rfl⟩ | ⟨-, rfl⟩⟩ := send_inv hsend
      · exact ⟨htree, rfl⟩
      · exact ⟨htree, rfl⟩
    obtain ⟨htree, hnone⟩ := hsent
    refine Or.inr ⟨writeRecord S entry content, ?_, ?_, ?_⟩
    · show writeRecord S entry content :: auditRecords evs₃ = _
      rw [hnone]
    · intro path hmem
      rw [List.mem_singleton.mp hmem]
      exact ⟨hpath, dest, hdest⟩
    · rw [AuditEvent.replay, writeRecord, AuditEvent.change?, Service.reading_eq hdest,
        htree.sameFiles.stampsOf]
      exact hsame

theorem auditRecords_receivedChunks (chunks : List TransferChunkMsg) :
    auditRecords (chunks.map fun m => Event.received (.transferChunk m)) = [] := by
  refine List.filterMap_eq_nil_iff.mpr fun o ho => ?_
  obtain ⟨m, -, rfl⟩ := List.mem_map.mp ho
  rfl

theorem handleTransfer_told {begin : TransferBeginMsg} (hvalid : begin.Valid)
    {v : Except Exc Unit} (h : Runs (handleTransfer S begin) w evs v w') : Told S w evs w' := by
  rcases handleTransfer_cases hvalid h with hdown | ⟨chunks, commit, content, evs₁, -, -, -, -,
    rfl, -, result, ids, w₁, evs₂, -, -, htree, rfl, hwrite⟩
  · exact hdown.told
  · -- the chunks, the commit and the scan leave no record
    have hlog : auditRecords ((chunks.map fun m => Event.received (.transferChunk m)) ++
        [.received (.transferCommit commit), .scanned content result]) = [] := by
      rw [auditRecords_append, auditRecords_receivedChunks]
      rfl
    rw [show (chunks.map fun m => Event.received (.transferChunk m)) ++
        .received (.transferCommit commit) :: .scanned content result :: evs₂ =
        ((chunks.map fun m => Event.received (.transferChunk m)) ++
          [.received (.transferCommit commit), .scanned content result]) ++ evs₂ by simp]
    exact (writeAndAck_told hvalid.entry.path hwrite).after hlog htree

/-! ### Deletes and renames -/

/-- The one record of a run that recorded nothing in front of it. -/
theorem auditRecords_concat (hlog : auditRecords evs = []) (record : AuditEvent) :
    auditRecords (evs ++ [.audited record]) = [record] := by
  rw [auditRecords_append, hlog]
  rfl

theorem handleDelete_told {msg : FileDeleteMsg} (hpath : (validateRelativePath msg.path).Ok)
    {v : Except Exc Unit} (h : Runs (handleDelete S msg) w evs v w') : Told S w evs w' := by
  obtain ⟨r, w₁, evs₁, evs₂, hresolve, hrest, rfl⟩ := h.bind_attempt_inv
  obtain ⟨htree, rfl, hend⟩ := jailResolve_inv hresolve
  refine Told.after rfl htree ?_
  -- a `JailbreakError` is recorded as such, and any other exception goes on
  split at hrest
  · cases hrest
    exact told_of_sameFiles (by simp [auditRecords, Event.record?, AuditEvent.paths]) fun q => rfl
  · obtain ⟨-, rfl, rfl⟩ := hrest.raise_inv
    exact told_of_sameFiles (by simp) fun q => rfl
  rename_i p
  have hp : S.session.jail.resolve w₁.fs S.env.fuel S.env.lstatError msg.path = some (.ok p) := by
    rw [show w₁.fs = w.fs from htree]
    rcases hend with ⟨p', hv, hp⟩ | ⟨err, hv, -⟩ | ⟨e, hv, -⟩
    · cases hv
      exact hp
    · cases hv
    · cases hv
  obtain ⟨r', w₂, evs₃, evs₄, hunlink, hlast, rfl⟩ := hrest.bind_attempt_inv
  have hlog : auditRecords evs₃ = [] :=
    auditRecords_touched fun o ho => ⟨.unlink, p, (unlinkMissingOk_inv hunlink).1 o ho⟩
  rcases unlinkMissingOk_result hunlink with ⟨⟨e, rfl⟩, hfails⟩ | ⟨rfl, hnode⟩
  · -- the failure is not recorded, and nothing was removed
    split at hlast
    · obtain ⟨-, rfl, rfl⟩ := hlast.pure_inv
      exact told_of_sameFiles (by simp [hlog]) hfails.sameFiles
    · obtain ⟨-, rfl, rfl⟩ := hlast.raise_inv
      exact told_of_sameFiles (by simp [hlog]) hfails.sameFiles
    · rename_i hv
      cases hv
  · cases hlast
    refine Or.inr ⟨_, auditRecords_concat hlog _, fun path hmem => ?_, fun q _ => ?_⟩
    · rw [List.mem_singleton.mp hmem]
      exact ⟨hpath, p, hp⟩
    rw [AuditEvent.replay, AuditEvent.change?, Service.reading_eq hp]
    show _ = (stampsOf w₁.fs).put p none q
    unfold Stamps.put
    split
    · rename_i heq
      rw [stampsOf, Tree.file, hnode q, if_pos heq]
      rfl
    · rename_i hne
      exact stampsOf_eq ((hnode q).trans (if_neg hne))

theorem stampsOf_rename {t t' : Tree} {src dst : Location} (h : t.rename src dst = .ok t') :
    stampsOf t' = (stampsOf t).move src dst := by
  funext q
  unfold Stamps.move
  by_cases heq : src = dst
  · rw [if_pos heq]
    rw [heq] at h
    rw [Tree.rename_self_ok h]
  · rw [if_neg heq, stampsOf, Tree.file, (Tree.rename_ok heq h).2 q, Tree.movedNode]
    by_cases hdst : dst <+: q
    · rw [if_pos hdst, if_pos hdst]
      rfl
    rw [if_neg hdst, if_neg hdst]
    by_cases hsrc : src <+: q
    · rw [if_pos hsrc, if_pos hsrc]
      rfl
    · rw [if_neg hsrc, if_neg hsrc]
      rfl

theorem resolveEnds_events {msg : FileRenameMsg} {v : Except Exc (Location × Location)}
    (h : Runs (resolveEnds S msg) w evs v w') : evs = [] := by
  rcases h.bind_inv with ⟨e, hsrc, -⟩ | ⟨src, w₁, evs₁, evs₂, hsrc, hrest, rfl⟩
  · exact (jailResolve_inv hsrc).2.1
  rw [(jailResolve_inv hsrc).2.1, List.nil_append]
  rcases hrest.bind_inv with ⟨e, hdst, -⟩ | ⟨dst, w₂, evs₃, evs₄, hdst, hpure, rfl⟩
  · exact (jailResolve_inv hdst).2.1
  · rw [(jailResolve_inv hdst).2.1, hpure.pure_inv.2.1]
    rfl

/-- A move fails and has changed no file, or everything at the source is at the destination. -/
theorem moveEntry_inv {src dst : Location} {v : Except Exc Unit}
    (h : Runs (moveEntry S src dst) w evs v w') :
    auditRecords evs = [] ∧ (((∃ e, v = .error e) ∧ SameFiles w w') ∨
      (v = .ok () ∧ stampsOf w'.fs = (stampsOf w.fs).move src dst)) := by
  rcases h.bind_inv with ⟨e, hmkdir, rfl⟩ | ⟨_, w₁, evs₁, evs₂, hmkdir, hrename, rfl⟩
  · obtain ⟨hdirs, htouched, -⟩ := mkdirFrame_mkdirParents _ _ _ _ _ hmkdir
    exact ⟨auditRecords_touched fun o ho => ⟨.mkdir, htouched o ho⟩,
      Or.inl ⟨⟨e, rfl⟩, hdirs.sameFiles⟩⟩
  obtain ⟨hdirs, htouched, -⟩ := mkdirFrame_mkdirParents _ _ _ _ _ hmkdir
  have hlog : auditRecords evs₁ = [] := auditRecords_touched fun o ho => ⟨.mkdir, htouched o ho⟩
  rcases fsCall_inv hrename with ⟨e, rfl, -, rfl, htree⟩ | ⟨rfl, rfl, hcall⟩
  · exact ⟨by simp [hlog], Or.inl ⟨⟨e, rfl⟩, hdirs.sameFiles.trans htree.sameFiles⟩⟩
  · refine ⟨by rw [auditRecords_append, hlog]; rfl, Or.inr ⟨rfl, ?_⟩⟩
    rw [stampsOf_rename hcall, hdirs.sameFiles.stampsOf]

theorem handleRename_told {msg : FileRenameMsg} (hold : (validateRelativePath msg.oldPath).Ok)
    (hnew : (validateRelativePath msg.newPath).Ok) {v : Except Exc Unit}
    (h : Runs (handleRename S msg) w evs v w') : Told S w evs w' := by
  obtain ⟨r, w₁, evs₁, evs₂, hends, hrest, rfl⟩ := h.bind_attempt_inv
  have htree := resolveEnds_sameTree hends
  obtain rfl := resolveEnds_events hends
  refine Told.after rfl htree ?_
  split at hrest
  · cases hrest
    exact told_of_sameFiles (by simp [auditRecords, Event.record?, AuditEvent.paths]) fun q => rfl
  · obtain ⟨-, rfl, rfl⟩ := hrest.raise_inv
    exact told_of_sameFiles (by simp) fun q => rfl
  rename_i src dst
  obtain ⟨hsrc, hdst⟩ := resolveEnds_ok hends
  rw [← show w₁.fs = w.fs from htree] at hsrc hdst
  obtain ⟨r', w₂, evs₃, evs₄, hmove, hlast, rfl⟩ := hrest.bind_attempt_inv
  obtain ⟨hlog, ⟨⟨e, rfl⟩, hfiles⟩ | ⟨rfl, hstamps⟩⟩ := moveEntry_inv hmove
  · -- the failure is not recorded, and no file was moved
    split at hlast
    · obtain ⟨-, rfl, rfl⟩ := hlast.pure_inv
      exact told_of_sameFiles (by simp [hlog]) hfiles
    · obtain ⟨-, rfl, rfl⟩ := hlast.raise_inv
      exact told_of_sameFiles (by simp [hlog]) hfiles
    · rename_i hv
      cases hv
  · cases hlast
    refine Or.inr ⟨_, auditRecords_concat hlog _, fun path hmem => ?_, fun q _ => ?_⟩
    · rcases List.mem_pair.mp hmem with rfl | rfl
      · exact ⟨hold, src, hsrc⟩
      · exact ⟨hnew, dst, hdst⟩
    rw [AuditEvent.replay, AuditEvent.change?, Service.reading_eq hsrc, Service.reading_eq hdst,
      hstamps]
    rfl

/-- **Every handler tells of all it does.** -/
theorem dispatch_told {m : AnyMsg} (hvalid : m.Valid) {v : Except Exc Unit}
    (h : Runs (dispatch S m) w evs v w') : Told S w evs w' := by
  unfold dispatch at h
  split at h
  · exact handleTransfer_told hvalid h
  · exact handleDelete_told hvalid.1 h
  · exact handleRename_told hvalid.1 hvalid.2.1 h
  · obtain ⟨-, rfl, rfl⟩ := h.pure_inv
    exact told_of_sameFiles (by simp) fun q => rfl

theorem Turn.Ran.told {turn : Turn} (h : turn.Ran S) :
    Told S turn.before turn.events turn.after := by
  obtain ⟨w₁, v, evs, htree, hevents, hvalid, hrun⟩ := h.dispatched
  rw [hevents]
  have hlog : auditRecords [.received turn.taken] = [] := rfl
  exact (dispatch_told hvalid hrun).after hlog htree

/-- The log of a run makes the files after it of those before it, wherever the paths are read as
the session read them. -/
theorem Told.replay (h : Told S w evs w') {R : Reading} (hstored : R.storedNs = S.env.storedNs)
    (hlocate : ∀ path p, (validateRelativePath path).Ok →
      S.session.jail.resolve w.fs S.env.fuel S.env.lstatError path = some (.ok p) →
        R.locate path = some p) :
    SameOffTmp (stampsOf w'.fs) (replayLog R (stampsOf w.fs) (auditRecords evs)) := by
  rcases h with ⟨hlog, hsame⟩ | ⟨record, hlog, hpaths, hsame⟩
  · rw [replayLog_of_no_paths hlog]
    exact hsame
  · have hchange : record.change? R = record.change? (S.reading w.fs) := by
      refine AuditEvent.change?_congr (fun path hmem => ?_) hstored
      obtain ⟨hpath, p, hp⟩ := hpaths path hmem
      rw [hlocate path p hpath hp, Service.reading_eq hp]
    rw [hlog, replayLog_cons, replayLog_nil, AuditEvent.replay, hchange]
    exact hsame

end Handlers

/-! ### Whose records they are -/

/-- The silo that a record names. -/
def AuditEvent.siloId : AuditEvent → Uuid
  | .fileWrite _ siloId _ _ _ _ _ _ => siloId
  | .fileDelete _ siloId _ => siloId
  | .fileRename _ siloId _ _ => siloId
  | .quarantine _ siloId _ _ => siloId
  | .pathTraversal _ siloId _ => siloId
  | .uidDenied _ siloId _ => siloId

section Records

variable {S : Service} {siloId : Uuid}

end Records

/-! ### Whole sessions -/

/-- What the records of a turn make of the files, its paths read in the tree in front of it. -/
def Turn.replay (S : Service) (s : Stamps) (turn : Turn) : Stamps :=
  replayLog (S.reading turn.before.fs) s (auditRecords turn.events)

/-- No temporary file is renamed in the turn. -/
def Turn.MovesNoTmp (S : Service) (turn : Turn) : Prop :=
  Chiralite.MovesNoTmp (S.reading turn.before.fs) (auditRecords turn.events)

section Sessions

variable {S : Service} {w w' : World} {evs : List Event} {v : Except Exc Unit}

theorem Turn.Ran.replay {turn : Turn} (h : turn.Ran S) :
    SameOffTmp (stampsOf turn.after.fs) (turn.replay S (stampsOf turn.before.fs)) :=
  h.told.replay rfl fun _ _ _ hp => Service.reading_eq hp

/-- A round takes no message, or it is a turn. -/
theorem serveTurn_turn (h : Runs (serveTurn S) w evs v w') :
    ((∃ e, v = .error e) ∧ evs = [] ∧ SameTree w w') ∨
      ∃ turn : Turn, turn.before = w ∧ turn.after = w' ∧ turn.events = evs ∧ turn.Ran S := by
  rcases h.bind_inv with ⟨e, hrecv, rfl⟩ | ⟨m, w₁, evs₁, evs₂, hrecv, -, rfl⟩
  · obtain ⟨htree, ⟨text, -, rfl⟩ | ⟨m, hv, -⟩⟩ := recv_inv hrecv
    · exact Or.inl ⟨⟨e, rfl⟩, rfl, htree⟩
    · cases hv
  · obtain ⟨-, ⟨text, hv, -⟩ | ⟨m', hv, -, rfl⟩⟩ := recv_inv hrecv
    · cases hv
    · cases hv
      exact Or.inr ⟨⟨m, w, w', [.received m] ++ evs₂⟩, rfl, rfl, rfl, ⟨v, h⟩, evs₂, rfl⟩

/-- The sync exchange leaves no record and changes nothing. -/
theorem serverHandleSyncRequest_told (h : Runs (serverHandleSyncRequest S) w evs v w') :
    auditRecords evs = [] ∧ SameTree w w' := by
  rcases h.bind_inv with ⟨e, hrecv, -⟩ | ⟨m, w₁, evs₁, evs₂, hrecv, hrest, rfl⟩
  · obtain ⟨htree, ⟨text, -, rfl⟩ | ⟨m, hv, -⟩⟩ := recv_inv hrecv
    · exact ⟨rfl, htree⟩
    · cases hv
  obtain ⟨htree, ⟨text, hv, -⟩ | ⟨m', hv, -, rfl⟩⟩ := recv_inv hrecv
  · cases hv
  cases hv
  have hend : auditRecords evs₂ = [] ∧ SameTree w₁ w' := by
    split at hrest
    · dsimp only at hrest
      split at hrest
      · obtain ⟨htree', ⟨e, -, rfl⟩ | ⟨-, rfl⟩⟩ := send_inv hrest
        · exact ⟨rfl, htree'⟩
        · exact ⟨rfl, htree'⟩
      · obtain ⟨-, rfl, rfl⟩ := hrest.raise_inv
        exact ⟨rfl, rfl⟩
    · obtain ⟨-, rfl, rfl⟩ := hrest.raise_inv
      exact ⟨rfl, rfl⟩
  refine ⟨?_, hend.2.trans htree⟩
  rw [auditRecords_append, hend.1]
  rfl

end Sessions

end Chiralite
