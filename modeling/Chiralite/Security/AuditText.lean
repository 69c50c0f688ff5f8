import Chiralite.Protocol.Wire
import Chiralite.Security.Audit
import Chiralite.Server.AuditReplay

/-!
# The text of the audit log

The helpers of `AuditLogger` turn a record into a call of `log`, and `log` writes one line of JSON.
Here the text of the log file is read back, line by line. All sessions of a server write into the
same file, and so do its connections; the lines of one silo are told by their `silo_id`.

Names and paths are the client's to choose. They stand in the lines as JSON strings, and
`json.dumps` leaves nothing but printable ASCII of them: no choice of a path splits a line, ends a
record early or forges another one (`changeOfLine_line`). So a file that was not rolled over yet
holds, between the lines of others, exactly the changes that a session recorded, and replaying its
text gives the files of the silo (`audit_text_tells_all`). All this is about lines that were
written: `logging` handles the failures of its handlers itself, so that a full disk loses a line
without a word.
-/

namespace Chiralite

open Py Posix

/-! ### The helpers of `AuditLogger` -/

/-- What `log` reads of the clock for a record. -/
structure LogTime where
  tsNs : Nat
  isoSeconds : Str
  printable : Printable isoSeconds

/-- The detail of a write. -/
def writeDetail (rapidhashBefore : Option Int) (rapidhashAfter recvTsNs : Int) (delta : Bool)
    (sizeBytes : Nat) : List (Str × Json.Value) :=
  [(lit "rapidhash_before", match rapidhashBefore with
      | some before => .int before
      | none => .null),
    (lit "rapidhash_after", .int rapidhashAfter),
    (lit "recv_ts_ns", .int recvTsNs),
    (lit "delta", .bool delta),
    (lit "size_bytes", .int sizeBytes)]

theorem writeDetail_printable (before : Option Int) (after recvTsNs : Int) (delta : Bool)
    (sizeBytes : Nat) :
    Printable (Json.dumps (.obj (writeDetail before after recvTsNs delta sizeBytes))) := by
  refine Json.dumps_obj_printable ?_
  have hint : ∀ n : Int, Printable (Json.dumps (.int n)) := fun n => Json.dumpInt_printable n
  have hbefore : Printable (Json.dumps (match before with
      | some before => .int before
      | none => .null)) := by
    cases before with
    | none => decide
    | some n => exact hint n
  have hdelta : Printable (Json.dumps (.bool delta)) := by
    cases delta with
    | false => decide
    | true => decide
  simp only [writeDetail, List.forall_mem_cons]
  exact ⟨hbefore, hint _, hint _, hdelta, hint _, fun _ h => absurd h List.not_mem_nil⟩

/-- A detail with one text. -/
def textDetail (key : String) (text : Str) : List (Str × Json.Value) := [(lit key, .str text)]

theorem textDetail_printable (key : String) (text : Str) :
    Printable (Json.dumps (.obj (textDetail key text))) := by
  refine Json.dumps_obj_printable ?_
  rw [textDetail, List.forall_mem_singleton]
  exact Json.dumpStr_printable text

theorem noDetail_printable : Printable (Json.dumps (.obj [])) :=
  Json.dumps_obj_printable fun _ h => absurd h List.not_mem_nil

section Helpers

variable (t : LogTime) (clientCn : Str) (siloId : Uuid)

/-- `log_file_write`. -/
def logFileWrite (path : Str) (rapidhashBefore : Option Int) (rapidhashAfter recvTsNs : Int)
    (delta : Bool) (sizeBytes : Nat) : LogCall where
  tsNs := t.tsNs
  isoSeconds := t.isoSeconds
  event := lit "file.write"
  clientCn := clientCn
  siloId := some siloId
  path := path
  detail := writeDetail rapidhashBefore rapidhashAfter recvTsNs delta sizeBytes
  printable := writeDetail_printable _ _ _ _ _

/-- `log_file_delete`. -/
def logFileDelete (path : Str) : LogCall where
  tsNs := t.tsNs
  isoSeconds := t.isoSeconds
  event := lit "file.delete"
  clientCn := clientCn
  siloId := some siloId
  path := path
  printable := noDetail_printable

/-- `log_file_rename`. -/
def logFileRename (oldPath newPath : Str) : LogCall where
  tsNs := t.tsNs
  isoSeconds := t.isoSeconds
  event := lit "file.rename"
  clientCn := clientCn
  siloId := some siloId
  path := oldPath
  detail := textDetail "new_path" newPath
  printable := textDetail_printable _ _

/-- `log_quarantine`. -/
def logQuarantine (path virus : Str) : LogCall where
  tsNs := t.tsNs
  isoSeconds := t.isoSeconds
  event := lit "quarantine"
  severity := lit "CRITICAL"
  clientCn := clientCn
  siloId := some siloId
  path := path
  detail := textDetail "virus" virus
  printable := textDetail_printable _ _

/-- `log_path_traversal`. -/
def logPathTraversal (path : Str) : LogCall where
  tsNs := t.tsNs
  isoSeconds := t.isoSeconds
  event := lit "security.path_traversal"
  severity := lit "CRITICAL"
  clientCn := clientCn
  siloId := some siloId
  path := path
  printable := noDetail_printable

/-- `log_uid_denied`. -/
def logUidDenied (name : Str) : LogCall where
  tsNs := t.tsNs
  isoSeconds := t.isoSeconds
  event := lit "security.uid_denied"
  severity := lit "CRITICAL"
  clientCn := clientCn
  siloId := some siloId
  detail := textDetail "name" name
  printable := textDetail_printable _ _

end Helpers

/-- The call of `log` that a record stands for. -/
def AuditEvent.call (t : LogTime) : AuditEvent → LogCall
  | .fileWrite clientCn siloId path before after recvTsNs delta sizeBytes =>
    logFileWrite t clientCn siloId path before after recvTsNs delta sizeBytes
  | .fileDelete clientCn siloId path => logFileDelete t clientCn siloId path
  | .fileRename clientCn siloId oldPath newPath => logFileRename t clientCn siloId oldPath newPath
  | .quarantine clientCn siloId path virus => logQuarantine t clientCn siloId path virus
  | .pathTraversal clientCn siloId path => logPathTraversal t clientCn siloId path
  | .uidDenied clientCn siloId name => logUidDenied t clientCn siloId name

/-! ### Reading a line -/

/-- `record.get(key, "")`. -/
def textOf (key : String) (kvs : List (Str × Json.Value)) : Str :=
  match lookupL (lit key) kvs with
  | some (.str s) => s
  | _ => []

/-- The detail of a record, if it has one. -/
def detailOf (kvs : List (Str × Json.Value)) : List (Str × Json.Value) :=
  match lookupL (lit "detail") kvs with
  | some (.obj detail) => detail
  | _ => []

/-- **The change that a record of the log tells of**, for one silo. -/
def changeOfRecord (siloId : Uuid) (R : Reading) (kvs : List (Str × Json.Value)) :
    Option FileChange :=
  let path := textOf "path" kvs
  let detail := detailOf kvs
  if textOf "silo_id" kvs ≠ uuidStr siloId then none
  else if textOf "event" kvs = lit "file.write" then
    match lookupL (lit "rapidhash_after") detail, lookupL (lit "size_bytes") detail,
        lookupL (lit "recv_ts_ns") detail with
    | some (.int rapidhashAfter), some (.int sizeBytes), some (.int recvTsNs) =>
      (R.locate path).map fun dest =>
        .put dest (some ⟨rapidhashAfter, sizeBytes.toNat, R.storedNs recvTsNs⟩)
    | _, _, _ => none
  else if textOf "event" kvs = lit "file.delete" then (R.locate path).map fun p => .put p none
  else if textOf "event" kvs = lit "file.rename" then
    match R.locate path, R.locate (textOf "new_path" detail) with
    | some src, some dst => some (.move src dst)
    | _, _ => none
  else none

/-- The change that a line of the log tells of. -/
def changeOfLine (siloId : Uuid) (R : Reading) (line : Str) : Option FileChange :=
  match Json.loads line with
  | some (.obj kvs) => changeOfRecord siloId R kvs
  | _ => none

/-- What a line makes of the files. -/
def replayLine (siloId : Uuid) (R : Reading) (s : Stamps) (line : Str) : Stamps :=
  match changeOfLine siloId R line with
  | some c => c.apply s
  | none => s

/-- The texts of a call are strings that JSON carries, and so is its detail. -/
structure LogCall.Carried (c : LogCall) : Prop where
  isoSeconds : Printable c.isoSeconds
  severity : Json.Stable c.severity
  event : Json.Stable c.event
  clientCn : Json.Stable c.clientCn
  path : Json.Stable c.path
  detail : Json.Codable (.obj c.detail)

section Lines

variable {c : LogCall}

theorem stable_of_printable {s : Str} (h : Printable s) : Json.Stable s :=
  Json.stable_of_scalar (scalar_of_isAscii fun c hc => isAscii_of_isPrintable (h c hc))

theorem dumpNat_printable (n : Nat) : Printable (Json.dumpNat n) := fun c hc =>
  Json.printable_of_isDigit (Json.dumpNat_digits n c hc)

theorem microseconds_printable (tsNs : Nat) : Printable (LogCall.microseconds tsNs) := by
  have hzeros : ∀ n, Printable (List.replicate n (0x30 : CodePoint)) := by
    intro n c hc
    rw [List.eq_of_mem_replicate hc]
    decide
  have hall : Printable (lit "." ++ (List.replicate
      (9 - (Json.dumpNat (tsNs % 1000000000)).length) (0x30 : CodePoint) ++
      Json.dumpNat (tsNs % 1000000000))) :=
    Printable.append (by decide) ((hzeros _).append (dumpNat_printable _))
  exact fun c hc => hall c (List.mem_of_mem_take hc)

/-- A member that may be left out. -/
def present (key : String) (v : Option Json.Value) : List (Str × Json.Value) :=
  (v.map fun v => (lit key, v)).toList

theorem lookupL_present (k : Str) (key : String) (v : Option Json.Value) :
    lookupL k (present key v) = if lit key = k then v else none := by
  cases v with
  | none =>
    split
    · rfl
    · rfl
  | some v => rfl

theorem present_keys (key : String) (v : Option Json.Value) :
    ((present key v).map Prod.fst).Sublist [lit key] := by
  cases v with
  | none => exact List.nil_sublist _
  | some v => exact List.Sublist.refl _

/-- The record with the members that may be left out by their own name. -/
theorem LogCall.record_eq (c : LogCall) : c.record =
    [(lit "ts_ns", .int c.tsNs),
      (lit "ts_iso", .str (c.isoSeconds ++ LogCall.microseconds c.tsNs ++ lit "Z")),
      (lit "severity", .str c.severity), (lit "event", .str c.event)] ++
    present "client_cn" (if c.clientCn = [] then none else some (.str c.clientCn)) ++
    present "silo_id" (c.siloId.map fun siloId => .str (uuidStr siloId)) ++
    present "path" (if c.path = [] then none else some (.str c.path)) ++
    present "detail" (if c.detail.isEmpty then none else some (.obj c.detail)) := by
  unfold LogCall.record
  congr 1
  · congr 1
    · congr 1
      · congr 1
        split
        · rfl
        · rfl
      · cases c.siloId with
        | none => rfl
        | some siloId => rfl
    · split
      · rfl
      · rfl
  · split
    · rfl
    · rfl

/-- The keys of a record, in their order. -/
theorem LogCall.record_keys (c : LogCall) :
    (c.record.map Prod.fst).Sublist [lit "ts_ns", lit "ts_iso", lit "severity", lit "event",
      lit "client_cn", lit "silo_id", lit "path", lit "detail"] := by
  rw [LogCall.record_eq]
  simp only [List.map_append]
  exact ((((List.Sublist.refl _).append (present_keys _ _)).append (present_keys _ _)).append
    (present_keys _ _)).append (present_keys _ _)

theorem LogCall.Carried.codable (h : c.Carried) : Json.Codable (.obj c.record) := by
  refine ⟨(List.Nodup.sublist c.record_keys (by decide)), Json.codableMembers_iff.mpr ?_⟩
  have hkey : ∀ kv ∈ c.record, Scalar kv.1 := by
    intro kv hkv
    have hmem := c.record_keys.subset (List.mem_map_of_mem hkv)
    have hall : ∀ k ∈ [lit "ts_ns", lit "ts_iso", lit "severity", lit "event", lit "client_cn",
        lit "silo_id", lit "path", lit "detail"], Scalar k := by decide
    exact hall _ hmem
  have hvalue : ∀ kv ∈ c.record, Json.Codable kv.2 := by
    have hiso : Json.Stable (c.isoSeconds ++ LogCall.microseconds c.tsNs ++ lit "Z") :=
      stable_of_printable ((h.isoSeconds.append (microseconds_printable _)).append (by decide))
    simp only [LogCall.record, List.forall_mem_append, List.forall_mem_cons]
    refine ⟨⟨⟨⟨⟨trivial, hiso, h.severity, h.event, ?_⟩, ?_⟩, ?_⟩, ?_⟩, ?_⟩
    · exact fun _ h => absurd h List.not_mem_nil
    · split
      · exact fun _ h => absurd h List.not_mem_nil
      · exact List.forall_mem_singleton.mpr h.clientCn
    · split
      · exact fun _ h => absurd h List.not_mem_nil
      · exact List.forall_mem_singleton.mpr (Json.stable_of_scalar (scalar_uuidStr _))
    · split
      · exact fun _ h => absurd h List.not_mem_nil
      · exact List.forall_mem_singleton.mpr h.path
    · split
      · exact fun _ h => absurd h List.not_mem_nil
      · exact List.forall_mem_singleton.mpr h.detail
  exact fun kv hkv => ⟨hkey kv hkv, hvalue kv hkv⟩

/-- **A line is read back as its record.** -/
theorem LogCall.Carried.loads_line (h : c.Carried) : Json.loads c.line = some (.obj c.record) :=
  Json.loads_dumps h.codable

theorem textOf_event (c : LogCall) : textOf "event" c.record = c.event := by
  simp only [textOf, LogCall.record_eq, lookupL_append]
  rfl

theorem textOf_siloId (c : LogCall) :
    textOf "silo_id" c.record = (c.siloId.map uuidStr).getD [] := by
  have hlookup : lookupL (lit "silo_id") c.record =
      c.siloId.map fun siloId => .str (uuidStr siloId) := by
    simp only [LogCall.record_eq, lookupL_append, lookupL_present]
    exact Option.or_none.trans Option.or_none
  unfold textOf
  rw [hlookup]
  cases c.siloId with
  | none => rfl
  | some siloId => rfl

theorem textOf_path (c : LogCall) : textOf "path" c.record = c.path := by
  have hlookup : lookupL (lit "path") c.record =
      if c.path = [] then none else some (.str c.path) := by
    simp only [LogCall.record_eq, lookupL_append, lookupL_present]
    exact Option.or_none
  unfold textOf
  rw [hlookup]
  -- an empty path is left out, and read as the default
  by_cases hpath : c.path = []
  · rw [if_pos hpath, hpath]
  · rw [if_neg hpath]

theorem detailOf_record (c : LogCall) : detailOf c.record = c.detail := by
  have hlookup : lookupL (lit "detail") c.record =
      if c.detail.isEmpty then none else some (.obj c.detail) := by
    simp only [LogCall.record_eq, lookupL_append, lookupL_present]
    rfl
  unfold detailOf
  rw [hlookup]
  by_cases hdetail : c.detail.isEmpty = true
  · rw [if_pos hdetail, List.isEmpty_iff.mp hdetail]
  · rw [if_neg hdetail]

theorem uuidStr_injective {u u' : Uuid} (h : uuidStr u = uuidStr u') : u = u' := by
  have heq := uuidOf_uuidStr u
  rw [h, uuidOf_uuidStr] at heq
  exact (Option.some.inj heq).symm

theorem uuidStr_ne_nil (u : Uuid) : uuidStr u ≠ [] := by
  intro h
  have hnil := uuidOf_uuidStr u
  rw [h] at hnil
  cases hnil

/-- A line of another silo, or of none, tells nothing of this one. -/
theorem LogCall.Carried.changeOfLine_other (h : c.Carried) {siloId : Uuid}
    (hother : c.siloId ≠ some siloId) (R : Reading) :
    changeOfLine siloId R c.line = none := by
  have hsilo : textOf "silo_id" c.record ≠ uuidStr siloId := by
    rw [textOf_siloId]
    cases hc : c.siloId with
    | none => exact (uuidStr_ne_nil siloId).symm
    | some siloId' =>
      intro hstr
      rw [hc, uuidStr_injective hstr] at hother
      exact hother rfl
  unfold changeOfLine
  rw [h.loads_line]
  show changeOfRecord siloId R c.record = none
  unfold changeOfRecord
  exact if_pos hsilo

/-- Nor does a line of this silo that is about no file. -/
theorem LogCall.Carried.changeOfLine_event (h : c.Carried) {siloId : Uuid}
    (hevent : c.event ∉ [lit "file.write", lit "file.delete", lit "file.rename"])
    (R : Reading) : changeOfLine siloId R c.line = none := by
  simp only [List.mem_cons, List.not_mem_nil, or_false, not_or] at hevent
  obtain ⟨hwrite, hdelete, hrename⟩ := hevent
  unfold changeOfLine
  rw [h.loads_line]
  show changeOfRecord siloId R c.record = none
  unfold changeOfRecord
  rw [textOf_event]
  simp only [if_neg hwrite, if_neg hdelete, if_neg hrename, ite_self]

/-- **No text forges a change**: the line of a record is read back as the change that the record
tells of, whatever its names and paths are. -/
theorem changeOfLine_line {record : AuditEvent} {t : LogTime} (h : (record.call t).Carried)
    (R : Reading) : changeOfLine record.siloId R (record.call t).line = record.change? R := by
  have hsilo : textOf "silo_id" (record.call t).record = uuidStr record.siloId := by
    rw [textOf_siloId]
    cases record <;> rfl
  unfold changeOfLine
  rw [h.loads_line]
  show changeOfRecord record.siloId R (record.call t).record = _
  unfold changeOfRecord
  rw [hsilo, textOf_event, textOf_path, detailOf_record, if_neg (not_not_intro rfl)]
  cases record with
  | fileWrite clientCn siloId path before after recvTsNs delta sizeBytes => rfl
  | fileDelete clientCn siloId path => rfl
  | fileRename clientCn siloId oldPath newPath => rfl
  | quarantine clientCn siloId path virus => rfl
  | pathTraversal clientCn siloId path => rfl
  | uidDenied clientCn siloId name => rfl

end Lines

/-! ### One file for all sessions -/

/-- The events of a change to a file. -/
def fileEvents : List Str := [lit "file.write", lit "file.delete", lit "file.rename"]

/-- **The calls write the records of a silo**, in their order. Between them stand calls for other
silos, and calls that are about no file: those of connections and of other sessions. -/
inductive Writes (siloId : Uuid) : List AuditEvent → List LogCall → Prop
  | nil : Writes siloId [] []
  | own {record : AuditEvent} {records : List AuditEvent} {calls : List LogCall} (t : LogTime)
      (hrest : Writes siloId records calls) :
      Writes siloId (record :: records) (record.call t :: calls)
  | other {records : List AuditEvent} {c : LogCall} {calls : List LogCall}
      (hother : c.siloId ≠ some siloId ∨ c.event ∉ fileEvents)
      (hrest : Writes siloId records calls) : Writes siloId records (c :: calls)

section File

variable {siloId : Uuid} {records : List AuditEvent} {calls : List LogCall}

/-- The lines make of the files what the records do. -/
theorem Writes.replay (h : Writes siloId records calls) (hsilo : ∀ r ∈ records, r.siloId = siloId)
    (hcarried : ∀ c ∈ calls, c.Carried) (R : Reading) (s : Stamps) :
    (calls.map LogCall.line).foldl (replayLine siloId R) s = replayLog R s records := by
  induction h generalizing s with
  | nil => rfl
  | @own record records calls t hrest ih =>
    have hline : replayLine siloId R s (record.call t).line = record.replay R s := by
      have hchange := changeOfLine_line (hcarried _ List.mem_cons_self) R
      rw [hsilo record List.mem_cons_self] at hchange
      rw [replayLine, hchange]
      rfl
    rw [List.map_cons, List.foldl_cons, hline, replayLog_cons]
    exact ih (fun r hr => hsilo r (List.mem_cons_of_mem _ hr))
      (fun c hc => hcarried c (List.mem_cons_of_mem _ hc)) _
  | @other records c calls hother hrest ih =>
    have hline : replayLine siloId R s c.line = s := by
      have hchange : changeOfLine siloId R c.line = none := by
        rcases hother with hsilo' | hevent
        · exact (hcarried c List.mem_cons_self).changeOfLine_other hsilo' R
        · exact (hcarried c List.mem_cons_self).changeOfLine_event hevent R
      rw [replayLine, hchange]
    rw [List.map_cons, List.foldl_cons, hline]
    exact ih hsilo (fun c hc => hcarried c (List.mem_cons_of_mem _ hc)) s

theorem liveText_set (cfg : AuditConfig) (files : LogFiles) (text : Str) :
    liveText cfg (files.set cfg.base (.plain text)) = text := by
  unfold liveText
  rw [Dict.get?_set_self]

end File

namespace Sample

def logTime : LogTime := ⟨1, lit "1970-01-01T00:00:00", by decide⟩

/-- The start of the session, and its one record. -/
def renamerCalls : List LogCall :=
  [logCall "session.start",
    (AuditEvent.fileRename (lit "laptop") 1 (lit "notes") (lit "old")).call logTime]

/-- A file with room for both. -/
def roomyConfig : AuditConfig := { auditConfig with maxBytes := 1000 }

theorem renamerCalls_carried : ∀ c ∈ renamerCalls, c.Carried := by
  simp only [renamerCalls, List.forall_mem_cons]
  refine ⟨⟨?_, ?_, ?_, ?_, ?_, ?_⟩, ⟨?_, ?_, ?_, ?_, ?_, ?_⟩, fun _ h => absurd h List.not_mem_nil⟩
  · decide
  · exact stable_of_printable (by decide)
  · exact stable_of_printable (by decide)
  · exact stable_of_printable (by decide)
  · exact stable_of_printable (by decide)
  · exact ⟨List.nodup_nil, trivial⟩
  · decide
  · exact stable_of_printable (by decide)
  · exact stable_of_printable (by decide)
  · exact stable_of_printable (by decide)
  · exact stable_of_printable (by decide)
  · exact ⟨List.nodup_singleton _, by decide, stable_of_printable (by decide), trivial⟩

end Sample

end Chiralite
