import Chiralite.Framework.JsonRoundTrip
import Chiralite.Sync.Index

/-!
# The event journal

`sync/journal.py`: a durable wrapper around the index. Every append writes one JSON line to
`journal.ndjson` and then applies the event; a checkpoint writes the whole table to
`checkpoint.tmp`, renames it over `checkpoint.json` and truncates the journal; opening the
directory loads the checkpoint and replays the journal over it.

Three files make up the state on disk (`Disk`). Their contents are texts: everything the
journal writes is printable ASCII (`eventLine_printable`), where characters and bytes of
the UTF-8 encoding coincide. `fsync` and the write buffer are not modelled: `append`
flushes and syncs before it returns, so at every boundary between calls the disk holds what
was written. A crash inside a call is a disk between two of its writes.

Loading answers with the exception it ends in (`LoadExn`). Python builds events and records
without checking their field types; an event whose fields are not of the declared types has
no counterpart in the typed model, which stops there with `illTyped`.

The codec results are `dictToEvent_eventToDict` (an event survives its dictionary),
`replayLines_map` (a journal of printed events replays to the fold of `apply`) and
`loadCheckpoint_snapshot` (a printed table loads to the same table, in the same order).
-/

namespace Chiralite

open Py Json

/-! ### Exceptions -/

/-- The Python exception classes that can arise while a file is read. -/
inductive ExnClass where
  | typeError
  | keyError
  | valueError
  | attributeError
  | recursionError
  deriving DecidableEq

/-- `JournalError`, by the message it carries. -/
inductive JournalError where
  /-- `unknown event kind: {kind!r}`. -/
  | unknownKind
  /-- `corrupt checkpoint: {exc}`. -/
  | corruptCheckpoint
  /-- `corrupt checkpoint record for {rel_path!r}: {exc}`. -/
  | corruptRecord (relPath : Str)
  /-- `corrupt journal entry at line {lineno}: {exc}`. -/
  | corruptEntry (lineno : Nat)
  deriving DecidableEq

/-- How opening a directory ends when it does not succeed. -/
inductive LoadExn where
  | journalError (e : JournalError)
  /-- An exception that no handler of the journal catches. -/
  | escaped (c : ExnClass)
  /-- Not an exception: a field of another type than declared. -/
  | illTyped
  deriving DecidableEq

/-! ### Events as dictionaries -/

/-- `_event_to_dict`. -/
def eventToDict : SyncEvent → List (Str × Value)
  | .write e =>
    [(lit "path", .str e.path), (lit "rapidhash", .int e.rapidhash), (lit "size", .int e.size),
      (lit "mtime_s", .int e.mtimeS), (lit "mtime_ns", .int e.mtimeNs),
      (lit "recv_ts_ns", .int e.recvTsNs), (lit "mode", .int e.mode),
      (lit "uid_name", .str e.uidName), (lit "gid_name", .str e.gidName),
      (lit "kind", .str (lit "write"))]
  | .delete e =>
    [(lit "path", .str e.path), (lit "recv_ts_ns", .int e.recvTsNs),
      (lit "kind", .str (lit "delete"))]
  | .rename e =>
    [(lit "old_path", .str e.oldPath), (lit "new_path", .str e.newPath),
      (lit "recv_ts_ns", .int e.recvTsNs), (lit "kind", .str (lit "rename"))]

/-- A dictionary with `str` keys, and whether it also has keys of other types. -/
abbrev PyDict := List (Str × Value) × Bool

/-- One element of the sequence that `dict(seq)` is given. -/
def dictItem (d : PyDict) : Value → Except ExnClass PyDict
  | .arr [.str k, v] => .ok (setL k v d.1, d.2)
  | .arr [.arr _, _] => .error .typeError
  | .arr [.obj _, _] => .error .typeError
  | .arr [_, _] => .ok (d.1, true)
  | .arr _ => .error .valueError
  | .str [a, b] => .ok (setL [a] (.str [b]) d.1, d.2)
  | .str _ => .error .valueError
  | .obj [(k, _), (k', _)] => .ok (setL k (.str k') d.1, d.2)
  | .obj _ => .error .valueError
  | _ => .error .typeError

/-- `dict(d)` for a value that came out of `json.loads`. -/
def pyDict : Value → Except ExnClass PyDict
  | .obj kvs => .ok (kvs, false)
  | .arr vs => vs.foldlM dictItem ([], false)
  | .str [] => .ok ([], false)
  | .str (_ :: _) => .error .valueError
  | _ => .error .typeError

/-- A field of type `int`. -/
def intField (d : List (Str × Value)) (k : String) : Option Int :=
  match lookupL (lit k) d with
  | some (.int n) => some n
  | _ => none

/-- A field of type `str`. -/
def strField (d : List (Str × Value)) (k : String) : Option Str :=
  match lookupL (lit k) d with
  | some (.str s) => some s
  | _ => none

/-- A dataclass call `cls(**d)`: the keys of `d` must be the fields, all of them and no
other. -/
def callFields (d : PyDict) (fields : List String) : Bool :=
  !d.2 && fields.all (fun f => (lookupL (lit f) d.1).isSome) && d.1.length == fields.length

/-- `WriteEvent(**d)`. -/
def callWriteEvent (d : PyDict) : Except LoadExn SyncEvent :=
  if callFields d ["path", "rapidhash", "size", "mtime_s", "mtime_ns", "recv_ts_ns", "mode",
      "uid_name", "gid_name"] then
    match strField d.1 "path", intField d.1 "rapidhash", intField d.1 "size",
      intField d.1 "mtime_s", intField d.1 "mtime_ns", intField d.1 "recv_ts_ns",
      intField d.1 "mode", strField d.1 "uid_name", strField d.1 "gid_name" with
    | some path, some rapidhash, some size, some mtimeS, some mtimeNs, some recvTsNs,
      some mode, some uidName, some gidName =>
      .ok (.write ⟨path, rapidhash, size, mtimeS, mtimeNs, recvTsNs, mode, uidName, gidName⟩)
    | _, _, _, _, _, _, _, _, _ => .error .illTyped
  else .error (.escaped .typeError)

/-- `DeleteEvent(**d)`. -/
def callDeleteEvent (d : PyDict) : Except LoadExn SyncEvent :=
  if callFields d ["path", "recv_ts_ns"] then
    match strField d.1 "path", intField d.1 "recv_ts_ns" with
    | some path, some recvTsNs => .ok (.delete ⟨path, recvTsNs⟩)
    | _, _ => .error .illTyped
  else .error (.escaped .typeError)

/-- `RenameEvent(**d)`. -/
def callRenameEvent (d : PyDict) : Except LoadExn SyncEvent :=
  if callFields d ["old_path", "new_path", "recv_ts_ns"] then
    match strField d.1 "old_path", strField d.1 "new_path", intField d.1 "recv_ts_ns" with
    | some oldPath, some newPath, some recvTsNs => .ok (.rename ⟨oldPath, newPath, recvTsNs⟩)
    | _, _, _ => .error .illTyped
  else .error (.escaped .typeError)

/-- `_dict_to_event`. -/
def dictToEvent (v : Value) : Except LoadExn SyncEvent :=
  match pyDict v with
  | .error c => .error (.escaped c)
  | .ok d =>
    match lookupL (lit "kind") d.1 with
    | none => .error (.escaped .keyError)
    | some kind =>
      let rest : PyDict := (eraseL (lit "kind") d.1, d.2)
      match kind with
      | .str k =>
        if k = lit "write" then callWriteEvent rest
        else if k = lit "delete" then callDeleteEvent rest
        else if k = lit "rename" then callRenameEvent rest
        else .error (.journalError .unknownKind)
      | _ => .error (.journalError .unknownKind)

/-! ### The table as a document -/

/-- One row of `SiloIndex.to_snapshot`. -/
def recordToDict (r : FileRecord) : List (Str × Value) :=
  [(lit "rapidhash", .int r.rapidhash), (lit "size", .int r.size), (lit "mode", .int r.mode),
    (lit "uid_name", .str r.uidName), (lit "gid_name", .str r.gidName),
    (lit "mtime_s", .int r.mtimeS), (lit "mtime_ns", .int r.mtimeNs),
    (lit "recv_ts_ns", .int r.recvTsNs), (lit "deleted", .bool r.deleted)]

/-- `SiloIndex.to_snapshot`. -/
def toSnapshot (rs : Records) : List (Str × Value) :=
  rs.items.map fun kv => (kv.1, .obj (recordToDict kv.2))

/-- The document `EventJournal.checkpoint` writes. -/
def checkpointDoc (index : SiloIndex) : Value :=
  .obj
    [(lit "silo_id", .str (uuidStr index.siloId)), (lit "node_id", .str index.nodeId),
      (lit "records", .obj (toSnapshot index.records))]

/-- A `FileRecord` from a row of the document: a missing member is a `KeyError`, a row that
is no object a `TypeError`, and both are reported with the path of the row. -/
def dictToRecord (relPath : Str) : Value → Except LoadExn FileRecord
  | .obj d =>
    if ["rapidhash", "size", "mtime_s", "mtime_ns", "recv_ts_ns", "mode", "uid_name",
        "gid_name"].all (fun f => (lookupL (lit f) d).isSome) then
      let deleted : Option Bool :=
        match lookupL (lit "deleted") d with
        | some (.bool b) => some b
        | some _ => none
        | none => some false
      match intField d "rapidhash", intField d "size", intField d "mtime_s",
        intField d "mtime_ns", intField d "recv_ts_ns", intField d "mode",
        strField d "uid_name", strField d "gid_name", deleted with
      | some rapidhash, some size, some mtimeS, some mtimeNs, some recvTsNs, some mode,
        some uidName, some gidName, some deleted =>
        .ok ⟨rapidhash, size, mtimeS, mtimeNs, recvTsNs, mode, uidName, gidName, deleted⟩
      | _, _, _, _, _, _, _, _, _ => .error .illTyped
    else .error (.journalError (.corruptRecord relPath))
  | _ => .error (.journalError (.corruptRecord relPath))

/-- The loop of `_load_checkpoint` over the members of `records`. -/
def loadRecords (rs : Records) : List (Str × Value) → Except LoadExn Records
  | [] => .ok rs
  | (relPath, rec) :: rest =>
    match dictToRecord relPath rec with
    | .error x => .error x
    | .ok r => loadRecords (rs.set relPath r) rest

/-- `_load_checkpoint`. -/
def loadCheckpoint (text : Str) (rs : Records) : Except LoadExn Records :=
  match loads text with
  | none => .error (.journalError .corruptCheckpoint)
  | some (.obj d) =>
    match lookupL (lit "records") d with
    | none => .ok rs
    | some (.obj rows) => loadRecords rs rows
    | some _ => .error (.escaped .attributeError)
  | some _ => .error (.escaped .attributeError)

/-! ### The journal file -/

/-- The line `EventJournal.append` writes, without its newline. -/
def eventLine (e : SyncEvent) : Str := dumps (.obj (eventToDict e))

/-- `json.loads` and `_dict_to_event` on one stripped line, under the handler that turns
`JSONDecodeError`, `TypeError` and `KeyError` into a `JournalError`. -/
def readEntry (lineno : Nat) (line : Str) : Except LoadExn SyncEvent :=
  match loads line with
  | none => .error (.journalError (.corruptEntry lineno))
  | some d =>
    match dictToEvent d with
    | .error (.escaped .typeError) => .error (.journalError (.corruptEntry lineno))
    | .error (.escaped .keyError) => .error (.journalError (.corruptEntry lineno))
    | r => r

/-- The loop of `_replay_journal`. -/
def replayLines (lineno : Nat) (rs : Records) : List Str → Except LoadExn Records
  | [] => .ok rs
  | raw :: rest =>
    if strip raw = [] then replayLines (lineno + 1) rs rest
    else
      match readEntry lineno (strip raw) with
      | .error x => .error x
      | .ok e => replayLines (lineno + 1) (apply rs e) rest

/-- `_replay_journal`. -/
def replayJournal (text : Str) (rs : Records) : Except LoadExn Records :=
  replayLines 1 rs (splitlines text)

/-! ### The object and its directory -/

/-- The files of the journal directory. -/
structure Disk where
  journal : Option Str
  checkpoint : Option Str
  tmp : Option Str
  deriving DecidableEq

/-- An empty directory. -/
def Disk.empty : Disk := ⟨none, none, none⟩

/-- `EventJournal`: the index and whether the journal handle is open. -/
structure EventJournal where
  index : SiloIndex
  fpOpen : Bool
  deriving DecidableEq

/-- `EventJournal._load` on a fresh index. -/
def load (d : Disk) : Except LoadExn Records :=
  match d.checkpoint with
  | none =>
    match d.journal with
    | none => .ok Dict.empty
    | some text => replayJournal text Dict.empty
  | some doc =>
    match loadCheckpoint doc Dict.empty with
    | .error x => .error x
    | .ok rs =>
      match d.journal with
      | none => .ok rs
      | some text => replayJournal text rs

namespace EventJournal

/-- `EventJournal.__init__`: load, then open the journal for appending (which creates it). -/
def init (d : Disk) (siloId : Uuid) (nodeId : Str) : Except LoadExn (EventJournal × Disk) :=
  match load d with
  | .error x => .error x
  | .ok rs => .ok (⟨⟨siloId, nodeId, rs⟩, true⟩, { d with journal := some (d.journal.getD []) })

/-- `EventJournal.append`. A write to a closed handle raises `ValueError`, before the index is
touched. -/
def append (j : EventJournal) (d : Disk) (e : SyncEvent) :
    Except ExnClass (EventJournal × Disk × Option ConflictInfo) :=
  if j.fpOpen then
    let r := applyEvent j.index.records e
    .ok ({ j with index := { j.index with records := r.1 } },
      { d with journal := some (d.journal.getD [] ++ (eventLine e ++ [newline])) }, r.2)
  else .error .valueError

/-- The snapshot is on disk under its temporary name. -/
def checkpointWritten (j : EventJournal) (d : Disk) : Disk :=
  { d with tmp := some (dumps (checkpointDoc j.index)) }

/-- The snapshot has been renamed into place; the journal is still the old one. -/
def checkpointRenamed (j : EventJournal) (d : Disk) : Disk :=
  { checkpointWritten j d with
    checkpoint := (checkpointWritten j d).tmp
    tmp := none }

/-- `EventJournal.checkpoint`: write, rename, truncate, reopen the handle. -/
def checkpoint (j : EventJournal) (d : Disk) : EventJournal × Disk :=
  ({ j with fpOpen := true }, { checkpointRenamed j d with journal := some [] })

/-- `EventJournal.close`. -/
def close (j : EventJournal) : EventJournal := { j with fpOpen := false }

end EventJournal

/-! ### Strings the codec carries -/

/-- The strings of an event are Unicode scalar values. -/
def SyncEvent.Scalar : SyncEvent → Prop
  | .write e => Py.Scalar e.path ∧ Py.Scalar e.uidName ∧ Py.Scalar e.gidName
  | .delete e => Py.Scalar e.path
  | .rename e => Py.Scalar e.oldPath ∧ Py.Scalar e.newPath

/-- The strings of a table are Unicode scalar values. -/
def ScalarRecords (rs : Records) : Prop :=
  ∀ p r, rs.get? p = some r → Scalar p ∧ Scalar r.uidName ∧ Scalar r.gidName

theorem scalarRecords_empty : ScalarRecords Dict.empty := by
  intro p r h
  exact absurd h (by simp)

theorem ScalarRecords.set {rs : Records} (h : ScalarRecords rs) {p : Str} {r : FileRecord}
    (hr : Scalar p ∧ Scalar r.uidName ∧ Scalar r.gidName) : ScalarRecords (rs.set p r) := by
  intro q s hq
  by_cases hqp : q = p
  · subst hqp
    rw [Dict.get?_set_self] at hq
    rw [← Option.some.inj hq]
    exact hr
  · rw [Dict.get?_set_of_ne _ _ hqp] at hq
    exact h q s hq

theorem ScalarRecords.erase {rs : Records} (h : ScalarRecords rs) (p : Str) :
    ScalarRecords (rs.erase p) := by
  intro q s hq
  by_cases hqp : q = p
  · subst hqp
    rw [Dict.get?_erase_self] at hq
    exact absurd hq (by simp)
  · rw [Dict.get?_erase_of_ne _ hqp] at hq
    exact h q s hq

theorem ScalarRecords.apply {rs : Records} (h : ScalarRecords rs) {e : SyncEvent}
    (he : e.Scalar) : ScalarRecords (apply rs e) := by
  cases e with
  | write e =>
    change ScalarRecords (applyWrite rs e).1
    -- the table gets the record of the event, or stays as it is
    have hset := h.set (p := e.path) (r := e.record) he
    unfold applyWrite
    split
    · exact hset
    · split
      · exact hset
      · split <;> exact h
  | delete e =>
    change ScalarRecords (applyDelete rs e).1
    unfold applyDelete
    split
    · exact h
    · next r hr =>
      have hrow := h _ _ (live?_eq_some.mp hr).1
      split
      · exact h.set ⟨he, hrow.2⟩
      · exact h
  | rename e =>
    -- a rename moves a record that is in the table under a path of the event
    rcases apply_rename_cases rs e with ⟨-, heq⟩ | ⟨r, hr, -, heq⟩ | ⟨r, t, hr, -, -, heq⟩
    · rw [heq]; exact h
    · have hrow := h _ _ (live?_eq_some.mp hr).1
      rw [heq]
      exact (h.erase _).set ⟨he.2, hrow.2⟩
    · have hrow := h _ _ (live?_eq_some.mp hr).1
      rw [heq]
      exact (h.erase _).set ⟨he.1, hrow.2⟩

/-! ### The codec -/

theorem eventToDict_codable {e : SyncEvent} (he : e.Scalar) : Codable (.obj (eventToDict e)) := by
  -- the keys are fixed and distinct; only the strings of the event need to be encodable
  cases e with
  | write e =>
    obtain ⟨hp, hu, hg⟩ := he
    have hkeys : (eventToDict (.write e)).map Prod.fst =
        [lit "path", lit "rapidhash", lit "size", lit "mtime_s", lit "mtime_ns", lit "recv_ts_ns",
          lit "mode", lit "uid_name", lit "gid_name", lit "kind"] := rfl
    have hkind : Stable (lit "write") := stable_of_scalar (by decide)
    refine codable_obj hkeys (by decide) (by decide) ?_
    simp only [eventToDict, List.map_cons, List.map_nil, List.forall_mem_cons, Codable,
      true_and]
    exact ⟨stable_of_scalar hp, stable_of_scalar hu, stable_of_scalar hg, hkind,
      List.forall_mem_nil _⟩
  | delete e =>
    have hkeys : (eventToDict (.delete e)).map Prod.fst =
        [lit "path", lit "recv_ts_ns", lit "kind"] := rfl
    have hkind : Stable (lit "delete") := stable_of_scalar (by decide)
    refine codable_obj hkeys (by decide) (by decide) ?_
    simp only [eventToDict, List.map_cons, List.map_nil, List.forall_mem_cons, Codable,
      true_and]
    exact ⟨stable_of_scalar he, hkind, List.forall_mem_nil _⟩
  | rename e =>
    have hkeys : (eventToDict (.rename e)).map Prod.fst =
        [lit "old_path", lit "new_path", lit "recv_ts_ns", lit "kind"] := rfl
    have hkind : Stable (lit "rename") := stable_of_scalar (by decide)
    refine codable_obj hkeys (by decide) (by decide) ?_
    simp only [eventToDict, List.map_cons, List.map_nil, List.forall_mem_cons, Codable,
      true_and]
    exact ⟨stable_of_scalar he.1, stable_of_scalar he.2, hkind, List.forall_mem_nil _⟩

/-- **An event survives its dictionary.** -/
theorem dictToEvent_eventToDict (e : SyncEvent) : dictToEvent (.obj (eventToDict e)) = .ok e := by
  cases e <;> rfl

/-- Everything the journal writes is printable ASCII. -/
theorem eventLine_printable {e : SyncEvent} (he : e.Scalar) : Printable (eventLine e) :=
  dumps_printable _ (eventToDict_codable he)

theorem strip_eventLine (e : SyncEvent) : strip (eventLine e) = eventLine e := by
  obtain ⟨s, hs⟩ := dumps_obj_shape (eventToDict e)
  unfold eventLine
  rw [hs]
  exact strip_eq_self (by decide) (by decide)

theorem eventLine_ne_nil (e : SyncEvent) : eventLine e ≠ [] := by
  obtain ⟨s, hs⟩ := dumps_obj_shape (eventToDict e)
  unfold eventLine
  rw [hs]
  simp

theorem readEntry_eventLine {e : SyncEvent} (he : e.Scalar) (lineno : Nat) :
    readEntry lineno (eventLine e) = .ok e := by
  unfold readEntry eventLine
  rw [loads_dumps (eventToDict_codable he)]
  simp only [dictToEvent_eventToDict]

/-- **A journal of printed events replays to the fold of their effects**, and goes on with
whatever lines follow. -/
theorem replayLines_map {es : List SyncEvent} (hes : ∀ e ∈ es, e.Scalar) (lineno : Nat)
    (rs : Records) (rest : List Str) :
    replayLines lineno rs (es.map eventLine ++ rest) =
      replayLines (lineno + es.length) (applyAll rs es) rest := by
  induction es generalizing lineno rs with
  | nil => rfl
  | cons e es ih =>
    rw [List.map_cons, List.cons_append, replayLines, strip_eventLine,
      if_neg (eventLine_ne_nil e), readEntry_eventLine (hes e List.mem_cons_self)]
    simp only
    rw [ih (fun f hf => hes f (List.mem_cons_of_mem _ hf)), applyAll_cons, List.length_cons]
    congr 1
    omega

/-- The text of a journal that holds the given events. -/
def journalText (es : List SyncEvent) : Str := unlines (es.map eventLine)

theorem journalText_append (es fs : List SyncEvent) :
    journalText (es ++ fs) = journalText es ++ journalText fs := by
  unfold journalText
  rw [List.map_append, unlines_append]

theorem journalText_singleton (e : SyncEvent) : journalText [e] = eventLine e ++ [newline] := by
  unfold journalText
  rw [List.map_cons, List.map_nil, unlines_cons, unlines_nil]

/-- Replaying a journal of whole lines followed by an open tail: the events are applied, then
the lines of the tail are read. -/
theorem replayJournal_append {es : List SyncEvent} (hes : ∀ e ∈ es, e.Scalar) (rs : Records)
    (tail : Str) :
    replayJournal (journalText es ++ tail) rs =
      replayLines (1 + es.length) (applyAll rs es) (splitlines tail) := by
  have hlines : ∀ l ∈ es.map eventLine, Printable l := by
    intro l hl
    obtain ⟨e, he, rfl⟩ := List.mem_map.mp hl
    exact eventLine_printable (hes e he)
  unfold replayJournal journalText
  rw [splitlines_unlines_append hlines, replayLines_map hes]

theorem replayJournal_journalText {es : List SyncEvent} (hes : ∀ e ∈ es, e.Scalar)
    (rs : Records) : replayJournal (journalText es) rs = .ok (applyAll rs es) := by
  have h := replayJournal_append hes rs []
  rw [List.append_nil] at h
  rw [h]
  rfl

/-! ### The checkpoint document -/

theorem scalar_of_printable {s : Str} (h : Printable s) : Scalar s := by
  intro c hc
  have hp := h c hc
  simp only [isPrintable, Bool.and_eq_true, decide_eq_true_eq] at hp
  simp only [isSurrogate, Bool.and_eq_false_iff, decide_eq_false_iff_not]
  omega

theorem uuidStr_printable (u : Uuid) : Printable (uuidStr u) := by
  -- thirty-two hexadecimal digits, cut by dashes
  have hhex : Printable ((List.range 32).map fun i => hexDigit (u.val / 16 ^ (31 - i) % 16)) := by
    intro c hc
    obtain ⟨i, -, rfl⟩ := List.mem_map.mp hc
    exact isPrintable_hexDigit _ (Nat.mod_lt _ (by decide))
  have htake : ∀ {s : Str} (n : Nat), Printable s → Printable (s.take n) :=
    fun n hs c hc => hs c (List.mem_of_mem_take hc)
  have hdrop : ∀ {s : Str} (n : Nat), Printable s → Printable (s.drop n) :=
    fun n hs c hc => hs c (List.mem_of_mem_drop hc)
  have hdash : Printable (lit "-") := by decide
  unfold uuidStr
  exact ((((((((htake 8 hhex).append hdash).append (htake 4 (hdrop 8 hhex))).append
    hdash).append (htake 4 (hdrop 12 hhex))).append hdash).append
    (htake 4 (hdrop 16 hhex))).append hdash).append (hdrop 20 hhex)

theorem recordToDict_codable {r : FileRecord} (hu : Scalar r.uidName) (hg : Scalar r.gidName) :
    Codable (.obj (recordToDict r)) := by
  have hkeys : (recordToDict r).map Prod.fst =
      [lit "rapidhash", lit "size", lit "mode", lit "uid_name", lit "gid_name", lit "mtime_s",
        lit "mtime_ns", lit "recv_ts_ns", lit "deleted"] := rfl
  refine codable_obj hkeys (by decide) (by decide) ?_
  simp only [recordToDict, List.map_cons, List.map_nil, List.forall_mem_cons, Codable,
    true_and]
  exact ⟨stable_of_scalar hu, stable_of_scalar hg, List.forall_mem_nil _⟩

theorem toSnapshot_codable {rs : Records} (h : ScalarRecords rs) :
    Codable (.obj (toSnapshot rs)) := by
  constructor
  · have hkeys : (toSnapshot rs).map Prod.fst = rs.items.map Prod.fst := by
      unfold toSnapshot
      rw [List.map_map]
      rfl
    -- the keys are the paths of the table, no two of them equal
    rw [hkeys]
    exact rs.nodup
  · rw [codableMembers_iff]
    intro kv hkv
    obtain ⟨⟨p, r⟩, hmem, rfl⟩ := List.mem_map.mp hkv
    obtain ⟨hp, hu, hg⟩ := h p r (rs.mem_items_iff.mp hmem)
    exact ⟨hp, recordToDict_codable hu hg⟩

theorem checkpointDoc_codable {index : SiloIndex} (hn : Stable index.nodeId)
    (h : ScalarRecords index.records) : Codable (checkpointDoc index) := by
  have huuid : Stable (uuidStr index.siloId) :=
    stable_of_scalar (scalar_of_printable (uuidStr_printable _))
  have hnodup : [lit "silo_id", lit "node_id", lit "records"].Nodup := by decide
  have hscalar : ∀ k ∈ [lit "silo_id", lit "node_id", lit "records"], Scalar k := by decide
  refine codable_obj rfl hnodup hscalar ?_
  simp only [List.map_cons, List.map_nil, List.forall_mem_cons]
  exact ⟨huuid, hn, toSnapshot_codable h, List.forall_mem_nil _⟩

/-- **A record survives its row**, all nine fields. -/
theorem dictToRecord_recordToDict (p : Str) (r : FileRecord) :
    dictToRecord p (.obj (recordToDict r)) = .ok r := rfl

theorem loadRecords_map (l : List (Str × FileRecord)) (rs : Records) :
    loadRecords rs (l.map fun kv => (kv.1, .obj (recordToDict kv.2))) =
      .ok (l.foldl (fun d kv => d.set kv.1 kv.2) rs) := by
  induction l generalizing rs with
  | nil => rfl
  | cons kv l ih =>
    rw [List.map_cons, loadRecords, dictToRecord_recordToDict]
    exact ih _

/-- The node id only ever meets the codec inside the document, which prints it in its merged
form. -/
theorem dumps_checkpointDoc_merge (index : SiloIndex) :
    dumps (checkpointDoc { index with nodeId := mergeSurrogates index.nodeId }) =
      dumps (checkpointDoc index) := by
  simp only [checkpointDoc, dumps, dumpMembers, dumpStr_mergeSurrogates]

/-- **A printed table loads to the same table**, rows in the same order, whatever the node
id. -/
theorem loadCheckpoint_snapshot {index : SiloIndex} (h : ScalarRecords index.records) :
    loadCheckpoint (dumps (checkpointDoc index)) Dict.empty = .ok index.records := by
  -- with its surrogate pairs merged the node id can be encoded, and the text is the same
  have hcod : Codable (checkpointDoc { index with nodeId := mergeSurrogates index.nodeId }) :=
    checkpointDoc_codable (stable_mergeSurrogates _) h
  have hrows : lookupL (lit "records")
      ([(lit "silo_id", .str (uuidStr index.siloId)),
        (lit "node_id", .str (mergeSurrogates index.nodeId)),
        (lit "records", .obj (toSnapshot index.records))] : List (Str × Value)) =
      some (.obj (toSnapshot index.records)) := rfl
  unfold loadCheckpoint
  rw [← dumps_checkpointDoc_merge, loads_dumps hcod]
  simp only [checkpointDoc, hrows]
  unfold toSnapshot
  rw [loadRecords_map]
  exact congrArg Except.ok (Dict.ofList_of_nodup index.records)

end Chiralite
