import Chiralite.Framework.JsonLimits
import Chiralite.Sync.Journal

/-!
# The loader without types

`_load` takes JSON as it comes. Dataclasses do not check the types of their fields, so that a file
with a wrong value in it is loaded like any other, and the index works with the value until it
fails on it, or does not. `Sync/Journal.lean` stops at such a value. Here is the loader without
types: events and records whose fields are whatever `json.loads` returned, and a table whose keys
may be anything that can be hashed. What the language makes of such values when it compares them is
a parameter (`PyOps`); only what it does with strings, integers and booleans is used. So are the
limits of the interpreter (`Limits`), beyond which `json.loads` raises what no handler catches.

On a table of typed records a typed event does what it does in `Sync/Index.lean`
(`rawApply_rawIndex`).
-/

namespace Chiralite

open Py Json

namespace Untyped

/-! ### The program -/

/-- **What the language does with JSON values**: `==` of two keys of a dictionary, `>`, `<` and `>=`
(`none` for `TypeError`), and whether a value is true. -/
structure PyOps where
  eq : Value → Value → Bool
  gt : Value → Value → Option Bool
  lt : Value → Value → Option Bool
  ge : Value → Value → Option Bool
  truthy : Value → Bool
  eq_str : ∀ a b, eq (.str a) (.str b) = decide (a = b)
  gt_int : ∀ a b, gt (.int a) (.int b) = some (decide (a > b))
  lt_int : ∀ a b, lt (.int a) (.int b) = some (decide (a < b))
  ge_int : ∀ a b, ge (.int a) (.int b) = some (decide (a ≥ b))
  truthy_bool : ∀ b, truthy (.bool b) = b

/-- `FileRecord`, with fields of any type. -/
structure RawRecord where
  rapidhash : Value
  size : Value
  mtimeS : Value
  mtimeNs : Value
  recvTsNs : Value
  mode : Value
  uidName : Value
  gidName : Value
  deleted : Value

/-- `SyncEvent`, with fields of any type. -/
inductive RawEvent where
  /-- The path, and the record that the event brings. -/
  | write (path : Value) (record : RawRecord)
  | delete (path recvTsNs : Value)
  | rename (oldPath newPath recvTsNs : Value)

/-- `SiloIndex.records`, in the order of insertion. -/
abbrev RawIndex := List (Value × RawRecord)

/-- A field that is there. -/
def rawField (d : List (Str × Value)) (k : String) : Value := (lookupL (lit k) d).getD .null

/-- `WriteEvent(**d)`. -/
def callRawWrite (d : PyDict) : Except LoadExn RawEvent :=
  if callFields d ["path", "rapidhash", "size", "mtime_s", "mtime_ns", "recv_ts_ns", "mode",
      "uid_name", "gid_name"] then
    .ok (.write (rawField d.1 "path")
      { rapidhash := rawField d.1 "rapidhash"
        size := rawField d.1 "size"
        mtimeS := rawField d.1 "mtime_s"
        mtimeNs := rawField d.1 "mtime_ns"
        recvTsNs := rawField d.1 "recv_ts_ns"
        mode := rawField d.1 "mode"
        uidName := rawField d.1 "uid_name"
        gidName := rawField d.1 "gid_name"
        deleted := .bool false })
  else .error (.escaped .typeError)

/-- `DeleteEvent(**d)`. -/
def callRawDelete (d : PyDict) : Except LoadExn RawEvent :=
  if callFields d ["path", "recv_ts_ns"] then
    .ok (.delete (rawField d.1 "path") (rawField d.1 "recv_ts_ns"))
  else .error (.escaped .typeError)

/-- `RenameEvent(**d)`. -/
def callRawRename (d : PyDict) : Except LoadExn RawEvent :=
  if callFields d ["old_path", "new_path", "recv_ts_ns"] then
    .ok (.rename (rawField d.1 "old_path") (rawField d.1 "new_path") (rawField d.1 "recv_ts_ns"))
  else .error (.escaped .typeError)

/-- `_dict_to_event`. -/
def dictToRawEvent (v : Value) : Except LoadExn RawEvent :=
  match pyDict v with
  | .error c => .error (.escaped c)
  | .ok d =>
    match lookupL (lit "kind") d.1 with
    | none => .error (.escaped .keyError)
    | some kind =>
      let rest : PyDict := (eraseL (lit "kind") d.1, d.2)
      match kind with
      | .str k =>
        if k = lit "write" then callRawWrite rest
        else if k = lit "delete" then callRawDelete rest
        else if k = lit "rename" then callRawRename rest
        else .error (.journalError .unknownKind)
      | _ => .error (.journalError .unknownKind)

/-- A `FileRecord` from a row of the checkpoint. -/
def dictToRawRecord (relPath : Str) : Value → Except LoadExn RawRecord
  | .obj d =>
    if ["rapidhash", "size", "mtime_s", "mtime_ns", "recv_ts_ns", "mode", "uid_name",
        "gid_name"].all (fun f => (lookupL (lit f) d).isSome) then
      .ok
        { rapidhash := rawField d "rapidhash"
          size := rawField d "size"
          mtimeS := rawField d "mtime_s"
          mtimeNs := rawField d "mtime_ns"
          recvTsNs := rawField d "recv_ts_ns"
          mode := rawField d "mode"
          uidName := rawField d "uid_name"
          gidName := rawField d "gid_name"
          deleted := (lookupL (lit "deleted") d).getD (.bool false) }
    else .error (.journalError (.corruptRecord relPath))
  | _ => .error (.journalError (.corruptRecord relPath))

section Index

variable (P : PyOps)

/-- `records.get(path)`. -/
def rawGet (index : RawIndex) (path : Value) : Option RawRecord :=
  (index.find? fun kv => P.eq kv.1 path).map Prod.snd

/-- `records[path] = record`: the key that is there stays. -/
def rawSet (path : Value) (record : RawRecord) : RawIndex → RawIndex
  | [] => [(path, record)]
  | kv :: index =>
    if P.eq kv.1 path then (kv.1, record) :: index else kv :: rawSet path record index

/-- `del records[path]`. -/
def rawErase (path : Value) (index : RawIndex) : RawIndex :=
  index.filter fun kv => !P.eq kv.1 path

/-- Lists and dictionaries have no hash. -/
def hashable : Value → Bool
  | .arr _ => false
  | .obj _ => false
  | _ => true

/-- The record under a path, unless there is none or it is deleted. -/
def rawLive (index : RawIndex) (path : Value) : Except LoadExn (Option RawRecord) :=
  if hashable path then .ok ((rawGet P index path).filter fun r => !P.truthy r.deleted)
  else .error (.escaped .typeError)

/-- A comparison, with the exception that it ends in. -/
def compared (r : Option Bool) : Except LoadExn Bool :=
  match r with
  | some b => .ok b
  | none => .error (.escaped .typeError)

/-- `SiloIndex._apply_write`. -/
def rawApplyWrite (index : RawIndex) (path : Value) (record : RawRecord) :
    Except LoadExn RawIndex := do
  match ← rawLive P index path with
  | none => pure (rawSet P path record index)
  | some existing =>
    if ← compared (P.gt record.recvTsNs existing.recvTsNs) then
      pure (rawSet P path record index)
    else
      -- whether there is a conflict to report
      let _ ← compared (P.lt record.recvTsNs existing.recvTsNs)
      pure index

/-- `SiloIndex._apply_delete`. -/
def rawApplyDelete (index : RawIndex) (path recvTsNs : Value) : Except LoadExn RawIndex := do
  match ← rawLive P index path with
  | none => pure index
  | some existing =>
    if ← compared (P.ge recvTsNs existing.recvTsNs) then
      pure (rawSet P path { existing with deleted := .bool true, recvTsNs := recvTsNs } index)
    else pure index

/-- `SiloIndex._apply_rename`. -/
def rawApplyRename (index : RawIndex) (oldPath newPath recvTsNs : Value) :
    Except LoadExn RawIndex := do
  match ← rawLive P index oldPath with
  | none => pure index
  | some existing =>
    let index := rawErase P oldPath index
    match ← rawLive P index newPath with
    | none => pure (rawSet P newPath { existing with recvTsNs := recvTsNs } index)
    | some target =>
      if ← compared (P.ge recvTsNs target.recvTsNs) then
        pure (rawSet P newPath { existing with recvTsNs := recvTsNs } index)
      else pure (rawSet P oldPath { existing with deleted := .bool true } index)

/-- `SiloIndex.apply_event`. -/
def rawApply (index : RawIndex) : RawEvent → Except LoadExn RawIndex
  | .write path record => rawApplyWrite P index path record
  | .delete path recvTsNs => rawApplyDelete P index path recvTsNs
  | .rename oldPath newPath recvTsNs => rawApplyRename P index oldPath newPath recvTsNs

/-- The loop of `_load_checkpoint` over the members of `records`. -/
def rawLoadRecords (index : RawIndex) : List (Str × Value) → Except LoadExn RawIndex
  | [] => .ok index
  | (relPath, rec) :: rest =>
    match dictToRawRecord relPath rec with
    | .error x => .error x
    | .ok r => rawLoadRecords (rawSet P (.str relPath) r index) rest

end Index

/-- `json.loads` under a handler of `JSONDecodeError`: what the limits of the interpreter raise goes
past it. -/
def loadsOr (lim : Limits) (e : JournalError) (text : Str) : Except LoadExn Value :=
  match loadsWithin lim text with
  | .ok v => .ok v
  | .error .decode => .error (.journalError e)
  | .error .digits => .error (.escaped .valueError)
  | .error .depth => .error (.escaped .recursionError)

section Load

variable (P : PyOps) (lim : Limits)

/-- `_load_checkpoint`. -/
def rawLoadCheckpoint (text : Str) (index : RawIndex) : Except LoadExn RawIndex :=
  match loadsOr lim .corruptCheckpoint text with
  | .error x => .error x
  | .ok (.obj d) =>
    match lookupL (lit "records") d with
    | none => .ok index
    | some (.obj rows) => rawLoadRecords P index rows
    | some _ => .error (.escaped .attributeError)
  | .ok _ => .error (.escaped .attributeError)

/-- `json.loads` and `_dict_to_event` on one stripped line, under their handler. -/
def readRawEntry (lineno : Nat) (line : Str) : Except LoadExn RawEvent :=
  match loadsOr lim (.corruptEntry lineno) line with
  | .error x => .error x
  | .ok d =>
    match dictToRawEvent d with
    | .error (.escaped .typeError) => .error (.journalError (.corruptEntry lineno))
    | .error (.escaped .keyError) => .error (.journalError (.corruptEntry lineno))
    | r => r

/-- The loop of `_replay_journal`. The event is applied outside the handler. -/
def rawReplayLines (lineno : Nat) (index : RawIndex) : List Str → Except LoadExn RawIndex
  | [] => .ok index
  | raw :: rest =>
    if strip raw = [] then rawReplayLines (lineno + 1) index rest
    else
      match readRawEntry lim lineno (strip raw) with
      | .error x => .error x
      | .ok e =>
        match rawApply P index e with
        | .error x => .error x
        | .ok index => rawReplayLines (lineno + 1) index rest

/-- `EventJournal._load` on a fresh index. -/
def loadRaw (d : Disk) : Except LoadExn RawIndex :=
  match d.checkpoint with
  | none =>
    match d.journal with
    | none => .ok []
    | some text => rawReplayLines P lim 1 [] (splitlines text)
  | some doc =>
    match rawLoadCheckpoint P lim doc [] with
    | .error x => .error x
    | .ok index =>
      match d.journal with
      | none => .ok index
      | some text => rawReplayLines P lim 1 index (splitlines text)

end Load

/-! ### Typed values among the others -/

/-- A record, seen without types. -/
def rawRecord (r : FileRecord) : RawRecord where
  rapidhash := .int r.rapidhash
  size := .int r.size
  mtimeS := .int r.mtimeS
  mtimeNs := .int r.mtimeNs
  recvTsNs := .int r.recvTsNs
  mode := .int r.mode
  uidName := .str r.uidName
  gidName := .str r.gidName
  deleted := .bool r.deleted

/-- An event, seen without types. -/
def rawEvent : SyncEvent → RawEvent
  | .write e => .write (.str e.path) (rawRecord e.record)
  | .delete e => .delete (.str e.path) (.int e.recvTsNs)
  | .rename e => .rename (.str e.oldPath) (.str e.newPath) (.int e.recvTsNs)

/-- A table, seen without types. -/
def rawIndex (items : List (Str × FileRecord)) : RawIndex :=
  items.map fun kv => (.str kv.1, rawRecord kv.2)

/-- All records have the field types of `FileRecord`, and all paths are strings. -/
def Typed (index : RawIndex) : Prop :=
  ∀ kv ∈ index, (∃ path, kv.1 = .str path) ∧ ∃ r, kv.2 = rawRecord r

theorem typed_rawIndex (items : List (Str × FileRecord)) : Typed (rawIndex items) := by
  intro kv hkv
  obtain ⟨item, -, rfl⟩ := List.mem_map.mp hkv
  exact ⟨⟨item.1, rfl⟩, item.2, rfl⟩

section Table

variable (P : PyOps) (items : List (Str × FileRecord)) (path : Str)

theorem rawGet_rawIndex :
    rawGet P (rawIndex items) (.str path) = (lookupL path items).map rawRecord := by
  unfold rawGet
  induction items with
  | nil => rfl
  | cons kv items ih =>
    show ((((.str kv.1, rawRecord kv.2) :: rawIndex items).find? fun kv =>
      P.eq kv.1 (.str path)).map Prod.snd) = _
    rw [List.find?_cons, P.eq_str, lookupL]
    by_cases h : kv.1 = path
    · simp [h]
    · simp only [h, decide_false, if_false]
      exact ih

theorem rawSet_rawIndex (r : FileRecord) :
    rawSet P (.str path) (rawRecord r) (rawIndex items) = rawIndex (setL path r items) := by
  induction items with
  | nil => rfl
  | cons kv items ih =>
    show rawSet P _ _ ((.str kv.1, rawRecord kv.2) :: rawIndex items) = _
    rw [rawSet, P.eq_str, setL]
    by_cases h : kv.1 = path
    · simp [h, rawIndex]
    · simp only [h, decide_false, if_false, Bool.false_eq_true]
      rw [ih]
      rfl

theorem rawErase_rawIndex :
    rawErase P (.str path) (rawIndex items) = rawIndex (eraseL path items) := by
  unfold rawErase rawIndex eraseL
  rw [List.filter_map]
  congr 1
  refine List.filter_congr fun kv _ => ?_
  show (!P.eq (.str kv.1) (.str path)) = _
  rw [P.eq_str]
  simp

theorem rawLive_rawIndex (rs : Records) :
    rawLive P (rawIndex rs.items) (.str path) = .ok ((live? rs path).map rawRecord) := by
  unfold rawLive
  rw [if_pos (show hashable (.str path) = true from rfl), rawGet_rawIndex]
  unfold live? Dict.get?
  cases lookupL path rs.items with
  | none => rfl
  | some r =>
    show Except.ok ((some (rawRecord r)).filter fun r => !P.truthy r.deleted) = _
    rw [Option.filter_some]
    show Except.ok (if (!P.truthy (.bool r.deleted)) = true then _ else none) = _
    rw [P.truthy_bool]
    cases hd : r.deleted with
    | true => simp [hd]
    | false => simp [hd]

end Table

section Apply

variable (P : PyOps) (rs : Records)

theorem rawApplyWrite_rawIndex (e : WriteEvent) :
    rawApplyWrite P (rawIndex rs.items) (.str e.path) (rawRecord e.record) =
      .ok (rawIndex (applyWrite rs e).1.items) := by
  have hset := rawSet_rawIndex P rs.items e.path e.record
  unfold rawApplyWrite applyWrite
  rw [rawLive_rawIndex]
  cases live? rs e.path with
  | none => exact congrArg Except.ok hset
  | some existing =>
    show (do
      if ← compared (P.gt (.int e.recvTsNs) (.int existing.recvTsNs)) then
        pure (rawSet P (.str e.path) (rawRecord e.record) (rawIndex rs.items))
      else
        let _ ← compared (P.lt (.int e.recvTsNs) (.int existing.recvTsNs))
        pure (rawIndex rs.items)) = _
    rw [P.gt_int, P.lt_int, hset]
    by_cases hgt : e.recvTsNs > existing.recvTsNs
    · simp only [hgt, decide_true, if_true]
      rfl
    · simp only [hgt, decide_false, if_false]
      split <;> rfl

theorem rawApplyDelete_rawIndex (e : DeleteEvent) :
    rawApplyDelete P (rawIndex rs.items) (.str e.path) (.int e.recvTsNs) =
      .ok (rawIndex (applyDelete rs e).1.items) := by
  unfold rawApplyDelete applyDelete
  rw [rawLive_rawIndex]
  cases live? rs e.path with
  | none => rfl
  | some existing =>
    have hset := rawSet_rawIndex P rs.items e.path
      { existing with deleted := true, recvTsNs := e.recvTsNs }
    show (do
      if ← compared (P.ge (.int e.recvTsNs) (.int existing.recvTsNs)) then
        pure (rawSet P (.str e.path)
          (rawRecord { existing with deleted := true, recvTsNs := e.recvTsNs })
          (rawIndex rs.items))
      else pure (rawIndex rs.items)) = _
    rw [P.ge_int, hset]
    by_cases hge : e.recvTsNs ≥ existing.recvTsNs
    · simp only [hge, decide_true, if_true]
      rfl
    · simp only [hge, decide_false, if_false]
      rfl

theorem rawApplyRename_rawIndex (e : RenameEvent) :
    rawApplyRename P (rawIndex rs.items) (.str e.oldPath) (.str e.newPath) (.int e.recvTsNs) =
      .ok (rawIndex (applyRename rs e).1.items) := by
  unfold rawApplyRename applyRename
  rw [rawLive_rawIndex]
  cases live? rs e.oldPath with
  | none => rfl
  | some existing =>
    -- the tables that it can end in: the record is moved, or put back as a tombstone
    have hmoved := rawSet_rawIndex P (rs.erase e.oldPath).items e.newPath
      { existing with recvTsNs := e.recvTsNs }
    have hback := rawSet_rawIndex P (rs.erase e.oldPath).items e.oldPath
      { existing with deleted := true }
    show (do
      match ← rawLive P (rawErase P (.str e.oldPath) (rawIndex rs.items)) (.str e.newPath) with
      | none =>
        pure (rawSet P (.str e.newPath) (rawRecord { existing with recvTsNs := e.recvTsNs })
          (rawErase P (.str e.oldPath) (rawIndex rs.items)))
      | some target =>
        if ← compared (P.ge (.int e.recvTsNs) target.recvTsNs) then
          pure (rawSet P (.str e.newPath) (rawRecord { existing with recvTsNs := e.recvTsNs })
            (rawErase P (.str e.oldPath) (rawIndex rs.items)))
        else
          pure (rawSet P (.str e.oldPath) (rawRecord { existing with deleted := true })
            (rawErase P (.str e.oldPath) (rawIndex rs.items)))) = _
    rw [rawErase_rawIndex, show eraseL e.oldPath rs.items = (rs.erase e.oldPath).items from rfl,
      hmoved, hback, rawLive_rawIndex]
    dsimp only
    cases live? (rs.erase e.oldPath) e.newPath with
    | none => rfl
    | some target =>
      show (do
        if ← compared (P.ge (.int e.recvTsNs) (.int target.recvTsNs)) then pure _
        else pure _) = _
      rw [P.ge_int]
      by_cases hge : e.recvTsNs ≥ target.recvTsNs
      · simp only [hge, decide_true, if_true]
        rfl
      · simp only [hge, decide_false, if_false]
        rfl

/-- **On typed values the index does what the typed one does.** -/
theorem rawApply_rawIndex (e : SyncEvent) :
    rawApply P (rawIndex rs.items) (rawEvent e) = .ok (rawIndex (apply rs e).items) := by
  cases e with
  | write e => exact rawApplyWrite_rawIndex P rs e
  | delete e => exact rawApplyDelete_rawIndex P rs e
  | rename e => exact rawApplyRename_rawIndex P rs e

end Apply

end Untyped

end Chiralite
