import Chiralite.Sync.Untyped

/-!
# State files that are not as they were written

What opening a directory comes to, for any texts in its two files. They are read in parts: the
checkpoint document, its rows, the lines of the journal. A part is as the journal writes it, or it
is reported as corrupt, or an exception escapes, or it is taken in with a value of a wrong type
(`Verdict`). Which of these is seen from the part and the limits of the interpreter alone
(`rowVerdict`, `lineVerdict`).

The typed loader and the one without types are followed together (`Reads`): they agree on every
part, except that the typed one stops at a value of a wrong type and has no limits (`reads_load`).
The first part that is not as it was written decides, and `corruption_reported` says how. After a
value of a wrong type the outcome depends on what follows it; for the rows of a checkpoint it is
known (`rawLoadRecords_outcome`).
-/

namespace Chiralite

open Py Json

namespace Untyped

/-! ### What a part of the files comes to -/

/-- **What becomes of a part of the state files**: it is as the journal writes it, or it is
reported with a `JournalError`, or another exception escapes, or it is taken in with a value of a
wrong type. -/
inductive Verdict where
  | good
  | reported
  | escapes
  | wrongType
  deriving DecidableEq

/-- A part, and then the rest: the rest is read when the part is good. -/
def Verdict.andThen : Verdict → Verdict → Verdict
  | .good, w => w
  | v, _ => v

/-- The first part that is not good, if there is one. -/
def firstBad (vs : List Verdict) : Verdict := vs.foldr Verdict.andThen .good

theorem firstBad_append (vs ws : List Verdict) :
    firstBad (vs ++ ws) = (firstBad vs).andThen (firstBad ws) := by
  induction vs with
  | nil => rfl
  | cons v vs ih =>
    show v.andThen (firstBad (vs ++ ws)) = (v.andThen (firstBad vs)).andThen (firstBad ws)
    rw [ih]
    cases v <;> rfl

/-- The declared type of a field. -/
inductive FieldType where
  | str
  | int
  deriving DecidableEq

/-- A value has the declared type. -/
def FieldType.admits : FieldType → Value → Bool
  | .str, .str _ => true
  | .int, .int _ => true
  | _, _ => false

/-- The fields are there, with values of their declared types. -/
def wellTyped (d : List (Str × Value)) (fields : List (String × FieldType)) : Bool :=
  fields.all fun f => (lookupL (lit f.1) d).any f.2.admits

/-- The fields of `WriteEvent`. -/
def writeFields : List (String × FieldType) :=
  [("path", .str), ("rapidhash", .int), ("size", .int), ("mtime_s", .int), ("mtime_ns", .int),
    ("recv_ts_ns", .int), ("mode", .int), ("uid_name", .str), ("gid_name", .str)]

/-- The fields of `DeleteEvent`. -/
def deleteFields : List (String × FieldType) := [("path", .str), ("recv_ts_ns", .int)]

/-- The fields of `RenameEvent`. -/
def renameFields : List (String × FieldType) :=
  [("old_path", .str), ("new_path", .str), ("recv_ts_ns", .int)]

/-- The fields that a row of the checkpoint must have. -/
def rowFields : List (String × FieldType) :=
  [("rapidhash", .int), ("size", .int), ("mtime_s", .int), ("mtime_ns", .int),
    ("recv_ts_ns", .int), ("mode", .int), ("uid_name", .str), ("gid_name", .str)]

/-- `deleted` may be missing. -/
def deletedField (d : List (Str × Value)) : Option Bool :=
  match lookupL (lit "deleted") d with
  | some (.bool b) => some b
  | some _ => none
  | none => some false

/-- A row of the checkpoint. -/
def rowVerdict : Value → Verdict
  | .obj d =>
    if rowFields.all (fun f => (lookupL (lit f.1) d).isSome) then
      if wellTyped d rowFields && (deletedField d).isSome then .good else .wrongType
    else .reported
  | _ => .reported

/-- The checkpoint: the document, or its rows when it has any. Beyond the limits an exception
escapes. -/
def checkpointVerdicts (lim : Limits) (text : Str) : List Verdict :=
  match loadsWithin lim text with
  | .error .decode => [.reported]
  | .error _ => [.escapes]
  | .ok (.obj d) =>
    match lookupL (lit "records") d with
    | none => []
    | some (.obj rows) => rows.map fun row => rowVerdict row.2
    | some _ => [.escapes]
  | .ok _ => [.escapes]

/-- The keyword arguments of an event. -/
def callVerdict (d : PyDict) (fields : List (String × FieldType)) : Verdict :=
  if callFields d (fields.map Prod.fst) then
    if wellTyped d.1 fields then .good else .wrongType
  else .reported

/-- A value on a line of the journal. -/
def entryVerdict (v : Value) : Verdict :=
  match pyDict v with
  | .error .typeError => .reported
  | .error .keyError => .reported
  | .error _ => .escapes
  | .ok d =>
    let rest : PyDict := (eraseL (lit "kind") d.1, d.2)
    match lookupL (lit "kind") d.1 with
    | some (.str k) =>
      if k = lit "write" then callVerdict rest writeFields
      else if k = lit "delete" then callVerdict rest deleteFields
      else if k = lit "rename" then callVerdict rest renameFields
      else .reported
    | _ => .reported

/-- A line of the journal. -/
def lineVerdict (lim : Limits) (raw : Str) : Verdict :=
  if strip raw = [] then .good
  else
    match loadsWithin lim (strip raw) with
    | .error .decode => .reported
    | .error _ => .escapes
    | .ok v => entryVerdict v

/-- The parts of the state files, in the order in which `_load` reads them. -/
def verdicts (lim : Limits) (d : Disk) : List Verdict :=
  d.checkpoint.elim [] (checkpointVerdicts lim) ++
    d.journal.elim [] fun text => (splitlines text).map (lineVerdict lim)

theorem entryVerdict_eventToDict (e : SyncEvent) :
    entryVerdict (.obj (eventToDict e)) = .good := by
  cases e with
  | write e => rfl
  | delete e => rfl
  | rename e => rfl

/-- **A line that the journal writes is good**, where no limit can be exceeded. -/
theorem lineVerdict_eventLine {lim : Limits} {e : SyncEvent} (he : e.Scalar)
    (hdigits : lim.digits = none) (hdepth : (eventLine e).length < lim.depth) :
    lineVerdict lim (eventLine e) = .good := by
  have hloads : loadsWithin lim (eventLine e) = .ok (.obj (eventToDict e)) := by
    rw [loadsWithin_of_unlimited hdigits hdepth, eventLine, loads_dumps (eventToDict_codable he),
      found]
  unfold lineVerdict
  rw [strip_eventLine, if_neg (eventLine_ne_nil e), hloads]
  exact entryVerdict_eventToDict e

/-! ### The two loaders, part by part -/

/-- The loader without types comes to what a verdict says. So does the typed one, except where an
exception escapes, since it has no limits, and past a value of a wrong type, where it does not
go. -/
def Reads {α β : Type} (f : α → β) (t : Except LoadExn α) (r : Except LoadExn β) :
    Verdict → Prop
  | .good => ∃ a, t = .ok a ∧ r = .ok (f a)
  | .reported => ∃ e, t = .error (.journalError e) ∧ r = .error (.journalError e)
  | .escapes => ∃ c, r = .error (.escaped c)
  | .wrongType => t = .error .illTyped

/-- **One part after the other**: an error ends the reading, and otherwise the rest decides. -/
theorem Reads.andThen {α β γ δ : Type} {f : α → β} {g : γ → δ} {t : Except LoadExn α}
    {r : Except LoadExn β} {t' : Except LoadExn γ} {r' : Except LoadExn δ} {v w : Verdict}
    (h : Reads f t r v) (ht : ∀ x, t = .error x → t' = .error x)
    (hr : ∀ x, r = .error x → r' = .error x)
    (hrest : ∀ a, t = .ok a → r = .ok (f a) → Reads g t' r' w) :
    Reads g t' r' (v.andThen w) := by
  cases v with
  | good =>
    obtain ⟨a, hta, hra⟩ := h
    exact hrest a hta hra
  | reported =>
    obtain ⟨e, hte, hre⟩ := h
    exact ⟨e, ht _ hte, hr _ hre⟩
  | escapes =>
    obtain ⟨c, hrc⟩ := h
    exact ⟨c, hr _ hrc⟩
  | wrongType => exact ht _ h

theorem any_admits_int (d : List (Str × Value)) (k : String) :
    (lookupL (lit k) d).any FieldType.int.admits = (intField d k).isSome := by
  unfold intField
  cases lookupL (lit k) d with
  | none => rfl
  | some v => cases v <;> rfl

theorem any_admits_str (d : List (Str × Value)) (k : String) :
    (lookupL (lit k) d).any FieldType.str.admits = (strField d k).isSome := by
  unfold strField
  cases lookupL (lit k) d with
  | none => rfl
  | some v => cases v <;> rfl

theorem rawField_of_intField {d : List (Str × Value)} {k : String} {n : Int}
    (h : intField d k = some n) : rawField d k = .int n := by
  unfold intField at h
  unfold rawField
  split at h
  · next hfound =>
    rw [hfound, ← Option.some.inj h]
    rfl
  · exact absurd h (by simp)

theorem rawField_of_strField {d : List (Str × Value)} {k : String} {s : Str}
    (h : strField d k = some s) : rawField d k = .str s := by
  unfold strField at h
  unfold rawField
  split at h
  · next hfound =>
    rw [hfound, ← Option.some.inj h]
    rfl
  · exact absurd h (by simp)

theorem deletedField_eq_some {d : List (Str × Value)} {b : Bool} (h : deletedField d = some b) :
    lookupL (lit "deleted") d = some (.bool b) ∨ lookupL (lit "deleted") d = none ∧ b = false := by
  unfold deletedField at h
  split at h
  · next hfound =>
    rw [hfound, ← Option.some.inj h]
    exact .inl rfl
  · exact absurd h (by simp)
  · next hfound => exact .inr ⟨hfound, (Option.some.inj h).symm⟩

theorem dictToRecord_of_wellTyped {relPath : Str} {d : List (Str × Value)}
    (hthere : rowFields.all (fun f => (lookupL (lit f.1) d).isSome) = true)
    (hwell : wellTyped d rowFields = true) (hdel : (deletedField d).isSome = true) :
    ∃ r, dictToRecord relPath (.obj d) = .ok r ∧
      dictToRawRecord relPath (.obj d) = .ok (rawRecord r) := by
  simp only [wellTyped, rowFields, List.all_cons, List.all_nil, any_admits_int,
    any_admits_str, Bool.and_eq_true, and_true, Option.isSome_iff_exists] at hwell
  obtain ⟨⟨rapidhash, h₁⟩, ⟨size, h₂⟩, ⟨mtimeS, h₃⟩, ⟨mtimeNs, h₄⟩, ⟨recvTsNs, h₅⟩,
    ⟨mode, h₆⟩, ⟨uidName, h₇⟩, ⟨gidName, h₈⟩⟩ := hwell
  obtain ⟨deleted, hdel⟩ := Option.isSome_iff_exists.mp hdel
  refine ⟨⟨rapidhash, size, mtimeS, mtimeNs, recvTsNs, mode, uidName, gidName, deleted⟩, ?_, ?_⟩
  · unfold dictToRecord
    refine (if_pos hthere).trans ?_
    rw [h₁, h₂, h₃, h₄, h₅, h₆, h₇, h₈]
    rcases deletedField_eq_some hdel with hfound | ⟨hfound, rfl⟩
    · rw [hfound]
    · rw [hfound]
  · unfold dictToRawRecord
    refine (if_pos hthere).trans ?_
    rw [rawField_of_intField h₁, rawField_of_intField h₂, rawField_of_intField h₃,
      rawField_of_intField h₄, rawField_of_intField h₅, rawField_of_intField h₆,
      rawField_of_strField h₇, rawField_of_strField h₈]
    rcases deletedField_eq_some hdel with hfound | ⟨hfound, rfl⟩
    · rw [hfound]
      rfl
    · rw [hfound]
      rfl

theorem dictToRecord_of_not_wellTyped {relPath : Str} {d : List (Str × Value)}
    (hthere : rowFields.all (fun f => (lookupL (lit f.1) d).isSome) = true)
    (hwell : ¬ (wellTyped d rowFields && (deletedField d).isSome) = true) :
    dictToRecord relPath (.obj d) = .error .illTyped := by
  unfold dictToRecord
  refine (if_pos hthere).trans ?_
  dsimp only
  split
  · next h₁ h₂ h₃ h₄ h₅ h₆ h₇ h₈ h₉ =>
    refine absurd ?_ hwell
    have hdel : deletedField d = some _ := h₉
    simp only [wellTyped, rowFields, List.all_cons, List.all_nil, any_admits_int, any_admits_str,
      h₁, h₂, h₃, h₄, h₅, h₆, h₇, h₈, hdel, Option.isSome_some, Bool.and_true]
  · rfl

theorem reads_row (relPath : Str) (v : Value) :
    Reads rawRecord (dictToRecord relPath v) (dictToRawRecord relPath v) (rowVerdict v) := by
  cases v with
  | obj d =>
    unfold rowVerdict
    dsimp only
    split
    · next hthere =>
      split
      · next hwell =>
        rw [Bool.and_eq_true] at hwell
        exact dictToRecord_of_wellTyped hthere hwell.1 hwell.2
      · next hwell => exact dictToRecord_of_not_wellTyped hthere hwell
    · next hthere => exact ⟨_, if_neg hthere, if_neg hthere⟩
  | null => exact ⟨_, rfl, rfl⟩
  | bool b => exact ⟨_, rfl, rfl⟩
  | int n => exact ⟨_, rfl, rfl⟩
  | float lexeme => exact ⟨_, rfl, rfl⟩
  | str s => exact ⟨_, rfl, rfl⟩
  | arr vs => exact ⟨_, rfl, rfl⟩

/-- The handler of `_replay_journal`. -/
def handled {α : Type} (lineno : Nat) : Except LoadExn α → Except LoadExn α
  | .error (.escaped .typeError) => .error (.journalError (.corruptEntry lineno))
  | .error (.escaped .keyError) => .error (.journalError (.corruptEntry lineno))
  | r => r

section Entries

variable (lim : Limits) (lineno : Nat)

/-- A dataclass call under the handler, whichever event it builds. -/
theorem reads_call {d : PyDict} {fields : List (String × FieldType)} {t : Except LoadExn SyncEvent}
    {r : Except LoadExn RawEvent}
    (hrefused : ¬ callFields d (fields.map Prod.fst) = true →
      t = .error (.escaped .typeError) ∧ r = .error (.escaped .typeError))
    (hmade : callFields d (fields.map Prod.fst) = true → wellTyped d.1 fields = true →
      ∃ e, t = .ok e ∧ r = .ok (rawEvent e))
    (hwrong : callFields d (fields.map Prod.fst) = true → ¬ wellTyped d.1 fields = true →
      t = .error .illTyped) :
    Reads rawEvent (handled lineno t) (handled lineno r) (callVerdict d fields) := by
  unfold callVerdict
  split
  · next hcall =>
    split
    · next hwell =>
      obtain ⟨e, rfl, rfl⟩ := hmade hcall hwell
      exact ⟨e, rfl, rfl⟩
    · next hwell =>
      obtain rfl := hwrong hcall hwell
      exact rfl
  · next hcall =>
    obtain ⟨rfl, rfl⟩ := hrefused hcall
    exact ⟨_, rfl, rfl⟩

theorem reads_callWrite (d : PyDict) :
    Reads rawEvent (handled lineno (callWriteEvent d)) (handled lineno (callRawWrite d))
      (callVerdict d writeFields) := by
  refine reads_call lineno (fun hcall => ⟨if_neg hcall, if_neg hcall⟩) (fun hcall hwell => ?_)
    (fun hcall hwell => ?_)
  · simp only [wellTyped, writeFields, List.all_cons, List.all_nil, any_admits_int,
      any_admits_str, Bool.and_eq_true, and_true, Option.isSome_iff_exists] at hwell
    obtain ⟨⟨path, h₁⟩, ⟨rapidhash, h₂⟩, ⟨size, h₃⟩, ⟨mtimeS, h₄⟩, ⟨mtimeNs, h₅⟩, ⟨recvTsNs, h₆⟩,
      ⟨mode, h₇⟩, ⟨uidName, h₈⟩, ⟨gidName, h₉⟩⟩ := hwell
    refine ⟨.write ⟨path, rapidhash, size, mtimeS, mtimeNs, recvTsNs, mode, uidName, gidName⟩,
      (if_pos hcall).trans ?_, (if_pos hcall).trans ?_⟩
    · rw [h₁, h₂, h₃, h₄, h₅, h₆, h₇, h₈, h₉]
    · rw [rawField_of_strField h₁, rawField_of_intField h₂, rawField_of_intField h₃,
        rawField_of_intField h₄, rawField_of_intField h₅, rawField_of_intField h₆,
        rawField_of_intField h₇, rawField_of_strField h₈, rawField_of_strField h₉]
      rfl
  · refine (if_pos hcall).trans ?_
    split
    · next h₁ h₂ h₃ h₄ h₅ h₆ h₇ h₈ h₉ =>
      refine absurd ?_ hwell
      simp only [wellTyped, writeFields, List.all_cons, List.all_nil, any_admits_int,
        any_admits_str, h₁, h₂, h₃, h₄, h₅, h₆, h₇, h₈, h₉, Option.isSome_some, Bool.and_true]
    · rfl

theorem reads_callDelete (d : PyDict) :
    Reads rawEvent (handled lineno (callDeleteEvent d)) (handled lineno (callRawDelete d))
      (callVerdict d deleteFields) := by
  refine reads_call lineno (fun hcall => ⟨if_neg hcall, if_neg hcall⟩) (fun hcall hwell => ?_)
    (fun hcall hwell => ?_)
  · simp only [wellTyped, deleteFields, List.all_cons, List.all_nil, any_admits_int,
      any_admits_str, Bool.and_eq_true, and_true, Option.isSome_iff_exists] at hwell
    obtain ⟨⟨path, h₁⟩, ⟨recvTsNs, h₂⟩⟩ := hwell
    refine ⟨.delete ⟨path, recvTsNs⟩, (if_pos hcall).trans ?_, (if_pos hcall).trans ?_⟩
    · rw [h₁, h₂]
    · rw [rawField_of_strField h₁, rawField_of_intField h₂]
      rfl
  · refine (if_pos hcall).trans ?_
    split
    · next h₁ h₂ =>
      refine absurd ?_ hwell
      simp only [wellTyped, deleteFields, List.all_cons, List.all_nil, any_admits_int,
        any_admits_str, h₁, h₂, Option.isSome_some, Bool.and_true]
    · rfl

theorem reads_callRename (d : PyDict) :
    Reads rawEvent (handled lineno (callRenameEvent d)) (handled lineno (callRawRename d))
      (callVerdict d renameFields) := by
  refine reads_call lineno (fun hcall => ⟨if_neg hcall, if_neg hcall⟩) (fun hcall hwell => ?_)
    (fun hcall hwell => ?_)
  · simp only [wellTyped, renameFields, List.all_cons, List.all_nil, any_admits_int,
      any_admits_str, Bool.and_eq_true, and_true, Option.isSome_iff_exists] at hwell
    obtain ⟨⟨oldPath, h₁⟩, ⟨newPath, h₂⟩, ⟨recvTsNs, h₃⟩⟩ := hwell
    refine ⟨.rename ⟨oldPath, newPath, recvTsNs⟩, (if_pos hcall).trans ?_,
      (if_pos hcall).trans ?_⟩
    · rw [h₁, h₂, h₃]
    · rw [rawField_of_strField h₁, rawField_of_strField h₂, rawField_of_intField h₃]
      rfl
  · refine (if_pos hcall).trans ?_
    split
    · next h₁ h₂ h₃ =>
      refine absurd ?_ hwell
      simp only [wellTyped, renameFields, List.all_cons, List.all_nil, any_admits_int,
        any_admits_str, h₁, h₂, h₃, Option.isSome_some, Bool.and_true]
    · rfl

theorem reads_entry (v : Value) :
    Reads rawEvent (handled lineno (dictToEvent v)) (handled lineno (dictToRawEvent v))
      (entryVerdict v) := by
  unfold dictToEvent dictToRawEvent entryVerdict
  cases pyDict v with
  -- of what `dict` raises, only `TypeError` is handled
  | error c =>
    cases c with
    | typeError => exact ⟨_, rfl, rfl⟩
    | keyError => exact ⟨_, rfl, rfl⟩
    | valueError => exact ⟨_, rfl⟩
    | attributeError => exact ⟨_, rfl⟩
    | recursionError => exact ⟨_, rfl⟩
  | ok d =>
    dsimp only
    cases lookupL (lit "kind") d.1 with
    | none => exact ⟨_, rfl, rfl⟩
    | some kind =>
      cases kind with
      | str k =>
        dsimp only
        split
        · exact reads_callWrite lineno _
        · split
          · exact reads_callDelete lineno _
          · split
            · exact reads_callRename lineno _
            · exact ⟨_, rfl, rfl⟩
      | null => exact ⟨_, rfl, rfl⟩
      | bool b => exact ⟨_, rfl, rfl⟩
      | int n => exact ⟨_, rfl, rfl⟩
      | float lexeme => exact ⟨_, rfl, rfl⟩
      | arr vs => exact ⟨_, rfl, rfl⟩
      | obj kvs => exact ⟨_, rfl, rfl⟩

theorem readEntry_of_loads {line : Str} {v : Value} (h : loads line = some v) :
    readEntry lineno line = handled lineno (dictToEvent v) := by
  unfold readEntry
  rw [h]
  dsimp only
  cases dictToEvent v with
  | ok e => rfl
  | error x =>
    cases x with
    | escaped c => cases c <;> rfl
    | journalError e => rfl
    | illTyped => rfl

theorem readRawEntry_of_loads {line : Str} {v : Value} (h : loadsWithin lim line = .ok v) :
    readRawEntry lim lineno line = handled lineno (dictToRawEvent v) := by
  unfold readRawEntry loadsOr
  rw [h]
  dsimp only
  cases dictToRawEvent v with
  | ok e => rfl
  | error x =>
    cases x with
    | escaped c => cases c <;> rfl
    | journalError e => rfl
    | illTyped => rfl

theorem reads_readEntry {raw : Str} (hne : strip raw ≠ []) :
    Reads rawEvent (readEntry lineno (strip raw)) (readRawEntry lim lineno (strip raw))
      (lineVerdict lim raw) := by
  unfold lineVerdict
  rw [if_neg hne]
  cases hloads : loadsWithin lim (strip raw) with
  | error e =>
    unfold readEntry readRawEntry loadsOr
    rw [hloads]
    cases e with
    | decode =>
      rw [loads_of_decode hloads]
      exact ⟨_, rfl, rfl⟩
    | digits => exact ⟨_, rfl⟩
    | depth => exact ⟨_, rfl⟩
  | ok v =>
    rw [readEntry_of_loads lineno (loads_of_within hloads),
      readRawEntry_of_loads lim lineno hloads]
    exact reads_entry lineno v

end Entries

section Load

variable (P : PyOps) (lim : Limits)

/-- The tables of the two loaders. -/
def rawRecords (rs : Records) : RawIndex := rawIndex rs.items

theorem reads_loadRecords (rs : Records) (rows : List (Str × Value)) :
    Reads rawRecords (loadRecords rs rows) (rawLoadRecords P (rawRecords rs) rows)
      (firstBad (rows.map fun row => rowVerdict row.2)) := by
  induction rows generalizing rs with
  | nil => exact ⟨rs, rfl, rfl⟩
  | cons row rows ih =>
    obtain ⟨relPath, rec⟩ := row
    refine (reads_row relPath rec).andThen ?_ ?_ ?_
    · intro x hx
      rw [loadRecords, hx]
    · intro x hx
      rw [rawLoadRecords, hx]
    · intro r ht hr
      have hset : rawSet P (.str relPath) (rawRecord r) (rawRecords rs) =
          rawRecords (rs.set relPath r) := rawSet_rawIndex P rs.items relPath r
      rw [loadRecords, rawLoadRecords, ht, hr]
      dsimp only
      rw [hset]
      exact ih (rs.set relPath r)

theorem reads_loadCheckpoint (text : Str) :
    Reads rawRecords (loadCheckpoint text Dict.empty) (rawLoadCheckpoint P lim text [])
      (firstBad (checkpointVerdicts lim text)) := by
  unfold loadCheckpoint rawLoadCheckpoint loadsOr checkpointVerdicts
  cases hloads : loadsWithin lim text with
  | error e =>
    cases e with
    | decode =>
      rw [loads_of_decode hloads]
      exact ⟨_, rfl, rfl⟩
    | digits => exact ⟨_, rfl⟩
    | depth => exact ⟨_, rfl⟩
  | ok v =>
    rw [loads_of_within hloads]
    cases v with
    | obj d =>
      dsimp only
      cases lookupL (lit "records") d with
      | none => exact ⟨_, rfl, rfl⟩
      | some rows =>
        cases rows with
        | obj rows => exact reads_loadRecords P Dict.empty rows
        | null => exact ⟨_, rfl⟩
        | bool b => exact ⟨_, rfl⟩
        | int n => exact ⟨_, rfl⟩
        | float lexeme => exact ⟨_, rfl⟩
        | str s => exact ⟨_, rfl⟩
        | arr vs => exact ⟨_, rfl⟩
    | null => exact ⟨_, rfl⟩
    | bool b => exact ⟨_, rfl⟩
    | int n => exact ⟨_, rfl⟩
    | float lexeme => exact ⟨_, rfl⟩
    | str s => exact ⟨_, rfl⟩
    | arr vs => exact ⟨_, rfl⟩

theorem reads_replayLines (lines : List Str) (lineno : Nat) (rs : Records) :
    Reads rawRecords (replayLines lineno rs lines)
      (rawReplayLines P lim lineno (rawRecords rs) lines)
      (firstBad (lines.map (lineVerdict lim))) := by
  induction lines generalizing lineno rs with
  | nil => exact ⟨rs, rfl, rfl⟩
  | cons raw lines ih =>
    rw [replayLines, rawReplayLines]
    by_cases hblank : strip raw = []
    · have hgood : lineVerdict lim raw = .good := if_pos hblank
      rw [if_pos hblank, if_pos hblank, List.map_cons, hgood]
      exact ih (lineno + 1) rs
    · rw [if_neg hblank, if_neg hblank]
      refine (reads_readEntry lim lineno hblank).andThen ?_ ?_ ?_
      · intro x hx
        rw [hx]
      · intro x hx
        rw [hx]
      · -- the event is applied outside the handler, where a typed one cannot fail
        intro e ht hr
        have happly : rawApply P (rawRecords rs) (rawEvent e) = .ok (rawRecords (apply rs e)) :=
          rawApply_rawIndex P rs e
        rw [ht, hr]
        dsimp only
        rw [happly]
        exact ih (lineno + 1) (apply rs e)

/-- **Both loaders come to what the first bad part of the files says.** -/
theorem reads_load (d : Disk) :
    Reads rawRecords (load d) (loadRaw P lim d) (firstBad (verdicts lim d)) := by
  unfold load loadRaw verdicts
  rw [firstBad_append]
  cases d.checkpoint with
  | none =>
    cases d.journal with
    | none => exact ⟨Dict.empty, rfl, rfl⟩
    | some text => exact reads_replayLines P lim (splitlines text) 1 Dict.empty
  | some doc =>
    refine (reads_loadCheckpoint P lim doc).andThen ?_ ?_ ?_
    · intro x hx
      dsimp only
      rw [hx]
    · intro x hx
      dsimp only
      rw [hx]
    · -- the journal is replayed over the table of the checkpoint
      intro rs ht hr
      dsimp only
      rw [ht, hr]
      cases d.journal with
      | none => exact ⟨rs, rfl, rfl⟩
      | some text => exact reads_replayLines P lim (splitlines text) 1 rs

end Load

/-! ### A checkpoint alone -/

theorem rowVerdict_ne_escapes (v : Value) : rowVerdict v ≠ .escapes := by
  cases v with
  | obj d =>
    unfold rowVerdict
    dsimp only
    split
    · split <;> simp
    · simp
  | _ => simp [rowVerdict]

theorem lookupL_of_rawField {d : List (Str × Value)} {k : String} {v : Value}
    (hthere : (lookupL (lit k) d).isSome = true) (h : rawField d k = v) :
    lookupL (lit k) d = some v := by
  obtain ⟨w, hw⟩ := Option.isSome_iff_exists.mp hthere
  unfold rawField at h
  rw [hw] at h
  rw [hw, ← h]
  rfl

/-- **A row with a value of a wrong type is taken in**, as a record that is none. -/
theorem dictToRawRecord_of_wrongType {relPath : Str} {v : Value} (h : rowVerdict v = .wrongType) :
    ∃ r, dictToRawRecord relPath v = .ok r ∧ ¬ ∃ s, r = rawRecord s := by
  cases v with
  | obj d =>
    unfold rowVerdict at h
    dsimp only at h
    split at h
    · next hthere =>
      split at h
      · cases h
      · next hwell =>
        refine ⟨_, if_pos hthere, ?_⟩
        -- were it a record, every field would have its type
        rintro ⟨s, hs⟩
        obtain ⟨h₁, h₂, h₃, h₄, h₅, h₆, h₇, h₈, h₉⟩ := RawRecord.mk.inj hs
        refine hwell ?_
        simp only [rowFields, List.all_cons, List.all_nil, Bool.and_eq_true, and_true] at hthere
        obtain ⟨g₁, g₂, g₃, g₄, g₅, g₆, g₇, g₈⟩ := hthere
        have hdel : (deletedField d).isSome = true := by
          unfold deletedField
          cases hfound : lookupL (lit "deleted") d with
          | none => rfl
          | some w =>
            rw [hfound] at h₉
            obtain rfl : w = .bool s.deleted := h₉
            rfl
        simp only [wellTyped, rowFields, List.all_cons, List.all_nil,
          lookupL_of_rawField g₁ h₁, lookupL_of_rawField g₂ h₂, lookupL_of_rawField g₃ h₃,
          lookupL_of_rawField g₄ h₄, lookupL_of_rawField g₅ h₅, lookupL_of_rawField g₆ h₆,
          lookupL_of_rawField g₇ h₇, lookupL_of_rawField g₈ h₈, hdel, Option.any_some,
          FieldType.admits, Bool.and_true]
    · cases h
  | _ => cases h

section Checkpoint

variable (P : PyOps)

theorem rawSet_of_new {path : Value} {index : RawIndex} (r : RawRecord)
    (h : ∀ kv ∈ index, P.eq kv.1 path = false) : rawSet P path r index = index ++ [(path, r)] := by
  induction index with
  | nil => rfl
  | cons kv index ih =>
    have hkv := h kv List.mem_cons_self
    have hrest := ih fun kv hkv => h kv (List.mem_cons_of_mem _ hkv)
    rw [rawSet, hkv, hrest]
    rfl

theorem typed_append_singleton {index : RawIndex} {path : Str} {r : RawRecord} :
    Typed (index ++ [(.str path, r)]) ↔ Typed index ∧ ∃ s, r = rawRecord s := by
  unfold Typed
  rw [List.forall_mem_append, List.forall_mem_singleton]
  exact and_congr_right fun _ => ⟨fun h => h.2, fun h => ⟨⟨path, rfl⟩, h⟩⟩

/-- The paths of the table are none of the rows that follow. -/
def Ahead (index : RawIndex) (rows : List (Str × Value)) : Prop :=
  ∀ kv ∈ index, ∃ path, kv.1 = .str path ∧ path ∉ rows.map Prod.fst

/-- A row that is taken in goes to the end of the table. -/
theorem rawLoadRecords_cons {index : RawIndex} {relPath : Str} {rec : Value} {r : RawRecord}
    {rows : List (Str × Value)} (hnew : Ahead index ((relPath, rec) :: rows))
    (hr : dictToRawRecord relPath rec = .ok r) :
    rawLoadRecords P index ((relPath, rec) :: rows) =
      rawLoadRecords P (index ++ [(.str relPath, r)]) rows := by
  have hset : rawSet P (.str relPath) r index = index ++ [(.str relPath, r)] := by
    refine rawSet_of_new P r fun kv hkv => ?_
    obtain ⟨path, hkey, hnot⟩ := hnew kv hkv
    have hne : path ≠ relPath := fun heq => hnot (heq ▸ List.mem_cons_self)
    rw [hkey, P.eq_str, decide_eq_false hne]
  rw [rawLoadRecords, hr]
  dsimp only
  rw [hset]

theorem Ahead.concat {index : RawIndex} {relPath : Str} {rec : Value}
    {rows : List (Str × Value)} (h : Ahead index ((relPath, rec) :: rows))
    (hpath : relPath ∉ rows.map Prod.fst) (r : RawRecord) :
    Ahead (index ++ [(.str relPath, r)]) rows := by
  intro kv hkv
  rcases List.mem_append.mp hkv with hmem | hmem
  · obtain ⟨path, hkey, hnot⟩ := h kv hmem
    exact ⟨path, hkey, fun h => hnot (List.mem_cons_of_mem _ h)⟩
  · rw [List.mem_singleton.mp hmem]
    exact ⟨relPath, rfl, hpath⟩

/-- **The rows of a checkpoint**: one that is not a record is reported, wherever it stands, and
otherwise all are in the table. -/
theorem rawLoadRecords_outcome (rows : List (Str × Value)) (index : RawIndex)
    (hnodup : (rows.map Prod.fst).Nodup) (hnew : Ahead index rows) :
    (.reported ∈ rows.map (fun row => rowVerdict row.2) →
      ∃ e, rawLoadRecords P index rows = .error (.journalError e)) ∧
    (.reported ∉ rows.map (fun row => rowVerdict row.2) →
      ∃ index', rawLoadRecords P index rows = .ok index' ∧
        (Typed index' ↔
          Typed index ∧ .wrongType ∉ rows.map (fun row => rowVerdict row.2))) := by
  induction rows generalizing index with
  | nil => exact ⟨fun h => absurd h (by simp), fun _ => ⟨index, rfl, by simp⟩⟩
  | cons row rows ih =>
    obtain ⟨relPath, rec⟩ := row
    obtain ⟨hpath, hrows⟩ := List.nodup_cons.mp hnodup
    rw [List.map_cons, List.mem_cons, List.mem_cons]
    have hread := reads_row relPath rec
    cases hv : rowVerdict rec with
    | good =>
      rw [hv] at hread
      obtain ⟨r, -, hr⟩ := hread
      obtain ⟨hbad, hok⟩ := ih _ hrows (hnew.concat hpath (rawRecord r))
      have htyped : ∃ s, rawRecord r = rawRecord s := ⟨r, rfl⟩
      rw [rawLoadRecords_cons P hnew hr]
      simp only [typed_append_singleton, htyped, and_true] at hok
      simp only [reduceCtorEq, false_or]
      exact ⟨hbad, hok⟩
    | wrongType =>
      -- it stays in the table to the end, unless a later row is reported
      obtain ⟨r, hr, hnot⟩ := dictToRawRecord_of_wrongType hv
      obtain ⟨hbad, hok⟩ := ih _ hrows (hnew.concat hpath r)
      rw [rawLoadRecords_cons P hnew hr]
      simp only [typed_append_singleton, hnot, and_false, false_and] at hok
      simp only [reduceCtorEq, false_or, true_or, not_true_eq_false, and_false]
      exact ⟨hbad, hok⟩
    | reported =>
      rw [hv] at hread
      obtain ⟨e, -, he⟩ := hread
      refine ⟨fun _ => ⟨e, ?_⟩, fun h => absurd (.inl rfl) h⟩
      rw [rawLoadRecords, he]
    | escapes => exact absurd hv (rowVerdict_ne_escapes rec)

theorem rawLoadRecords_reports {rows : List (Str × Value)} (hnodup : (rows.map Prod.fst).Nodup) :
    (∃ index, rawLoadRecords P [] rows = .ok index ∧ Typed index) ∨
        (∃ e, rawLoadRecords P [] rows = .error (.journalError e)) ↔
      .escapes ∉ rows.map (fun row => rowVerdict row.2) ∧
        (.reported ∈ rows.map (fun row => rowVerdict row.2) ∨
          .wrongType ∉ rows.map (fun row => rowVerdict row.2)) := by
  have hescapes : .escapes ∉ rows.map (fun row => rowVerdict row.2) := by
    intro h
    obtain ⟨row, -, heq⟩ := List.mem_map.mp h
    exact rowVerdict_ne_escapes row.2 heq
  obtain ⟨hbad, hok⟩ := rawLoadRecords_outcome P rows [] hnodup (List.forall_mem_nil _)
  by_cases hreported : .reported ∈ rows.map (fun row => rowVerdict row.2)
  · exact ⟨fun _ => ⟨hescapes, .inl hreported⟩, fun _ => .inr (hbad hreported)⟩
  · obtain ⟨index, hindex, htyped⟩ := hok hreported
    constructor
    · rintro (⟨index', hindex', htyped'⟩ | ⟨e, he⟩)
      · rw [hindex] at hindex'
        cases hindex'
        exact ⟨hescapes, .inr (htyped.mp htyped').2⟩
      · rw [hindex] at he
        cases he
    · rintro ⟨-, hreported' | hwrong⟩
      · exact absurd hreported' hreported
      · exact .inl ⟨index, hindex, htyped.mpr ⟨List.forall_mem_nil _, hwrong⟩⟩

theorem rawLoadCheckpoint_reports (lim : Limits) (text : Str) :
    (∃ index, rawLoadCheckpoint P lim text [] = .ok index ∧ Typed index) ∨
        (∃ e, rawLoadCheckpoint P lim text [] = .error (.journalError e)) ↔
      .escapes ∉ checkpointVerdicts lim text ∧
        (.reported ∈ checkpointVerdicts lim text ∨
          .wrongType ∉ checkpointVerdicts lim text) := by
  unfold rawLoadCheckpoint loadsOr checkpointVerdicts
  cases hloads : loadsWithin lim text with
  | error e => cases e <;> simp
  | ok v =>
    cases v with
    | obj d =>
      dsimp only
      cases hfound : lookupL (lit "records") d with
      | none => simp [Typed]
      | some rows =>
        cases rows with
        | obj rows =>
          -- the rows have distinct paths, so that none of them replaces another
          have hdoc := (parsed_of_loads (loads_of_within hloads)).obj
          have hrows := (hdoc.2 _ ((lookupL_eq_some_iff hdoc.1).mp hfound)).obj
          exact rawLoadRecords_reports P hrows.1
        | _ => simp
    | _ => simp

end Checkpoint

/-! ### What is reported -/

/-- The journal has no entries: it is not there, or its lines are blank. So it is after a
checkpoint. -/
def NoEntries (d : Disk) : Prop :=
  ∀ text, d.journal = some text → ∀ raw ∈ splitlines text, strip raw = []

section NoEntries

variable (P : PyOps) (lim : Limits) {d : Disk}

theorem rawReplayLines_of_blank {lines : List Str} (h : ∀ raw ∈ lines, strip raw = [])
    (lineno : Nat) (index : RawIndex) : rawReplayLines P lim lineno index lines = .ok index := by
  induction lines generalizing lineno with
  | nil => rfl
  | cons raw lines ih =>
    rw [rawReplayLines, if_pos (h raw List.mem_cons_self)]
    exact ih (fun raw hraw => h raw (List.mem_cons_of_mem _ hraw)) (lineno + 1)

theorem loadRaw_of_noEntries (h : NoEntries d) :
    loadRaw P lim d = d.checkpoint.elim (.ok []) fun text => rawLoadCheckpoint P lim text [] := by
  unfold loadRaw
  cases hjournal : d.journal with
  | none =>
    cases d.checkpoint with
    | none => rfl
    | some text =>
      dsimp only [Option.elim]
      cases rawLoadCheckpoint P lim text [] <;> rfl
  | some lines =>
    have hblank := rawReplayLines_of_blank P lim (h lines hjournal) 1
    cases d.checkpoint with
    | none => exact hblank []
    | some text =>
      dsimp only [Option.elim]
      cases rawLoadCheckpoint P lim text [] with
      | error x => rfl
      | ok index => exact hblank index

theorem mem_verdicts_of_noEntries (h : NoEntries d) {v : Verdict} (hv : v ≠ .good) :
    v ∈ verdicts lim d ↔ v ∈ d.checkpoint.elim [] (checkpointVerdicts lim) := by
  unfold verdicts
  rw [List.mem_append, or_iff_left]
  intro hmem
  cases hjournal : d.journal with
  | none =>
    rw [hjournal] at hmem
    exact absurd hmem List.not_mem_nil
  | some text =>
    rw [hjournal] at hmem
    obtain ⟨raw, hraw, rfl⟩ := List.mem_map.mp hmem
    exact hv (if_pos (h text hjournal raw hraw))

end NoEntries

section Reports

variable (P : PyOps) (lim : Limits) (d : Disk)

/-- **Corruption is reported**: the files load into a table of typed records, or a `JournalError` is
raised. -/
def ReportsCorruption : Prop :=
  (∃ index, loadRaw P lim d = .ok index ∧ Typed index) ∨
    ∃ e, loadRaw P lim d = .error (.journalError e)

variable {P lim d}

theorem reportsCorruption_of_good (h : firstBad (verdicts lim d) = .good) :
    ReportsCorruption P lim d := by
  have hload := reads_load P lim d
  rw [h] at hload
  obtain ⟨rs, -, hraw⟩ := hload
  exact .inl ⟨rawRecords rs, hraw, typed_rawIndex rs.items⟩

theorem reportsCorruption_of_reported (h : firstBad (verdicts lim d) = .reported) :
    ReportsCorruption P lim d := by
  have hload := reads_load P lim d
  rw [h] at hload
  obtain ⟨e, -, hraw⟩ := hload
  exact .inr ⟨e, hraw⟩

theorem not_reportsCorruption_of_escaped {c : ExnClass}
    (h : loadRaw P lim d = .error (.escaped c)) : ¬ ReportsCorruption P lim d := by
  rintro (⟨index, hok, -⟩ | ⟨e, herr⟩)
  · rw [h] at hok
    cases hok
  · rw [h] at herr
    cases herr

theorem reportsCorruption_iff_of_noEntries (h : NoEntries d) :
    ReportsCorruption P lim d ↔
      .escapes ∉ verdicts lim d ∧ (.reported ∈ verdicts lim d ∨ .wrongType ∉ verdicts lim d) := by
  unfold ReportsCorruption
  rw [loadRaw_of_noEntries P lim h, mem_verdicts_of_noEntries lim h (by simp),
    mem_verdicts_of_noEntries lim h (by simp), mem_verdicts_of_noEntries lim h (by simp)]
  cases d.checkpoint with
  | none => simp [Typed]
  | some text => exact rawLoadCheckpoint_reports P lim text

variable (P lim d)

/-- **The first bad part of the files decides.** When there is none, or it is one that the loader
reports, corruption is reported; when it is one on which an exception escapes, it is not. A value
of a wrong type is taken in, and what comes of it depends on what is read after it: without entries
in the journal it stays, unless a row is reported. -/
theorem corruption_reported :
    (firstBad (verdicts lim d) = .good ∨ firstBad (verdicts lim d) = .reported →
      ReportsCorruption P lim d) ∧
    (ReportsCorruption P lim d → firstBad (verdicts lim d) ≠ .escapes) ∧
    (NoEntries d → (ReportsCorruption P lim d ↔
      .escapes ∉ verdicts lim d ∧ (.reported ∈ verdicts lim d ∨ .wrongType ∉ verdicts lim d))) := by
  refine ⟨?_, ?_, reportsCorruption_iff_of_noEntries⟩
  · rintro (hgood | hreported)
    · exact reportsCorruption_of_good hgood
    · exact reportsCorruption_of_reported hreported
  · intro h hescapes
    have hload := reads_load P lim d
    rw [hescapes] at hload
    obtain ⟨c, hraw⟩ := hload
    exact not_reportsCorruption_of_escaped hraw h

end Reports

namespace Sample

/-- Enough of the language for the files below. -/
def ops : PyOps where
  eq
    | .str a, .str b => decide (a = b)
    | _, _ => false
  gt
    | .int a, .int b => some (decide (a > b))
    | _, _ => none
  lt
    | .int a, .int b => some (decide (a < b))
    | _, _ => none
  ge
    | .int a, .int b => some (decide (a ≥ b))
    | _, _ => none
  truthy
    | .bool b => b
    | _ => false
  eq_str _ _ := rfl
  gt_int _ _ := rfl
  lt_int _ _ := rfl
  ge_int _ _ := rfl
  truthy_bool _ := rfl

/-- The limits of an interpreter as it comes. -/
def limits : Limits := ⟨some 4300, 900⟩

theorem unparsable_line_reported :
    ReportsCorruption ops limits ⟨some (lit "not valid json\n"), none, none⟩ :=
  (corruption_reported ops limits _).1 (.inr (by decide +kernel))

theorem array_checkpoint_escapes :
    loadRaw ops limits ⟨none, some (lit "[]"), none⟩ = .error (.escaped .attributeError) ∧
      ¬ ReportsCorruption ops limits ⟨none, some (lit "[]"), none⟩ := by
  have hload : loadRaw ops limits ⟨none, some (lit "[]"), none⟩ =
      .error (.escaped .attributeError) := rfl
  exact ⟨hload, not_reportsCorruption_of_escaped hload⟩

/-- What goes beyond the limits escapes: here four digits, and an array in an array. -/
example :
    loadRaw ops ⟨some 3, 1⟩ ⟨some (lit "2026\n"), none, none⟩ =
        .error (.escaped .valueError) ∧
      loadRaw ops ⟨some 3, 1⟩ ⟨some (lit "[[0]]\n"), none, none⟩ =
        .error (.escaped .recursionError) := ⟨rfl, rfl⟩

end Sample

end Untyped

end Chiralite
