import Chiralite.Framework.Dict
import Chiralite.Protocol.Messages

/-!
# The sync index

`sync/index.py`: one `FileRecord` a tracked path, kept in an insertion-ordered dictionary,
and the three sync events that mutate it under last-writer-wins on `recv_ts_ns`. A record
whose `deleted` flag is set is a tombstone.

* A write over a live record needs a strictly larger timestamp; over a tombstone it always
  succeeds.
* A delete needs a timestamp at least as large; it keeps the record's content and takes
  over the timestamp.
* A rename moves a live source whatever its timestamp. A live target yields to an event at
  least as recent; a newer target stays, and the source is left behind as a tombstone.

`applyEvent` returns the new records together with the `ConflictInfo` of the call.
`get?_apply_of_notMem` is the frame rule: an event changes no path it does not name.
-/

namespace Chiralite

open Py

/-- `FileRecord`, one row of the index. -/
structure FileRecord where
  rapidhash : Int
  size : Int
  mtimeS : Int
  mtimeNs : Int
  recvTsNs : Int
  mode : Int
  uidName : Str
  gidName : Str
  deleted : Bool := false
  deriving DecidableEq

/-- `WriteEvent`: a file was created or modified. -/
structure WriteEvent where
  path : Str
  rapidhash : Int
  size : Int
  mtimeS : Int
  mtimeNs : Int
  recvTsNs : Int
  mode : Int
  uidName : Str
  gidName : Str
  deriving DecidableEq

/-- `DeleteEvent`: a file was removed. -/
structure DeleteEvent where
  path : Str
  recvTsNs : Int
  deriving DecidableEq

/-- `RenameEvent`: a file was moved within the silo. -/
structure RenameEvent where
  oldPath : Str
  newPath : Str
  recvTsNs : Int
  deriving DecidableEq

/-- `SyncEvent`. -/
inductive SyncEvent where
  | write (e : WriteEvent)
  | delete (e : DeleteEvent)
  | rename (e : RenameEvent)
  deriving DecidableEq

/-- Which side of a conflict is kept. -/
inductive Winner where
  | local
  | incoming
  deriving DecidableEq

/-- `ConflictInfo`. -/
structure ConflictInfo where
  path : Str
  winner : Winner
  keptRapidhash : Int
  overwrittenRapidhash : Int
  keptRecvTsNs : Int
  overwrittenRecvTsNs : Int
  deriving DecidableEq

/-- The record table of an index. -/
abbrev Records := Dict Str FileRecord

/-- `SiloIndex`. -/
structure SiloIndex where
  siloId : Uuid
  nodeId : Str
  records : Records
  deriving DecidableEq

/-- A fresh `SiloIndex`. -/
def SiloIndex.init (siloId : Uuid) (nodeId : Str) : SiloIndex := ⟨siloId, nodeId, Dict.empty⟩

/-- The record a write event brings. -/
def WriteEvent.record (e : WriteEvent) : FileRecord where
  rapidhash := e.rapidhash
  size := e.size
  mtimeS := e.mtimeS
  mtimeNs := e.mtimeNs
  recvTsNs := e.recvTsNs
  mode := e.mode
  uidName := e.uidName
  gidName := e.gidName
  deleted := false

/-- The live record under a path: `None` and tombstones are treated alike. -/
def live? (rs : Records) (p : Str) : Option FileRecord :=
  match rs.get? p with
  | some r => if r.deleted then none else some r
  | none => none

theorem live?_eq_some {rs : Records} {p : Str} {r : FileRecord} :
    live? rs p = some r ↔ rs.get? p = some r ∧ r.deleted = false := by
  unfold live?
  cases rs.get? p with
  | none => simp
  | some s =>
    -- a tombstone is present in the dictionary, but not live
    by_cases hs : s.deleted = true
    · simp only [hs, if_true, Option.some.injEq]
      constructor
      · intro h; exact absurd h (by simp)
      · rintro ⟨rfl, h⟩; rw [hs] at h; exact absurd h (by simp)
    · simp only [hs, if_false, Option.some.injEq, Bool.false_eq_true]
      constructor
      · rintro rfl; exact ⟨rfl, by simpa using hs⟩
      · exact fun h => h.1

theorem live?_congr {rs ss : Records} {p q : Str} (h : rs.get? p = ss.get? q) :
    live? rs p = live? ss q := by
  unfold live?
  rw [h]

theorem live?_set (rs : Records) (k : Str) (v : FileRecord) (p : Str) :
    live? (rs.set k v) p =
      if p = k then (if v.deleted then none else some v) else live? rs p := by
  by_cases hp : p = k
  · rw [if_pos hp, hp]
    unfold live?
    rw [Dict.get?_set_self]
  · rw [if_neg hp]
    exact live?_congr (Dict.get?_set_of_ne _ _ hp)

theorem live?_erase (rs : Records) (k p : Str) :
    live? (rs.erase k) p = if p = k then none else live? rs p := by
  by_cases hp : p = k
  · rw [if_pos hp, hp]
    unfold live?
    rw [Dict.get?_erase_self]
  · rw [if_neg hp]
    exact live?_congr (Dict.get?_erase_of_ne _ hp)

/-! ### The three mutations -/

/-- `SiloIndex._apply_write`. -/
def applyWrite (rs : Records) (e : WriteEvent) : Records × Option ConflictInfo :=
  match live? rs e.path with
  | none => (rs.set e.path e.record, none)
  | some existing =>
    if e.recvTsNs > existing.recvTsNs then
      (rs.set e.path e.record,
        some
          { path := e.path
            winner := .incoming
            keptRapidhash := e.record.rapidhash
            overwrittenRapidhash := existing.rapidhash
            keptRecvTsNs := e.recvTsNs
            overwrittenRecvTsNs := existing.recvTsNs })
    else if e.recvTsNs < existing.recvTsNs then
      (rs,
        some
          { path := e.path
            winner := .local
            keptRapidhash := existing.rapidhash
            overwrittenRapidhash := e.record.rapidhash
            keptRecvTsNs := existing.recvTsNs
            overwrittenRecvTsNs := e.recvTsNs })
    -- the same timestamp: the record that is there stays, and nobody is told
    else (rs, none)

/-- `SiloIndex._apply_delete`. -/
def applyDelete (rs : Records) (e : DeleteEvent) : Records × Option ConflictInfo :=
  match live? rs e.path with
  | none => (rs, none)
  | some existing =>
    -- a delete wins a tie, a write does not
    if e.recvTsNs ≥ existing.recvTsNs then
      (rs.set e.path { existing with deleted := true, recvTsNs := e.recvTsNs }, none)
    else (rs, none)

/-- `SiloIndex._apply_rename`. -/
def applyRename (rs : Records) (e : RenameEvent) : Records × Option ConflictInfo :=
  match live? rs e.oldPath with
  | none => (rs, none)
  | some existing =>
    -- the source entry is gone before the target is looked up, so that a rename of a path
    -- onto itself finds no target
    let rs₁ := rs.erase e.oldPath
    match live? rs₁ e.newPath with
    | none => (rs₁.set e.newPath { existing with recvTsNs := e.recvTsNs }, none)
    | some target =>
      if e.recvTsNs ≥ target.recvTsNs then
        (rs₁.set e.newPath { existing with recvTsNs := e.recvTsNs },
          some
            { path := e.newPath
              winner := .incoming
              keptRapidhash := existing.rapidhash
              overwrittenRapidhash := target.rapidhash
              keptRecvTsNs := e.recvTsNs
              overwrittenRecvTsNs := target.recvTsNs })
      else
        (rs₁.set e.oldPath { existing with deleted := true },
          some
            { path := e.newPath
              winner := .local
              keptRapidhash := target.rapidhash
              overwrittenRapidhash := existing.rapidhash
              keptRecvTsNs := target.recvTsNs
              overwrittenRecvTsNs := e.recvTsNs })

/-- `SiloIndex.apply_event`. -/
def applyEvent (rs : Records) : SyncEvent → Records × Option ConflictInfo
  | .write e => applyWrite rs e
  | .delete e => applyDelete rs e
  | .rename e => applyRename rs e

/-- The records after an event. -/
def apply (rs : Records) (e : SyncEvent) : Records := (applyEvent rs e).1

/-- The records after a list of events. -/
def applyAll (rs : Records) (es : List SyncEvent) : Records := es.foldl apply rs

@[simp] theorem applyAll_nil (rs : Records) : applyAll rs [] = rs := rfl

@[simp] theorem applyAll_cons (rs : Records) (e : SyncEvent) (es : List SyncEvent) :
    applyAll rs (e :: es) = applyAll (apply rs e) es := rfl

theorem applyAll_append (rs : Records) (es fs : List SyncEvent) :
    applyAll rs (es ++ fs) = applyAll (applyAll rs es) fs :=
  List.foldl_append

/-! ### What an event does to each path -/

/-- The paths an event names. -/
def SyncEvent.names : SyncEvent → List Str
  | .write e => [e.path]
  | .delete e => [e.path]
  | .rename e => [e.oldPath, e.newPath]

/-- One row under a write: the row before, the row after. -/
def writeRow (e : WriteEvent) (row : Option FileRecord) : Option FileRecord :=
  match row with
  | some r => if r.deleted = false ∧ e.recvTsNs ≤ r.recvTsNs then some r else some e.record
  | none => some e.record

/-- One row under a delete. -/
def deleteRow (ts : Int) (row : Option FileRecord) : Option FileRecord :=
  match row with
  | some r =>
    if r.deleted = false ∧ r.recvTsNs ≤ ts then some { r with deleted := true, recvTsNs := ts }
    else some r
  | none => none

/-- A write acts on its own row only. -/
theorem get?_apply_write (rs : Records) (e : WriteEvent) (p : Str) :
    (apply rs (.write e)).get? p =
      if p = e.path then writeRow e (rs.get? e.path) else rs.get? p := by
  -- the write took effect: its record is in the row of its path
  have hset : ∀ v : FileRecord, (rs.set e.path v).get? p =
      if p = e.path then some v else rs.get? p := by
    intro v
    by_cases hp : p = e.path
    · rw [hp, if_pos rfl, Dict.get?_set_self]
    · rw [if_neg hp, Dict.get?_set_of_ne _ _ hp]
  change (applyWrite rs e).1.get? p = _
  unfold applyWrite writeRow live?
  cases hg : rs.get? e.path with
  | none => exact hset _
  | some r =>
    by_cases hd : r.deleted = true
    · simp only [hd, if_true, Bool.true_eq_false, false_and, if_false]
      exact hset _
    · simp only [hd, if_false, Bool.false_eq_true, true_and]
      by_cases hgt : e.recvTsNs > r.recvTsNs
      · have hle : ¬ e.recvTsNs ≤ r.recvTsNs := by omega
        rw [if_pos hgt, if_neg hle]
        exact hset _
      · have hle : e.recvTsNs ≤ r.recvTsNs := by omega
        rw [if_neg hgt, if_pos hle]
        -- refused, with or without a conflict: the table is as it was
        have hrow : rs.get? p = if p = e.path then some r else rs.get? p := by
          by_cases hp : p = e.path
          · rw [if_pos hp, hp, hg]
          · rw [if_neg hp]
        split <;> exact hrow

/-- A delete acts on its own row only. -/
theorem get?_apply_delete (rs : Records) (e : DeleteEvent) (p : Str) :
    (apply rs (.delete e)).get? p =
      if p = e.path then deleteRow e.recvTsNs (rs.get? e.path) else rs.get? p := by
  -- a delete without effect leaves the table as it was
  have hsame : ∀ row, rs.get? e.path = row →
      rs.get? p = if p = e.path then row else rs.get? p := by
    intro row hrow
    by_cases hp : p = e.path
    · rw [if_pos hp, hp, hrow]
    · rw [if_neg hp]
  change (applyDelete rs e).1.get? p = _
  unfold applyDelete deleteRow live?
  cases hg : rs.get? e.path with
  | none => exact hsame _ hg
  | some r =>
    by_cases hd : r.deleted = true
    · simp only [hd, if_true, Bool.true_eq_false, false_and, if_false]
      exact hsame _ hg
    · simp only [hd, if_false, Bool.false_eq_true, true_and]
      by_cases hge : e.recvTsNs ≥ r.recvTsNs
      · rw [if_pos hge, if_pos hge]
        by_cases hp : p = e.path
        · rw [hp, if_pos rfl, Dict.get?_set_self]
        · rw [if_neg hp, Dict.get?_set_of_ne _ _ hp]
      · rw [if_neg hge, if_neg hge]
        exact hsame _ hg

/-- What a rename can do: nothing, when the source is not live; move the source record onto
the target under the event's timestamp; or, when the target is live and newer, leave the
target and turn the source into a tombstone. -/
theorem apply_rename_cases (rs : Records) (e : RenameEvent) :
    (live? rs e.oldPath = none ∧ apply rs (.rename e) = rs) ∨
    (∃ r, live? rs e.oldPath = some r ∧
      (∀ t, live? (rs.erase e.oldPath) e.newPath = some t → t.recvTsNs ≤ e.recvTsNs) ∧
      apply rs (.rename e) =
        (rs.erase e.oldPath).set e.newPath { r with recvTsNs := e.recvTsNs }) ∨
    (∃ r t, live? rs e.oldPath = some r ∧
      live? (rs.erase e.oldPath) e.newPath = some t ∧ e.recvTsNs < t.recvTsNs ∧
      apply rs (.rename e) =
        (rs.erase e.oldPath).set e.oldPath { r with deleted := true }) := by
  change (_ ∧ (applyRename rs e).1 = rs) ∨ (∃ r, _ ∧ _ ∧ (applyRename rs e).1 = _) ∨
    (∃ r t, _ ∧ _ ∧ _ ∧ (applyRename rs e).1 = _)
  unfold applyRename
  cases hs : live? rs e.oldPath with
  | none => exact Or.inl ⟨rfl, rfl⟩
  | some r =>
    -- the source is live: what matters is whether a live target is newer
    cases ht : live? (rs.erase e.oldPath) e.newPath with
    | none =>
      refine Or.inr (Or.inl ⟨r, rfl, ?_, ?_⟩)
      · intro t h
        exact absurd h (by simp)
      · simp only [ht]
    | some t =>
      simp only [ht]
      by_cases hge : e.recvTsNs ≥ t.recvTsNs
      · rw [if_pos hge]
        refine Or.inr (Or.inl ⟨r, rfl, ?_, rfl⟩)
        intro t' h
        rw [← Option.some.inj h]
        exact hge
      · rw [if_neg hge]
        exact Or.inr (Or.inr ⟨r, t, rfl, rfl, by omega, rfl⟩)

/-- **Frame rule.** An event leaves every path it does not name as it was. -/
theorem get?_apply_of_notMem (rs : Records) (e : SyncEvent) {p : Str} (hp : p ∉ e.names) :
    (apply rs e).get? p = rs.get? p := by
  cases e with
  | write e =>
    have hne : p ≠ e.path := by simpa [SyncEvent.names] using hp
    rw [get?_apply_write, if_neg hne]
  | delete e =>
    have hne : p ≠ e.path := by simpa [SyncEvent.names] using hp
    rw [get?_apply_delete, if_neg hne]
  | rename e =>
    obtain ⟨hold, hnew⟩ : p ≠ e.oldPath ∧ p ≠ e.newPath := by simpa [SyncEvent.names] using hp
    -- whatever the rename does, it does it to the two paths it names
    rcases apply_rename_cases rs e with ⟨-, h⟩ | ⟨r, -, -, h⟩ | ⟨r, t, -, -, -, h⟩
    · rw [h]
    · rw [h, Dict.get?_set_of_ne _ _ hnew, Dict.get?_erase_of_ne _ hold]
    · rw [h, Dict.get?_set_of_ne _ _ hold, Dict.get?_erase_of_ne _ hold]

/-- An event reads no path it does not name: two tables that agree on its paths agree on them
afterwards. -/
theorem get?_apply_congr {rs ss : Records} (e : SyncEvent)
    (h : ∀ p ∈ e.names, rs.get? p = ss.get? p) {p : Str} (hp : p ∈ e.names) :
    (apply rs e).get? p = (apply ss e).get? p := by
  cases e with
  | write e =>
    have heq : rs.get? e.path = ss.get? e.path := h _ (by simp [SyncEvent.names])
    obtain rfl : p = e.path := by simpa [SyncEvent.names] using hp
    rw [get?_apply_write, get?_apply_write, if_pos rfl, if_pos rfl, heq]
  | delete e =>
    have heq : rs.get? e.path = ss.get? e.path := h _ (by simp [SyncEvent.names])
    obtain rfl : p = e.path := by simpa [SyncEvent.names] using hp
    rw [get?_apply_delete, get?_apply_delete, if_pos rfl, if_pos rfl, heq]
  | rename e =>
    have hold : rs.get? e.oldPath = ss.get? e.oldPath := h _ (by simp [SyncEvent.names])
    have hpath := h p hp
    have hsrc : live? rs e.oldPath = live? ss e.oldPath := by unfold live?; rw [hold]
    -- the target is looked up without the source, in both tables
    have htgt : live? (rs.erase e.oldPath) e.newPath = live? (ss.erase e.oldPath) e.newPath := by
      have hnew : rs.get? e.newPath = ss.get? e.newPath := h _ (by simp [SyncEvent.names])
      unfold live?
      by_cases hn : e.newPath = e.oldPath
      · rw [hn, Dict.get?_erase_self, Dict.get?_erase_self]
      · rw [Dict.get?_erase_of_ne _ hn, Dict.get?_erase_of_ne _ hn, hnew]
    -- the two calls take the same branch and write the same values
    have herase : (rs.erase e.oldPath).get? p = (ss.erase e.oldPath).get? p := by
      by_cases ho : p = e.oldPath
      · rw [ho, Dict.get?_erase_self, Dict.get?_erase_self]
      · rw [Dict.get?_erase_of_ne _ ho, Dict.get?_erase_of_ne _ ho, hpath]
    have hset : ∀ (k : Str) (v : FileRecord),
        ((rs.erase e.oldPath).set k v).get? p = ((ss.erase e.oldPath).set k v).get? p := by
      intro k v
      by_cases hk : p = k
      · rw [hk, Dict.get?_set_self, Dict.get?_set_self]
      · rw [Dict.get?_set_of_ne _ _ hk, Dict.get?_set_of_ne _ _ hk, herase]
    change (applyRename rs e).1.get? p = (applyRename ss e).1.get? p
    unfold applyRename
    rw [hsrc]
    cases live? ss e.oldPath with
    | none => exact hpath
    | some r =>
      simp only [htgt]
      cases live? (ss.erase e.oldPath) e.newPath with
      | none => exact hset _ _
      | some t =>
        simp only
        split
        · exact hset _ _
        · exact hset _ _

end Chiralite
