import Chiralite.Sync.JournalRun
import Chiralite.Sync.Rows

/-!
# A crash inside `checkpoint`

Between the rename of `checkpoint.json` and the truncation of `journal.ndjson` the directory
holds the new table next to the events that built it. Reopening replays these events over
their own result. The last-writer-wins rules do not make that harmless: a moved record is not
at its source any more, so a replayed write brings the source back and a replayed rename moves
whatever stands there now.

`Log.Safe` is the condition on an event under which the replay stays harmless: it changes no
row, or it keeps clear of the paths that journalled renames name and finds its own path in a
state that the journal can rebuild. A log all of whose events were safe replays over its index
to the same rows (`Log.Replayable`). The step lemma `replayable_append` splits the paths: off
the names of the new event the replay does what it did before (`agreeOff_applyAll`), on them
the rows of the two runs are compared by the relations of `Chiralite.Sync.Rows`.
-/

namespace Chiralite

open Py Json Run

/-! ### Tables that agree off a set of paths -/

/-- The two tables have the same row at every path outside `ps`. -/
def AgreeOff (ps : List Str) (rs ss : Records) : Prop := ∀ p, p ∉ ps → rs.get? p = ss.get? p

theorem agreeOff_apply {ps : List Str} {rs ss : Records} (h : AgreeOff ps rs ss) {e : SyncEvent}
    (he : ∀ f, e = .rename f → ∀ p ∈ e.names, p ∉ ps) : AgreeOff ps (apply rs e) (apply ss e) := by
  intro p hp
  -- the rows an event touches are those of its names; the others stay as they are
  by_cases hmem : p ∈ e.names
  · refine get?_apply_congr e ?_ hmem
    intro q hq
    refine h q ?_
    cases e with
    | write e =>
      rw [List.mem_singleton.mp hq, ← List.mem_singleton.mp hmem]
      exact hp
    | delete e =>
      rw [List.mem_singleton.mp hq, ← List.mem_singleton.mp hmem]
      exact hp
    | rename e => exact he e rfl q hq
  · rw [get?_apply_of_notMem rs e hmem, get?_apply_of_notMem ss e hmem]
    exact h p hp

/-- **Replaying keeps a difference where it is**, as long as no rename carries it elsewhere. -/
theorem agreeOff_applyAll {ps : List Str} {rs ss : Records} (h : AgreeOff ps rs ss)
    {es : List SyncEvent} (hes : ∀ p ∈ ps, Unmoved es p) :
    AgreeOff ps (applyAll rs es) (applyAll ss es) := by
  induction es generalizing rs ss with
  | nil => exact h
  | cons e es ih =>
    refine ih (agreeOff_apply h ?_) fun p hp => (hes p hp).tail
    rintro f rfl p hp hmem
    exact hes p hmem f List.mem_cons_self hp

/-! ### The condition on an event -/

namespace Log

/-- Replaying the journal over the index leaves every row as it is. -/
def Replayable (l : Log) : Prop := ∀ p, (applyAll l.index l.events).get? p = l.index.get? p

/-- A journalled write of the path took effect. -/
def WrittenSince (l : Log) (p : Str) : Prop :=
  ∃ es₁ w es₂, l.events = es₁ ++ .write w :: es₂ ∧ w.path = p ∧
    Accepts w ((applyAll l.base es₁).get? p)

/-- The rename finds a live target that is newer. -/
def Refuses (l : Log) (e : RenameEvent) : Prop :=
  ∃ t, live? (l.index.erase e.oldPath) e.newPath = some t ∧ e.recvTsNs < t.recvTsNs

/-- What the journal must say about the paths of an event that changes the index. -/
def Rebuilds (l : Log) : SyncEvent → Prop
  | .write _ => True
  | .delete e => Unwritten l.events e.path ∨ l.WrittenSince e.path
  | .rename e =>
    l.WrittenSince e.oldPath ∨
      ((e.oldPath ≠ e.newPath → Unwritten l.events e.oldPath) ∧
        (l.Refuses e ∨ Quiet l.events e.newPath e.recvTsNs))

/-- The event changes no row; or no journalled rename names one of its paths, and the journal
can rebuild the rows it changes. -/
def Safe (l : Log) (e : SyncEvent) : Prop :=
  (∀ p, (apply l.index e).get? p = l.index.get? p) ∨
    ((∀ p ∈ e.names, Unmoved l.events p) ∧ l.Rebuilds e)

/-- The condition on an operation: appends through an open handle append safe events. -/
def SafeOp (l : Log) : JournalOp → Prop
  | .append e => l.handle = some true → l.Safe e
  | _ => True

end Log

/-! ### The rows of the new event -/

section Step

variable {l : Log}

/-- The row of an unmoved path is the fold of the journal over its row in the base. -/
theorem index_row {p : Str} (h : Unmoved l.events p) :
    l.index.get? p = rowAll p (l.base.get? p) l.events := get?_applyAll_of_unmoved h _

/-- A write of the path that took effect gives every run that is behind the same row. -/
theorem rowAll_of_writtenSince {p : Str} (hp : Unmoved l.events p) (hw : l.WrittenSince p)
    {row : Option FileRecord} (hrow : Behind (l.base.get? p) row) :
    rowAll p row l.events = l.index.get? p := by
  obtain ⟨es₁, w, es₂, hes, hpath, hacc⟩ := hw
  have hp₁ : Unmoved es₁ p := fun f hf => hp f (by rw [hes]; exact List.mem_append_left _ hf)
  rw [get?_applyAll_of_unmoved hp₁] at hacc
  rw [index_row hp, hes]
  exact (rowAll_eq_of_accepts hrow hpath hacc).symm

/-- A write: replaying it over its own record, or over whatever the journal makes of that
record, ends in the record again. -/
theorem replay_write {e : WriteEvent} (hp : Unmoved l.events e.path)
    (hacc : Accepts e (l.index.get? e.path)) :
    writeRow e (rowAll e.path (some e.record) l.events) = some e.record := by
  have htracks : Tracks e.record (l.base.get? e.path) (some e.record) := Or.inl rfl
  rcases htracks.rowAll e.path l.events with heq | hbehind
  · rw [heq]
    exact if_pos ⟨rfl, Int.le_refl _⟩
  · rw [← index_row hp] at hbehind
    exact writeRow_of_accepts (hbehind.accepts hacc)

/-- A delete: the journal leaves its tombstone alone, or rebuilds the record it deleted. -/
theorem replay_delete {e : DeleteEvent} {r : FileRecord} (hp : Unmoved l.events e.path)
    (hr : Live (l.index.get? e.path) r) (hle : r.recvTsNs ≤ e.recvTsNs)
    (hreb : l.Rebuilds (.delete e)) :
    deleteRow e.recvTsNs
      (rowAll e.path (some { r with deleted := true, recvTsNs := e.recvTsNs }) l.events) =
      some { r with deleted := true, recvTsNs := e.recvTsNs } := by
  have hdead : ∀ s, ¬ Live (some { r with deleted := true, recvTsNs := e.recvTsNs }) s :=
    fun s => not_live_tombstone rfl
  rcases hreb with hun | hwr
  · rw [rowAll_of_unwritten hun hdead, deleteRow_of_not_live hdead]
  · rw [rowAll_of_writtenSince hp hwr (behind_of_not_live hdead), hr.1]
    exact if_pos ⟨hr.2, hle⟩

/-! ### The rows of a rename -/

theorem rename_of_not_live {rs : Records} {e : RenameEvent} (h : live? rs e.oldPath = none) :
    apply rs (.rename e) = rs := by
  rcases apply_rename_cases rs e with ⟨-, heq⟩ | ⟨r, hr, -⟩ | ⟨r, t, hr, -⟩
  · exact heq
  · rw [h] at hr; exact absurd hr (by simp)
  · rw [h] at hr; exact absurd hr (by simp)

theorem rename_of_moves {rs : Records} {e : RenameEvent} {r : FileRecord}
    (hr : live? rs e.oldPath = some r)
    (ht : ∀ t, live? (rs.erase e.oldPath) e.newPath = some t → t.recvTsNs ≤ e.recvTsNs) :
    apply rs (.rename e) =
      (rs.erase e.oldPath).set e.newPath { r with recvTsNs := e.recvTsNs } := by
  rcases apply_rename_cases rs e with ⟨hnone, -⟩ | ⟨s, hs, -, heq⟩ | ⟨s, t, -, ht', hlt, -⟩
  · rw [hnone] at hr; exact absurd hr (by simp)
  · rw [hr] at hs
    rw [heq, Option.some.inj hs]
  · have hle := ht t ht'
    omega

theorem rename_of_refused {rs : Records} {e : RenameEvent} {r t : FileRecord}
    (hr : live? rs e.oldPath = some r) (ht : live? (rs.erase e.oldPath) e.newPath = some t)
    (hlt : e.recvTsNs < t.recvTsNs) :
    apply rs (.rename e) = (rs.erase e.oldPath).set e.oldPath { r with deleted := true } := by
  rcases apply_rename_cases rs e with ⟨hnone, -⟩ | ⟨s, -, hle, -⟩ | ⟨s, t', hs, -, -, heq⟩
  · rw [hnone] at hr; exact absurd hr (by simp)
  · have hle' := hle t ht
    omega
  · rw [hr] at hs
    rw [heq, Option.some.inj hs]

/-- A refused rename: the source is a tombstone again, and the newer target stays. -/
theorem replay_rename_refused (hrep : l.Replayable) {e : RenameEvent} {r t : FileRecord}
    (ho : Unmoved l.events e.oldPath) (hn : Unmoved l.events e.newPath)
    (hr : live? l.index e.oldPath = some r)
    (ht : live? (l.index.erase e.oldPath) e.newPath = some t) (hlt : e.recvTsNs < t.recvTsNs)
    (hreb : Unwritten l.events e.oldPath ∨ l.WrittenSince e.oldPath) {p : Str}
    (hp : p = e.oldPath ∨ p = e.newPath) :
    (apply (applyAll (apply l.index (.rename e)) l.events) (.rename e)).get? p =
      (apply l.index (.rename e)).get? p := by
  have hne : e.newPath ≠ e.oldPath := by
    intro h
    rw [live?_erase, if_pos h] at ht
    exact absurd ht (by simp)
  have hS := rename_of_refused hr ht hlt
  generalize hX : applyAll (apply l.index (.rename e)) l.events = X
  have hSo : (apply l.index (.rename e)).get? e.oldPath = some { r with deleted := true } := by
    rw [hS, Dict.get?_set_self]
  have hSn : (apply l.index (.rename e)).get? e.newPath = l.index.get? e.newPath := by
    rw [hS, Dict.get?_set_of_ne _ _ hne, Dict.get?_erase_of_ne _ hne]
  -- the target's row is replayed as it was
  have hXn : X.get? e.newPath = l.index.get? e.newPath := by
    rw [← hX, get?_applyAll_of_unmoved hn, hSn, ← get?_applyAll_of_unmoved hn]
    exact hrep _
  have hdead : ∀ s, ¬ Live (some { r with deleted := true }) s := fun s => not_live_tombstone rfl
  rcases hreb with hun | hwr
  · have hXo : X.get? e.oldPath = some { r with deleted := true } := by
      rw [← hX, get?_applyAll_of_unmoved ho, hSo, rowAll_of_unwritten hun hdead]
    have hnone : live? X e.oldPath = none := by
      unfold live?
      rw [hXo]
      rfl
    rw [rename_of_not_live hnone]
    rcases hp with rfl | rfl
    · rw [hXo, hSo]
    · rw [hXn, hSn]
  · have hXo : X.get? e.oldPath = l.index.get? e.oldPath := by
      rw [← hX, get?_applyAll_of_unmoved ho, hSo,
        rowAll_of_writtenSince ho hwr (behind_of_not_live hdead)]
    have hXr : live? X e.oldPath = some r := by
      rw [← live_iff, hXo]
      exact live_iff.mpr hr
    have hXt : live? (X.erase e.oldPath) e.newPath = some t := by
      rw [live?_erase, if_neg hne] at ht ⊢
      rw [← live_iff, hXn]
      exact live_iff.mpr ht
    rw [rename_of_refused hXr hXt hlt]
    rcases hp with rfl | rfl
    · rw [Dict.get?_set_self, hSo]
    · rw [Dict.get?_set_of_ne _ _ hne, Dict.get?_erase_of_ne _ hne, hXn, hSn]

/-- A rename that moved its source to another path. -/
theorem replay_rename_moved {e : RenameEvent} {r : FileRecord} (hne : e.newPath ≠ e.oldPath)
    (ho : Unmoved l.events e.oldPath) (hn : Unmoved l.events e.newPath)
    (hr : live? l.index e.oldPath = some r)
    (ht : ∀ t, live? (l.index.erase e.oldPath) e.newPath = some t → t.recvTsNs ≤ e.recvTsNs)
    (hreb : l.WrittenSince e.oldPath ∨
      Unwritten l.events e.oldPath ∧ Quiet l.events e.newPath e.recvTsNs) {p : Str}
    (hp : p = e.oldPath ∨ p = e.newPath) :
    (apply (applyAll (apply l.index (.rename e)) l.events) (.rename e)).get? p =
      (apply l.index (.rename e)).get? p := by
  -- the rows of source and target after the rename, before the replay
  have hS := rename_of_moves hr ht
  have hlive : r.deleted = false := (live_iff.mpr hr).2
  generalize hX : applyAll (apply l.index (.rename e)) l.events = X
  have hSo : (apply l.index (.rename e)).get? e.oldPath = none := by
    rw [hS, Dict.get?_set_of_ne _ _ hne.symm, Dict.get?_erase_self]
  have hSn : (apply l.index (.rename e)).get? e.newPath =
      some { r with recvTsNs := e.recvTsNs } := by
    rw [hS, Dict.get?_set_self]
  have hdead : ∀ s : FileRecord, ¬ Live none s := fun s h => absurd h.1 (by simp)
  rcases hreb with hwr | ⟨hun, hquiet⟩
  · -- the journal writes the source back, and the rename moves it once more
    have hXo : X.get? e.oldPath = l.index.get? e.oldPath := by
      rw [← hX, get?_applyAll_of_unmoved ho, hSo,
        rowAll_of_writtenSince ho hwr (behind_of_not_live hdead)]
    have hXr : live? X e.oldPath = some r := by
      rw [← live_iff, hXo]
      exact live_iff.mpr hr
    -- the replay holds the moved record at the target, or something no newer than before
    have htracks : Tracks { r with recvTsNs := e.recvTsNs } (l.index.get? e.newPath)
        (X.get? e.newPath) := by
      have hstart : Tracks { r with recvTsNs := e.recvTsNs } (l.base.get? e.newPath)
          (some { r with recvTsNs := e.recvTsNs }) := Or.inl rfl
      rw [index_row hn, ← hX, get?_applyAll_of_unmoved hn, hSn]
      exact hstart.rowAll _ _
    -- so nothing newer than the rename stands in its way
    have hXt : ∀ t, live? (X.erase e.oldPath) e.newPath = some t → t.recvTsNs ≤ e.recvTsNs := by
      intro t hlt
      rw [live?_erase, if_neg hne, ← live_iff] at hlt
      rcases htracks with heq | hbehind
      · rw [heq] at hlt
        rw [← Option.some.inj hlt.1]
      · obtain ⟨s, hs, hle⟩ := hbehind t hlt
        have hle' := ht s (by rw [live?_erase, if_neg hne, ← live_iff]; exact hs)
        omega
    rw [rename_of_moves hXr hXt]
    rcases hp with rfl | rfl
    · rw [Dict.get?_set_of_ne _ _ hne.symm, Dict.get?_erase_self, hSo]
    · rw [Dict.get?_set_self, hSn]
  · -- the source stays away, and nothing touches the moved record
    have hXo : X.get? e.oldPath = none := by
      rw [← hX, get?_applyAll_of_unmoved ho, hSo, rowAll_of_unwritten hun hdead]
    have hXn : X.get? e.newPath = some { r with recvTsNs := e.recvTsNs } := by
      rw [← hX, get?_applyAll_of_unmoved hn, hSn]
      exact rowAll_of_quiet hquiet hlive
    have hnone : live? X e.oldPath = none := by
      unfold live?
      rw [hXo]
    rw [rename_of_not_live hnone]
    rcases hp with rfl | rfl
    · rw [hXo, hSo]
    · rw [hXn, hSn]

/-- A rename of a live path onto itself stamps its record. -/
theorem rename_self_row {rs : Records} {e : RenameEvent} {r : FileRecord}
    (heq : e.newPath = e.oldPath) (hr : live? rs e.oldPath = some r) :
    (apply rs (.rename e)).get? e.oldPath = some { r with recvTsNs := e.recvTsNs } := by
  have ht : ∀ t, live? (rs.erase e.oldPath) e.newPath = some t → t.recvTsNs ≤ e.recvTsNs := by
    intro t h
    rw [live?_erase, if_pos heq] at h
    exact absurd h (by simp)
  rw [rename_of_moves hr ht, heq, Dict.get?_set_self]

/-- A rename of a path onto itself. -/
theorem replay_rename_self {e : RenameEvent} {r : FileRecord} (heq : e.newPath = e.oldPath)
    (ho : Unmoved l.events e.oldPath) (hr : live? l.index e.oldPath = some r)
    (hreb : l.WrittenSince e.oldPath ∨ Quiet l.events e.oldPath e.recvTsNs) :
    (apply (applyAll (apply l.index (.rename e)) l.events) (.rename e)).get? e.oldPath =
      (apply l.index (.rename e)).get? e.oldPath := by
  have hlive : Live (l.index.get? e.oldPath) r := live_iff.mpr hr
  have hSo := rename_self_row heq hr
  generalize hX : applyAll (apply l.index (.rename e)) l.events = X
  -- the replay finds the record with its old stamp or with the new one
  have hXo : X.get? e.oldPath = some r ∨
      X.get? e.oldPath = some { r with recvTsNs := e.recvTsNs } := by
    rw [← hX, get?_applyAll_of_unmoved ho, hSo]
    rcases hreb with ⟨es₁, w, es₂, hes, hpath, hacc⟩ | hquiet
    · have hp₁ : Unmoved es₁ e.oldPath := fun f hf =>
        ho f (by rw [hes]; exact List.mem_append_left _ hf)
      have hstart : Tracks { r with recvTsNs := e.recvTsNs } (l.base.get? e.oldPath)
          (some { r with recvTsNs := e.recvTsNs }) := Or.inl rfl
      rw [get?_applyAll_of_unmoved hp₁] at hacc
      -- after the accepted write both runs hold the written record
      have hleads := ((hstart.rowAll e.oldPath es₁).leads hacc).rowAll e.oldPath es₂
      have hrow : ∀ row, rowAll e.oldPath row l.events =
          rowAll e.oldPath (writeRow w (rowAll e.oldPath row es₁)) es₂ := by
        intro row
        rw [hes, rowAll_append, rowAll_cons]
        exact congrArg (fun x => rowAll e.oldPath x es₂) (if_pos hpath.symm)
      rw [← hrow, ← hrow, ← index_row ho, hlive.1] at hleads
      rcases hleads with hsame | ⟨hx, -⟩ | ⟨hdead, -⟩
      · exact Or.inl hsame.symm
      · exact Or.inr hx
      · exact absurd ⟨rfl, hlive.2⟩ (hdead r)
    · exact Or.inr (rowAll_of_quiet hquiet hlive.2)
  rw [hSo]
  -- either way the rename stamps it again
  rcases hXo with hXo | hXo
  · exact rename_self_row heq (live_iff.mp ⟨hXo, hlive.2⟩)
  · exact rename_self_row (r := { r with recvTsNs := e.recvTsNs }) heq
      (live_iff.mp ⟨hXo, hlive.2⟩)

/-! ### One more event -/

/-- The rows that a safe event changes are rebuilt by the replay. -/
theorem replay_names (hrep : l.Replayable) {e : SyncEvent}
    (hchange : ¬ ∀ p, (apply l.index e).get? p = l.index.get? p)
    (hun : ∀ p ∈ e.names, Unmoved l.events p) (hreb : l.Rebuilds e) {p : Str}
    (hp : p ∈ e.names) :
    (apply (applyAll (apply l.index e) l.events) e).get? p = (apply l.index e).get? p := by
  cases e with
  | write e =>
    obtain rfl : p = e.path := List.mem_singleton.mp hp
    -- a write that changes something was accepted, and is accepted again
    have hacc : Accepts e (l.index.get? e.path) := by
      by_contra hnot
      obtain ⟨r, -, -, heq⟩ := writeRow_of_not_accepts hnot
      refine hchange fun q => ?_
      rw [get?_apply_write, heq]
      split
      · next hq => rw [hq]
      · rfl
    have hrow : (apply l.index (.write e)).get? e.path = some e.record := by
      rw [get?_apply_write, if_pos rfl, writeRow_of_accepts hacc]
    rw [get?_apply_write, if_pos rfl, get?_applyAll_of_unmoved (hun _ hp), hrow]
    exact replay_write (hun _ hp) hacc
  | delete e =>
    obtain rfl : p = e.path := List.mem_singleton.mp hp
    rcases deleteRow_cases e.recvTsNs (l.index.get? e.path) with ⟨r, hr, hle, heq⟩ | ⟨-, heq⟩
    · have hrow : (apply l.index (.delete e)).get? e.path =
          some { r with deleted := true, recvTsNs := e.recvTsNs } := by
        rw [get?_apply_delete, if_pos rfl, heq]
      rw [get?_apply_delete, if_pos rfl, get?_applyAll_of_unmoved (hun _ hp), hrow]
      exact replay_delete (hun _ hp) hr hle hreb
    -- a delete that had no effect changes nothing
    · refine absurd (fun q => ?_) hchange
      rw [get?_apply_delete, heq]
      split
      · next hq => rw [hq]
      · rfl
  | rename e =>
    have ho : Unmoved l.events e.oldPath := hun _ (by simp [SyncEvent.names])
    have hn : Unmoved l.events e.newPath := hun _ (by simp [SyncEvent.names])
    have hp' : p = e.oldPath ∨ p = e.newPath := by simpa [SyncEvent.names] using hp
    -- the rename did nothing, moved its source, or was refused by a newer target
    rcases apply_rename_cases l.index e with ⟨-, heq⟩ | ⟨r, hr, ht, -⟩ | ⟨r, t, hr, ht, hlt, -⟩
    · exact absurd (fun q => by rw [heq]) hchange
    · have hrefuses : ¬ l.Refuses e := by
        rintro ⟨t, hlive, hlt⟩
        have hle := ht t hlive
        omega
      by_cases heq : e.newPath = e.oldPath
      · obtain rfl : p = e.oldPath := hp'.elim id fun h => h.trans heq
        refine replay_rename_self heq ho hr (hreb.imp_right fun h => ?_)
        have hquiet := h.2.resolve_left hrefuses
        rwa [heq] at hquiet
      · refine replay_rename_moved heq ho hn hr ht (hreb.imp_right fun h => ?_) hp'
        exact ⟨h.1 (Ne.symm heq), h.2.resolve_left hrefuses⟩
    · have hne : e.oldPath ≠ e.newPath := by
        intro h
        rw [live?_erase, if_pos h.symm] at ht
        exact absurd ht (by simp)
      exact replay_rename_refused hrep ho hn hr ht hlt
        (hreb.elim Or.inr fun h => Or.inl (h.1 hne)) hp'

/-- **Step lemma.** A safe event keeps the log replayable. -/
theorem replayable_append (hrep : l.Replayable) {e : SyncEvent} (hsafe : l.Safe e) :
    Log.Replayable { l with events := l.events ++ [e] } := by
  have hindex : Log.index { l with events := l.events ++ [e] } = apply l.index e :=
    applyAll_append _ _ _
  have hreplay : ∀ rs, applyAll rs (l.events ++ [e]) = apply (applyAll rs l.events) e :=
    fun rs => applyAll_append _ _ _
  intro p
  rw [hindex]
  change (applyAll (apply l.index e) (l.events ++ [e])).get? p = _
  rw [hreplay]
  by_cases hchange : ∀ p, (apply l.index e).get? p = l.index.get? p
  · -- no row changed: the replay meets the rows it met before
    have hsame : AgreeOff [] (apply l.index e) l.index := fun q _ => hchange q
    have hfold : AgreeOff [] (applyAll (apply l.index e) l.events) l.index := by
      intro q hq
      rw [agreeOff_applyAll hsame (fun _ h => absurd h (by simp)) q hq]
      exact hrep q
    exact agreeOff_apply hfold (fun _ _ _ _ => by simp) p (by simp)
  · obtain ⟨hun, hreb⟩ := hsafe.resolve_left hchange
    by_cases hp : p ∈ e.names
    · exact replay_names hrep hchange hun hreb hp
    · -- off the names of the event: what the replay did before
      have hoff : AgreeOff e.names (apply l.index e) l.index := fun q hq =>
        get?_apply_of_notMem l.index e hq
      rw [get?_apply_of_notMem _ _ hp, agreeOff_applyAll hoff hun p hp, hrep p]
      exact (get?_apply_of_notMem l.index e hp).symm

/-- Every operation that meets its condition keeps the log replayable. -/
theorem replayable_step (hrep : l.Replayable) {op : JournalOp} (hsafe : l.SafeOp op) :
    (l.step op).Replayable := by
  cases op with
  | init siloId nodeId => exact hrep
  | append e =>
    by_cases hl : l.handle = some true
    · have hstep : l.step (.append e) = { l with events := l.events ++ [e] } := if_pos hl
      rw [hstep]
      exact replayable_append hrep (hsafe hl)
    · have hstep : l.step (.append e) = l := if_neg hl
      rw [hstep]
      exact hrep
  | checkpoint =>
    by_cases hl : l.handle.isSome = true
    -- the journal is empty after a checkpoint, and replaying it changes nothing
    · have hstep : l.step .checkpoint = ⟨l.index, [], some true⟩ := if_pos hl
      rw [hstep]
      exact fun p => rfl
    · have hstep : l.step .checkpoint = l := if_neg hl
      rw [hstep]
      exact hrep
  | close => exact hrep

end Step

/-! ### The crash -/

/-- Reopening after the crash gives the rows the object held. -/
def CheckpointCrashRecovers (s : Owner) (j : EventJournal) : Prop :=
  ∀ siloId nodeId, ∃ j' d',
    EventJournal.init (j.checkpointRenamed s.disk) siloId nodeId = .ok (j', d') ∧
      ∀ p, j'.index.records.get? p = j.index.records.get? p

/-- The crashed directory loads to the replay of the journal over the index. -/
theorem load_checkpointRenamed {s : Owner} {l : Log} (h : Refines s l) {j : EventJournal}
    (hj : s.journal = some j) :
    load (j.checkpointRenamed s.disk) = .ok (applyAll l.index l.events) := by
  have hrep : Represents (j.checkpointRenamed s.disk) { l with base := l.index } :=
    ⟨h.disk.scalar_index, h.disk.scalar_events, Or.inr ⟨j.index, rfl, h.records j hj⟩,
      h.disk.journal⟩
  exact load_of_represents hrep

/-- Recovery at a state is replayability of its log. -/
theorem recovers_iff_replayable {s : Owner} {l : Log} (h : Refines s l) {j : EventJournal}
    (hj : s.journal = some j) : CheckpointCrashRecovers s j ↔ l.Replayable := by
  -- the crashed directory opens, with the replay of the journal as its rows
  have hinit : ∀ siloId nodeId, ∃ d', EventJournal.init (j.checkpointRenamed s.disk) siloId nodeId =
      .ok (⟨⟨siloId, nodeId, applyAll l.index l.events⟩, true⟩, d') := by
    intro siloId nodeId
    unfold EventJournal.init
    rw [load_checkpointRenamed h hj]
    exact ⟨_, rfl⟩
  constructor
  · intro hrec p
    obtain ⟨j', d', hopen, hrows⟩ := hrec 0 []
    obtain ⟨d'', hd⟩ := hinit 0 []
    rw [hd] at hopen
    obtain ⟨rfl, -⟩ := Prod.mk.inj (Except.ok.inj hopen)
    rw [← h.records j hj]
    have hrow := hrows p
    rw [h.records j hj] at hrow ⊢
    exact hrow
  · intro hrep siloId nodeId
    obtain ⟨d', hd⟩ := hinit siloId nodeId
    refine ⟨_, d', hd, ?_⟩
    intro p
    rw [h.records j hj]
    exact hrep p

/-- **Crash inside `checkpoint`.** In every run whose appends are all safe, in every state the
run passes through, a crash between the rename and the truncation loses and adds nothing. -/
theorem checkpoint_crash_recovers {ops : List JournalOp} (hops : ∀ op ∈ ops, op.Scalar)
    (hsafe : Guarded Log.step Log.SafeOp Log.start ops) {pre : List JournalOp}
    (hpre : pre <+: ops) {j : EventJournal}
    (hj : (run Owner.step Owner.start pre).journal = some j) :
    CheckpointCrashRecovers (run Owner.step Owner.start pre) j := by
  obtain ⟨post, rfl⟩ := hpre
  have href := Refines.run fun op hop => hops op (List.mem_append_left post hop)
  have hstart : Log.start.Replayable := fun p => rfl
  have hstep : ∀ (l : Log) (op : JournalOp), l.Replayable → l.SafeOp op → (l.step op).Replayable :=
    fun l op h hop => replayable_step h hop
  -- replayability is the invariant; the run up to the crash is a run of safe operations
  have hrep := run_invariant hstep hstart (guarded_append.mp hsafe).1
  exact (recovers_iff_replayable href hj).mpr hrep

/-- A write of the closed statements below. -/
def sampleWrite (path : Str) (rapidhash recvTsNs : Int) : SyncEvent :=
  .write ⟨path, rapidhash, 1, 0, 0, recvTsNs, 420, lit "u", lit "g"⟩

theorem scalar_sampleWrite {path : Str} (hp : Scalar path) (rapidhash recvTsNs : Int) :
    (sampleWrite path rapidhash recvTsNs).Scalar :=
  ⟨hp, show Scalar (lit "u") by decide, show Scalar (lit "g") by decide⟩

/-- A write, a checkpoint, and a rename of the checkpointed record. -/
def checkpointedRename : List JournalOp :=
  [.init 0 [], .append (sampleWrite (lit "a") 1 5), .checkpoint,
    .append (.rename ⟨lit "a", lit "b", 7⟩)]

theorem checkpoint_crash_recovers_rename :
    ∃ j, (run Owner.step Owner.start checkpointedRename).journal = some j ∧
      CheckpointCrashRecovers (run Owner.step Owner.start checkpointedRename) j := by
  have ha : Scalar (lit "a") := by decide
  have hb : Scalar (lit "b") := by decide
  have hops : ∀ op ∈ checkpointedRename, op.Scalar := by
    simp only [checkpointedRename, List.forall_mem_cons]
    exact ⟨trivial, scalar_sampleWrite ha 1 5, trivial, ⟨ha, hb⟩, fun _ h => absurd h (by simp)⟩
  have hnone : ∀ {P : Prop} {e : SyncEvent}, e ∈ ([] : List SyncEvent) → P :=
    fun h => absurd h (by simp)
  have hsafe : Guarded Log.step Log.SafeOp Log.start checkpointedRename := by
    refine ⟨trivial, fun _ => Or.inr ⟨fun p _ f hf => hnone hf, trivial⟩, trivial,
      fun _ => Or.inr ⟨fun p _ f hf => hnone hf, Or.inr ⟨fun _ f hf => hnone hf, Or.inr ?_⟩⟩,
      trivial⟩
    exact ⟨fun f hf => hnone hf, fun f hf => hnone hf⟩
  have href := Refines.run hops
  cases hj : (run Owner.step Owner.start checkpointedRename).journal with
  | none =>
    have hhandle := href.handle
    rw [hj] at hhandle
    exact absurd hhandle (by simp [run, checkpointedRename, Log.step, Log.start])
  | some j => exact ⟨j, rfl, checkpoint_crash_recovers hops hsafe (List.prefix_refl _) hj⟩

/-- A write, a rename of what was written, and a new file under the old name. -/
def reusedSource : List JournalOp :=
  [.init 0 [], .append (sampleWrite (lit "a") 1 1), .append (.rename ⟨lit "a", lit "b", 2⟩),
    .append (sampleWrite (lit "a") 2 3)]

/-- The replayed rename moves the new file over the old one. -/
theorem not_checkpoint_crash_recovers :
    ¬ ∀ (ops : List JournalOp) (j : EventJournal), (∀ op ∈ ops, op.Scalar) →
      (run Owner.step Owner.start ops).journal = some j →
      CheckpointCrashRecovers (run Owner.step Owner.start ops) j := by
  intro hall
  have ha : Scalar (lit "a") := by decide
  have hb : Scalar (lit "b") := by decide
  have hops : ∀ op ∈ reusedSource, op.Scalar := by
    simp only [reusedSource, List.forall_mem_cons]
    exact ⟨trivial, scalar_sampleWrite ha 1 1, ⟨ha, hb⟩, scalar_sampleWrite ha 2 3,
      fun _ h => absurd h (by simp)⟩
  have href := Refines.run hops
  cases hj : (run Owner.step Owner.start reusedSource).journal with
  | none =>
    have hhandle := href.handle
    rw [hj] at hhandle
    exact absurd hhandle (by simp [run, reusedSource, Log.step, Log.start])
  | some j =>
    -- the replay puts the second file at `b`, where the first one was
    have hrep := (recovers_iff_replayable href hj).mp (hall _ j hops hj) (lit "b")
    exact absurd hrep (by decide)

end Chiralite
