import Chiralite.Sync.LiveView

/-!
# Conflicts of the index

What one call of `apply_event` does to the records that are there, and what it reports of it.

An event may bring a record to a path: a write its own, a rename that of its source under the
timestamp of the event (`brings`). Where a live record is at that path, the two are in conflict.
`applyWrite_cases` and `applyRename_cases` say everything a write and a rename can do, with the
report of each case; the results are read off them.

* `conflict_faithful`: there is a report exactly of a conflict, and it names both sides as they
  are.
* `redelivery_idempotent`: a second delivery of an event changes nothing.
* `protected_iff`: no event overwrites a record that is newer than itself, unless it is a rename
  whose source is. The source of a rename is moved away, or left behind as a tombstone, without a
  look at its timestamp.
* `writes_resolve_to_newest`: writes in any order leave, under each path, the first of the newest
  ones, and a write wins a conflict exactly if it is newer than all before it.
-/

namespace Chiralite

open Py

/-- The record that an event brings, and the path it brings it to. -/
def brings (rs : Records) : SyncEvent → Option (Str × FileRecord)
  | .write e => some (e.path, e.record)
  | .delete _ => none
  | .rename e =>
    (live? rs e.oldPath).map fun r => (e.newPath, { r with recvTsNs := e.recvTsNs })

theorem brings_rename {rs : Records} {e : RenameEvent} {r : FileRecord}
    (h : live? rs e.oldPath = some r) :
    brings rs (.rename e) = some (e.newPath, { r with recvTsNs := e.recvTsNs }) :=
  congrArg (Option.map _) h

/-! ### What a call can do -/

/-- **Everything a write can do**, with its report. -/
theorem applyWrite_cases (rs : Records) (e : WriteEvent) :
    (live? rs e.path = none ∧ applyWrite rs e = (rs.set e.path e.record, none)) ∨
    ∃ r, live? rs e.path = some r ∧
      ((r.recvTsNs < e.recvTsNs ∧ applyWrite rs e = (rs.set e.path e.record,
          some ⟨e.path, .incoming, e.rapidhash, r.rapidhash, e.recvTsNs, r.recvTsNs⟩)) ∨
        (e.recvTsNs < r.recvTsNs ∧ applyWrite rs e = (rs,
          some ⟨e.path, .local, r.rapidhash, e.rapidhash, r.recvTsNs, e.recvTsNs⟩)) ∨
        (e.recvTsNs = r.recvTsNs ∧ applyWrite rs e = (rs, none))) := by
  unfold applyWrite
  cases live? rs e.path with
  | none => exact Or.inl ⟨rfl, rfl⟩
  | some r =>
    refine Or.inr ⟨r, rfl, ?_⟩
    dsimp only
    -- the two comparisons of the source; of equal timestamps the record that is there stays
    by_cases hgt : e.recvTsNs > r.recvTsNs
    · rw [if_pos hgt]
      exact Or.inl ⟨hgt, rfl⟩
    · rw [if_neg hgt]
      by_cases hlt : e.recvTsNs < r.recvTsNs
      · rw [if_pos hlt]
        exact Or.inr (Or.inl ⟨hlt, rfl⟩)
      · rw [if_neg hlt]
        exact Or.inr (Or.inr ⟨by omega, rfl⟩)

/-- **Everything a rename can do**, with its report: nothing, when the source is not live; move
the source onto a path that is free; contend with a live target. -/
theorem applyRename_cases (rs : Records) (e : RenameEvent) :
    (live? rs e.oldPath = none ∧ applyRename rs e = (rs, none)) ∨
    ∃ r, live? rs e.oldPath = some r ∧
      (((e.newPath = e.oldPath ∨ live? rs e.newPath = none) ∧ applyRename rs e =
          ((rs.erase e.oldPath).set e.newPath { r with recvTsNs := e.recvTsNs }, none)) ∨
        ∃ t, e.newPath ≠ e.oldPath ∧ live? rs e.newPath = some t ∧
          ((t.recvTsNs ≤ e.recvTsNs ∧ applyRename rs e =
              ((rs.erase e.oldPath).set e.newPath { r with recvTsNs := e.recvTsNs },
                some ⟨e.newPath, .incoming, r.rapidhash, t.rapidhash, e.recvTsNs, t.recvTsNs⟩)) ∨
            (e.recvTsNs < t.recvTsNs ∧ applyRename rs e =
              ((rs.erase e.oldPath).set e.oldPath { r with deleted := true },
                some ⟨e.newPath, .local, t.rapidhash, r.rapidhash, t.recvTsNs,
                  e.recvTsNs⟩)))) := by
  unfold applyRename
  cases live? rs e.oldPath with
  | none => exact Or.inl ⟨rfl, rfl⟩
  | some r =>
    refine Or.inr ⟨r, rfl, ?_⟩
    -- the target is looked up without the source, so a rename onto itself finds none
    have htarget := live?_erase rs e.oldPath e.newPath
    dsimp only
    by_cases hself : e.newPath = e.oldPath
    · rw [if_pos hself] at htarget
      rw [htarget]
      exact Or.inl ⟨Or.inl hself, rfl⟩
    · rw [if_neg hself] at htarget
      rw [htarget]
      cases live? rs e.newPath with
      | none => exact Or.inl ⟨Or.inr rfl, rfl⟩
      | some t =>
        refine Or.inr ⟨t, hself, rfl, ?_⟩
        dsimp only
        -- here the incoming side wins a tie
        by_cases hge : e.recvTsNs ≥ t.recvTsNs
        · rw [if_pos hge]
          exact Or.inl ⟨hge, rfl⟩
        · rw [if_neg hge]
          exact Or.inr ⟨by omega, rfl⟩

theorem applyDelete_reports (rs : Records) (e : DeleteEvent) : (applyDelete rs e).2 = none := by
  unfold applyDelete
  split
  · rfl
  · split
    · rfl
    · rfl

/-! ### The reports -/

/-- The event meets a live record: a write with another timestamp than the record it finds, or a
rename of a live source onto another live path. -/
def Contested (rs : Records) : SyncEvent → Prop
  | .write e => ∃ r, live? rs e.path = some r ∧ r.recvTsNs ≠ e.recvTsNs
  | .delete _ => False
  | .rename e => e.newPath ≠ e.oldPath ∧ (∃ r, live? rs e.oldPath = some r) ∧
      ∃ t, live? rs e.newPath = some t

/-- A record has a hash and a timestamp. -/
def FileRecord.Has (r : FileRecord) (rapidhash recvTsNs : Int) : Prop :=
  r.rapidhash = rapidhash ∧ r.recvTsNs = recvTsNs

/-- **A faithful report** of a call: the kept side is the record that is now at the path, and is at
least as recent as the other; the incoming side has won exactly if that record is the one the event
brings; and the overwritten side is the record that was at the path, or the one the event
brings. -/
structure ConflictInfo.Faithful (rs : Records) (e : SyncEvent) (c : ConflictInfo) : Prop where
  kept : ∃ r, live? (apply rs e) c.path = some r ∧ r.Has c.keptRapidhash c.keptRecvTsNs
  recent : c.overwrittenRecvTsNs ≤ c.keptRecvTsNs
  winner : c.winner = .incoming ↔
    ∃ x, brings rs e = some (c.path, x) ∧ (apply rs e).get? c.path = some x
  replaced : c.winner = .incoming →
    ∃ r, live? rs c.path = some r ∧ r.Has c.overwrittenRapidhash c.overwrittenRecvTsNs
  refused : c.winner = .local →
    ∃ x, brings rs e = some (c.path, x) ∧ x.Has c.overwrittenRapidhash c.overwrittenRecvTsNs

/-- The incoming record replaces the one at its path. -/
theorem faithful_incoming {rs : Records} {e : SyncEvent} {q : Str} {x r : FileRecord}
    (hbrings : brings rs e = some (q, x)) (hx : x.deleted = false) (hr : live? rs q = some r)
    (hle : r.recvTsNs ≤ x.recvTsNs) (hget : (apply rs e).get? q = some x) :
    ConflictInfo.Faithful rs e
      ⟨q, .incoming, x.rapidhash, r.rapidhash, x.recvTsNs, r.recvTsNs⟩ where
  kept := ⟨x, live?_eq_some.mpr ⟨hget, hx⟩, rfl, rfl⟩
  recent := hle
  winner := iff_of_true rfl ⟨x, hbrings, hget⟩
  replaced _ := ⟨r, hr, rfl, rfl⟩
  refused h := nomatch h

/-- The record at the path stays, and is newer than the incoming one. -/
theorem faithful_local {rs : Records} {e : SyncEvent} {q : Str} {x r : FileRecord}
    (hbrings : brings rs e = some (q, x)) (hr : live? (apply rs e) q = some r)
    (hlt : x.recvTsNs < r.recvTsNs) :
    ConflictInfo.Faithful rs e
      ⟨q, .local, r.rapidhash, x.rapidhash, r.recvTsNs, x.recvTsNs⟩ where
  kept := ⟨r, hr, rfl, rfl⟩
  recent := Int.le_of_lt hlt
  winner := by
    refine iff_of_false nofun ?_
    rintro ⟨y, hy, hget⟩
    -- it would be the record that is there, which has another timestamp
    rw [hbrings] at hy
    cases hy
    rw [(live?_eq_some.mp hr).1] at hget
    cases hget
    exact Int.lt_irrefl _ hlt
  replaced h := nomatch h
  refused _ := ⟨x, hbrings, rfl, rfl⟩

/-- A write reports a conflict exactly if it is contested, and faithfully. -/
theorem write_reports (rs : Records) (e : WriteEvent) :
    ((applyWrite rs e).2 ≠ none ↔ Contested rs (.write e)) ∧
      ∀ c, (applyWrite rs e).2 = some c → c.Faithful rs (.write e) := by
  have happly : apply rs (.write e) = (applyWrite rs e).1 := rfl
  obtain ⟨hnone, hcall⟩ |
    ⟨r, hr, ⟨hlt, hcall⟩ | ⟨hlt, hcall⟩ | ⟨heq, hcall⟩⟩ := applyWrite_cases rs e
  · -- nothing live is at the path
    rw [hcall]
    refine ⟨iff_of_false (fun h => h rfl) ?_, nofun⟩
    rintro ⟨r, hr, -⟩
    rw [hnone] at hr
    cases hr
  · -- the write is newer and takes the place of the record
    rw [hcall]
    refine ⟨iff_of_true nofun ⟨r, hr, Int.ne_of_lt hlt⟩, ?_⟩
    rintro c ⟨rfl⟩
    refine faithful_incoming (x := e.record) rfl rfl hr (Int.le_of_lt hlt) ?_
    rw [happly, hcall]
    exact Dict.get?_set_self _ _ _
  · -- the write is older and is refused
    rw [hcall]
    refine ⟨iff_of_true nofun ⟨r, hr, Int.ne_of_gt hlt⟩, ?_⟩
    rintro c ⟨rfl⟩
    refine faithful_local (x := e.record) rfl ?_ hlt
    rw [happly, hcall]
    exact hr
  · -- a tie is refused without a report
    rw [hcall]
    refine ⟨iff_of_false (fun h => h rfl) ?_, nofun⟩
    rintro ⟨r', hr', hne⟩
    rw [hr] at hr'
    cases hr'
    exact hne heq.symm

/-- A rename reports a conflict exactly if it is contested, and faithfully. -/
theorem rename_reports (rs : Records) (e : RenameEvent) :
    ((applyRename rs e).2 ≠ none ↔ Contested rs (.rename e)) ∧
      ∀ c, (applyRename rs e).2 = some c → c.Faithful rs (.rename e) := by
  have happly : apply rs (.rename e) = (applyRename rs e).1 := rfl
  obtain ⟨hnone, hcall⟩ | ⟨r, hr, ⟨hfree, hcall⟩ |
    ⟨t, hne, ht, ⟨hle, hcall⟩ | ⟨hlt, hcall⟩⟩⟩ := applyRename_cases rs e
  · rw [hcall]
    refine ⟨iff_of_false (fun h => h rfl) ?_, nofun⟩
    rintro ⟨-, ⟨r, hr⟩, -⟩
    rw [hnone] at hr
    cases hr
  · -- the target is free, or is the source itself
    rw [hcall]
    refine ⟨iff_of_false (fun h => h rfl) ?_, nofun⟩
    rintro ⟨hne, -, t, ht⟩
    obtain hself | hnone := hfree
    · exact hne hself
    · rw [hnone] at ht
      cases ht
  · rw [hcall]
    refine ⟨iff_of_true nofun ⟨hne, ⟨r, hr⟩, t, ht⟩, ?_⟩
    rintro c ⟨rfl⟩
    refine faithful_incoming (brings_rename hr) (live?_eq_some.mp hr).2 ht hle ?_
    rw [happly, hcall]
    exact Dict.get?_set_self _ _ _
  · rw [hcall]
    refine ⟨iff_of_true nofun ⟨hne, ⟨r, hr⟩, t, ht⟩, ?_⟩
    rintro c ⟨rfl⟩
    refine faithful_local (brings_rename hr) ?_ hlt
    -- the tombstone is left at the source, not at the target
    rw [happly, hcall, live?_set, if_neg hne, live?_erase, if_neg hne]
    exact ht

/-- **Conflict reports are faithful.** A call reports a conflict exactly if the event is contested,
the report is faithful, and no path changes that the event does not name. -/
theorem conflict_faithful (rs : Records) (e : SyncEvent) :
    ((∃ c, (applyEvent rs e).2 = some c) ↔ Contested rs e) ∧
      (∀ c, (applyEvent rs e).2 = some c → c.Faithful rs e) ∧
      ∀ p ∉ e.names, (apply rs e).get? p = rs.get? p := by
  rw [← Option.ne_none_iff_exists', ← and_assoc]
  refine ⟨?_, fun p hp => get?_apply_of_notMem rs e hp⟩
  cases e with
  | write e => exact write_reports rs e
  | rename e => exact rename_reports rs e
  | delete e =>
    have hnone : (applyEvent rs (.delete e)).2 = none := applyDelete_reports rs e
    rw [hnone]
    exact ⟨iff_of_false (fun h => h rfl) id, nofun⟩

/-! ### A second delivery -/

/-- What a call leaves and reports of the event that it has just been given. -/
def Settled (rs : Records) (e : SyncEvent) : Prop :=
  (applyEvent rs e).1 = rs ∧ ∀ c, (applyEvent rs e).2 = some c → c.winner ≠ .incoming

/-- A write that finds a record at least as recent changes nothing. -/
theorem settled_write {rs : Records} {e : WriteEvent} {r : FileRecord}
    (hr : live? rs e.path = some r) (hle : e.recvTsNs ≤ r.recvTsNs) : Settled rs (.write e) := by
  show (applyWrite rs e).1 = rs ∧ ∀ c, (applyWrite rs e).2 = some c → _
  obtain ⟨hnone, -⟩ | ⟨r', hr', ⟨hlt, -⟩ | ⟨-, hcall⟩ | ⟨-, hcall⟩⟩ := applyWrite_cases rs e
  · rw [hr] at hnone
    cases hnone
  · rw [hr] at hr'
    cases hr'
    omega
  · rw [hcall]
    refine ⟨rfl, ?_⟩
    rintro c ⟨rfl⟩
    exact nofun
  · rw [hcall]
    exact ⟨rfl, nofun⟩

/-- A delete of a path that is not live changes nothing, and neither does a rename. -/
theorem settled_delete {rs : Records} {e : DeleteEvent} (h : live? rs e.path = none) :
    Settled rs (.delete e) := by
  show (applyDelete rs e).1 = rs ∧ ∀ c, (applyDelete rs e).2 = some c → _
  unfold applyDelete
  rw [h]
  exact ⟨rfl, nofun⟩

theorem settled_rename {rs : Records} {e : RenameEvent} (h : live? rs e.oldPath = none) :
    Settled rs (.rename e) := by
  show (applyRename rs e).1 = rs ∧ ∀ c, (applyRename rs e).2 = some c → _
  unfold applyRename
  rw [h]
  exact ⟨rfl, nofun⟩

theorem settled_apply_write (rs : Records) (e : WriteEvent) :
    Settled (apply rs (.write e)) (.write e) := by
  have happly : apply rs (.write e) = (applyWrite rs e).1 := rfl
  -- the write has taken effect
  have hset : Settled (rs.set e.path e.record) (.write e) := by
    refine settled_write (r := e.record) ?_ (Int.le_refl _)
    rw [live?_set, if_pos rfl]
    rfl
  obtain ⟨-, hcall⟩ |
    ⟨r, hr, ⟨-, hcall⟩ | ⟨hlt, hcall⟩ | ⟨heq, hcall⟩⟩ := applyWrite_cases rs e
  · rw [happly, hcall]
    exact hset
  · rw [happly, hcall]
    exact hset
  · rw [happly, hcall]
    exact settled_write hr (Int.le_of_lt hlt)
  · rw [happly, hcall]
    exact settled_write hr (Int.le_of_eq heq)

theorem settled_apply_delete (rs : Records) (e : DeleteEvent) :
    Settled (apply rs (.delete e)) (.delete e) := by
  cases hr : live? rs e.path with
  | none =>
    have hsame : apply rs (.delete e) = rs := (settled_delete hr).1
    rw [hsame]
    exact settled_delete hr
  | some r =>
    by_cases hge : e.recvTsNs ≥ r.recvTsNs
    · -- the path is a tombstone now
      have hcall : apply rs (.delete e) =
          rs.set e.path { r with deleted := true, recvTsNs := e.recvTsNs } := by
        show (applyDelete rs e).1 = _
        unfold applyDelete
        rw [hr]
        dsimp only
        rw [if_pos hge]
      rw [hcall]
      refine settled_delete ?_
      rw [live?_set, if_pos rfl]
      rfl
    · -- the delete is too old, and remains so
      have hcall : applyDelete rs e = (rs, none) := by
        unfold applyDelete
        rw [hr]
        dsimp only
        rw [if_neg hge]
      have hsame : apply rs (.delete e) = rs := congrArg Prod.fst hcall
      rw [hsame]
      show (applyDelete rs e).1 = rs ∧ ∀ c, (applyDelete rs e).2 = some c → _
      rw [hcall]
      exact ⟨rfl, nofun⟩

/-- A rename of a path onto itself sets its timestamp, and moves it to the end of the table. -/
theorem applyRename_self {rs : Records} {e : RenameEvent} {r : FileRecord}
    (hself : e.newPath = e.oldPath) (hr : live? rs e.oldPath = some r) :
    applyRename rs e =
      ((rs.erase e.oldPath).set e.oldPath { r with recvTsNs := e.recvTsNs }, none) := by
  obtain ⟨hnone, -⟩ | ⟨r', hr', ⟨-, hcall⟩ | ⟨t, hne, -⟩⟩ := applyRename_cases rs e
  · rw [hr] at hnone
    cases hnone
  · rw [hr] at hr'
    cases hr'
    rw [hcall, hself]
  · exact absurd hself hne

/-- After a rename onto another path, moved or refused, the source is not live. -/
theorem live?_source_of_rename (rs : Records) {e : RenameEvent} (hne : e.newPath ≠ e.oldPath) :
    live? (apply rs (.rename e)) e.oldPath = none := by
  have happly : apply rs (.rename e) = (applyRename rs e).1 := rfl
  obtain ⟨hnone, hcall⟩ | ⟨r, -, ⟨-, hcall⟩ |
    ⟨t, -, -, ⟨-, hcall⟩ | ⟨-, hcall⟩⟩⟩ := applyRename_cases rs e
  · rw [happly, hcall]
    exact hnone
  · rw [happly, hcall, live?_set, if_neg (Ne.symm hne), live?_erase, if_pos rfl]
  · rw [happly, hcall, live?_set, if_neg (Ne.symm hne), live?_erase, if_pos rfl]
  · rw [happly, hcall, live?_set, if_pos rfl]
    rfl

theorem settled_apply_rename (rs : Records) (e : RenameEvent) :
    Settled (apply rs (.rename e)) (.rename e) := by
  have happly : apply rs (.rename e) = (applyRename rs e).1 := rfl
  cases hr : live? rs e.oldPath with
  | none =>
    have hsame : apply rs (.rename e) = rs := (settled_rename hr).1
    rw [hsame]
    exact settled_rename hr
  | some r =>
    by_cases hself : e.newPath = e.oldPath
    · -- the second rename sets the timestamp that is already there
      rw [happly, applyRename_self hself hr]
      have hlive : live? ((rs.erase e.oldPath).set e.oldPath { r with recvTsNs := e.recvTsNs })
          e.oldPath = some { r with recvTsNs := e.recvTsNs } := by
        rw [live?_set, if_pos rfl]
        exact if_neg (by simp [(live?_eq_some.mp hr).2])
      show (applyRename _ e).1 = _ ∧ ∀ c, (applyRename _ e).2 = some c → _
      rw [applyRename_self hself hlive, Dict.erase_set_self, Dict.erase_erase_self]
      exact ⟨rfl, nofun⟩
    · exact settled_rename (live?_source_of_rename rs hself)

/-- **Redelivery is idempotent.** An event that is applied twice in a row leaves the records that
it leaves when it is applied once, and its second application reports no conflict that the event
wins. -/
theorem redelivery_idempotent (rs : Records) (e : SyncEvent) :
    apply (apply rs e) e = apply rs e ∧
      ∀ c, (applyEvent (apply rs e) e).2 = some c → c.winner ≠ .incoming := by
  cases e with
  | write e => exact settled_apply_write rs e
  | delete e => exact settled_apply_delete rs e
  | rename e => exact settled_apply_rename rs e

/-! ### Events older than a record -/

/-- **Live records are protected from older events**: a live record stays what it is unless the
event is at least as recent, and its path is not given an older one. -/
def Protected (rs : Records) (e : SyncEvent) : Prop :=
  ∀ p r, live? rs p = some r →
    (live? (apply rs e) p = some r ∨ r.recvTsNs ≤ e.recvTsNs) ∧
      ∀ r', live? (apply rs e) p = some r' → r.recvTsNs ≤ r'.recvTsNs

/-- A path that an event leaves alone, or whose record is not newer than the event and is followed
by one with the timestamp of the event or by none. -/
theorem protected_of_cases {rs : Records} {e : SyncEvent}
    (h : ∀ p r, live? rs p = some r → live? (apply rs e) p = some r ∨
      (r.recvTsNs ≤ e.recvTsNs ∧
        ∀ r', live? (apply rs e) p = some r' → r'.recvTsNs = e.recvTsNs)) :
    Protected rs e := by
  intro p r hr
  obtain hsame | ⟨hle, hnew⟩ := h p r hr
  · refine ⟨Or.inl hsame, fun r' hr' => ?_⟩
    rw [hsame] at hr'
    cases hr'
    exact Int.le_refl _
  · refine ⟨Or.inr hle, fun r' hr' => ?_⟩
    rw [hnew r' hr']
    exact hle

theorem protected_write (rs : Records) (e : WriteEvent) : Protected rs (.write e) := by
  have happly : apply rs (.write e) = (applyWrite rs e).1 := rfl
  refine protected_of_cases fun p r hr => ?_
  obtain ⟨hnone, hcall⟩ |
    ⟨s, hs, ⟨hlt, hcall⟩ | ⟨-, hcall⟩ | ⟨-, hcall⟩⟩ := applyWrite_cases rs e
  · -- the path of the write was not live
    have hp : p ≠ e.path := by
      rintro rfl
      rw [hnone] at hr
      cases hr
    rw [happly, hcall, live?_set, if_neg hp]
    exact Or.inl hr
  · rw [happly, hcall, live?_set]
    by_cases hp : p = e.path
    · subst hp
      rw [hs] at hr
      cases hr
      rw [if_pos rfl]
      refine Or.inr ⟨Int.le_of_lt hlt, ?_⟩
      rintro r' ⟨rfl⟩
      rfl
    · rw [if_neg hp]
      exact Or.inl hr
  · rw [happly, hcall]
    exact Or.inl hr
  · rw [happly, hcall]
    exact Or.inl hr

theorem protected_delete (rs : Records) (e : DeleteEvent) : Protected rs (.delete e) := by
  refine protected_of_cases fun p r hr => ?_
  obtain ⟨hget, hlive⟩ := live?_eq_some.mp hr
  have hrow := get?_apply_delete rs e p
  by_cases hp : p = e.path
  · subst hp
    rw [if_pos rfl, hget, deleteRow] at hrow
    by_cases hle : r.recvTsNs ≤ e.recvTsNs
    · rw [if_pos ⟨hlive, hle⟩] at hrow
      refine Or.inr ⟨hle, fun r' hr' => ?_⟩
      rw [← live_iff, hrow] at hr'
      exact absurd hr' (not_live_tombstone rfl)
    · rw [if_neg fun h => hle h.2] at hrow
      exact Or.inl (live?_eq_some.mpr ⟨hrow, hlive⟩)
  · rw [if_neg hp, hget] at hrow
    exact Or.inl (live?_eq_some.mpr ⟨hrow, hlive⟩)

/-- A rename protects the records of both paths if its source is not newer than itself. -/
theorem protected_rename {rs : Records} {e : RenameEvent}
    (hsource : ∀ r, live? rs e.oldPath = some r → r.recvTsNs ≤ e.recvTsNs) :
    Protected rs (.rename e) := by
  have happly : apply rs (.rename e) = (applyRename rs e).1 := rfl
  refine protected_of_cases fun p r hr => ?_
  -- a path that the rename does not name
  by_cases hnamed : p = e.oldPath ∨ p = e.newPath
  swap
  · have hsame : (apply rs (.rename e)).get? p = rs.get? p :=
      get?_apply_of_notMem rs _ (by simpa [SyncEvent.names] using hnamed)
    rw [live?_congr hsame]
    exact Or.inl hr
  -- the source has been moved to the target, over a record that is not newer
  have hmoved : ∀ s : FileRecord, live? rs e.oldPath = some s →
      (p ≠ e.oldPath → r.recvTsNs ≤ e.recvTsNs) →
      apply rs (.rename e) = (rs.erase e.oldPath).set e.newPath { s with recvTsNs := e.recvTsNs } →
      r.recvTsNs ≤ e.recvTsNs ∧
        ∀ r', live? (apply rs (.rename e)) p = some r' → r'.recvTsNs = e.recvTsNs := by
    intro s hs htarget hcall
    constructor
    · by_cases hp : p = e.oldPath
      · subst hp
        exact hsource r hr
      · exact htarget hp
    · intro r' hr'
      rw [hcall, live?_set] at hr'
      by_cases hp : p = e.newPath
      · rw [if_pos hp, if_neg (by simp [(live?_eq_some.mp hs).2])] at hr'
        cases hr'
        rfl
      · rw [if_neg hp, live?_erase, if_pos (hnamed.resolve_right hp)] at hr'
        cases hr'
  obtain ⟨-, hcall⟩ | ⟨s, hs, ⟨hfree, hcall⟩ |
    ⟨t, hne, ht, ⟨hle, hcall⟩ | ⟨-, hcall⟩⟩⟩ := applyRename_cases rs e
  · rw [happly, hcall]
    exact Or.inl hr
  · -- the target is free
    refine Or.inr (hmoved s hs ?_ (happly.trans (congrArg Prod.fst hcall)))
    intro hp
    obtain rfl : p = e.newPath := hnamed.resolve_left hp
    obtain hself | hnone := hfree
    · exact absurd hself hp
    · rw [hnone] at hr
      cases hr
  · -- the target gives way
    refine Or.inr (hmoved s hs ?_ (happly.trans (congrArg Prod.fst hcall)))
    intro hp
    obtain rfl : p = e.newPath := hnamed.resolve_left hp
    rw [ht] at hr
    cases hr
    exact hle
  · -- the target stays, and the source becomes a tombstone
    rw [happly, hcall, live?_set, live?_erase]
    by_cases hp : p = e.oldPath
    · subst hp
      refine Or.inr ⟨hsource r hr, fun r' hr' => ?_⟩
      rw [if_pos rfl] at hr'
      cases hr'
    · rw [if_neg hp, if_neg hp]
      exact Or.inl hr

/-- A rename takes a newer source away from its path, or gives it an older timestamp. -/
theorem not_protected_rename {rs : Records} {e : RenameEvent} {r : FileRecord}
    (hr : live? rs e.oldPath = some r) (hlt : e.recvTsNs < r.recvTsNs) :
    ¬ Protected rs (.rename e) := by
  intro h
  have happly : apply rs (.rename e) = (applyRename rs e).1 := rfl
  obtain hsame | hle := (h e.oldPath r hr).1
  swap
  · exact absurd hle (Int.not_le.mpr hlt)
  by_cases hself : e.newPath = e.oldPath
  · -- the record is there, with the older timestamp
    rw [happly, applyRename_self hself hr, live?_set, if_pos rfl,
      if_neg (by simp [(live?_eq_some.mp hr).2])] at hsame
    have hts := congrArg FileRecord.recvTsNs (Option.some.inj hsame)
    exact absurd hts (Int.ne_of_lt hlt)
  · rw [live?_source_of_rename rs hself] at hsame
    cases hsame

/-- **Which events protect newer records**: all but the renames whose source is newer than the
rename. -/
theorem protected_iff (rs : Records) (e : SyncEvent) :
    Protected rs e ↔
      ∀ m r, e = .rename m → live? rs m.oldPath = some r → r.recvTsNs ≤ m.recvTsNs := by
  cases e with
  | write e => exact iff_of_true (protected_write rs e) nofun
  | delete e => exact iff_of_true (protected_delete rs e) nofun
  | rename e =>
    constructor
    · rintro h m r ⟨rfl⟩ hr
      by_contra hle
      exact not_protected_rename hr (Int.not_le.mp hle) h
    · intro h
      exact protected_rename fun r hr => h e r rfl hr

/-- A table with one file, written at 10. -/
def writtenAtTen : Records :=
  Dict.empty.set (lit "a") ⟨1, 3, 0, 0, 10, 420, lit "u", lit "g", false⟩

/-- A rename from before that moves the file away, and one onto itself gives it an older
timestamp. -/
theorem stale_rename_not_protected :
    ¬ Protected writtenAtTen (.rename ⟨lit "a", lit "b", 5⟩) ∧
      live? (apply writtenAtTen (.rename ⟨lit "a", lit "b", 5⟩)) (lit "a") = none ∧
      (live? (apply writtenAtTen (.rename ⟨lit "a", lit "a", 5⟩)) (lit "a")).map
        FileRecord.recvTsNs = some 5 := by
  have hlive : live? writtenAtTen (lit "a") =
      some ⟨1, 3, 0, 0, 10, 420, lit "u", lit "g", false⟩ := by decide
  exact ⟨not_protected_rename (e := ⟨lit "a", lit "b", 5⟩) hlive (by decide), by decide, by decide⟩

/-! ### Writes in any order -/

/-- The table after some writes. -/
def written (ws : List WriteEvent) : Records := applyAll Dict.empty (ws.map .write)

/-- The first of the newest writes of a path. -/
def FirstNewest (ws : List WriteEvent) (p : Str) (w : WriteEvent) : Prop :=
  ∃ before after, ws = before ++ w :: after ∧ w.path = p ∧
    (∀ v ∈ before, v.path = p → v.recvTsNs < w.recvTsNs) ∧
    ∀ v ∈ after, v.path = p → v.recvTsNs ≤ w.recvTsNs

/-- The write is newer than the writes of its path before it, of which there are some. -/
def RaisesMaximum (before : List WriteEvent) (w : WriteEvent) : Prop :=
  (∃ v ∈ before, v.path = w.path) ∧ ∀ v ∈ before, v.path = w.path → v.recvTsNs < w.recvTsNs

theorem written_concat (ws : List WriteEvent) (w : WriteEvent) :
    written (ws ++ [w]) = apply (written ws) (.write w) := by
  unfold written
  rw [List.map_append, applyAll_append]
  rfl

section FirstNewest

variable {ws : List WriteEvent} {p : Str} {w : WriteEvent}

theorem FirstNewest.mem (h : FirstNewest ws p w) : w ∈ ws := by
  obtain ⟨before, after, rfl, -⟩ := h
  exact List.mem_append_right _ List.mem_cons_self

theorem FirstNewest.path_eq (h : FirstNewest ws p w) : w.path = p := by
  obtain ⟨before, after, -, hp, -⟩ := h
  exact hp

theorem FirstNewest.newest (h : FirstNewest ws p w) {v : WriteEvent} (hv : v ∈ ws)
    (hp : v.path = p) : v.recvTsNs ≤ w.recvTsNs := by
  obtain ⟨before, after, rfl, -, hbefore, hafter⟩ := h
  obtain hv | hv := List.mem_append.mp hv
  · exact Int.le_of_lt (hbefore v hv hp)
  · obtain rfl | hv := List.mem_cons.mp hv
    · exact Int.le_refl _
    · exact hafter v hv hp

/-- A write that is not newer, or of another path, comes too late. -/
theorem FirstNewest.concat (h : FirstNewest ws p w) {x : WriteEvent}
    (hx : x.path = p → x.recvTsNs ≤ w.recvTsNs) : FirstNewest (ws ++ [x]) p w := by
  obtain ⟨before, after, rfl, hp, hbefore, hafter⟩ := h
  refine ⟨before, after ++ [x], by simp, hp, hbefore, fun v hv hvp => ?_⟩
  obtain hv | hv := List.mem_append.mp hv
  · exact hafter v hv hvp
  · rw [List.mem_singleton.mp hv] at hvp ⊢
    exact hx hvp

/-- A write that is newer than all the others of its path. -/
theorem firstNewest_concat (hw : ∀ v ∈ ws, v.path = w.path → v.recvTsNs < w.recvTsNs) :
    FirstNewest (ws ++ [w]) w.path w :=
  ⟨ws, [], rfl, rfl, hw, nofun⟩

end FirstNewest

/-- **Run lemma.** A path has no row and no write, or the row is that of the first of its newest
writes. -/
theorem get?_written (ws : List WriteEvent) (p : Str) :
    ((written ws).get? p = none ∧ ∀ w ∈ ws, w.path ≠ p) ∨
      ∃ w, (written ws).get? p = some w.record ∧ FirstNewest ws p w := by
  -- by the last write, which meets the row that the others have left
  induction ws using List.reverseRecOn with
  | nil => exact Or.inl ⟨rfl, nofun⟩
  | append_singleton ws x ih =>
    rw [written_concat, get?_apply_write]
    by_cases hp : p = x.path
    swap
    · rw [if_neg hp]
      obtain ⟨hnone, hall⟩ | ⟨w, hw, hfirst⟩ := ih
      · refine Or.inl ⟨hnone, fun v hv => ?_⟩
        obtain hv | hv := List.mem_append.mp hv
        · exact hall v hv
        · rw [List.mem_singleton.mp hv]
          exact Ne.symm hp
      · exact Or.inr ⟨w, hw, hfirst.concat fun hx => absurd hx.symm hp⟩
    · subst hp
      rw [if_pos rfl]
      obtain ⟨hnone, hall⟩ | ⟨w, hw, hfirst⟩ := ih
      · rw [hnone]
        exact Or.inr ⟨x, rfl, firstNewest_concat fun v hv hvp => absurd hvp (hall v hv)⟩
      · -- a tie goes to the row that is there
        rw [hw]
        by_cases hle : x.recvTsNs ≤ w.recvTsNs
        · exact Or.inr ⟨w, if_pos ⟨rfl, hle⟩, hfirst.concat fun _ => hle⟩
        · refine Or.inr ⟨x, if_neg fun h => hle h.2, firstNewest_concat fun v hv hvp => ?_⟩
          calc v.recvTsNs ≤ w.recvTsNs := hfirst.newest hv hvp
            _ < x.recvTsNs := Int.not_le.mp hle

/-- A write is reported as the winner of a conflict exactly if it raises the maximum of its
path. -/
theorem incoming_iff_raisesMaximum (before : List WriteEvent) (w : WriteEvent) :
    (∃ c, (applyWrite (written before) w).2 = some c ∧ c.winner = .incoming) ↔
      RaisesMaximum before w := by
  obtain ⟨hnone, hall⟩ | ⟨v, hv, hfirst⟩ := get?_written before w.path
  · -- nothing has been written there
    have hdead : live? (written before) w.path = none := by
      unfold live?
      rw [hnone]
    refine iff_of_false ?_ ?_
    · rintro ⟨c, hc, -⟩
      obtain ⟨-, hcall⟩ | ⟨r, hr, -⟩ := applyWrite_cases (written before) w
      · rw [hcall] at hc
        cases hc
      · rw [hdead] at hr
        cases hr
    · rintro ⟨⟨u, hu, hup⟩, -⟩
      exact hall u hu hup
  · -- the row is that of the newest write before, so it is the maximum that is to be raised
    have hlive : live? (written before) w.path = some v.record := live?_eq_some.mpr ⟨hv, rfl⟩
    have hraises : RaisesMaximum before w ↔ v.recvTsNs < w.recvTsNs := by
      constructor
      · intro h
        exact h.2 v hfirst.mem hfirst.path_eq
      · intro hlt
        refine ⟨⟨v, hfirst.mem, hfirst.path_eq⟩, fun u hu hup => ?_⟩
        calc u.recvTsNs ≤ v.recvTsNs := hfirst.newest hu hup
          _ < w.recvTsNs := hlt
    rw [hraises]
    obtain ⟨hdead, -⟩ |
      ⟨r, hr, ⟨hlt, hcall⟩ | ⟨hlt, hcall⟩ | ⟨heq, hcall⟩⟩ := applyWrite_cases (written before) w
    · rw [hlive] at hdead
      cases hdead
    all_goals
      rw [hlive] at hr
      cases hr
      rw [hcall]
    · exact iff_of_true ⟨_, rfl, rfl⟩ hlt
    · refine iff_of_false ?_ (Int.lt_asymm hlt)
      rintro ⟨c, ⟨rfl⟩, hc⟩
      cases hc
    · refine iff_of_false ?_ ?_
      · rintro ⟨c, hc, -⟩
        cases hc
      · exact Int.not_lt.mpr (Int.le_of_eq heq)

/-- The report of a write names its path. -/
theorem path_of_write_report {rs : Records} {e : WriteEvent} {c : ConflictInfo}
    (h : (applyWrite rs e).2 = some c) : c.path = e.path := by
  obtain ⟨-, hcall⟩ |
    ⟨r, -, ⟨-, hcall⟩ | ⟨-, hcall⟩ | ⟨-, hcall⟩⟩ := applyWrite_cases rs e
  all_goals
    rw [hcall] at h
    cases h
  · rfl
  · rfl

/-- **Writes resolve to the newest.** Of a list of writes in any order, applied to an empty index:
a path has a record exactly if a write names it; the record is live and is that of the newest write
of the path, the first of them in the list; and a write wins a conflict exactly if it raises the
maximum of its path. -/
theorem writes_resolve_to_newest (ws : List WriteEvent) :
    (∀ p, (∃ r, (written ws).get? p = some r) ↔ ∃ w ∈ ws, w.path = p) ∧
      (∀ p r, (written ws).get? p = some r →
        r.deleted = false ∧ ∃ w, FirstNewest ws p w ∧ r = w.record) ∧
      ∀ p before w after, ws = before ++ w :: after →
        ((∃ c, (applyEvent (written before) (.write w)).2 = some c ∧ c.winner = .incoming ∧
          c.path = p) ↔ w.path = p ∧ RaisesMaximum before w) := by
  refine ⟨fun p => ?_, fun p r hr => ?_, fun p before w after _ => ?_⟩
  -- a path that no write names has no record, any other has that of its first newest write
  · obtain ⟨hnone, hall⟩ | ⟨w, hw, hfirst⟩ := get?_written ws p
    · refine iff_of_false ?_ ?_
      · rintro ⟨r, hr⟩
        rw [hnone] at hr
        cases hr
      · rintro ⟨w, hw, hp⟩
        exact hall w hw hp
    · exact iff_of_true ⟨_, hw⟩ ⟨w, hfirst.mem, hfirst.path_eq⟩
  · obtain ⟨hnone, -⟩ | ⟨w, hw, hfirst⟩ := get?_written ws p
    · rw [hnone] at hr
      cases hr
    · rw [hw] at hr
      cases hr
      exact ⟨rfl, w, hfirst, rfl⟩
  · rw [← incoming_iff_raisesMaximum before w]
    constructor
    · rintro ⟨c, hc, hwinner, rfl⟩
      exact ⟨(path_of_write_report hc).symm, c, hc, hwinner⟩
    · rintro ⟨rfl, c, hc, hwinner⟩
      exact ⟨c, hc, hwinner, path_of_write_report hc⟩

end Chiralite
