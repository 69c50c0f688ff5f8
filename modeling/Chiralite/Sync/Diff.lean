import Chiralite.Sync.Reconcile

/-!
# What a diff lists

`SiloIndex.diff` as a specification: the entries of a diff are the changes of the live paths
against the remote mapping (`Change`), each once and in the order of the records
(`Exact`). An entry is built with the constraints of `FileEntry`, so that a diff against a mapping
with a hash that is none raises; otherwise the second round, after the remote has taken the hashes
over, has nothing to send (`diff_exact`).

A remote that is the snapshot of a server's index offers the hashes of its tombstones as bases too.
`_read_base` looks for a base among the live records only, so that such a base is there exactly if
some live record has the same hash (`bases_available_iff`).
-/

namespace Chiralite

open Py Posix Effect

/-! ### The entries -/

/-- The live records satisfy the constraints of an entry. -/
def Sendable (rs : Records) : Prop :=
  ∀ p r, live? rs p = some r → (toFileEntry p r true none).Valid

/-- **The change of a live path**, as the entry to send: the whole file where the remote has no
entry, a delta against the remote's hash where that is another one. -/
inductive Change (remote : Dict Str FileEntrySnapshot) (p : Str) (r : FileRecord) :
    FileEntry → Prop where
  | missing (absent : remote.get? p = none) : Change remote p r (toFileEntry p r true none)
  | changed {s : FileEntrySnapshot} (present : remote.get? p = some s)
      (differs : s.rapidhash ≠ r.rapidhash) :
      Change remote p r (toFileEntry p r false (some s.rapidhash))

/-- **The entries are the changes**, each once and in the order of the records, and are valid. -/
structure Exact (rs : Records) (remote : Dict Str FileEntrySnapshot) (entries : List FileEntry) :
    Prop where
  mem_iff : ∀ e, e ∈ entries ↔ ∃ p r, live? rs p = some r ∧ Change remote p r e
  order : (entries.map FileEntry.path).Sublist (rs.items.map Prod.fst)
  once : (entries.map FileEntry.path).Nodup
  valid : ∀ e ∈ entries, e.Valid

/-- Some live path has another hash at the remote, which is no hash. -/
def BadBase (rs : Records) (remote : Dict Str FileEntrySnapshot) : Prop :=
  ∃ p r s, live? rs p = some r ∧ remote.get? p = some s ∧ s.rapidhash ≠ r.rapidhash ∧
    ¬ RapidHashInt s.rapidhash

/-- The remote has taken over the hashes of the entries, and nothing else. -/
structure TookOver (remote : Dict Str FileEntrySnapshot) (entries : List FileEntry)
    (remote' : Dict Str FileEntrySnapshot) : Prop where
  sent : ∀ e ∈ entries, ∃ s, remote'.get? e.path = some s ∧ s.rapidhash = e.rapidhash
  others : ∀ p, (∀ e ∈ entries, e.path ≠ p) → remote'.get? p = remote.get? p

/-- `to_snapshot`, as a remote mapping. -/
def snapshots (rs : Records) : Dict Str FileEntrySnapshot :=
  Dict.ofList (rs.items.map fun kv => (kv.1, kv.2.snapshot))

section Entries

variable {rs : Records} {remote : Dict Str FileEntrySnapshot} {p : Str} {r : FileRecord}
  {e : FileEntry}

theorem get?_snapshots (rs : Records) (p : Str) :
    (snapshots rs).get? p = (rs.get? p).map FileRecord.snapshot :=
  Dict.get?_ofList_map _ _ _

theorem diffEntry_eq_some_iff (hlive : r.deleted = false) :
    diffEntry remote p r = some e ↔ Change remote p r e := by
  unfold diffEntry
  rw [if_neg (by simp [hlive])]
  constructor
  · intro h
    split at h
    · next habsent =>
      cases h
      exact .missing habsent
    · next s hs =>
      split at h
      · next hne =>
        cases h
        exact .changed hs hne
      · cases h
  · rintro (habsent | ⟨hs, hne⟩)
    · rw [habsent]
    · rw [hs]
      exact if_pos hne

theorem Change.path_eq (h : Change remote p r e) : e.path = p := by
  cases h with
  | missing => rfl
  | changed => rfl

theorem Change.rapidhash_eq (h : Change remote p r e) : e.rapidhash = r.rapidhash := by
  cases h with
  | missing => rfl
  | changed => rfl

/-- The entries that `diff` comes to, valid or not. -/
def changes (rs : Records) (remote : Dict Str FileEntrySnapshot) : List FileEntry :=
  rs.items.filterMap fun kv => diffEntry remote kv.1 kv.2

theorem diff_eq_ok_iff {entries : List FileEntry} :
    diff rs remote = .ok entries ↔
      (∀ e ∈ changes rs remote, e.Valid) ∧ entries = changes rs remote := by
  have hdiff : diff rs remote = if ∀ e ∈ changes rs remote, e.Valid then .ok (changes rs remote)
      else .error (.other (lit "validation error")) := rfl
  rw [hdiff]
  by_cases hvalid : ∀ e ∈ changes rs remote, e.Valid
  · rw [if_pos hvalid, and_iff_right hvalid]
    exact ⟨fun h => (Except.ok.inj h).symm, fun h => h ▸ rfl⟩
  · rw [if_neg hvalid]
    exact iff_of_false nofun fun h => hvalid h.1

theorem mem_changes_iff :
    e ∈ changes rs remote ↔ ∃ p r, live? rs p = some r ∧ Change remote p r e := by
  unfold changes
  rw [List.mem_filterMap]
  constructor
  · rintro ⟨⟨p, r⟩, hmem, he⟩
    -- a record that is deleted has no entry
    have hlive : r.deleted = false := by
      by_contra hdeleted
      dsimp only at he
      rw [diffEntry, if_pos (by simpa using hdeleted)] at he
      cases he
    exact ⟨p, r, live?_eq_some.mpr ⟨(Dict.mem_items_iff rs).mp hmem, hlive⟩,
      (diffEntry_eq_some_iff hlive).mp he⟩
  · rintro ⟨p, r, hr, hchange⟩
    obtain ⟨hget, hlive⟩ := live?_eq_some.mp hr
    exact ⟨(p, r), (Dict.mem_items_iff rs).mpr hget, (diffEntry_eq_some_iff hlive).mpr hchange⟩

/-- The paths of the entries come in the order of the records. -/
theorem paths_changes (rs : Records) (remote : Dict Str FileEntrySnapshot) :
    ((changes rs remote).map FileEntry.path).Sublist (rs.items.map Prod.fst) := by
  unfold changes
  -- one record after the other: it has an entry, under its own path, or none
  induction rs.items with
  | nil => exact List.Sublist.refl _
  | cons kv items ih =>
    rw [List.filterMap_cons]
    cases he : diffEntry remote kv.1 kv.2 with
    | none => exact ih.cons kv.1
    | some e =>
      rw [List.map_cons, List.map_cons, (diffEntry_eq_some he).1]
      exact ih.cons_cons kv.1

/-- An entry is valid exactly if its base is a hash. -/
theorem Change.valid_iff (h : Change remote p r e) (hvalid : (toFileEntry p r true none).Valid) :
    e.Valid ↔ ∀ s, remote.get? p = some s → s.rapidhash ≠ r.rapidhash →
      RapidHashInt s.rapidhash := by
  cases h with
  | missing habsent =>
    refine iff_of_true hvalid fun s hs => ?_
    rw [habsent] at hs
    cases hs
  | @changed s hs hne =>
    constructor
    · intro he s' hs' _
      rw [hs] at hs'
      cases hs'
      exact he.deltaBase s.rapidhash rfl
    · -- only the base is new; the other fields are those of the whole file
      intro hbase
      exact
        { hvalid with
          deltaBase := by
            rintro hash ⟨rfl⟩
            exact hbase s hs hne
          deltaConsistency := rfl }

/-- The entries are valid exactly if no live path has a bad base. -/
theorem valid_changes_iff (hrs : Sendable rs) :
    (∀ e ∈ changes rs remote, e.Valid) ↔ ¬ BadBase rs remote := by
  constructor
  · -- the path with the bad base has an entry, which would be valid
    rintro hvalid ⟨p, r, s, hr, hs, hne, hbad⟩
    have hchange : Change remote p r (toFileEntry p r false (some s.rapidhash)) := .changed hs hne
    have he := hvalid _ (mem_changes_iff.mpr ⟨p, r, hr, hchange⟩)
    exact hbad ((hchange.valid_iff (hrs p r hr)).mp he s hs hne)
  · intro hgood e he
    obtain ⟨p, r, hr, hchange⟩ := mem_changes_iff.mp he
    refine (hchange.valid_iff (hrs p r hr)).mpr fun s hs hne => ?_
    by_contra hbad
    exact hgood ⟨p, r, s, hr, hs, hne, hbad⟩

theorem exact_changes (hvalid : ∀ e ∈ changes rs remote, e.Valid) :
    Exact rs remote (changes rs remote) where
  mem_iff _ := mem_changes_iff
  order := paths_changes rs remote
  once := rs.nodup.sublist (paths_changes rs remote)
  valid := hvalid

/-- A remote that has the hash of every live path needs nothing. -/
theorem diff_eq_nil (h : ∀ p r, live? rs p = some r →
    ∃ s, remote.get? p = some s ∧ s.rapidhash = r.rapidhash) : diff rs remote = .ok [] := by
  have hnone : changes rs remote = [] := by
    refine List.eq_nil_iff_forall_not_mem.mpr fun e he => ?_
    obtain ⟨p, r, hr, hchange⟩ := mem_changes_iff.mp he
    obtain ⟨s, hs, hsame⟩ := h p r hr
    -- neither is the path missing nor does its hash differ
    cases hchange with
    | missing habsent =>
      rw [habsent] at hs
      cases hs
    | changed hs' hne =>
      rw [hs'] at hs
      cases hs
      exact hne hsame
  refine diff_eq_ok_iff.mpr ⟨?_, hnone.symm⟩
  rw [hnone]
  exact List.forall_mem_nil _

/-- The second round has nothing to send. -/
theorem diff_of_tookOver {remote' : Dict Str FileEntrySnapshot}
    (h : TookOver remote (changes rs remote) remote') : diff rs remote' = .ok [] := by
  refine diff_eq_nil fun p r hr => ?_
  -- the path was sent, or the remote had its hash before
  by_cases hsent : ∃ e, Change remote p r e
  · obtain ⟨e, hchange⟩ := hsent
    obtain ⟨s, hs, hhash⟩ := h.sent e (mem_changes_iff.mpr ⟨p, r, hr, hchange⟩)
    rw [hchange.path_eq] at hs
    exact ⟨s, hs, hhash.trans hchange.rapidhash_eq⟩
  · have hothers : ∀ e ∈ changes rs remote, e.path ≠ p := by
      intro e he hp
      obtain ⟨q, r', hr', hchange⟩ := mem_changes_iff.mp he
      obtain rfl : q = p := hchange.path_eq.symm.trans hp
      rw [hr] at hr'
      cases hr'
      exact hsent ⟨e, hchange⟩
    rw [h.others p hothers]
    cases hs : remote.get? p with
    | none => exact absurd ⟨_, .missing hs⟩ hsent
    | some s =>
      refine ⟨s, rfl, ?_⟩
      by_contra hne
      exact hsent ⟨_, .changed hs hne⟩

end Entries

/-- **A diff is exact, and the second round is empty.** The live records satisfy the constraints
of an entry. Where some live path has another hash at the remote that is no hash, `diff` raises;
else it returns exactly the changes, and nothing once the remote has taken their hashes over.
Against its own snapshot an index has nothing to send. -/
theorem diff_exact (rs : Records) (hrs : Sendable rs) (remote : Dict Str FileEntrySnapshot) :
    (BadBase rs remote → ∃ e, diff rs remote = .error e) ∧
      (¬ BadBase rs remote → ∃ entries, diff rs remote = .ok entries ∧ Exact rs remote entries ∧
        ∀ remote', TookOver remote entries remote' → diff rs remote' = .ok []) ∧
      diff rs (snapshots rs) = .ok [] := by
  refine ⟨fun hbad => ?_, fun hgood => ?_, ?_⟩
  · exact ⟨_, if_neg fun hvalid => (valid_changes_iff hrs).mp hvalid hbad⟩
  · have hvalid := (valid_changes_iff hrs).mpr hgood
    exact ⟨changes rs remote, diff_eq_ok_iff.mpr ⟨hvalid, rfl⟩, exact_changes hvalid,
      fun _ => diff_of_tookOver⟩
  · refine diff_eq_nil fun p r hr => ⟨r.snapshot, ?_, rfl⟩
    rw [get?_snapshots, (live?_eq_some.mp hr).1]
    rfl

/-- The record of a file with a given hash. -/
def FileRecord.hashed (rapidhash : Int) (deleted : Bool) : FileRecord :=
  { FileRecord.sample deleted with rapidhash := rapidhash }

/-- A new file, one that was changed, one as it was, and one that was deleted. -/
def localRecords : Records :=
  Dict.ofList [(lit "new", .hashed 1 false), (lit "edited", .hashed 2 false),
    (lit "kept", .hashed 3 false), (lit "gone", .hashed 4 true)]

/-- What the remote has of these, and a file of its own. -/
def remoteEntries : Dict Str FileEntrySnapshot :=
  snapshots (Dict.ofList [(lit "edited", .hashed 7 false), (lit "kept", .hashed 3 false),
    (lit "gone", .hashed 8 false), (lit "other", .hashed 9 false)])

/-- The remote after it has taken over the new hashes. -/
def remoteAfter : Dict Str FileEntrySnapshot :=
  (remoteEntries.set (lit "edited") (FileRecord.hashed 2 false).snapshot).set (lit "new")
    (FileRecord.hashed 1 false).snapshot

theorem sendable_localRecords : Sendable localRecords := by
  intro p r hr
  obtain ⟨hget, hlive⟩ := live?_eq_some.mp hr
  have hall : ∀ kv ∈ localRecords.items, kv.2.deleted = false →
      (toFileEntry kv.1 kv.2 true none).Valid := by decide
  exact hall (p, r) ((Dict.mem_items_iff _).mpr hget) hlive

/-- The new file is sent whole, and the edited one against the hash of the remote. Then nothing is
left to send. -/
theorem diff_exact_sample : ∃ entries,
    diff localRecords remoteEntries = .ok entries ∧ Exact localRecords remoteEntries entries ∧
      entries = [toFileEntry (lit "new") (.hashed 1 false) true none,
        toFileEntry (lit "edited") (.hashed 2 false) false (some 7)] ∧
      diff localRecords remoteAfter = .ok [] := by
  have hgood : ¬ BadBase localRecords remoteEntries := by
    rintro ⟨p, r, s, -, hs, -, hbad⟩
    have hall : ∀ kv ∈ remoteEntries.items, RapidHashInt kv.2.rapidhash := by decide
    exact hbad (hall (p, s) ((Dict.mem_items_iff _).mpr hs))
  obtain ⟨entries, hdiff, hexact, hsecond⟩ :=
    (diff_exact localRecords sendable_localRecords remoteEntries).2.1 hgood
  have hentries : entries = [toFileEntry (lit "new") (.hashed 1 false) true none,
      toFileEntry (lit "edited") (.hashed 2 false) false (some 7)] :=
    (diff_eq_ok_iff.mp hdiff).2.trans rfl
  refine ⟨entries, hdiff, hexact, hentries, hsecond remoteAfter ⟨?_, ?_⟩⟩
  · rw [hentries]
    decide
  · -- elsewhere it has what it had
    intro p hp
    rw [hentries, List.forall_mem_cons, List.forall_mem_singleton] at hp
    have hnew : p ≠ lit "new" := Ne.symm hp.1
    have hedited : p ≠ lit "edited" := Ne.symm hp.2
    rw [remoteAfter, Dict.get?_set_of_ne _ _ hnew, Dict.get?_set_of_ne _ _ hedited]

theorem sendable_sample : Sendable (SiloIndex.sample false).records := by
  intro p r hr
  obtain ⟨rfl, rfl⟩ := SiloIndex.get?_sample (live?_eq_some.mp hr).1
  decide

/-- A remote mapping with a number that is no hash. -/
def badRemote : Dict Str FileEntrySnapshot :=
  Dict.empty.set (lit "a") { (FileRecord.sample false).snapshot with rapidhash := 2 ^ 64 }

/-- The entry cannot be built: `diff` lists nothing, and raises. -/
theorem diff_badRemote_raises :
    Sendable (SiloIndex.sample false).records ∧
      ¬ ∃ entries, diff (SiloIndex.sample false).records badRemote = .ok entries := by
  refine ⟨sendable_sample, ?_⟩
  have hbad : BadBase (SiloIndex.sample false).records badRemote :=
    ⟨lit "a", .sample false, { (FileRecord.sample false).snapshot with rapidhash := 2 ^ 64 },
      by decide, by decide, by decide, by decide⟩
  rintro ⟨entries, h⟩
  exact (valid_changes_iff sendable_sample).mp (diff_eq_ok_iff.mp h).1 hbad

/-! ### The bases -/

/-- The exception of `_read_base` when it finds no record. -/
def baseNotFound (baseRapidhash : Int) : Exc :=
  .patch (lit "base with rapidhash " ++ Json.dumpInt baseRapidhash ++ lit " not found in index")

/-- **The bases of a reconciliation are available**: the server finds a record for the base of each
delta that a client sends after a diff against the server's snapshot. -/
def BasesAvailable (rs : Records) (S : Service) : Prop :=
  ∀ entries, diff rs (snapshots S.index.records) = .ok entries →
    ∀ e ∈ entries, e.isFull = false → ∃ h, e.deltaBaseRapidhash = some h ∧
      ∀ w, (readBase S (some h) w).value ≠ .error (baseNotFound h)

section Bases

variable {rs : Records} {S : Service} {h : Int}

theorem findBase_eq_none_iff :
    findBase rs h = none ↔ ∀ q u, live? rs q = some u → u.rapidhash ≠ h := by
  unfold findBase
  rw [List.find?_eq_none]
  constructor
  · intro hnone q u hu hhash
    obtain ⟨hget, hlive⟩ := live?_eq_some.mp hu
    exact hnone (q, u) ((Dict.mem_items_iff rs).mpr hget) (by simp [hhash, hlive])
  · rintro hall ⟨q, u⟩ hmem hfound
    obtain ⟨hhash, hlive⟩ : u.rapidhash = h ∧ u.deleted = false := by simpa using hfound
    exact hall q u (live?_eq_some.mpr ⟨(Dict.mem_items_iff rs).mp hmem, hlive⟩) hhash

/-- `_read_base` does not find a record exactly if no live record has the hash. -/
theorem readBase_notFound_iff {w : World} :
    (readBase S (some h) w).value = .error (baseNotFound h) ↔
      findBase S.index.records h = none := by
  cases hfind : findBase S.index.records h with
  | none =>
    refine iff_of_true ?_ rfl
    simp only [readBase, hfind]
    rfl
  | some found =>
    refine iff_of_false ?_ nofun
    -- what the jail and the file system raise is no `PatchError`
    have hrun := runs_self (readBase S (some h)) w
    generalize (readBase S (some h) w).value = v at hrun
    rintro rfl
    simp only [readBase, hfind] at hrun
    obtain ⟨e, hresolve, he⟩ | ⟨p, w₁, evs₁, evs₂, -, hread, -⟩ := hrun.bind_inv
    · cases he
      obtain ⟨-, -, ⟨p, hv, -⟩ | ⟨err, hv, -⟩ | ⟨e', hv, hext⟩⟩ := jailResolve_inv hresolve
      · cases hv
      · cases hv
      · cases hv
        exact hext
    · obtain ⟨-, -, ⟨f, hv, -⟩ | ⟨e, hv, hext⟩⟩ := readBytes_inv hread
      · cases hv
      · cases hv
        exact hext

/-- `_read_base` finds a record exactly if some live record has the hash. -/
theorem readBase_finds_iff :
    (∀ w, (readBase S (some h) w).value ≠ .error (baseNotFound h)) ↔
      ∃ q u, live? S.index.records q = some u ∧ u.rapidhash = h := by
  constructor
  · intro hall
    by_contra hnone
    refine hall ⟨Tree.empty, [], 0⟩ (readBase_notFound_iff.mpr (findBase_eq_none_iff.mpr ?_))
    exact fun q u hu hhash => hnone ⟨q, u, hu, hhash⟩
  · rintro ⟨q, u, hu, hhash⟩ w hvalue
    exact findBase_eq_none_iff.mp (readBase_notFound_iff.mp hvalue) q u hu hhash

/-- The base of a change is available, unless it is that of a tombstone whose hash no live record
has. -/
theorem Change.base_available_iff {p : Str} {r : FileRecord} {e : FileEntry}
    (hchange : Change (snapshots S.index.records) p r e) :
    (e.isFull = false → ∃ h, e.deltaBaseRapidhash = some h ∧
        ∀ w, (readBase S (some h) w).value ≠ .error (baseNotFound h)) ↔
      ∀ t, S.index.records.get? p = some t → t.deleted = true → t.rapidhash ≠ r.rapidhash →
        ∃ q u, live? S.index.records q = some u ∧ u.rapidhash = t.rapidhash := by
  cases hchange with
  | missing habsent =>
    rw [get?_snapshots, Option.map_eq_none_iff] at habsent
    refine iff_of_true nofun fun t ht => ?_
    rw [habsent] at ht
    cases ht
  | changed hs hne =>
    rw [get?_snapshots] at hs
    obtain ⟨t, ht, rfl⟩ := Option.map_eq_some_iff.mp hs
    have hbase : (∃ h, some t.rapidhash = some h ∧
          ∀ w, (readBase S (some h) w).value ≠ .error (baseNotFound h)) ↔
        ∃ q u, live? S.index.records q = some u ∧ u.rapidhash = t.rapidhash := by
      rw [← readBase_finds_iff]
      constructor
      · rintro ⟨h, ⟨rfl⟩, hall⟩
        exact hall
      · exact fun hall => ⟨_, rfl, hall⟩
    refine (forall_prop_of_true rfl).trans (hbase.trans ?_)
    constructor
    · intro hex t' ht' _ _
      rw [ht] at ht'
      cases ht'
      exact hex
    · intro hall
      -- a record that is live is its own base
      cases hdeleted : t.deleted with
      | true => exact hall t ht hdeleted hne
      | false => exact ⟨p, t, live?_eq_some.mpr ⟨ht, hdeleted⟩, rfl⟩

end Bases

/-- **Which bases are available.** The bases of a reconciliation are available if and only if,
where every change passes the constraints of an entry, each path that is live on the client and a
tombstone with another hash on the server has its hash at some live record of the server. -/
theorem bases_available_iff (rs : Records) (S : Service) :
    BasesAvailable rs S ↔
      ((∀ p r e, live? rs p = some r → Change (snapshots S.index.records) p r e → e.Valid) →
        ∀ p r t, live? rs p = some r → S.index.records.get? p = some t → t.deleted = true →
          t.rapidhash ≠ r.rapidhash →
            ∃ q u, live? S.index.records q = some u ∧ u.rapidhash = t.rapidhash) := by
  constructor
  · -- a tombstone with another hash is a change, and its base is asked for by that hash
    intro havailable hvalid p r t hr ht hdeleted hne
    have hs : (snapshots S.index.records).get? p = some t.snapshot := by
      rw [get?_snapshots, ht]
      rfl
    have hchange : Change (snapshots S.index.records) p r _ := .changed hs hne
    have hentries : ∀ e ∈ changes rs (snapshots S.index.records), e.Valid := by
      intro e he
      obtain ⟨q, u, hu, hchange⟩ := mem_changes_iff.mp he
      exact hvalid q u e hu hchange
    refine hchange.base_available_iff.mp ?_ t ht hdeleted hne
    exact havailable _ (diff_eq_ok_iff.mpr ⟨hentries, rfl⟩) _
      (mem_changes_iff.mpr ⟨p, r, hr, hchange⟩)
  · intro hcond entries hdiff e he
    obtain ⟨hentries, rfl⟩ := diff_eq_ok_iff.mp hdiff
    have hvalid : ∀ p r e, live? rs p = some r → Change (snapshots S.index.records) p r e →
        e.Valid := fun p r e hr hchange => hentries e (mem_changes_iff.mpr ⟨p, r, hr, hchange⟩)
    obtain ⟨p, r, hr, hchange⟩ := mem_changes_iff.mp he
    exact hchange.base_available_iff.mpr fun t ht hdeleted hne =>
      hcond hvalid p r t hr ht hdeleted hne

/-- Another content, deleted. -/
def FileRecord.deletedSample : FileRecord := { FileRecord.sample true with rapidhash := 8 }

/-- A server that had it under the path, and has deleted it. -/
def tombstoneService : Service :=
  { Sample.service with
    index := ⟨1, lit "node", Dict.empty.set (lit "a") .deletedSample⟩ }

theorem get?_tombstoneService : (snapshots tombstoneService.index.records).get? (lit "a") =
    some FileRecord.deletedSample.snapshot := by
  decide

/-- The client announces a delta against the deleted content, which the server does not find. -/
theorem tombstone_base_not_available :
    ¬ BasesAvailable (SiloIndex.sample false).records tombstoneService := by
  intro havailable
  have hgood : ¬ BadBase (SiloIndex.sample false).records
      (snapshots tombstoneService.index.records) := by
    rintro ⟨p, r, s, hr, hs, -, hbad⟩
    obtain ⟨rfl, rfl⟩ := SiloIndex.get?_sample (live?_eq_some.mp hr).1
    rw [get?_tombstoneService] at hs
    cases hs
    exact hbad (by decide)
  have hchange : Change (snapshots tombstoneService.index.records) (lit "a") (.sample false)
      (toFileEntry (lit "a") (.sample false) false (some 8)) :=
    .changed get?_tombstoneService (by decide)
  have hvalid := (valid_changes_iff sendable_sample).mpr hgood
  obtain ⟨h, ⟨rfl⟩, hfinds⟩ := havailable _ (diff_eq_ok_iff.mpr ⟨hvalid, rfl⟩) _
    (mem_changes_iff.mpr ⟨lit "a", .sample false, by decide, hchange⟩) rfl
  have hnone : findBase tombstoneService.index.records 8 = none := by decide
  exact hfinds ⟨Tree.empty, [], 0⟩ (readBase_notFound_iff.mpr hnone)

end Chiralite
