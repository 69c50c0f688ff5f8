import Chiralite.Server.Session
import Chiralite.Sync.Engine
import Chiralite.Sync.LiveView

/-!
# Reconciliation on connect

`SiloIndex.diff` of `sync/index.py` and the exchange of `sync/reconciler.py`: the client asks for
the state of the server's index, compares it with its own and gets the list of the entries it has
to send. The server's side is `serverHandleSyncRequest`.

The snapshot carries the tombstones of the server's index, each with the hash of the content that
was deleted. `diff` asks whether the remote has an entry and whether its hash is the same, and does
not ask whether the entry is a tombstone. So a file that the client has, and that the server has
deleted with the very same content, is not sent: `covers_iff` says that these paths are all that
can be missing on the server after the entries have been installed.
-/

namespace Chiralite

open Py Posix Effect

/-! ### The program -/

instance (e : FileEntry) : Decidable e.Valid :=
  decidable_of_iff ((validateRelativePath e.path).Ok ∧ RapidHashInt e.rapidhash ∧
    FileSizeInt e.size ∧ FileModeInt e.mode ∧ (validateNameNoNull e.uidName).Ok ∧
    (validateNameNoNull e.gidName).Ok ∧ MtimeNsInt e.mtimeNs ∧
    (validateSymlinkTarget e.symlinkTarget).Ok ∧
    (∀ h ∈ e.deltaBaseRapidhash, RapidHashInt h) ∧ e.validateSymlinkConsistency.Ok ∧
    e.validateDeltaConsistency.Ok)
    ⟨fun ⟨h₁, h₂, h₃, h₄, h₅, h₆, h₇, h₈, h₉, h₁₀, h₁₁⟩ =>
      ⟨h₁, h₂, h₃, h₄, h₅, h₆, h₇, h₈, h₉, h₁₀, h₁₁⟩,
    fun ⟨h₁, h₂, h₃, h₄, h₅, h₆, h₇, h₈, h₉, h₁₀, h₁₁⟩ =>
      ⟨h₁, h₂, h₃, h₄, h₅, h₆, h₇, h₈, h₉, h₁₀, h₁₁⟩⟩

/-- `_to_file_entry`, the fields of the entry. -/
def toFileEntry (path : Str) (record : FileRecord) (isFull : Bool) (baseRapidhash : Option Int) :
    FileEntry where
  path := path
  rapidhash := record.rapidhash
  size := record.size
  mode := record.mode
  uidName := record.uidName
  gidName := record.gidName
  mtimeS := record.mtimeS
  mtimeNs := record.mtimeNs
  isFull := isFull
  deltaBaseRapidhash := baseRapidhash

/-- One round of the loop of `diff`: the entry that has to be sent for a path, if any. -/
def diffEntry (remote : Dict Str FileEntrySnapshot) (path : Str) (record : FileRecord) :
    Option FileEntry :=
  if record.deleted then none
  else
    match remote.get? path with
    | none => some (toFileEntry path record true none)
    -- a tombstone of the remote is an entry like any other
    | some remoteEntry =>
      if remoteEntry.rapidhash ≠ record.rapidhash then
        some (toFileEntry path record false (some remoteEntry.rapidhash))
      else none

/-- `SiloIndex.diff`. The constructor of an entry validates it, and raises if it is not valid. -/
def diff (rs : Records) (remote : Dict Str FileEntrySnapshot) : Except Exc (List FileEntry) :=
  let entries := rs.items.filterMap fun kv => diffEntry remote kv.1 kv.2
  if ∀ e ∈ entries, e.Valid then .ok entries else .error (.other (lit "validation error"))

/-- `client_request_sync`. -/
def clientRequestSync (E : Env) (localIndex : SiloIndex) : Io (List FileEntry) := do
  send E .syncRequest
  match ← recv with
  | .syncState m =>
    match diff localIndex.records (Dict.ofList m.records) with
    | .ok entries => pure entries
    | .error e => Eff.raise e
  | m => Eff.raise (.reconcile (lit "expected SYNC_STATE, got " ++ m.typeName))

/-! ### The exchange -/

/-- The state that the server sends of its index. -/
def SiloIndex.state (index : SiloIndex) : SyncStateMsg :=
  ⟨index.siloId, index.nodeId, index.records.items.map fun kv => (kv.1, kv.2.snapshot)⟩

theorem SiloIndex.get?_state (index : SiloIndex) (p : Str) :
    (Dict.ofList index.state.records).get? p = (index.records.get? p).map FileRecord.snapshot :=
  Dict.get?_ofList_map _ _ _

/-- **The exchange**: each side takes in what the other has sent, and the client's side returns
with the entries. -/
def Exchange (E : Env) (C : SiloIndex) (S : Service) (entries : List FileEntry) : Prop :=
  ∃ (c w c' w' : World) (evs evs' : List Event) (v : Except Exc Unit)
    (hrequest : ∀ m ∈ sends evs, m.Valid) (hreply : ∀ m ∈ sends evs', m.Valid),
    Runs (clientRequestSync E C) { c with inbox := deliver (sends evs') hreply } evs
      (.ok entries) c' ∧
    Runs (serverHandleSyncRequest S) { w with inbox := deliver (sends evs) hrequest } evs' v w'

/-- The record that an entry leaves on the server when it is installed at a time. -/
def FileEntry.installed (e : FileEntry) (recvTsNs : Int) : FileRecord where
  rapidhash := e.rapidhash
  size := e.size
  mtimeS := e.mtimeS
  mtimeNs := e.mtimeNs
  recvTsNs := recvTsNs
  mode := e.mode
  uidName := e.uidName
  gidName := e.gidName

/-- The table with the entries installed as live records. -/
def install (recvTsNs : Int) (rs : Records) (entries : List FileEntry) : Records :=
  entries.foldl (fun rs e => rs.set e.path (e.installed recvTsNs)) rs

/-- Whatever is live in the first table is live in the second, with the same hash. -/
def Covers (rs ss : Records) : Prop :=
  ∀ p r, live? rs p = some r → ∃ s, live? ss p = some s ∧ s.rapidhash = r.rapidhash

section Diff

variable {rs ss : Records} {remote : Dict Str FileEntrySnapshot} {entries : List FileEntry}

theorem diff_ok (h : diff rs remote = .ok entries) :
    entries = rs.items.filterMap fun kv => diffEntry remote kv.1 kv.2 := by
  unfold diff at h
  dsimp only at h
  split at h
  · exact (Except.ok.inj h).symm
  · cases h

/-- What an entry of one path says. -/
theorem diffEntry_eq_some {p : Str} {r : FileRecord} {e : FileEntry}
    (h : diffEntry remote p r = some e) : e.path = p ∧ e.rapidhash = r.rapidhash := by
  unfold diffEntry at h
  split at h
  · cases h
  split at h
  · cases h
    exact ⟨rfl, rfl⟩
  · split at h
    · cases h
      exact ⟨rfl, rfl⟩
    · cases h

/-- No entry is made for a path exactly when the remote has an entry with the same hash. -/
theorem diffEntry_eq_none_iff {p : Str} {r : FileRecord} (hlive : r.deleted = false) :
    diffEntry remote p r = none ↔ ∃ s, remote.get? p = some s ∧ s.rapidhash = r.rapidhash := by
  unfold diffEntry
  rw [if_neg (by simp [hlive])]
  cases remote.get? p with
  | none => simp
  | some s => simp

/-- The entries of a path are those of its one record. -/
theorem mem_filterMap_diffEntry {e : FileEntry} {r : FileRecord} (hr : rs.get? e.path = some r) :
    e ∈ rs.items.filterMap (fun kv => diffEntry remote kv.1 kv.2) ↔
      diffEntry remote e.path r = some e := by
  rw [List.mem_filterMap]
  constructor
  · rintro ⟨⟨p, r'⟩, hmem, he⟩
    obtain rfl : e.path = p := (diffEntry_eq_some he).1
    have hr' := (Dict.mem_items_iff rs).mp hmem
    rw [hr] at hr'
    cases hr'
    exact he
  · intro he
    exact ⟨(e.path, r), (Dict.mem_items_iff rs).mpr hr, he⟩

/-- Installing entries keeps a path covered, and covers the paths of the entries. -/
theorem live?_install {p : Str} {hash : Int} (recvTsNs : Int)
    (hhash : ∀ e ∈ entries, e.path = p → e.rapidhash = hash)
    (h : (∃ s, live? ss p = some s ∧ s.rapidhash = hash) ∨ ∃ e ∈ entries, e.path = p) :
    ∃ s, live? (install recvTsNs ss entries) p = some s ∧ s.rapidhash = hash := by
  induction entries generalizing ss with
  | nil =>
    rcases h with h | ⟨e, he, -⟩
    · exact h
    · exact absurd he (by simp)
  | cons e entries ih =>
    refine ih (fun f hf => hhash f (List.mem_cons_of_mem _ hf)) ?_
    rw [live?_set]
    by_cases hp : p = e.path
    · refine Or.inl ⟨e.installed recvTsNs, by rw [if_pos hp]; rfl, ?_⟩
      exact hhash e List.mem_cons_self hp.symm
    · rw [if_neg hp]
      rcases h with h | ⟨f, hf, hfp⟩
      · exact Or.inl h
      · rcases List.mem_cons.mp hf with rfl | hf
        · exact absurd hfp.symm hp
        · exact Or.inr ⟨f, hf, hfp⟩

/-- Installing entries of other paths leaves a path as it is. -/
theorem live?_install_of_notMem {p : Str} (recvTsNs : Int) (h : ∀ e ∈ entries, e.path ≠ p) :
    live? (install recvTsNs ss entries) p = live? ss p := by
  induction entries generalizing ss with
  | nil => rfl
  | cons e entries ih =>
    refine (ih fun f hf => h f (List.mem_cons_of_mem _ hf)).trans ?_
    rw [live?_set, if_neg fun hp => h e List.mem_cons_self hp.symm]

/-- **What the entries of a diff against a snapshot cover**: everything that is live here, unless
it is a tombstone with the same hash there. -/
theorem covers_install_iff (recvTsNs : Int)
    (hremote : ∀ p, remote.get? p = (ss.get? p).map FileRecord.snapshot) :
    Covers rs (install recvTsNs ss (rs.items.filterMap fun kv => diffEntry remote kv.1 kv.2)) ↔
      ∀ p r s, live? rs p = some r → ss.get? p = some s → s.deleted = true →
        s.rapidhash ≠ r.rapidhash := by
  constructor
  · intro hcovers p r s hr hs hdeleted hsame
    obtain ⟨hget, hlive⟩ := live?_eq_some.mp hr
    -- nothing is sent for the path, and what the remote has there is dead
    have hnone : diffEntry remote p r = none := by
      refine (diffEntry_eq_none_iff hlive).mpr ⟨s.snapshot, ?_, hsame⟩
      rw [hremote, hs]
      rfl
    have hnot : ∀ e ∈ rs.items.filterMap (fun kv => diffEntry remote kv.1 kv.2), e.path ≠ p := by
      rintro e he rfl
      rw [mem_filterMap_diffEntry hget, hnone] at he
      cases he
    obtain ⟨t, ht, -⟩ := hcovers p r hr
    rw [live?_install_of_notMem recvTsNs hnot] at ht
    obtain ⟨hst, htlive⟩ := live?_eq_some.mp ht
    rw [hs] at hst
    cases hst
    rw [hdeleted] at htlive
    cases htlive
  · intro hcond p r hr
    obtain ⟨hget, hlive⟩ := live?_eq_some.mp hr
    refine live?_install recvTsNs ?_ ?_
    · rintro e he rfl
      exact (diffEntry_eq_some ((mem_filterMap_diffEntry hget).mp he)).2
    · cases he : diffEntry remote p r with
      | some e =>
        -- the path is sent
        obtain ⟨rfl, -⟩ := diffEntry_eq_some he
        exact Or.inr ⟨e, (mem_filterMap_diffEntry hget).mpr he, rfl⟩
      | none =>
        -- the remote has the hash, and the record is no tombstone
        obtain ⟨s', hs', hsame⟩ := (diffEntry_eq_none_iff hlive).mp he
        rw [hremote] at hs'
        obtain ⟨s, hs, rfl⟩ := Option.map_eq_some_iff.mp hs'
        have halive : s.deleted = false := by
          by_contra hdead
          exact hcond p r s hr hs (by simpa using hdead) hsame
        exact Or.inl ⟨s, live?_eq_some.mpr ⟨hs, halive⟩, hsame⟩

end Diff

section Exchanges

variable {E : Env} {C : SiloIndex} {S : Service} {entries : List FileEntry}

/-- The server's side sends nothing, or the snapshot of its index. -/
theorem serverHandleSyncRequest_sends {w w' : World} {evs : List Event} {v : Except Exc Unit}
    (h : Runs (serverHandleSyncRequest S) w evs v w') :
    sends evs = [] ∨ sends evs = [.syncState S.index.state] := by
  rcases h.bind_inv with ⟨e, hrecv, -⟩ | ⟨m, w₁, evs₁, evs₂, hrecv, hrest, rfl⟩
  · exact Or.inl (sends_eq_nil (quietFrame_recv _ _ _ _ hrecv).2.1)
  rw [sends_append, sends_eq_nil (quietFrame_recv _ _ _ _ hrecv).2.1, List.nil_append]
  split at hrest
  · dsimp only at hrest
    split at hrest
    · obtain ⟨-, ⟨e, -, rfl⟩ | ⟨-, rfl⟩⟩ := send_inv hrest
      · exact Or.inl rfl
      · exact Or.inr rfl
    · obtain ⟨-, rfl, -⟩ := hrest.raise_inv
      exact Or.inl rfl
  · obtain ⟨-, rfl, -⟩ := hrest.raise_inv
    exact Or.inl rfl

/-- A client that returns has compared its index with the one state it was sent. -/
theorem clientRequestSync_ok {ms : List AnyMsg} {hms : ∀ m ∈ ms, m.Valid} {c c' : World}
    {evs : List Event}
    (h : Runs (clientRequestSync E C) { c with inbox := deliver ms hms } evs (.ok entries) c') :
    ∃ m rest, ms = .syncState m :: rest ∧
      diff C.records (Dict.ofList m.records) = .ok entries := by
  obtain ⟨_, c₁, evs₁, evs₂, hsend, hrest, rfl⟩ := h.bind_ok_inv
  obtain ⟨m, c₂, evs₃, evs₄, hrecv, hlast, rfl⟩ := hrest.bind_ok_inv
  -- the message that was taken is the first of the inbox
  have hinbox : c₁.inbox = deliver ms hms := by
    rcases bind_tick_inv hsend with ⟨e, hv, -⟩ | ⟨c₃, -, hinbox, hemit⟩
    · cases hv
    · cases hemit
      exact hinbox
  have hfirst : ∃ rest, ms = m :: rest := by
    cases ms with
    | nil =>
      have hlook := hrecv.bind_look_inv
      rw [hinbox] at hlook
      cases hlook
    | cons m' rest =>
      have hrun := recv_runs hinbox
      rw [Runs, show recv c₁ = _ from hrecv] at hrun
      cases hrun
      exact ⟨rest, rfl⟩
  obtain ⟨rest, rfl⟩ := hfirst
  split at hlast
  · rename_i m'
    refine ⟨m', rest, rfl, ?_⟩
    split at hlast
    · rename_i entries' hdiff
      obtain ⟨hv, -, -⟩ := hlast.pure_inv
      cases hv
      exact hdiff
    · obtain ⟨hv, -, -⟩ := hlast.raise_inv
      cases hv
  · obtain ⟨hv, -, -⟩ := hlast.raise_inv
    cases hv

/-- The entries of an exchange are the diff against the server's snapshot. -/
theorem Exchange.entries_eq (h : Exchange E C S entries) :
    entries = C.records.items.filterMap fun kv =>
      diffEntry (Dict.ofList S.index.state.records) kv.1 kv.2 := by
  obtain ⟨c, w, c', w', evs, evs', v, hrequest, hreply, hclient, hserver⟩ := h
  obtain ⟨m, rest, hsends, hdiff⟩ := clientRequestSync_ok hclient
  rcases serverHandleSyncRequest_sends hserver with hnone | hstate
  · rw [hnone] at hsends
    cases hsends
  · rw [hstate] at hsends
    cases hsends
    exact diff_ok hdiff

theorem clientRequestSync_runs (hE : E.NoFaults) {c : World} {m : SyncStateMsg}
    {valid : AnyMsg.Valid (.syncState m)} {rest : List Incoming}
    (hinbox : c.inbox = .message (.syncState m) valid :: rest)
    (hdiff : diff C.records (Dict.ofList m.records) = .ok entries) :
    Runs (clientRequestSync E C) c [.sent .syncRequest, .received (.syncState m)]
      (.ok entries) { c.tick with inbox := rest } := by
  have hinbox' : c.tick.inbox = .message (.syncState m) valid :: rest := hinbox
  refine (send_runs hE _).bind ?_
  rw [← List.append_nil [Event.received _]]
  refine (recv_runs hinbox').bind ?_
  dsimp only
  rw [hdiff]
  rfl

theorem serverHandleSyncRequest_runs (hS : S.env.NoFaults) {w : World}
    {valid : AnyMsg.Valid .syncRequest} {rest : List Incoming}
    (hinbox : w.inbox = .message .syncRequest valid :: rest)
    (hrecords : ∀ kv ∈ S.index.state.records, kv.2.Valid) :
    Runs (serverHandleSyncRequest S) w
      [.received .syncRequest, .sent (.syncState S.index.state)] (.ok ())
      { w with inbox := rest }.tick := by
  refine (recv_runs hinbox).bind ?_
  dsimp only
  exact (if_pos hrecords) ▸ send_runs hS _

/-- **The exchange returns** when no call fails and both indexes pass the validators: the server's
records as snapshots, and the client's live ones as entries. -/
theorem exchange_returns (hE : E.NoFaults) (hS : S.env.NoFaults)
    (hserver : ∀ p s, S.index.records.get? p = some s → s.snapshot.Valid)
    (hclient : ∀ p r, live? C.records p = some r → (toFileEntry p r true none).Valid) :
    ∃ entries, Exchange E C S entries := by
  have hrecords : ∀ kv ∈ S.index.state.records, kv.2.Valid := by
    intro kv hkv
    obtain ⟨⟨p, s⟩, hmem, rfl⟩ := List.mem_map.mp hkv
    exact hserver p s ((Dict.mem_items_iff _).mp hmem)
  -- an entry is valid as a full one, and as a delta since the remote hash is a hash
  have hentries : ∀ e ∈ C.records.items.filterMap
      (fun kv => diffEntry (Dict.ofList S.index.state.records) kv.1 kv.2), e.Valid := by
    intro e he
    obtain ⟨⟨p, r⟩, hmem, he⟩ := List.mem_filterMap.mp he
    dsimp only at he
    unfold diffEntry at he
    split at he
    · cases he
    rename_i hlive
    have hvalid := hclient p r
      (live?_eq_some.mpr ⟨(Dict.mem_items_iff _).mp hmem, by simpa using hlive⟩)
    split at he
    · cases he
      exact hvalid
    rename_i s hs
    split at he
    · cases he
      rw [SiloIndex.get?_state] at hs
      obtain ⟨s', hs', rfl⟩ := Option.map_eq_some_iff.mp hs
      exact
        { hvalid with
          deltaBase := by
            intro hash hhash
            cases hhash
            exact (hserver p s' hs').rapidhash
          deltaConsistency := rfl }
    · cases he
  have hrequest : ∀ m ∈ [AnyMsg.syncRequest], m.Valid := by
    intro m hm
    rw [List.mem_singleton.mp hm]
    trivial
  have hreply : ∀ m ∈ [AnyMsg.syncState S.index.state], m.Valid := by
    intro m hm
    rw [List.mem_singleton.mp hm]
    exact hrecords
  have hclientRun := clientRequestSync_runs (C := C) (c := ⟨Tree.empty, deliver _ hreply, 0⟩) hE
    rfl (if_pos hentries)
  have hserverRun := serverHandleSyncRequest_runs (S := S)
    (w := ⟨Tree.empty, deliver _ hrequest, 0⟩) hS rfl hrecords
  exact ⟨_, ⟨Tree.empty, [], 0⟩, ⟨Tree.empty, [], 0⟩, _, _,
    [.sent .syncRequest, .received (.syncState S.index.state)],
    [.received .syncRequest, .sent (.syncState S.index.state)], _, hrequest, hreply, hclientRun,
    hserverRun⟩

/-- **Reconciliation is complete up to tombstones.** After an exchange whose entries are installed
on the server as live records, every path that is live in the client's index is live in the
server's with the same hash, if and only if no path is live on the client and a tombstone with the
same hash on the server. -/
theorem covers_iff (E : Env) (C : SiloIndex) (S : Service) (entries : List FileEntry)
    (recvTsNs : Int) (h : Exchange E C S entries) :
    Covers C.records (install recvTsNs S.index.records entries) ↔
      ∀ p r s, live? C.records p = some r → S.index.records.get? p = some s → s.deleted = true →
        s.rapidhash ≠ r.rapidhash := by
  rw [h.entries_eq]
  exact covers_install_iff recvTsNs S.index.get?_state

end Exchanges

/-! ### A file that the server has deleted

The client has a file with a hash, and the server a record with the same hash under the same path,
live or deleted. -/

/-- The record of a file with the hash 7. -/
def FileRecord.sample (deleted : Bool) : FileRecord where
  rapidhash := 7
  size := 3
  mtimeS := 0
  mtimeNs := 0
  recvTsNs := 1
  mode := 0o644
  uidName := lit "alice"
  gidName := lit "users"
  deleted := deleted

/-- An index with that record under the path `a`. -/
def SiloIndex.sample (deleted : Bool) : SiloIndex :=
  ⟨1, lit "node", Dict.empty.set (lit "a") (.sample deleted)⟩

theorem SiloIndex.get?_sample {deleted : Bool} {p : Str} {r : FileRecord}
    (h : (SiloIndex.sample deleted).records.get? p = some r) :
    p = lit "a" ∧ r = .sample deleted := by
  have hmem := (Dict.mem_items_iff _).mpr h
  have heq := List.mem_singleton.mp
    (show (p, r) ∈ [(lit "a", FileRecord.sample deleted)] from hmem)
  exact ⟨(Prod.mk.inj heq).1, (Prod.mk.inj heq).2⟩

theorem exchange_sample (deleted : Bool) : ∃ entries,
    Exchange Sample.env (.sample false) { Sample.service with index := .sample deleted }
      entries := by
  refine exchange_returns (fun _ => rfl) (fun _ => rfl) ?_ ?_
  · intro p s hs
    rw [(SiloIndex.get?_sample hs).2]
    cases deleted with
    | false => decide
    | true => decide
  · intro p r hr
    obtain ⟨rfl, rfl⟩ := SiloIndex.get?_sample (live?_eq_some.mp hr).1
    decide

/-- The server still has the file: nothing is missing. -/
theorem covers_sample : ∃ entries,
    Exchange Sample.env (.sample false) { Sample.service with index := .sample false } entries ∧
    Covers (SiloIndex.sample false).records
      (install 2 (SiloIndex.sample false).records entries) := by
  obtain ⟨entries, h⟩ := exchange_sample false
  refine ⟨entries, h, (covers_iff _ _ _ _ 2 h).mpr ?_⟩
  intro p r s _ hs hdeleted
  rw [(SiloIndex.get?_sample hs).2] at hdeleted
  cases hdeleted

/-- The server has deleted the file: the client has it, and does not send it. -/
theorem not_covers_deleted_sample : ∃ entries,
    Exchange Sample.env (.sample false) { Sample.service with index := .sample true } entries ∧
    ¬ Covers (SiloIndex.sample false).records
      (install 2 (SiloIndex.sample true).records entries) := by
  obtain ⟨entries, h⟩ := exchange_sample true
  refine ⟨entries, h, fun hcovers => ?_⟩
  rw [h.entries_eq] at hcovers
  exact (covers_install_iff 2 (SiloIndex.get?_state _)).mp hcovers (lit "a") (.sample false)
    (.sample true) (by decide) (by decide) rfl rfl

end Chiralite
