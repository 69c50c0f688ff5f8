import Chiralite.Sync.Engine

/-!
# Who owns a written file

The owner names of an entry are resolved twice. `_handle_transfer` asks the policy of the session
(`resolve_uid`, `resolve_gid`), which maps the name to a local one, refuses the denied names and
never returns the id 0, and throws the ids away; `atomic_write` asks the account database for the
name of the entry as it stands (`lookup_uid`, `lookup_gid`) and gives the file to whoever that is.

`owner_iff` says when the two come to the same: for every transfer that ends in a write, the file
belongs to the ids of the policy exactly when the database gives the names of the entry the ids
that it gives the local names of the policy.
-/

namespace Chiralite

open Py Posix Effect

section Names

variable {reprStr : Str → Str} {kind : IdKind} {database : Str → Option Int} {name : Str}
  {id : Int}

/-- What the lookup returns is the id of the name itself. -/
theorem lookupName_ok (h : lookupName reprStr kind database name = .ok id) :
    database name = some id := by
  unfold lookupName at h
  split at h
  · cases h
  · rename_i id' hid
    cases h
    exact hid

/-- **The two ways of a name agree** exactly when the database has the same id for the name and
for the local name. -/
theorem resolveName_eq_lookupName_iff {policy : IdPolicy} {id' : Int}
    (hresolve : resolveName reprStr kind database name policy = .ok id')
    (hlookup : lookupName reprStr kind database name = .ok id) :
    resolveName reprStr kind database name policy = .ok id ∧ id ≠ 0 ↔
      database name = database (policy.localName name) := by
  obtain ⟨-, hlocal, hne⟩ := resolveName_eq_ok_iff.mp hresolve
  have hname := lookupName_ok hlookup
  rw [hresolve, hlocal, hname]
  constructor
  · rintro ⟨heq, -⟩
    rw [Except.ok.inj heq]
  · intro heq
    rw [Option.some.inj heq]
    exact ⟨rfl, hne⟩

end Names

/-! ### Transfers that end in a write -/

/-- The record of a finished write. `_handle_transfer` leaves it right after `atomic_write` has
returned, and nowhere else. -/
def Event.TellsWrite : Event → Prop
  | .audited (.fileWrite _ _ _ _ _ _ _ _) => True
  | _ => False

theorem Event.Idle.not_tellsWrite {o : Event} (h : o.Idle) : ¬ o.TellsWrite := by
  cases o with
  | audited record =>
    cases record with
    | fileWrite => exact absurd h id
    | _ => exact id
  | _ => exact id

section Writes

variable {S : Service} {begin : TransferBeginMsg} {w w' : World} {evs : List Event}
  {v : Except Exc Unit}

theorem TurnedDown.not_tellsWrite {tid : Uuid} (h : TurnedDown tid w w' evs) :
    ∀ o ∈ evs, ¬ o.TellsWrite := by
  obtain ⟨-, idle, hidle, rfl | ⟨reason, rfl⟩⟩ := h
  · exact fun o ho => (hidle o ho).not_tellsWrite
  · intro o ho
    rcases List.mem_append.mp ho with ho | ho
    · exact (hidle o ho).not_tellsWrite
    · rw [List.mem_singleton.mp ho]
      exact id

/-- The last part of the handler, when it has left its record. -/
theorem writeAndAck_wrote {tid : Uuid} {entry : FileEntry} {content : Bytes} {result : ScanResult}
    (h : Runs (writeAndAck S tid entry content result) w evs v w')
    (hwrote : ∃ o ∈ evs, o.TellsWrite) :
    ∃ dest uid gid,
      S.session.jail.resolve w.fs S.env.fuel S.env.lstatError entry.path = some (.ok dest) ∧
      lookupUid S.env.reprStr S.env.accounts entry.uidName = .ok uid ∧
      lookupGid S.env.reprStr S.env.accounts entry.gidName = .ok gid ∧
      w'.fs.file dest = some (stagedFile S.env content entry uid gid) := by
  obtain ⟨r, w₁, evs₁, evs₂, hwrite, hrest, rfl⟩ := h.bind_attempt_inv
  obtain ⟨o, ho, htells⟩ := hwrote
  -- the write itself leaves no record
  have hlate : o ∈ evs₂ := by
    rcases List.mem_append.mp ho with ho | ho
    · obtain ⟨op, p, rfl⟩ := (touchFrame_atomicWrite _ _ _ _ hwrite).2.1 o ho
      exact absurd htells id
    · exact ho
  have hnack : ∀ reason, Runs (nack S tid reason) w₁ evs₂ v w' → False := by
    intro reason hnack
    exact (turnedDown_nack hnack).not_tellsWrite o hlate htells
  split at hrest
  · exact (hnack _ hrest).elim
  · exact (hnack _ hrest).elim
  · obtain ⟨-, rfl, -⟩ := hrest.raise_inv
    cases hlate
  · obtain ⟨dest, tmp, uid, gid, writes, hdest, huid, hgid, hfile, -⟩ := atomicWrite_ok hwrite
    obtain ⟨evs₃, hsend, -⟩ := hrest.bind_emit_inv
    refine ⟨dest, uid, gid, hdest, huid, hgid, ?_⟩
    rw [show w'.fs = w₁.fs from (send_inv hsend).1]
    exact Tree.file_eq_some_iff.mpr hfile

/-- **A transfer that ends in a write** has asked the policy, and has given the file to the ids of
the lookup. -/
theorem handleTransfer_wrote (hvalid : begin.Valid)
    (h : Runs (handleTransfer S begin) w evs v w') (hwrote : ∃ o ∈ evs, o.TellsWrite) :
    ∃ dest content uid gid ids,
      S.session.jail.resolve w.fs S.env.fuel S.env.lstatError begin.entry.path = some (.ok dest) ∧
      w'.fs.file dest = some (stagedFile S.env content begin.entry uid gid) ∧
      resolveOwner S begin.entry = .ok ids ∧
      lookupUid S.env.reprStr S.env.accounts begin.entry.uidName = .ok uid ∧
      lookupGid S.env.reprStr S.env.accounts begin.entry.gidName = .ok gid := by
  obtain ⟨o, ho, htells⟩ := hwrote
  rcases handleTransfer_cases hvalid h with hdown | hreaches
  · exact absurd htells (hdown.not_tellsWrite o ho)
  obtain ⟨chunks, commit, content, evs', -, -, -, -, rfl, -, result, ids, w₁, evs'', -, howner,
    htree, rfl, hrun⟩ := hreaches
  -- what came before the write was received or scanned
  have hlate : o ∈ evs'' := by
    rcases List.mem_append.mp ho with ho | ho
    · obtain ⟨m, -, rfl⟩ := List.mem_map.mp ho
      exact absurd htells id
    rcases List.mem_cons.mp ho with rfl | ho
    · exact absurd htells id
    rcases List.mem_cons.mp ho with rfl | ho
    · exact absurd htells id
    · exact ho
  obtain ⟨dest, uid, gid, hdest, huid, hgid, hfile⟩ := writeAndAck_wrote hrun ⟨o, hlate, htells⟩
  rw [show w₁.fs = w.fs from htree] at hdest
  exact ⟨dest, content, uid, gid, ids, hdest, hfile, howner, huid, hgid⟩

/-- An acknowledged transfer has ended in a write. -/
theorem tellsWrite_of_ack (hvalid : begin.Valid) (h : Runs (handleTransfer S begin) w evs v w')
    {ack : TransferAckMsg} (hack : sends evs = [.transferAck ack]) : ∃ o ∈ evs, o.TellsWrite := by
  rcases handleTransfer_inv hvalid h with hnone | ⟨reason, hnack, -⟩ | hacc
  · rw [hnone] at hack
    cases hack
  · rw [hnack] at hack
    cases hack
  · obtain ⟨chunks, commit, content, evs', -, -, -, -, rfl, -, result, -, -, evs'', -, -, -, rfl,
      dest, tmp, writes, f, -, -, -, -, rfl⟩ := hacc
    refine ⟨.audited (writeRecord S begin.entry content), ?_, trivial⟩
    simp

end Writes

/-- **When the policy is what gets applied.** For every database, every policy of the session and
every transfer that ends in a write: the owner and the group of the written file are the ids that
`resolve_uid` and `resolve_gid` return, and so not 0, if and only if the databases have the same id
for the owner name of the entry and for the local name that the policy gives it, and likewise for
the group name. -/
theorem owner_iff (S : Service) (begin : TransferBeginMsg) (w w' : World) (evs : List Event)
    (v : Except Exc Unit) (hvalid : begin.Valid) (h : Runs (handleTransfer S begin) w evs v w')
    (hwrote : ∃ o ∈ evs, o.TellsWrite) :
    ∃ dest f,
      S.session.jail.resolve w.fs S.env.fuel S.env.lstatError begin.entry.path = some (.ok dest) ∧
      w'.fs.file dest = some f ∧
      ((resolveUid S.env.reprStr S.env.accounts begin.entry.uidName S.session.uidPolicy = .ok f.uid
          ∧ f.uid ≠ 0) ∧
        (resolveGid S.env.reprStr S.env.accounts begin.entry.gidName S.session.gidPolicy =
          .ok f.gid ∧ f.gid ≠ 0) ↔
        S.env.accounts.getpwnam begin.entry.uidName =
            S.env.accounts.getpwnam (S.session.uidPolicy.localName begin.entry.uidName) ∧
          S.env.accounts.getgrnam begin.entry.gidName =
            S.env.accounts.getgrnam (S.session.gidPolicy.localName begin.entry.gidName)) := by
  obtain ⟨dest, content, uid, gid, ids, hdest, hfile, howner, huid, hgid⟩ :=
    handleTransfer_wrote hvalid h hwrote
  obtain ⟨hpolicyUid, hpolicyGid⟩ := resolveOwner_ok howner
  refine ⟨dest, stagedFile S.env content begin.entry uid gid, hdest, hfile, and_congr ?_ ?_⟩
  · exact resolveName_eq_lookupName_iff hpolicyUid huid
  · exact resolveName_eq_lookupName_iff hpolicyGid hgid

/-! ### A second name for root

The system of the sample has one account more, `toor`, with the id 0. The policy knows nothing of
it, and maps it to its default. -/

namespace Sample

/-- The accounts of the sample and `toor`. -/
def toorService : Service :=
  { service with
    env :=
      { env with
        accounts :=
          { getpwnam := fun name =>
              if name = lit "alice" then some 1000
              else if name = lit "toor" then some 0
              else none
            getgrnam := env.accounts.getgrnam } } }

/-- The file of the sample, sent in full under an owner name. -/
def ownedEntry (uidName : Str) : FileEntry := { entry.asFull with uidName := uidName }

theorem ownedEntry_valid {uidName : Str} (h : (validateNameNoNull uidName).Ok) :
    (ownedEntry uidName).Valid := { entry_valid.asFull with uidName := h }

theorem receives_ownedEntry {uidName : Str} (h : uidName = lit "alice" ∨ uidName = lit "toor") :
    Receives toorService tree (ownedEntry uidName) content [lit "srv", lit "notes"] where
  noFaults _ := rfl
  rapidhash := rfl
  clean clamd h := by cases h
  owner := by
    rcases h with rfl | rfl
    · exact ⟨⟨1000, by decide⟩, ⟨100, by decide⟩, ⟨1000, by decide⟩, ⟨100, by decide⟩⟩
    · exact ⟨⟨1000, by decide⟩, ⟨100, by decide⟩, ⟨0, by decide⟩, ⟨100, by decide⟩⟩
  time := receives.time
  resolved := receives.resolved
  writable := ⟨receives.writable.ne_root, receives.writable.parents, receives.writable.grants,
    receives.writable.notDir, receives.writable.fresh⟩

/-- The transfer of the file under either name ends in a write. -/
theorem ownedEntry_written {uidName : Str} (h : uidName = lit "alice" ∨ uidName = lit "toor") :
    ∃ begin w evs w', begin.Valid ∧ begin.entry = ownedEntry uidName ∧ w.fs = tree ∧
      Runs (handleTransfer toorService begin) w evs (.ok ()) w' ∧ ∃ o ∈ evs, o.TellsWrite := by
  have hname : (validateNameNoNull uidName).Ok := by
    rcases h with rfl | rfl
    · decide
    · decide
  have hentry := ownedEntry_valid hname
  have hvalid := (wireBegin_beginMessage 1 hentry content).valid
  obtain ⟨evs, w', f, hrun, hsends, -, -⟩ := handleTransfer_of_messages (receives_ownedEntry h)
    hentry (Or.inl ⟨rfl, rfl⟩) 1
    (w := ⟨tree, deliver _ (valid_of_mem_restMessages hentry content), 0⟩) rfl rfl
  exact ⟨_, _, evs, w', hvalid, rfl, rfl, hrun, tellsWrite_of_ack hvalid hrun hsends⟩

/-- Sent under a name that the policy keeps, the file goes to its owner. -/
theorem alice_owns : ∃ begin w evs w' f, begin.Valid ∧ begin.entry = ownedEntry (lit "alice") ∧
    Runs (handleTransfer toorService begin) w evs (.ok ()) w' ∧ (∃ o ∈ evs, o.TellsWrite) ∧
    w'.fs.file [lit "srv", lit "notes"] = some f ∧
    resolveUid toorService.env.reprStr toorService.env.accounts (lit "alice")
      toorService.session.uidPolicy = .ok f.uid := by
  obtain ⟨begin, w, evs, w', hvalid, hentry, hw, hrun, hwrote⟩ := ownedEntry_written (Or.inl rfl)
  obtain ⟨dest, f, hdest, hfile, hiff⟩ := owner_iff _ _ _ _ _ _ hvalid hrun hwrote
  rw [hentry, hw] at hdest
  cases (receives_ownedEntry (Or.inl rfl)).resolved.symm.trans hdest
  rw [hentry] at hiff
  exact ⟨begin, w, evs, w', f, hvalid, hentry, hrun, hwrote, hfile,
    (hiff.mpr ⟨by decide, by decide⟩).1.1⟩

/-- Sent under the other name of root, the file goes to root. -/
theorem root_owns : ∃ begin w evs w' f, begin.Valid ∧ begin.entry = ownedEntry (lit "toor") ∧
    Runs (handleTransfer toorService begin) w evs (.ok ()) w' ∧ (∃ o ∈ evs, o.TellsWrite) ∧
    w'.fs.file [lit "srv", lit "notes"] = some f ∧ f.uid = 0 ∧
    resolveUid toorService.env.reprStr toorService.env.accounts (lit "toor")
      toorService.session.uidPolicy = .ok 1000 := by
  obtain ⟨begin, w, evs, w', hvalid, hentry, hw, hrun, hwrote⟩ := ownedEntry_written (Or.inr rfl)
  obtain ⟨dest, content, uid, gid, ids, hdest, hfile, -, huid, -⟩ :=
    handleTransfer_wrote hvalid hrun hwrote
  rw [hentry, hw] at hdest
  cases (receives_ownedEntry (Or.inr rfl)).resolved.symm.trans hdest
  refine ⟨begin, w, evs, w', _, hvalid, hentry, hrun, hwrote, hfile, ?_, by decide⟩
  rw [hentry] at huid
  cases huid
  rfl

end Sample

end Chiralite
