import Chiralite.Crypto.ClientHandshake
import Chiralite.Sync.Reconcile

/-!
# A session of the client

`_run_silo_once` of `client.py`, once a connection has been made: the handshake, the start of the
watcher, the initial reconciliation and the forwarding of the watcher's events.

The index that is compared with the server's state is a fresh one. Nothing fills it from the local
directory, so the comparison finds nothing to send: `initialSync_sends` says that the engine sends
nothing before the first event of the watcher, and `catches_up_iff` that this is right exactly if
the server has every file already.

`perform_client_handshake` returns the codec of the session, and `_run_silo_once` does not hand it
to `framed.activate`. So `framed.send` raises, whatever the server does (`session_never_active`).
-/

namespace Chiralite

open Py Posix Effect

/-! ### The program -/

/-- `SiloClientConfig`; the blacklist is the predicate that `pathspec` makes of it. -/
structure SiloClientConfig where
  siloId : Uuid
  localPath : Location
  blocked : Str → Bool

/-- `FramedConnection`, as far as its codec is concerned. -/
structure FramedConnection where
  codec : Option PayloadCodec

/-- `FramedConnection.__init__`. -/
def FramedConnection.init : FramedConnection := ⟨none⟩

/-- A computation whose first call is `framed.send`: without a codec that call raises a
`FrameError`. -/
def FramedConnection.encrypted {α : Type} (framed : FramedConnection) (c : Io α) : Io α :=
  match framed.codec with
  | none => Eff.raise (.other (lit "cannot send encrypted frame: codec not activated"))
  | some _ => c

/-- `_write_event_to_entry`, the fields of the entry. -/
def writeEventToEntry (event : WriteEvent) (isFull : Bool) : FileEntry where
  path := event.path
  rapidhash := event.rapidhash
  size := event.size
  mode := event.mode
  uidName := event.uidName
  gidName := event.gidName
  mtimeS := event.mtimeS
  mtimeNs := event.mtimeNs
  isFull := isFull

section Program

variable (E : Env) (framed : FramedConnection) (cfg : SiloClientConfig)

/-- `abs_path.read_bytes()`, for a path below the local directory. -/
def readLocal (path : Str) : Io Bytes := do
  let w ← Eff.look
  match w.fs.resolveLocation E.fuel (joinPath cfg.localPath path) with
  | none => Eff.raise (.os .eloop (E.osText .eloop (joinPath cfg.localPath path)))
  | some p => readBytes E p

/-- The `except` clauses of `_send_entry` and `_dispatch_event`: a transfer that the server rejects
and a file that cannot be read are logged. -/
def orLogged {α : Type} (c : Io α) : Io Unit := do
  match ← Eff.attempt c with
  | .ok _ => pure ()
  | .error (.transfer _) => pure ()
  | .error (.os _ _) => pure ()
  | .error e => Eff.raise e

/-- `_send_entry`. -/
def sendEntry (entry : FileEntry) : Io Unit :=
  orLogged do
    let content ← readLocal E cfg entry.path
    framed.encrypted (sendWrite E entry content none)

/-- The loop over the entries of the diff. -/
def sendEntries : List FileEntry → Io Unit
  | [] => pure ()
  | entry :: rest => do
    sendEntry E framed cfg entry
    sendEntries rest

/-- **The initial reconciliation**, up to the first event of the watcher. -/
def initialSync : Io Unit := do
  let entries ←
    framed.encrypted (clientRequestSync E (SiloIndex.init cfg.siloId (lit "client")))
  sendEntries E framed cfg entries

/-- `_dispatch_event`, at a time. The constructors of the messages validate their fields, and raise
if these are not valid. -/
def dispatchEvent (nowNs : Int) : SyncEvent → Io Unit
  | .write event =>
    orLogged do
      let content ← readLocal E cfg event.path
      let entry := writeEventToEntry event true
      if entry.Valid then framed.encrypted (sendWrite E entry content none)
      else Eff.raise (.other (lit "validation error"))
  | .delete event =>
    orLogged do
      if (validateRelativePath event.path).Ok ∧ 0 ≤ nowNs then
        framed.encrypted (send E (.fileDelete ⟨event.path, nowNs⟩))
      else Eff.raise (.other (lit "validation error"))
  | .rename event =>
    orLogged do
      if (validateRelativePath event.oldPath).Ok ∧ (validateRelativePath event.newPath).Ok ∧
          0 ≤ nowNs then
        framed.encrypted (send E (.fileRename ⟨event.oldPath, event.newPath, nowNs⟩))
      else Eff.raise (.other (lit "validation error"))

/-- The loop over the events of the watcher that come before `stop` is seen, each at its time. -/
def forwardEvents : List (Int × SyncEvent) → Io Unit
  | [] => pure ()
  | (nowNs, event) :: rest => do
    dispatchEvent E framed cfg nowNs event
    forwardEvents rest

/-- `_run_silo_once` after the handshake. -/
def runSession (events : List (Int × SyncEvent)) : Io Unit := do
  -- `SiloWatcher.start`
  tick E
  initialSync E framed cfg
  forwardEvents E framed cfg events

end Program

/-! ### What the initial reconciliation sends -/

section Sends

variable {E : Env} {framed : FramedConnection} {cfg : SiloClientConfig} {w w' : World}
  {evs : List Event}

theorem diff_empty (remote : Dict Str FileEntrySnapshot) : diff Dict.empty remote = .ok [] := by
  unfold diff
  exact if_pos (fun e he => absurd he List.not_mem_nil)

/-- **With a fresh index**, the request is all that is sent, and there is nothing in the diff. -/
theorem clientRequestSync_fresh {siloId : Uuid} {nodeId : Str} {v : Except Exc (List FileEntry)}
    (h : Runs (clientRequestSync E (SiloIndex.init siloId nodeId)) w evs v w') :
    (∀ m ∈ sends evs, m = .syncRequest) ∧ ∀ entries, v = .ok entries → entries = [] := by
  obtain ⟨e, hsend, rfl⟩ | ⟨u, w₁, evs₁, evs₂, hsend, hrest, rfl⟩ := h.bind_inv
  · obtain ⟨-, ⟨e', -, rfl⟩ | ⟨hv, -⟩⟩ := send_inv hsend
    · exact ⟨fun m hm => absurd hm List.not_mem_nil, fun entries hv => by cases hv⟩
    · cases hv
  have hrequest : sends evs₁ = [.syncRequest] := by
    obtain ⟨-, ⟨e, hv, -⟩ | ⟨-, rfl⟩⟩ := send_inv hsend
    · cases hv
    · rfl
  rw [sends_append, hrequest]
  have hquiet : ∀ evs₃ v₃ w₃, Runs recv w₁ evs₃ v₃ w₃ → sends evs₃ = [] :=
    fun _ _ _ hrecv => sends_eq_nil (quietFrame_recv _ _ _ _ hrecv).2.1
  obtain ⟨e, hrecv, rfl⟩ | ⟨m, w₂, evs₃, evs₄, hrecv, hlast, rfl⟩ := hrest.bind_inv
  · rw [hquiet _ _ _ hrecv]
    exact ⟨by simp, fun entries hv => by cases hv⟩
  rw [sends_append, hquiet _ _ _ hrecv]
  split at hlast
  · -- whatever the state of the server, an empty index has nothing that differs
    rw [show (SiloIndex.init siloId nodeId).records = Dict.empty from rfl, diff_empty] at hlast
    obtain ⟨rfl, rfl, -⟩ := hlast.pure_inv
    refine ⟨by simp, ?_⟩
    rintro entries ⟨⟩
    rfl
  · obtain ⟨rfl, rfl, -⟩ := hlast.raise_inv
    exact ⟨by simp, fun entries hv => by cases hv⟩

/-- **Nothing is sent through the engine** before the first event of the watcher. -/
theorem initialSync_sends {v : Except Exc Unit} (h : Runs (initialSync E framed cfg) w evs v w') :
    ∀ m ∈ sends evs, m = .syncRequest := by
  unfold initialSync FramedConnection.encrypted at h
  cases hcodec : framed.codec with
  | none =>
    rw [hcodec] at h
    obtain ⟨e, hraise, -⟩ | ⟨entries, w₁, evs₁, evs₂, hraise, -⟩ := h.bind_inv
    · obtain ⟨-, rfl, -⟩ := hraise.raise_inv
      exact fun m hm => absurd hm List.not_mem_nil
    · cases hraise
  | some codec =>
    rw [hcodec] at h
    obtain ⟨e, hrequest, -⟩ | ⟨entries, w₁, evs₁, evs₂, hrequest, hrest, rfl⟩ := h.bind_inv
    · exact (clientRequestSync_fresh hrequest).1
    obtain ⟨hsends, hentries⟩ := clientRequestSync_fresh hrequest
    obtain rfl := hentries entries rfl
    obtain ⟨-, rfl, -⟩ := hrest.pure_inv
    rwa [List.append_nil]

/-- **The codec is never handed over**: a session fails at the start of the watcher, or with the
`FrameError` of the first message. -/
theorem session_never_active {events : List (Int × SyncEvent)} {v : Except Exc Unit}
    (h : Runs (runSession E .init cfg events) w evs v w') :
    (∃ fault, E.fault w.clock = some fault ∧ v = .error fault.exc) ∨
      (E.fault w.clock = none ∧
        v = .error (.other (lit "cannot send encrypted frame: codec not activated"))) := by
  obtain ⟨e, htick, rfl⟩ | ⟨u, w₁, evs₁, evs₂, htick, hrest, -⟩ := h.bind_inv
  · obtain ⟨-, -, ⟨hv, -⟩ | ⟨fault, hv, hfault⟩⟩ := tick_inv htick
    · cases hv
    · cases hv
      exact Or.inl ⟨fault, hfault, rfl⟩
  obtain ⟨-, -, ⟨-, hnone⟩ | ⟨fault, hv, -⟩⟩ := tick_inv htick
  swap
  · cases hv
  refine Or.inr ⟨hnone, ?_⟩
  obtain ⟨e, hsync, rfl⟩ | ⟨u', w₂, evs₃, evs₄, hsync, -⟩ := hrest.bind_inv
  · obtain ⟨e', hraise, he⟩ | ⟨entries, w₃, evs₅, evs₆, hraise, -⟩ := hsync.bind_inv
    · cases hraise
      cases he
      rfl
    · cases hraise
  · cases hsync

end Sends

/-! ### Catch-up -/

/-- A file below the local directory that is not on the blacklist, by its relative path. -/
def LocalFile (cfg : SiloClientConfig) (t : Tree) (path : Str) (content : Bytes) : Prop :=
  cfg.blocked path = false ∧ ∃ names f, names ≠ [] ∧ path = [sep].intercalate names ∧
    t.file (cfg.localPath ++ names) = some f ∧ f.content = content

/-- The server's state has no record of the content under the path. -/
def ServerLacks (m : SyncStateMsg) (path : Str) (content : Bytes) : Prop :=
  ∀ snapshot, (Dict.ofList m.records).get? path = some snapshot →
    snapshot.rapidhash ≠ rapidhash content

/-- **Catch-up**: every local file that the server lacks is sent. -/
def CatchesUp (cfg : SiloClientConfig) (t : Tree) (m : SyncStateMsg) (evs : List Event) : Prop :=
  ∀ path content, LocalFile cfg t path content → ServerLacks m path content →
    ∃ begin, .transferBegin begin ∈ sends evs ∧ begin.entry.path = path ∧
      begin.entry.rapidhash = rapidhash content

/-- **Catch-up on connect.** Whatever the local directory and the state of the server are, the
initial reconciliation sends every file that the server lacks exactly if the server lacks none. -/
theorem catches_up_iff (E : Env) (framed : FramedConnection) (cfg : SiloClientConfig) (w : World)
    (m : SyncStateMsg) :
    CatchesUp cfg w.fs m (initialSync E framed cfg w).events ↔
      ∀ path content, LocalFile cfg w.fs path content → ¬ ServerLacks m path content := by
  constructor
  · intro h path content hlocal hlacks
    obtain ⟨begin, hmem, -⟩ := h path content hlocal hlacks
    have hrequest := initialSync_sends (runs_self (initialSync E framed cfg) w) _ hmem
    cases hrequest
  · intro h path content hlocal hlacks
    exact absurd hlacks (h path content hlocal)

namespace Sample

/-- The directory `/srv` as the local directory of a client. -/
def siloConfig : SiloClientConfig := ⟨1, [lit "srv"], fun _ => false⟩

/-- The state of a server that has no file. -/
def emptyState : SyncStateMsg := ⟨1, lit "server", []⟩

/-- The client's world: `/srv/notes` exists, and the server's state has arrived. -/
def clientWorld : World :=
  { world with inbox := [.message (.syncState emptyState) (by simp [AnyMsg.Valid, emptyState])] }

/-- A connection with a codec. -/
def activeFramed : FramedConnection := ⟨some ⟨bytes32 1, bytes32 2, 0, 0⟩⟩

/-- **A file that was written while the client was not connected** is not sent, although the
reconciliation goes through and finds that the server has nothing. -/
theorem offline_file_not_sent :
    (initialSync env activeFramed siloConfig clientWorld).value.isOk = true ∧
      (initialSync env activeFramed siloConfig clientWorld).events =
        [.sent .syncRequest, .received (.syncState emptyState)] ∧
      ¬ CatchesUp siloConfig clientWorld.fs emptyState
        (initialSync env activeFramed siloConfig clientWorld).events := by
  refine ⟨rfl, rfl, fun h => ?_⟩
  have hlocal : LocalFile siloConfig clientWorld.fs (lit "notes") base :=
    ⟨rfl, [lit "notes"], ⟨base, 0o644, 1000, 100, 0⟩, by simp, rfl, rfl, rfl⟩
  have hlacks : ServerLacks emptyState (lit "notes") base := by
    intro snapshot hsnapshot
    cases hsnapshot
  obtain ⟨begin, hmem, -⟩ := h _ _ hlocal hlacks
  have hsent : .transferBegin begin ∈ [AnyMsg.syncRequest] := hmem
  simp at hsent

end Sample

end Chiralite
