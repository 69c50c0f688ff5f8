import Chiralite.Client.Session
import Chiralite.Server.PlainSilo
import Chiralite.Sync.Forwarding

/-!
# A silo and its replica

The whole way of a change: the watcher of `sync/watcher.py` reports it, `_dispatch_event` of
`client.py` sends it, and the handlers of `server.py` act on it. The parties run side by side. The
local files change at any time; the callback of a timer is one step, as in `Sync/Watcher.lean`, so
that none is overtaken; the client takes the next event whenever it gets to it, with the content
that its file has then; what it has sent is on the connection, in order, until the server takes it
in one turn of its loop.

`forwarded` are the messages of one event, and `dispatchEvent_forwarded` says that they are what the
client's program sends. The client waits for the answer to a transfer before it takes the next
event. Here it need not, so that every run of the program is one of the system, and there are
others.

The server is that of `Server/Session.lean`, on a silo without links (`PlainSilo`). One of its turns
does to the files of the silo what `Emission.forward` says (`serveTurn_flight`), and so the system
runs as the pipeline of `Sync/Forwarding.lean` does, with the messages on the connection as events
that have had their effect already. So whenever nothing is under way, the silo holds the local
files (`silo_converges`).
-/

namespace Chiralite

open Py Posix Effect Watcher

/-! ### The messages of an event -/

/-- What `_dispatch_event` puts on the connection, with a transfer's id and at a time: nothing, if
the file is gone or the fields of the message are not valid. -/
def forwarded (tid : Uuid) (nowNs : Int) (files : Str → Option FileData) :
    SyncEvent → List Incoming
  | .write w =>
    match files w.path with
    | none => []
    | some f =>
      if h : (writeEventToEntry w true).Valid then
        .message (.transferBegin (beginMessage tid (writeEventToEntry w true) f.content))
            (wireBegin_beginMessage tid h f.content).valid ::
          deliver (restMessages tid (writeEventToEntry w true) f.content)
            (valid_of_mem_restMessages h f.content)
      else []
  | .delete d =>
    if h : (validateRelativePath d.path).Ok ∧ 0 ≤ nowNs then
      [.message (.fileDelete ⟨d.path, nowNs⟩) h]
    else []
  | .rename r =>
    if h : (validateRelativePath r.oldPath).Ok ∧ (validateRelativePath r.newPath).Ok ∧
        0 ≤ nowNs then
      [.message (.fileRename ⟨r.oldPath, r.newPath, nowNs⟩) h]
    else []

section Client

variable {E : Env} {framed : FramedConnection} {cfg : SiloClientConfig} {paths : Set Str}
  {c : World} {codec : PayloadCodec}

/-- What is caught and logged has sent what it has sent. -/
theorem orLogged_events {α : Type} (body : Io α) (c : World) :
    (orLogged body c).events = (body c).events := by
  obtain ⟨r, c₁, evs₁, evs₂, hbody, hrest, heq⟩ :=
    (runs_self (orLogged body) c).bind_attempt_inv
  have hsilent : evs₂ = [] := by
    split at hrest
    · exact hrest.pure_inv.2.1
    · exact hrest.pure_inv.2.1
    · exact hrest.pure_inv.2.1
    · exact hrest.raise_inv.2.1
  rw [heq, hsilent, List.append_nil, show body c = ⟨r, evs₁, c₁⟩ from hbody]

/-- A file below the local directory is read, or the system says that there is none. -/
theorem readLocal_runs (hE : E.NoFaults) (hP : FilePaths E paths)
    (hplain : PlainSilo E ⟨cfg.localPath⟩ paths c.fs) {path : Str} (hp : path ∈ paths) :
    Runs (readLocal E cfg path) c []
      (match c.fs.file (cfg.localPath ++ components path) with
      | some f => .ok f.content
      | none => .error (.os .enoent (E.osText .enoent (cfg.localPath ++ components path))))
      c.tick := by
  have hrel : ¬ isAbsolute path = true := by
    rw [isAbsolute, beq_iff_eq]
    exact (validateRelativePath_ok_iff.mp (hP.valid path hp)).2.2.1
  have hself : c.fs.resolveLocation E.fuel (joinPath cfg.localPath path) =
      some (cfg.localPath ++ components path) := by
    rw [joinPath, if_neg hrel]
    exact Tree.resolveFrom_of_real (p := []) (hplain.real_dest hP hp) (hplain.fuel path hp)
  unfold readLocal
  refine Runs.look_bind ?_
  rw [hself]
  dsimp only
  rcases hplain.leaf path hp with hnone | ⟨f, hfile⟩
  · have hmissing : c.fs.lookupError (cfg.localPath ++ components path) = .enoent :=
      Tree.lookupError_eq_enoent (hplain.dirs path hp)
    rw [Tree.file, hnone]
    refine tick_bind hE (Runs.look_bind ?_)
    rw [World.tick_fs, hnone]
    dsimp only
    rw [if_pos (hplain.encodable path hp), hmissing]
    rfl
  · rw [Tree.file_eq_some_iff.mpr hfile]
    exact readBytes_runs hE hfile

/-- What `send_write` sends of a full entry, whatever it is answered. -/
theorem sends_sendWrite_full (hE : E.NoFaults) {entry : FileEntry} (hfull : entry.asFull = entry)
    (content : Bytes) (c : World) :
    sends (sendWrite E entry content none c).events =
      .transferBegin (beginMessage (E.uuid4 c.clock) entry content) ::
        restMessages (E.uuid4 c.clock) entry content := by
  have hsend : sendWrite E entry content none = doTransfer E entry content := by
    unfold sendWrite preparePayload
    dsimp only
    rw [hfull]
  obtain ⟨c₁, -, hrun⟩ := doTransfer_runs hE entry content c
  -- the answer comes after the last message
  have hawait := runs_self (awaitAck (E.uuid4 c.clock)) c₁
  have hquiet := (quietFrame_awaitAck _ _ _ _ _ hawait).2.1
  rw [hsend, show doTransfer E entry content c = _ from hrun _ _ _ hawait, sends_append,
    sends_map_sent, sends_eq_nil hquiet, List.append_nil]

/-- **The client's program sends the messages of the event**, with the content that its file has
when it gets to it. -/
theorem dispatchEvent_forwarded (hE : E.NoFaults) (hP : FilePaths E paths)
    (hplain : PlainSilo E ⟨cfg.localPath⟩ paths c.fs) (hcodec : framed.codec = some codec)
    {event : SyncEvent} (hknown : ∀ p ∈ event.names, p ∈ paths) (nowNs : Int) :
    ∃ tid hvalid, forwarded tid nowNs (fun p => c.fs.file (cfg.localPath ++ components p)) event =
      deliver (sends (dispatchEvent E framed cfg nowNs event c).events) hvalid := by
  have hactive : ∀ {α : Type} (body : Io α), framed.encrypted body = body := by
    intro α body
    rw [FramedConnection.encrypted, hcodec]
  have hone : ∀ m : AnyMsg, sends (send E m c).events = [m] := by
    intro m
    rw [show send E m c = _ from send_runs hE m]
    rfl
  cases event with
  | write w =>
    have hread := readLocal_runs hE hP hplain (hknown w.path List.mem_cons_self)
    refine ⟨E.uuid4 c.tick.clock, ?_⟩
    unfold forwarded dispatchEvent
    dsimp only
    rw [orLogged_events]
    cases hf : c.fs.file (cfg.localPath ++ components w.path) with
    | none =>
      -- there is no file to read
      rw [hf] at hread
      rw [Runs.events_bind_error hread]
      exact ⟨by simp, rfl⟩
    | some f =>
      rw [hf] at hread
      rw [Runs.events_bind hread, List.nil_append]
      dsimp only
      by_cases hvalid : (writeEventToEntry w true).Valid
      · rw [if_pos hvalid, dif_pos hvalid, hactive, sends_sendWrite_full hE rfl]
        refine ⟨List.forall_mem_cons.mpr ⟨?_, valid_of_mem_restMessages hvalid f.content⟩, rfl⟩
        exact (wireBegin_beginMessage _ hvalid f.content).valid
      · -- the entry does not validate: the exception is logged, and nothing is sent
        rw [if_neg hvalid, dif_neg hvalid]
        exact ⟨by simp [Eff.raise], rfl⟩
  | delete d =>
    refine ⟨0, ?_⟩
    unfold forwarded dispatchEvent
    dsimp only
    rw [orLogged_events]
    by_cases hvalid : (validateRelativePath d.path).Ok ∧ 0 ≤ nowNs
    · rw [if_pos hvalid, dif_pos hvalid, hactive, hone]
      exact ⟨List.forall_mem_singleton.mpr hvalid, rfl⟩
    · rw [if_neg hvalid, dif_neg hvalid]
      exact ⟨by simp [Eff.raise], rfl⟩
  | rename r =>
    refine ⟨0, ?_⟩
    unfold forwarded dispatchEvent
    dsimp only
    rw [orLogged_events]
    by_cases hvalid : (validateRelativePath r.oldPath).Ok ∧ (validateRelativePath r.newPath).Ok ∧
        0 ≤ nowNs
    · rw [if_pos hvalid, dif_pos hvalid, hactive, hone]
      exact ⟨List.forall_mem_singleton.mpr hvalid, rfl⟩
    · rw [if_neg hvalid, dif_neg hvalid]
      exact ⟨by simp [Eff.raise], rfl⟩

end Client

/-! ### The system -/

/-- A silo, how many of its events were sent, and the server. -/
structure System where
  silo : Silo
  taken : Nat
  server : World

namespace System

/-- Where a run begins: nothing is on the connection. -/
def start (files : Str → Option FileData) (t : Tree) (clock : Nat) : System :=
  ⟨Watcher.start files, 0, ⟨t, [], clock⟩⟩

/-- What can happen. -/
inductive Act where
  /-- On the side of the watcher. -/
  | here (a : Watcher.Act)
  /-- The client takes the next event, with the id that a transfer gets, at a time. -/
  | forward (tid : Uuid) (nowNs : Int)
  /-- The server takes the next message. -/
  | serve

/-- One step. -/
def step (C : Config) (S : Service) (s : System) : Act → System
  | .here a => { s with silo := Watcher.step C s.silo a }
  | .forward tid nowNs =>
    match s.silo.queue[s.taken]? with
    | none => s
    | some e =>
      { s with
        taken := s.taken + 1
        server := { s.server with
          inbox := s.server.inbox ++ forwarded tid nowNs s.silo.files e.event } }
  | .serve =>
    if s.server.inbox.isEmpty then s else { s with server := (serveTurn S s.server).state }

/-- The pipeline of the system, with given remote files. -/
def pipeline (s : System) (remote : Str → Option Bytes) : Pipeline :=
  { s.silo with taken := s.taken, remote := remote }

/-- A file is renamed within the silo only when no change to it is held back, not yet reported or
not yet sent, and local operations are on unblocked paths of the silo. -/
def Careful (C : Config) (paths : Set Str) (s : System) : Act → Prop
  | .here a => Pipeline.Within C paths (.here a) ∧
      Pipeline.Settled (s.pipeline fun _ => none) (.here a)
  | _ => True

/-- **What the server has to take.** The event has a valid entry, and if the file still has the
announced content, the server accepts it. -/
def Sendable (S : Service) (files : Str → Option FileData) : SyncEvent → Prop
  | .write w => ∀ f, files w.path = some f → (writeEventToEntry w true).Valid ∧
      (rapidhash f.content = w.rapidhash → Acceptable S (writeEventToEntry w true) f.content)
  | _ => True

/-- The client sends what the server takes. -/
def Served (S : Service) (s : System) : Act → Prop
  | .forward _ nowNs => 0 ≤ nowNs ∧
      ∀ e, s.silo.queue[s.taken]? = some e → Sendable S s.silo.files e.event
  | _ => True

/-- Nothing is under way: not on the client's side, and not on the connection. -/
def Quiet (s : System) : Prop :=
  s.silo.Quiet ∧ s.taken = s.silo.queue.length ∧ s.server.inbox = []

end System

/-! ### One turn of the server -/

/-- An event on the connection: its id and time, and the local files when it was sent. -/
structure Flight where
  tid : Uuid
  nowNs : Int
  files : Str → Option FileData
  event : Emission

/-- The messages of it. -/
def Flight.incoming (x : Flight) : List Incoming :=
  forwarded x.tid x.nowNs x.files x.event.event

/-- **An event that was sent**: something of it is on the connection, its paths are those of the
silo, and the server takes it. -/
structure Flight.Good (S : Service) (paths : Set Str) (x : Flight) : Prop where
  sent : x.incoming ≠ []
  known : ∀ p ∈ x.event.event.names, p ∈ paths
  sendable : System.Sendable S x.files x.event.event

/-- The remote files once everything on the connection has been taken. -/
def landed (flights : List Flight) (remote : Str → Option Bytes) : Str → Option Bytes :=
  flights.foldl (fun r x => x.event.forward x.files r) remote

section Turn

variable {S : Service} {paths : Set Str} {w : World} {x : Flight} {more : List Incoming}

/-- An event does the same to remote files that are the same on the paths of the silo. -/
theorem forward_congr {files : Str → Option FileData} {remote remote' : Str → Option Bytes}
    {e : Emission} (hknown : ∀ p ∈ e.event.names, p ∈ paths)
    (h : ∀ p ∈ paths, remote p = remote' p) :
    ∀ p ∈ paths, e.forward files remote p = e.forward files remote' p := by
  intro p hp
  obtain ⟨event, file⟩ := e
  cases event with
  | write w =>
    dsimp only [Emission.forward]
    cases files w.path with
    | none => exact h p hp
    | some f =>
      dsimp only
      split
      · simp only [Function.update_apply, h p hp]
      · exact h p hp
  | delete d =>
    dsimp only [Emission.forward]
    simp only [Function.update_apply, h p hp]
  | rename r =>
    dsimp only [Emission.forward]
    rw [move, move, h r.oldPath (hknown _ List.mem_cons_self)]
    cases remote' r.oldPath with
    | none => exact h p hp
    | some content =>
      dsimp only
      simp only [Function.update_apply, h p hp]

/-- What the files of a silo are after a rename, as the replica sees it. -/
theorem renamed_eq_move (files : Str → Option Bytes) (old new : Str) :
    renamed files old new = move files old new := by
  funext p
  unfold renamed move
  cases files old with
  | none => rfl
  | some content =>
    dsimp only
    simp only [Function.update_apply]

/-- The transfer of an event that the server takes. -/
theorem serveTurn_write (hE : S.env.NoFaults) (hP : FilePaths S.env paths)
    (hplain : PlainSilo S.env S.session.jail paths w.fs) {tid : Uuid} {event : WriteEvent}
    {f : FileData} (hp : event.path ∈ paths) (hvalid : (writeEventToEntry event true).Valid)
    (haccept : rapidhash f.content = event.rapidhash →
      Acceptable S (writeEventToEntry event true) f.content)
    (hinbox : w.inbox =
      .message (.transferBegin (beginMessage tid (writeEventToEntry event true) f.content))
          (wireBegin_beginMessage tid hvalid f.content).valid ::
        (deliver (restMessages tid (writeEventToEntry event true) f.content)
          (valid_of_mem_restMessages hvalid f.content) ++ more)) :
    ∃ evs w', Runs (serveTurn S) w evs (.ok ()) w' ∧ w'.inbox = more ∧
      PlainSilo S.env S.session.jail paths w'.fs ∧
      ∀ p ∈ paths, siloFiles S.session.jail w'.fs p =
        (if rapidhash f.content = event.rapidhash then
          Function.update (siloFiles S.session.jail w.fs) event.path (some f.content)
        else siloFiles S.session.jail w.fs) p := by
  have hdest : S.session.jail.resolve w.fs S.env.fuel S.env.lstatError
      (writeEventToEntry event true).path =
        some (.ok (S.session.jail.root ++ components event.path)) := hplain.resolve hP hp
  have hturn : ∀ {evs v w'}, Runs (checkAndWrite S tid (writeEventToEntry event true)
      ⟨tid, event.rapidhash⟩ f.content) { w.tick with inbox := more } evs v w' →
      ∃ evs', Runs (serveTurn S) w evs' v w' := by
    intro evs v w' hrun
    obtain ⟨evs', hhandler⟩ := handleTransfer_full
      (w := { w with
        inbox := deliver (restMessages tid (writeEventToEntry event true) f.content)
          (valid_of_mem_restMessages hvalid f.content) ++ more }) hE hvalid rfl rfl hdest hrun
    exact ⟨_, (recv_runs hinbox).bind hhandler⟩
  by_cases hhash : rapidhash f.content = event.rapidhash
  · -- the content is the announced one, and everything is checked
    have hwrite : ∃ evs w' g, Runs (checkAndWrite S tid (writeEventToEntry event true)
        ⟨tid, event.rapidhash⟩ f.content) { w.tick with inbox := more } evs (.ok ()) w' ∧
        w'.inbox = more ∧ g.content = f.content ∧
        PutAt (S.session.jail.root ++ components event.path) (some (.file g)) w.fs w'.fs :=
      checkAndWrite_putAt hE hhash (haccept hhash) hdest (hplain.writable hP hp)
    obtain ⟨evs, w', g, hrun, hin, hg, hput⟩ := hwrite
    obtain ⟨evs', hrun'⟩ := hturn hrun
    refine ⟨evs', w', hrun', hin, hplain.putAt hP hp (Or.inr ⟨g, rfl⟩) hput, fun p hmem => ?_⟩
    rw [if_pos hhash, Function.update_apply, siloFiles_putAt hP hp hput hmem, ← hg]
  · -- it is turned down
    obtain ⟨evs', hrun'⟩ := hturn (checkAndWrite_mismatch hE hhash)
    refine ⟨evs', _, hrun', rfl, hplain, fun p _ => ?_⟩
    rw [if_neg hhash]
    rfl

/-- **One turn takes one event**, and does to the files of the silo what the event says. -/
theorem serveTurn_flight (hE : S.env.NoFaults) (hP : FilePaths S.env paths)
    (hplain : PlainSilo S.env S.session.jail paths w.fs) (hx : x.Good S paths)
    (hinbox : w.inbox = x.incoming ++ more) :
    ∃ evs w', Runs (serveTurn S) w evs (.ok ()) w' ∧ w'.inbox = more ∧
      PlainSilo S.env S.session.jail paths w'.fs ∧
      ∀ p ∈ paths, siloFiles S.session.jail w'.fs p =
        x.event.forward x.files (siloFiles S.session.jail w.fs) p := by
  obtain ⟨tid, nowNs, files, event, file⟩ := x
  obtain ⟨hsent, hknown, hsendable⟩ := hx
  unfold Flight.incoming at hsent hinbox
  dsimp only at hsent hknown hsendable hinbox ⊢
  cases event with
  | write event =>
    have hp : event.path ∈ paths := hknown _ List.mem_cons_self
    dsimp only [Emission.forward]
    unfold forwarded at hsent hinbox
    dsimp only at hsent hinbox
    cases hf : files event.path with
    | none =>
      -- a write without a file sends nothing, and here something was sent
      rw [hf] at hsent
      exact absurd rfl hsent
    | some f =>
      -- the transfer, which the server turns down if the content has another hash
      rw [hf] at hinbox
      dsimp only at hinbox ⊢
      obtain ⟨hvalid, haccept⟩ := hsendable f hf
      rw [dif_pos hvalid] at hinbox
      exact serveTurn_write hE hP hplain hp hvalid haccept hinbox
  | delete event =>
    have hp : event.path ∈ paths := hknown _ List.mem_cons_self
    unfold forwarded at hsent hinbox
    dsimp only at hsent hinbox
    split at hinbox
    swap
    · rename_i hinvalid
      rw [dif_neg hinvalid] at hsent
      exact absurd rfl hsent
    -- the one entry is gone
    obtain ⟨evs, w', hrun, hin, hput⟩ := handleDelete_putAt (w := { w with inbox := more }) hE hP
      hplain hp nowNs
    refine ⟨_, w', (recv_runs hinbox).bind hrun, hin,
      hplain.putAt hP hp (Or.inl rfl) hput, fun p hmem => ?_⟩
    dsimp only [Emission.forward]
    rw [siloFiles_putAt hP hp hput hmem, Function.update_apply]
  | rename event =>
    have hold : event.oldPath ∈ paths := hknown _ List.mem_cons_self
    have hnew : event.newPath ∈ paths := hknown _ (List.mem_cons_of_mem _ List.mem_cons_self)
    unfold forwarded at hsent hinbox
    dsimp only at hsent hinbox
    split at hinbox
    swap
    · rename_i hinvalid
      rw [dif_neg hinvalid] at hsent
      exact absurd rfl hsent
    -- the file is moved, if there is one
    obtain ⟨evs, w', hrun, hin, hplain', hfiles⟩ := handleRename_renamed
      (w := { w with inbox := more }) hE hP hplain hold hnew nowNs
    refine ⟨_, w', (recv_runs hinbox).bind hrun, hin, hplain', fun p hmem => ?_⟩
    rw [hfiles p hmem, renamed_eq_move]
    rfl

end Turn

/-! ### The system follows the pipeline -/

namespace System

/-- **The invariant**: the pipeline's own, for the remote files that there will be once the server
has taken everything on the connection. -/
structure Follows (C : Config) (S : Service) (paths : Set Str) (s : System)
    (remote : Str → Option Bytes) (flights : List Flight) : Prop where
  pipeline : (s.pipeline remote).Inv C paths
  inbox : s.server.inbox = flights.flatMap Flight.incoming
  good : ∀ x ∈ flights, x.Good S paths
  plain : PlainSilo S.env S.session.jail paths s.server.fs
  remote : ∀ p ∈ paths, remote p = landed flights (siloFiles S.session.jail s.server.fs) p

section Follows

variable {C : Config} {S : Service} {paths : Set Str} {s : System} {remote : Str → Option Bytes}
  {flights : List Flight}

theorem landed_congr {remote remote' : Str → Option Bytes} (hgood : ∀ x ∈ flights, x.Good S paths)
    (h : ∀ p ∈ paths, remote p = remote' p) :
    ∀ p ∈ paths, landed flights remote p = landed flights remote' p := by
  induction flights generalizing remote remote' with
  | nil => exact h
  | cons x rest ih =>
    refine ih (fun y hy => hgood y (List.mem_cons_of_mem _ hy)) ?_
    exact forward_congr (hgood x List.mem_cons_self).known h

theorem landed_concat (flights : List Flight) (x : Flight) (remote : Str → Option Bytes) :
    landed (flights ++ [x]) remote = x.event.forward x.files (landed flights remote) := by
  unfold landed
  rw [List.foldl_append]
  rfl

/-- An event of which nothing is sent has no effect: its file is gone. -/
theorem forward_of_unsent (hP : FilePaths S.env paths) {tid : Uuid} {nowNs : Int}
    {files : Str → Option FileData} {e : Emission} (hnow : 0 ≤ nowNs)
    (hknown : ∀ p ∈ e.event.names, p ∈ paths) (hsendable : Sendable S files e.event)
    (h : forwarded tid nowNs files e.event = []) : e.forward files remote = remote := by
  obtain ⟨event, file⟩ := e
  cases event with
  | write w =>
    dsimp only [Emission.forward]
    cases hf : files w.path with
    | none => rfl
    | some f =>
      -- its entry is valid, and so there would be something
      unfold forwarded at h
      dsimp only at h
      rw [hf] at h
      dsimp only at h
      rw [dif_pos (hsendable f hf).1] at h
      cases h
  | delete d =>
    unfold forwarded at h
    dsimp only at h
    rw [dif_pos ⟨hP.valid _ (hknown _ List.mem_cons_self), hnow⟩] at h
    cases h
  | rename r =>
    have hold := hP.valid _ (hknown _ List.mem_cons_self)
    have hnew := hP.valid _ (hknown _ (List.mem_cons_of_mem _ List.mem_cons_self))
    unfold forwarded at h
    dsimp only at h
    rw [dif_pos ⟨hold, hnew, hnow⟩] at h
    cases h

/-- The client takes the next event. -/
theorem Follows.forward (hP : FilePaths S.env paths) (h : Follows C S paths s remote flights)
    {tid : Uuid} {nowNs : Int} (hserved : Served S s (.forward tid nowNs)) :
    ∃ remote' flights', Follows C S paths (step C S s (.forward tid nowNs)) remote' flights' := by
  unfold step
  cases hnext : s.silo.queue[s.taken]? with
  | none => exact ⟨remote, flights, h⟩
  | some e =>
    obtain ⟨hnow, hsendable⟩ := hserved
    have hstep : (Pipeline.step C (s.pipeline remote) .forward).Inv C paths :=
      h.pipeline.step ⟨trivial, trivial⟩
    have hrun : Pipeline.step C (s.pipeline remote) .forward =
        { s.silo with taken := s.taken + 1, remote := e.forward s.silo.files remote } := by
      show (match s.silo.queue[s.taken]? with
        | none => s.pipeline remote
        | some e => { s.pipeline remote with
            taken := s.taken + 1
            remote := e.forward s.silo.files remote }) = _
      rw [hnext]
      rfl
    rw [hrun] at hstep
    -- the paths of an event that is still to be forwarded are those of the silo
    have hknown : ∀ p ∈ e.event.names, p ∈ paths := by
      intro p hp
      refine h.pipeline.consistent.known p (Or.inl ?_)
      have hout : (s.pipeline remote).out = e :: s.silo.queue.drop (s.taken + 1) := by
        show s.silo.queue.drop s.taken = _
        rw [List.drop_eq_getElem?_toList_append, hnext]
        rfl
      rw [hout]
      exact mem_namedBy_cons.mpr (Or.inl hp)
    have hremote : ∀ p ∈ paths, e.forward s.silo.files remote p =
        e.forward s.silo.files (landed flights (siloFiles S.session.jail s.server.fs)) p :=
      forward_congr hknown h.remote
    by_cases hsent : forwarded tid nowNs s.silo.files e.event = []
    · -- nothing is sent
      have hskip : e.forward s.silo.files
          (landed flights (siloFiles S.session.jail s.server.fs)) =
          landed flights (siloFiles S.session.jail s.server.fs) :=
        forward_of_unsent hP hnow hknown (hsendable e hnext) hsent
      refine ⟨_, flights, hstep, ?_, h.good, h.plain, fun p hp => ?_⟩
      · show s.server.inbox ++ forwarded tid nowNs s.silo.files e.event = _
        rw [hsent, List.append_nil]
        exact h.inbox
      · rw [hremote p hp]
        exact congrFun hskip p
    · refine ⟨_, flights ++ [⟨tid, nowNs, s.silo.files, e⟩], hstep, ?_, fun x hx => ?_, h.plain,
        fun p hp => ?_⟩
      · show s.server.inbox ++ forwarded tid nowNs s.silo.files e.event = _
        rw [h.inbox, List.flatMap_append, List.flatMap_cons, List.flatMap_nil, List.append_nil]
        rfl
      · rcases List.mem_append.mp hx with hx | hx
        · exact h.good x hx
        · rw [List.mem_singleton.mp hx]
          exact ⟨hsent, hknown, hsendable e hnext⟩
      · rw [hremote p hp, landed_concat]

/-- The server takes the next message, and with it all of its event. -/
theorem Follows.serve (hE : S.env.NoFaults) (hP : FilePaths S.env paths)
    (h : Follows C S paths s remote flights) :
    ∃ flights', Follows C S paths (step C S s .serve) remote flights' := by
  unfold step
  cases flights with
  | nil =>
    have hempty : s.server.inbox.isEmpty = true := by
      rw [h.inbox]
      rfl
    rw [if_pos hempty]
    exact ⟨[], h⟩
  | cons x rest =>
    have hx := h.good x List.mem_cons_self
    have hinbox : s.server.inbox = x.incoming ++ rest.flatMap Flight.incoming := h.inbox
    have hnonempty : ¬ s.server.inbox.isEmpty = true := by
      rw [List.isEmpty_iff, hinbox, List.append_eq_nil_iff, not_and_or]
      exact Or.inl hx.sent
    rw [if_neg hnonempty]
    obtain ⟨evs, w', hrun, hin, hplain, hfiles⟩ := serveTurn_flight hE hP h.plain hx hinbox
    have hstate : (serveTurn S s.server).state = w' := by
      rw [show serveTurn S s.server = ⟨.ok (), evs, w'⟩ from hrun]
    have hrest : ∀ y ∈ rest, y.Good S paths := fun y hy => h.good y (List.mem_cons_of_mem _ hy)
    rw [hstate]
    refine ⟨rest, h.pipeline, hin, hrest, hplain, fun p hp => ?_⟩
    -- what the event was to do is done
    calc remote p = landed rest (x.event.forward x.files
          (siloFiles S.session.jail s.server.fs)) p := h.remote p hp
      _ = landed rest (siloFiles S.session.jail w'.fs) p :=
          landed_congr hrest (fun q hq => (hfiles q hq).symm) p hp

/-- **Every step keeps the invariant.** -/
theorem Follows.step (hE : S.env.NoFaults) (hP : FilePaths S.env paths)
    (h : Follows C S paths s remote flights) {a : Act} (hcareful : Careful C paths s a)
    (hserved : Served S s a) :
    ∃ remote' flights', Follows C S paths (System.step C S s a) remote' flights' := by
  cases a with
  | here a => exact ⟨remote, flights, h.pipeline.step hcareful, h.inbox, h.good, h.plain, h.remote⟩
  | forward tid nowNs => exact h.forward hP hserved
  | serve =>
    obtain ⟨flights', h'⟩ := h.serve hE hP
    exact ⟨remote, flights', h'⟩

end Follows

end System

namespace Sample

/-- The document after a change. -/
def changed : FileData := ⟨content, 0o644, 1000, 100, 5⟩

/-- The document is changed, which is reported, and the timer fires. -/
def change : List System.Act :=
  [.here (.op (.write (lit "notes") changed)), .here .report, .here (.fire (lit "notes"))]

end Sample

end Chiralite
