import Chiralite.Server.Transfer

/-!
# Whole sessions of the server

`_serve_session` of `server.py`: the sync exchange, and then a loop that takes one message after
another and hands it to its handler. The loop has no end of its own; `serveTurns S n` is its first
`n` rounds, so that a statement for all `n` speaks of sessions of any length, and of those that
never end. A round that raises ends the session.

A `Turn` is one round seen from outside: the message that was taken, the worlds in front of it and
after it, and its events. `session_sound` cuts the trace of a session into the sync exchange and
its turns, and says of each turn what it sent and what that goes with.
-/

namespace Chiralite

open Py Posix Effect

/-! ### The program -/

instance (e : FileEntrySnapshot) : Decidable e.Valid :=
  decidable_of_iff (RapidHashInt e.rapidhash ∧ FileSizeInt e.size ∧ FileModeInt e.mode ∧
    MtimeNsInt e.mtimeNs ∧ 0 ≤ e.recvTsNs)
    ⟨fun ⟨h₁, h₂, h₃, h₄, h₅⟩ => ⟨h₁, h₂, h₃, h₄, h₅⟩,
      fun ⟨h₁, h₂, h₃, h₄, h₅⟩ => ⟨h₁, h₂, h₃, h₄, h₅⟩⟩

/-- The wire form of a record: a row of `to_snapshot`. -/
def FileRecord.snapshot (r : FileRecord) : FileEntrySnapshot where
  rapidhash := r.rapidhash
  size := r.size
  mode := r.mode
  uidName := r.uidName
  gidName := r.gidName
  mtimeS := r.mtimeS
  mtimeNs := r.mtimeNs
  recvTsNs := r.recvTsNs
  deleted := r.deleted

section Program

variable (S : Service)

/-- `server_handle_sync_request`. -/
def serverHandleSyncRequest : Io Unit := do
  match ← recv with
  | .syncRequest => do
    let records := S.index.records.items.map fun kv => (kv.1, kv.2.snapshot)
    -- `FileEntrySnapshot.model_validate`
    if ∀ kv ∈ records, kv.2.Valid then
      send S.env (.syncState ⟨S.index.siloId, S.index.nodeId, records⟩)
    else Eff.raise (.other (lit "validation error"))
  | m => Eff.raise (.reconcile (lit "expected SYNC_REQUEST, got " ++ m.typeName))

/-- `_handle_delete`. -/
def handleDelete (msg : FileDeleteMsg) : Io Unit := do
  match ← Eff.attempt (jailResolve S.env S.session.jail msg.path) with
  | .error (.jailbreak _) =>
    audit (.pathTraversal S.session.clientCn S.session.siloId msg.path)
  | .error e => Eff.raise e
  | .ok absPath => do
    match ← Eff.attempt (unlinkMissingOk S.env absPath) with
    -- the failure is logged, and the client does not hear of it
    | .error (.os _ _) => pure ()
    | .error e => Eff.raise e
    | .ok () => audit (.fileDelete S.session.clientCn S.session.siloId msg.path)

/-- The two ends of a rename, resolved one after the other. -/
def resolveEnds (msg : FileRenameMsg) : Io (Location × Location) := do
  let src ← jailResolve S.env S.session.jail msg.oldPath
  let dst ← jailResolve S.env S.session.jail msg.newPath
  pure (src, dst)

/-- The `try` of `_handle_rename` that changes the file system. -/
def moveEntry (src dst : Location) : Io Unit := do
  mkdirParents S.env dst.dropLast.reverse
  fsCall S.env (.rename dst) src fun t => t.rename src dst

/-- `_handle_rename`. -/
def handleRename (msg : FileRenameMsg) : Io Unit := do
  match ← Eff.attempt (resolveEnds S msg) with
  | .error (.jailbreak _) =>
    -- the record names the old path, also when the new one is to blame
    audit (.pathTraversal S.session.clientCn S.session.siloId msg.oldPath)
  | .error e => Eff.raise e
  | .ok (src, dst) => do
    match ← Eff.attempt (moveEntry S src dst) with
    | .error (.os _ _) => pure ()
    | .error e => Eff.raise e
    | .ok () => audit (.fileRename S.session.clientCn S.session.siloId msg.oldPath msg.newPath)

/-- The handler of a message. -/
def dispatch : AnyMsg → Io Unit
  | .transferBegin begin => handleTransfer S begin
  | .fileDelete msg => handleDelete S msg
  | .fileRename msg => handleRename S msg
  -- ignored; so are the chunks and commits of a transfer that was given up
  | _ => pure ()

/-- One round of the loop. -/
def serveTurn : Io Unit := do
  let msg ← recv
  dispatch S msg

/-- The first `n` rounds of the loop. -/
def serveTurns : Nat → Io Unit
  | 0 => pure ()
  | n + 1 => do
    serveTurn S
    serveTurns n

end Program

/-- The service of a session: a silo without an index gets a new one. -/
def serviceOf (E : Env) (session : SiloSession) (index : Option SiloIndex) : Service where
  env := E
  session := session
  index := index.getD (SiloIndex.init session.siloId (lit "server"))

/-- `_serve_session`, up to the `n`-th round of its loop. -/
def serveSession (E : Env) (session : SiloSession) (index : Option SiloIndex) (n : Nat) :
    Io Unit := do
  serverHandleSyncRequest (serviceOf E session index)
  serveTurns (serviceOf E session index) n

/-! ### Handlers that do not answer -/

/-- The frame of what sends nothing. -/
def silentFrame : Frame World Event Exc where
  change _ _ := True
  refl _ := trivial
  trans _ _ _ _ _ := trivial
  event o := o.sent? = none
  exception _ := True

section Silent

variable {S : Service}

theorem silentFrame_of_quiet {α : Type} {c : Io α} (h : quietFrame.Allows c) :
    silentFrame.Allows c :=
  h.mono (fun _ _ _ => trivial) (fun _ ho => ho) fun _ _ => trivial

theorem silentFrame_unlinkMissingOk (p : Location) :
    silentFrame.Allows (unlinkMissingOk S.env p) := by
  intro w evs v w' h
  refine ⟨trivial, fun o ho => ?_, fun _ _ => trivial⟩
  rw [(unlinkMissingOk_inv h).1 o ho]
  rfl

theorem silentFrame_moveEntry (src dst : Location) :
    silentFrame.Allows (moveEntry S src dst) := by
  refine Frame.Allows.bind ?_ fun _ => ?_
  · refine (mkdirFrame_mkdirParents _).mono (fun _ _ _ => trivial) ?_ fun _ _ => trivial
    rintro o ⟨q, rfl⟩
    rfl
  · exact allows_fsCall (fun _ _ _ => trivial) (fun _ _ => trivial) rfl fun _ _ _ => trivial

theorem silentFrame_handleDelete (msg : FileDeleteMsg) :
    silentFrame.Allows (handleDelete S msg) := by
  refine (silentFrame_of_quiet quietFrame_jailResolve).bind_attempt fun r _ => ?_
  split
  · exact silentFrame_of_quiet (quietFrame_audit _)
  · exact Frame.allows_raise trivial
  · refine (silentFrame_unlinkMissingOk _).bind_attempt fun r _ => ?_
    split
    · exact Frame.allows_pure _
    · exact Frame.allows_raise trivial
    · exact silentFrame_of_quiet (quietFrame_audit _)

theorem silentFrame_handleRename (msg : FileRenameMsg) :
    silentFrame.Allows (handleRename S msg) := by
  have hends : quietFrame.Allows (resolveEnds S msg) :=
    quietFrame_jailResolve.bind fun _ => quietFrame_jailResolve.bind fun _ =>
      Frame.allows_pure _
  refine (silentFrame_of_quiet hends).bind_attempt fun r _ => ?_
  split
  · exact silentFrame_of_quiet (quietFrame_audit _)
  · exact Frame.allows_raise trivial
  · refine (silentFrame_moveEntry _ _).bind_attempt fun r _ => ?_
    split
    · exact Frame.allows_pure _
    · exact Frame.allows_raise trivial
    · exact silentFrame_of_quiet (quietFrame_audit _)

/-- Only a `TRANSFER_BEGIN` is answered. -/
theorem silentFrame_dispatch {m : AnyMsg} (h : ∀ begin, m ≠ .transferBegin begin) :
    silentFrame.Allows (dispatch S m) := by
  unfold dispatch
  split
  -- the one kind of message that is left out
  · exact absurd rfl (h _)
  · exact silentFrame_handleDelete _
  · exact silentFrame_handleRename _
  · exact Frame.allows_pure _

end Silent

/-! ### Turns -/

/-- One round of the loop in which a message was taken. -/
structure Turn where
  taken : AnyMsg
  before : World
  after : World
  events : List Event

/-- The turn is a run of one round, in which the message was taken first. -/
def Turn.Ran (S : Service) (turn : Turn) : Prop :=
  (∃ v, Runs (serveTurn S) turn.before turn.events v turn.after) ∧
    ∃ rest, turn.events = .received turn.taken :: rest

/-- Turns one after another, from a world on. -/
inductive TurnsFrom (S : Service) : World → List Turn → Prop
  | nil (w : World) : TurnsFrom S w []
  | cons {turn : Turn} {turns : List Turn} (hran : turn.Ran S)
      (hrest : TurnsFrom S turn.after turns) : TurnsFrom S turn.before (turn :: turns)

/-- **What a turn may send, and what that goes with.** A turn on a `TRANSFER_BEGIN` sends nothing,
or one NACK with its id, after which the regular files are what they were before the turn (unless
a temporary name that `uuid4` drew was taken already), or one ACK with its id, and then the
transfer was accepted. Any other turn sends nothing. -/
def Turn.Sound (S : Service) (turn : Turn) : Prop :=
  match turn.taken with
  | .transferBegin begin =>
    sends turn.events = [] ∨
      (∃ reason, sends turn.events = [.transferNack ⟨begin.transferId, reason⟩] ∧
        (FreshNames turn.events → SameFiles turn.before turn.after)) ∨
      ∃ text rest, sends turn.events = [.transferAck ⟨begin.transferId, text⟩] ∧
        turn.events = .received (.transferBegin begin) :: rest ∧
        Accepted S begin turn.before turn.after rest
  | _ => sends turn.events = []

section Soundness

variable {S : Service} {w w' : World} {evs : List Event}

/-- **One round**: the message could not be read, and there is no event; or it is a sound turn. -/
theorem serveTurn_inv {v : Except Exc Unit} (h : Runs (serveTurn S) w evs v w') :
    ((∃ e, v = .error e) ∧ evs = []) ∨
      ∃ turn : Turn, turn.before = w ∧ turn.after = w' ∧ turn.events = evs ∧ turn.Ran S ∧
        turn.Sound S := by
  rcases h.bind_inv with ⟨e, hrecv, rfl⟩ | ⟨m, w₁, evs₁, evs₂, hrecv, hrest, rfl⟩
  · obtain ⟨-, ⟨text, -, rfl⟩ | ⟨m, hv, -⟩⟩ := recv_inv hrecv
    · exact Or.inl ⟨⟨e, rfl⟩, rfl⟩
    · cases hv
  obtain ⟨htree, ⟨text, hv, -⟩ | ⟨m', hv, hvalid, rfl⟩⟩ := recv_inv hrecv
  · cases hv
  cases hv
  refine Or.inr ⟨⟨m, w, w', [.received m] ++ evs₂⟩, rfl, rfl, rfl, ⟨⟨v, h⟩, evs₂, rfl⟩, ?_⟩
  unfold Turn.Sound
  dsimp only
  split
  · rename_i begin
    -- the handler starts in the tree that the turn started in
    rcases handleTransfer_inv hvalid hrest with hnone | ⟨reason, hnack, hfiles⟩ | hacc
    · exact Or.inl hnone
    · refine Or.inr (Or.inl ⟨reason, hnack, fun hfresh => ?_⟩)
      exact htree.sameFiles.trans (hfiles hfresh.right)
    · obtain ⟨text, hsends⟩ := hacc.sends_eq
      exact Or.inr (Or.inr ⟨text, evs₂, hsends, rfl, hacc.of_sameTree htree⟩)
  · rename_i hother
    have hsilent := (silentFrame_dispatch (S := S) hother _ _ _ _ hrest).2.1
    rw [sends_append]
    exact sends_eq_nil hsilent

/-- The loop's trace is the trace of its turns, and each of them is sound. -/
theorem serveTurns_inv {n : Nat} {v : Except Exc Unit} (h : Runs (serveTurns S n) w evs v w') :
    ∃ turns, evs = turns.flatMap Turn.events ∧ TurnsFrom S w turns ∧
      ∀ turn ∈ turns, turn.Sound S := by
  -- on the rounds: the first one is a turn, or has no events
  induction n generalizing w evs with
  | zero =>
    obtain ⟨-, rfl, -⟩ := h.pure_inv
    exact ⟨[], rfl, .nil w, by simp⟩
  | succ n ih =>
    rcases h.bind_inv with ⟨e, hturn, -⟩ | ⟨_, w₁, evs₁, evs₂, hturn, hrest, rfl⟩
    · -- the session ends in this round
      rcases serveTurn_inv hturn with ⟨-, rfl⟩ | ⟨turn, rfl, -, rfl, hran, hsound⟩
      · exact ⟨[], rfl, .nil w, by simp⟩
      · exact ⟨[turn], by simp, .cons hran (.nil _), by simpa using hsound⟩
    · rcases serveTurn_inv hturn with ⟨⟨e, hv⟩, -⟩ | ⟨turn, rfl, rfl, rfl, hran, hsound⟩
      · cases hv
      · obtain ⟨turns, rfl, hturns, hall⟩ := ih hrest
        refine ⟨turn :: turns, rfl, .cons hran hturns, ?_⟩
        intro t ht
        rcases List.mem_cons.mp ht with rfl | ht
        · exact hsound
        · exact hall t ht

end Soundness

/-- **Sessions are sound.** Whatever the client sends, whatever the scanner answers and whichever
calls fail: the trace of a session is that of the sync exchange followed by turns, one for each
message taken, and every turn is sound. So nothing is sent but the replies of the turns, at most
one for a `TRANSFER_BEGIN` and with its id; an ACK ends a turn in which the announced chunks and a
commit came in, their content had the committed hash, was scanned clean and accepted by the owner
policy, and was put at the resolved path and audited; and a NACK leaves the regular files as they
were. -/
theorem session_sound (E : Env) (session : SiloSession) (index : Option SiloIndex) (n : Nat)
    (w : World) :
    ∃ syncEvents turns,
      (serveSession E session index n w).events = syncEvents ++ turns.flatMap Turn.events ∧
      (∃ v w₁, Runs (serverHandleSyncRequest (serviceOf E session index)) w syncEvents v w₁ ∧
        TurnsFrom (serviceOf E session index) w₁ turns) ∧
      ∀ turn ∈ turns, turn.Sound (serviceOf E session index) := by
  rcases (runs_self (serveSession E session index n) w).bind_inv with
    ⟨e, hsync, -⟩ | ⟨_, w₁, evs₁, evs₂, hsync, hturns, heq⟩
  · exact ⟨_, [], by simp, ⟨_, _, hsync, .nil _⟩, by simp⟩
  · obtain ⟨turns, rfl, hfrom, hall⟩ := serveTurns_inv hturns
    exact ⟨evs₁, turns, heq, ⟨_, w₁, hsync, hfrom⟩, hall⟩

end Chiralite
