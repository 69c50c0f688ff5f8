import Chiralite.Client.Session

/-!
# Reconnecting

`_run_silo_with_retry` of `client.py`: one attempt after another, until `stop` is called or the
task is cancelled. An attempt is `_connect_transport` and then `_run_silo_once` on the connection.

The loop catches `HandshakeError`, `ConnectionLost`, `ConnectionLostHttp` and `OSError`. What the
peer can bring about is more: a WebSocket that is closed raises `ConnectionClosed`, a text frame
`TypeError`, a message that is not valid `ValidationError`, an ephemeral key that gives no session
key `SessionError`; and a handshake that succeeds leads to the `FrameError` of a connection without
a codec. Each of these ends the task.

`survivable_iff` says which attempts are followed by another one, and `silo_survives_iff` which
runs of the task never end by an exception: those in which every attempt that is made is of that
kind.

`connect_with_retry` is called without a bound on its tries, so it raises no `ConnectionLost`, and
the client never comes to use HTTP (`connectTransport_websocket`). A proxy that refuses the upgrade
is tried again and again: `falls_back_iff` says that the fallback is as it should be exactly where
it is not called for.
-/

namespace Chiralite

open Py Effect Run

/-! ### Connecting -/

/-- What `_connect_transport` has come to. -/
inductive Connecting where
  | connected
  /-- Neither returned nor raised yet. -/
  | trying
  /-- `ConnectionLost`. -/
  | lost (text : Str)
  deriving DecidableEq

/-- The arguments of `ChiraliteClient`, for one silo. -/
structure SiloClient where
  lib : CryptoLib
  handshake : ClientConfig
  silo : SiloClientConfig
  httpBaseUrl : Option Str
  /-- `_is_upgrade_refusal`. -/
  isUpgradeRefusal : Str → Bool
  /-- The text of the `ConnectionLost` of `connect_with_retry` after a number of tries. -/
  gaveUpText : Nat → Str

/-- `WebSocketClient.connect_with_retry`, after some tries, on the outcomes of the next ones:
`none` for a connection, else the text of the `ConnectionLost` of `connect`. -/
def connectWithRetry (C : SiloClient) (maxRetries : Option Nat) :
    Nat → List (Option Str) → Connecting
  | _, [] => .trying
  | _, none :: _ => .connected
  | attempt, some _ :: rest =>
    if maxRetries.any fun n => decide (n ≤ attempt + 1) then .lost (C.gaveUpText (attempt + 1))
    else connectWithRetry C maxRetries (attempt + 1) rest

/-- `_connect_http`. `from_handshake` waits for a HELLO on the pipe that it has not returned
yet. -/
def connectHttp (C : SiloClient) : Connecting :=
  match C.httpBaseUrl with
  | none | some [] => .lost (lit "HTTP SSE fallback not configured")
  | some (_ :: _) => .trying

/-- `_connect_transport`, with `_http_mode` before and after. -/
def connectTransport (C : SiloClient) (httpMode : Bool) (tries : List (Option Str)) :
    Connecting × Bool :=
  if httpMode then (connectHttp C, true)
  else
    match connectWithRetry C none 0 tries with
    | .lost text =>
      if C.httpBaseUrl.getD [] ≠ [] ∧ C.isUpgradeRefusal text then (connectHttp C, true)
      else (.lost text, false)
    | result => (result, false)

/-! ### `_run_silo_once` -/

/-- The connection and the world of the client. -/
structure SiloWorld where
  plain : PlainWorld
  io : World

inductive SiloEvent where
  | plain (e : PlainEvent)
  | io (e : Event)

inductive SiloExn where
  | handshake (e : Raised)
  | session (e : Exc)
  deriving DecidableEq

/-- The exceptions that the loop catches. A session runs on a WebSocket, and what its receives
raise is not among them. -/
def SiloExn.Reconnects : SiloExn → Prop
  | .handshake e => e.Reconnects
  | .session (.os _ _) => True
  | .session _ => False

instance : DecidablePred SiloExn.Reconnects
  | .handshake e => inferInstanceAs (Decidable e.Reconnects)
  | .session (.os _ _) => isTrue trivial
  | .session (.recvFailed _) => isFalse id
  | .session (.jailbreak _) => isFalse id
  | .session (.patch _) => isFalse id
  | .session (.write _) => isFalse id
  | .session (.reconcile _) => isFalse id
  | .session (.transfer _) => isFalse id
  | .session (.other _) => isFalse id

/-- What the world decides in one attempt. -/
structure SiloAttempt where
  /-- The outcomes of the tries to connect. -/
  tries : List (Option Str)
  plain : PlainEnv
  random : ClientRandom
  env : Env
  world : World
  /-- The events of the watcher until `stop` is seen. -/
  events : List (Int × SyncEvent)

/-- `_run_silo_once`, on a connection. -/
def runSiloOnce (C : SiloClient) (A : SiloAttempt) :
    Eff SiloWorld SiloEvent SiloExn Unit := do
  let _ ← Eff.within SiloWorld.plain (fun p w => { w with plain := p }) .plain .handshake
    (performClientHandshake C.lib A.plain C.handshake A.random)
  -- the codec of the result is not handed to the connection
  Eff.within SiloWorld.io (fun p w => { w with io := p }) .io .session
    (runSession A.env .init C.silo A.events)

/-- How an attempt ended that had a connection. -/
def attemptResult (C : SiloClient) (A : SiloAttempt) : Except SiloExn Unit :=
  (runSiloOnce C A ⟨.start, A.world⟩).value

/-! ### `_run_silo_with_retry` -/

/-- How the task of a silo ends. -/
inductive SiloEnd where
  | stopped
  | cancelled
  | escaped (e : SiloExn)
  deriving DecidableEq

/-- The task of a silo. -/
structure SiloTask where
  /-- `_stop_event`. -/
  stopSet : Bool
  httpMode : Bool
  /-- The attempts that have ended. -/
  attempts : Nat
  ended : Option SiloEnd

def SiloTask.start : SiloTask := ⟨false, false, 0, none⟩

inductive SiloAct where
  /-- The next round of the loop. -/
  | attempt (A : SiloAttempt)
  | stop
  | cancel

/-- The task after an attempt that has ended. -/
def SiloTask.after (s : SiloTask) : Except SiloExn Unit → SiloTask
  | .ok () => { s with attempts := s.attempts + 1 }
  | .error e =>
    if e.Reconnects then { s with attempts := s.attempts + 1 }
    else { s with attempts := s.attempts + 1, ended := some (.escaped e) }

/-- `_run_silo_with_retry`. An attempt that is still connecting has not ended. -/
def SiloTask.step (C : SiloClient) (s : SiloTask) : SiloAct → SiloTask
  | .stop => { s with stopSet := true }
  | .cancel => if s.ended = none then { s with ended := some .cancelled } else s
  | .attempt A =>
    if s.ended ≠ none then s
    else if s.stopSet then { s with ended := some .stopped }
    else
      match connectTransport C s.httpMode A.tries with
      | (.trying, httpMode) => { s with httpMode := httpMode }
      | (.lost _, httpMode) => { s with httpMode := httpMode, attempts := s.attempts + 1 }
      | (.connected, httpMode) => { s with httpMode := httpMode }.after (attemptResult C A)

/-- **The client survives**: the task goes on to the next attempt, unless it was stopped or
cancelled. -/
def SiloTask.Survives (s : SiloTask) : Prop :=
  match s.ended with
  | none => True
  | some .stopped => s.stopSet = true
  | some .cancelled => True
  | some (.escaped _) => False

/-! ### Which attempts are followed by another one -/

/-- **An attempt after which the client connects again**: it is still connecting, or it is turned
away in the handshake, or the handshake goes through and the watcher cannot be started. -/
def Survivable (C : SiloClient) (A : SiloAttempt) : Prop :=
  match connectWithRetry C none 0 A.tries with
  | .connected =>
    TurnedAway C.lib A.plain C.handshake A.random ∨
      (Completes C.lib A.plain C.handshake A.random ∧
        ∃ errno text, A.env.fault A.world.clock = some (.os errno text))
  | _ => True

section Attempts

variable {C : SiloClient} {A : SiloAttempt}

/-- Without a bound on the tries, `connect_with_retry` does not give up. -/
theorem connectWithRetry_not_lost (attempt : Nat) (tries : List (Option Str)) (text : Str) :
    connectWithRetry C none attempt tries ≠ .lost text := by
  induction tries generalizing attempt with
  | nil => simp [connectWithRetry]
  | cons outcome tries ih =>
    cases outcome with
    | none => simp [connectWithRetry]
    | some text' =>
      have hrest : connectWithRetry C none attempt (some text' :: tries) =
          connectWithRetry C none (attempt + 1) tries := rfl
      rw [hrest]
      exact ih (attempt + 1)

/-- **The client stays with the WebSocket.** -/
theorem connectTransport_websocket (tries : List (Option Str)) :
    connectTransport C false tries = (connectWithRetry C none 0 tries, false) := by
  unfold connectTransport
  cases hresult : connectWithRetry C none 0 tries with
  | connected => rfl
  | trying => rfl
  | lost text => exact absurd hresult (connectWithRetry_not_lost 0 tries text)

/-- How an attempt ends: with the exception of the handshake, or after the handshake with that of
the start of the watcher or the `FrameError`. -/
theorem attemptResult_cases (C : SiloClient) (A : SiloAttempt) :
    (∃ e, (performClientHandshake C.lib A.plain C.handshake A.random .start).value = .error e ∧
      attemptResult C A = .error (.handshake e)) ∨
    ∃ r e, (performClientHandshake C.lib A.plain C.handshake A.random .start).value = .ok r ∧
      attemptResult C A = .error (.session e) ∧
      ((∃ fault, A.env.fault A.world.clock = some fault ∧ e = fault.exc) ∨
        (A.env.fault A.world.clock = none ∧
          e = .other (lit "cannot send encrypted frame: codec not activated"))) := by
  have hrun := runs_self (runSiloOnce C A) ⟨.start, A.world⟩
  rw [show (runSiloOnce C A ⟨.start, A.world⟩).value = attemptResult C A from rfl] at hrun
  generalize attemptResult C A = v at hrun
  obtain ⟨e, hshake, rfl⟩ | ⟨r, w₁, evs₁, evs₂, hshake, hsession, -⟩ := hrun.bind_inv
  · obtain ⟨evs₀, v₀, s₀, hplain, -, hv, -⟩ := hshake.within_inv
    rw [show (performClientHandshake C.lib A.plain C.handshake A.random .start).value = v₀ from
      congrArg Outcome.value hplain]
    cases v₀ with
    | error e₀ =>
      cases hv
      exact Or.inl ⟨e₀, rfl, rfl⟩
    | ok r => cases hv
  · obtain ⟨evs₀, v₀, s₀, hplain, -, hv, hworld⟩ := hshake.within_inv
    obtain ⟨evs₃, v₃, s₃, hio, -, rfl, -⟩ := hsession.within_inv
    rw [show (performClientHandshake C.lib A.plain C.handshake A.random .start).value = v₀ from
      congrArg Outcome.value hplain]
    cases v₀ with
    | error e₀ => cases hv
    | ok r₀ =>
      -- the handshake leaves the world of the session alone
      have hclock : w₁.io = A.world := by
        rw [hworld]
      rw [hclock] at hio
      obtain ⟨fault, hfault, rfl⟩ | ⟨hnone, rfl⟩ := session_never_active hio
      · exact Or.inr ⟨r₀, _, rfl, rfl, Or.inl ⟨fault, hfault, rfl⟩⟩
      · exact Or.inr ⟨r₀, _, rfl, rfl, Or.inr ⟨hnone, rfl⟩⟩

/-- An attempt that raises is followed by another one exactly if the loop catches the
exception. -/
theorem ended_after_error {s : SiloTask} (hended : s.ended = none) (e : SiloExn) :
    (s.after (.error e)).ended = none ↔ e.Reconnects := by
  unfold SiloTask.after
  by_cases he : e.Reconnects
  · simp [he, hended]
  · simp [he]

/-- **Which attempts are followed by another one.** -/
theorem survivable_iff {s : SiloTask} (hended : s.ended = none) :
    (s.after (attemptResult C A)).ended = none ↔
      TurnedAway C.lib A.plain C.handshake A.random ∨
        (Completes C.lib A.plain C.handshake A.random ∧
          ∃ errno text, A.env.fault A.world.clock = some (.os errno text)) := by
  rw [← client_reconnects_iff, ← client_returns_iff]
  obtain ⟨e, hshake, hresult⟩ | ⟨r, e, hshake, hresult, hsession⟩ := attemptResult_cases C A
  · rw [hresult, hshake, ended_after_error hended]
    show e.Reconnects ↔ _
    simp
  · rw [hresult, hshake, ended_after_error hended]
    obtain ⟨fault, hfault, rfl⟩ | ⟨hnone, rfl⟩ := hsession
    · rw [hfault]
      cases fault with
      | os errno text => simp [Fault.exc, SiloExn.Reconnects]
      | other text => simp [Fault.exc, SiloExn.Reconnects]
    · simp [hnone, SiloExn.Reconnects]

end Attempts

/-! ### The fallback to HTTP -/

/-- `str.lower()`, for the keywords of `_is_upgrade_refusal`: no other character becomes a part of
one of them. -/
def lowerAscii (c : CodePoint) : CodePoint :=
  if 0x41 ≤ c.val ∧ c.val ≤ 0x5a then Fin.ofNat 0x110000 (c.val + 0x20) else c

/-- `_is_upgrade_refusal`, by the text of the exception. -/
def isUpgradeRefusal (text : Str) : Bool :=
  [lit "403", lit "407", lit "invalid status code", lit "upgrade"].any fun k =>
    decide (k <:+: text.map lowerAscii)

/-- The text of the `ConnectionLost` of `connect_with_retry`. -/
def gaveUpText (url : Str) (attempt : Nat) : Str :=
  lit "gave up connecting to " ++ url ++ lit " after " ++ Json.dumpInt attempt ++ lit " attempts"

/-- A client of a server, with the HTTP fallback configured. -/
def SiloClient.withFallback (C : SiloClient) (serverUrl httpBaseUrl : Str) : SiloClient :=
  { C with
    httpBaseUrl := some httpBaseUrl
    isUpgradeRefusal := Chiralite.isUpgradeRefusal
    gaveUpText := Chiralite.gaveUpText serverUrl }

/-- A try that fails, but not by a refused upgrade. -/
def OtherFailure (outcome : Option Str) : Prop :=
  ∃ text, outcome = some text ∧ isUpgradeRefusal text = false

/-- The first of the tries that is no other failure is a refused upgrade. -/
def RefusedFirst (tries : List (Option Str)) : Prop :=
  ∃ before text after, tries = before ++ some text :: after ∧
    (∀ outcome ∈ before, OtherFailure outcome) ∧ isUpgradeRefusal text = true

/-- **The fallback is taken**: `_connect_transport` returns the WebSocket if a connection comes
before any refused upgrade, and goes over to HTTP, for good, at a refused upgrade that comes before
any connection. -/
def FallsBack (C : SiloClient) (tries : List (Option Str)) : Prop :=
  (∀ before after, tries = before ++ none :: after → (∀ outcome ∈ before, OtherFailure outcome) →
    connectTransport C false tries = (.connected, false)) ∧
  (RefusedFirst tries → connectTransport C false tries = (connectHttp C, true))

section Fallback

variable {C : SiloClient}

/-- `connect_with_retry` returns the first connection, whatever has failed before. -/
theorem connectWithRetry_connected (attempt : Nat) {before : List (Option Str)}
    (h : ∀ outcome ∈ before, OtherFailure outcome) (after : List (Option Str)) :
    connectWithRetry C none attempt (before ++ none :: after) = .connected := by
  induction before generalizing attempt with
  | nil => rfl
  | cons outcome before ih =>
    obtain ⟨text, rfl, -⟩ := h outcome List.mem_cons_self
    exact ih (attempt + 1) fun o ho => h o (List.mem_cons_of_mem _ ho)

/-- **When the fallback is taken**: exactly when no refused upgrade comes before the first
connection. -/
theorem falls_back_iff (C : SiloClient) (serverUrl httpBaseUrl : Str)
    (tries : List (Option Str)) :
    FallsBack (C.withFallback serverUrl httpBaseUrl) tries ↔ ¬ RefusedFirst tries := by
  unfold FallsBack
  rw [connectTransport_websocket]
  constructor
  · rintro ⟨-, hrefused⟩ hfirst
    have hmode := congrArg Prod.snd (hrefused hfirst)
    cases hmode
  · intro hnot
    refine ⟨?_, fun hfirst => absurd hfirst hnot⟩
    rintro before after rfl hbefore
    rw [connectWithRetry_connected 0 hbefore]

end Fallback

/-! ### The runs of the task -/

section Runs

variable {C : SiloClient}

/-- The attempt is made: the task has not ended and was not stopped. -/
def SiloTask.Makes (s : SiloTask) (a : SiloAct) (A : SiloAttempt) : Prop :=
  a = .attempt A ∧ s.ended = none ∧ s.stopSet = false

/-- The invariant of the task: it has not gone over to HTTP, and it ends as stopped only after
`stop`. -/
structure SiloTask.Inv (s : SiloTask) : Prop where
  websocket : s.httpMode = false
  stopped : s.ended = some .stopped → s.stopSet = true

/-- **What a step can do**: an attempt that is made goes on connecting or ends, and a step that
makes none sets the flag, changes nothing, or ends the task as stopped or cancelled. -/
theorem SiloTask.step_cases {s : SiloTask} (hinv : s.Inv) (a : SiloAct) :
    (∃ A, s.Makes a A ∧
      ((s.step C a = s ∧ connectWithRetry C none 0 A.tries ≠ .connected) ∨
        (s.step C a = s.after (attemptResult C A) ∧
          connectWithRetry C none 0 A.tries = .connected))) ∨
    ((∀ A, ¬ s.Makes a A) ∧
      (s.step C a = { s with stopSet := true } ∨ s.step C a = s ∨
        (s.ended = none ∧ (s.step C a = { s with ended := some .cancelled } ∨
          (s.stopSet = true ∧ s.step C a = { s with ended := some .stopped }))))) := by
  cases a with
  | stop =>
    refine Or.inr ⟨?_, Or.inl rfl⟩
    rintro A ⟨ha, -⟩
    cases ha
  | cancel =>
    refine Or.inr ⟨?_, Or.inr ?_⟩
    · rintro A ⟨ha, -⟩
      cases ha
    · by_cases hended : s.ended = none
      · exact Or.inr ⟨hended, Or.inl (if_pos hended)⟩
      · exact Or.inl (if_neg hended)
  | attempt A =>
    by_cases hended : s.ended = none
    swap
    · refine Or.inr ⟨?_, Or.inr (Or.inl (if_pos hended))⟩
      exact fun A' hmakes => hended hmakes.2.1
    obtain ⟨stopSet, httpMode, attempts, ended⟩ := s
    -- the task is never in HTTP mode, so the attempt is one by WebSocket
    obtain rfl : httpMode = false := hinv.websocket
    obtain rfl : ended = none := hended
    cases stopSet with
    | true =>
      refine Or.inr ⟨?_, Or.inr (Or.inr ⟨rfl, Or.inr ⟨rfl, rfl⟩⟩)⟩
      rintro A' ⟨-, -, hstop⟩
      cases hstop
    | false =>
      refine Or.inl ⟨A, ⟨rfl, rfl, rfl⟩, ?_⟩
      simp only [SiloTask.step, connectTransport_websocket]
      cases hresult : connectWithRetry C none 0 A.tries with
      | connected => exact Or.inr ⟨rfl, rfl⟩
      | trying => exact Or.inl ⟨rfl, by simp⟩
      | lost text => exact absurd hresult (connectWithRetry_not_lost 0 A.tries text)

theorem SiloTask.after_fields (s : SiloTask) (r : Except SiloExn Unit) :
    (s.after r).httpMode = s.httpMode ∧ (s.after r).stopSet = s.stopSet ∧
      ((s.after r).ended = s.ended ∨ ∃ e, (s.after r).ended = some (.escaped e)) := by
  unfold SiloTask.after
  split
  · exact ⟨rfl, rfl, Or.inl rfl⟩
  · split
    · exact ⟨rfl, rfl, Or.inl rfl⟩
    · exact ⟨rfl, rfl, Or.inr ⟨_, rfl⟩⟩

/-- **Step lemma.** -/
theorem SiloTask.Inv.step {s : SiloTask} (h : s.Inv) (a : SiloAct) : (s.step C a).Inv := by
  obtain ⟨A, hmakes, ⟨hstep, -⟩ | ⟨hstep, -⟩⟩ |
    ⟨-, hstep | hstep | ⟨-, hstep | ⟨hstop, hstep⟩⟩⟩ := SiloTask.step_cases (C := C) h a
  · rw [hstep]
    exact h
  · rw [hstep]
    obtain ⟨hhttp, hset, hend⟩ := s.after_fields (attemptResult C A)
    refine ⟨hhttp.trans h.websocket, fun hstopped => ?_⟩
    obtain hsame | ⟨e, he⟩ := hend
    · rw [hset]
      exact h.stopped (hsame ▸ hstopped)
    · rw [he] at hstopped
      cases hstopped
  · rw [hstep]
    exact ⟨h.websocket, fun _ => rfl⟩
  · rw [hstep]
    exact h
  · rw [hstep]
    exact ⟨h.websocket, fun hstopped => by cases hstopped⟩
  · rw [hstep]
    exact ⟨h.websocket, fun _ => hstop⟩

/-- Between attempts, the task survives as long as it has not ended. -/
theorem SiloTask.survives_after_iff {s : SiloTask} (hended : s.ended = none)
    (r : Except SiloExn Unit) : (s.after r).Survives ↔ (s.after r).ended = none := by
  obtain ⟨-, -, hsame | ⟨e, he⟩⟩ := s.after_fields r
  · rw [hsame.trans hended]
    unfold SiloTask.Survives
    rw [hsame.trans hended]
    exact iff_of_true trivial rfl
  · unfold SiloTask.Survives
    rw [he]
    exact iff_of_false id (by simp)

/-- **Step lemma.** A step keeps the task alive exactly if the attempt it makes, if any, is one
after which the client connects again. -/
theorem SiloTask.survives_step_iff {s : SiloTask} (h : s.Inv) (a : SiloAct) :
    (s.step C a).Survives ↔ s.Survives ∧ ∀ A, s.Makes a A → Survivable C A := by
  obtain ⟨A, hmakes, hresult⟩ | ⟨hnone, hresult⟩ := SiloTask.step_cases (C := C) h a
  · -- an attempt is made, and the task has not ended before it
    have hsurvives : s.Survives := by
      unfold SiloTask.Survives
      rw [hmakes.2.1]
      trivial
    have hguard : (∀ A', s.Makes a A' → Survivable C A') ↔ Survivable C A := by
      refine ⟨fun hall => hall A hmakes, fun hA A' hmakes' => ?_⟩
      obtain rfl : A' = A := SiloAct.attempt.inj (hmakes'.1.symm.trans hmakes.1)
      exact hA
    rw [and_iff_right hsurvives, hguard]
    unfold Survivable
    obtain ⟨hstep, hconnect⟩ | ⟨hstep, hconnect⟩ := hresult
    · rw [hstep]
      split
      · exact absurd (by assumption) hconnect
      · exact iff_of_true hsurvives trivial
    · rw [hstep, hconnect, SiloTask.survives_after_iff hmakes.2.1, survivable_iff hmakes.2.1]
  · rw [and_iff_left fun A hmakes => absurd hmakes (hnone A)]
    unfold SiloTask.Survives
    obtain hstep | hstep | ⟨hended, hstep | ⟨hstop, hstep⟩⟩ := hresult
    · rw [hstep]
      -- the flag only helps a task that ended as stopped, and there it was set
      cases hended : s.ended with
      | none => simp
      | some reason =>
        cases reason with
        | stopped => simp [h.stopped hended]
        | cancelled => simp
        | escaped e => simp
    · rw [hstep]
    · rw [hstep, hended]
    · rw [hstep, hended]
      exact iff_of_true hstop trivial

/-- **The client survives** a run of attempts exactly if each attempt that is made in it is still
connecting, is turned away in the handshake, or cannot start its watcher. -/
theorem silo_survives_iff (C : SiloClient) (as : List SiloAct) :
    (run (SiloTask.step C) .start as).Survives ↔
      Guarded (SiloTask.step C) (fun s a => ∀ A, s.Makes a A → Survivable C A) .start as := by
  have hinv : ∀ (s : SiloTask) (a : SiloAct), s.Inv → (s.step C a).Inv := fun s a h => h.step a
  have hstart : SiloTask.start.Inv := ⟨rfl, fun h => by cases h⟩
  rw [run_iff_guarded hinv (fun s a h => SiloTask.survives_step_iff h a) hstart]
  exact and_iff_right trivial

end Runs

namespace Sample

/-- A client with the keys of the handshake's sample. -/
def siloClient : SiloClient where
  lib := plainLib
  handshake := sampleParties.client
  silo := siloConfig
  httpBaseUrl := none
  isUpgradeRefusal _ := false
  gaveUpText _ := []

/-- The peer closes the WebSocket after HELLO. -/
def closedAttempt : SiloAttempt where
  tries := [none]
  plain :=
    { received := fun _ => .error (.connectionClosed (lit "no close frame received or sent"))
      sendFault := fun _ => none
      clock := sampleClock
      publicKeyFault := fun _ => none }
  random := sampleParties.clientRandom
  env := env
  world := world
  events := []

/-- **A disconnect during the handshake** ends the task for good. -/
theorem closed_websocket_ends_task :
    (run (SiloTask.step siloClient) .start [.attempt closedAttempt]).ended =
        some (.escaped (.handshake (.net (.connectionClosed
          (lit "no close frame received or sent"))))) ∧
      ¬ (run (SiloTask.step siloClient) .start [.attempt closedAttempt]).Survives :=
  ⟨rfl, id⟩

/-- A proxy answers the upgrade with 403. -/
def refusedTries : List (Option Str) :=
  [some (lit "failed to connect to wss://host: server rejected WebSocket connection: HTTP 403")]

/-- **The refused upgrade is tried again**, and the client does not go over to HTTP. -/
theorem refused_upgrade_not_taken :
    connectTransport (siloClient.withFallback (lit "wss://host") (lit "https://host")) false
        refusedTries = (.trying, false) ∧
      ¬ FallsBack (siloClient.withFallback (lit "wss://host") (lit "https://host"))
        refusedTries := by
  have htrying : connectTransport (siloClient.withFallback (lit "wss://host") (lit "https://host"))
      false refusedTries = (.trying, false) := rfl
  refine ⟨htrying, fun h => ?_⟩
  have hfirst : RefusedFirst refusedTries := ⟨[], _, [], rfl, nofun, by decide +kernel⟩
  have hhttp := h.2 hfirst
  rw [htrying] at hhttp
  cases hhttp

end Sample

end Chiralite
