import Chiralite.Framework.Base64
import Chiralite.Framework.Dict
import Chiralite.Framework.Run
import Chiralite.Protocol.Wire

/-!
# The HTTP transport of the server

`build_http_app` of `transport/http_sse.py`. A client that cannot use WebSocket makes its handshake
in two POSTs and then posts its frames to the session and reads the frames of the server from an
event stream. The application runs `on_connection` as a task at the other end of a pair of queues;
the request handlers feed the one queue and drain the other.

`on_connection` is a parameter (`Handler`): a state with its next move. The state of the application
holds the objects of the source (`_PendingHandshake`, `_ActiveSession`, the requests that are being
served) by their numbers and the two dictionaries that lead to them. A step is one piece of one of
these coroutines between two `await`s, or a timeout, or a connection that breaks, so that a list of
steps is any scheduling whatsoever.

`handle_response` waits for `session_token` of the pending handshake, and nothing in the module
sets it. So no handshake is ever handed over: the second POST is refused in every run
(`never_handed_over`), whatever `on_connection` does, no session comes into being and every POST to
one is answered 404 (`NoSession`).
-/

namespace Chiralite
namespace HttpSse

open Py

/-! ### Connections -/

/-- What a coroutine at the end of a connection does next. -/
inductive Move (σ : Type) where
  | send (data : Bytes) (next : σ)
  | recv (next : Bytes → σ)
  /-- It has returned or raised. -/
  | done

/-- `on_connection`. -/
structure Handler (σ : Type) where
  /-- The call with this number, on a connection from this address. -/
  start : Nat → Str → σ
  next : σ → Move σ

/-- The two queues of an `_InMemConn`, with `on_connection` at the one end, and what has gone
through them. -/
structure Pipe (σ : Type) where
  remoteAddr : Str
  /-- From the client. -/
  inq : List Bytes
  /-- To the client. -/
  outq : List Bytes
  /-- The task that runs `on_connection`. -/
  task : σ
  /-- The frames that were put into `inq`. -/
  fed : List Bytes
  /-- The frames that `on_connection` has received. -/
  taken : List Bytes
  /-- The frames that `on_connection` has sent. -/
  sent : List Bytes
  /-- The frames that were taken from `outq` and did not go to the client. -/
  dropped : List Bytes

namespace Pipe

variable {σ : Type}

/-- A new pair of queues, on which `on_connection` is started. -/
def create (H : Handler σ) (call : Nat) (remoteAddr : Str) : Pipe σ :=
  ⟨remoteAddr, [], [], H.start call remoteAddr, [], [], [], []⟩

/-- `inq.put(data)`. -/
def feed (data : Bytes) (p : Pipe σ) : Pipe σ :=
  { p with inq := p.inq ++ [data], fed := p.fed ++ [data] }

/-- `outq.get()`, when there is something to get. -/
def drain (p : Pipe σ) : Pipe σ := { p with outq := p.outq.tail }

/-- A frame that was taken is given up. -/
def drop (data : Bytes) (p : Pipe σ) : Pipe σ := { p with dropped := p.dropped ++ [data] }

/-- The task goes on to its next `await`. -/
def move (H : Handler σ) (p : Pipe σ) : Pipe σ :=
  match H.next p.task with
  | .send data next => { p with outq := p.outq ++ [data], sent := p.sent ++ [data], task := next }
  | .recv next =>
    match p.inq with
    | [] => p
    | data :: inq => { p with inq := inq, taken := p.taken ++ [data], task := next data }
  | .done => p

end Pipe

/-- `_PendingHandshake`. -/
structure PendingHandshake (σ : Type) where
  pipe : Pipe σ
  sessionToken : Option Bytes

/-- A change of the queues. -/
def PendingHandshake.onPipe {σ : Type} (f : Pipe σ → Pipe σ) (p : PendingHandshake σ) :
    PendingHandshake σ :=
  { p with pipe := f p.pipe }

/-! ### Requests -/

/-- The body of an answer. -/
inductive Body where
  | text (text : Str)
  | bytes (data : Bytes)
  | empty
  deriving DecidableEq

/-- `web.Response`. -/
structure Answer where
  status : Nat
  body : Body
  headers : List (Str × Str)
  deriving DecidableEq

namespace Answer

/-- `web.Response(status=.., text=..)`. -/
def refusal (status : Nat) (text : Str) : Answer := ⟨status, .text text, []⟩

/-- `web.Response(body=.., headers=..)`. -/
def octets (data : Bytes) (header value : Str) : Answer := ⟨200, .bytes data, [(header, value)]⟩

def handshakeTimeout : Answer := refusal 504 (lit "handshake timeout")

def handshakeNotFound : Answer := refusal 404 (lit "handshake not found")

def handshakeRejected : Answer := refusal 403 (lit "handshake rejected")

def sessionNotFound : Answer := refusal 404 (lit "session not found")

/-- `web.Response(status=202)`. -/
def accepted : Answer := ⟨202, .empty, []⟩

end Answer

/-- What a request asks for. -/
inductive Route where
  /-- `POST /v1/handshake`, with the `uuid4().hex` that is drawn for it. -/
  | hello (remote : Option Str) (hid : Str) (body : Bytes)
  /-- `POST /v1/handshake/{hid}`. -/
  | response (remote : Option Str) (hid : Str) (body : Bytes)
  /-- `POST /v1/session/{token}/msg`. -/
  | msg (token : Str) (body : Bytes)
  /-- `GET /v1/session/{token}/events`. -/
  | events (token : Str)
  deriving DecidableEq

/-- Where the handler of a request stands. -/
inductive Progress where
  | start
  /-- `await request.read()`, behind the lookup. -/
  | reading
  /-- The first `wait_for(outq.get(), ..)`. -/
  | waiting
  /-- The second one, when the ACCEPT is there. -/
  | settling (accept : Bytes)
  /-- `outq.get()` in the loop of `handle_events`, with what has been written. -/
  | streaming (written : Str)
  /-- The frame is being written. -/
  | writing (written : Str) (frame : Bytes)
  | answered (a : Answer)
  /-- The stream has ended. -/
  | ended (written : Str)
  deriving DecidableEq

/-- A request with its handler. -/
structure Request where
  route : Route
  /-- The handler's local `state` or `session`. -/
  object : Option Nat
  progress : Progress
  deriving DecidableEq

/-- `request.remote or "unknown"`. -/
def remoteAddr : Option Str → Str
  | none | some [] => lit "unknown"
  | some remote => remote

/-- `bytes.hex()`. -/
def hex (data : Bytes) : Str :=
  data.flatMap fun b => [Json.hexDigit (b.toNat / 16), Json.hexDigit (b.toNat % 16)]

/-- The first write of `handle_events`. -/
def retryHint : Str := lit "retry: 3000\n\n"

/-- The event that carries a frame. -/
def event (frame : Bytes) : Str := lit "data: " ++ Base64.b64encode frame ++ lit "\n\n"

/-! ### The application -/

/-- The state behind `build_http_app`. -/
structure App (σ : Type) where
  /-- The `_PendingHandshake` objects, in the order of their creation. -/
  handshakes : List (PendingHandshake σ)
  /-- The `_ActiveSession` objects, in the order of their creation. -/
  actives : List (Pipe σ)
  /-- Handshake identifiers. -/
  pending : Dict Str Nat
  /-- Session tokens in hexadecimal. -/
  sessions : Dict Str Nat
  requests : List Request

/-- `build_http_app`. -/
def App.build (σ : Type) : App σ := ⟨[], [], Dict.empty, Dict.empty, []⟩

section Handlers

variable {σ : Type} (H : Handler σ) (s : App σ) (r : Request)

/-- How often `on_connection` has been called. -/
def App.calls : Nat := s.handshakes.length + s.actives.length

/-- A change of the queues of a handshake. -/
def App.onHandshake (i : Nat) (f : Pipe σ → Pipe σ) : App σ :=
  { s with handshakes := s.handshakes.modify i (PendingHandshake.onPipe f) }

/-- A change of the queues of a session. -/
def App.onActive (j : Nat) (f : Pipe σ → Pipe σ) : App σ :=
  { s with actives := s.actives.modify j f }

/-- What `outq.get()` of a handshake would return. -/
def App.handshakeOut (i : Nat) : Option Bytes := (s.handshakes[i]?).bind fun p => p.pipe.outq.head?

/-- What `outq.get()` of a session would return. -/
def App.activeOut (j : Nat) : Option Bytes := (s.actives[j]?).bind fun p => p.outq.head?

/-- `handle_hello`, from one `await` to the next. -/
def handleHello (remote : Option Str) (hid : Str) (body : Bytes) : App σ × Request :=
  match r.progress, r.object with
  | .start, _ =>
    let i := s.handshakes.length
    let state : PendingHandshake σ := ⟨(Pipe.create H s.calls (remoteAddr remote)).feed body, none⟩
    ({ s with handshakes := s.handshakes ++ [state], pending := s.pending.set hid i },
      { r with object := some i, progress := .waiting })
  | .waiting, some i =>
    match s.handshakeOut i with
    | none => (s, r)
    | some challenge =>
      (s.onHandshake i Pipe.drain,
        { r with progress := .answered (.octets challenge (lit "X-Chiralite-Hid") hid) })
  | _, _ => (s, r)

/-- The end of `handle_response`. -/
def finishResponse (remote : Option Str) (i : Nat) (accept : Bytes) : App σ × Request :=
  match (s.handshakes[i]?).bind PendingHandshake.sessionToken with
  | none => (s, { r with progress := .answered .handshakeRejected })
  | some token =>
    ({ s with
        actives := s.actives ++ [Pipe.create H s.calls (remoteAddr remote)]
        sessions := s.sessions.set (hex token) s.actives.length },
      { r with progress := .answered (.octets accept (lit "X-Chiralite-Token") (hex token)) })

/-- `handle_response`, from one `await` to the next. What the second `get` returns is not used. -/
def handleResponse (remote : Option Str) (hid : Str) (body : Bytes) : App σ × Request :=
  match r.progress, r.object with
  | .start, _ =>
    match s.pending.get? hid with
    | none => (s, { r with progress := .answered .handshakeNotFound })
    | some i =>
      ({ s with pending := s.pending.erase hid },
        { r with object := some i, progress := .reading })
  | .reading, some i => (s.onHandshake i (Pipe.feed body), { r with progress := .waiting })
  | .waiting, some i =>
    match s.handshakeOut i with
    | none => (s, r)
    | some accept => (s.onHandshake i Pipe.drain, { r with progress := .settling accept })
  | .settling accept, some i =>
    match s.handshakeOut i with
    | none => (s, r)
    | some frame =>
      finishResponse H (s.onHandshake i fun p => p.drain.drop frame) r remote i accept
  | _, _ => (s, r)

/-- `handle_msg`, from one `await` to the next. -/
def handleMsg (token : Str) (body : Bytes) : App σ × Request :=
  match r.progress, r.object with
  | .start, _ =>
    match s.sessions.get? token with
    | none => (s, { r with progress := .answered .sessionNotFound })
    | some j => (s, { r with object := some j, progress := .reading })
  | .reading, some j => (s.onActive j (Pipe.feed body), { r with progress := .answered .accepted })
  | _, _ => (s, r)

/-- `handle_events`, from one `await` to the next. -/
def handleEvents (token : Str) : App σ × Request :=
  match r.progress, r.object with
  | .start, _ =>
    match s.sessions.get? token with
    | none => (s, { r with progress := .answered .sessionNotFound })
    | some j => (s, { r with object := some j, progress := .streaming retryHint })
  | .streaming written, some j =>
    match s.activeOut j with
    | none => (s, r)
    | some frame => (s.onActive j Pipe.drain, { r with progress := .writing written frame })
  | .writing written frame, _ => (s, { r with progress := .streaming (written ++ event frame) })
  | _, _ => (s, r)

/-- The handler of a request goes on. -/
def resume : App σ × Request :=
  match r.route with
  | .hello remote hid body => handleHello H s r remote hid body
  | .response remote hid body => handleResponse H s r remote hid body
  | .msg token body => handleMsg s r token body
  | .events token => handleEvents s r token

/-- The `wait_for` of a handler runs into its timeout. -/
def expire : App σ × Request :=
  match r.route, r.progress, r.object with
  | .hello _ hid _, .waiting, _ =>
    ({ s with pending := s.pending.erase hid }, { r with progress := .answered .handshakeTimeout })
  | .response _ _ _, .waiting, _ => (s, { r with progress := .answered .handshakeTimeout })
  | .response remote _ _, .settling accept, some i => finishResponse H s r remote i accept
  | _, _, _ => (s, r)

/-- The client of an event stream has gone: `CancelledError` or `ConnectionResetError`. -/
def hang : App σ × Request :=
  match r.progress, r.object with
  | .streaming written, _ => (s, { r with progress := .ended written })
  | .writing written frame, some j =>
    (s.onActive j (Pipe.drop frame), { r with progress := .ended written })
  | _, _ => (s, r)

end Handlers

/-! ### Runs -/

/-- A step of the event loop. -/
inductive Tick where
  /-- A request comes in. -/
  | arrive (route : Route)
  /-- The handler of a request goes on. -/
  | resume (n : Nat)
  /-- The handler of a request runs into its timeout. -/
  | expire (n : Nat)
  /-- The client of a request goes away. -/
  | hang (n : Nat)
  /-- The task of a handshake goes on. -/
  | handshake (i : Nat)
  /-- The task of a session goes on. -/
  | session (j : Nat)
  deriving DecidableEq

section Runs

variable {σ : Type}

/-- A handler takes a step. -/
def App.serve (s : App σ) (f : App σ → Request → App σ × Request) (n : Nat) : App σ :=
  match s.requests[n]? with
  | none => s
  | some r => { (f s r).1 with requests := (f s r).1.requests.set n (f s r).2 }

def App.tick (H : Handler σ) (s : App σ) : Tick → App σ
  | .arrive route => { s with requests := s.requests ++ [⟨route, none, .start⟩] }
  | .resume n => s.serve (resume H) n
  | .expire n => s.serve (expire H) n
  | .hang n => s.serve hang n
  | .handshake i => s.onHandshake i (Pipe.move H)
  | .session j => s.onActive j (Pipe.move H)

/-- The application after some steps. -/
def App.after (H : Handler σ) (s : App σ) (ticks : List Tick) : App σ :=
  Run.run (App.tick H) s ticks

end Runs

/-! ### A handshake that is handed over -/

/-- The `session_token` of an ACCEPT message. -/
def sessionTokenOf (Y : Pydantic) (accept : Bytes) : Option Bytes :=
  match parseJson Y (.bytes accept) with
  | some (.accept m) => some m.sessionToken
  | _ => none

section HandOver

variable {σ : Type} (H : Handler σ) (Y : Pydantic)

/-- `on_connection` answers a HELLO by a CHALLENGE, and a RESPONSE by an ACCEPT. -/
def Honest : Prop :=
  ∀ call remote, ∃ hello, H.next (H.start call remote) = .recv hello ∧
    ∀ data, ∃ challenge afterChallenge, H.next (hello data) = .send challenge afterChallenge ∧
      (∃ m, parseJson Y (.bytes challenge) = some (.challenge m)) ∧
      ∃ response, H.next afterChallenge = .recv response ∧
        ∀ data', ∃ accept afterAccept, H.next (response data') = .send accept afterAccept ∧
          ∃ m, parseJson Y (.bytes accept) = some (.accept m)

/-- The two steps of a handshake have been made: `i` was begun by one POST, which was answered with
the first frame of `on_connection`, and request `n` is the second POST, to the identifier that came
with that answer. -/
structure TwoSteps (s : App σ) (i n : Nat) : Prop where
  exists_first : ∃ (m : Nat) (remote : Option Str) (hid : Str) (body challenge : Bytes),
    ∃ state ∈ s.handshakes[i]?, state.pipe.sent.head? = some challenge ∧
    s.requests[m]? = some ⟨.hello remote hid body, some i,
      .answered (.octets challenge (lit "X-Chiralite-Hid") hid)⟩ ∧
    ∃ remote' body' progress, s.requests[n]? = some ⟨.response remote' hid body', some i, progress⟩

/-- What the hand-over promises: the second POST is answered with the ACCEPT and the session token
in it. From then on a POST to the session is accepted, what is posted is received in its order, and
nothing that `on_connection` has sent is dropped, as long as no client goes away. -/
def HandedOver (s : App σ) (i n : Nat) : Prop :=
  ∃ remote hid body accept token j, ∃ state ∈ s.handshakes[i]?,
    s.requests[n]? = some ⟨.response remote hid body, some i,
      .answered (.octets accept (lit "X-Chiralite-Token") (hex token))⟩ ∧
    state.pipe.sent[1]? = some accept ∧
    sessionTokenOf Y accept = some token ∧
    s.sessions.get? (hex token) = some j ∧
    ∀ ticks, (∀ k, Tick.hang k ∉ ticks) →
      let s' := s.after H ticks
      (∀ r ∈ s'.requests.drop s.requests.length, ∀ data a, r.route = .msg (hex token) data →
        r.progress = .answered a → a = .accepted) ∧
      (∀ p ∈ s'.actives[j]?, p.fed = p.taken ++ p.inq ∧ p.dropped = []) ∧
      ∀ state ∈ s'.handshakes[i]?, state.pipe.dropped = []

end HandOver

/-! ### No session comes into being -/

section Never

variable {σ : Type} {H : Handler σ} {s : App σ} {r : Request}

/-- The answers of a second POST, when there is no token. -/
def Answer.Refused (a : Answer) : Prop :=
  a = .handshakeNotFound ∨ a = .handshakeTimeout ∨ a = .handshakeRejected

/-- A request gets nothing from a session. -/
def Request.Refused (r : Request) : Prop :=
  match r.route with
  | .hello _ _ _ => True
  | .response _ _ _ => ∀ a, r.progress = .answered a → a.Refused
  | .msg _ _ => r.progress = .start ∨ r.progress = .answered .sessionNotFound
  | .events _ => r.progress = .start ∨ r.progress = .answered .sessionNotFound

/-- **The invariant.** No handshake has a token, and there are no sessions. -/
structure NoSession (s : App σ) : Prop where
  token : ∀ p ∈ s.handshakes, p.sessionToken = none
  actives : s.actives = []
  sessions : s.sessions = Dict.empty
  refused : ∀ r ∈ s.requests, r.Refused

/-- What a step of a handler keeps: a state with the invariant, and a request that is refused. -/
def Keeps (x : App σ × Request) : Prop := NoSession x.1 ∧ x.2.Refused

theorem NoSession.onHandshake (h : NoSession s) (i : Nat) (f : Pipe σ → Pipe σ) :
    NoSession (s.onHandshake i f) := by
  refine ⟨fun p hp => ?_, h.actives, h.sessions, h.refused⟩
  obtain ⟨k, hk⟩ := List.mem_iff_getElem?.mp hp
  -- the queues may change, the token does not
  rw [App.onHandshake, List.getElem?_modify] at hk
  obtain ⟨q, hq, rfl⟩ := Option.map_eq_some_iff.mp hk
  have htoken := h.token q (List.mem_of_getElem? hq)
  split
  · exact htoken
  · exact htoken

theorem NoSession.sessionToken_eq_none (h : NoSession s) (i : Nat) :
    (s.handshakes[i]?).bind PendingHandshake.sessionToken = none := by
  cases hi : s.handshakes[i]? with
  | none => rfl
  | some p => exact h.token p (List.mem_of_getElem? hi)

/-- The end of `handle_response`: without a token the handshake is rejected. -/
theorem NoSession.finishResponse (h : NoSession s) {remote : Option Str} {hid : Str}
    {body : Bytes} (hroute : r.route = .response remote hid body) (i : Nat) (accept : Bytes) :
    Keeps (finishResponse H s r remote i accept) := by
  unfold HttpSse.finishResponse
  rw [h.sessionToken_eq_none i]
  refine ⟨h, ?_⟩
  unfold Request.Refused
  rw [hroute]
  rintro a ⟨⟩
  exact .inr (.inr rfl)

theorem NoSession.handleHello (h : NoSession s) {remote : Option Str} {hid : Str} {body : Bytes}
    (hroute : r.route = .hello remote hid body) : Keeps (handleHello H s r remote hid body) := by
  have hrefused : ∀ object progress, ({ r with object, progress } : Request).Refused := by
    intro object progress
    unfold Request.Refused
    rw [hroute]
    trivial
  unfold HttpSse.handleHello
  split
  · -- the new handshake begins without a token
    refine ⟨⟨fun p hp => ?_, h.actives, h.sessions, h.refused⟩, hrefused _ _⟩
    obtain hp | hp := List.mem_append.mp hp
    · exact h.token p hp
    · rw [List.mem_singleton.mp hp]
  · split
    · exact ⟨h, hrefused _ _⟩
    · exact ⟨h.onHandshake _ _, hrefused _ _⟩
  · exact ⟨h, hrefused _ _⟩

theorem NoSession.handleResponse (h : NoSession s) (hr : r.Refused) {remote : Option Str}
    {hid : Str} {body : Bytes} (hroute : r.route = .response remote hid body) :
    Keeps (handleResponse H s r remote hid body) := by
  have hrefused : ∀ object progress, (∀ a, progress = .answered a → a.Refused) →
      ({ r with object, progress } : Request).Refused := by
    intro object progress hanswer
    unfold Request.Refused
    rw [hroute]
    exact hanswer
  unfold HttpSse.handleResponse
  split
  · -- an identifier that is not pending is answered at once
    split
    · refine ⟨h, hrefused _ _ ?_⟩
      rintro a ⟨⟩
      exact .inl rfl
    · exact ⟨⟨h.token, h.actives, h.sessions, h.refused⟩, hrefused _ _ nofun⟩
  · exact ⟨h.onHandshake _ _, hrefused _ _ nofun⟩
  · split
    · exact ⟨h, hr⟩
    · exact ⟨h.onHandshake _ _, hrefused _ _ nofun⟩
  · split
    · exact ⟨h, hr⟩
    · exact (h.onHandshake _ _).finishResponse hroute _ _
  · exact ⟨h, hr⟩

theorem NoSession.handleMsg (h : NoSession s) (hr : r.Refused) {token : Str} {body : Bytes}
    (hroute : r.route = .msg token body) : Keeps (handleMsg s r token body) := by
  have hprogress : r.progress = .start ∨ r.progress = .answered .sessionNotFound := by
    unfold Request.Refused at hr
    rwa [hroute] at hr
  unfold HttpSse.handleMsg
  -- the lookup finds nothing, so the body is never read
  obtain hstart | hanswered := hprogress
  · rw [hstart]
    simp only [h.sessions, Dict.get?_empty]
    refine ⟨h, ?_⟩
    unfold Request.Refused
    rw [hroute]
    exact .inr rfl
  · rw [hanswered]
    exact ⟨h, hr⟩

theorem NoSession.handleEvents (h : NoSession s) (hr : r.Refused) {token : Str}
    (hroute : r.route = .events token) : Keeps (handleEvents s r token) := by
  have hprogress : r.progress = .start ∨ r.progress = .answered .sessionNotFound := by
    unfold Request.Refused at hr
    rwa [hroute] at hr
  unfold HttpSse.handleEvents
  -- the lookup finds nothing, so no stream is begun
  obtain hstart | hanswered := hprogress
  · rw [hstart]
    simp only [h.sessions, Dict.get?_empty]
    refine ⟨h, ?_⟩
    unfold Request.Refused
    rw [hroute]
    exact .inr rfl
  · rw [hanswered]
    exact ⟨h, hr⟩

/-- The handler of a request goes on. -/
theorem NoSession.resume (h : NoSession s) (hr : r.Refused) : Keeps (resume H s r) := by
  unfold HttpSse.resume
  split
  · next hroute => exact h.handleHello hroute
  · next hroute => exact h.handleResponse hr hroute
  · next hroute => exact h.handleMsg hr hroute
  · next hroute => exact h.handleEvents hr hroute

/-- A timeout. -/
theorem NoSession.expire (h : NoSession s) (hr : r.Refused) : Keeps (expire H s r) := by
  unfold HttpSse.expire
  split
  · next hroute _ =>
    refine ⟨⟨h.token, h.actives, h.sessions, h.refused⟩, ?_⟩
    unfold Request.Refused
    rw [hroute]
    trivial
  · next hroute _ =>
    refine ⟨h, ?_⟩
    unfold Request.Refused
    rw [hroute]
    rintro a ⟨⟩
    exact .inr (.inl rfl)
  · next hroute _ _ => exact h.finishResponse hroute _ _
  · exact ⟨h, hr⟩

theorem NoSession.onActive (h : NoSession s) (j : Nat) (f : Pipe σ → Pipe σ) :
    NoSession (s.onActive j f) := by
  refine ⟨h.token, ?_, h.sessions, h.refused⟩
  unfold App.onActive
  rw [h.actives]
  cases j with
  | zero => rfl
  | succ j => rfl

/-- A client goes away. -/
theorem NoSession.hang (h : NoSession s) (hr : r.Refused) : Keeps (hang s r) := by
  have hended : ∀ written, r.progress ≠ .start → (∀ a, r.progress ≠ .answered a) →
      ({ r with progress := .ended written } : Request).Refused := by
    intro written hstart hanswered
    unfold Request.Refused at hr ⊢
    split
    · trivial
    · nofun
    · next hroute =>
      rw [hroute] at hr
      exact absurd hr (not_or.mpr ⟨hstart, hanswered _⟩)
    · next hroute =>
      rw [hroute] at hr
      exact absurd hr (not_or.mpr ⟨hstart, hanswered _⟩)
  unfold HttpSse.hang
  split
  · next hprogress =>
    exact ⟨h, hended _ (by simp [hprogress]) (by simp [hprogress])⟩
  · next hprogress _ =>
    exact ⟨h.onActive _ _, hended _ (by simp [hprogress]) (by simp [hprogress])⟩
  · exact ⟨h, hr⟩

theorem NoSession.serve (h : NoSession s) {f : App σ → Request → App σ × Request}
    (hf : ∀ r, r.Refused → Keeps (f s r)) (n : Nat) : NoSession (s.serve f n) := by
  unfold App.serve
  split
  · exact h
  · next r hr =>
    obtain ⟨hs', hr'⟩ := hf r (h.refused r (List.mem_of_getElem? hr))
    refine ⟨hs'.token, hs'.actives, hs'.sessions, fun q hq => ?_⟩
    obtain hq | rfl := List.mem_or_eq_of_mem_set hq
    · exact hs'.refused q hq
    · exact hr'

/-- **One step** of the event loop. -/
theorem NoSession.tick (h : NoSession s) (t : Tick) : NoSession (s.tick H t) := by
  cases t with
  | arrive route =>
    refine ⟨h.token, h.actives, h.sessions, fun r hr => ?_⟩
    obtain hr | hr := List.mem_append.mp hr
    · exact h.refused r hr
    · rw [List.mem_singleton.mp hr]
      cases route with
      | hello remote hid body => trivial
      | response remote hid body => exact nofun
      | msg token body => exact .inl rfl
      | events token => exact .inl rfl
  | resume n => exact h.serve (fun r hr => h.resume hr) n
  | expire n => exact h.serve (fun r hr => h.expire hr) n
  | hang n => exact h.serve (fun r hr => h.hang hr) n
  | handshake i => exact h.onHandshake i _
  | session j => exact h.onActive j _

/-- Every run. -/
theorem noSession_after (H : Handler σ) (ticks : List Tick) :
    NoSession ((App.build σ).after H ticks) := by
  have hguard : Run.Guarded (App.tick H) (fun _ _ => True) (App.build σ) ticks :=
    Run.guarded_of_forall fun _ _ => trivial
  exact Run.run_invariant (fun s t h _ => h.tick t) ⟨nofun, rfl, rfl, nofun⟩ hguard

/-- **No handshake is handed over**, whatever `on_connection` does and however the coroutines are
scheduled: whenever a second POST is answered, it is refused. -/
theorem never_handed_over (H : Handler σ) (Y : Pydantic) (ticks : List Tick) (i n : Nat) :
    let s := (App.build σ).after H ticks
    ¬ HandedOver H Y s i n ∧
      ∀ remote hid body object a,
        s.requests[n]? = some ⟨.response remote hid body, object, .answered a⟩ →
        a = .handshakeNotFound ∨ a = .handshakeTimeout ∨ a = .handshakeRejected := by
  intro s
  have hinv : NoSession s := noSession_after H ticks
  refine ⟨?_, fun remote hid body object a hr => ?_⟩
  · rintro ⟨remote, hid, body, accept, token, j, state, -, hr, -⟩
    -- an answer with the ACCEPT is none of the three refusals
    obtain h | h | h := hinv.refused _ (List.mem_of_getElem? hr) _ rfl
    · cases h
    · cases h
    · cases h
  · exact hinv.refused _ (List.mem_of_getElem? hr) a rfl

end Never

namespace Sample

/-- The bytes of a message. -/
def bytesOf (m : AnyMsg) : Bytes := (encode (modelDumpJson plainPydantic m)).getD []

theorem parseJson_bytesOf {m : AnyMsg} (hvalid : m.Valid) (hscalar : m.Scalar) :
    parseJson plainPydantic (.bytes (bytesOf m)) = some m := by
  obtain ⟨raw, hraw, hparse⟩ := exists_encode_modelDumpJson plainPydantic hvalid hscalar
  unfold bytesOf
  rw [hraw]
  exact hparse

def hello : Bytes := bytesOf (.hello ⟨lit "pem", [1], 0, 0⟩)

def challenge : Bytes := bytesOf (.challenge ⟨lit "pem", [2], [3]⟩)

def response : Bytes := bytesOf (.response ⟨[4], [5]⟩)

def accept : Bytes := bytesOf (.accept ⟨[6], [7], [8], 0⟩)

/-- A handler that makes the handshake and returns. -/
def handler : Handler (Fin 5) where
  start _ _ := 0
  next
    | 0 => .recv fun _ => 1
    | 1 => .send challenge 2
    | 2 => .recv fun _ => 3
    | 3 => .send accept 4
    | 4 => .done

theorem handler_honest : Honest handler plainPydantic := by
  have hscalar : Py.Scalar (lit "pem") := by decide
  have hchallenge : ∃ m, parseJson plainPydantic (.bytes challenge) = some (.challenge m) :=
    ⟨_, parseJson_bytesOf trivial hscalar⟩
  have haccept : ∃ m, parseJson plainPydantic (.bytes accept) = some (.accept m) :=
    ⟨_, parseJson_bytesOf trivial trivial⟩
  intro call remote
  exact ⟨_, rfl, fun _ => ⟨challenge, 2, rfl, hchallenge, _, rfl,
    fun _ => ⟨accept, 4, rfl, haccept⟩⟩⟩

/-- The two POSTs, each served without delay, and one second without another frame. -/
def ticks : List Tick :=
  [.arrive (.hello none (lit "h") hello), .resume 0, .handshake 0, .handshake 0, .resume 0,
    .arrive (.response none (lit "h") response), .resume 1, .resume 1, .handshake 0, .handshake 0,
    .resume 1, .expire 1]

/-- **The second POST of an honest handshake is rejected**, when `on_connection` has sent its
ACCEPT and `handle_response` has taken it. -/
theorem honest_handshake_rejected :
    let s := (App.build (Fin 5)).after handler ticks
    Honest handler plainPydantic ∧ TwoSteps s 0 1 ∧
      s.handshakes.map (fun p => (p.pipe.sent, p.pipe.outq)) = [([challenge, accept], [])] ∧
      s.requests[1]? =
        some ⟨.response none (lit "h") response, some 0, .answered .handshakeRejected⟩ ∧
      ¬ HandedOver handler plainPydantic s 0 1 := by
  intro s
  have hrejected : s.requests[1]? =
      some ⟨.response none (lit "h") response, some 0, .answered .handshakeRejected⟩ := rfl
  refine ⟨handler_honest, ⟨0, none, lit "h", hello, challenge, _, rfl, rfl, rfl, none, response, _,
    hrejected⟩, rfl, hrejected, ?_⟩
  rintro ⟨remote, hid, body, accept', token, j, state, -, hr, -⟩
  rw [hrejected] at hr
  cases hr

end Sample

end HttpSse
end Chiralite
