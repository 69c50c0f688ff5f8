import Chiralite.Crypto.Handshake
import Chiralite.Framework.Effect

/-!
# The handshake as a program

`crypto/handshake.py` once more, as the programs `perform_server_handshake` and
`perform_client_handshake` over a connection: a receive may raise instead of answering, a send may
raise, and so may `public_key()` of a certificate. `Crypto.Handshake` has the same two functions as
state machines in front of a network that fails nothing; `Crypto.ServerHandshake` and
`Crypto.ClientHandshake` say what the runs of the programs are, and that they agree there.
-/

namespace Chiralite

open Py Effect

/-! ### The connection -/

/-- The exceptions of a connection and of `parse_json`, by their class. -/
inductive NetExn where
  /-- `websockets.exceptions.ConnectionClosed`. -/
  | connectionClosed (text : Str)
  /-- `TypeError`: a text frame was received. -/
  | textFrame (text : Str)
  /-- `ValidationError` of `parse_json`. -/
  | validation (text : Str)
  /-- `ConnectionLostHttp`. -/
  | connectionLostHttp (text : Str)
  /-- `OSError`. -/
  | os (text : Str)
  deriving DecidableEq

/-- `str(exc)`. -/
def NetExn.text : NetExn → Str
  | .connectionClosed text => text
  | .textFrame text => text
  | .validation text => text
  | .connectionLostHttp text => text
  | .os text => text

/-- What the world decides in a handshake. -/
structure PlainEnv where
  /-- What the receives find, in their order. -/
  received : Nat → Except NetExn AnyMsg
  /-- The exceptions of the sends, in their order. -/
  sendFault : Nat → Option NetExn
  /-- The clocks, when the peer is looked at. -/
  clock : Clock
  /-- The exception of `public_key()` of a certificate, if it raises. -/
  publicKeyFault : Certificate → Option Str

/-- How many receives and sends there have been. -/
structure PlainWorld where
  receives : Nat
  sends : Nat

/-- A connection that has just been opened. -/
def PlainWorld.start : PlainWorld := ⟨0, 0⟩

inductive PlainEvent where
  | received (r : Except NetExn AnyMsg)
  /-- A send is called. -/
  | attempted (m : AnyMsg)
  /-- The send has returned. -/
  | sent (m : AnyMsg)
  deriving DecidableEq

/-- What a handshake raises. -/
inductive Raised where
  /-- `HandshakeError` with its text. -/
  | handshakeError (text : Str)
  /-- An exception of the key derivation. -/
  | session (e : SessionExn)
  /-- An exception of the codec's constructor. -/
  | codec (e : CodecError)
  /-- An exception of the connection that is not wrapped. -/
  | net (e : NetExn)
  /-- The exception of `public_key()`. -/
  | publicKey (text : Str)
  deriving DecidableEq

/-- A computation on the connection. -/
abbrev Plain (α : Type) := Eff PlainWorld PlainEvent Raised α

section Connection

variable (E : PlainEnv)

/-- `framed.recv_plain()` in a `try`. -/
def tryRecvPlain : Plain (Except NetExn AnyMsg) := do
  let w ← Eff.look
  Eff.change fun w => { w with receives := w.receives + 1 }
  Eff.emit (.received (E.received w.receives))
  pure (E.received w.receives)

/-- A receive whose exceptions become others. -/
def recvOr (wrap : NetExn → Raised) : Plain AnyMsg := do
  match ← tryRecvPlain E with
  | .ok m => pure m
  | .error e => Eff.raise (wrap e)

/-- `framed.recv_plain()`. -/
def recvPlain : Plain AnyMsg := recvOr E .net

/-- `framed.send_plain(msg)` in a `try`. -/
def trySendPlain (m : AnyMsg) : Plain (Option NetExn) := do
  let w ← Eff.look
  Eff.change fun w => { w with sends := w.sends + 1 }
  Eff.emit (.attempted m)
  match E.sendFault w.sends with
  | none => do
    Eff.emit (.sent m)
    pure none
  | some e => pure (some e)

/-- `framed.send_plain(msg)`. -/
def sendPlain (m : AnyMsg) : Plain Unit := do
  match ← trySendPlain E m with
  | none => pure ()
  | some e => Eff.raise (.net e)

end Connection

/-! ### `perform_server_handshake` -/

/-- The checks of HELLO, in their order: the answer is what the run keeps of it, or the text of the
rejection. -/
def checkHello (L : CryptoLib) (cfg : ServerConfig) (now : Clock) :
    AnyMsg → Except Str (HelloMsg × Certificate × Str)
  | .hello m =>
    match validateHelloTimestamp now.timeNs m.tsNs with
    | .error text => .error text
    | .ok () =>
      match acceptCert L now.utc m.clientCertPem cfg.caCert with
      | .error text => .error (lit "client certificate rejected: " ++ text)
      | .ok (clientCert, clientCn) =>
        -- an empty policy allows every silo
        if cfg.allowedSilos.items ≠ [] ∧ m.siloId ∉ (cfg.allowedSilos.get? clientCn).getD [] then
          .error (lit "silo " ++ uuidStr m.siloId ++ lit " not allowed for CN=" ++
            L.reprStr clientCn)
        else .ok (m, clientCert, clientCn)
  | m => .error (lit "expected HELLO, got " ++ m.typeName)

/-- The check that the second message is a RESPONSE. -/
def checkResponse : AnyMsg → Except Str ResponseMsg
  | .response m => .ok m
  | m => .error (lit "expected RESPONSE, got " ++ m.typeName)

section Server

variable (L : CryptoLib) (E : PlainEnv) (cfg : ServerConfig) (rnd : ServerRandom)

/-- A check: on its failure `_reject` is called, whose exceptions are passed over, and
`HandshakeError` is raised with the same text. -/
def orReject {α : Type} : Except Str α → Plain α
  | .ok a => pure a
  | .error text => do
    let _ ← trySendPlain E (.authError ⟨text⟩)
    Eff.raise (.handshakeError text)

/-- A receive of the server: an exception becomes a `HandshakeError`. -/
def serverReceive (what : String) : Plain AnyMsg :=
  recvOr E fun e => .handshakeError (lit "failed to receive " ++ lit what ++ lit ": " ++ e.text)

/-- The ACCEPT message. -/
def acceptMessage (hello : HelloMsg) (sigS : Bytes) : AcceptMsg :=
  ⟨sigS, (EphemeralKey.init L rnd.ecdh).publicBytes, rnd.sessionToken, hello.siloId⟩

/-- From a RESPONSE to ACCEPT and the result. -/
def serverAccept (hello : HelloMsg) (clientCert : Certificate) (clientCn : Str)
    (response : ResponseMsg) : Plain ServerHandshakeResult := do
  match E.publicKeyFault clientCert with
  -- only a `HandshakeError` is caught here
  | some text => Eff.raise (.publicKey text)
  | none => do
    orReject E (verifyPeer L "client" (rnd.challenge ++ rnd.nonceS) response.sigC
      clientCert.publicKey)
    match signChallenge L (rnd.challenge ++ hello.nonceC) cfg.serverKey with
    | .error text => Eff.raise (.handshakeError text)
    | .ok sigS => do
      sendPlain E (.accept (acceptMessage L rnd hello sigS))
      match ((EphemeralKey.init L rnd.ecdh).deriveSessionKey L response.ecdhPubC hello.nonceC
        rnd.nonceS).1 with
      | .error e => Eff.raise (.session e)
      | .ok sessionKey =>
        match PayloadCodec.init sessionKey rnd.sessionToken with
        | .error e => Eff.raise (.codec e)
        | .ok codec => pure ⟨codec, rnd.sessionToken, clientCn, hello.siloId⟩

/-- `perform_server_handshake`. -/
def performServerHandshake : Plain ServerHandshakeResult := do
  let (hello, clientCert, clientCn) ←
    orReject E (checkHello L cfg E.clock (← serverReceive E "HELLO"))
  sendPlain E (.challenge ⟨L.toPem cfg.serverCert, rnd.nonceS, rnd.challenge⟩)
  let response ← orReject E (checkResponse (← serverReceive E "RESPONSE"))
  serverAccept L E cfg rnd hello clientCert clientCn response

end Server

/-! ### `perform_client_handshake` -/

/-- The checks of CHALLENGE: what the run keeps of it, or the text of the `HandshakeError`. -/
def checkChallenge (L : CryptoLib) (cfg : ClientConfig) (now : Clock) :
    AnyMsg → Except Str (ChallengeMsg × Certificate × Str)
  | .authError e => .error (lit "server rejected HELLO: " ++ e.reason)
  | .challenge m =>
    match acceptCert L now.utc m.serverCertPem cfg.caCert with
    | .error text => .error (lit "server certificate rejected: " ++ text)
    | .ok (serverCert, serverCn) => .ok (m, serverCert, serverCn)
  | m => .error (lit "expected CHALLENGE, got " ++ m.typeName)

/-- The check that the second message is an ACCEPT. -/
def checkAccept : AnyMsg → Except Str AcceptMsg
  | .authError e => .error (lit "server rejected RESPONSE: " ++ e.reason)
  | .accept m => .ok m
  | m => .error (lit "expected ACCEPT, got " ++ m.typeName)

section Client

variable (L : CryptoLib) (E : PlainEnv) (cfg : ClientConfig) (rnd : ClientRandom)

/-- A check of the client. -/
def orFail {α : Type} : Except Str α → Plain α
  | .ok a => pure a
  | .error text => Eff.raise (.handshakeError text)

/-- The signature of the server; here every exception becomes a `HandshakeError`. -/
def checkServer (serverCert : Certificate) (data signature : Bytes) : Except Str Unit :=
  match E.publicKeyFault serverCert with
  | some text => .error (lit "server signature verification failed: " ++ text)
  | none => verifyPeer L "server" data signature serverCert.publicKey

/-- The derivation of the session key from an ACCEPT. -/
def clientSessionKey (challenge : ChallengeMsg) (accept : AcceptMsg) : Except SessionExn Bytes :=
  ((EphemeralKey.init L rnd.ecdh).deriveSessionKey L accept.ecdhPubS rnd.nonceC
    challenge.nonceS).1

/-- From ACCEPT to the result. -/
def clientFinish (challenge : ChallengeMsg) (serverCert : Certificate) (serverCn : Str)
    (accept : AcceptMsg) : Plain ClientHandshakeResult := do
  orFail (checkServer L E serverCert (challenge.challenge ++ rnd.nonceC) accept.sigS)
  match clientSessionKey L rnd challenge accept with
  | .error e => Eff.raise (.session e)
  | .ok sessionKey =>
    match PayloadCodec.init sessionKey accept.sessionToken with
    | .error e => Eff.raise (.codec e)
    | .ok codec => pure ⟨codec, accept.sessionToken, serverCn⟩

/-- `perform_client_handshake`. -/
def performClientHandshake : Plain ClientHandshakeResult := do
  sendPlain E (.hello ⟨L.toPem cfg.clientCert, rnd.nonceC, rnd.tsNs, cfg.siloId⟩)
  let (challenge, serverCert, serverCn) ←
    orFail (checkChallenge L cfg E.clock (← recvPlain E))
  let sigC ← orFail (signChallenge L (challenge.challenge ++ challenge.nonceS) cfg.clientKey)
  sendPlain E (.response ⟨sigC, (EphemeralKey.init L rnd.ecdh).publicBytes⟩)
  let accept ← orFail (checkAccept (← recvPlain E))
  clientFinish L E rnd challenge serverCert serverCn accept

end Client

/-! ### What a call has done -/

/-- The events of a send. -/
def sendEvents (E : PlainEnv) (n : Nat) (m : AnyMsg) : List PlainEvent :=
  .attempted m :: if E.sendFault n = none then [.sent m] else []

theorem sendEvents_ok {E : PlainEnv} {n : Nat} (h : E.sendFault n = none) (m : AnyMsg) :
    sendEvents E n m = [.attempted m, .sent m] := by
  unfold sendEvents
  rw [if_pos h]

theorem sendEvents_fault {E : PlainEnv} {n : Nat} {e : NetExn} (h : E.sendFault n = some e)
    (m : AnyMsg) : sendEvents E n m = [.attempted m] := by
  unfold sendEvents
  rw [if_neg (by simp [h])]

section Inversion

variable {E : PlainEnv} {w w' : PlainWorld} {evs : List PlainEvent} {α β : Type}

theorem tryRecvPlain_inv {v : Except Raised (Except NetExn AnyMsg)}
    (h : Runs (tryRecvPlain E) w evs v w') :
    v = .ok (E.received w.receives) ∧ evs = [.received (E.received w.receives)] ∧
      w' = { w with receives := w.receives + 1 } := by
  obtain ⟨evs', hrest, rfl⟩ := h.bind_look_inv.bind_change_inv.bind_emit_inv
  obtain ⟨rfl, rfl, rfl⟩ := hrest.pure_inv
  exact ⟨rfl, rfl, rfl⟩

theorem recvOr_inv {wrap : NetExn → Raised} {v : Except Raised AnyMsg}
    (h : Runs (recvOr E wrap) w evs v w') :
    evs = [.received (E.received w.receives)] ∧ w' = { w with receives := w.receives + 1 } ∧
      ((∃ m, E.received w.receives = .ok m ∧ v = .ok m) ∨
        ∃ e, E.received w.receives = .error e ∧ v = .error (wrap e)) := by
  obtain ⟨e, htry, -⟩ | ⟨r, w₁, evs₁, evs₂, htry, hrest, rfl⟩ := h.bind_inv
  · exact absurd (tryRecvPlain_inv htry).1 (by simp)
  obtain ⟨hr, rfl, rfl⟩ := tryRecvPlain_inv htry
  cases hr
  cases hreceived : E.received w.receives with
  | ok m =>
    rw [hreceived] at hrest
    obtain ⟨rfl, rfl, rfl⟩ := hrest.pure_inv
    exact ⟨rfl, rfl, Or.inl ⟨m, rfl, rfl⟩⟩
  | error e =>
    rw [hreceived] at hrest
    obtain ⟨rfl, rfl, rfl⟩ := hrest.raise_inv
    exact ⟨rfl, rfl, Or.inr ⟨e, rfl, rfl⟩⟩

theorem trySendPlain_inv {m : AnyMsg} {v : Except Raised (Option NetExn)}
    (h : Runs (trySendPlain E m) w evs v w') :
    v = .ok (E.sendFault w.sends) ∧ evs = sendEvents E w.sends m ∧
      w' = { w with sends := w.sends + 1 } := by
  obtain ⟨evs', hrest, rfl⟩ := h.bind_look_inv.bind_change_inv.bind_emit_inv
  unfold sendEvents
  cases hfault : E.sendFault w.sends with
  | none =>
    simp only [hfault] at hrest
    obtain ⟨evs₂, hpure, rfl⟩ := hrest.bind_emit_inv
    obtain ⟨rfl, rfl, rfl⟩ := hpure.pure_inv
    exact ⟨rfl, rfl, rfl⟩
  | some e =>
    simp only [hfault] at hrest
    obtain ⟨rfl, rfl, rfl⟩ := hrest.pure_inv
    exact ⟨rfl, rfl, rfl⟩

theorem sendPlain_inv {m : AnyMsg} {v : Except Raised Unit}
    (h : Runs (sendPlain E m) w evs v w') :
    evs = sendEvents E w.sends m ∧ w' = { w with sends := w.sends + 1 } ∧
      ((E.sendFault w.sends = none ∧ v = .ok ()) ∨
        ∃ e, E.sendFault w.sends = some e ∧ v = .error (.net e)) := by
  obtain ⟨e, htry, -⟩ | ⟨r, w₁, evs₁, evs₂, htry, hrest, rfl⟩ := h.bind_inv
  · exact absurd (trySendPlain_inv htry).1 (by simp)
  obtain ⟨hr, rfl, rfl⟩ := trySendPlain_inv htry
  cases hr
  cases hfault : E.sendFault w.sends with
  | none =>
    rw [hfault] at hrest
    obtain ⟨rfl, rfl, rfl⟩ := hrest.pure_inv
    exact ⟨List.append_nil _, rfl, Or.inl ⟨rfl, rfl⟩⟩
  | some e =>
    rw [hfault] at hrest
    obtain ⟨rfl, rfl, rfl⟩ := hrest.raise_inv
    exact ⟨List.append_nil _, rfl, Or.inr ⟨e, rfl, rfl⟩⟩

theorem orReject_inv {c : Except Str α} {v : Except Raised α}
    (h : Runs (orReject E c) w evs v w') :
    (∃ a, c = .ok a ∧ v = .ok a ∧ evs = [] ∧ w' = w) ∨
      ∃ text, c = .error text ∧ v = .error (.handshakeError text) ∧
        evs = sendEvents E w.sends (.authError ⟨text⟩) := by
  cases c with
  | ok a =>
    obtain ⟨rfl, rfl, rfl⟩ := h.pure_inv
    exact Or.inl ⟨a, rfl, rfl, rfl, rfl⟩
  | error text =>
    obtain ⟨e, htry, -⟩ | ⟨r, w₁, evs₁, evs₂, htry, hrest, rfl⟩ := h.bind_inv
    · exact absurd (trySendPlain_inv htry).1 (by simp)
    obtain ⟨-, rfl, rfl⟩ := trySendPlain_inv htry
    obtain ⟨rfl, rfl, rfl⟩ := hrest.raise_inv
    exact Or.inr ⟨text, rfl, rfl, List.append_nil _⟩

/-- A receive, and then the rest. -/
theorem bind_recvOr_inv {wrap : NetExn → Raised} {f : AnyMsg → Plain β} {v : Except Raised β}
    (h : Runs (recvOr E wrap >>= f) w evs v w') :
    (∃ e, E.received w.receives = .error e ∧ evs = [.received (.error e)] ∧
      v = .error (wrap e)) ∨
    ∃ m evs', E.received w.receives = .ok m ∧ evs = .received (.ok m) :: evs' ∧
      Runs (f m) { w with receives := w.receives + 1 } evs' v w' := by
  obtain ⟨e, hreceive, rfl⟩ | ⟨m, w₁, evs₁, evs₂, hreceive, hrest, rfl⟩ := h.bind_inv
  · obtain ⟨rfl, -, ⟨m, -, hv⟩ | ⟨e', he, hv⟩⟩ := recvOr_inv hreceive
    · cases hv
    · cases hv
      exact Or.inl ⟨e', he, by rw [he], rfl⟩
  · obtain ⟨rfl, rfl, ⟨m', hm, hv⟩ | ⟨e, -, hv⟩⟩ := recvOr_inv hreceive
    · cases hv
      exact Or.inr ⟨m, evs₂, hm, by rw [hm]; rfl, hrest⟩
    · cases hv

/-- A send, and then the rest. -/
theorem bind_sendPlain_inv {m : AnyMsg} {f : Unit → Plain β} {v : Except Raised β}
    (h : Runs (sendPlain E m >>= f) w evs v w') :
    (∃ e, E.sendFault w.sends = some e ∧ evs = [.attempted m] ∧ v = .error (.net e)) ∨
    ∃ evs', E.sendFault w.sends = none ∧ evs = .attempted m :: .sent m :: evs' ∧
      Runs (f ()) { w with sends := w.sends + 1 } evs' v w' := by
  obtain ⟨e, hsend, rfl⟩ | ⟨u, w₁, evs₁, evs₂, hsend, hrest, rfl⟩ := h.bind_inv
  · obtain ⟨rfl, -, ⟨-, hv⟩ | ⟨e', he, hv⟩⟩ := sendPlain_inv hsend
    · cases hv
    · cases hv
      exact Or.inl ⟨e', he, sendEvents_fault he m, rfl⟩
  · obtain ⟨rfl, rfl, ⟨hsent, -⟩ | ⟨e, -, hv⟩⟩ := sendPlain_inv hsend
    · exact Or.inr ⟨evs₂, hsent, by rw [sendEvents_ok hsent]; rfl, hrest⟩
    · cases hv

/-- A check, and then the rest. -/
theorem bind_orReject_inv {c : Except Str α} {f : α → Plain β} {v : Except Raised β}
    (h : Runs (orReject E c >>= f) w evs v w') :
    (∃ text, c = .error text ∧ evs = sendEvents E w.sends (.authError ⟨text⟩) ∧
      v = .error (.handshakeError text)) ∨
    ∃ a, c = .ok a ∧ Runs (f a) w evs v w' := by
  obtain ⟨e, hcheck, rfl⟩ | ⟨a, w₁, evs₁, evs₂, hcheck, hrest, rfl⟩ := h.bind_inv
  · obtain ⟨a, -, hv, -⟩ | ⟨text, htext, hv, rfl⟩ := orReject_inv hcheck
    · cases hv
    · cases hv
      exact Or.inl ⟨text, htext, rfl, rfl⟩
  · obtain ⟨a', ha, hv, rfl, rfl⟩ | ⟨text, -, hv, -⟩ := orReject_inv hcheck
    · cases hv
      exact Or.inr ⟨a, ha, hrest⟩
    · cases hv

/-- A check of the client, and then the rest. -/
theorem bind_orFail_inv {c : Except Str α} {f : α → Plain β} {v : Except Raised β}
    (h : Runs (orFail c >>= f) w evs v w') :
    (∃ text, c = .error text ∧ evs = [] ∧ v = .error (.handshakeError text)) ∨
    ∃ a, c = .ok a ∧ Runs (f a) w evs v w' := by
  cases c with
  | ok a =>
    obtain ⟨e, hcheck, -⟩ | ⟨a', w₁, evs₁, evs₂, hcheck, hrest, rfl⟩ := h.bind_inv
    · cases hcheck
    · cases hcheck
      exact Or.inr ⟨a, rfl, hrest⟩
  | error text =>
    obtain ⟨e, hcheck, rfl⟩ | ⟨a', w₁, evs₁, evs₂, hcheck, -⟩ := h.bind_inv
    · cases hcheck
      exact Or.inl ⟨text, rfl, rfl, rfl⟩
    · cases hcheck

end Inversion

end Chiralite
