import Chiralite.Crypto.ServerHandshake

/-!
# The client's side of the handshake

When a run of `perform_client_handshake` fails in a way after which the client connects again
(`client_reconnects_iff`), and that the two programs are the state machines of `Crypto.Handshake`
on a connection that fails nothing (`performServerHandshake_refines`,
`performClientHandshake_refines`).

The client wraps what goes wrong with the certificate and with the signature of the server. It
does not wrap the exceptions of the connection, nor those of the key derivation.
-/

namespace Chiralite

open Py Effect

/-! ### After which failures the client connects again -/

/-- `except (…, ConnectionLostHttp, OSError)` of `_run_silo_with_retry`. -/
def NetExn.Reconnects : NetExn → Prop
  | .connectionLostHttp _ => True
  | .os _ => True
  | _ => False

instance : DecidablePred NetExn.Reconnects
  | .connectionClosed _ => isFalse id
  | .textFrame _ => isFalse id
  | .validation _ => isFalse id
  | .connectionLostHttp _ => isTrue trivial
  | .os _ => isTrue trivial

/-- `except (HandshakeError, …)` of `_run_silo_with_retry`. -/
def Raised.Reconnects : Raised → Prop
  | .handshakeError _ => True
  | .net e => e.Reconnects
  | _ => False

instance : DecidablePred Raised.Reconnects
  | .handshakeError _ => isTrue trivial
  | .session _ => isFalse id
  | .codec _ => isFalse id
  | .net e => inferInstanceAs (Decidable e.Reconnects)
  | .publicKey _ => isFalse id

/-- **The client is turned away**: the first thing that goes wrong is a check of the client, or an
exception of the connection after which the client connects again. -/
def TurnedAway (L : CryptoLib) (E : PlainEnv) (cfg : ClientConfig) (rnd : ClientRandom) : Prop :=
  match E.sendFault 0 with
  | some e => e.Reconnects
  | none =>
    match E.received 0 with
    | .error e => e.Reconnects
    | .ok m =>
      match checkChallenge L cfg E.clock m with
      | .error _ => True
      | .ok (challenge, serverCert, _) =>
        ¬ cfg.clientKey.Supported ∨
          match E.sendFault 1 with
          | some e => e.Reconnects
          | none =>
            match E.received 1 with
            | .error e => e.Reconnects
            | .ok m' =>
              match checkAccept m' with
              | .error _ => True
              | .ok accept =>
                checkServer L E serverCert (challenge.challenge ++ rnd.nonceC) accept.sigS ≠
                  .ok ()

section Client

variable {L : CryptoLib} {E : PlainEnv} {cfg : ClientConfig} {rnd : ClientRandom}

theorem checkAccept_ok {m : AnyMsg} {accept : AcceptMsg} (h : checkAccept m = .ok accept) :
    m = .accept accept := by
  cases m with
  | accept m =>
    cases h
    rfl
  | _ => cases h

/-- After ACCEPT, only the signature can turn the client away. -/
theorem clientFinish_reconnects_iff {challenge : ChallengeMsg} {serverCert : Certificate}
    {serverCn : Str} {accept : AcceptMsg} {w w' : PlainWorld} {evs : List PlainEvent}
    {v : Except Raised ClientHandshakeResult}
    (h : Runs (clientFinish L E rnd challenge serverCert serverCn accept) w evs v w') :
    (∃ e, v = .error e ∧ e.Reconnects) ↔
      checkServer L E serverCert (challenge.challenge ++ rnd.nonceC) accept.sigS ≠ .ok () := by
  obtain ⟨text, hcheck, -, rfl⟩ | ⟨u, hcheck, hrest⟩ := bind_orFail_inv h
  · rw [hcheck]
    exact iff_of_true ⟨_, rfl, trivial⟩ (by simp)
  · rw [hcheck]
    refine iff_of_false ?_ (not_not.mpr rfl)
    rintro ⟨e, rfl, he⟩
    -- behind the check there are only exceptions that are not caught
    cases hkey : clientSessionKey L rnd challenge accept with
    | error e' =>
      rw [hkey] at hrest
      obtain ⟨hv, -⟩ := hrest.raise_inv
      cases hv
      exact he
    | ok sessionKey =>
      rw [hkey] at hrest
      cases hcodec : PayloadCodec.init sessionKey accept.sessionToken with
      | error e' =>
        simp only [hcodec] at hrest
        obtain ⟨hv, -⟩ := hrest.raise_inv
        cases hv
        exact he
      | ok codec =>
        simp only [hcodec] at hrest
        obtain ⟨hv, -⟩ := hrest.pure_inv
        cases hv

/-- An exception of the connection. -/
theorem net_reconnects_iff {α : Type} {e : NetExn} :
    (∃ e', (.error (.net e) : Except Raised α) = .error e' ∧ e'.Reconnects) ↔ e.Reconnects := by
  constructor
  · rintro ⟨e', he, hreconnects⟩
    cases he
    exact hreconnects
  · exact fun h => ⟨_, rfl, h⟩

/-- **When the client's handshake fails so that the client connects again.** -/
theorem client_reconnects_iff (L : CryptoLib) (E : PlainEnv) (cfg : ClientConfig)
    (rnd : ClientRandom) :
    (∃ e, (performClientHandshake L E cfg rnd .start).value = .error e ∧ e.Reconnects) ↔
      TurnedAway L E cfg rnd := by
  have hrun := runs_self (performClientHandshake L E cfg rnd) .start
  generalize (performClientHandshake L E cfg rnd .start).value = v at hrun
  unfold TurnedAway
  -- statement by statement: a step that fails decides both sides, one that does not is passed
  obtain ⟨e, hlost, -, rfl⟩ | ⟨evs₁, hsent, -, hrest⟩ := bind_sendPlain_inv hrun
  · rw [show E.sendFault 0 = some e from hlost]
    exact net_reconnects_iff
  rw [show E.sendFault 0 = none from hsent]
  obtain ⟨e, hnone, -, rfl⟩ | ⟨m, evs₂, hm, -, hrest⟩ := bind_recvOr_inv hrest
  · simp only [show E.received 0 = .error e from hnone]
    exact net_reconnects_iff
  simp only [show E.received 0 = .ok m from hm]
  obtain ⟨text, hcheck, -, rfl⟩ | ⟨⟨challenge, serverCert, serverCn⟩, hcheck, hrest⟩ :=
    bind_orFail_inv hrest
  · rw [hcheck]
    exact iff_of_true ⟨_, rfl, trivial⟩ trivial
  simp only [hcheck]
  obtain ⟨text, hsign, -, rfl⟩ | ⟨sigC, hsign, hrest⟩ := bind_orFail_inv hrest
  · exact iff_of_true ⟨_, rfl, trivial⟩ (Or.inl (not_supported_of_sign hsign))
  rw [or_iff_right (not_not.mpr (supported_of_sign hsign))]
  obtain ⟨e, hlost, -, rfl⟩ | ⟨evs₃, hsent', -, hrest⟩ := bind_sendPlain_inv hrest
  · rw [show E.sendFault 1 = some e from hlost]
    exact net_reconnects_iff
  rw [show E.sendFault 1 = none from hsent']
  obtain ⟨e, hnone, -, rfl⟩ | ⟨m', evs₄, hm', -, hrest⟩ := bind_recvOr_inv hrest
  · simp only [show E.received 1 = .error e from hnone]
    exact net_reconnects_iff
  simp only [show E.received 1 = .ok m' from hm']
  obtain ⟨text, hcheck', -, rfl⟩ | ⟨accept, hcheck', hrest⟩ := bind_orFail_inv hrest
  · rw [hcheck']
    exact iff_of_true ⟨_, rfl, trivial⟩ trivial
  rw [hcheck']
  exact clientFinish_reconnects_iff hrest

/-- **The handshake goes through**: nothing fails on the connection, every check passes, the client
can sign, and the ephemeral key of ACCEPT agrees. -/
def Completes (L : CryptoLib) (E : PlainEnv) (cfg : ClientConfig) (rnd : ClientRandom) : Prop :=
  E.sendFault 0 = none ∧ E.sendFault 1 = none ∧ cfg.clientKey.Supported ∧
    ∃ m challenge serverCert serverCn accept, E.received 0 = .ok m ∧
      checkChallenge L cfg E.clock m = .ok (challenge, serverCert, serverCn) ∧
      E.received 1 = .ok (.accept accept) ∧
      checkServer L E serverCert (challenge.challenge ++ rnd.nonceC) accept.sigS = .ok () ∧
      KeyAgrees L rnd.ecdh accept.ecdhPubS

theorem clientFinish_returns_iff {challenge : ChallengeMsg} {serverCert : Certificate}
    {serverCn : Str} {accept : AcceptMsg} {w w' : PlainWorld} {evs : List PlainEvent}
    {v : Except Raised ClientHandshakeResult}
    (h : Runs (clientFinish L E rnd challenge serverCert serverCn accept) w evs v w') :
    (∃ r, v = .ok r) ↔
      checkServer L E serverCert (challenge.challenge ++ rnd.nonceC) accept.sigS = .ok () ∧
        KeyAgrees L rnd.ecdh accept.ecdhPubS := by
  obtain ⟨text, hcheck, -, rfl⟩ | ⟨u, hcheck, hrest⟩ := bind_orFail_inv h
  · rw [hcheck]
    exact iff_of_false (by simp) (by simp)
  rw [hcheck, and_iff_right rfl]
  obtain ⟨hagrees, sessionKey, hkey⟩ | ⟨hnot, e, hkey⟩ :=
    deriveSessionKey_cases L rnd.ecdh accept.ecdhPubS rnd.nonceC challenge.nonceS
  · rw [show clientSessionKey L rnd challenge accept = .ok sessionKey from hkey] at hrest
    obtain ⟨secret, -, rfl⟩ := deriveSessionKey_ok hkey
    simp only [codec_of_hkdf] at hrest
    obtain ⟨rfl, -⟩ := hrest.pure_inv
    exact iff_of_true ⟨_, rfl⟩ hagrees
  · rw [show clientSessionKey L rnd challenge accept = .error e from hkey] at hrest
    obtain ⟨rfl, -⟩ := hrest.raise_inv
    exact iff_of_false (by simp) hnot

/-- **When the client's handshake returns.** -/
theorem client_returns_iff (L : CryptoLib) (E : PlainEnv) (cfg : ClientConfig)
    (rnd : ClientRandom) :
    (∃ r, (performClientHandshake L E cfg rnd .start).value = .ok r) ↔
      Completes L E cfg rnd := by
  have hrun := runs_self (performClientHandshake L E cfg rnd) .start
  generalize (performClientHandshake L E cfg rnd .start).value = v at hrun
  unfold Completes
  -- statement by statement: a step that fails refutes both sides, one that does not drops out
  obtain ⟨e, hlost, -, rfl⟩ | ⟨evs₁, hsent, -, hreceive⟩ := bind_sendPlain_inv hrun
  · rw [show E.sendFault 0 = some e from hlost]
    exact iff_of_false (by simp) (by simp)
  rw [and_iff_right (show E.sendFault 0 = none from hsent)]
  obtain ⟨e, hnone, -, rfl⟩ | ⟨m, evs₂, hm, -, hchallenge⟩ := bind_recvOr_inv hreceive
  · simp [show E.received 0 = .error e from hnone]
  rw [show E.received 0 = .ok m from hm]
  obtain ⟨text, hcheck, -, rfl⟩ | ⟨⟨challenge, serverCert, serverCn⟩, hcheck, hsigning⟩ :=
    bind_orFail_inv hchallenge
  · refine iff_of_false (by simp) ?_
    rintro ⟨-, -, m', challenge, serverCert, serverCn, accept, hm', hok, -⟩
    cases hm'
    rw [hcheck] at hok
    cases hok
  obtain ⟨text, hsign, -, rfl⟩ | ⟨sigC, hsign, hsend⟩ := bind_orFail_inv hsigning
  · exact iff_of_false (by simp) fun h => not_supported_of_sign hsign h.2.1
  obtain ⟨e, hlost, -, rfl⟩ | ⟨evs₃, hsent', -, hreceive'⟩ := bind_sendPlain_inv hsend
  · rw [show E.sendFault 1 = some e from hlost]
    exact iff_of_false (by simp) (by simp)
  rw [and_iff_right (show E.sendFault 1 = none from hsent'),
    and_iff_right (supported_of_sign hsign)]
  obtain ⟨e, hnone, -, rfl⟩ | ⟨m', evs₄, hm', -, haccept⟩ := bind_recvOr_inv hreceive'
  · simp [show E.received 1 = .error e from hnone]
  rw [show E.received 1 = .ok m' from hm']
  obtain ⟨text, hcheck', -, rfl⟩ | ⟨accept, hcheck', hfinish⟩ := bind_orFail_inv haccept
  · refine iff_of_false (by simp) ?_
    rintro ⟨m'', challenge', serverCert', serverCn', accept, -, -, hm'', -⟩
    cases hm''
    cases hcheck'
  obtain rfl := checkAccept_ok hcheck'
  rw [clientFinish_returns_iff hfinish]
  -- what is left are the checks of ACCEPT, on the messages that were received
  constructor
  · rintro ⟨hserver, hagrees⟩
    exact ⟨m, challenge, serverCert, serverCn, accept, rfl, hcheck, rfl, hserver, hagrees⟩
  · rintro ⟨m'', challenge', serverCert', serverCn', accept', hm'', hok, haccept', hserver, hagrees⟩
    cases hm''
    cases haccept'
    rw [hcheck] at hok
    cases hok
    exact ⟨hserver, hagrees⟩

end Client

/-! ### The state machines -/

/-- A connection that fails nothing, and certificates whose keys can be read. -/
structure PlainEnv.Reliable (E : PlainEnv) : Prop where
  sends : ∀ n, E.sendFault n = none
  keys : ∀ cert, E.publicKeyFault cert = none

/-- What the state machines see of a receive. -/
def toReceived (r : Except NetExn AnyMsg) : Received := r.mapError NetExn.text

/-- What the state machines see of an exception. -/
def Raised.exn : Raised → HandshakeExn
  | .handshakeError text => .handshakeError text
  | .session e => .session e
  | .codec e => .codec e
  | .net e => .received e.text
  | .publicKey text => .received text

def PlainEvent.sent? : PlainEvent → Option AnyMsg
  | .sent m => some m
  | _ => none

/-- The messages sent. -/
def plainSends (evs : List PlainEvent) : List AnyMsg := evs.filterMap PlainEvent.sent?

theorem plainSends_sendEvents {E : PlainEnv} (hE : E.Reliable) (n : Nat) (m : AnyMsg) :
    plainSends (sendEvents E n m) = [m] := by
  rw [sendEvents_ok (hE.sends n)]
  rfl

section Refines

variable {L : CryptoLib} {E : PlainEnv}

/-- The state machine of the server makes the checks of the program. -/
theorem serverOnHello_ok (cfg : ServerConfig) (rnd : ServerRandom) (now : Clock) (m : AnyMsg) :
    serverOnHello L cfg rnd now (.ok m) =
      match checkHello L cfg now m with
      | .error text => serverReject text
      | .ok (hello, clientCert, clientCn) =>
        (.awaitResponse clientCert clientCn hello (EphemeralKey.init L rnd.ecdh),
          [.challenge (challengeMessage L cfg rnd)]) := by
  cases m with
  | hello m =>
    simp only [serverOnHello, checkHello]
    cases validateHelloTimestamp now.timeNs m.tsNs with
    | error text => rfl
    | ok u =>
      cases acceptCert L now.utc m.clientCertPem cfg.caCert with
      | error text => rfl
      | ok accepted =>
        simp only
        split
        · rfl
        · rfl
  | _ => rfl

theorem serverOnResponse_ok (cfg : ServerConfig) (rnd : ServerRandom) (cert : Certificate)
    (cn : Str) (hello : HelloMsg) (ecdh : EphemeralKey) {m : AnyMsg} {text : Str}
    (h : checkResponse m = .error text) :
    serverOnResponse L cfg rnd cert cn hello ecdh (.ok m) = serverReject text := by
  cases m with
  | response m => cases h
  | _ =>
    cases h
    rfl

/-- The two receives of the state machine of the server. -/
def serverMachine (L : CryptoLib) (E : PlainEnv) (cfg : ServerConfig) (rnd : ServerRandom) :
    ServerState × List AnyMsg :=
  let s₁ := serverRecv L cfg rnd E.clock .awaitHello (toReceived (E.received 0))
  let s₂ := serverRecv L cfg rnd E.clock s₁.1 (toReceived (E.received 1))
  (s₂.1, s₁.2 ++ s₂.2)

/-- The state in which the machine of the server should end. -/
def ServerState.Ends (s : ServerState) : Except Raised ServerHandshakeResult → Prop
  | .ok r => ∃ t, s = .done r t
  | .error e => s = .failed e.exn

/-- After a HELLO that passes, the machine of the server waits for the RESPONSE. -/
theorem Opened.serverMachine {cfg : ServerConfig} {rnd : ServerRandom} {hello : HelloMsg}
    {cert : Certificate} {cn : Str} (h : Opened L E cfg hello cert cn) {r : Received}
    (hr : toReceived (E.received 1) = r) :
    serverMachine L E cfg rnd =
      ((serverOnResponse L cfg rnd cert cn hello (EphemeralKey.init L rnd.ecdh) r).1,
        .challenge (challengeMessage L cfg rnd) ::
          (serverOnResponse L cfg rnd cert cn hello (EphemeralKey.init L rnd.ecdh) r).2) := by
  have hfirst : serverRecv L cfg rnd E.clock .awaitHello (toReceived (E.received 0)) =
      (.awaitResponse cert cn hello (EphemeralKey.init L rnd.ecdh),
        [.challenge (challengeMessage L cfg rnd)]) := by
    rw [h.first]
    exact (serverOnHello_ok cfg rnd E.clock (.hello hello)).trans (by rw [h.checked])
  unfold Chiralite.serverMachine
  rw [hfirst]
  rw [hr]
  rfl

/-- **The server's program and its state machine** agree where nothing fails on the connection. -/
theorem performServerHandshake_refines (hE : E.Reliable) (cfg : ServerConfig)
    (rnd : ServerRandom) :
    plainSends (performServerHandshake L E cfg rnd .start).events =
        (serverMachine L E cfg rnd).2 ∧
      (serverMachine L E cfg rnd).1.Ends (performServerHandshake L E cfg rnd .start).value := by
  have hcourse := performServerHandshake_course L E cfg rnd (runs_self _ _)
  generalize (performServerHandshake L E cfg rnd .start).events = evs at hcourse
  generalize (performServerHandshake L E cfg rnd .start).value = v at hcourse
  cases hcourse with
  | noHello hnone =>
    simp only [serverMachine, hnone]
    exact ⟨rfl, rfl⟩
  | @helloRejected m text hm hcheck =>
    have hfirst : serverRecv L cfg rnd E.clock .awaitHello (toReceived (E.received 0)) =
        serverReject text := by
      rw [hm]
      exact (serverOnHello_ok cfg rnd E.clock m).trans (by rw [hcheck])
    simp only [serverMachine, hfirst]
    exact ⟨plainSends_sendEvents hE 0 _, rfl⟩
  | challengeLost hopened hlost =>
    -- no send fails on this connection
    rw [hE.sends] at hlost
    cases hlost
  | @noResponse hello cert cn e hopened hsent hnone =>
    rw [hopened.serverMachine (congrArg toReceived hnone)]
    exact ⟨rfl, rfl⟩
  | responseRejected hopened hsent hm hcheck =>
    rw [hopened.serverMachine (congrArg toReceived hm)]
    rw [show toReceived (.ok _) = .ok _ from rfl, serverOnResponse_ok _ _ _ _ _ _ hcheck]
    exact ⟨congrArg (List.cons _) (plainSends_sendEvents hE 1 _), rfl⟩
  | keyUnreadable hanswered hkey =>
    rw [hE.keys] at hkey
    cases hkey
  | signatureRejected hanswered hkey hverify =>
    rw [hanswered.serverMachine (congrArg toReceived hanswered.second)]
    simp only [toReceived, Except.mapError, serverOnResponse, hverify]
    exact ⟨congrArg (List.cons _) (plainSends_sendEvents hE 1 _), rfl⟩
  | keyUnsupported hverified hsign =>
    rw [hverified.serverMachine (congrArg toReceived hverified.second)]
    simp only [toReceived, Except.mapError, serverOnResponse, hverified.signature, hsign]
    exact ⟨rfl, rfl⟩
  | acceptLost hverified hsign hlost =>
    rw [hE.sends] at hlost
    cases hlost
  | noSessionKey hverified hsign hsent hkey =>
    unfold serverSessionKey at hkey
    rw [hverified.serverMachine (congrArg toReceived hverified.second)]
    simp only [toReceived, Except.mapError, serverOnResponse, hverified.signature, hsign, hkey]
    exact ⟨rfl, rfl⟩
  | completed hverified hsign hsent hkey =>
    have hcodec := codec_of_sessionKey L rnd hkey rnd.sessionToken
    unfold serverSessionKey at hkey
    rw [hverified.serverMachine (congrArg toReceived hverified.second)]
    simp only [toReceived, Except.mapError, serverOnResponse, hverified.signature, hsign, hkey,
      hcodec]
    exact ⟨rfl, _, rfl⟩

/-- The state machine of the client makes the checks of the program. -/
theorem clientOnChallenge_ok (cfg : ClientConfig) (now : Clock) (nonceC : Bytes)
    (ecdh : EphemeralKey) (m : AnyMsg) :
    clientOnChallenge L cfg now nonceC ecdh (.ok m) =
      match checkChallenge L cfg now m with
      | .error text => (.failed (.handshakeError text), [])
      | .ok (challenge, serverCert, serverCn) =>
        match signChallenge L (challenge.challenge ++ challenge.nonceS) cfg.clientKey with
        | .error text => (.failed (.handshakeError text), [])
        | .ok sigC =>
          (.awaitAccept nonceC ecdh serverCert serverCn challenge.nonceS challenge.challenge
            ⟨sigC, ecdh.publicBytes⟩, [.response ⟨sigC, ecdh.publicBytes⟩]) := by
  cases m with
  | challenge m =>
    simp only [clientOnChallenge, checkChallenge]
    cases acceptCert L now.utc m.serverCertPem cfg.caCert with
    | error text => rfl
    | ok accepted => rfl
  | _ => rfl

theorem clientOnAccept_error (nonceC : Bytes) (ecdh : EphemeralKey) (cert : Certificate) (cn : Str)
    (nonceS challenge : Bytes) (response : ResponseMsg) {m : AnyMsg} {text : Str}
    (h : checkAccept m = .error text) :
    clientOnAccept L nonceC ecdh cert cn nonceS challenge response (.ok m) =
      .failed (.handshakeError text) := by
  cases m with
  | accept m => cases h
  | _ =>
    cases h
    rfl

/-- The start and the two receives of the state machine of the client. -/
def clientMachine (L : CryptoLib) (E : PlainEnv) (cfg : ClientConfig) (rnd : ClientRandom) :
    ClientState × List AnyMsg :=
  let s₀ := clientStart L cfg rnd
  let s₁ := clientRecv L cfg E.clock s₀.1 (toReceived (E.received 0))
  let s₂ := clientRecv L cfg E.clock s₁.1 (toReceived (E.received 1))
  (s₂.1, s₀.2 ++ s₁.2 ++ s₂.2)

/-- The state in which the machine of the client should end. -/
def ClientState.Ends (s : ClientState) : Except Raised ClientHandshakeResult → Prop
  | .ok r => ∃ t, s = .done r t
  | .error e => s = .failed e.exn

/-- **The client's program and its state machine** agree where nothing fails on the connection. -/
theorem performClientHandshake_refines (hE : E.Reliable) (cfg : ClientConfig)
    (rnd : ClientRandom) :
    plainSends (performClientHandshake L E cfg rnd .start).events =
        (clientMachine L E cfg rnd).2 ∧
      (clientMachine L E cfg rnd).1.Ends (performClientHandshake L E cfg rnd .start).value := by
  have hrun := runs_self (performClientHandshake L E cfg rnd) .start
  generalize (performClientHandshake L E cfg rnd .start).value = v at hrun
  generalize (performClientHandshake L E cfg rnd .start).events = evs at hrun
  have hnofault : ∀ {n e}, E.sendFault n ≠ some e := by
    intro n e h
    rw [hE.sends] at h
    cases h
  unfold clientMachine clientStart
  -- CHALLENGE
  obtain ⟨e, hlost, -⟩ | ⟨evs₁, -, rfl, hreceive⟩ := bind_sendPlain_inv hrun
  · exact absurd hlost hnofault
  obtain ⟨e, hnone, rfl, rfl⟩ | ⟨m, evs₂, hm, rfl, hchallenge⟩ := bind_recvOr_inv hreceive
  · rw [show E.received 0 = .error e from hnone]
    exact ⟨rfl, rfl⟩
  rw [show E.received 0 = .ok m from hm]
  have hfirst := clientOnChallenge_ok (L := L) cfg E.clock rnd.nonceC
    (EphemeralKey.init L rnd.ecdh) m
  simp only [clientRecv, toReceived, Except.mapError, hfirst]
  obtain ⟨text, hcheck, rfl, rfl⟩ | ⟨⟨challenge, serverCert, serverCn⟩, hcheck, hsigning⟩ :=
    bind_orFail_inv hchallenge
  · simp only [hcheck]
    exact ⟨rfl, rfl⟩
  simp only [hcheck]
  obtain ⟨text, hsign, rfl, rfl⟩ | ⟨sigC, hsign, hsend⟩ := bind_orFail_inv hsigning
  · simp only [hsign]
    exact ⟨rfl, rfl⟩
  simp only [hsign]
  -- ACCEPT
  obtain ⟨e, hlost, -⟩ | ⟨evs₃, -, rfl, hreceive₂⟩ := bind_sendPlain_inv hsend
  · exact absurd hlost hnofault
  obtain ⟨e, hnone, rfl, rfl⟩ | ⟨m', evs₄, hm', rfl, haccept⟩ := bind_recvOr_inv hreceive₂
  · simp only [show E.received 1 = .error e from hnone]
    exact ⟨rfl, rfl⟩
  simp only [show E.received 1 = .ok m' from hm']
  obtain ⟨text, hcheck', rfl, rfl⟩ | ⟨accept, hcheck', hfinish⟩ := bind_orFail_inv haccept
  · rw [clientOnAccept_error _ _ _ _ _ _ _ hcheck']
    exact ⟨rfl, rfl⟩
  obtain rfl := checkAccept_ok hcheck'
  simp only [clientOnAccept]
  have hserver : checkServer L E serverCert (challenge.challenge ++ rnd.nonceC) accept.sigS =
      verifyPeer L "server" (challenge.challenge ++ rnd.nonceC) accept.sigS
        serverCert.publicKey := by
    simp only [checkServer, hE.keys]
  obtain ⟨text, hverify, rfl, rfl⟩ | ⟨u, hverify, hlast⟩ := bind_orFail_inv hfinish
  · rw [hserver] at hverify
    simp only [hverify]
    exact ⟨rfl, rfl⟩
  rw [hserver] at hverify
  simp only [hverify]
  cases hkey : clientSessionKey L rnd challenge accept with
  | error e =>
    rw [hkey] at hlast
    obtain ⟨rfl, rfl, -⟩ := hlast.raise_inv
    unfold clientSessionKey at hkey
    simp only [hkey]
    exact ⟨rfl, rfl⟩
  | ok sessionKey =>
    rw [hkey] at hlast
    unfold clientSessionKey at hkey
    simp only [hkey]
    cases hcodec : PayloadCodec.init sessionKey accept.sessionToken with
    | error e =>
      simp only [hcodec] at hlast
      obtain ⟨rfl, rfl, -⟩ := hlast.raise_inv
      exact ⟨rfl, rfl⟩
    | ok codec =>
      simp only [hcodec] at hlast
      obtain ⟨rfl, rfl, -⟩ := hlast.pure_inv
      exact ⟨rfl, _, rfl⟩

end Refines

end Chiralite
