import Chiralite.Crypto.Certificates
import Chiralite.Crypto.Payload
import Chiralite.Framework.Run

/-!
# The handshake

`crypto/session.py` and `crypto/handshake.py`: the HELLO, CHALLENGE, RESPONSE, ACCEPT exchange
that gives both sides a session key and a codec. Each side is a state machine whose inputs are
what `recv_plain` returns (a message, or an exception by its text) and whose outputs are the
messages it sends; the clock and the random values are inputs of the run. Sends succeed.

`Net` puts one client run and one server run on a network that delivers to either side
whatever it likes, in any order. What the two honest keys have signed is recorded, so that
"cannot forge signatures" is a guard on the deliveries (`Unforgeable`).

The signatures cover the challenge and a nonce. The ephemeral keys, the session token and the
silo travel beside them, and `handshake_agrees` says what follows: two completed runs agree on
each of the three when the field that carries it arrives as it was sent.
-/

namespace Chiralite

open Py Run

/-! ### Ephemeral keys -/

/-- `EphemeralKey`. A consumed key has no private part. -/
structure EphemeralKey where
  privateKey : Option Bytes
  publicBytes : Bytes
  deriving DecidableEq

/-- `EphemeralKey.__init__` with its random private key. -/
def EphemeralKey.init (L : CryptoLib) (random : Bytes) : EphemeralKey :=
  ⟨some random, L.x25519Public random⟩

/-- What `derive_session_key` raises. `from_public_bytes` accepts every 32-byte string, so the
handler around it is never reached. -/
inductive SessionExn where
  /-- `SessionError`: `ephemeral key already consumed`. -/
  | consumed
  /-- `SessionError`: `X25519 public key must be 32 bytes, got {n}`. -/
  | keySize (n : Nat)
  /-- `SessionError`: `X25519 exchange yielded all-zero shared secret`. -/
  | zeroSecret
  /-- The exception of `exchange` itself. -/
  | exchange
  deriving DecidableEq

/-- `_HKDF_INFO`. -/
def hkdfInfo : Bytes := "chiralite-session-v1".toList.map fun c => UInt8.ofNat c.toNat

/-- `EphemeralKey.derive_session_key`. -/
def EphemeralKey.deriveSessionKey (L : CryptoLib) (k : EphemeralKey)
    (remotePublicBytes nonceC nonceS : Bytes) : Except SessionExn Bytes × EphemeralKey :=
  match k.privateKey with
  | none => (.error .consumed, k)
  | some priv =>
    if remotePublicBytes.length ≠ 32 then (.error (.keySize remotePublicBytes.length), k)
    else
      match L.x25519Exchange priv remotePublicBytes with
      | none => (.error .exchange, k)
      | some sharedSecret =>
        let k' := { k with privateKey := none }
        if sharedSecret = List.replicate 32 0 then (.error .zeroSecret, k')
        else (.ok (L.hkdf sharedSecret (nonceC ++ nonceS) hkdfInfo), k')

/-! ### Signatures and the clock -/

/-- `sign_challenge`. -/
def signChallenge (L : CryptoLib) (data : Bytes) : PrivateKey → Except Str Bytes
  | .ed25519 raw => .ok (L.ed25519Sign raw data)
  | .ec raw => .ok (L.ecSign raw .sha256 data)
  | .other typeName => .error (lit "unsupported private key type: " ++ typeName)

/-- `verify_signature`. -/
def verifySignature (L : CryptoLib) (data signature : Bytes) : PublicKey → Except Str Unit
  | .ed25519 raw =>
    if L.ed25519Verify raw signature data then .ok ()
    else .error (lit "signature verification failed")
  | .ec raw =>
    if L.ecVerify raw .sha256 signature data then .ok ()
    else .error (lit "signature verification failed")
  | .other typeName => .error (lit "unsupported public key type: " ++ typeName)

/-- The check of the peer's signature, after the check of its key type. -/
def verifyPeer (L : CryptoLib) (side : String) (data signature : Bytes) (key : PublicKey) :
    Except Str Unit :=
  match key with
  | .other typeName =>
    .error (lit "unsupported " ++ lit side ++ lit " key type: " ++ typeName)
  | key => verifySignature L data signature key

/-- `validate_hello_timestamp` with the default tolerance of 30 seconds. -/
def validateHelloTimestamp (nowNs tsNs : Int) : Except Str Unit :=
  let driftNs := (nowNs - tsNs).natAbs
  if driftNs > 30000000000 then
    .error (lit "HELLO timestamp rejected: drift " ++ Json.dumpNat (driftNs / 1000000) ++
      lit " ms > " ++ Json.dumpNat (30000000000 / 1000000) ++ lit " ms tolerance")
  else .ok ()

/-- The peer's certificate: parsed, verified against the CA, and its common name read. -/
def acceptCert (L : CryptoLib) (nowUtc : Int) (pem : Str) (caCert : Certificate) :
    Except Str (Certificate × Str) :=
  match L.loadPem pem with
  | .error text => .error text
  | .ok cert =>
    match verifyChain L nowUtc cert caCert with
    | .error text => .error text
    | .ok () =>
      match getCn cert with
      | .error text => .error text
      | .ok cn => .ok (cert, cn)

/-- What `recv_plain` returns: a message, or an exception by its text. -/
abbrev Received := Except Str AnyMsg

/-- The two clocks the handshake reads: certificate time, and `time.time_ns()`. -/
structure Clock where
  utc : Int
  timeNs : Int
  deriving DecidableEq

/-- How a handshake ends when it raises. -/
inductive HandshakeExn where
  /-- `HandshakeError` with its text. -/
  | handshakeError (text : Str)
  /-- An exception of the key derivation. -/
  | session (e : SessionExn)
  /-- An exception of the codec's constructor. -/
  | codec (e : CodecError)
  /-- An exception of `recv_plain` that is not wrapped. -/
  | received (text : Str)
  deriving DecidableEq

/-! ### The client -/

/-- The arguments of `perform_client_handshake`. -/
structure ClientConfig where
  siloId : Uuid
  clientCert : Certificate
  clientKey : PrivateKey
  caCert : Certificate

/-- The random values of a client run and the clock of its HELLO. -/
structure ClientRandom where
  nonceC : Bytes
  ecdh : Bytes
  tsNs : Int

/-- `ClientHandshakeResult`. -/
structure ClientHandshakeResult where
  codec : PayloadCodec
  sessionToken : Bytes
  serverCn : Str
  deriving DecidableEq

/-- What a completed client run has sent and received. -/
structure ClientTranscript where
  nonceC : Bytes
  nonceS : Bytes
  challenge : Bytes
  response : ResponseMsg
  accept : AcceptMsg
  deriving DecidableEq

/-- Where a client run stands. -/
inductive ClientState where
  | awaitChallenge (nonceC : Bytes) (ecdh : EphemeralKey)
  | awaitAccept (nonceC : Bytes) (ecdh : EphemeralKey) (serverCert : Certificate)
      (serverCn : Str) (nonceS challenge : Bytes) (response : ResponseMsg)
  | done (r : ClientHandshakeResult) (t : ClientTranscript)
  | failed (e : HandshakeExn)
  deriving DecidableEq

/-- `perform_client_handshake` up to its first receive. -/
def clientStart (L : CryptoLib) (cfg : ClientConfig) (rnd : ClientRandom) :
    ClientState × List AnyMsg :=
  (.awaitChallenge rnd.nonceC (EphemeralKey.init L rnd.ecdh),
    [.hello ⟨L.toPem cfg.clientCert, rnd.nonceC, rnd.tsNs, cfg.siloId⟩])

/-- From CHALLENGE to RESPONSE. -/
def clientOnChallenge (L : CryptoLib) (cfg : ClientConfig) (now : Clock) (nonceC : Bytes)
    (ecdh : EphemeralKey) : Received → ClientState × List AnyMsg
  | .error text => (.failed (.received text), [])
  | .ok (.authError e) =>
    (.failed (.handshakeError (lit "server rejected HELLO: " ++ e.reason)), [])
  | .ok (.challenge m) =>
    match acceptCert L now.utc m.serverCertPem cfg.caCert with
    | .error text =>
      (.failed (.handshakeError (lit "server certificate rejected: " ++ text)), [])
    | .ok (serverCert, serverCn) =>
      match signChallenge L (m.challenge ++ m.nonceS) cfg.clientKey with
      | .error text => (.failed (.handshakeError text), [])
      | .ok sigC =>
        (.awaitAccept nonceC ecdh serverCert serverCn m.nonceS m.challenge
            ⟨sigC, ecdh.publicBytes⟩,
          [.response ⟨sigC, ecdh.publicBytes⟩])
  | .ok m => (.failed (.handshakeError (lit "expected CHALLENGE, got " ++ m.typeName)), [])

/-- From ACCEPT to the result. -/
def clientOnAccept (L : CryptoLib) (nonceC : Bytes) (ecdh : EphemeralKey)
    (serverCert : Certificate) (serverCn : Str) (nonceS challenge : Bytes)
    (response : ResponseMsg) : Received → ClientState
  | .error text => .failed (.received text)
  | .ok (.authError e) => .failed (.handshakeError (lit "server rejected RESPONSE: " ++ e.reason))
  | .ok (.accept m) =>
    match verifyPeer L "server" (challenge ++ nonceC) m.sigS serverCert.publicKey with
    | .error text => .failed (.handshakeError text)
    | .ok () =>
      match (ecdh.deriveSessionKey L m.ecdhPubS nonceC nonceS).1 with
      | .error e => .failed (.session e)
      | .ok sessionKey =>
        match PayloadCodec.init sessionKey m.sessionToken with
        | .error e => .failed (.codec e)
        | .ok codec =>
          .done ⟨codec, m.sessionToken, serverCn⟩ ⟨nonceC, nonceS, challenge, response, m⟩
  | .ok m => .failed (.handshakeError (lit "expected ACCEPT, got " ++ m.typeName))

/-- One receive of `perform_client_handshake`; a run that has ended receives nothing. -/
def clientRecv (L : CryptoLib) (cfg : ClientConfig) (now : Clock) (s : ClientState)
    (m : Received) : ClientState × List AnyMsg :=
  match s with
  | .awaitChallenge nonceC ecdh => clientOnChallenge L cfg now nonceC ecdh m
  | .awaitAccept nonceC ecdh serverCert serverCn nonceS challenge response =>
    (clientOnAccept L nonceC ecdh serverCert serverCn nonceS challenge response m, [])
  | s => (s, [])

/-! ### The server -/

/-- The arguments of `perform_server_handshake`. -/
structure ServerConfig where
  serverCert : Certificate
  serverKey : PrivateKey
  caCert : Certificate
  allowedSilos : Dict Str (List Uuid)

/-- The random values of a server run. -/
structure ServerRandom where
  nonceS : Bytes
  challenge : Bytes
  ecdh : Bytes
  sessionToken : Bytes

/-- `ServerHandshakeResult`. -/
structure ServerHandshakeResult where
  codec : PayloadCodec
  sessionToken : Bytes
  clientCn : Str
  siloId : Uuid
  deriving DecidableEq

/-- What a completed server run has received and sent. -/
structure ServerTranscript where
  hello : HelloMsg
  nonceS : Bytes
  challenge : Bytes
  response : ResponseMsg
  accept : AcceptMsg
  deriving DecidableEq

/-- Where a server run stands. -/
inductive ServerState where
  | awaitHello
  | awaitResponse (clientCert : Certificate) (clientCn : Str) (hello : HelloMsg)
      (ecdh : EphemeralKey)
  | done (r : ServerHandshakeResult) (t : ServerTranscript)
  | failed (e : HandshakeExn)
  deriving DecidableEq

/-- `_reject` and `raise HandshakeError`, with one text. -/
def serverReject (text : Str) : ServerState × List AnyMsg :=
  (.failed (.handshakeError text), [.authError ⟨text⟩])

/-- From HELLO to CHALLENGE. -/
def serverOnHello (L : CryptoLib) (cfg : ServerConfig) (rnd : ServerRandom) (now : Clock) :
    Received → ServerState × List AnyMsg
  | .error text => (.failed (.handshakeError (lit "failed to receive HELLO: " ++ text)), [])
  | .ok (.hello m) =>
    match validateHelloTimestamp now.timeNs m.tsNs with
    | .error text => serverReject text
    | .ok () =>
      match acceptCert L now.utc m.clientCertPem cfg.caCert with
      | .error text => serverReject (lit "client certificate rejected: " ++ text)
      | .ok (clientCert, clientCn) =>
        -- an empty policy allows every silo
        if cfg.allowedSilos.items ≠ [] ∧ m.siloId ∉ (cfg.allowedSilos.get? clientCn).getD [] then
          serverReject (lit "silo " ++ uuidStr m.siloId ++ lit " not allowed for CN=" ++
            L.reprStr clientCn)
        else
          (.awaitResponse clientCert clientCn m (EphemeralKey.init L rnd.ecdh),
            [.challenge ⟨L.toPem cfg.serverCert, rnd.nonceS, rnd.challenge⟩])
  | .ok m => serverReject (lit "expected HELLO, got " ++ m.typeName)

/-- From RESPONSE to ACCEPT and the result. ACCEPT leaves before the key is derived. -/
def serverOnResponse (L : CryptoLib) (cfg : ServerConfig) (rnd : ServerRandom)
    (clientCert : Certificate) (clientCn : Str) (hello : HelloMsg) (ecdh : EphemeralKey) :
    Received → ServerState × List AnyMsg
  | .error text => (.failed (.handshakeError (lit "failed to receive RESPONSE: " ++ text)), [])
  | .ok (.response m) =>
    match verifyPeer L "client" (rnd.challenge ++ rnd.nonceS) m.sigC clientCert.publicKey with
    | .error text => serverReject text
    | .ok () =>
      match signChallenge L (rnd.challenge ++ hello.nonceC) cfg.serverKey with
      | .error text => (.failed (.handshakeError text), [])
      | .ok sigS =>
        let accept : AcceptMsg := ⟨sigS, ecdh.publicBytes, rnd.sessionToken, hello.siloId⟩
        match (ecdh.deriveSessionKey L m.ecdhPubC hello.nonceC rnd.nonceS).1 with
        | .error e => (.failed (.session e), [.accept accept])
        | .ok sessionKey =>
          match PayloadCodec.init sessionKey rnd.sessionToken with
          | .error e => (.failed (.codec e), [.accept accept])
          | .ok codec =>
            (.done ⟨codec, rnd.sessionToken, clientCn, hello.siloId⟩
                ⟨hello, rnd.nonceS, rnd.challenge, m, accept⟩,
              [.accept accept])
  | .ok m => serverReject (lit "expected RESPONSE, got " ++ m.typeName)

/-- One receive of `perform_server_handshake`; a run that has ended receives nothing. -/
def serverRecv (L : CryptoLib) (cfg : ServerConfig) (rnd : ServerRandom) (now : Clock)
    (s : ServerState) (m : Received) : ServerState × List AnyMsg :=
  match s with
  | .awaitHello => serverOnHello L cfg rnd now m
  | .awaitResponse clientCert clientCn hello ecdh =>
    serverOnResponse L cfg rnd clientCert clientCn hello ecdh m
  | s => (s, [])

/-! ### One client, one server, and the network between them -/

/-- The two honest parties of a run. -/
structure Parties where
  client : ClientConfig
  clientRandom : ClientRandom
  server : ServerConfig
  serverRandom : ServerRandom

/-- Both runs, what they have sent, and what their certificate keys have signed. -/
structure Net where
  client : ClientState
  server : ServerState
  clientSent : List AnyMsg
  serverSent : List AnyMsg
  clientSigned : List Bytes
  serverSigned : List Bytes

/-- The network hands something to one of the parties. -/
inductive NetAct where
  | toClient (now : Clock) (m : Received)
  | toServer (now : Clock) (m : Received)

/-- The data a client signs when it answers `m` with `sent`. -/
def clientSigns (m : Received) (sent : List AnyMsg) : List Bytes :=
  match m, sent with
  | .ok (.challenge c), [.response _] => [c.challenge ++ c.nonceS]
  | _, _ => []

/-- The data a server signs when it sends `sent` in state `s`. -/
def serverSigns (rnd : ServerRandom) (s : ServerState) (sent : List AnyMsg) : List Bytes :=
  match s, sent with
  | .awaitResponse _ _ hello _, [.accept _] => [rnd.challenge ++ hello.nonceC]
  | _, _ => []

/-- Both runs at their first receive. -/
def Net.start (L : CryptoLib) (P : Parties) : Net :=
  let c := clientStart L P.client P.clientRandom
  ⟨c.1, .awaitHello, c.2, [], [], []⟩

/-- One delivery. -/
def Net.step (L : CryptoLib) (P : Parties) (s : Net) : NetAct → Net
  | .toClient now m =>
    let r := clientRecv L P.client now s.client m
    { s with
      client := r.1
      clientSent := s.clientSent ++ r.2
      clientSigned := s.clientSigned ++ clientSigns m r.2 }
  | .toServer now m =>
    let r := serverRecv L P.server P.serverRandom now s.server m
    { s with
      server := r.1
      serverSent := s.serverSent ++ r.2
      serverSigned := s.serverSigned ++ serverSigns P.serverRandom s.server r.2 }

/-- What has been signed under a public key of the two honest certificates. -/
def Net.signedUnder (P : Parties) (s : Net) (key : PublicKey) : List Bytes :=
  (if P.client.clientCert.publicKey = key then s.clientSigned else []) ++
    (if P.server.serverCert.publicKey = key then s.serverSigned else [])

/-- The signatures a message carries. -/
def signaturesOf : Received → List Bytes
  | .ok (.response m) => [m.sigC]
  | .ok (.accept m) => [m.sigS]
  | _ => []

/-- What is delivered. -/
def NetAct.received : NetAct → Received
  | .toClient _ m => m
  | .toServer _ m => m

/-- The attacker cannot forge: every delivered signature that verifies under one of the two
honest keys was made with that key over the same data. -/
def Unforgeable (L : CryptoLib) (P : Parties) (s : Net) (a : NetAct) : Prop :=
  ∀ sig ∈ signaturesOf a.received,
    ∀ key ∈ [P.client.clientCert.publicKey, P.server.serverCert.publicKey],
      ∀ data, verifySignature L data sig key = .ok () → data ∈ s.signedUnder P key

/-! ### What a run keeps track of -/

section Invariants

variable {L : CryptoLib} {P : Parties}

/-- A derived key is the HKDF of the exchange with the given public key. -/
theorem deriveSessionKey_ok {random remote nonceC nonceS key : Bytes}
    (h : ((EphemeralKey.init L random).deriveSessionKey L remote nonceC nonceS).1 = .ok key) :
    ∃ secret, L.x25519Exchange random remote = some secret ∧
      key = L.hkdf secret (nonceC ++ nonceS) hkdfInfo := by
  unfold EphemeralKey.deriveSessionKey EphemeralKey.init at h
  simp only at h
  -- a public key of the wrong size, an exchange that raises and a secret of zeros lead to no key
  split at h
  · exact absurd h (by simp)
  · split at h
    · exact absurd h (by simp)
    · next secret hsecret =>
      split at h
      · exact absurd h (by simp)
      · exact ⟨secret, hsecret, (Except.ok.inj h).symm⟩

/-- Every state of a client run, in terms of its random values: the nonce and the ephemeral key
are its own, and a completed run has derived its key from the ACCEPT it received. -/
def ClientState.Inv (L : CryptoLib) (rnd : ClientRandom) : ClientState → Prop
  | .awaitChallenge nonceC ecdh => nonceC = rnd.nonceC ∧ ecdh = EphemeralKey.init L rnd.ecdh
  | .awaitAccept nonceC ecdh _ _ _ _ response =>
    nonceC = rnd.nonceC ∧ ecdh = EphemeralKey.init L rnd.ecdh ∧
      response.ecdhPubC = L.x25519Public rnd.ecdh
  | .done r t =>
    t.nonceC = rnd.nonceC ∧ t.response.ecdhPubC = L.x25519Public rnd.ecdh ∧
      r.sessionToken = t.accept.sessionToken ∧
      ∃ secret, L.x25519Exchange rnd.ecdh t.accept.ecdhPubS = some secret ∧
        r.codec = ⟨L.hkdf secret (t.nonceC ++ t.nonceS) hkdfInfo, r.sessionToken, 0, 0⟩
  | .failed _ => True

/-- Every state of a server run, in terms of its random values. -/
def ServerState.Inv (L : CryptoLib) (rnd : ServerRandom) : ServerState → Prop
  | .awaitHello => True
  | .awaitResponse _ _ _ ecdh => ecdh = EphemeralKey.init L rnd.ecdh
  | .done r t =>
    r.siloId = t.hello.siloId ∧ r.sessionToken = t.accept.sessionToken ∧
      t.accept.ecdhPubS = L.x25519Public rnd.ecdh ∧
      ∃ secret, L.x25519Exchange rnd.ecdh t.response.ecdhPubC = some secret ∧
        r.codec = ⟨L.hkdf secret (t.hello.nonceC ++ t.nonceS) hkdfInfo, r.sessionToken, 0, 0⟩
  | .failed _ => True

theorem clientOnChallenge_inv {cfg : ClientConfig} {rnd : ClientRandom} (now : Clock)
    (m : Received) :
    (clientOnChallenge L cfg now rnd.nonceC (EphemeralKey.init L rnd.ecdh) m).1.Inv L rnd := by
  unfold clientOnChallenge
  split
  · trivial
  · trivial
  · split
    · trivial
    · split
      · trivial
      · exact ⟨rfl, rfl, rfl⟩
  · trivial

theorem clientOnAccept_inv {rnd : ClientRandom} (cert : Certificate) (cn : Str)
    (nonceS challenge : Bytes) {response : ResponseMsg}
    (hresp : response.ecdhPubC = L.x25519Public rnd.ecdh) (m : Received) :
    (clientOnAccept L rnd.nonceC (EphemeralKey.init L rnd.ecdh) cert cn nonceS challenge response
      m).Inv L rnd := by
  unfold clientOnAccept
  -- only an ACCEPT that passes every check leads to a completed run
  split
  · trivial
  · trivial
  · split
    · trivial
    · split
      · trivial
      · next key hkey =>
        split
        · trivial
        · next codec hcodec =>
          obtain ⟨secret, hsecret, rfl⟩ := deriveSessionKey_ok hkey
          exact ⟨rfl, hresp, rfl, secret, hsecret, PayloadCodec.init_ok hcodec⟩
  · trivial

theorem serverOnHello_inv (cfg : ServerConfig) (rnd : ServerRandom) (now : Clock) (m : Received) :
    (serverOnHello L cfg rnd now m).1.Inv L rnd := by
  unfold serverOnHello
  split
  · trivial
  · split
    · trivial
    · split
      · trivial
      · split
        · trivial
        · rfl
  · trivial

theorem serverOnResponse_inv (cfg : ServerConfig) (rnd : ServerRandom) (cert : Certificate)
    (cn : Str) (hello : HelloMsg) (m : Received) :
    (serverOnResponse L cfg rnd cert cn hello (EphemeralKey.init L rnd.ecdh) m).1.Inv L rnd := by
  unfold serverOnResponse
  -- only a RESPONSE that passes every check leads to a completed run
  split
  · trivial
  · split
    · trivial
    · split
      · trivial
      · simp only
        split
        · trivial
        · next key hkey =>
          split
          · trivial
          · next codec hcodec =>
            obtain ⟨secret, hsecret, rfl⟩ := deriveSessionKey_ok hkey
            exact ⟨rfl, rfl, rfl, secret, hsecret, PayloadCodec.init_ok hcodec⟩
  · trivial

/-- Both runs meet their invariants. -/
def Net.Inv (L : CryptoLib) (P : Parties) (s : Net) : Prop :=
  s.client.Inv L P.clientRandom ∧ s.server.Inv L P.serverRandom

/-- **Step lemma.** Every delivery keeps the invariants, whatever is delivered. -/
theorem Net.Inv.step {s : Net} (h : s.Inv L P) (a : NetAct) : (s.step L P a).Inv L P := by
  obtain ⟨hc, hs⟩ := h
  cases a with
  | toClient now m =>
    -- a delivery to one party leaves the other where it is
    refine ⟨?_, hs⟩
    change (clientRecv L P.client now s.client m).1.Inv L P.clientRandom
    unfold clientRecv
    cases hst : s.client with
    | awaitChallenge nonceC ecdh =>
      rw [hst] at hc
      obtain ⟨rfl, rfl⟩ := hc
      exact clientOnChallenge_inv now m
    | awaitAccept nonceC ecdh cert cn nonceS challenge response =>
      rw [hst] at hc
      obtain ⟨rfl, rfl, hresp⟩ := hc
      exact clientOnAccept_inv cert cn nonceS challenge hresp m
    -- a run that has ended receives nothing
    | done r t => rw [hst] at hc; exact hc
    | failed e => trivial
  | toServer now m =>
    refine ⟨hc, ?_⟩
    change (serverRecv L P.server P.serverRandom now s.server m).1.Inv L P.serverRandom
    unfold serverRecv
    cases hst : s.server with
    | awaitHello => exact serverOnHello_inv P.server P.serverRandom now m
    | awaitResponse cert cn hello ecdh =>
      rw [hst] at hs
      obtain rfl := hs
      exact serverOnResponse_inv P.server P.serverRandom cert cn hello m
    | done r t => rw [hst] at hs; exact hs
    | failed e => trivial

/-- **Run lemma.** The invariants hold after every sequence of deliveries. -/
theorem Net.inv_run (L : CryptoLib) (P : Parties) (as : List NetAct) :
    (run (Net.step L P) (Net.start L P) as).Inv L P := by
  have hstep : ∀ (s : Net) (a : NetAct), s.Inv L P → True → (s.step L P a).Inv L P :=
    fun s a h _ => h.step a
  -- the fresh nonce and the fresh key are those of the start state
  refine run_invariant hstep ⟨⟨rfl, rfl⟩, trivial⟩ ?_
  exact guarded_of_forall fun _ _ => trivial

end Invariants

/-! ### Agreement -/

/-- The two completed runs went through the same challenge and nonces. -/
def SameNonces (tc : ClientTranscript) (ts : ServerTranscript) : Prop :=
  tc.challenge = ts.challenge ∧ tc.nonceC = ts.hello.nonceC ∧ tc.nonceS = ts.nonceS

/-- **Agreement.** When both runs have completed with the same challenge and nonces: the session
keys are the same if both ephemeral public keys arrived as they were sent, the session tokens
are the same exactly if ACCEPT's token arrived as it was sent, and the silo is the same if
HELLO's silo arrived as it was sent. -/
theorem handshake_agrees (L : CryptoLib) (P : Parties) (as : List NetAct)
    {rc : ClientHandshakeResult} {tc : ClientTranscript} {rs : ServerHandshakeResult}
    {ts : ServerTranscript}
    (hc : (run (Net.step L P) (Net.start L P) as).client = .done rc tc)
    (hs : (run (Net.step L P) (Net.start L P) as).server = .done rs ts)
    (hsame : SameNonces tc ts) :
    (tc.accept.ecdhPubS = ts.accept.ecdhPubS → ts.response.ecdhPubC = tc.response.ecdhPubC →
      rc.codec.key = rs.codec.key) ∧
    (rc.sessionToken = rs.sessionToken ↔ tc.accept.sessionToken = ts.accept.sessionToken) ∧
    (ts.hello.siloId = P.client.siloId → rs.siloId = P.client.siloId) := by
  obtain ⟨hinvc, hinvs⟩ := Net.inv_run L P as
  rw [hc] at hinvc
  rw [hs] at hinvs
  obtain ⟨-, hpubc, htokc, secretc, hexc, hcodecc⟩ := hinvc
  obtain ⟨hsilo, htoks, hpubs, secrets, hexs, hcodecs⟩ := hinvs
  obtain ⟨-, hnc, hns⟩ := hsame
  refine ⟨?_, ?_, ?_⟩
  · intro hkeyS hkeyC
    -- each side holds the other's public key, so both exchanges give one secret
    rw [hkeyS, hpubs, L.x25519Exchange_comm, ← hpubc, ← hkeyC, hexs] at hexc
    rw [hcodecc, hcodecs, Option.some.inj hexc, hnc, hns]
  · rw [htokc, htoks]
  · intro hhello
    rw [hsilo, hhello]

/-! ### Closed instances

A library without secrecy: a signature is the key and the data, an exchange adds the two keys
byte by byte. -/

/-- A byte string cut or padded to 32 bytes. -/
def pad32 (bs : Bytes) : Bytes := (bs ++ List.replicate 32 0).take 32

theorem length_pad32 (bs : Bytes) : (pad32 bs).length = 32 := by simp [pad32]

theorem pad32_pad32 (bs : Bytes) : pad32 (pad32 bs) = pad32 bs := by
  have hlen := length_pad32 bs
  have htake : ∀ xs : Bytes, xs.length = 32 → (xs ++ List.replicate 32 0).take 32 = xs := by
    intro xs hxs
    rw [← hxs, List.take_left]
  exact htake _ hlen

/-- The certificate authority of the instances. -/
def sampleCa : Certificate := ⟨0, 100, [some (lit "ca")], [3, 3], [3], none, .ed25519 [3]⟩

/-- The client's certificate, signed by `sampleCa`. -/
def sampleClientCert : Certificate :=
  ⟨0, 100, [some (lit "client")], [3, 10], [10], none, .ed25519 [1]⟩

/-- The server's certificate, signed by `sampleCa`. -/
def sampleServerCert : Certificate :=
  ⟨0, 100, [some (lit "server")], [3, 11], [11], none, .ed25519 [2]⟩

/-- The library of the instances. -/
def plainLib : CryptoLib where
  ed25519Public k := k
  ed25519Sign k data := k ++ data
  ed25519Verify k sig data := sig == k ++ data
  ecPublic k := k
  ecSign k _ data := k ++ data
  ecVerify k _ sig data := sig == k ++ data
  loadPem pem :=
    if pem = lit "C" then .ok sampleClientCert
    else if pem = lit "S" then .ok sampleServerCert
    else .error (lit "no PEM")
  toPem cert := if cert = sampleClientCert then lit "C" else lit "S"
  x25519Public := pad32
  x25519Exchange a b := some (List.zipWith (· + ·) (pad32 a) (pad32 b))
  hkdf secret _ _ := pad32 secret
  reprStr s := lit "'" ++ s ++ lit "'"
  ed25519_verify_sign := by
    intro k data
    exact beq_self_eq_true _
  ec_verify_sign := by
    intro k alg data
    exact beq_self_eq_true _
  length_x25519Public := length_pad32
  x25519Exchange_comm := by
    intro a b
    rw [pad32_pad32, pad32_pad32, List.zipWith_comm_of_comm (fun x y => UInt8.add_comm x y)]
  length_hkdf secret _ _ := length_pad32 secret

/-- Thirty-two bytes. -/
def bytes32 (b : UInt8) : Bytes := List.replicate 32 b

/-- The two parties of the instances. -/
def sampleParties : Parties where
  client := ⟨5, sampleClientCert, .ed25519 [1], sampleCa⟩
  clientRandom := ⟨bytes32 21, bytes32 31, 0⟩
  server := ⟨sampleServerCert, .ed25519 [2], sampleCa, Dict.empty⟩
  serverRandom := ⟨bytes32 22, bytes32 23, bytes32 32, bytes32 24⟩

/-- The clock of the instances. -/
def sampleClock : Clock := ⟨50, 0⟩

/-- The four messages delivered in order, RESPONSE and ACCEPT with the given public keys. -/
def sampleRun (ecdhPubC ecdhPubS : Bytes) : List NetAct :=
  [.toServer sampleClock (.ok (.hello ⟨lit "C", bytes32 21, 0, 5⟩)),
    .toClient sampleClock (.ok (.challenge ⟨lit "S", bytes32 22, bytes32 23⟩)),
    .toServer sampleClock (.ok (.response ⟨[1] ++ (bytes32 23 ++ bytes32 22), ecdhPubC⟩)),
    .toClient sampleClock
      (.ok (.accept ⟨[2] ++ (bytes32 23 ++ bytes32 21), ecdhPubS, bytes32 24, 5⟩))]

/-- The state after such a run. -/
def sampleEnd (ecdhPubC ecdhPubS : Bytes) : Net :=
  run (Net.step plainLib sampleParties) (Net.start plainLib sampleParties)
    (sampleRun ecdhPubC ecdhPubS)

theorem handshake_agrees_honest :
    ∃ rc tc rs ts, (sampleEnd (bytes32 31) (bytes32 32)).client = .done rc tc ∧
      (sampleEnd (bytes32 31) (bytes32 32)).server = .done rs ts ∧
      rc.codec.key = rs.codec.key ∧ rc.sessionToken = rs.sessionToken ∧ rs.siloId = 5 := by
  refine ⟨_, _, _, _, rfl, rfl, ?_⟩
  have hagree := handshake_agrees plainLib sampleParties (sampleRun (bytes32 31) (bytes32 32))
    rfl rfl ⟨rfl, rfl, rfl⟩
  exact ⟨hagree.1 (by decide) (by decide), hagree.2.1.mpr rfl, hagree.2.2 rfl⟩

/-- A signature of `plainLib` verifies for one key and one piece of data. -/
theorem verify_plainLib {k k' : UInt8} {data data' : Bytes}
    (h : verifySignature plainLib data ([k] ++ data') (.ed25519 [k']) = .ok ()) :
    k = k' ∧ data' = data := by
  have hv : ([k] ++ data' == [k'] ++ data) = true := by
    by_contra hne
    exact absurd ((if_neg hne).symm.trans h) (by simp)
  have heq : [k] ++ data' = [k'] ++ data := beq_iff_eq.mp hv
  simpa using heq

/-- Replacing only the public key of RESPONSE forges nothing. -/
theorem unforgeable_sampleRun :
    Guarded (Net.step plainLib sampleParties) (Unforgeable plainLib sampleParties)
      (Net.start plainLib sampleParties) (sampleRun (bytes32 9) (bytes32 32)) := by
  refine ⟨fun sig h => absurd h (by simp [signaturesOf, NetAct.received]),
    fun sig h => absurd h (by simp [signaturesOf, NetAct.received]), ?_, ?_, trivial⟩
  · -- RESPONSE: the client has signed what its signature covers
    intro sig hsig key hkey data hv
    obtain rfl := List.mem_singleton.mp hsig
    have hkey' : key = .ed25519 [1] ∨ key = .ed25519 [2] :=
      (List.mem_cons.mp hkey).imp_right List.mem_singleton.mp
    rcases hkey' with rfl | rfl
    · obtain ⟨-, rfl⟩ := verify_plainLib hv
      exact List.mem_append_left _ List.mem_cons_self
    · exact absurd (verify_plainLib hv).1 (by decide)
  · -- ACCEPT: likewise the server
    intro sig hsig key hkey data hv
    obtain rfl := List.mem_singleton.mp hsig
    have hkey' : key = .ed25519 [1] ∨ key = .ed25519 [2] :=
      (List.mem_cons.mp hkey).imp_right List.mem_singleton.mp
    rcases hkey' with rfl | rfl
    · exact absurd (verify_plainLib hv).1 (by decide)
    · obtain ⟨-, rfl⟩ := verify_plainLib hv
      exact List.mem_append_right _ List.mem_cons_self

/-- The attacker's public key in place of the client's: both runs complete, with different
keys. -/
theorem not_handshake_agrees :
    ¬ ∀ (L : CryptoLib) (P : Parties) (as : List NetAct),
      Guarded (Net.step L P) (Unforgeable L P) (Net.start L P) as →
      ∀ rc tc rs ts, (run (Net.step L P) (Net.start L P) as).client = .done rc tc →
        (run (Net.step L P) (Net.start L P) as).server = .done rs ts → SameNonces tc ts →
        rc.codec.key = rs.codec.key ∧ rc.sessionToken = rs.sessionToken ∧
          rs.siloId = P.client.siloId := by
  intro hall
  have hagree := hall plainLib sampleParties (sampleRun (bytes32 9) (bytes32 32))
    unforgeable_sampleRun _ _ _ _ rfl rfl ⟨rfl, rfl, rfl⟩
  exact absurd hagree.1 (by decide)

end Chiralite
