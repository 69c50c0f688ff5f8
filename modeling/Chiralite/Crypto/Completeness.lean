import Chiralite.Crypto.ClientHandshake
import Chiralite.Crypto.Duplex
import Chiralite.Protocol.Wire

/-!
# Completeness of the handshake

One client and one server with certificates that the other accepts, on a channel that delivers
what is sent, in order. Which message is delivered next, and at which clock, is left open, as long
as the clocks are within the tolerance where they are read.

Whatever the order of the deliveries, a link goes through five states (`Link.stage`): one message
is on its way until four have been delivered, and then both runs have completed.
The two programs, connected to each other, return the results of that last state
(`Compatible.programs`). `handshake_completes` reads them off, and says that the codecs
interoperate: in every run of the session that follows, what a side has received and what is on its
way to it is what the other side has sent (`Session.inv_run`).
-/

namespace Chiralite

open Py Run

/-! ### The link -/

/-- Both runs, the messages on their way, and how many have been delivered. -/
structure Link where
  client : ClientState
  server : ServerState
  toServer : List AnyMsg
  toClient : List AnyMsg
  delivered : Nat

/-- The next message for one of the sides is delivered. -/
inductive LinkAct where
  | toServer (now : Clock)
  | toClient (now : Clock)

namespace Link

def start (L : CryptoLib) (P : Parties) : Link :=
  let c := clientStart L P.client P.clientRandom
  ⟨c.1, .awaitHello, c.2, [], 0⟩

/-- One delivery; where nothing is on its way, nothing happens. -/
def step (L : CryptoLib) (P : Parties) (s : Link) : LinkAct → Link
  | .toServer now =>
    match s.toServer with
    | [] => s
    | m :: rest =>
      let r := serverRecv L P.server P.serverRandom now s.server (.ok m)
      { s with
        server := r.1
        toServer := rest
        toClient := s.toClient ++ r.2
        delivered := s.delivered + 1 }
  | .toClient now =>
    match s.toClient with
    | [] => s
    | m :: rest =>
      let r := clientRecv L P.client now s.client (.ok m)
      { s with
        client := r.1
        toClient := rest
        toServer := s.toServer ++ r.2
        delivered := s.delivered + 1 }

end Link

/-- The clocks are within the tolerance where they are read: the server's when HELLO arrives, the
client's when CHALLENGE does. -/
def Timely (P : Parties) (s : Link) : LinkAct → Prop
  | .toServer now => s.server = .awaitHello →
    (now.timeNs - P.clientRandom.tsNs).natAbs ≤ 30000000000 ∧
      P.client.clientCert.ValidAt now.utc
  | .toClient now => (∃ nonceC ecdh, s.client = .awaitChallenge nonceC ecdh) →
    P.server.serverCert.ValidAt now.utc

/-! ### Parties that accept each other -/

/-- The public key of a private key of a supported type. -/
def PrivateKey.publicKey? (L : CryptoLib) : PrivateKey → Option PublicKey
  | .ed25519 raw => some (.ed25519 (L.ed25519Public raw))
  | .ec raw => some (.ec (L.ecPublic raw))
  | .other _ => none

/-- **Compatible parties**: each has a certificate for its own key, of a supported type, that is
signed by the authority of the other; the silo is allowed for the client; and the two ephemeral
keys have a secret that is not zero. A certificate survives the way through PEM. -/
structure Compatible (L : CryptoLib) (P : Parties) (clientCn serverCn : Str) (secret : Bytes) :
    Prop where
  clientKey : P.client.clientKey.publicKey? L = some P.client.clientCert.publicKey
  serverKey : P.server.serverKey.publicKey? L = some P.server.serverCert.publicKey
  clientSigned : P.client.clientCert.SignedBy L P.server.caCert
  serverSigned : P.server.serverCert.SignedBy L P.client.caCert
  clientPem : L.loadPem (L.toPem P.client.clientCert) = .ok P.client.clientCert
  serverPem : L.loadPem (L.toPem P.server.serverCert) = .ok P.server.serverCert
  clientName : getCn P.client.clientCert = .ok clientCn
  serverName : getCn P.server.serverCert = .ok serverCn
  silo : P.server.allowedSilos.items = [] ∨
    ∃ silos, P.server.allowedSilos.get? clientCn = some silos ∧ P.client.siloId ∈ silos
  exchange : L.x25519Exchange P.clientRandom.ecdh (L.x25519Public P.serverRandom.ecdh) =
    some secret
  nonzero : secret ≠ List.replicate 32 0

/-- The signature that a key of a supported type gives. -/
def signatureOf (L : CryptoLib) (key : PrivateKey) (data : Bytes) : Bytes :=
  match signChallenge L data key with
  | .ok sig => sig
  | .error _ => []

section Signatures

variable {L : CryptoLib} {key : PrivateKey} {pub : PublicKey}

theorem signChallenge_of_publicKey (h : key.publicKey? L = some pub) (data : Bytes) :
    signChallenge L data key = .ok (signatureOf L key data) := by
  cases key with
  | ed25519 raw => rfl
  | ec raw => rfl
  | other typeName => cases h

/-- **A signature verifies** under the key of the certificate of its signer. -/
theorem verifyPeer_signatureOf (h : key.publicKey? L = some pub) (side : String) (data : Bytes) :
    verifyPeer L side data (signatureOf L key data) pub = .ok () := by
  cases key with
  | ed25519 raw =>
    cases h
    exact if_pos (L.ed25519_verify_sign raw data)
  | ec raw =>
    cases h
    exact if_pos (L.ec_verify_sign raw .sha256 data)
  | other typeName => cases h

end Signatures

/-- The key that a side derives. -/
theorem deriveSessionKey_of_exchange {L : CryptoLib} {random remote secret : Bytes}
    (hlength : remote.length = 32) (h : L.x25519Exchange random remote = some secret)
    (hzero : secret ≠ List.replicate 32 0) (nonceC nonceS : Bytes) :
    ((EphemeralKey.init L random).deriveSessionKey L remote nonceC nonceS).1 =
      .ok (L.hkdf secret (nonceC ++ nonceS) hkdfInfo) := by
  simp only [EphemeralKey.deriveSessionKey, EphemeralKey.init, hlength, h, ne_eq,
    not_true_eq_false, if_false, if_neg hzero]

/-! ### The five states of a link -/

section Stages

variable (L : CryptoLib) (P : Parties) (clientCn serverCn : Str) (secret : Bytes)

def helloSent : HelloMsg :=
  ⟨L.toPem P.client.clientCert, P.clientRandom.nonceC, P.clientRandom.tsNs, P.client.siloId⟩

def challengeSent : ChallengeMsg := challengeMessage L P.server P.serverRandom

def responseSent : ResponseMsg :=
  ⟨signatureOf L P.client.clientKey (P.serverRandom.challenge ++ P.serverRandom.nonceS),
    (EphemeralKey.init L P.clientRandom.ecdh).publicBytes⟩

def acceptSent : AcceptMsg :=
  acceptMessage L P.serverRandom (helloSent L P)
    (signatureOf L P.server.serverKey (P.serverRandom.challenge ++ P.clientRandom.nonceC))

/-- The codec that both sides come to have. -/
def sessionCodec : PayloadCodec :=
  ⟨L.hkdf secret (P.clientRandom.nonceC ++ P.serverRandom.nonceS) hkdfInfo,
    P.serverRandom.sessionToken, 0, 0⟩

def clientResult : ClientHandshakeResult :=
  ⟨sessionCodec L P secret, P.serverRandom.sessionToken, serverCn⟩

def serverResult : ServerHandshakeResult :=
  ⟨sessionCodec L P secret, P.serverRandom.sessionToken, clientCn, P.client.siloId⟩

def clientTranscript : ClientTranscript :=
  ⟨P.clientRandom.nonceC, P.serverRandom.nonceS, P.serverRandom.challenge, responseSent L P,
    acceptSent L P⟩

def serverTranscript : ServerTranscript :=
  ⟨helloSent L P, P.serverRandom.nonceS, P.serverRandom.challenge, responseSent L P,
    acceptSent L P⟩

/-- The client, after its HELLO. -/
def clientWaiting : ClientState :=
  .awaitChallenge P.clientRandom.nonceC (EphemeralKey.init L P.clientRandom.ecdh)

/-- The client, after its RESPONSE. -/
def clientAnswered : ClientState :=
  .awaitAccept P.clientRandom.nonceC (EphemeralKey.init L P.clientRandom.ecdh)
    P.server.serverCert serverCn P.serverRandom.nonceS P.serverRandom.challenge (responseSent L P)

/-- The server, after its CHALLENGE. -/
def serverWaiting : ServerState :=
  .awaitResponse P.client.clientCert clientCn (helloSent L P)
    (EphemeralKey.init L P.serverRandom.ecdh)

/-- **The states of a link**, by the number of messages that have been delivered. -/
def Link.stage : Nat → Link
  | 0 => ⟨clientWaiting L P, .awaitHello, [.hello (helloSent L P)], [], 0⟩
  | 1 => ⟨clientWaiting L P, serverWaiting L P clientCn, [], [.challenge (challengeSent L P)], 1⟩
  | 2 => ⟨clientAnswered L P serverCn, serverWaiting L P clientCn,
      [.response (responseSent L P)], [], 2⟩
  | 3 => ⟨clientAnswered L P serverCn,
      .done (serverResult L P clientCn secret) (serverTranscript L P), [],
      [.accept (acceptSent L P)], 3⟩
  | _ => ⟨.done (clientResult L P serverCn secret) (clientTranscript L P),
      .done (serverResult L P clientCn secret) (serverTranscript L P), [], [], 4⟩

end Stages

section Reactions

variable {L : CryptoLib} {P : Parties} {clientCn serverCn : Str} {secret : Bytes}

/-- The server accepts HELLO. -/
theorem Compatible.onHello (h : Compatible L P clientCn serverCn secret) {now : Clock}
    (htime : (now.timeNs - P.clientRandom.tsNs).natAbs ≤ 30000000000)
    (hvalid : P.client.clientCert.ValidAt now.utc) :
    serverRecv L P.server P.serverRandom now .awaitHello (.ok (.hello (helloSent L P))) =
      (serverWaiting L P clientCn, [.challenge (challengeSent L P)]) := by
  have hpasses : HelloPasses L P.server now (helloSent L P) P.client.clientCert clientCn :=
    ⟨htime, h.clientPem, hvalid, h.clientSigned, h.clientName, h.silo⟩
  show serverOnHello L P.server P.serverRandom now (.ok (.hello (helloSent L P))) = _
  rw [serverOnHello_ok, checkHello_ok_iff.mpr hpasses]
  rfl

/-- The client accepts CHALLENGE. -/
theorem Compatible.onChallenge (h : Compatible L P clientCn serverCn secret) {now : Clock}
    (hvalid : P.server.serverCert.ValidAt now.utc) :
    clientRecv L P.client now (clientWaiting L P) (.ok (.challenge (challengeSent L P))) =
      (clientAnswered L P serverCn, [.response (responseSent L P)]) := by
  have hcert : acceptCert L now.utc (challengeSent L P).serverCertPem P.client.caCert =
      .ok (P.server.serverCert, serverCn) :=
    acceptCert_ok_iff.mpr ⟨h.serverPem, hvalid, h.serverSigned, h.serverName⟩
  have hcheck : checkChallenge L P.client now (.challenge (challengeSent L P)) =
      .ok (challengeSent L P, P.server.serverCert, serverCn) := by
    simp only [checkChallenge, hcert]
  show clientOnChallenge L P.client now _ _ (.ok (.challenge (challengeSent L P))) = _
  rw [clientOnChallenge_ok, hcheck]
  simp only [signChallenge_of_publicKey h.clientKey]
  rfl

/-- The server accepts RESPONSE, and has its key. -/
theorem Compatible.onResponse (h : Compatible L P clientCn serverCn secret) (now : Clock) :
    serverRecv L P.server P.serverRandom now (serverWaiting L P clientCn)
        (.ok (.response (responseSent L P))) =
      (.done (serverResult L P clientCn secret) (serverTranscript L P),
        [.accept (acceptSent L P)]) := by
  have hverify : verifyPeer L "client" (P.serverRandom.challenge ++ P.serverRandom.nonceS)
      (responseSent L P).sigC P.client.clientCert.publicKey = .ok () :=
    verifyPeer_signatureOf h.clientKey _ _
  have hexchange : L.x25519Exchange P.serverRandom.ecdh (responseSent L P).ecdhPubC =
      some secret := by
    rw [← h.exchange, L.x25519Exchange_comm]
    rfl
  have hlength : (responseSent L P).ecdhPubC.length = 32 :=
    L.length_x25519Public P.clientRandom.ecdh
  have hkey := deriveSessionKey_of_exchange hlength hexchange h.nonzero (helloSent L P).nonceC
    P.serverRandom.nonceS
  simp only [serverRecv, serverWaiting, serverOnResponse, hverify,
    signChallenge_of_publicKey h.serverKey, hkey, codec_of_hkdf]
  rfl

/-- The client accepts ACCEPT, and has the same key. -/
theorem Compatible.onAccept (h : Compatible L P clientCn serverCn secret) (now : Clock) :
    clientRecv L P.client now (clientAnswered L P serverCn) (.ok (.accept (acceptSent L P))) =
      (.done (clientResult L P serverCn secret) (clientTranscript L P), []) := by
  have hverify : verifyPeer L "server" (P.serverRandom.challenge ++ P.clientRandom.nonceC)
      (acceptSent L P).sigS P.server.serverCert.publicKey = .ok () :=
    verifyPeer_signatureOf h.serverKey _ _
  have hkey := deriveSessionKey_of_exchange (L.length_x25519Public P.serverRandom.ecdh) h.exchange
    h.nonzero P.clientRandom.nonceC P.serverRandom.nonceS
  have hpub : (acceptSent L P).ecdhPubS = L.x25519Public P.serverRandom.ecdh := rfl
  simp only [clientRecv, clientAnswered, clientOnAccept, hverify, hpub, hkey, codec_of_hkdf]
  rfl

/-- **Step lemma.** A delivery leads from one state to the next. -/
theorem Compatible.step (h : Compatible L P clientCn serverCn secret) {k : Nat} (hk : k ≤ 4)
    (a : LinkAct) (ht : Timely P (Link.stage L P clientCn serverCn secret k) a) :
    ∃ k' ≤ 4, Link.step L P (Link.stage L P clientCn serverCn secret k) a =
      Link.stage L P clientCn serverCn secret k' := by
  -- in each state one of the two deliveries finds a message
  match k, hk, a, ht with
  | 0, _, .toServer now, ht =>
    obtain ⟨htime, hvalid⟩ := ht rfl
    refine ⟨1, by omega, ?_⟩
    simp only [Link.step, Link.stage, h.onHello htime hvalid]
    rfl
  | 0, _, .toClient now, _ => exact ⟨0, by omega, rfl⟩
  | 1, _, .toServer now, _ => exact ⟨1, by omega, rfl⟩
  | 1, _, .toClient now, ht =>
    refine ⟨2, by omega, ?_⟩
    simp only [Link.step, Link.stage, h.onChallenge (ht ⟨_, _, rfl⟩)]
    rfl
  | 2, _, .toServer now, _ =>
    refine ⟨3, by omega, ?_⟩
    simp only [Link.step, Link.stage, h.onResponse]
    rfl
  | 2, _, .toClient now, _ => exact ⟨2, by omega, rfl⟩
  | 3, _, .toServer now, _ => exact ⟨3, by omega, rfl⟩
  | 3, _, .toClient now, _ =>
    refine ⟨4, by omega, ?_⟩
    simp only [Link.step, Link.stage, h.onAccept]
    rfl
  | 4, _, .toServer now, _ => exact ⟨4, by omega, rfl⟩
  | 4, _, .toClient now, _ => exact ⟨4, by omega, rfl⟩

/-- **Run lemma.** Whatever the order of the deliveries, the link is in one of the five states. -/
theorem Compatible.run (h : Compatible L P clientCn serverCn secret) {as : List LinkAct}
    (ht : Guarded (Link.step L P) (Timely P) (Link.start L P) as) :
    ∃ k ≤ 4, Run.run (Link.step L P) (Link.start L P) as =
      Link.stage L P clientCn serverCn secret k := by
  have hstep : ∀ (s : Link) (a : LinkAct),
      (∃ k ≤ 4, s = Link.stage L P clientCn serverCn secret k) → Timely P s a →
        ∃ k ≤ 4, s.step L P a = Link.stage L P clientCn serverCn secret k := by
    rintro s a ⟨k, hk, rfl⟩ htimely
    exact h.step hk a htimely
  exact run_invariant hstep ⟨0, by omega, rfl⟩ ht

end Reactions

/-! ### The session -/

/-- The JSON codec of the messages, with the messages that it carries faithfully. -/
structure MessageCodec where
  /-- `msg.model_dump_json().encode()`. -/
  dump : AnyMsg → Bytes
  /-- `parse_json`, `none` where it raises. -/
  parse : Bytes → Option AnyMsg
  Carries : AnyMsg → Prop
  faithful : ∀ m, Carries m → parse (dump m) = some m

/-- The wire format, which carries every valid message of Unicode text. -/
def wireCodec (Y : Pydantic) : MessageCodec where
  dump m := (encode (modelDumpJson Y m)).getD []
  parse raw := parseJson Y (.bytes raw)
  Carries m := m.Valid ∧ m.Scalar
  faithful m h := by
    obtain ⟨raw, hraw, hparse⟩ := exists_encode_modelDumpJson Y h.1 h.2
    rw [hraw]
    exact hparse

/-- Two endpoints on a channel that delivers frames in order: the codecs, the frames on their way
to each side, and what each side has sent and received. -/
structure Session where
  codec : Side → PayloadCodec
  inFlight : Side → List Bytes
  sent : Side → List AnyMsg
  /-- What `framed.recv` has answered, `none` where it has raised. -/
  received : Side → List (Option AnyMsg)

/-- One call of an endpoint. -/
inductive SessionAct (J : MessageCodec) where
  | send (side : Side) (m : AnyMsg) (carried : J.Carries m)
  | recv (side : Side)

namespace Session

variable (A : Aead) (J : MessageCodec)

def start (client server : PayloadCodec) : Session where
  codec side := match side with
    | .client => client
    | .server => server
  inFlight _ := []
  sent _ := []
  received _ := []

/-- `framed.send` and `framed.recv`; a receive that finds no frame waits. -/
def step (s : Session) : SessionAct J → Session
  | .send side m _ =>
    match (s.codec side).encrypt A (J.dump m) with
    | (.ok frame, c) =>
      { s with
        codec := Function.update s.codec side c
        inFlight := Function.update s.inFlight side.other (s.inFlight side.other ++ [frame])
        sent := Function.update s.sent side (s.sent side ++ [m]) }
    | (.error _, c) => { s with codec := Function.update s.codec side c }
  | .recv side =>
    match s.inFlight side with
    | [] => s
    | frame :: rest =>
      let r := (s.codec side).decrypt A frame
      { s with
        codec := Function.update s.codec side r.2
        inFlight := Function.update s.inFlight side rest
        received := Function.update s.received side (s.received side ++
          [match r.1 with
            | .ok plaintext => J.parse plaintext
            | .error _ => none]) }

/-- One direction of a session: what has been received, followed by the messages of the frames on
their way, is what has been sent; the frames are numbered on from the last one received. -/
def OnTheWay (key token : Bytes) (sent : List AnyMsg) (received : List (Option AnyMsg))
    (inFlight : List Bytes) : Prop :=
  ∃ pending : List AnyMsg, received ++ pending.map some = sent.map some ∧
    inFlight = pending.mapIdx fun i m => frameOf A key token (received.length + i) (J.dump m)

/-- A codec after some messages: it sends under the number of messages sent, until the counter has
come to its end, and expects the number of messages received. -/
def InStep (key token : Bytes) (c : PayloadCodec) (sent : List AnyMsg)
    (received : List (Option AnyMsg)) : Prop :=
  ∃ n, c = ⟨key, token, n, received.length⟩ ∧ sent.length = min n (2 ^ 64)

/-- **The two ends agree**, in both directions. -/
structure Inv (key token : Bytes) (s : Session) : Prop where
  inStep : ∀ side, InStep key token (s.codec side) (s.sent side) (s.received side)
  carried : ∀ side, ∀ m ∈ s.sent side, J.Carries m
  onTheWay : ∀ side, OnTheWay A J key token (s.sent side.other) (s.received side) (s.inFlight side)

end Session

@[simp] theorem Side.other_other (side : Side) : side.other.other = side := by
  cases side <;> rfl

section SessionRuns

variable {A : Aead} {J : MessageCodec} {key token : Bytes}

namespace Session

section OneDirection

variable {sent : List AnyMsg} {received : List (Option AnyMsg)} {inFlight : List Bytes}

theorem OnTheWay.length_le (h : OnTheWay A J key token sent received inFlight) :
    received.length + inFlight.length = sent.length := by
  obtain ⟨pending, hsent, rfl⟩ := h
  have hlength := congrArg List.length hsent
  simpa using hlength

/-- A frame with the next number joins the ones on their way. -/
theorem OnTheWay.send (h : OnTheWay A J key token sent received inFlight) (m : AnyMsg) :
    OnTheWay A J key token (sent ++ [m]) received
      (inFlight ++ [frameOf A key token sent.length (J.dump m)]) := by
  have hlength := h.length_le
  obtain ⟨pending, hsent, rfl⟩ := h
  rw [List.length_mapIdx] at hlength
  refine ⟨pending ++ [m], ?_, ?_⟩
  · rw [List.map_append, List.map_append, ← List.append_assoc, hsent]
  · rw [List.mapIdx_concat, hlength]

/-- The frame at the head holds the next message, and under the next number. -/
theorem OnTheWay.recv {frame : Bytes} {rest : List Bytes}
    (h : OnTheWay A J key token sent received (frame :: rest)) :
    ∃ m ∈ sent, frame = frameOf A key token received.length (J.dump m) ∧
      OnTheWay A J key token sent (received ++ [some m]) rest := by
  obtain ⟨pending, hsent, hframes⟩ := h
  cases pending with
  | nil => cases hframes
  | cons m ms =>
    rw [List.mapIdx_cons] at hframes
    obtain ⟨hframe, hrest⟩ := List.cons.inj hframes
    have hmem : some m ∈ sent.map some := by
      rw [← hsent]
      simp
    refine ⟨m, by simpa using hmem, hframe, ms, ?_, ?_⟩
    · rw [← hsent, List.map_cons, List.append_assoc, List.singleton_append]
    · rw [hrest]
      congr 1
      funext i p
      rw [List.length_append, List.length_singleton, Nat.add_assoc, Nat.add_comm 1 i]

end OneDirection

theorem inv_start : (start ⟨key, token, 0, 0⟩ ⟨key, token, 0, 0⟩).Inv A J key token where
  inStep side := ⟨0, by cases side <;> rfl, rfl⟩
  carried _ _ hm := nomatch hm
  onTheWay _ := ⟨[], rfl, rfl⟩

/-- A send: the frame goes out under the number of messages so far, and where the counter has come
to its end nothing does. -/
theorem Inv.send {s : Session} (h : s.Inv A J key token) (side : Side) (m : AnyMsg)
    (hm : J.Carries m) : (s.step A J (.send side m hm)).Inv A J key token := by
  obtain ⟨n, hcodec, hcount⟩ := h.inStep side
  by_cases hseq : n < 2 ^ 64
  case neg =>
    -- `struct.pack` refuses the number: only the counter moves on
    have hstep : s.step A J (.send side m hm) =
        { s with
          codec := Function.update s.codec side
            ⟨key, token, n + 1, (s.received side).length⟩ } := by
      simp only [Session.step, PayloadCodec.encrypt, hcodec, if_neg hseq]
    rw [hstep]
    refine ⟨fun d => ?_, h.carried, h.onTheWay⟩
    obtain rfl | hd := eq_or_ne d side
    · refine ⟨n + 1, Function.update_self .., ?_⟩
      show (s.sent d).length = min (n + 1) (2 ^ 64)
      omega
    · simpa only [Function.update_of_ne hd] using h.inStep d
  case pos =>
    have hnumber : n = (s.sent side).length := by omega
    have hstep : s.step A J (.send side m hm) =
        { s with
          codec := Function.update s.codec side ⟨key, token, n + 1, (s.received side).length⟩
          inFlight := Function.update s.inFlight side.other
            (s.inFlight side.other ++ [frameOf A key token (s.sent side).length (J.dump m)])
          sent := Function.update s.sent side (s.sent side ++ [m]) } := by
      simp only [Session.step, PayloadCodec.encrypt, hcodec, if_pos hseq]
      rw [hnumber]
    rw [hstep]
    constructor
    case inStep =>
      intro d
      obtain rfl | hd := eq_or_ne d side
      · refine ⟨n + 1, Function.update_self .., ?_⟩
        simp only [Function.update_self, List.length_append, List.length_singleton]
        omega
      · simpa only [Function.update_of_ne hd] using h.inStep d
    case carried =>
      intro d p
      obtain rfl | hd := eq_or_ne d side
      · simp only [Function.update_self, List.mem_append, List.mem_singleton]
        rintro (hp | rfl)
        · exact h.carried d p hp
        · exact hm
      · simpa only [Function.update_of_ne hd] using h.carried d p
    case onTheWay =>
      intro d
      -- the frames that fly to the other side are one more, those that fly back are the same
      obtain rfl | hd := eq_or_ne d side.other
      · have hextend := (h.onTheWay side.other).send m
        simp only [Side.other_other] at hextend
        simpa only [Function.update_self, Side.other_other] using hextend
      · have hother : d.other ≠ side := by
          rintro rfl
          exact hd (Side.other_other d).symm
        simpa only [Function.update_of_ne hd, Function.update_of_ne hother] using h.onTheWay d

/-- A receive: the frame at the head is the one that is expected. -/
theorem Inv.recv {s : Session} (h : s.Inv A J key token) (side : Side) :
    (s.step A J (.recv side)).Inv A J key token := by
  cases hflight : s.inFlight side with
  | nil => simpa only [Session.step, hflight] using h
  | cons frame rest =>
    have hway := h.onTheWay side
    rw [hflight] at hway
    obtain ⟨n, hcodec, hcount⟩ := h.inStep side
    obtain ⟨m, hm, rfl, hrest⟩ := hway.recv
    -- fewer messages have been received than were sent, and no sender passes the end
    have hseq : (s.received side).length < 2 ^ 64 := by
      obtain ⟨n', -, hcount'⟩ := h.inStep side.other
      have hlength := hway.length_le
      rw [List.length_cons] at hlength
      omega
    have hdecrypt := PayloadCodec.decrypt_frameOf A ⟨key, token, n, (s.received side).length⟩
      (J.dump m) hseq
    have hstep : s.step A J (.recv side) =
        { s with
          codec := Function.update s.codec side ⟨key, token, n, (s.received side).length + 1⟩
          inFlight := Function.update s.inFlight side rest
          received := Function.update s.received side (s.received side ++ [some m]) } := by
      simp only [Session.step, hflight, hcodec, hdecrypt, J.faithful m (h.carried _ m hm)]
    rw [hstep]
    refine ⟨fun d => ?_, h.carried, fun d => ?_⟩
    · obtain rfl | hd := eq_or_ne d side
      · refine ⟨n, ?_, hcount⟩
        simp only [Function.update_self, List.length_append, List.length_singleton]
      · simpa only [Function.update_of_ne hd] using h.inStep d
    · obtain rfl | hd := eq_or_ne d side
      · simpa only [Function.update_self] using hrest
      · simpa only [Function.update_of_ne hd] using h.onTheWay d

/-- **Run lemma.** Both ends agree after every run. -/
theorem inv_run (as : List (SessionAct J)) :
    (run (step A J) (start ⟨key, token, 0, 0⟩ ⟨key, token, 0, 0⟩) as).Inv A J key token := by
  have hstep : ∀ (s : Session) (a : SessionAct J), s.Inv A J key token → True →
      (s.step A J a).Inv A J key token := by
    intro s a h _
    cases a with
    | send side m carried => exact h.send side m carried
    | recv side => exact h.recv side
  exact run_invariant hstep inv_start (guarded_of_forall fun _ _ => trivial)

end Session

end SessionRuns

/-! ### The result -/

/-- The handshake is under way: one message is on its way. -/
def Link.UnderWay (s : Link) : Prop :=
  s.delivered < 4 ∧ s.toServer.length + s.toClient.length = 1

theorem Link.stage_underWay {L : CryptoLib} {P : Parties} {clientCn serverCn : Str}
    {secret : Bytes} {k : Nat} (hk : k < 4) :
    (Link.stage L P clientCn serverCn secret k).UnderWay := by
  match k, hk with
  | 0, hk | 1, hk | 2, hk | 3, hk => exact ⟨hk, rfl⟩

/-- Two codecs interoperate: in every run of a session between them, in both directions, what has
been received and what is still on its way make up what has been sent; once everything has been
delivered, the two are the same. -/
def Interoperate (A : Aead) (J : MessageCodec) (client server : PayloadCodec) : Prop :=
  ∀ (as : List (SessionAct J)) (side : Side),
    let s := run (Session.step A J) (Session.start client server) as
    s.received side <+: (s.sent side.other).map some ∧
      (s.received side).length + (s.inFlight side).length = (s.sent side.other).length ∧
      (s.inFlight side = [] → s.received side = (s.sent side.other).map some)

/-- **The results of both agree**: each has the name of the other, they have one session token, the
server has the silo that was asked for, and their codecs interoperate. -/
structure Agree (A : Aead) (J : MessageCodec) (clientCn serverCn : Str) (siloId : Uuid)
    (rc : ClientHandshakeResult) (rs : ServerHandshakeResult) : Prop where
  serverCn : rc.serverCn = serverCn
  clientCn : rs.clientCn = clientCn
  siloId : rs.siloId = siloId
  sessionToken : rc.sessionToken = rs.sessionToken
  codecs : Interoperate A J rc.codec rs.codec

/-- Both have completed, and agree. -/
def Link.Completed (A : Aead) (J : MessageCodec) (clientCn serverCn : Str) (siloId : Uuid)
    (s : Link) : Prop :=
  s.delivered = 4 ∧ s.toServer = [] ∧ s.toClient = [] ∧
    ∃ rc tc rs ts, s.client = .done rc tc ∧ s.server = .done rs ts ∧
      Agree A J clientCn serverCn siloId rc rs

/-- Two fresh codecs of one key and token interoperate. -/
theorem interoperate_fresh (A : Aead) (J : MessageCodec) (key token : Bytes) :
    Interoperate A J ⟨key, token, 0, 0⟩ ⟨key, token, 0, 0⟩ := by
  intro as side s
  have hinv : s.Inv A J key token := Session.inv_run as
  have hway := hinv.onTheWay side
  have hlength := hway.length_le
  obtain ⟨pending, hsent, hframes⟩ := hway
  refine ⟨⟨pending.map some, hsent⟩, hlength, fun hempty => ?_⟩
  -- nothing is on its way, so nothing is pending
  have hpending : pending = [] := by
    rw [← List.mapIdx_eq_nil_iff, ← hframes]
    exact hempty
  simpa [hpending] using hsent

theorem agree_results (L : CryptoLib) (A : Aead) (J : MessageCodec) (P : Parties)
    (clientCn serverCn : Str) (secret : Bytes) :
    Agree A J clientCn serverCn P.client.siloId (clientResult L P serverCn secret)
      (serverResult L P clientCn secret) where
  serverCn := rfl
  clientCn := rfl
  siloId := rfl
  sessionToken := rfl
  codecs := interoperate_fresh A J _ _

/-! ### The programs -/

/-- **The two programs on one connection**: nothing fails on it, and what a side receives is what
the other has sent, in its order. -/
structure Connected (L : CryptoLib) (P : Parties) (client server : PlainEnv) : Prop where
  clientReliable : client.Reliable
  serverReliable : server.Reliable
  toServer : ∀ n m,
    (plainSends (performClientHandshake L client P.client P.clientRandom .start).events)[n]? =
      some m → server.received n = .ok m
  toClient : ∀ n m,
    (plainSends (performServerHandshake L server P.server P.serverRandom .start).events)[n]? =
      some m → client.received n = .ok m

/-- The clocks of both programs are within the tolerance. -/
structure InTime (P : Parties) (client server : PlainEnv) : Prop where
  hello : (server.clock.timeNs - P.clientRandom.tsNs).natAbs ≤ 30000000000
  clientCert : P.client.clientCert.ValidAt server.clock.utc
  serverCert : P.server.serverCert.ValidAt client.clock.utc

theorem ClientState.Ends.value {r : ClientHandshakeResult} {t : ClientTranscript}
    {v : Except Raised ClientHandshakeResult} (h : (ClientState.done r t).Ends v) : v = .ok r := by
  cases v with
  | ok r' =>
    obtain ⟨t', hdone⟩ := h
    cases hdone
    rfl
  | error e => cases h

theorem ServerState.Ends.value {r : ServerHandshakeResult} {t : ServerTranscript}
    {v : Except Raised ServerHandshakeResult} (h : (ServerState.done r t).Ends v) : v = .ok r := by
  cases v with
  | ok r' =>
    obtain ⟨t', hdone⟩ := h
    cases hdone
    rfl
  | error e => cases h

section Programs

variable {L : CryptoLib} {P : Parties} {clientCn serverCn : Str} {secret : Bytes}
  {client server : PlainEnv}

/-- The machine of the server, on HELLO. -/
theorem Compatible.serverMachine (h : Compatible L P clientCn serverCn secret)
    (htime : InTime P client server)
    (hhello : server.received 0 = .ok (.hello (helloSent L P))) :
    let s := serverRecv L P.server P.serverRandom server.clock (serverWaiting L P clientCn)
      (toReceived (server.received 1))
    Chiralite.serverMachine L server P.server P.serverRandom =
      (s.1, .challenge (challengeSent L P) :: s.2) := by
  simp only [Chiralite.serverMachine, hhello, toReceived, Except.mapError,
    h.onHello htime.hello htime.clientCert]
  rfl

/-- The machine of the client, on CHALLENGE. -/
theorem Compatible.clientMachine (h : Compatible L P clientCn serverCn secret)
    (htime : InTime P client server)
    (hchallenge : client.received 0 = .ok (.challenge (challengeSent L P))) :
    let s := clientRecv L P.client client.clock (clientAnswered L P serverCn)
      (toReceived (client.received 1))
    Chiralite.clientMachine L client P.client P.clientRandom =
      (s.1, .hello (helloSent L P) :: .response (responseSent L P) :: s.2) := by
  have hanswered := h.onChallenge htime.serverCert
  unfold clientWaiting at hanswered
  simp only [Chiralite.clientMachine, clientStart, hchallenge, toReceived, Except.mapError,
    hanswered]
  rfl

/-- **Both programs return.** The messages are followed from one program to the other, each the
answer to the one before it. -/
theorem Compatible.programs (h : Compatible L P clientCn serverCn secret)
    (hconn : Connected L P client server) (htime : InTime P client server) :
    (performClientHandshake L client P.client P.clientRandom .start).value =
        .ok (clientResult L P serverCn secret) ∧
      (performServerHandshake L server P.server P.serverRandom .start).value =
        .ok (serverResult L P clientCn secret) := by
  obtain ⟨hclientSends, hclientEnds⟩ :=
    performClientHandshake_refines (L := L) hconn.clientReliable P.client P.clientRandom
  obtain ⟨hserverSends, hserverEnds⟩ :=
    performServerHandshake_refines (L := L) hconn.serverReliable P.server P.serverRandom
  -- each message that is known to be sent determines how far the other side gets
  have hhello : server.received 0 = .ok (.hello (helloSent L P)) := by
    apply hconn.toServer 0
    rw [hclientSends]
    rfl
  rw [h.serverMachine htime hhello] at hserverSends hserverEnds
  have hchallenge : client.received 0 = .ok (.challenge (challengeSent L P)) := by
    apply hconn.toClient 0
    rw [hserverSends]
    rfl
  rw [h.clientMachine htime hchallenge] at hclientSends hclientEnds
  have hresponse : server.received 1 = .ok (.response (responseSent L P)) := by
    apply hconn.toServer 1
    rw [hclientSends]
    rfl
  rw [hresponse, toReceived, Except.mapError, h.onResponse] at hserverSends hserverEnds
  have haccept : client.received 1 = .ok (.accept (acceptSent L P)) := by
    apply hconn.toClient 1
    rw [hserverSends]
    rfl
  rw [haccept, toReceived, Except.mapError, h.onAccept] at hclientEnds
  exact ⟨hclientEnds.value, hserverEnds.value⟩

end Programs

/-- **Handshake completeness and agreement.** Parties that accept each other, on a channel that
delivers in order and with clocks within the tolerance: until four messages have been delivered
one is on its way, and then both have completed and agree. So do the two programs, when each
receives what the other has sent. -/
theorem handshake_completes (L : CryptoLib) (A : Aead) (J : MessageCodec) (P : Parties)
    {clientCn serverCn : Str} {secret : Bytes} (h : Compatible L P clientCn serverCn secret) :
    (∀ as, Guarded (Link.step L P) (Timely P) (Link.start L P) as →
      (run (Link.step L P) (Link.start L P) as).UnderWay ∨
        (run (Link.step L P) (Link.start L P) as).Completed A J clientCn serverCn
          P.client.siloId) ∧
      ∀ client server, Connected L P client server → InTime P client server →
        ∃ rc rs, (performClientHandshake L client P.client P.clientRandom .start).value = .ok rc ∧
          (performServerHandshake L server P.server P.serverRandom .start).value = .ok rs ∧
          Agree A J clientCn serverCn P.client.siloId rc rs := by
  have hagree := agree_results L A J P clientCn serverCn secret
  constructor
  · intro as ht
    obtain ⟨k, hk, hrun⟩ := h.run ht
    rw [hrun]
    obtain hlt | rfl := Nat.lt_or_eq_of_le hk
    · exact .inl (Link.stage_underWay hlt)
    · exact .inr ⟨rfl, rfl, rfl, _, _, _, _, rfl, rfl, hagree⟩
  · intro client server hconn htime
    obtain ⟨hclient, hserver⟩ := h.programs hconn htime
    exact ⟨_, _, hclient, hserver, hagree⟩

/-- The parties of the closed instances accept each other. -/
theorem compatible_sampleParties : Compatible plainLib sampleParties (lit "client") (lit "server")
    (bytes32 63) where
  clientKey := rfl
  serverKey := rfl
  clientSigned := rfl
  serverSigned := rfl
  clientPem := by decide
  serverPem := by decide
  clientName := rfl
  serverName := rfl
  silo := .inl rfl
  exchange := by decide
  nonzero := by decide

/-- Four deliveries. -/
def sampleDeliveries : List LinkAct :=
  [.toServer sampleClock, .toClient sampleClock, .toServer sampleClock, .toClient sampleClock]

/-- What the client's program finds. -/
def sampleClientEnv : PlainEnv :=
  Sample.plainEnv (.challenge (challengeSent plainLib sampleParties))
    (.accept (acceptSent plainLib sampleParties))

/-- What the server's program finds. -/
def sampleServerEnv : PlainEnv :=
  Sample.plainEnv (.hello (helloSent plainLib sampleParties))
    (.response (responseSent plainLib sampleParties))

theorem connected_sample : Connected plainLib sampleParties sampleClientEnv sampleServerEnv where
  clientReliable := ⟨fun _ => rfl, fun _ => rfl⟩
  serverReliable := ⟨fun _ => rfl, fun _ => rfl⟩
  toServer
    | 0, _, rfl | 1, _, rfl => rfl
    | _ + 2, _, hsent => nomatch hsent
  toClient
    | 0, _, rfl | 1, _, rfl => rfl
    | _ + 2, _, hsent => nomatch hsent

theorem handshake_completes_sample :
    (run (Link.step plainLib sampleParties) (Link.start plainLib sampleParties)
      sampleDeliveries).Completed plainAead (wireCodec plainPydantic) (lit "client")
      (lit "server") 5 ∧
    ∃ rc rs,
      (performClientHandshake plainLib sampleClientEnv sampleParties.client
        sampleParties.clientRandom .start).value = .ok rc ∧
      (performServerHandshake plainLib sampleServerEnv sampleParties.server
        sampleParties.serverRandom .start).value = .ok rs ∧
      Agree plainAead (wireCodec plainPydantic) (lit "client") (lit "server") 5 rc rs := by
  have hclient : sampleParties.client.clientCert.ValidAt sampleClock.utc :=
    ⟨by decide, by decide⟩
  have hserver : sampleParties.server.serverCert.ValidAt sampleClock.utc :=
    ⟨by decide, by decide⟩
  have htimely : Guarded (Link.step plainLib sampleParties) (Timely sampleParties)
      (Link.start plainLib sampleParties) sampleDeliveries :=
    ⟨fun _ => ⟨by decide, hclient⟩, fun _ => hserver, fun _ => ⟨by decide, hclient⟩,
      fun _ => hserver, trivial⟩
  obtain ⟨hlink, hprograms⟩ := handshake_completes plainLib plainAead (wireCodec plainPydantic)
    sampleParties compatible_sampleParties
  refine ⟨?_, hprograms _ _ connected_sample ⟨by decide, hclient, hserver⟩⟩
  obtain hunderWay | hcompleted := hlink _ htimely
  · exact absurd hunderWay.1 (by decide)
  · exact hcompleted

end Chiralite
