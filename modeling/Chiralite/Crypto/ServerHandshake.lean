import Chiralite.Crypto.HandshakeProgram

/-!
# The server's side of the handshake

`ServerCourse` lists the ways a run of `perform_server_handshake` can go, each with its events and
its end, and `performServerHandshake_course` says that there is no other. Both results about the
server read it off:

* `server_handshake_sound`: ACCEPT is sent at most once, and only after a HELLO and a RESPONSE that
  pass every check.
* `fails_cleanly_iff`: when a run that fails does so with a `HandshakeError` and one AUTH_ERROR.
  It does not where the connection fails, where a key cannot be used, and where the client's
  ephemeral key gives no session key: that one is looked at only after ACCEPT has left.
-/

namespace Chiralite

open Py Effect

/-! ### The ways a server run can go -/

section Course

variable (L : CryptoLib) (E : PlainEnv) (cfg : ServerConfig) (rnd : ServerRandom)

/-- The CHALLENGE message. -/
def challengeMessage : ChallengeMsg := ⟨L.toPem cfg.serverCert, rnd.nonceS, rnd.challenge⟩

/-- The first message was a HELLO that passes the checks. -/
structure Opened (hello : HelloMsg) (clientCert : Certificate) (clientCn : Str) : Prop where
  first : E.received 0 = .ok (.hello hello)
  checked : checkHello L cfg E.clock (.hello hello) = .ok (hello, clientCert, clientCn)

/-- CHALLENGE was sent after such a HELLO, and the second message was a RESPONSE. -/
structure Answered (hello : HelloMsg) (clientCert : Certificate) (clientCn : Str)
    (response : ResponseMsg) : Prop extends Opened L E cfg hello clientCert clientCn where
  challengeSent : E.sendFault 0 = none
  second : E.received 1 = .ok (.response response)

/-- The signature of the RESPONSE verifies under the key of the certificate. -/
structure Verified (hello : HelloMsg) (clientCert : Certificate) (clientCn : Str)
    (response : ResponseMsg) : Prop
    extends Answered L E cfg hello clientCert clientCn response where
  keyReadable : E.publicKeyFault clientCert = none
  signature : verifyPeer L "client" (rnd.challenge ++ rnd.nonceS) response.sigC
    clientCert.publicKey = .ok ()

/-- The events up to CHALLENGE. -/
def openingEvents (hello : HelloMsg) : List PlainEvent :=
  [.received (.ok (.hello hello)), .attempted (.challenge (challengeMessage L cfg rnd)),
    .sent (.challenge (challengeMessage L cfg rnd))]

/-- The events up to RESPONSE. -/
def answeredEvents (hello : HelloMsg) (response : ResponseMsg) : List PlainEvent :=
  openingEvents L cfg rnd hello ++ [.received (.ok (.response response))]

/-- The derivation of the session key from a RESPONSE. -/
def serverSessionKey (hello : HelloMsg) (response : ResponseMsg) : Except SessionExn Bytes :=
  ((EphemeralKey.init L rnd.ecdh).deriveSessionKey L response.ecdhPubC hello.nonceC rnd.nonceS).1

/-- **The ways a server run can go**, with its events and its end. -/
inductive ServerCourse : List PlainEvent → Except Raised ServerHandshakeResult → Prop where
  | noHello {e : NetExn} (hnone : E.received 0 = .error e) :
    ServerCourse [.received (.error e)]
      (.error (.handshakeError (lit "failed to receive " ++ lit "HELLO" ++ lit ": " ++ e.text)))
  | helloRejected {m : AnyMsg} {text : Str} (hm : E.received 0 = .ok m)
      (hcheck : checkHello L cfg E.clock m = .error text) :
    ServerCourse (.received (.ok m) :: sendEvents E 0 (.authError ⟨text⟩))
      (.error (.handshakeError text))
  | challengeLost {hello : HelloMsg} {cert : Certificate} {cn : Str} {e : NetExn}
      (hopened : Opened L E cfg hello cert cn) (hlost : E.sendFault 0 = some e) :
    ServerCourse [.received (.ok (.hello hello)),
        .attempted (.challenge (challengeMessage L cfg rnd))] (.error (.net e))
  | noResponse {hello : HelloMsg} {cert : Certificate} {cn : Str} {e : NetExn}
      (hopened : Opened L E cfg hello cert cn) (hsent : E.sendFault 0 = none)
      (hnone : E.received 1 = .error e) :
    ServerCourse (openingEvents L cfg rnd hello ++ [.received (.error e)])
      (.error (.handshakeError (lit "failed to receive " ++ lit "RESPONSE" ++ lit ": " ++ e.text)))
  | responseRejected {hello : HelloMsg} {cert : Certificate} {cn : Str} {m : AnyMsg} {text : Str}
      (hopened : Opened L E cfg hello cert cn) (hsent : E.sendFault 0 = none)
      (hm : E.received 1 = .ok m) (hcheck : checkResponse m = .error text) :
    ServerCourse (openingEvents L cfg rnd hello ++
        .received (.ok m) :: sendEvents E 1 (.authError ⟨text⟩)) (.error (.handshakeError text))
  | keyUnreadable {hello : HelloMsg} {cert : Certificate} {cn : Str} {response : ResponseMsg}
      {text : Str} (hanswered : Answered L E cfg hello cert cn response)
      (hkey : E.publicKeyFault cert = some text) :
    ServerCourse (answeredEvents L cfg rnd hello response) (.error (.publicKey text))
  | signatureRejected {hello : HelloMsg} {cert : Certificate} {cn : Str} {response : ResponseMsg}
      {text : Str} (hanswered : Answered L E cfg hello cert cn response)
      (hkey : E.publicKeyFault cert = none)
      (hverify : verifyPeer L "client" (rnd.challenge ++ rnd.nonceS) response.sigC
        cert.publicKey = .error text) :
    ServerCourse (answeredEvents L cfg rnd hello response ++
        sendEvents E 1 (.authError ⟨text⟩)) (.error (.handshakeError text))
  | keyUnsupported {hello : HelloMsg} {cert : Certificate} {cn : Str} {response : ResponseMsg}
      {text : Str} (hverified : Verified L E cfg rnd hello cert cn response)
      (hsign : signChallenge L (rnd.challenge ++ hello.nonceC) cfg.serverKey = .error text) :
    ServerCourse (answeredEvents L cfg rnd hello response) (.error (.handshakeError text))
  | acceptLost {hello : HelloMsg} {cert : Certificate} {cn : Str} {response : ResponseMsg}
      {sigS : Bytes} {e : NetExn} (hverified : Verified L E cfg rnd hello cert cn response)
      (hsign : signChallenge L (rnd.challenge ++ hello.nonceC) cfg.serverKey = .ok sigS)
      (hlost : E.sendFault 1 = some e) :
    ServerCourse (answeredEvents L cfg rnd hello response ++
        [.attempted (.accept (acceptMessage L rnd hello sigS))]) (.error (.net e))
  | noSessionKey {hello : HelloMsg} {cert : Certificate} {cn : Str} {response : ResponseMsg}
      {sigS : Bytes} {e : SessionExn} (hverified : Verified L E cfg rnd hello cert cn response)
      (hsign : signChallenge L (rnd.challenge ++ hello.nonceC) cfg.serverKey = .ok sigS)
      (hsent : E.sendFault 1 = none) (hkey : serverSessionKey L rnd hello response = .error e) :
    ServerCourse (answeredEvents L cfg rnd hello response ++
        [.attempted (.accept (acceptMessage L rnd hello sigS)),
          .sent (.accept (acceptMessage L rnd hello sigS))]) (.error (.session e))
  | completed {hello : HelloMsg} {cert : Certificate} {cn : Str} {response : ResponseMsg}
      {sigS sessionKey : Bytes} (hverified : Verified L E cfg rnd hello cert cn response)
      (hsign : signChallenge L (rnd.challenge ++ hello.nonceC) cfg.serverKey = .ok sigS)
      (hsent : E.sendFault 1 = none)
      (hkey : serverSessionKey L rnd hello response = .ok sessionKey) :
    ServerCourse (answeredEvents L cfg rnd hello response ++
        [.attempted (.accept (acceptMessage L rnd hello sigS)),
          .sent (.accept (acceptMessage L rnd hello sigS))])
      (.ok ⟨⟨sessionKey, rnd.sessionToken, 0, 0⟩, rnd.sessionToken, cn, hello.siloId⟩)

/-- Only a HELLO passes the checks of HELLO. -/
theorem checkHello_ok {now : Clock} {m : AnyMsg} {hello : HelloMsg} {cert : Certificate} {cn : Str}
    (h : checkHello L cfg now m = .ok (hello, cert, cn)) : m = .hello hello := by
  unfold checkHello at h
  split at h
  · split at h
    · cases h
    · split at h
      · cases h
      · split at h
        · cases h
        · cases h
          rfl
  · cases h

theorem checkResponse_ok {m : AnyMsg} {response : ResponseMsg}
    (h : checkResponse m = .ok response) : m = .response response := by
  unfold checkResponse at h
  split at h
  · cases h
    rfl
  · cases h

/-- HKDF answers with the length that the codec asks for. -/
theorem codec_of_hkdf (secret salt info token : Bytes) :
    PayloadCodec.init (L.hkdf secret salt info) token =
      .ok ⟨L.hkdf secret salt info, token, 0, 0⟩ :=
  if_neg (not_not.mpr (L.length_hkdf _ _ _))

theorem codec_of_sessionKey {hello : HelloMsg} {response : ResponseMsg} {sessionKey : Bytes}
    (h : serverSessionKey L rnd hello response = .ok sessionKey) (token : Bytes) :
    PayloadCodec.init sessionKey token = .ok ⟨sessionKey, token, 0, 0⟩ := by
  obtain ⟨secret, -, rfl⟩ := deriveSessionKey_ok h
  exact codec_of_hkdf L secret _ _ token

/-- The part after the RESPONSE. -/
theorem serverAccept_course {hello : HelloMsg} {cert : Certificate} {cn : Str}
    {response : ResponseMsg} (hanswered : Answered L E cfg hello cert cn response)
    {w w' : PlainWorld} (hsends : w.sends = 1) {evs : List PlainEvent}
    {v : Except Raised ServerHandshakeResult}
    (h : Runs (serverAccept L E cfg rnd hello cert cn response) w evs v w') :
    ServerCourse L E cfg rnd (answeredEvents L cfg rnd hello response ++ evs) v := by
  unfold serverAccept at h
  cases hkey : E.publicKeyFault cert with
  | some text =>
    rw [hkey] at h
    obtain ⟨rfl, rfl, -⟩ := h.raise_inv
    rw [List.append_nil]
    exact .keyUnreadable hanswered hkey
  | none =>
    rw [hkey] at h
    obtain ⟨text, hverify, rfl, rfl⟩ | ⟨u, hverify, hrest⟩ := bind_orReject_inv h
    · rw [hsends]
      exact .signatureRejected hanswered hkey hverify
    have hverified : Verified L E cfg rnd hello cert cn response := ⟨hanswered, hkey, hverify⟩
    cases hsign : signChallenge L (rnd.challenge ++ hello.nonceC) cfg.serverKey with
    | error text =>
      rw [hsign] at hrest
      obtain ⟨rfl, rfl, -⟩ := hrest.raise_inv
      rw [List.append_nil]
      exact .keyUnsupported hverified hsign
    | ok sigS =>
      rw [hsign] at hrest
      obtain ⟨e, hlost, rfl, rfl⟩ | ⟨evs', hsent, rfl, hlast⟩ := bind_sendPlain_inv hrest
      · rw [hsends] at hlost
        exact .acceptLost hverified hsign hlost
      rw [hsends] at hsent
      -- ACCEPT has left, and now the session key is derived
      have hkeys : ((EphemeralKey.init L rnd.ecdh).deriveSessionKey L response.ecdhPubC
          hello.nonceC rnd.nonceS).1 = serverSessionKey L rnd hello response := rfl
      rw [hkeys] at hlast
      cases hderive : serverSessionKey L rnd hello response with
      | error e =>
        rw [hderive] at hlast
        obtain ⟨rfl, rfl, -⟩ := hlast.raise_inv
        exact .noSessionKey hverified hsign hsent hderive
      | ok sessionKey =>
        rw [hderive] at hlast
        simp only [codec_of_sessionKey L rnd hderive rnd.sessionToken] at hlast
        obtain ⟨rfl, rfl, -⟩ := hlast.pure_inv
        exact .completed hverified hsign hsent hderive

/-- **Every run goes one of these ways.** -/
theorem performServerHandshake_course {w' : PlainWorld} {evs : List PlainEvent}
    {v : Except Raised ServerHandshakeResult}
    (h : Runs (performServerHandshake L E cfg rnd) .start evs v w') :
    ServerCourse L E cfg rnd evs v := by
  obtain ⟨e, hnone, rfl, rfl⟩ | ⟨m, evs₁, hm, rfl, hrest⟩ := bind_recvOr_inv h
  · exact .noHello hnone
  obtain ⟨text, hrejected, rfl, rfl⟩ | ⟨⟨hello, cert, cn⟩, hok, hopen⟩ := bind_orReject_inv hrest
  · exact .helloRejected hm hrejected
  obtain rfl := checkHello_ok L cfg hok
  have hopened : Opened L E cfg hello cert cn := ⟨hm, hok⟩
  obtain ⟨e, hlost, rfl, rfl⟩ | ⟨evs₂, hsent, rfl, hanswer⟩ := bind_sendPlain_inv hopen
  · exact .challengeLost hopened hlost
  obtain ⟨e, hnone, rfl, rfl⟩ | ⟨m, evs₃, hm', rfl, hrest'⟩ := bind_recvOr_inv hanswer
  · exact .noResponse hopened hsent hnone
  obtain ⟨text, hrejected, rfl, rfl⟩ | ⟨response, hok', haccept⟩ := bind_orReject_inv hrest'
  · exact .responseRejected hopened hsent hm' hrejected
  obtain rfl := checkResponse_ok hok'
  exact serverAccept_course L E cfg rnd ⟨hopened, hsent, hm'⟩ rfl haccept

end Course

/-! ### What the checks of HELLO say -/

/-- The certificate is valid at a time. -/
def Certificate.ValidAt (cert : Certificate) (now : Int) : Prop :=
  cert.notValidBeforeUtc ≤ now ∧ now ≤ cert.notValidAfterUtc

/-- The certificate carries a signature of the authority. -/
def Certificate.SignedBy (L : CryptoLib) (cert caCert : Certificate) : Prop :=
  match caCert.publicKey with
  | .ed25519 raw => L.ed25519Verify raw cert.signature cert.tbsCertificateBytes = true
  | .ec raw => ∃ alg, cert.signatureHashAlgorithm = some alg ∧
    L.ecVerify raw alg cert.signature cert.tbsCertificateBytes = true
  | .other _ => False

/-- **Spec of `verify_chain`.** -/
theorem verifyChain_ok_iff {L : CryptoLib} {now : Int} {cert caCert : Certificate} :
    verifyChain L now cert caCert = .ok () ↔ cert.ValidAt now ∧ cert.SignedBy L caCert := by
  unfold verifyChain Certificate.ValidAt Certificate.SignedBy
  by_cases hbefore : cert.notValidBeforeUtc > now
  · rw [if_pos hbefore]
    refine iff_of_false (by simp) ?_
    rintro ⟨⟨h, -⟩, -⟩
    omega
  by_cases hafter : cert.notValidAfterUtc < now
  · rw [if_neg hbefore, if_pos hafter]
    refine iff_of_false (by simp) ?_
    rintro ⟨⟨-, h⟩, -⟩
    omega
  have hvalid : cert.notValidBeforeUtc ≤ now ∧ now ≤ cert.notValidAfterUtc := by
    omega
  rw [if_neg hbefore, if_neg hafter, and_iff_right hvalid]
  cases caCert.publicKey with
  | ed25519 raw => simp
  | ec raw =>
    cases cert.signatureHashAlgorithm with
    | none => simp
    | some alg => simp
  | other typeName => simp

/-- **A HELLO that is accepted**: its time is within 30 seconds of the server's clock, its
certificate is valid and signed by the authority, and its silo is allowed for the common name. -/
structure HelloPasses (L : CryptoLib) (cfg : ServerConfig) (now : Clock) (hello : HelloMsg)
    (cert : Certificate) (cn : Str) : Prop where
  timestamp : (now.timeNs - hello.tsNs).natAbs ≤ 30000000000
  certificate : L.loadPem hello.clientCertPem = .ok cert
  valid : cert.ValidAt now.utc
  signed : cert.SignedBy L cfg.caCert
  commonName : getCn cert = .ok cn
  silo : cfg.allowedSilos.items = [] ∨
    ∃ silos, cfg.allowedSilos.get? cn = some silos ∧ hello.siloId ∈ silos

theorem validateHelloTimestamp_ok_iff {nowNs tsNs : Int} :
    validateHelloTimestamp nowNs tsNs = .ok () ↔ (nowNs - tsNs).natAbs ≤ 30000000000 := by
  unfold validateHelloTimestamp
  by_cases h : (nowNs - tsNs).natAbs > 30000000000
  · simp [h]
  · simp [h, not_lt.mp h]

theorem acceptCert_ok_iff {L : CryptoLib} {now : Int} {pem : Str} {caCert cert : Certificate}
    {cn : Str} : acceptCert L now pem caCert = .ok (cert, cn) ↔
      L.loadPem pem = .ok cert ∧ cert.ValidAt now ∧ cert.SignedBy L caCert ∧
        getCn cert = .ok cn := by
  constructor
  · intro h
    unfold acceptCert at h
    split at h
    · cases h
    · next cert' hload =>
      split at h
      · cases h
      · next hchain =>
        split at h
        · cases h
        · next hcn =>
          cases h
          obtain ⟨hvalid, hsigned⟩ := verifyChain_ok_iff.mp hchain
          exact ⟨hload, hvalid, hsigned, hcn⟩
  · rintro ⟨hload, hvalid, hsigned, hcn⟩
    simp only [acceptCert, hload, verifyChain_ok_iff.mpr ⟨hvalid, hsigned⟩, hcn]

/-- An empty policy allows every silo; otherwise the name needs an entry that lists it. -/
theorem siloAllowed_iff {allowedSilos : Dict Str (List Uuid)} {cn : Str} {silo : Uuid} :
    ¬ (allowedSilos.items ≠ [] ∧ silo ∉ (allowedSilos.get? cn).getD []) ↔
      allowedSilos.items = [] ∨ ∃ silos, allowedSilos.get? cn = some silos ∧ silo ∈ silos := by
  rw [not_and_or, not_not, not_not]
  cases allowedSilos.get? cn with
  | none => simp
  | some silos => simp

/-- **Spec of the checks of HELLO.** -/
theorem checkHello_ok_iff {L : CryptoLib} {cfg : ServerConfig} {now : Clock} {hello : HelloMsg}
    {cert : Certificate} {cn : Str} :
    checkHello L cfg now (.hello hello) = .ok (hello, cert, cn) ↔
      HelloPasses L cfg now hello cert cn := by
  constructor
  · intro h
    unfold checkHello at h
    simp only at h
    split at h
    · cases h
    · next htime =>
      split at h
      · cases h
      · next cert' cn' hcert =>
        split at h
        · cases h
        · next hsilo =>
          cases h
          obtain ⟨hload, hvalid, hsigned, hcn⟩ := acceptCert_ok_iff.mp hcert
          exact ⟨validateHelloTimestamp_ok_iff.mp htime, hload, hvalid, hsigned, hcn,
            siloAllowed_iff.mp hsilo⟩
  · rintro ⟨htime, hload, hvalid, hsigned, hcn, hsilo⟩
    simp only [checkHello, validateHelloTimestamp_ok_iff.mpr htime,
      acceptCert_ok_iff.mpr ⟨hload, hvalid, hsigned, hcn⟩, if_neg (siloAllowed_iff.mpr hsilo)]

/-! ### Soundness -/

section Soundness

variable {L : CryptoLib} {E : PlainEnv} {cfg : ServerConfig} {rnd : ServerRandom}

theorem Verified.passes {hello : HelloMsg} {cert : Certificate} {cn : Str}
    {response : ResponseMsg} (h : Verified L E cfg rnd hello cert cn response) :
    HelloPasses L cfg E.clock hello cert cn := checkHello_ok_iff.mp h.checked

/-- The check of the key type comes on top of the signature. -/
theorem verifySignature_of_verifyPeer {side : String} {data signature : Bytes} {key : PublicKey}
    (h : verifyPeer L side data signature key = .ok ()) :
    verifySignature L data signature key = .ok () := by
  unfold verifyPeer at h
  split at h
  · cases h
  · exact h

/-- **A run that sends ACCEPT**: what came before, and that it is sent once. -/
structure SendsAccept (L : CryptoLib) (E : PlainEnv) (cfg : ServerConfig) (rnd : ServerRandom)
    (evs : List PlainEvent) (accept : AcceptMsg) (hello : HelloMsg) (cert : Certificate)
    (cn : Str) (response : ResponseMsg) : Prop where
  passes : HelloPasses L cfg E.clock hello cert cn
  signature : verifySignature L (rnd.challenge ++ rnd.nonceS) response.sigC cert.publicKey = .ok ()
  /-- The first message is the HELLO, the second the RESPONSE, and then ACCEPT is sent. -/
  order : ∃ rest, evs = [.received (.ok (.hello hello)),
    .attempted (.challenge (challengeMessage L cfg rnd)),
    .sent (.challenge (challengeMessage L cfg rnd)),
    .received (.ok (.response response)), .attempted (.accept accept)] ++ rest ∧
      ∀ accept', .attempted (.accept accept') ∉ rest

/-- A rejection does not send ACCEPT. -/
theorem accept_notMem_reject {n : Nat} {accept : AcceptMsg} {reason : AuthErrorMsg} :
    .attempted (.accept accept) ∉ sendEvents E n (.authError reason) := by
  unfold sendEvents
  split
  · simp
  · simp

theorem accept_notMem_answered {accept : AcceptMsg} {hello : HelloMsg} {response : ResponseMsg} :
    .attempted (.accept accept) ∉ answeredEvents L cfg rnd hello response := by
  simp [answeredEvents, openingEvents]

/-- ACCEPT is sent after the signature has been verified, and then once. -/
theorem Verified.sendsAccept {hello : HelloMsg} {cert : Certificate} {cn : Str}
    {response : ResponseMsg} (h : Verified L E cfg rnd hello cert cn response)
    (accept : AcceptMsg) {rest : List PlainEvent}
    (hrest : ∀ accept', .attempted (.accept accept') ∉ rest) :
    SendsAccept L E cfg rnd
      (answeredEvents L cfg rnd hello response ++ .attempted (.accept accept) :: rest)
      accept hello cert cn response :=
  ⟨h.passes, verifySignature_of_verifyPeer h.signature, rest, rfl, hrest⟩

/-- **Before the signature has been verified**, ACCEPT is not sent. -/
theorem ServerCourse.sendsAccept {evs : List PlainEvent}
    {v : Except Raised ServerHandshakeResult} (h : ServerCourse L E cfg rnd evs v)
    {accept : AcceptMsg} (hmem : .attempted (.accept accept) ∈ evs) :
    ∃ hello cert cn response, SendsAccept L E cfg rnd evs accept hello cert cn response := by
  cases h with
  | noHello => simp at hmem
  | helloRejected => simp [accept_notMem_reject] at hmem
  | challengeLost => simp at hmem
  | noResponse => simp [openingEvents] at hmem
  | responseRejected => simp [openingEvents, accept_notMem_reject] at hmem
  | keyUnreadable => exact absurd hmem accept_notMem_answered
  | signatureRejected => simp [accept_notMem_answered, accept_notMem_reject] at hmem
  | keyUnsupported => exact absurd hmem accept_notMem_answered
  -- behind the verification there is one ACCEPT, whatever becomes of the run
  | acceptLost hverified =>
    obtain rfl : accept = _ := by
      simpa [accept_notMem_answered] using hmem
    exact ⟨_, _, _, _, hverified.sendsAccept _ (by simp)⟩
  | noSessionKey hverified =>
    obtain rfl : accept = _ := by
      simpa [accept_notMem_answered] using hmem
    exact ⟨_, _, _, _, hverified.sendsAccept _ (by simp)⟩
  | completed hverified =>
    obtain rfl : accept = _ := by
      simpa [accept_notMem_answered] using hmem
    exact ⟨_, _, _, _, hverified.sendsAccept _ (by simp)⟩

/-- **Soundness of the server's handshake.** ACCEPT is sent once at most, and only after a HELLO
and a RESPONSE that pass every check; a run that returns has sent it, and returns the name, the
silo and the token that go with it. -/
theorem server_handshake_sound (L : CryptoLib) (E : PlainEnv) (cfg : ServerConfig)
    (rnd : ServerRandom) :
    (∀ accept, .attempted (.accept accept) ∈
        (performServerHandshake L E cfg rnd .start).events →
      ∃ hello cert cn response, SendsAccept L E cfg rnd
        (performServerHandshake L E cfg rnd .start).events accept hello cert cn response) ∧
    ∀ r, (performServerHandshake L E cfg rnd .start).value = .ok r →
      ∃ accept hello cert cn response, SendsAccept L E cfg rnd
          (performServerHandshake L E cfg rnd .start).events accept hello cert cn response ∧
        .sent (.accept accept) ∈ (performServerHandshake L E cfg rnd .start).events ∧
        r.clientCn = cn ∧ r.siloId = hello.siloId ∧ r.sessionToken = accept.sessionToken := by
  have hcourse := performServerHandshake_course L E cfg rnd (runs_self _ _)
  generalize (performServerHandshake L E cfg rnd .start).events = evs at hcourse
  generalize (performServerHandshake L E cfg rnd .start).value = v at hcourse
  refine ⟨fun accept hmem => hcourse.sendsAccept hmem, ?_⟩
  rintro r rfl
  cases hcourse with
  | completed hverified =>
    exact ⟨_, _, _, _, _, hverified.sendsAccept _ (by simp), by simp, rfl, rfl, rfl⟩

/-! ### Failure discipline -/

/-- The AUTH_ERROR messages that a run has tried to send. -/
def PlainEvent.rejection? : PlainEvent → Option AuthErrorMsg
  | .attempted (.authError m) => some m
  | _ => none

/-- **A run that fails as documented**: it raises a `HandshakeError`, has tried to send one
AUTH_ERROR, and has sent no ACCEPT. -/
def FailsCleanly (evs : List PlainEvent) (v : Except Raised ServerHandshakeResult) : Prop :=
  ∀ e, v = .error e → (∃ text, e = .handshakeError text) ∧
    (evs.filterMap PlainEvent.rejection?).length = 1 ∧ ∀ accept, .sent (.accept accept) ∉ evs

/-- A key of one of the two supported types. -/
def PrivateKey.Supported : PrivateKey → Prop
  | .other _ => False
  | _ => True

/-- A public key with which an ephemeral key has a session key: 32 bytes, an exchange that does
not raise, and a secret that is not zero. -/
def KeyAgrees (L : CryptoLib) (random remote : Bytes) : Prop :=
  remote.length = 32 ∧
    ∃ secret, L.x25519Exchange random remote = some secret ∧ secret ≠ List.replicate 32 0

/-- **Nothing else goes wrong**: both receives answer; after a HELLO that passes, CHALLENGE can be
sent; after a RESPONSE, the key of the certificate can be read; and if its signature verifies, the
server can sign, ACCEPT can be sent, and the ephemeral key of the RESPONSE agrees. -/
def OnlyChecksFail (L : CryptoLib) (E : PlainEnv) (cfg : ServerConfig) (rnd : ServerRandom) :
    Prop :=
  ∃ m, E.received 0 = .ok m ∧
    ∀ hello cert cn, m = .hello hello → HelloPasses L cfg E.clock hello cert cn →
      E.sendFault 0 = none ∧ ∃ m', E.received 1 = .ok m' ∧
        ∀ response, m' = .response response →
          E.publicKeyFault cert = none ∧
          (verifyPeer L "client" (rnd.challenge ++ rnd.nonceS) response.sigC cert.publicKey =
              .ok () →
            cfg.serverKey.Supported ∧ E.sendFault 1 = none ∧
              KeyAgrees L rnd.ecdh response.ecdhPubC)

theorem supported_of_sign {data sig : Bytes} {key : PrivateKey}
    (h : signChallenge L data key = .ok sig) : key.Supported := by
  cases key with
  | ed25519 raw => trivial
  | ec raw => trivial
  | other typeName => cases h

theorem not_supported_of_sign {data : Bytes} {text : Str} {key : PrivateKey}
    (h : signChallenge L data key = .error text) : ¬ key.Supported := by
  cases key with
  | ed25519 raw => cases h
  | ec raw => cases h
  | other typeName => exact id

/-- **When there is a session key.** -/
theorem deriveSessionKey_cases (L : CryptoLib) (random remote nonceC nonceS : Bytes) :
    (KeyAgrees L random remote ∧ ∃ sessionKey,
      ((EphemeralKey.init L random).deriveSessionKey L remote nonceC nonceS).1 = .ok sessionKey) ∨
    (¬ KeyAgrees L random remote ∧ ∃ e,
      ((EphemeralKey.init L random).deriveSessionKey L remote nonceC nonceS).1 = .error e) := by
  unfold KeyAgrees EphemeralKey.deriveSessionKey EphemeralKey.init
  dsimp only
  by_cases hlength : remote.length = 32
  swap
  · rw [if_pos hlength]
    exact Or.inr ⟨fun h => hlength h.1, _, rfl⟩
  rw [if_neg (not_not.mpr hlength)]
  cases hexchange : L.x25519Exchange random remote with
  | none => exact Or.inr ⟨by simp, _, rfl⟩
  | some secret =>
    dsimp only
    by_cases hzero : secret = List.replicate 32 0
    · rw [if_pos hzero]
      exact Or.inr ⟨by simp [hzero], _, rfl⟩
    · rw [if_neg hzero]
      exact Or.inl ⟨⟨hlength, secret, rfl, hzero⟩, _, rfl⟩

theorem serverSessionKey_cases (L : CryptoLib) (rnd : ServerRandom) (hello : HelloMsg)
    (response : ResponseMsg) :
    (KeyAgrees L rnd.ecdh response.ecdhPubC ∧
      ∃ sessionKey, serverSessionKey L rnd hello response = .ok sessionKey) ∨
    (¬ KeyAgrees L rnd.ecdh response.ecdhPubC ∧
      ∃ e, serverSessionKey L rnd hello response = .error e) :=
  deriveSessionKey_cases L rnd.ecdh response.ecdhPubC hello.nonceC rnd.nonceS

section Conditions

variable {hello : HelloMsg} {cert : Certificate} {cn : Str} {response : ResponseMsg}

/-- The condition, after a HELLO that passes. -/
theorem Opened.onlyChecksFail_iff (h : Opened L E cfg hello cert cn) :
    OnlyChecksFail L E cfg rnd ↔ E.sendFault 0 = none ∧ ∃ m', E.received 1 = .ok m' ∧
      ∀ response, m' = .response response →
        E.publicKeyFault cert = none ∧
        (verifyPeer L "client" (rnd.challenge ++ rnd.nonceS) response.sigC cert.publicKey =
            .ok () →
          cfg.serverKey.Supported ∧ E.sendFault 1 = none ∧
            KeyAgrees L rnd.ecdh response.ecdhPubC) := by
  have hpasses : HelloPasses L cfg E.clock hello cert cn := checkHello_ok_iff.mp h.checked
  constructor
  · rintro ⟨m, hm, hrest⟩
    rw [h.first] at hm
    cases hm
    exact hrest hello cert cn rfl hpasses
  · intro hrest
    refine ⟨.hello hello, h.first, ?_⟩
    rintro hello' cert' cn' ⟨⟩ hpasses'
    -- the PEM text determines the certificate
    have hcert : cert' = cert :=
      Except.ok.inj (hpasses'.certificate.symm.trans hpasses.certificate)
    rw [hcert]
    exact hrest

/-- The condition, after a RESPONSE. -/
theorem Answered.onlyChecksFail_iff (h : Answered L E cfg hello cert cn response) :
    OnlyChecksFail L E cfg rnd ↔ E.publicKeyFault cert = none ∧
      (verifyPeer L "client" (rnd.challenge ++ rnd.nonceS) response.sigC cert.publicKey =
          .ok () →
        cfg.serverKey.Supported ∧ E.sendFault 1 = none ∧
          KeyAgrees L rnd.ecdh response.ecdhPubC) := by
  rw [h.toOpened.onlyChecksFail_iff]
  constructor
  · rintro ⟨-, m', hm', hrest⟩
    rw [h.second] at hm'
    cases hm'
    exact hrest response rfl
  · intro hrest
    refine ⟨h.challengeSent, .response response, h.second, ?_⟩
    rintro response' ⟨⟩
    exact hrest

/-- The condition, after a signature that verifies. -/
theorem Verified.onlyChecksFail_iff (h : Verified L E cfg rnd hello cert cn response) :
    OnlyChecksFail L E cfg rnd ↔
      cfg.serverKey.Supported ∧ E.sendFault 1 = none ∧ KeyAgrees L rnd.ecdh response.ecdhPubC := by
  rw [h.toAnswered.onlyChecksFail_iff]
  exact ⟨fun hrest => hrest.2 h.signature, fun hrest => ⟨h.keyReadable, fun _ => hrest⟩⟩

end Conditions

/-- A rejection is one AUTH_ERROR and no ACCEPT. -/
theorem fails_cleanly_of_reject (evs : List PlainEvent) (n : Nat) (text : Str)
    (hquiet : evs.filterMap PlainEvent.rejection? = [])
    (hnone : ∀ accept, .sent (.accept accept) ∉ evs) :
    FailsCleanly (evs ++ sendEvents E n (.authError ⟨text⟩)) (.error (.handshakeError text)) := by
  rintro e ⟨⟩
  have hsend : (sendEvents E n (.authError ⟨text⟩)).filterMap PlainEvent.rejection? =
      [⟨text⟩] := by
    unfold sendEvents
    split
    · rfl
    · rfl
  have haccept : ∀ accept, .sent (.accept accept) ∉ sendEvents E n (.authError ⟨text⟩) := by
    intro accept
    unfold sendEvents
    split
    · simp
    · simp
  refine ⟨⟨text, rfl⟩, ?_, ?_⟩
  · rw [List.filterMap_append, hquiet, hsend]
    rfl
  · intro accept hmem
    obtain hbefore | hafter := List.mem_append.mp hmem
    · exact hnone accept hbefore
    · exact haccept accept hafter

/-- A run that has rejected nothing and raises does not fail cleanly. -/
theorem not_fails_cleanly_of_quiet {evs : List PlainEvent} {e : Raised}
    (hquiet : evs.filterMap PlainEvent.rejection? = []) : ¬ FailsCleanly evs (.error e) := by
  intro h
  obtain ⟨-, hone, -⟩ := h e rfl
  rw [hquiet] at hone
  cases hone

/-- **Failure discipline.** A run that does not return raises a `HandshakeError`, has tried to send
one AUTH_ERROR and has sent no ACCEPT, exactly if nothing but the checks can fail. -/
theorem fails_cleanly_iff (L : CryptoLib) (E : PlainEnv) (cfg : ServerConfig)
    (rnd : ServerRandom) :
    FailsCleanly (performServerHandshake L E cfg rnd .start).events
        (performServerHandshake L E cfg rnd .start).value ↔
      OnlyChecksFail L E cfg rnd := by
  have hcourse := performServerHandshake_course L E cfg rnd (runs_self _ _)
  generalize (performServerHandshake L E cfg rnd .start).events = evs at hcourse
  generalize (performServerHandshake L E cfg rnd .start).value = v at hcourse
  -- every course ends in a reject, which is clean, or in an exception without a message to the
  -- client; in each of them the condition is read off the facts that lead there
  cases hcourse with
  | noHello hnone =>
    refine iff_of_false (not_fails_cleanly_of_quiet rfl) ?_
    rintro ⟨m, hm, -⟩
    rw [hnone] at hm
    cases hm
  | @helloRejected m text hm hcheck =>
    refine iff_of_true (fails_cleanly_of_reject [.received (.ok m)] 0 text rfl (by simp)) ?_
    refine ⟨m, hm, ?_⟩
    rintro hello cert cn rfl hpasses
    rw [checkHello_ok_iff.mpr hpasses] at hcheck
    cases hcheck
  | challengeLost hopened hlost =>
    refine iff_of_false (not_fails_cleanly_of_quiet rfl) ?_
    rw [hopened.onlyChecksFail_iff, hlost]
    rintro ⟨hsent, -⟩
    cases hsent
  | noResponse hopened hsent hnone =>
    refine iff_of_false (not_fails_cleanly_of_quiet rfl) ?_
    rw [hopened.onlyChecksFail_iff, hnone]
    rintro ⟨-, m, hm, -⟩
    cases hm
  | @responseRejected hello _ _ m text hopened hsent hm hcheck =>
    have hclean := fails_cleanly_of_reject (E := E)
      (openingEvents L cfg rnd hello ++ [.received (.ok m)]) 1 text rfl (by simp [openingEvents])
    rw [List.append_assoc, List.singleton_append] at hclean
    refine iff_of_true hclean (hopened.onlyChecksFail_iff.mpr ⟨hsent, m, hm, ?_⟩)
    rintro response rfl
    cases hcheck
  | keyUnreadable hanswered hkey =>
    refine iff_of_false (not_fails_cleanly_of_quiet rfl) ?_
    rw [hanswered.onlyChecksFail_iff, hkey]
    rintro ⟨hnone, -⟩
    cases hnone
  | signatureRejected hanswered hkey hverify =>
    refine iff_of_true (fails_cleanly_of_reject _ 1 _ rfl ?_) ?_
    · simp [answeredEvents, openingEvents]
    refine hanswered.onlyChecksFail_iff.mpr ⟨hkey, fun hok => ?_⟩
    rw [hverify] at hok
    cases hok
  | keyUnsupported hverified hsign =>
    refine iff_of_false (not_fails_cleanly_of_quiet rfl) ?_
    rw [hverified.onlyChecksFail_iff]
    exact fun h => not_supported_of_sign hsign h.1
  | acceptLost hverified hsign hlost =>
    refine iff_of_false (not_fails_cleanly_of_quiet rfl) ?_
    rw [hverified.onlyChecksFail_iff, hlost]
    rintro ⟨-, hsent, -⟩
    cases hsent
  | @noSessionKey hello _ _ response _ e hverified hsign hsent hkey =>
    -- ACCEPT has been sent when the ephemeral key of the client turns out to be of no use
    refine iff_of_false (not_fails_cleanly_of_quiet rfl) ?_
    rw [hverified.onlyChecksFail_iff]
    obtain ⟨-, sessionKey, hok⟩ | ⟨hnot, -⟩ := serverSessionKey_cases L rnd hello response
    · rw [hkey] at hok
      cases hok
    · exact fun h => hnot h.2.2
  | @completed hello _ _ response _ sessionKey hverified hsign hsent hkey =>
    refine iff_of_true (fun e he => by cases he) (hverified.onlyChecksFail_iff.mpr ?_)
    refine ⟨supported_of_sign hsign, hsent, ?_⟩
    obtain ⟨hagrees, -⟩ | ⟨-, e, herror⟩ := serverSessionKey_cases L rnd hello response
    · exact hagrees
    · rw [hkey] at herror
      cases herror

end Soundness

namespace Sample

/-- A connection on which two messages arrive and nothing fails. -/
def plainEnv (first second : AnyMsg) : PlainEnv where
  received n := if n = 0 then .ok first else .ok second
  sendFault _ := none
  clock := sampleClock
  publicKeyFault _ := none

/-- A RESPONSE with a good signature and an ephemeral key of 31 bytes. -/
def shortResponse : ResponseMsg := ⟨[1] ++ (bytes32 23 ++ bytes32 22), List.replicate 31 9⟩

/-- The ACCEPT that answers it. -/
def acceptSent : AcceptMsg := ⟨[2] ++ (bytes32 23 ++ bytes32 21), bytes32 32, bytes32 24, 5⟩

/-- The run of the server with it. -/
def shortKeyRun : Outcome PlainWorld PlainEvent Raised ServerHandshakeResult :=
  performServerHandshake plainLib
    (plainEnv (.hello ⟨lit "C", bytes32 21, 0, 5⟩) (.response shortResponse))
    sampleParties.server sampleParties.serverRandom .start

/-- **ACCEPT has been sent**, and then the run raises a `SessionError`. -/
theorem short_key_raises_after_accept :
    shortKeyRun.value = .error (.session (.keySize 31)) ∧
      .sent (.accept acceptSent) ∈ shortKeyRun.events ∧
      ¬ FailsCleanly shortKeyRun.events shortKeyRun.value := by
  have hvalue : shortKeyRun.value = .error (.session (.keySize 31)) := rfl
  refine ⟨hvalue, List.mem_of_getLast? rfl, ?_⟩
  · intro h
    obtain ⟨⟨text, he⟩, -⟩ := h _ hvalue
    cases he

end Sample

end Chiralite
