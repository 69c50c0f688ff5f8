import Chiralite.Framework.BigEndian
import Chiralite.Protocol.Messages

/-!
# The payload codec

`crypto/payload.py`: the stateful AES-256-GCM codec of one WebSocket session. A frame is the
sequence number in eight bytes, the same number again as the twelve-byte nonce, and the
ciphertext with its tag; the associated data is the session token and the sequence number.
The two counters advance independently: `encrypt` takes its number before anything can fail,
`decrypt` advances only after the tag has been verified.

AES-GCM is a parameter (`Aead`), with what every scheme promises: decrypting inverts encrypting,
and the tag adds sixteen bytes. Idealness is no property of the scheme alone. A receiver in front of
a network that does with frames what it likes is described by a list of byte strings handed to
`decrypt`; an ideal scheme means that every one of them is `Unforged` with respect to the sender's
frames. `decryptAll_isPrefix` is the run lemma: what is returned is a prefix of the plaintexts from
the one expected on.
-/

/-! ### Authenticated encryption -/

/-- An AEAD scheme on byte strings with a sixteen-byte tag. -/
structure Aead where
  /-- `encrypt(nonce, data, associated_data)` under a key. -/
  encrypt : List UInt8 → List UInt8 → List UInt8 → List UInt8 → List UInt8
  /-- `decrypt(nonce, data, associated_data)` under a key. -/
  decrypt : List UInt8 → List UInt8 → List UInt8 → List UInt8 → Option (List UInt8)
  decrypt_encrypt : ∀ key nonce plaintext aad,
    decrypt key nonce (encrypt key nonce plaintext aad) aad = some plaintext
  length_encrypt : ∀ key nonce plaintext aad,
    (encrypt key nonce plaintext aad).length = plaintext.length + 16

namespace Aead

/-- A ciphertext with the nonce and the associated data it belongs to. -/
structure Sealed where
  nonce : List UInt8
  aad : List UInt8
  ciphertext : List UInt8
  deriving DecidableEq

/-- Decrypting `x` under `key` succeeds only if `x` is in the log. -/
def Unforged (A : Aead) (key : List UInt8) (log : List Sealed) (x : Sealed) : Prop :=
  A.decrypt key x.nonce x.ciphertext x.aad ≠ none → x ∈ log

instance (A : Aead) (key : List UInt8) (log : List Sealed) (x : Sealed) :
    Decidable (A.Unforged key log x) :=
  inferInstanceAs (Decidable (A.decrypt key x.nonce x.ciphertext x.aad ≠ none → x ∈ log))

end Aead

namespace Chiralite

open BigEndian

/-! ### The codec -/

/-- `PayloadCodec`. -/
structure PayloadCodec where
  key : Bytes
  sessionToken : Bytes
  sendSeq : Nat
  recvSeq : Nat
  deriving DecidableEq

/-- What `PayloadCodec` raises outside of reading a frame. -/
inductive CodecError where
  /-- `ValueError`: `session key must be 32 bytes, got {n}`. -/
  | keySize (n : Nat)
  /-- `struct.error`: the sequence number does not fit eight bytes. -/
  | seqRange
  deriving DecidableEq

/-- `FrameError`, by its message; `replay` is the subclass `ReplayError`. -/
inductive FrameError where
  /-- `frame too short: {n} < 36`. -/
  | tooShort (n : Nat)
  /-- `expected seq {expected}, got {got}`. -/
  | replay (expected got : Nat)
  /-- `nonce does not match seq {seq}`. -/
  | nonceMismatch (seq : Nat)
  /-- `GCM authentication failed`. -/
  | authentication
  deriving DecidableEq

/-- The sequence bytes of a frame. -/
def seqBytesOf (frame : Bytes) : Bytes := frame.take 8

/-- The nonce of a frame. -/
def nonceOf (frame : Bytes) : Bytes := (frame.drop 8).take 12

/-- The ciphertext of a frame, tag included. -/
def ciphertextOf (frame : Bytes) : Bytes := frame.drop 20

/-- A frame as the AEAD scheme sees it under a session token. -/
def sealedIn (token frame : Bytes) : Aead.Sealed :=
  ⟨nonceOf frame, token ++ seqBytesOf frame, ciphertextOf frame⟩

/-- The frame of sequence number `seq`. -/
def frameOf (A : Aead) (key token : Bytes) (seq : Nat) (plaintext : Bytes) : Bytes :=
  toBytes 8 seq ++ (toBytes 12 seq ++
    A.encrypt key (toBytes 12 seq) plaintext (token ++ toBytes 8 seq))

namespace PayloadCodec

/-- `PayloadCodec.__init__`. -/
def init (key token : Bytes) : Except CodecError PayloadCodec :=
  if key.length ≠ 32 then .error (.keySize key.length) else .ok ⟨key, token, 0, 0⟩

/-- `PayloadCodec.encrypt`. The counter has advanced when `struct.pack` refuses the number. -/
def encrypt (A : Aead) (c : PayloadCodec) (plaintext : Bytes) :
    Except CodecError Bytes × PayloadCodec :=
  let seq := c.sendSeq
  let c' := { c with sendSeq := seq + 1 }
  if seq < 2 ^ 64 then (.ok (frameOf A c.key c.sessionToken seq plaintext), c')
  else (.error .seqRange, c')

/-- `PayloadCodec.decrypt`. -/
def decrypt (A : Aead) (c : PayloadCodec) (frame : Bytes) :
    Except FrameError Bytes × PayloadCodec :=
  if frame.length < 36 then (.error (.tooShort frame.length), c)
  else
    let seq := ofBytes (seqBytesOf frame)
    if seq ≠ c.recvSeq then (.error (.replay c.recvSeq seq), c)
    else if nonceOf frame ≠ toBytes 12 seq then (.error (.nonceMismatch seq), c)
    else
      match A.decrypt c.key (nonceOf frame) (ciphertextOf frame)
        (c.sessionToken ++ seqBytesOf frame) with
      | none => (.error .authentication, c)
      | some plaintext => (.ok plaintext, { c with recvSeq := c.recvSeq + 1 })

/-- The frames of a list of `encrypt` calls, and the codec after them. -/
def encryptAll (A : Aead) (c : PayloadCodec) : List Bytes → List Bytes × PayloadCodec
  | [] => ([], c)
  | p :: ps =>
    match encrypt A c p with
    | (.ok frame, c') => (frame :: (encryptAll A c' ps).1, (encryptAll A c' ps).2)
    | (.error _, c') => encryptAll A c' ps

/-- The plaintexts that `decrypt` returns for a list of byte strings, and the codec after
them. -/
def decryptAll (A : Aead) (c : PayloadCodec) : List Bytes → List Bytes × PayloadCodec
  | [] => ([], c)
  | f :: fs =>
    match decrypt A c f with
    | (.ok plaintext, c') => (plaintext :: (decryptAll A c' fs).1, (decryptAll A c' fs).2)
    | (.error _, c') => decryptAll A c' fs

end PayloadCodec

/-- A codec that could be built is fresh. -/
theorem PayloadCodec.init_ok {key token : Bytes} {c : PayloadCodec}
    (h : PayloadCodec.init key token = .ok c) : c = ⟨key, token, 0, 0⟩ := by
  unfold PayloadCodec.init at h
  split at h
  · exact absurd h (by simp)
  · exact (Except.ok.inj h).symm

/-! ### The parts of a produced frame -/

section Frame

variable (A : Aead) (key token : Bytes) (seq : Nat) (p : Bytes)

@[simp] theorem seqBytesOf_frameOf : seqBytesOf (frameOf A key token seq p) = toBytes 8 seq := by
  unfold seqBytesOf frameOf
  rw [List.take_append_of_le_length (by simp), List.take_of_length_le (by simp)]

@[simp] theorem nonceOf_frameOf : nonceOf (frameOf A key token seq p) = toBytes 12 seq := by
  unfold nonceOf frameOf
  rw [List.drop_append_of_le_length (by simp), List.drop_of_length_le (by simp),
    List.nil_append, List.take_append_of_le_length (by simp), List.take_of_length_le (by simp)]

@[simp] theorem ciphertextOf_frameOf : ciphertextOf (frameOf A key token seq p) =
    A.encrypt key (toBytes 12 seq) p (token ++ toBytes 8 seq) := by
  unfold ciphertextOf frameOf
  rw [← List.append_assoc, List.drop_append_of_le_length (by simp),
    List.drop_of_length_le (by simp), List.nil_append]

theorem length_frameOf : (frameOf A key token seq p).length = p.length + 36 := by
  unfold frameOf
  simp only [List.length_append, length_toBytes, A.length_encrypt]
  omega

/-- A frame is put together from its parts. -/
theorem frame_ext {f g : Bytes} (hs : seqBytesOf f = seqBytesOf g) (hn : nonceOf f = nonceOf g)
    (hc : ciphertextOf f = ciphertextOf g) : f = g := by
  have hsplit : ∀ h : Bytes, h = seqBytesOf h ++ (nonceOf h ++ ciphertextOf h) := by
    intro h
    have hrest : h.drop 20 = (h.drop 8).drop 12 := by rw [List.drop_drop]
    unfold seqBytesOf nonceOf ciphertextOf
    rw [hrest, List.take_append_drop, List.take_append_drop]
  rw [hsplit f, hsplit g, hs, hn, hc]

end Frame

/-! ### What `decrypt` accepts -/

namespace PayloadCodec

/-- **Spec of `decrypt`.** An accepted frame carries the expected sequence number, twice, and
decrypts; the receive counter advances by one. A rejected frame changes nothing. -/
theorem decrypt_cases (A : Aead) (c : PayloadCodec) (frame : Bytes) :
    (∃ plaintext, decrypt A c frame = (.ok plaintext, { c with recvSeq := c.recvSeq + 1 }) ∧
      36 ≤ frame.length ∧ ofBytes (seqBytesOf frame) = c.recvSeq ∧
      nonceOf frame = toBytes 12 c.recvSeq ∧
      A.decrypt c.key (nonceOf frame) (ciphertextOf frame)
        (c.sessionToken ++ seqBytesOf frame) = some plaintext) ∨
    ∃ err, decrypt A c frame = (.error err, c) := by
  unfold decrypt
  -- the four checks of `decrypt`, in its order; each failure leaves the codec as it was
  by_cases hlen : frame.length < 36
  · exact Or.inr ⟨_, if_pos hlen⟩
  rw [if_neg hlen]
  by_cases hseq : ofBytes (seqBytesOf frame) ≠ c.recvSeq
  · exact Or.inr ⟨_, if_pos hseq⟩
  simp only [if_neg hseq]
  push Not at hseq
  by_cases hnonce : nonceOf frame ≠ toBytes 12 (ofBytes (seqBytesOf frame))
  · exact Or.inr ⟨_, if_pos hnonce⟩
  rw [if_neg hnonce]
  push Not at hnonce
  cases hopen : A.decrypt c.key (nonceOf frame) (ciphertextOf frame)
      (c.sessionToken ++ seqBytesOf frame) with
  | none => exact Or.inr ⟨_, rfl⟩
  | some plaintext =>
    refine Or.inl ⟨plaintext, rfl, by omega, hseq, ?_, rfl⟩
    -- the nonce repeats the number that was just found to be the expected one
    rw [hnonce, hseq]

/-- A produced frame is accepted by every codec of its key and token that expects its
sequence number. -/
theorem decrypt_frameOf (A : Aead) (c : PayloadCodec) (p : Bytes) (h : c.recvSeq < 2 ^ 64) :
    decrypt A c (frameOf A c.key c.sessionToken c.recvSeq p) =
      (.ok p, { c with recvSeq := c.recvSeq + 1 }) := by
  -- eight bytes hold every number below the end of the counter
  have hseq : ofBytes (toBytes 8 c.recvSeq) = c.recvSeq := ofBytes_toBytes (by simpa using h)
  have hlen : ¬ (frameOf A c.key c.sessionToken c.recvSeq p).length < 36 := by
    rw [length_frameOf]
    omega
  unfold decrypt
  rw [if_neg hlen]
  simp only [seqBytesOf_frameOf, nonceOf_frameOf, ciphertextOf_frameOf, hseq, ne_eq,
    not_true_eq_false, if_false, A.decrypt_encrypt]

/-! ### The sender's frames -/

/-- Below the end of the counter every call succeeds. -/
theorem encryptAll_eq (A : Aead) (c : PayloadCodec) (ps : List Bytes)
    (h : c.sendSeq + ps.length ≤ 2 ^ 64) :
    (encryptAll A c ps).1 =
      ps.mapIdx fun i p => frameOf A c.key c.sessionToken (c.sendSeq + i) p := by
  induction ps generalizing c with
  | nil => rfl
  | cons p ps ih =>
    rw [List.length_cons] at h
    -- the induction is on the plaintexts, with the counter moving along
    have henc : encrypt A c p =
        (.ok (frameOf A c.key c.sessionToken c.sendSeq p), { c with sendSeq := c.sendSeq + 1 }) :=
      if_pos (by omega)
    have htail := ih { c with sendSeq := c.sendSeq + 1 } (by dsimp only; omega)
    have hshift : (fun i q => frameOf A c.key c.sessionToken (c.sendSeq + (i + 1)) q) =
        fun i q => frameOf A c.key c.sessionToken (c.sendSeq + 1 + i) q := by
      funext i q
      rw [Nat.add_assoc, Nat.add_comm 1 i]
    rw [encryptAll, henc, List.mapIdx_cons, hshift]
    simp only [htail, Nat.add_zero]

/-- A fresh codec numbers its frames from zero. -/
theorem encryptAll_fresh (A : Aead) {key token : Bytes} {ps : List Bytes}
    (h : ps.length < 2 ^ 64) :
    (encryptAll A ⟨key, token, 0, 0⟩ ps).1 = ps.mapIdx fun i p => frameOf A key token i p := by
  rw [encryptAll_eq A _ ps (by dsimp only; omega)]
  simp only [Nat.zero_add]

/-! ### The receiver -/

/-- What the sender has produced determines what an accepted frame holds: the plaintext whose
number the receiver expects. -/
theorem decrypt_of_unforged (A : Aead) {c : PayloadCodec} {ps : List Bytes}
    (hps : ps.length < 2 ^ 64) {f : Bytes}
    (hideal : A.Unforged c.key
      ((encryptAll A ⟨c.key, c.sessionToken, 0, 0⟩ ps).1.map (sealedIn c.sessionToken))
      (sealedIn c.sessionToken f)) :
    (∃ h : c.recvSeq < ps.length,
      decrypt A c f = (.ok ps[c.recvSeq], { c with recvSeq := c.recvSeq + 1 })) ∨
    ∃ err, decrypt A c f = (.error err, c) := by
  rcases decrypt_cases A c f with ⟨plaintext, hdec, hlen, hseq, hnonce, hopen⟩ | hrej
  -- the expected number has been read from eight bytes, so that it fits in them
  · have hrecv : c.recvSeq < 256 ^ 8 := by
      have hlt := ofBytes_lt (seqBytesOf f)
      have hwidth : (seqBytesOf f).length = 8 := by
        unfold seqBytesOf
        rw [List.length_take]
        omega
      rwa [hwidth, hseq] at hlt
    -- the frame decrypts, so the sender produced it, under a number that its nonce fixes
    have hopened : A.decrypt c.key (sealedIn c.sessionToken f).nonce
        (sealedIn c.sessionToken f).ciphertext (sealedIn c.sessionToken f).aad =
        some plaintext := hopen
    have hmem := hideal (by rw [hopened]; simp)
    rw [encryptAll_fresh A hps] at hmem
    obtain ⟨g, hg, hsealed⟩ := List.mem_map.mp hmem
    obtain ⟨i, hi, rfl⟩ := List.mem_mapIdx.mp hg
    have hsame : toBytes 12 i = toBytes 12 c.recvSeq := by
      have hnonces := congrArg Aead.Sealed.nonce hsealed
      simp only [sealedIn, nonceOf_frameOf] at hnonces
      rw [hnonces, hnonce]
    obtain rfl : i = c.recvSeq := toBytes_injective (by omega) (by omega) hsame
    -- the frame is the one of that number, and decrypts to its plaintext
    have hplain : A.decrypt c.key (sealedIn c.sessionToken f).nonce
        (sealedIn c.sessionToken f).ciphertext (sealedIn c.sessionToken f).aad =
        some ps[c.recvSeq] := by
      rw [← hsealed]
      simp only [sealedIn, nonceOf_frameOf, ciphertextOf_frameOf, seqBytesOf_frameOf,
        A.decrypt_encrypt]
    rw [hopened] at hplain
    exact Or.inl ⟨hi, by rw [hdec, Option.some.inj hplain]⟩
  · exact Or.inr hrej

/-- **Run lemma.** Whatever the network delivers, the receiver returns plaintexts of the sender
in order, without gaps, from the one it expects on. -/
theorem decryptAll_isPrefix (A : Aead) {c : PayloadCodec} {ps : List Bytes}
    (hps : ps.length < 2 ^ 64) {fs : List Bytes}
    (hideal : ∀ f ∈ fs, A.Unforged c.key
      ((encryptAll A ⟨c.key, c.sessionToken, 0, 0⟩ ps).1.map (sealedIn c.sessionToken))
      (sealedIn c.sessionToken f)) :
    (decryptAll A c fs).1 <+: ps.drop c.recvSeq := by
  induction fs generalizing c with
  | nil => exact List.nil_prefix
  | cons f fs ih =>
    have hrest : ∀ g ∈ fs, A.Unforged c.key
        ((encryptAll A ⟨c.key, c.sessionToken, 0, 0⟩ ps).1.map (sealedIn c.sessionToken))
        (sealedIn c.sessionToken g) := fun g hg => hideal g (List.mem_cons_of_mem _ hg)
    rcases decrypt_of_unforged A hps (hideal f List.mem_cons_self) with ⟨hlt, hdec⟩ | ⟨err, hdec⟩
    -- accepted: it is the next plaintext, and the receiver expects the one after it
    · have hdrop : ps.drop c.recvSeq = ps[c.recvSeq] :: ps.drop (c.recvSeq + 1) :=
        List.drop_eq_getElem_cons hlt
      have htail := ih (c := { c with recvSeq := c.recvSeq + 1 }) hrest
      rw [decryptAll, hdec, hdrop]
      exact List.cons_prefix_cons.mpr ⟨rfl, htail⟩
    · rw [decryptAll, hdec]
      exact ih hrest

/-- Frames delivered in order are all accepted. -/
theorem decryptAll_mapIdx (A : Aead) (c : PayloadCodec) (ps : List Bytes)
    (h : c.recvSeq + ps.length ≤ 2 ^ 64) :
    (decryptAll A c
      (ps.mapIdx fun i p => frameOf A c.key c.sessionToken (c.recvSeq + i) p)).1 = ps := by
  induction ps generalizing c with
  | nil => rfl
  | cons p ps ih =>
    rw [List.length_cons] at h
    have hdec := decrypt_frameOf A c p (by omega)
    have htail := ih { c with recvSeq := c.recvSeq + 1 } (by dsimp only; omega)
    have hshift : (fun i q => frameOf A c.key c.sessionToken (c.recvSeq + (i + 1)) q) =
        fun i q => frameOf A c.key c.sessionToken (c.recvSeq + 1 + i) q := by
      funext i q
      rw [Nat.add_assoc, Nat.add_comm 1 i]
    rw [List.mapIdx_cons, Nat.add_zero, decryptAll, hdec, hshift]
    simp only [htail]

/-! ### One direction of a session -/

/-- **Stream integrity.** For a sender and a receiver built from one key and token: whatever the
network delivers, the plaintexts returned are a prefix of those sent; a rejected frame leaves
the receiver as it was; and delivering all frames in order returns everything. -/
theorem stream_integrity (A : Aead) {key token : Bytes} {c : PayloadCodec}
    (hc : init key token = .ok c) {ps : List Bytes} (hps : ps.length < 2 ^ 64) :
    (∀ fs : List Bytes,
      (∀ f ∈ fs, A.Unforged key ((encryptAll A c ps).1.map (sealedIn token)) (sealedIn token f)) →
        (decryptAll A c fs).1 <+: ps) ∧
    (∀ r f err r', decrypt A r f = (.error err, r') → r' = r) ∧
    (decryptAll A c (encryptAll A c ps).1).1 = ps := by
  -- both codecs start with both counters at zero
  obtain rfl := init_ok hc
  refine ⟨?_, ?_, ?_⟩
  · intro fs hideal
    have hpre := decryptAll_isPrefix A (c := ⟨key, token, 0, 0⟩) hps hideal
    rwa [List.drop_zero] at hpre
  · intro r f err r' hrej
    rcases decrypt_cases A r f with ⟨p, hdec, -⟩ | ⟨err', hdec⟩
    · rw [hdec] at hrej
      exact absurd (Prod.mk.inj hrej).1 (by simp)
    · rw [hdec] at hrej
      exact (Prod.mk.inj hrej).2.symm
  · have hall := decryptAll_mapIdx A ⟨key, token, 0, 0⟩ ps (by dsimp only; omega)
    simp only [Nat.zero_add] at hall
    rw [encryptAll_fresh A hps]
    exact hall

end PayloadCodec

/-! ### A closed instance -/

/-- A scheme without secrecy whose tag is the nonce, padded to sixteen bytes. -/
def nonceTag (nonce : Bytes) : Bytes := (nonce ++ List.replicate 16 0).take 16

/-- The scheme of the closed statement below. -/
def plainAead : Aead where
  encrypt _ nonce plaintext _ := plaintext ++ nonceTag nonce
  decrypt _ nonce ciphertext _ :=
    if ciphertext.drop (ciphertext.length - 16) = nonceTag nonce then
      some (ciphertext.take (ciphertext.length - 16))
    else none
  decrypt_encrypt := by
    intro key nonce plaintext aad
    have htag : (nonceTag nonce).length = 16 := by simp [nonceTag]
    have hlen : (plaintext ++ nonceTag nonce).length - 16 = plaintext.length := by
      rw [List.length_append, htag, Nat.add_sub_cancel]
    rw [hlen, List.drop_left, List.take_left, if_pos rfl]
  length_encrypt := by
    intro key nonce plaintext aad
    simp [nonceTag]

/-- The key of the closed statement below. -/
def zeroKey : Bytes := List.replicate 32 0

/-- Two messages; the network delivers the second first, then the first twice, then the second,
then garbage. -/
theorem stream_integrity_reordered :
    (PayloadCodec.decryptAll plainAead ⟨zeroKey, [7], 0, 0⟩
      [frameOf plainAead zeroKey [7] 1 [5], frameOf plainAead zeroKey [7] 0 [4],
        frameOf plainAead zeroKey [7] 0 [4], frameOf plainAead zeroKey [7] 1 [5], [1, 2]]).1 <+:
      [[4], [5]] := by
  have hinit : PayloadCodec.init zeroKey [7] = .ok ⟨zeroKey, [7], 0, 0⟩ := by decide
  have hsent : ([[4], [5]] : List Bytes).length < 2 ^ 64 := by decide
  have hmain := PayloadCodec.stream_integrity plainAead hinit hsent
  refine hmain.1 _ ?_
  decide

end Chiralite
