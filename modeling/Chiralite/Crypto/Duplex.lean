import Mathlib.Data.List.Nodup
import Mathlib.Logic.Function.Basic
import Chiralite.Crypto.Handshake

/-!
# Both directions of a session

After the handshake each side holds one `PayloadCodec` and uses it in both directions. The two
codecs have the key and the token of the session in common and count from zero, so the frames
of the two sides are numbered alike.

`Duplex` is the pair of codecs under any schedule of `encrypt` calls and deliveries. What has
been encrypted under which key and nonce is recorded, and which frames each side has produced.

* `noncesUnique_iff`: no pair of key and nonce is used twice exactly when the keys differ or
  one of the sides never encrypts.
* `guarded_acceptsForeign_iff`: with an ideal scheme, every accepted frame was produced by the
  other side exactly when the network never returns to a side a frame of its own that carries
  the number it expects.
-/

namespace Chiralite

open BigEndian Py Run

/-! ### The system -/

/-- The two endpoints of a session. -/
inductive Side where
  | client
  | server
  deriving DecidableEq

/-- The peer. -/
def Side.other : Side → Side
  | .client => .server
  | .server => .client

/-- The codecs of both endpoints, the frames each has produced, and every AES-GCM encryption by
its endpoint, key and nonce. -/
structure Duplex where
  codec : Side → PayloadCodec
  frames : Side → List Bytes
  encryptions : List (Side × Bytes × Bytes)

/-- An endpoint encrypts, or is handed a byte string. -/
inductive DuplexAct where
  | encrypt (side : Side) (plaintext : Bytes)
  | deliver (side : Side) (frame : Bytes)

namespace Duplex

/-- The codecs as the handshake returns them. -/
def start (client server : PayloadCodec) : Duplex where
  codec side := match side with
    | .client => client
    | .server => server
  frames _ := []
  encryptions := []

/-- One call. -/
def step (A : Aead) (s : Duplex) : DuplexAct → Duplex
  | .encrypt side plaintext =>
    match (s.codec side).encrypt A plaintext with
    | (.ok frame, c) =>
      { codec := Function.update s.codec side c
        frames := Function.update s.frames side (s.frames side ++ [frame])
        encryptions := s.encryptions ++ [(side, c.key, nonceOf frame)] }
    | (.error _, c) => { s with codec := Function.update s.codec side c }
  | .deliver side frame =>
    { s with codec := Function.update s.codec side ((s.codec side).decrypt A frame).2 }

/-- The endpoint accepts the frame. -/
def Accepts (A : Aead) (s : Duplex) (side : Side) (frame : Bytes) : Prop :=
  ∃ plaintext, ((s.codec side).decrypt A frame).1 = .ok plaintext

/-- The codec after an `encrypt` call. -/
def nextSend (c : PayloadCodec) : PayloadCodec := { c with sendSeq := c.sendSeq + 1 }

/-- **Spec of an `encrypt` call.** Below the end of the counter one frame is produced and one
encryption recorded; at the end nothing is. The counter advances in both cases. -/
theorem step_encrypt_cases (A : Aead) (s : Duplex) (side : Side) (p : Bytes) :
    ((s.codec side).sendSeq < 2 ^ 64 ∧
      s.step A (.encrypt side p) =
        { codec := Function.update s.codec side (nextSend (s.codec side))
          frames := Function.update s.frames side (s.frames side ++
            [frameOf A (s.codec side).key (s.codec side).sessionToken (s.codec side).sendSeq p])
          encryptions := s.encryptions ++
            [(side, (s.codec side).key, toBytes 12 (s.codec side).sendSeq)] }) ∨
    (2 ^ 64 ≤ (s.codec side).sendSeq ∧
      s.step A (.encrypt side p) =
        { s with codec := Function.update s.codec side (nextSend (s.codec side)) }) := by
  by_cases h : (s.codec side).sendSeq < 2 ^ 64
  · refine Or.inl ⟨h, ?_⟩
    simp only [step, PayloadCodec.encrypt, if_pos h, nonceOf_frameOf, nextSend]
  · refine Or.inr ⟨by omega, ?_⟩
    simp only [step, PayloadCodec.encrypt, if_neg h, nextSend]

theorem step_encrypt_codec (A : Aead) (s : Duplex) (side : Side) (p : Bytes) :
    (s.step A (.encrypt side p)).codec =
      Function.update s.codec side (nextSend (s.codec side)) := by
  rcases step_encrypt_cases A s side p with ⟨-, h⟩ | ⟨-, h⟩
  · rw [h]
  · rw [h]

/-- **Spec of a delivery.** Only the receive counter of the endpoint can change. -/
theorem step_deliver_codec (A : Aead) (s : Duplex) (side d : Side) (f : Bytes) :
    ((s.step A (.deliver side f)).codec d).key = (s.codec d).key ∧
      ((s.step A (.deliver side f)).codec d).sessionToken = (s.codec d).sessionToken ∧
      ((s.step A (.deliver side f)).codec d).sendSeq = (s.codec d).sendSeq := by
  change (Function.update s.codec side ((s.codec side).decrypt A f).2 d).key = _ ∧
    (Function.update s.codec side ((s.codec side).decrypt A f).2 d).sessionToken = _ ∧
    (Function.update s.codec side ((s.codec side).decrypt A f).2 d).sendSeq = _
  -- `decrypt` rewrites the codec of the endpoint it is called on, and there only `recv_seq`
  by_cases hd : d = side
  · subst hd
    rw [Function.update_self]
    rcases PayloadCodec.decrypt_cases A (s.codec d) f with ⟨p, h, -⟩ | ⟨err, h⟩
    · rw [h]
      exact ⟨rfl, rfl, rfl⟩
    · rw [h]
      exact ⟨rfl, rfl, rfl⟩
  · rw [Function.update_of_ne hd]
    exact ⟨rfl, rfl, rfl⟩

/-- No call changes a key or a token. -/
theorem step_key (A : Aead) (s : Duplex) (a : DuplexAct) (d : Side) :
    ((s.step A a).codec d).key = (s.codec d).key ∧
      ((s.step A a).codec d).sessionToken = (s.codec d).sessionToken := by
  cases a with
  | encrypt side p =>
    rw [step_encrypt_codec]
    -- the call touches the counter of its own side only
    by_cases hd : d = side
    · subst hd
      rw [Function.update_self]
      exact ⟨rfl, rfl⟩
    · rw [Function.update_of_ne hd]
      exact ⟨rfl, rfl⟩
  | deliver side f =>
    obtain ⟨hkey, htoken, -⟩ := step_deliver_codec A s side d f
    exact ⟨hkey, htoken⟩

theorem run_key (A : Aead) (s : Duplex) (as : List DuplexAct) (d : Side) :
    ((run (step A) s as).codec d).key = (s.codec d).key := by
  induction as generalizing s with
  | nil => rfl
  | cons a as ih => rw [run_cons, ih, (step_key A s a d).1]

/-! ### Nonces -/

/-- Every recorded encryption is one of the numbers its side has counted through. -/
def Counted (s : Duplex) : Prop :=
  ∀ e ∈ s.encryptions, ∃ i, i < (s.codec e.1).sendSeq ∧ i < 2 ^ 64 ∧
    e.2 = ((s.codec e.1).key, toBytes 12 i)

/-- A side that has encrypted has used the nonce zero. -/
def UsedZero (s : Duplex) (d : Side) : Prop :=
  (s.codec d).sendSeq = 0 ∨ (d, (s.codec d).key, toBytes 12 0) ∈ s.encryptions

theorem Counted.step {A : Aead} {s : Duplex} (h : s.Counted) (a : DuplexAct) :
    (s.step A a).Counted := by
  cases a with
  | encrypt side p =>
    -- what was counted before stays below the counter, which only grows
    have hold : ∀ e ∈ s.encryptions, ∃ i,
        i < ((s.step A (.encrypt side p)).codec e.1).sendSeq ∧ i < 2 ^ 64 ∧
          e.2 = (((s.step A (.encrypt side p)).codec e.1).key, toBytes 12 i) := by
      intro e he
      obtain ⟨i, hi, hlim, heq⟩ := h e he
      refine ⟨i, ?_, hlim, by rw [(step_key A s _ e.1).1]; exact heq⟩
      rw [step_encrypt_codec]
      by_cases hd : e.1 = side
      · rw [hd, Function.update_self]
        rw [hd] at hi
        exact Nat.lt_succ_of_lt hi
      · rw [Function.update_of_ne hd]
        exact hi
    intro e he
    rcases step_encrypt_cases A s side p with ⟨hlt, hs⟩ | ⟨-, hs⟩
    · rw [hs] at he
      rcases List.mem_append.mp he with he | he
      · exact hold e he
      · obtain rfl := List.mem_singleton.mp he
        -- the new encryption carries the number the counter had before the call
        refine ⟨(s.codec side).sendSeq, ?_, hlt, ?_⟩
        · rw [step_encrypt_codec, Function.update_self]
          exact Nat.lt_succ_self _
        · rw [(step_key A s _ side).1]
    · rw [hs] at he
      exact hold e he
  | deliver side f =>
    -- a delivery encrypts nothing
    intro e he
    obtain ⟨i, hi, hlim, heq⟩ := h e he
    obtain ⟨hkey, -, hseq⟩ := step_deliver_codec A s side e.1 f
    exact ⟨i, by rw [hseq]; exact hi, hlim, by rw [hkey]; exact heq⟩

theorem UsedZero.step {A : Aead} {s : Duplex} {d : Side} (h : s.UsedZero d) (a : DuplexAct) :
    (s.step A a).UsedZero d := by
  cases a with
  | encrypt side p =>
    have hkey := (step_key A s (.encrypt side p) d).1
    -- the record of encryptions only grows
    have hmono : ∀ e ∈ s.encryptions, e ∈ (s.step A (.encrypt side p)).encryptions := by
      intro e he
      rcases step_encrypt_cases A s side p with ⟨-, hs⟩ | ⟨-, hs⟩
      · rw [hs]
        exact List.mem_append_left _ he
      · rw [hs]
        exact he
    rcases h with hzero | hmem
    · by_cases hd : d = side
      · -- the first call of this side
        subst hd
        rcases step_encrypt_cases A s d p with ⟨-, hs⟩ | ⟨hge, -⟩
        · refine Or.inr ?_
          rw [hkey, hs, ← hzero]
          exact List.mem_append_right _ List.mem_cons_self
        · omega
      · refine Or.inl ?_
        rw [step_encrypt_codec, Function.update_of_ne hd]
        exact hzero
    · refine Or.inr ?_
      rw [hkey]
      exact hmono _ hmem
  | deliver side f =>
    obtain ⟨hkey, -, hseq⟩ := step_deliver_codec A s side d f
    refine h.imp (fun hzero => by rw [hseq]; exact hzero) fun hmem => ?_
    rw [hkey]
    exact hmem

/-- No pair of key and nonce has been used twice. -/
def NoncesUnique (s : Duplex) : Prop := (s.encryptions.map Prod.snd).Nodup

/-- The sides that encrypt, `active`, have keys of their own, and so far no pair of key and
nonce has been used twice. -/
structure Separated (active : Side → Prop) (s : Duplex) : Prop where
  counted : s.Counted
  encrypted : ∀ e ∈ s.encryptions, active e.1
  keys : ∀ d d', active d → active d' → (s.codec d).key = (s.codec d').key → d = d'
  unique : s.NoncesUnique

theorem Separated.step {A : Aead} {active : Side → Prop} {s : Duplex} (h : Separated active s)
    {a : DuplexAct} (ha : ∀ d p, a = .encrypt d p → active d) :
    Separated active (s.step A a) := by
  -- no call changes a key, so the keys stay apart
  have hkeys : ∀ d d', active d → active d' →
      ((s.step A a).codec d).key = ((s.step A a).codec d').key → d = d' := by
    intro d d' hd hd' heq
    rw [(step_key A s a d).1, (step_key A s a d').1] at heq
    exact h.keys d d' hd hd' heq
  cases a with
  | encrypt side p =>
    have hactive : active side := ha side p rfl
    rcases step_encrypt_cases A s side p with ⟨hlt, hs⟩ | ⟨-, hs⟩
    · have henc : (s.step A (.encrypt side p)).encryptions = s.encryptions ++
          [(side, (s.codec side).key, toBytes 12 (s.codec side).sendSeq)] := by rw [hs]
      refine ⟨h.counted.step _, ?_, hkeys, ?_⟩
      · intro e he
        rw [henc] at he
        rcases List.mem_append.mp he with he | he
        · exact h.encrypted e he
        · rw [List.mem_singleton.mp he]
          exact hactive
      · -- the new number is beyond every number this key has seen
        unfold NoncesUnique
        rw [henc, List.map_append, List.map_cons, List.map_nil]
        refine List.Nodup.append h.unique (List.nodup_singleton _) ?_
        intro x hx hnew
        obtain ⟨e, he, rfl⟩ := List.mem_map.mp hx
        obtain ⟨i, hi, hlim, heq⟩ := h.counted e he
        rw [List.mem_singleton, heq] at hnew
        obtain ⟨hkey, hnonce⟩ := Prod.mk.inj hnew
        -- the same key means the same side, and on one side a number is used once
        have hside : e.1 = side := h.keys _ _ (h.encrypted e he) hactive hkey
        have hsame : i = (s.codec side).sendSeq :=
          toBytes_injective (by omega) (by omega) hnonce
        rw [hside] at hi
        omega
    -- the counter is at its end: `encrypt` raises, and nothing is encrypted
    · have henc : (s.step A (.encrypt side p)).encryptions = s.encryptions := by rw [hs]
      refine ⟨h.counted.step _, ?_, hkeys, ?_⟩
      · rw [henc]
        exact h.encrypted
      · unfold NoncesUnique
        rw [henc]
        exact h.unique
  | deliver side f => exact ⟨h.counted.step _, h.encrypted, hkeys, h.unique⟩

/-- A side that encrypts at least once uses the nonce zero. -/
theorem mem_encryptions_of_encrypt (A : Aead) {s : Duplex} {d : Side} (h : s.UsedZero d)
    {as : List DuplexAct} {p : Bytes} (hmem : .encrypt d p ∈ as) :
    (d, (s.codec d).key, toBytes 12 0) ∈ (run (step A) s as).encryptions := by
  -- after the call the counter of the side is not zero, and it never goes back
  have hrun : ∀ (as : List DuplexAct) (s : Duplex), s.UsedZero d →
      (run (step A) s as).UsedZero d ∧
        (s.codec d).sendSeq ≤ ((run (step A) s as).codec d).sendSeq := by
    intro as
    induction as with
    | nil => intro s hs; exact ⟨hs, Nat.le_refl _⟩
    | cons a as ih =>
      intro s hs
      obtain ⟨hzero, hle⟩ := ih (s.step A a) (hs.step a)
      refine ⟨hzero, Nat.le_trans ?_ hle⟩
      cases a with
      | encrypt side p =>
        rw [step_encrypt_codec]
        by_cases hd : d = side
        · subst hd
          rw [Function.update_self]
          exact Nat.le_succ _
        · rw [Function.update_of_ne hd]
      | deliver side f => rw [(step_deliver_codec A s side d f).2.2]
  -- cut the schedule at the call
  obtain ⟨as₁, as₂, rfl⟩ := List.append_of_mem hmem
  have hfirst := (hrun as₁ s h).1
  obtain ⟨hzero, hle⟩ := hrun as₂ ((run (step A) s as₁).step A (.encrypt d p)) (hfirst.step _)
  rw [run_append, run_cons]
  rcases hzero with hzero | hin
  · rw [step_encrypt_codec, Function.update_self] at hle
    have hpos : (nextSend ((run (step A) s as₁).codec d)).sendSeq =
        ((run (step A) s as₁).codec d).sendSeq + 1 := rfl
    omega
  · rw [run_key, (step_key A _ _ d).1, run_key] at hin
    exact hin

/-- **Nonce uniqueness**, for two fresh codecs and any schedule: it holds exactly when the keys
differ or one of the sides never encrypts. -/
theorem noncesUnique_iff (A : Aead) {c s : PayloadCodec} (hc : c.sendSeq = 0) (hs : s.sendSeq = 0)
    (as : List DuplexAct) :
    (run (step A) (start c s) as).NoncesUnique ↔
      c.key ≠ s.key ∨ (∀ p, .encrypt .client p ∉ as) ∨ ∀ p, .encrypt .server p ∉ as := by
  -- sides with keys of their own keep their nonces apart, whatever the schedule
  have hsep : ∀ active : Side → Prop, (∀ d p, .encrypt d p ∈ as → active d) →
      (∀ d d', active d → active d' → ((start c s).codec d).key = ((start c s).codec d').key →
        d = d') → (run (step A) (start c s) as).NoncesUnique := by
    intro active hactive hkeys
    have hinit : Separated active (start c s) :=
      ⟨fun e he => absurd he (by simp [start]), fun e he => absurd he (by simp [start]), hkeys,
        List.nodup_nil⟩
    have hstep : ∀ (x : Duplex) (a : DuplexAct), Separated active x →
        (∀ d p, a = .encrypt d p → active d) → Separated active (x.step A a) :=
      fun x a h ha => h.step ha
    refine (run_invariant hstep hinit ?_).unique
    refine guarded_of_forall ?_
    rintro a ha d p rfl
    exact hactive d p ha
  constructor
  · intro hunique
    by_contra hnot
    push Not at hnot
    obtain ⟨hkey, ⟨p, hp⟩, q, hq⟩ := hnot
    -- both sides encrypt under one key: each has used the nonce zero
    have hclient := mem_encryptions_of_encrypt A (s := start c s) (d := .client) (Or.inl hc) hp
    have hserver := mem_encryptions_of_encrypt A (s := start c s) (d := .server) (Or.inl hs) hq
    have hpair : (c.key, toBytes 12 0) = (s.key, toBytes 12 0) := by rw [hkey]
    have hsame := List.inj_on_of_nodup_map hunique hclient hserver hpair
    exact absurd (congrArg Prod.fst hsame) (by simp)
  · rintro (hkey | hsilent | hsilent)
    -- two keys: both sides may encrypt
    · refine hsep (fun _ => True) (fun _ _ _ => trivial) ?_
      intro d d' _ _ heq
      cases d <;> cases d'
      · rfl
      · exact absurd heq hkey
      · exact absurd heq.symm hkey
      · rfl
    -- one side encrypts alone, so that its key need not differ from anything
    · refine hsep (fun d => d = .server) ?_ (fun d d' hd hd' _ => hd.trans hd'.symm)
      intro d p hp
      cases d
      · exact absurd hp (hsilent p)
      · rfl
    · refine hsep (fun d => d = .client) ?_ (fun d d' hd hd' _ => hd.trans hd'.symm)
      intro d p hp
      cases d
      · rfl
      · exact absurd hp (hsilent p)

/-! ### Reflection -/

/-- Every frame of a side is numbered and sealed with that side's key and token. -/
def FramesSealed (A : Aead) (s : Duplex) : Prop :=
  ∀ d, ∀ f ∈ s.frames d, ∃ i p, i < 2 ^ 64 ∧
    f = frameOf A (s.codec d).key (s.codec d).sessionToken i p

/-- What has been sealed under a key, by either side. -/
def sealedUnder (s : Duplex) (key : Bytes) : List Aead.Sealed :=
  [Side.client, Side.server].flatMap fun d =>
    if (s.codec d).key = key then (s.frames d).map (sealedIn (s.codec d).sessionToken) else []

/-- The scheme is ideal: a delivered byte string decrypts only if it was sealed under the
endpoint's key, with that nonce and associated data. -/
def Ideal (A : Aead) (s : Duplex) : DuplexAct → Prop
  | .encrypt _ _ => True
  | .deliver d f =>
    A.Unforged (s.codec d).key (s.sealedUnder (s.codec d).key)
      (sealedIn (s.codec d).sessionToken f)

/-- An accepted frame was produced by the other side. -/
def AcceptsForeign (A : Aead) (s : Duplex) : DuplexAct → Prop
  | .encrypt _ _ => True
  | .deliver d f => s.Accepts A d f → f ∈ s.frames d.other

/-- The network does not return to a side a frame of its own, not also produced by the other
side, that carries the number the side expects. -/
def NotReflected (s : Duplex) : DuplexAct → Prop
  | .encrypt _ _ => True
  | .deliver d f =>
    ¬ (f ∈ s.frames d ∧ f ∉ s.frames d.other ∧ ofBytes (seqBytesOf f) = (s.codec d).recvSeq)

theorem FramesSealed.step {A : Aead} {s : Duplex} (h : s.FramesSealed A) (a : DuplexAct) :
    (s.step A a).FramesSealed A := by
  intro d f hf
  -- a frame stays sealed under the key of its side, because no call changes that
  rw [(step_key A s a d).1, (step_key A s a d).2]
  cases a with
  | encrypt side p =>
    rcases step_encrypt_cases A s side p with ⟨hlt, hs⟩ | ⟨-, hs⟩
    · rw [hs] at hf
      by_cases hd : d = side
      · subst hd
        simp only [Function.update_self] at hf
        rcases List.mem_append.mp hf with hf | hf
        · exact h d f hf
        · exact ⟨_, p, hlt, List.mem_singleton.mp hf⟩
      · simp only [Function.update_of_ne hd] at hf
        exact h d f hf
    · rw [hs] at hf
      exact h d f hf
  | deliver side g => exact h d f hf

/-- A frame of the endpoint's own, with the expected number, is accepted. -/
theorem accepts_own {A : Aead} {s : Duplex} (h : s.FramesSealed A) {d : Side} {f : Bytes}
    (hf : f ∈ s.frames d) (hseq : ofBytes (seqBytesOf f) = (s.codec d).recvSeq) :
    s.Accepts A d f := by
  obtain ⟨i, p, hi, rfl⟩ := h d f hf
  rw [seqBytesOf_frameOf, ofBytes_toBytes (by omega)] at hseq
  subst hseq
  exact ⟨p, by rw [PayloadCodec.decrypt_frameOf A (s.codec d) p hi]⟩

/-- With an ideal scheme, an accepted frame was produced by one of the two sides and carries
the expected number. -/
theorem produced_of_accepts {A : Aead} {s : Duplex} (h : s.FramesSealed A) {d : Side} {f : Bytes}
    (hideal : s.Ideal A (.deliver d f)) (hacc : s.Accepts A d f) :
    ofBytes (seqBytesOf f) = (s.codec d).recvSeq ∧ ∃ d', f ∈ s.frames d' := by
  obtain ⟨plaintext, hok⟩ := hacc
  rcases PayloadCodec.decrypt_cases A (s.codec d) f with
    ⟨q, -, hlen, hseq, hnonce, hopen⟩ | ⟨err, hrej⟩
  · refine ⟨hseq, ?_⟩
    have hopened : A.decrypt (s.codec d).key (sealedIn (s.codec d).sessionToken f).nonce
        (sealedIn (s.codec d).sessionToken f).ciphertext
        (sealedIn (s.codec d).sessionToken f).aad = some q := hopen
    -- the ideal scheme opens nothing but what was sealed
    have hmem := hideal (by rw [hopened]; simp)
    obtain ⟨d', -, hd'⟩ := List.mem_flatMap.mp hmem
    split at hd'
    · obtain ⟨g, hg, hsealed⟩ := List.mem_map.mp hd'
      obtain ⟨i, p, hi, rfl⟩ := h d' g hg
      -- the nonce fixes the number, the number the first eight bytes
      have hwidth : (seqBytesOf f).length = 8 := by
        unfold seqBytesOf
        rw [List.length_take]
        omega
      have hrecv : (s.codec d).recvSeq < 256 ^ 8 := by
        have hlt := ofBytes_lt (seqBytesOf f)
        rwa [hwidth, hseq] at hlt
      have hnonces := congrArg Aead.Sealed.nonce hsealed
      simp only [sealedIn, nonceOf_frameOf] at hnonces
      have hnumber : i = (s.codec d).recvSeq :=
        toBytes_injective (by omega) (by omega) (hnonces.trans hnonce)
      have hbytes : seqBytesOf f = toBytes 8 i := by
        rw [hnumber, ← hseq, ← hwidth]
        exact (toBytes_ofBytes _).symm
      refine ⟨d', ?_⟩
      -- number, nonce and ciphertext are all there is to a frame
      have hframe : frameOf A (s.codec d').key (s.codec d').sessionToken i p = f := by
        have hciphertexts := congrArg Aead.Sealed.ciphertext hsealed
        simp only [sealedIn] at hciphertexts
        refine frame_ext ?_ ?_ hciphertexts
        · rw [seqBytesOf_frameOf, hbytes]
        · rw [nonceOf_frameOf, hnonces]
      rw [← hframe]
      exact hg
    · exact absurd hd' (by simp)
  · rw [hrej] at hok
    exact absurd hok (by simp)

/-- In one state, with an ideal scheme: the frame of a delivery was produced by the other side
if accepted, exactly when the delivery is no reflection. -/
theorem acceptsForeign_iff {A : Aead} {s : Duplex} (h : s.FramesSealed A) (a : DuplexAct)
    (hideal : s.Ideal A a) : s.AcceptsForeign A a ↔ s.NotReflected a := by
  cases a with
  | encrypt d p => exact Iff.rfl
  | deliver d f =>
    constructor
    · rintro hforeign ⟨hown, hnot, hseq⟩
      exact hnot (hforeign (accepts_own h hown hseq))
    · intro hrefl hacc
      obtain ⟨hseq, d', hd'⟩ := produced_of_accepts h hideal hacc
      by_contra hnot
      -- produced by someone, but not by the other side
      have hown : f ∈ s.frames d := by
        cases d <;> cases d'
        · exact hd'
        · exact absurd hd' hnot
        · exact absurd hd' hnot
        · exact hd'
      exact hrefl ⟨hown, hnot, hseq⟩

/-- **Reflection**, for two codecs and any schedule with an ideal scheme: every accepted frame
was produced by the other side exactly when the network never reflects. -/
theorem guarded_acceptsForeign_iff (A : Aead) (c s : PayloadCodec) {as : List DuplexAct}
    (hideal : Guarded (step A) (Ideal A) (start c s) as) :
    Guarded (step A) (AcceptsForeign A) (start c s) as ↔
      Guarded (step A) NotReflected (start c s) as := by
  have hstart : (start c s).FramesSealed A := fun d f hf => absurd hf (by simp [start])
  have hstep : ∀ (x : Duplex) (a : DuplexAct), x.FramesSealed A → x.Ideal A a →
      (x.step A a).FramesSealed A := fun x a h _ => h.step a
  exact guarded_congr hstep (fun x a h ha => acceptsForeign_iff h a ha) hstart hideal

end Duplex

/-! ### Sessions of the handshake -/

section Handshaken

variable {L : CryptoLib} {P : Parties} {net : List NetAct} {rc : ClientHandshakeResult}
  {tc : ClientTranscript} {rs : ServerHandshakeResult} {ts : ServerTranscript}

/-- The codecs of completed runs count from zero. -/
theorem handshake_codecs_fresh
    (hc : (run (Net.step L P) (Net.start L P) net).client = .done rc tc)
    (hs : (run (Net.step L P) (Net.start L P) net).server = .done rs ts) :
    rc.codec.sendSeq = 0 ∧ rs.codec.sendSeq = 0 := by
  obtain ⟨hinvc, hinvs⟩ := Net.inv_run L P net
  rw [hc] at hinvc
  rw [hs] at hinvs
  obtain ⟨-, -, -, secretc, -, hcodecc⟩ := hinvc
  obtain ⟨-, -, -, secrets, -, hcodecs⟩ := hinvs
  rw [hcodecc, hcodecs]
  exact ⟨rfl, rfl⟩

/-- **Nonce uniqueness of a session.** For the codecs of a completed handshake and any schedule,
no pair of session key and nonce is used twice exactly when the two session keys differ or one
of the endpoints never encrypts. -/
theorem session_nonces_unique_iff (A : Aead)
    (hc : (run (Net.step L P) (Net.start L P) net).client = .done rc tc)
    (hs : (run (Net.step L P) (Net.start L P) net).server = .done rs ts) (as : List DuplexAct) :
    (run (Duplex.step A) (Duplex.start rc.codec rs.codec) as).NoncesUnique ↔
      rc.codec.key ≠ rs.codec.key ∨ (∀ p, .encrypt .client p ∉ as) ∨
        ∀ p, .encrypt .server p ∉ as := by
  obtain ⟨hfc, hfs⟩ := handshake_codecs_fresh hc hs
  exact Duplex.noncesUnique_iff A hfc hfs as

/-- **Reflection resistance of a session.** For the codecs of a completed handshake and any
schedule with an ideal scheme, every accepted frame was produced by the other endpoint exactly
when no endpoint is handed back a frame of its own that carries the number it expects. -/
theorem session_reflection_iff (A : Aead)
    (_hc : (run (Net.step L P) (Net.start L P) net).client = .done rc tc)
    (_hs : (run (Net.step L P) (Net.start L P) net).server = .done rs ts) {as : List DuplexAct}
    (hideal : Guarded (Duplex.step A) (Duplex.Ideal A) (Duplex.start rc.codec rs.codec) as) :
    Guarded (Duplex.step A) (Duplex.AcceptsForeign A) (Duplex.start rc.codec rs.codec) as ↔
      Guarded (Duplex.step A) Duplex.NotReflected (Duplex.start rc.codec rs.codec) as :=
  Duplex.guarded_acceptsForeign_iff A rc.codec rs.codec hideal

end Handshaken

/-! ### Closed instances, on the honest handshake -/

/-- The session key of the honest handshake. -/
def honestKey : Bytes := bytes32 63

/-- The codec both sides of the honest handshake obtain. -/
def honestCodec : PayloadCodec := ⟨honestKey, bytes32 24, 0, 0⟩

theorem honest_client : ∃ tc, (sampleEnd (bytes32 31) (bytes32 32)).client =
    .done ⟨honestCodec, bytes32 24, lit "server"⟩ tc := ⟨_, rfl⟩

theorem honest_server : ∃ ts, (sampleEnd (bytes32 31) (bytes32 32)).server =
    .done ⟨honestCodec, bytes32 24, lit "client", 5⟩ ts := ⟨_, rfl⟩

theorem session_nonces_unique_iff_honest :
    (run (Duplex.step plainAead) (Duplex.start honestCodec honestCodec)
        [.encrypt .client [1], .encrypt .client [2]]).NoncesUnique ↔
      honestCodec.key ≠ honestCodec.key ∨
        (∀ p, DuplexAct.encrypt .client p ∉ [.encrypt .client [1], .encrypt .client [2]]) ∨
        ∀ p, DuplexAct.encrypt .server p ∉ [.encrypt .client [1], .encrypt .client [2]] := by
  obtain ⟨tc, hc⟩ := honest_client
  obtain ⟨ts, hs⟩ := honest_server
  exact session_nonces_unique_iff plainAead hc hs _

/-- One message in each direction, both under nonce zero. -/
theorem not_session_nonces_unique :
    ¬ ∀ (A : Aead) (L : CryptoLib) (P : Parties) (net : List NetAct)
      (rc : ClientHandshakeResult) (tc : ClientTranscript) (rs : ServerHandshakeResult)
      (ts : ServerTranscript), (run (Net.step L P) (Net.start L P) net).client = .done rc tc →
      (run (Net.step L P) (Net.start L P) net).server = .done rs ts →
      ∀ as, (run (Duplex.step A) (Duplex.start rc.codec rs.codec) as).NoncesUnique := by
  intro hall
  obtain ⟨tc, hc⟩ := honest_client
  obtain ⟨ts, hs⟩ := honest_server
  -- both codecs start at zero under the one session key
  have hunique := hall plainAead _ _ _ _ _ _ _ hc hs [.encrypt .client [1], .encrypt .server [2]]
  rcases (Duplex.noncesUnique_iff plainAead rfl rfl _).mp hunique with hkey | hclient | hserver
  · exact hkey rfl
  · exact hclient [1] (by simp)
  · exact hserver [2] (by simp)

/-- The first frame of the client in the honest session. -/
def honestFrame : Bytes := frameOf plainAead honestKey (bytes32 24) 0 [1]

theorem session_reflection_iff_honest :
    Guarded (Duplex.step plainAead) (Duplex.AcceptsForeign plainAead)
        (Duplex.start honestCodec honestCodec)
        [.encrypt .client [1], .deliver .server honestFrame] ↔
      Guarded (Duplex.step plainAead) Duplex.NotReflected (Duplex.start honestCodec honestCodec)
        [.encrypt .client [1], .deliver .server honestFrame] := by
  obtain ⟨tc, hc⟩ := honest_client
  obtain ⟨ts, hs⟩ := honest_server
  refine session_reflection_iff plainAead hc hs ⟨trivial, ?_, trivial⟩
  exact fun _ => List.mem_flatMap.mpr ⟨.client, by simp, List.mem_cons_self⟩

/-- The client's own frame comes back and is accepted. -/
theorem not_session_reflection_resistant :
    ¬ ∀ (A : Aead) (L : CryptoLib) (P : Parties) (net : List NetAct)
      (rc : ClientHandshakeResult) (tc : ClientTranscript) (rs : ServerHandshakeResult)
      (ts : ServerTranscript), (run (Net.step L P) (Net.start L P) net).client = .done rc tc →
      (run (Net.step L P) (Net.start L P) net).server = .done rs ts →
      ∀ as, Guarded (Duplex.step A) (Duplex.Ideal A) (Duplex.start rc.codec rs.codec) as →
        Guarded (Duplex.step A) (Duplex.AcceptsForeign A) (Duplex.start rc.codec rs.codec) as := by
  intro hall
  obtain ⟨tc, hc⟩ := honest_client
  obtain ⟨ts, hs⟩ := honest_server
  -- the frame was sealed by the client, so that an ideal scheme opens it
  have hideal : Guarded (Duplex.step plainAead) (Duplex.Ideal plainAead)
      (Duplex.start honestCodec honestCodec)
      [.encrypt .client [1], .deliver .client honestFrame] := by
    refine ⟨trivial, ?_, trivial⟩
    exact fun _ => List.mem_flatMap.mpr ⟨.client, by simp, List.mem_cons_self⟩
  have hforeign := hall plainAead _ _ _ _ _ _ _ hc hs _ hideal
  have hrefl := (Duplex.guarded_acceptsForeign_iff plainAead honestCodec honestCodec hideal).mp
    hforeign
  refine hrefl.2.1 ⟨List.mem_cons_self, List.not_mem_nil, ?_⟩
  decide

end Chiralite
