import Chiralite.Crypto.Duplex
import Chiralite.Framework.Answering
import Chiralite.Protocol.Wire
import Chiralite.Server.Tracking
import Chiralite.Sync.Engine

/-!
# Reflections at the server

Both sides of a session number their frames alike and seal them under one key, so a side can be made
to accept a frame of its own, when it is handed back under the number that the side expects. The
client can be: it speaks first. The server of `server.py` speaks only when it has been spoken to. At
any time it has sent at most as many frames as it has received, and so its own frames come back with
numbers that it no longer expects.

`session_not_reflected` is what follows for a session: whatever the network hands to the server, the
messages that `_serve_session` receives are those that the client has sent, in their order and none
left out.
-/

namespace Chiralite

open BigEndian Py Json Posix Effect Run Answering

namespace Duplex

/-- What a call of its codec comes to, for a side. -/
inductive Call where
  | accepted (plaintext : Bytes)
  | encrypted (plaintext : Bytes)

def Call.flow : Call → Flow
  | .accepted _ => .inward
  | .encrypted _ => .outward

/-- The plaintext that is accepted. -/
def Call.accepted? : Call → Option Bytes
  | .accepted plaintext => some plaintext
  | .encrypted _ => none

/-- What an act is for a side. -/
def call? (A : Aead) (side : Side) (s : Duplex) : DuplexAct → Option Call
  | .encrypt d plaintext => if d = side then some (.encrypted plaintext) else none
  | .deliver d frame =>
    if d = side then ((s.codec d).decrypt A frame).1.toOption.map .accepted else none

/-- The calls of a side in a schedule. -/
def calls (A : Aead) (side : Side) : Duplex → List DuplexAct → List Call
  | _, [] => []
  | s, a :: as => (s.call? A side a).toList ++ calls A side (s.step A a) as

/-- The plaintexts that a side encrypts. -/
def encryptedBy (side : Side) (as : List DuplexAct) : List Bytes :=
  as.filterMap fun
    | .encrypt d plaintext => if d = side then some plaintext else none
    | .deliver _ _ => none

/-- What is known of the frames, where the peer of a side has encrypted some plaintexts: the side's
own frames are numbered below its counter, and those of the peer by the plaintexts. -/
structure Numbered (A : Aead) (c : PayloadCodec) (side : Side) (s : Duplex)
    (theirs : List Bytes) : Prop where
  key : ∀ d, (s.codec d).key = c.key ∧ (s.codec d).sessionToken = c.sessionToken
  own : ∀ f ∈ s.frames side, ∃ i p, i < (s.codec side).sendSeq ∧ i < 2 ^ 64 ∧
    f = frameOf A c.key c.sessionToken i p
  peer : ∀ f ∈ s.frames side.other, ∃ i p, i < 2 ^ 64 ∧ theirs[i]? = some p ∧
    f = frameOf A c.key c.sessionToken i p
  sent : (s.codec side.other).sendSeq = theirs.length

section Schedules

variable {A : Aead} {c : PayloadCodec} {side : Side} {s : Duplex} {theirs : List Bytes}

theorem Side.other_ne (side : Side) : side.other ≠ side := by
  cases side with
  | client => exact Side.noConfusion
  | server => exact Side.noConfusion

theorem Side.eq_or_eq_other (side d : Side) : d = side ∨ d = side.other := by
  cases side <;> cases d <;> simp [Side.other]

/-- A frame after an `encrypt` call was there before, or is the one that the call has made. -/
theorem mem_frames_encrypt {d d' : Side} {p f : Bytes}
    (hf : f ∈ (s.step A (.encrypt d p)).frames d') :
    f ∈ s.frames d' ∨ (d' = d ∧ (s.codec d).sendSeq < 2 ^ 64 ∧
      f = frameOf A (s.codec d).key (s.codec d).sessionToken (s.codec d).sendSeq p) := by
  obtain ⟨hlt, hs⟩ | ⟨-, hs⟩ := step_encrypt_cases A s d p
  · rw [hs] at hf
    by_cases hd : d' = d
    · subst hd
      simp only [Function.update_self] at hf
      exact (List.mem_append.mp hf).imp id fun hf => ⟨rfl, hlt, List.mem_singleton.mp hf⟩
    · simp only [Function.update_of_ne hd] at hf
      exact Or.inl hf
  · rw [hs] at hf
    exact Or.inl hf

/-- The side itself encrypts. -/
theorem Numbered.encrypt_own (h : Numbered A c side s theirs) (p : Bytes) :
    Numbered A c side (s.step A (.encrypt side p)) theirs := by
  have hcodec := step_encrypt_codec A s side p
  refine ⟨fun d => ?_, fun f hf => ?_, fun f hf => ?_, ?_⟩
  · rw [(step_key A s _ d).1, (step_key A s _ d).2]
    exact h.key d
  · rw [hcodec, Function.update_self]
    obtain hf | ⟨-, hlt, rfl⟩ := mem_frames_encrypt hf
    · obtain ⟨i, q, hi, hi', rfl⟩ := h.own f hf
      exact ⟨i, q, Nat.lt_succ_of_lt hi, hi', rfl⟩
    · refine ⟨_, p, Nat.lt_succ_self _, hlt, ?_⟩
      rw [(h.key side).1, (h.key side).2]
  · obtain hf | ⟨hd, -⟩ := mem_frames_encrypt hf
    · exact h.peer f hf
    · exact absurd hd (Side.other_ne side)
  · rw [hcodec, Function.update_of_ne (Side.other_ne side)]
    exact h.sent

/-- The peer encrypts. -/
theorem Numbered.encrypt_peer (h : Numbered A c side s theirs) (p : Bytes) :
    Numbered A c side (s.step A (.encrypt side.other p)) (theirs ++ [p]) := by
  have hcodec := step_encrypt_codec A s side.other p
  refine ⟨fun d => ?_, fun f hf => ?_, fun f hf => ?_, ?_⟩
  · rw [(step_key A s _ d).1, (step_key A s _ d).2]
    exact h.key d
  · rw [hcodec, Function.update_of_ne (Side.other_ne side).symm]
    obtain hf | ⟨hd, -⟩ := mem_frames_encrypt hf
    · exact h.own f hf
    · exact absurd hd.symm (Side.other_ne side)
  · obtain hf | ⟨-, hlt, rfl⟩ := mem_frames_encrypt hf
    · obtain ⟨i, q, hi, hq, rfl⟩ := h.peer f hf
      obtain ⟨hlt, -⟩ := List.getElem?_eq_some_iff.mp hq
      refine ⟨i, q, hi, ?_, rfl⟩
      rw [List.getElem?_append_left hlt, hq]
    · -- the new frame has the number of the new plaintext
      rw [h.sent] at hlt ⊢
      refine ⟨theirs.length, p, hlt, List.getElem?_concat_length, ?_⟩
      rw [(h.key side.other).1, (h.key side.other).2]
  · rw [hcodec, Function.update_self, List.length_append, ← h.sent]
    rfl

/-- A delivery, to either side. -/
theorem Numbered.deliver (h : Numbered A c side s theirs) (d : Side) (f : Bytes) :
    Numbered A c side (s.step A (.deliver d f)) theirs := by
  have hcodec := fun d' => step_deliver_codec A s d d' f
  refine ⟨fun d' => ?_, fun g hg => ?_, h.peer, ?_⟩
  · rw [(hcodec d').1, (hcodec d').2.1]
    exact h.key d'
  · rw [(hcodec side).2.2]
    exact h.own g hg
  · rw [(hcodec side.other).2.2]
    exact h.sent

/-- **What a side accepts** that has sent no more than it has received: the next plaintext of the
peer. A frame of its own has a number below its own counter. -/
theorem Numbered.accepts (h : Numbered A c side s theirs)
    (hle : (s.codec side).sendSeq ≤ (s.codec side).recvSeq) {f q : Bytes}
    (hideal : s.Ideal A (.deliver side f)) (hok : ((s.codec side).decrypt A f).1 = .ok q) :
    theirs[(s.codec side).recvSeq]? = some q := by
  have hsealed : s.FramesSealed A := by
    intro d g hg
    rw [(h.key d).1, (h.key d).2]
    obtain rfl | rfl := Side.eq_or_eq_other side d
    · obtain ⟨i, p, -, hi, rfl⟩ := h.own g hg
      exact ⟨i, p, hi, rfl⟩
    · obtain ⟨i, p, hi, -, rfl⟩ := h.peer g hg
      exact ⟨i, p, hi, rfl⟩
  obtain ⟨hseq, d, hd⟩ := produced_of_accepts hsealed hideal ⟨q, hok⟩
  obtain rfl | rfl := Side.eq_or_eq_other side d
  · -- its own frame comes too late
    exfalso
    obtain ⟨i, p, hi, hi', rfl⟩ := h.own f hd
    rw [seqBytesOf_frameOf, ofBytes_toBytes (by omega)] at hseq
    omega
  · obtain ⟨i, p, hi, hp, rfl⟩ := h.peer f hd
    rw [seqBytesOf_frameOf, ofBytes_toBytes (by omega)] at hseq
    subst hseq
    have hopens := PayloadCodec.decrypt_frameOf A (s.codec side) p hi
    rw [(h.key side).1, (h.key side).2] at hopens
    rw [hopens] at hok
    cases hok
    exact hp

/-- **Run lemma.** What a side accepts that answers are the plaintexts of the peer, from the one it
expects on, in their order and without gaps. -/
theorem accepted_prefix (h : Numbered A c side s theirs) {as : List DuplexAct}
    (hideal : Guarded (step A) (Ideal A) s as)
    (hsettled : Answering.Settled (s.codec side).recvSeq (s.codec side).sendSeq
      ((calls A side s as).map Call.flow)) :
    (calls A side s as).filterMap Call.accepted? <+:
      (theirs ++ encryptedBy side.other as).drop (s.codec side).recvSeq := by
  induction as generalizing s theirs with
  | nil => exact List.nil_prefix
  | cons a as ih =>
    obtain ⟨ha, hrest⟩ := hideal
    cases a with
    | encrypt d p =>
      have hcodec := step_encrypt_codec A s d p
      obtain rfl | rfl := Side.eq_or_eq_other side d
      · -- the side itself: one more has gone out, and it has accepted nothing
        have hcall : s.call? A d (.encrypt d p) = some (.encrypted p) := if_pos rfl
        have hencrypted : encryptedBy d.other (.encrypt d p :: as) = encryptedBy d.other as :=
          List.filterMap_cons_none (if_neg (Side.other_ne d).symm)
        have hnext : (s.step A (.encrypt d p)).codec d = nextSend (s.codec d) := by
          rw [hcodec, Function.update_self]
        have htail := ih (h.encrypt_own p) hrest
        rw [hnext] at htail
        rw [calls, hcall] at hsettled ⊢
        rw [hencrypted]
        exact htail hsettled
      · -- its peer: what there is to accept has one more at its end
        have hcall : s.call? A side (.encrypt side.other p) = none := if_neg (Side.other_ne side)
        have hencrypted : encryptedBy side.other (.encrypt side.other p :: as) =
            p :: encryptedBy side.other as :=
          List.filterMap_cons_some (if_pos rfl)
        have hnext : (s.step A (.encrypt side.other p)).codec side = s.codec side := by
          rw [hcodec, Function.update_of_ne (Side.other_ne side).symm]
        have htail := ih (h.encrypt_peer p) hrest
        rw [hnext, List.append_assoc] at htail
        rw [calls, hcall] at hsettled ⊢
        rw [hencrypted]
        exact htail hsettled
    | deliver d f =>
      have hcodec : (s.step A (.deliver d f)).codec =
          Function.update s.codec d ((s.codec d).decrypt A f).2 := rfl
      have htail := ih (h.deliver d f) hrest
      obtain rfl | rfl := Side.eq_or_eq_other side d
      · rw [hcodec, Function.update_self] at htail
        obtain ⟨q, hok, -⟩ | ⟨err, herror⟩ := PayloadCodec.decrypt_cases A (s.codec d) f
        · -- accepted: since no more has gone out than has come in, it is the peer's next plaintext
          have hcall : s.call? A d (.deliver d f) = some (.accepted q) := by
            rw [call?, if_pos rfl, hok]
            rfl
          rw [hok] at htail
          rw [calls, hcall] at hsettled ⊢
          have hq : theirs[(s.codec d).recvSeq]? = some q :=
            h.accepts hsettled.1 ha (by rw [hok])
          obtain ⟨hlt, hget⟩ := List.getElem?_eq_some_iff.mp hq
          have hdrop : (theirs ++ encryptedBy d.other as).drop (s.codec d).recvSeq =
              q :: (theirs ++ encryptedBy d.other as).drop ((s.codec d).recvSeq + 1) := by
            rw [List.drop_eq_getElem_cons (by rw [List.length_append]; omega),
              List.getElem_append_left hlt, hget]
          show q :: _ <+: (theirs ++ encryptedBy d.other as).drop (s.codec d).recvSeq
          rw [hdrop]
          exact List.cons_prefix_cons.mpr ⟨rfl, htail hsettled.2⟩
        · -- refused: the number stays what it is
          have hcall : s.call? A d (.deliver d f) = none := by
            rw [call?, if_pos rfl, herror]
            rfl
          rw [herror] at htail
          rw [calls, hcall] at hsettled ⊢
          exact htail hsettled
      · -- what the peer decrypts says nothing of the side
        have hcall : s.call? A side (.deliver side.other f) = none := if_neg (Side.other_ne side)
        rw [hcodec, Function.update_of_ne (Side.other_ne side).symm] at htail
        rw [calls, hcall] at hsettled ⊢
        exact htail hsettled

/-- **No reflection reaches a side that answers.** Both sides build their codec from one key and one
token, and the scheme is ideal. Then whatever the network does, and however the calls of the two
sides interleave: a side that has encrypted no more than it has accepted whenever it accepts, has
accepted the first plaintexts of its peer, in their order. -/
theorem answering_accepts (A : Aead) {key token : Bytes} {c : PayloadCodec}
    (hc : PayloadCodec.init key token = .ok c) (side : Side) {as : List DuplexAct}
    (hideal : Guarded (step A) (Ideal A) (start c c) as)
    (hsettled : Answering.Settled 0 0 ((calls A side (start c c) as).map Call.flow)) :
    (calls A side (start c c) as).filterMap Call.accepted? <+: encryptedBy side.other as := by
  obtain rfl := PayloadCodec.init_ok hc
  have hcodec : ∀ d, (start ⟨key, token, 0, 0⟩ ⟨key, token, 0, 0⟩).codec d =
      ⟨key, token, 0, 0⟩ := by
    intro d
    cases d with
    | client => rfl
    | server => rfl
  have hstart : Numbered A ⟨key, token, 0, 0⟩ side
      (start ⟨key, token, 0, 0⟩ ⟨key, token, 0, 0⟩) [] := by
    refine ⟨fun d => ?_, nofun, nofun, ?_⟩
    · rw [hcodec]
      exact ⟨rfl, rfl⟩
    · rw [hcodec]
      rfl
  have hpre := accepted_prefix hstart hideal (by rwa [hcodec])
  rwa [hcodec, List.nil_append, List.drop_zero] at hpre

end Schedules

end Duplex

/-! ### The server answers -/

section Trace

variable {w w' : World} {evs : List Event}

/-- The direction of the message of an event. -/
def Event.flow? : Event → Option Flow
  | .received _ => some .inward
  | .sent _ => some .outward
  | _ => none

/-- The message that an event receives. -/
def Event.received? : Event → Option AnyMsg
  | .received m => some m
  | _ => none

theorem count_outward (evs : List Event) :
    (evs.filterMap Event.flow?).count .outward = (sends evs).length := by
  induction evs with
  | nil => rfl
  | cons o evs ih =>
    cases o with
    | received m => exact ih
    | sent m =>
      show (Flow.outward :: evs.filterMap Event.flow?).count .outward = (sends evs).length + 1
      rw [List.count_cons_self, ih]
    | scanned content result => exact ih
    | audited record => exact ih
    | touched op p => exact ih

/-- A message comes in and is answered at most once; or nothing happens. -/
def AnsweredOnce (evs : List Event) : Prop :=
  evs = [] ∨ ((∃ m rest, evs = .received m :: rest) ∧ (sends evs).length ≤ 1)

/-- Exchanges, one after the other, are those of a party that answers. -/
theorem backed_of_answeredOnce {exchanges : List (List Event)}
    (h : ∀ evs ∈ exchanges, AnsweredOnce evs) {ins outs : Nat} (hle : outs ≤ ins) :
    Backed ins outs (exchanges.flatten.filterMap Event.flow?) := by
  induction exchanges generalizing ins outs with
  | nil => trivial
  | cons evs exchanges ih =>
    have hrest : ∀ evs ∈ exchanges, AnsweredOnce evs := fun e he => h e (List.mem_cons_of_mem _ he)
    rw [List.flatten_cons, List.filterMap_append]
    obtain rfl | ⟨⟨m, rest, rfl⟩, hsends⟩ := h evs List.mem_cons_self
    · exact ih hrest hle
    · have houts := count_outward rest
      refine backed_append.mpr ⟨?_, ih hrest ?_⟩
      · show Backed (ins + 1) outs (rest.filterMap Event.flow?)
        refine backed_of_count ?_
        rw [houts]
        exact Nat.add_le_add hle hsends
      · show outs + (Flow.inward :: rest.filterMap Event.flow?).count .outward ≤
          ins + (Flow.inward :: rest.filterMap Event.flow?).count .inward
        rw [List.count_cons_of_ne (by decide), houts, List.count_cons_self]
        have hone : (sends rest).length ≤ 1 := hsends
        omega

theorem answeredOnce_serverHandleSyncRequest {S : Service} {v : Except Exc Unit}
    (h : Runs (serverHandleSyncRequest S) w evs v w') : AnsweredOnce evs := by
  have hsends := serverHandleSyncRequest_sends h
  obtain ⟨e, hrecv, -⟩ | ⟨m, w₁, evs₁, evs₂, hrecv, -, rfl⟩ := h.bind_inv
  · obtain ⟨-, ⟨text, -, rfl⟩ | ⟨m, hv, -⟩⟩ := recv_inv hrecv
    · exact Or.inl rfl
    · cases hv
  · obtain ⟨-, ⟨text, hv, -⟩ | ⟨m', -, -, rfl⟩⟩ := recv_inv hrecv
    · cases hv
    · refine Or.inr ⟨⟨m', evs₂, rfl⟩, ?_⟩
      obtain hnone | hstate := hsends
      · rw [hnone]
        exact Nat.zero_le 1
      · rw [hstate]
        exact Nat.le_refl 1

theorem Turn.answeredOnce {S : Service} {turn : Turn} (hran : turn.Ran S) (hsound : turn.Sound S) :
    AnsweredOnce turn.events := by
  obtain ⟨rest, hrest⟩ := hran.2
  refine Or.inr ⟨⟨turn.taken, rest, hrest⟩, ?_⟩
  unfold Turn.Sound at hsound
  split at hsound
  · obtain hnone | ⟨reason, hnack, -⟩ | ⟨text, rest, hack, -⟩ := hsound
    · rw [hnone]
      exact Nat.zero_le 1
    · rw [hnack]
      exact Nat.le_refl 1
    · rw [hack]
      exact Nat.le_refl 1
  · rw [hsound]
    exact Nat.zero_le 1

/-- **The server only answers**, whatever its client sends and whichever calls fail. -/
theorem serveSession_backed (E : Env) (session : SiloSession) (index : Option SiloIndex) (n : Nat)
    (w : World) :
    Backed 0 0 ((serveSession E session index n w).events.filterMap Event.flow?) := by
  obtain ⟨e, hsync, -⟩ | ⟨_, w₁, evs₁, evs₂, hsync, hturns, heq⟩ :=
    (runs_self (serveSession E session index n) w).bind_inv
  · have hexchange := answeredOnce_serverHandleSyncRequest hsync
    have hbacked := backed_of_answeredOnce (List.forall_mem_singleton.mpr hexchange) (Nat.le_refl 0)
    rwa [List.flatten_singleton] at hbacked
  · obtain ⟨turns, rfl, hfrom, hsound⟩ := serveTurns_inv hturns
    have hexchanges : ∀ evs ∈ evs₁ :: turns.map Turn.events, AnsweredOnce evs := by
      refine List.forall_mem_cons.mpr
        ⟨answeredOnce_serverHandleSyncRequest hsync, fun evs hevs => ?_⟩
      obtain ⟨turn, hturn, rfl⟩ := List.mem_map.mp hevs
      exact Turn.answeredOnce (hfrom.ran turn hturn) (hsound turn hturn)
    have hbacked := backed_of_answeredOnce hexchanges (Nat.le_refl 0)
    rw [heq]
    rwa [List.flatten_cons, ← List.flatMap_def] at hbacked

end Trace

/-! ### Sessions over the codec -/

/-- The calls that a session makes of its codec, by its trace. What is received has been accepted
and parsed, and what is sent has been encrypted. The trace does not show a plaintext that is no
message, and not the frames of a `send` that fails, with which the session ends. -/
inductive Carries (Y : Pydantic) : List Event → List Duplex.Call → Prop
  | unsent (ps : List Bytes) : Carries Y [] (ps.map .encrypted)
  | received {m : AnyMsg} {p : Bytes} {evs : List Event} {cs : List Duplex.Call}
      (hp : parseJson Y (.bytes p) = some m) (h : Carries Y evs cs) :
      Carries Y (.received m :: evs) (.accepted p :: cs)
  | sent {m : AnyMsg} {p : Bytes} {evs : List Event} {cs : List Duplex.Call}
      (hp : encode (modelDumpJson Y m) = some p) (h : Carries Y evs cs) :
      Carries Y (.sent m :: evs) (.encrypted p :: cs)
  | unread {p : Bytes} {evs : List Event} {cs : List Duplex.Call}
      (hp : parseJson Y (.bytes p) = none) (h : Carries Y evs cs) :
      Carries Y evs (.accepted p :: cs)
  | local {o : Event} {evs : List Event} {cs : List Duplex.Call} (ho : o.flow? = none)
      (h : Carries Y evs cs) : Carries Y (o :: evs) cs

section Sessions

variable {Y : Pydantic} {evs : List Event} {cs : List Duplex.Call}

theorem Carries.overhears (h : Carries Y evs cs) :
    Overhears (evs.filterMap Event.flow?) (cs.map Duplex.Call.flow) := by
  induction h with
  | unsent ps =>
    have hflows : (ps.map Duplex.Call.encrypted).map Duplex.Call.flow =
        List.replicate ps.length .outward := by
      rw [List.map_map]
      exact List.map_const
    rw [hflows]
    exact .unsent ps.length
  | received hp h ih => exact .both .inward ih
  | sent hp h ih => exact .both .outward ih
  | unread hp h ih => exact .unread ih
  | «local» ho h ih =>
    rw [List.filterMap_cons_none ho]
    exact ih

/-- What is received is what the accepted plaintexts say. -/
theorem Carries.received_eq (h : Carries Y evs cs) :
    evs.filterMap Event.received? =
      (cs.filterMap Duplex.Call.accepted?).filterMap fun p => parseJson Y (.bytes p) := by
  induction h with
  | unsent ps =>
    have hnone : (ps.map Duplex.Call.encrypted).filterMap Duplex.Call.accepted? = [] := by
      rw [List.filterMap_map]
      exact List.filterMap_eq_nil_iff.mpr fun _ _ => rfl
    rw [hnone]
    rfl
  | @received m p evs cs hp h ih =>
    have hparse := List.filterMap_cons_some (f := fun p => parseJson Y (.bytes p))
      (l := cs.filterMap Duplex.Call.accepted?) hp
    exact (congrArg (m :: ·) ih).trans hparse.symm
  | sent hp h ih => exact ih
  | @unread p evs cs hp h ih =>
    have hparse := List.filterMap_cons_none (f := fun p => parseJson Y (.bytes p))
      (l := cs.filterMap Duplex.Call.accepted?) hp
    exact ih.trans hparse.symm
  | @«local» o evs cs ho h ih =>
    cases o with
    | received m => cases ho
    | _ => exact ih

/-- **No reflection reaches a session of the server.** The two sides build their codecs from one
key and one token, and the scheme is ideal. Whatever the network hands to the server, its own
frames included, and whatever the client encrypts: the messages that the session receives are the
first of those that the client has encrypted, in their order and without gaps. -/
theorem session_not_reflected (A : Aead) (Y : Pydantic) {key token : Bytes} {c : PayloadCodec}
    (hc : PayloadCodec.init key token = .ok c) {as : List DuplexAct}
    (hideal : Guarded (Duplex.step A) (Duplex.Ideal A) (Duplex.start c c) as) (E : Env)
    (session : SiloSession) (index : Option SiloIndex) (n : Nat) (w : World)
    (hcarries : Carries Y (serveSession E session index n w).events
      (Duplex.calls A .server (Duplex.start c c) as)) :
    (serveSession E session index n w).events.filterMap Event.received? <+:
      (Duplex.encryptedBy .client as).filterMap fun p => parseJson Y (.bytes p) := by
  have hsettled := (serveSession_backed E session index n w).settled (Nat.le_refl 0)
    hcarries.overhears
  rw [hcarries.received_eq]
  exact (Duplex.answering_accepts A hc .server hideal hsettled).filterMap _

end Sessions

namespace Sample

/-- A request, its reply, and the reply handed back to the server. -/
def reflectedActs (A : Aead) (key token p q : Bytes) : List DuplexAct :=
  [.encrypt .client p, .deliver .server (frameOf A key token 0 p),
    .encrypt .server q, .deliver .server (frameOf A key token 0 q)]

section Acts

variable (A : Aead) (key token p q : Bytes)

theorem decrypt_first : PayloadCodec.decrypt A ⟨key, token, 0, 0⟩ (frameOf A key token 0 p) =
    (.ok p, ⟨key, token, 0, 1⟩) :=
  PayloadCodec.decrypt_frameOf A ⟨key, token, 0, 0⟩ p (Nat.two_pow_pos 64)

theorem reflectedActs_ideal : Guarded (Duplex.step A) (Duplex.Ideal A)
    (Duplex.start ⟨key, token, 0, 0⟩ ⟨key, token, 0, 0⟩) (reflectedActs A key token p q) := by
  simp [reflectedActs, Guarded, Duplex.Ideal, Duplex.step, Duplex.start, PayloadCodec.encrypt,
    decrypt_first, Aead.Unforged, Duplex.sealedUnder]

/-- The reply has the number zero, and the server expects the next one. -/
theorem reflectedActs_calls : Duplex.calls A .server
    (Duplex.start ⟨key, token, 0, 0⟩ ⟨key, token, 0, 0⟩) (reflectedActs A key token p q) =
      [.accepted p, .encrypted q] := by
  have hrejected : ∃ err, PayloadCodec.decrypt A ⟨key, token, 1, 1⟩ (frameOf A key token 0 q) =
      (.error err, ⟨key, token, 1, 1⟩) := by
    have hzero : ofBytes (toBytes 8 0) = 0 := by decide
    obtain ⟨plaintext, -, -, hseq, -⟩ | hrejected := PayloadCodec.decrypt_cases A
      ⟨key, token, 1, 1⟩ (frameOf A key token 0 q)
    · rw [seqBytesOf_frameOf, hzero] at hseq
      cases hseq
    · exact hrejected
  obtain ⟨err, herr⟩ := hrejected
  simp [reflectedActs, Duplex.calls, Duplex.call?, Duplex.step, Duplex.start,
    PayloadCodec.encrypt, decrypt_first, herr, Except.toOption]

end Acts

/-- A client asks for the state, and the next frame does not decrypt. -/
def askedWorld : World := ⟨tree, [.message .syncRequest trivial, .malformed (lit "replay")], 0⟩

/-- The server's reply comes back to it and is not received. -/
theorem reply_not_received : ∃ p q : Bytes, parseJson plainPydantic (.bytes p) = some .syncRequest ∧
    (serveSession env service.session none 1 askedWorld).events.filterMap Event.received? =
      [.syncRequest] ∧
    (serveSession env service.session none 1 askedWorld).events.filterMap Event.received? <+:
      (Duplex.encryptedBy .client (reflectedActs plainAead zeroKey [7] p q)).filterMap fun p =>
        parseJson plainPydantic (.bytes p) := by
  obtain ⟨p, -, hp⟩ := exists_encode_modelDumpJson plainPydantic (m := .syncRequest) trivial trivial
  have hvalid : (AnyMsg.syncState ⟨1, lit "server", []⟩).Valid := List.forall_mem_nil _
  have hscalar : (AnyMsg.syncState ⟨1, lit "server", []⟩).Scalar := by
    refine ⟨?_, List.nodup_nil, List.forall_mem_nil _⟩
    decide
  obtain ⟨q, hq, -⟩ := exists_encode_modelDumpJson plainPydantic hvalid hscalar
  have hevents : (serveSession env service.session none 1 askedWorld).events =
      [.received .syncRequest, .sent (.syncState ⟨1, lit "server", []⟩)] := rfl
  have hcarries : Carries plainPydantic
      (serveSession env service.session none 1 askedWorld).events
      (Duplex.calls plainAead .server (Duplex.start ⟨zeroKey, [7], 0, 0⟩ ⟨zeroKey, [7], 0, 0⟩)
        (reflectedActs plainAead zeroKey [7] p q)) := by
    rw [hevents, reflectedActs_calls]
    exact .received hp (.sent hq (.unsent []))
  refine ⟨p, q, hp, ?_, ?_⟩
  · rw [hevents]
    rfl
  · have hinit : PayloadCodec.init zeroKey [7] = .ok ⟨zeroKey, [7], 0, 0⟩ := by decide
    exact session_not_reflected plainAead plainPydantic hinit
      (reflectedActs_ideal plainAead zeroKey [7] p q) env service.session none 1 askedWorld hcarries

end Sample

end Chiralite
