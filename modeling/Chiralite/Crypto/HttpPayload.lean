import Chiralite.Crypto.Payload
import Chiralite.Framework.Dict
import Chiralite.Framework.Run
import Chiralite.Framework.Window
import Mathlib.Algebra.Order.Group.Defs
import Mathlib.Algebra.Order.Group.Int

/-!
# The codec of the HTTP transport and its nonces

`crypto/http_payload.py`. `HttpPayloadCodec` seals every message under a nonce of its own, which
travels in front of the ciphertext; it has no counters, so it cannot tell a replay. That is left
to `SeenNonces`, an ordered dictionary from nonces to the time they expire at. A call of
`check_and_record` first deletes what has expired, then refuses a nonce that is still there, then
makes room by deleting the oldest entry, and then records the nonce.

Times are taken from an ordered group: `time.monotonic()` is an argument of the call.

The store is related to the list of the calls that have been accepted. `NonceInv` says that the
entries of the store are the end of that list, in its order, and that every call in front of them
has been forgotten for a reason (`Gone`): it has expired, or as many calls with other nonces as the
store has places were accepted after it. `record_inv` is the step and `inv_run` the run;
`seenNonces_replay_window` is what they are for.
-/

namespace Chiralite

open Py (Dict)

/-! ### The codec -/

/-- `HttpPayloadCodec`. -/
structure HttpPayloadCodec where
  key : Bytes
  sessionToken : Bytes
  deriving DecidableEq

/-- `FrameError` of `HttpPayloadCodec`, by its message. -/
inductive HttpFrameError where
  /-- `frame too short: {n} < 28`. -/
  | tooShort (n : Nat)
  /-- `GCM authentication failed`. -/
  | authentication
  deriving DecidableEq

namespace HttpPayloadCodec

/-- `HttpPayloadCodec.__init__`. -/
def init (key token : Bytes) : Except CodecError HttpPayloadCodec :=
  if key.length ≠ 32 then .error (.keySize key.length) else .ok ⟨key, token⟩

/-- `HttpPayloadCodec.encrypt`, with the bytes of `os.urandom(12)`. -/
def encrypt (A : Aead) (c : HttpPayloadCodec) (nonce plaintext : Bytes) : Bytes :=
  nonce ++ A.encrypt c.key nonce plaintext (c.sessionToken ++ nonce)

/-- `HttpPayloadCodec.decrypt`. -/
def decrypt (A : Aead) (c : HttpPayloadCodec) (frame : Bytes) : Except HttpFrameError Bytes :=
  if frame.length < 28 then .error (.tooShort frame.length)
  else
    let nonce := frame.take 12
    match A.decrypt c.key nonce (frame.drop 12) (c.sessionToken ++ nonce) with
    | none => .error .authentication
    | some plaintext => .ok plaintext

/-- A frame is read back, in any order and any number of times. -/
theorem decrypt_encrypt (A : Aead) (c : HttpPayloadCodec) {nonce : Bytes}
    (hnonce : nonce.length = 12) (plaintext : Bytes) :
    c.decrypt A (c.encrypt A nonce plaintext) = .ok plaintext := by
  have hlen : ¬ (c.encrypt A nonce plaintext).length < 28 := by
    unfold encrypt
    rw [List.length_append, A.length_encrypt, hnonce]
    omega
  have htake : (c.encrypt A nonce plaintext).take 12 = nonce := List.take_left' hnonce
  have hdrop : (c.encrypt A nonce plaintext).drop 12 =
      A.encrypt c.key nonce plaintext (c.sessionToken ++ nonce) := List.drop_left' hnonce
  unfold decrypt
  rw [if_neg hlen]
  simp only [htake, hdrop, A.decrypt_encrypt]

end HttpPayloadCodec

/-! ### The seen nonces -/

/-- What `check_and_record` raises. -/
inductive NonceError where
  /-- `FrameError`: `replayed nonce`. -/
  | replayedNonce
  /-- `KeyError`: `dictionary is empty`, of `popitem` on an empty store. -/
  | emptyStore
  deriving DecidableEq

/-- `SeenNonces`. -/
structure SeenNonces (T : Type) where
  ttl : T
  maxSize : Int
  /-- The time each nonce expires at. -/
  store : Dict Bytes T
  deriving DecidableEq

namespace SeenNonces

section Model

variable {T : Type} [Add T] [LinearOrder T]

/-- `SeenNonces.__init__`. -/
def init (ttl : T) (maxSize : Int) : SeenNonces T := ⟨ttl, maxSize, Dict.empty⟩

/-- The nonces that have expired. -/
def expired (s : SeenNonces T) (now : T) : List Bytes :=
  (s.store.items.filter fun kv => kv.2 ≤ now).map Prod.fst

/-- The first loop of `check_and_record`. -/
def prune (s : SeenNonces T) (now : T) : SeenNonces T :=
  { s with store := (s.expired now).foldl Dict.erase s.store }

/-- `SeenNonces.check_and_record`. -/
def checkAndRecord (s : SeenNonces T) (nonce : Bytes) (now : T) :
    Except NonceError Unit × SeenNonces T :=
  let s := s.prune now
  if (s.store.get? nonce).isSome then (.error .replayedNonce, s)
  else if s.maxSize ≤ s.store.items.length then
    match s.store.items with
    | [] => (.error .emptyStore, s)
    | _ :: _ => (.ok (), { s with store := s.store.popFirst.set nonce (now + s.ttl) })
  else (.ok (), { s with store := s.store.set nonce (now + s.ttl) })

/-- The nonce is stored and has not expired. -/
def Holds (s : SeenNonces T) (nonce : Bytes) (now : T) : Prop :=
  ∃ exp, s.store.get? nonce = some exp ∧ now < exp

end Model

/-! ### What one call does -/

section Call

variable {T : Type} [LinearOrder T] {s : SeenNonces T} {nonce : Bytes} {now : T}

/-- The loop deletes exactly the expired entries. -/
theorem prune_items (s : SeenNonces T) (now : T) :
    (s.prune now).store.items = s.store.items.filter fun kv => now < kv.2 := by
  unfold prune expired
  rw [Dict.items_foldl_erase]
  refine List.filter_congr fun kv hkv => ?_
  -- the loop goes by the keys: a key is among the expired ones exactly if its own entry is
  rw [decide_eq_decide, List.mem_map, ← not_le, not_iff_not]
  constructor
  · rintro ⟨kv', hkv', hkey⟩
    obtain ⟨hmem, hle⟩ := List.mem_filter.mp hkv'
    -- no key occurs twice, so it is this entry that has expired
    have hval := (Dict.mem_items_iff s.store (k := kv.1) (v := kv'.2)).mp (by rwa [← hkey])
    rw [(Dict.mem_items_iff s.store (k := kv.1) (v := kv.2)).mp hkv] at hval
    rw [Option.some.inj hval]
    simpa using hle
  · intro hle
    exact ⟨kv, List.mem_filter.mpr ⟨hkv, by simpa using hle⟩, rfl⟩

theorem prune_get?_isSome : ((s.prune now).store.get? nonce).isSome ↔ s.Holds nonce now := by
  have hmem : ∀ exp, (s.prune now).store.get? nonce = some exp ↔
      s.store.get? nonce = some exp ∧ now < exp := by
    intro exp
    rw [← Dict.mem_items_iff, prune_items, List.mem_filter, Dict.mem_items_iff]
    simp
  rw [Option.isSome_iff_exists]
  exact exists_congr hmem

variable [Add T]

/-- What a call can do. An entry that is recorded goes to the end. -/
theorem checkAndRecord_cases (s : SeenNonces T) (nonce : Bytes) (now : T) :
    (s.Holds nonce now ∧ s.checkAndRecord nonce now = (.error .replayedNonce, s.prune now)) ∨
    (¬ s.Holds nonce now ∧ s.maxSize ≤ 0 ∧
      s.checkAndRecord nonce now = (.error .emptyStore, s.prune now)) ∨
    (¬ s.Holds nonce now ∧ ∃ store,
      s.checkAndRecord nonce now = (.ok (), { s with store := store }) ∧
      ((∃ kv rest, (s.prune now).store.items = kv :: rest ∧ s.maxSize ≤ (kv :: rest).length ∧
          store.items = rest ++ [(nonce, now + s.ttl)]) ∨
        ((s.prune now).store.items.length < s.maxSize ∧
          store.items = (s.prune now).store.items ++ [(nonce, now + s.ttl)]))) := by
  by_cases hheld : s.Holds nonce now
  · exact .inl ⟨hheld, if_pos (prune_get?_isSome.mpr hheld)⟩
  · have hsome : ¬ ((s.prune now).store.get? nonce).isSome := mt prune_get?_isSome.mp hheld
    have hnone : (s.prune now).store.get? nonce = none := by simpa using hsome
    by_cases hfull : s.maxSize ≤ (s.prune now).store.items.length
    · -- a full store gives up its first entry, when there is one
      cases hitems : (s.prune now).store.items with
      | nil =>
        refine .inr (.inl ⟨hheld, by simpa [hitems] using hfull, ?_⟩)
        refine (if_neg hsome).trans ((if_pos hfull).trans ?_)
        rw [hitems]
      | cons kv rest =>
        refine .inr (.inr ⟨hheld, (s.prune now).store.popFirst.set nonce (now + s.ttl), ?_,
          .inl ⟨kv, rest, rfl, hitems ▸ hfull, ?_⟩⟩)
        · refine (if_neg hsome).trans ((if_pos hfull).trans ?_)
          rw [hitems]
          rfl
        · rw [Dict.items_set_of_get?_eq_none (Dict.get?_popFirst_eq_none hnone)]
          show (s.prune now).store.items.tail ++ _ = _
          rw [hitems, List.tail_cons]
    · refine .inr (.inr ⟨hheld, (s.prune now).store.set nonce (now + s.ttl), ?_,
        .inr ⟨not_le.mp hfull, Dict.items_set_of_get?_eq_none hnone _⟩⟩)
      exact (if_neg hsome).trans (if_neg hfull)

end Call

end SeenNonces

/-! ### The calls that were accepted -/

/-- A call of `check_and_record`, with the time it reads. -/
structure NonceCall (T : Type) where
  nonce : Bytes
  now : T
  deriving DecidableEq

/-- The store with the calls that it has accepted, in order. -/
structure NonceLog (T : Type) where
  seen : SeenNonces T
  accepted : List (NonceCall T)

section History

variable {T : Type} [Add T] [LinearOrder T]

/-- A store nothing was recorded in. -/
def NonceLog.init (ttl : T) (maxSize : Int) : NonceLog T := ⟨SeenNonces.init ttl maxSize, []⟩

/-- One call. -/
def NonceLog.record (s : NonceLog T) (c : NonceCall T) : NonceLog T :=
  match s.seen.checkAndRecord c.nonce c.now with
  | (.ok _, seen) => ⟨seen, s.accepted ++ [c]⟩
  | (.error _, seen) => ⟨seen, s.accepted⟩

/-- The entry that an accepted call leaves. -/
def NonceCall.entry (ttl : T) (c : NonceCall T) : Bytes × T := (c.nonce, c.now + ttl)

/-- Why an accepted call `c` is no longer in the store, when `after` were accepted since: it had
expired when one of the calls came, or enough other nonces were accepted after it. -/
def Gone (ttl : T) (maxSize : Int) (calls : List (NonceCall T)) (c : NonceCall T)
    (after : List (NonceCall T)) : Prop :=
  (∃ d ∈ calls, c.now + ttl ≤ d.now) ∨ maxSize ≤ after.countP fun d => d.nonce ≠ c.nonce

/-- Every call of `dropped` is gone; `kept` were accepted after all of them. -/
def Forgotten (ttl : T) (maxSize : Int) (calls : List (NonceCall T)) :
    List (NonceCall T) → List (NonceCall T) → Prop
  | [], _ => True
  | c :: dropped, kept =>
    Gone ttl maxSize calls c (dropped ++ kept) ∧ Forgotten ttl maxSize calls dropped kept

/-- Two accepted calls with one nonce are a lifetime apart, or as many calls with other nonces as
the store has places lie between them. -/
def Apart (ttl : T) (maxSize : Int) (accepted : List (NonceCall T)) : Prop :=
  ∀ (before between after : List (NonceCall T)) (a b : NonceCall T),
    accepted = before ++ a :: (between ++ b :: after) → a.nonce = b.nonce →
    a.now + ttl ≤ b.now ∨ maxSize ≤ between.countP fun d => d.nonce ≠ a.nonce

/-- **The invariant.** The entries of the store are the end of what was accepted. -/
structure NonceInv (ttl : T) (maxSize : Int) (calls : List (NonceCall T)) (s : NonceLog T) :
    Prop where
  ttl_eq : s.seen.ttl = ttl
  maxSize_eq : s.seen.maxSize = maxSize
  sublist : s.accepted.Sublist calls
  size_le : s.seen.store.items.length ≤ maxSize
  unexpired : ∀ c, calls.getLast? = some c → ∀ kv ∈ s.seen.store.items, c.now < kv.2
  kept : ∃ dropped kept, s.accepted = dropped ++ kept ∧
    s.seen.store.items = kept.map (NonceCall.entry ttl) ∧ Forgotten ttl maxSize calls dropped kept
  apart : Apart ttl maxSize s.accepted

/-! ### What is forgotten stays forgotten -/

variable {ttl : T} {maxSize : Int} {calls : List (NonceCall T)} {c : NonceCall T}
  {dropped kept accepted : List (NonceCall T)}

theorem Gone.mono {after : List (NonceCall T)} (h : Gone ttl maxSize calls c after)
    (calls' more : List (NonceCall T)) : Gone ttl maxSize (calls ++ calls') c (after ++ more) := by
  obtain ⟨d, hd, hexp⟩ | hcount := h
  · exact .inl ⟨d, List.mem_append_left _ hd, hexp⟩
  · refine .inr (hcount.trans (Int.ofNat_le.mpr ?_))
    rw [List.countP_append]
    exact Nat.le_add_right _ _

theorem Forgotten.mono (h : Forgotten ttl maxSize calls dropped kept)
    (calls' more : List (NonceCall T)) :
    Forgotten ttl maxSize (calls ++ calls') dropped (kept ++ more) := by
  induction dropped with
  | nil => trivial
  | cons c dropped ih =>
    refine ⟨?_, ih h.2⟩
    rw [← List.append_assoc]
    exact h.1.mono calls' more

theorem forgotten_append {dropped' : List (NonceCall T)} :
    Forgotten ttl maxSize calls (dropped ++ dropped') kept ↔
      Forgotten ttl maxSize calls dropped (dropped' ++ kept) ∧
      Forgotten ttl maxSize calls dropped' kept := by
  induction dropped with
  | nil => exact (and_iff_right trivial).symm
  | cons c dropped ih =>
    rw [List.cons_append, Forgotten, Forgotten, ih, List.append_assoc, and_assoc]

theorem forgotten_of_expired (hc : c ∈ calls) (h : ∀ d ∈ dropped, d.now + ttl ≤ c.now) :
    Forgotten ttl maxSize calls dropped kept := by
  induction dropped with
  | nil => trivial
  | cons d dropped ih =>
    refine ⟨.inl ⟨c, hc, h d List.mem_cons_self⟩, ih fun e he => ?_⟩
    exact h e (List.mem_cons_of_mem _ he)

/-- The oldest entry of a full store goes when another nonce is recorded. -/
theorem gone_of_full {k : NonceCall T} (hfull : maxSize ≤ (k :: kept).length)
    (hother : ∀ d ∈ kept ++ [c], d.nonce ≠ k.nonce) :
    Gone ttl maxSize calls k (kept ++ [c]) := by
  refine .inr ?_
  rw [List.countP_eq_length.mpr (by simpa using hother), List.length_append, List.length_singleton]
  exact hfull

/-- A call whose nonce is not in the store is apart from those with the same nonce. -/
theorem Apart.concat (h : Apart ttl maxSize accepted) (haccepted : accepted = dropped ++ kept)
    (hforgotten : Forgotten ttl maxSize calls dropped kept) (hle : ∀ d ∈ calls, d.now ≤ c.now)
    (hkept : ∀ d ∈ kept, d.nonce ≠ c.nonce) : Apart ttl maxSize (accepted ++ [c]) := by
  intro before between after a b hsplit hnonce
  obtain rfl | ⟨after, e, rfl⟩ := List.eq_nil_or_concat after
  · -- the second of the two is the new call, and the first is in front of what is kept
    have hlast : accepted ++ [c] = (before ++ a :: between) ++ [b] := by simpa using hsplit
    obtain ⟨hfront, hb⟩ := List.append_inj' hlast rfl
    cases hb
    rw [haccepted] at hfront
    have hnot : a ∉ kept := fun ha => hkept a ha hnonce
    obtain ⟨rest, hkept', hrest⟩ | ⟨rest, hdropped, hrest⟩ := List.append_eq_append_iff.mp hfront
    · exact absurd (hrest ▸ List.mem_append_right rest List.mem_cons_self) hnot
    · cases rest with
      | nil => exact absurd (show a ∈ [] ++ kept from hrest ▸ List.mem_cons_self) hnot
      | cons a' rest =>
        cases hrest
        rw [hdropped] at hforgotten
        obtain ⟨d, hd, hexp⟩ | hcount := (forgotten_append.mp hforgotten).2.1
        · exact .inl (hexp.trans (hle d hd))
        · exact .inr hcount
  · -- both were accepted before
    have hlast : accepted ++ [c] = (before ++ a :: (between ++ b :: after)) ++ [e] := by
      simpa using hsplit
    obtain ⟨hfront, -⟩ := List.append_inj' hlast rfl
    exact h before between after a b hfront hnonce

/-! ### The entries that are left -/

variable {seen : SeenNonces T} {nonce : Bytes} {now : T}

theorem fresh_of_items
    (hitems : (seen.prune now).store.items = kept.map (NonceCall.entry ttl)) :
    ∀ d ∈ kept, now < d.now + ttl := by
  intro d hd
  have hmem : d.entry ttl ∈ (seen.prune now).store.items := hitems ▸ List.mem_map_of_mem hd
  rw [SeenNonces.prune_items] at hmem
  exact of_decide_eq_true (List.mem_filter.mp hmem).2

theorem other_of_items
    (hitems : (seen.prune now).store.items = kept.map (NonceCall.entry ttl))
    (hheld : ¬ seen.Holds nonce now) : ∀ d ∈ kept, d.nonce ≠ nonce := by
  rintro d hd rfl
  refine hheld (SeenNonces.prune_get?_isSome.mp ?_)
  have hmem : (d.nonce, d.now + ttl) ∈ (seen.prune now).store.items :=
    hitems ▸ List.mem_map_of_mem hd
  rw [(Dict.mem_items_iff _).mp hmem]
  rfl

theorem distinct_of_items {k : NonceCall T}
    (hitems : (seen.prune now).store.items = (k :: kept).map (NonceCall.entry ttl)) :
    ∀ d ∈ kept, d.nonce ≠ k.nonce := by
  intro d hd hnonce
  have hnodup := (seen.prune now).store.nodup
  rw [hitems, List.map_map, List.map_cons] at hnodup
  exact (List.nodup_cons.mp hnodup).1 (List.mem_map.mpr ⟨d, hd, hnonce⟩)

end History

/-! ### A whole run of calls -/

section Run

variable {T : Type} [AddCommGroup T] [LinearOrder T] [IsOrderedAddMonoid T] {ttl : T}
  {maxSize : Int} {calls : List (NonceCall T)} {s : NonceLog T} {c : NonceCall T}

/-- What the first loop of a call leaves. -/
theorem NonceInv.prune (h : NonceInv ttl maxSize calls s)
    (hsorted : (calls ++ [c]).Pairwise fun a b => a.now ≤ b.now) :
    ∃ dropped kept, s.accepted = dropped ++ kept ∧
      (s.seen.prune c.now).store.items = kept.map (NonceCall.entry ttl) ∧
      Forgotten ttl maxSize (calls ++ [c]) dropped kept := by
  obtain ⟨dropped, kept, haccepted, hitems, hforgotten⟩ := h.kept
  have hkept : kept.Pairwise fun a b => a.now + ttl ≤ b.now + ttl := by
    have hsub : kept.Sublist calls := by
      refine List.Sublist.trans ?_ h.sublist
      rw [haccepted]
      exact List.sublist_append_right _ _
    refine ((List.pairwise_append.mp hsorted).1.sublist hsub).imp fun hab => ?_
    gcongr
  -- the entries are in the order of their times, so the expired ones are the first
  obtain ⟨old, recent, rfl, hold, hrecent⟩ := Window.exists_split_of_sorted c.now hkept
  refine ⟨dropped ++ old, recent, by rw [haccepted, List.append_assoc], ?_, ?_⟩
  · rw [SeenNonces.prune_items, hitems, List.filter_map]
    exact congrArg _ hrecent
  · refine forgotten_append.mpr ⟨?_, forgotten_of_expired (by simp) hold⟩
    simpa using hforgotten.mono [c] []

/-- A call that is refused: the expired entries go. -/
theorem NonceInv.refuse (h : NonceInv ttl maxSize calls s)
    (hsorted : (calls ++ [c]).Pairwise fun a b => a.now ≤ b.now) :
    NonceInv ttl maxSize (calls ++ [c]) ⟨s.seen.prune c.now, s.accepted⟩ where
  ttl_eq := h.ttl_eq
  maxSize_eq := h.maxSize_eq
  sublist := h.sublist.trans (List.sublist_append_left _ _)
  size_le :=
    calc ((s.seen.prune c.now).store.items.length : Int)
        ≤ s.seen.store.items.length := by
          rw [SeenNonces.prune_items]
          exact Int.ofNat_le.mpr (List.length_filter_le _ _)
      _ ≤ maxSize := h.size_le
  unexpired := by
    intro d hd kv hkv
    rw [SeenNonces.prune_items] at hkv
    obtain rfl : c = d := by simpa using hd
    simpa using (List.mem_filter.mp hkv).2
  kept := h.prune hsorted
  apart := h.apart

/-- A call that is accepted, with what is left of the entries when it is recorded. -/
theorem NonceInv.accept (httl : 0 < ttl) (h : NonceInv ttl maxSize calls s) {store : Dict Bytes T}
    {dropped kept : List (NonceCall T)} (haccepted : s.accepted = dropped ++ kept)
    (hitems : store.items = (kept ++ [c]).map (NonceCall.entry ttl))
    (hforgotten : Forgotten ttl maxSize (calls ++ [c]) dropped (kept ++ [c]))
    (hfresh : ∀ d ∈ kept, c.now < d.now + ttl) (hlen : kept.length < maxSize)
    (hapart : Apart ttl maxSize (s.accepted ++ [c])) :
    NonceInv ttl maxSize (calls ++ [c]) ⟨{ s.seen with store := store }, s.accepted ++ [c]⟩ where
  ttl_eq := h.ttl_eq
  maxSize_eq := h.maxSize_eq
  sublist := h.sublist.append (List.Sublist.refl _)
  size_le := by
    show (store.items.length : Int) ≤ maxSize
    rw [hitems, List.length_map, List.length_append, List.length_singleton]
    omega
  unexpired := by
    intro d hd kv hkv
    obtain rfl : c = d := by simpa using hd
    obtain ⟨e, he, rfl⟩ := List.mem_map.mp (show kv ∈ List.map _ _ from hitems ▸ hkv)
    obtain he | he := List.mem_append.mp he
    · exact hfresh e he
    · -- the entry of this call, which lives for the whole time to live
      rw [List.mem_singleton.mp he]
      exact lt_add_of_pos_right c.now httl
  kept := ⟨dropped, kept ++ [c], by rw [haccepted, List.append_assoc], hitems, hforgotten⟩
  apart := hapart

/-- **One call** keeps the invariant. -/
theorem record_inv (httl : 0 < ttl) (hsize : 1 ≤ maxSize) (h : NonceInv ttl maxSize calls s)
    (hsorted : (calls ++ [c]).Pairwise fun a b => a.now ≤ b.now) :
    NonceInv ttl maxSize (calls ++ [c]) (s.record c) := by
  unfold NonceLog.record
  obtain ⟨-, hcheck⟩ | ⟨-, hzero, -⟩ | ⟨hheld, store, hcheck, hstore⟩ :=
    s.seen.checkAndRecord_cases c.nonce c.now
  · rw [hcheck]
    exact h.refuse hsorted
  · -- `popitem` finds an entry, as the store has room for at least one
    exact absurd (h.maxSize_eq ▸ hzero) (by omega)
  · -- the nonce is not among the entries that are left, so its last acceptance is forgotten
    rw [hcheck]
    obtain ⟨dropped, kept, haccepted, hitems, hforgotten⟩ := h.prune hsorted
    have hle : ∀ d ∈ calls ++ [c], d.now ≤ c.now := by
      intro d hd
      obtain hd | hd := List.mem_append.mp hd
      · exact (List.pairwise_append.mp hsorted).2.2 d hd c List.mem_cons_self
      · rw [List.mem_singleton.mp hd]
    have hapart := h.apart.concat haccepted hforgotten hle (other_of_items hitems hheld)
    rw [h.maxSize_eq, h.ttl_eq] at hstore
    obtain ⟨kv, rest, hfirst, hfull, hnew⟩ | ⟨hroom, hnew⟩ := hstore
    · -- the store is full and its oldest entry goes: all the others have other nonces
      cases kept with
      | nil => exact absurd (hitems.symm.trans hfirst) (by simp)
      | cons k kept =>
        rw [hitems, List.map_cons] at hfirst
        obtain ⟨rfl, rfl⟩ := List.cons.inj hfirst
        have hdistinct : ∀ d ∈ kept ++ [c], d.nonce ≠ k.nonce := by
          intro d hd
          obtain hd | hd := List.mem_append.mp hd
          · exact distinct_of_items hitems d hd
          · rw [List.mem_singleton.mp hd]
            exact (other_of_items hitems hheld k List.mem_cons_self).symm
        have hfront : s.accepted = (dropped ++ [k]) ++ kept := by simpa using haccepted
        have hlen := (h.refuse hsorted).size_le
        refine h.accept httl hfront ?_ ?_
          (fun d hd => fresh_of_items hitems d (List.mem_cons_of_mem _ hd)) ?_ hapart
        · rw [hnew, List.map_append]
          rfl
        · refine forgotten_append.mpr ⟨?_, gone_of_full (by simpa using hfull) hdistinct, trivial⟩
          simpa using hforgotten.mono [] [c]
        · simp only [hitems, List.length_cons, List.length_map] at hlen
          omega
    · -- there is room, and nothing more is forgotten
      refine h.accept httl haccepted ?_ ?_ (fresh_of_items hitems) ?_ hapart
      · rw [hnew, hitems, List.map_append]
        rfl
      · simpa using hforgotten.mono [] [c]
      · simpa [hitems] using hroom

/-- A run keeps the invariant. -/
theorem inv_run (httl : 0 < ttl) (hsize : 1 ≤ maxSize)
    (hsorted : calls.Pairwise fun a b => a.now ≤ b.now) :
    NonceInv ttl maxSize calls (Run.run NonceLog.record (NonceLog.init ttl maxSize) calls) := by
  -- by the last call: the calls before it are in order as well
  induction calls using List.reverseRecOn with
  | nil =>
    exact ⟨rfl, rfl, List.Sublist.refl _, zero_le_one.trans hsize, nofun,
      ⟨[], [], rfl, rfl, trivial⟩, fun _ _ _ _ _ h => absurd h (by simp [NonceLog.init])⟩
  | append_singleton calls c ih =>
    rw [Run.run_append]
    exact record_inv httl hsize (ih (List.pairwise_append.mp hsorted).1) hsorted

/-- **Replay window.** After any calls at non-decreasing times: the store is within its bound and
holds nothing that had expired at the last call; the next call raises exactly if its nonce is
stored and has not expired, and then as a replay; and a nonce that was accepted twice was accepted
a lifetime apart, or with as many acceptances of other nonces in between as the store has
places. -/
theorem seenNonces_replay_window (ttl : T) (httl : 0 < ttl) (maxSize : Int) (hsize : 1 ≤ maxSize)
    (calls : List (NonceCall T)) (hsorted : calls.Pairwise fun a b => a.now ≤ b.now) :
    let s := Run.run NonceLog.record (NonceLog.init ttl maxSize) calls
    s.seen.store.items.length ≤ maxSize ∧
    (∀ c, calls.getLast? = some c → ∀ kv ∈ s.seen.store.items, c.now < kv.2) ∧
    (∀ nonce now, ((∃ e, (s.seen.checkAndRecord nonce now).1 = .error e) ↔
        ∃ exp, s.seen.store.get? nonce = some exp ∧ now < exp) ∧
      ∀ e, (s.seen.checkAndRecord nonce now).1 = .error e → e = .replayedNonce) ∧
    ∀ (before between after : List (NonceCall T)) (a b : NonceCall T),
      s.accepted = before ++ a :: (between ++ b :: after) → a.nonce = b.nonce →
      a.now + ttl ≤ b.now ∨ maxSize ≤ between.countP fun d => d.nonce ≠ a.nonce := by
  intro s
  have hinv : NonceInv ttl maxSize calls s := inv_run httl hsize hsorted
  refine ⟨hinv.size_le, hinv.unexpired, fun nonce now => ?_, hinv.apart⟩
  obtain ⟨hheld, hcheck⟩ | ⟨-, hzero, -⟩ | ⟨hheld, store, hcheck, -⟩ :=
    s.seen.checkAndRecord_cases nonce now
  · rw [hcheck]
    exact ⟨⟨fun _ => hheld, fun _ => ⟨_, rfl⟩⟩, fun e he => (Except.error.inj he).symm⟩
  · exact absurd (hinv.maxSize_eq ▸ hzero) (by omega)
  · rw [hcheck]
    exact ⟨⟨fun ⟨_, he⟩ => absurd he (by simp), fun h => absurd h hheld⟩,
      fun _ he => absurd he (by simp)⟩

/-- A nonce that was pushed out of a store of two places. -/
theorem pushed_out_after_two :
    let calls : List (NonceCall ℤ) := [⟨[1], 0⟩, ⟨[2], 1⟩, ⟨[3], 2⟩, ⟨[1], 3⟩]
    (Run.run NonceLog.record (NonceLog.init 10 2) calls).accepted = calls ∧
      (2 : ℤ) ≤ [(⟨[2], 1⟩ : NonceCall ℤ), ⟨[3], 2⟩].countP fun d => d.nonce ≠ [1] := by
  intro calls
  have haccepted : (Run.run NonceLog.record (NonceLog.init 10 2) calls).accepted = calls := by
    decide
  refine ⟨haccepted, ?_⟩
  have hwindow := seenNonces_replay_window (10 : ℤ) (by decide) 2 (by decide) calls (by decide)
  have hpair := hwindow.2.2.2 [] [⟨[2], 1⟩, ⟨[3], 2⟩] [] ⟨[1], 0⟩ ⟨[1], 3⟩ haccepted rfl
  exact hpair.resolve_left (by decide)

end Run

end Chiralite
