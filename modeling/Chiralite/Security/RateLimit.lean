import Chiralite.Framework.Dict
import Chiralite.Framework.Run
import Chiralite.Framework.Text
import Chiralite.Framework.Window
import Mathlib.Algebra.Order.Group.Defs
import Mathlib.Algebra.Order.Group.Int

/-!
# The rate limiter

`security/ratelimit.py`: a sliding-window limiter with one deque of hit times a key. Every look at
a key first drops from the front of its deque what has left the window, and forgets the key when
nothing is left. A `check` records a hit only if it is allowed.

Times are taken from an ordered group: `time.monotonic()` is an argument of the call. A run is
described by its `trace`, the calls with their answers, and what the limiter is for is said of the
trace alone: `acceptedSince` are the times of the calls that were allowed for a key since the key
was last reset. `DequeTracks` ties a deque to them (it is their end, and what is in front has left
the window), and `rateInv_run` carries that through every run.

That other calls do not matter for a key is a simulation. Two limiters are `Alike` for a key when
their deques agree from a time on; then they answer all calls about the key alike and stay alike
(`Alike.step`), and a call that does not matter leaves a limiter alike to what it was
(`alike_of_idle`).
-/

namespace Chiralite

open Py (Dict Str)

/-! ### The limiter -/

/-- `ValueError` of `RateLimiter.__init__`. -/
inductive RateLimiterError (T : Type) where
  /-- `limit must be ≥ 1, got {limit}`. -/
  | limit (limit : Int)
  /-- `window_s must be > 0, got {window_s}`. -/
  | window (windowS : T)
  deriving DecidableEq

/-- `RateLimitExceeded`: `rate limit exceeded for {key!r} ({limit} calls / {window_s}s)`. -/
structure RateLimitExceeded (T : Type) where
  key : Str
  limit : Int
  windowS : T
  deriving DecidableEq

section Model

variable {T : Type} [AddCommGroup T] [LinearOrder T]

/-- `RateLimiter`, with what its constructor has checked. -/
structure RateLimiter (T : Type) [AddCommGroup T] [LinearOrder T] where
  limit : Int
  windowS : T
  /-- The hit times of each key. -/
  hits : Dict Str (List T)
  limit_pos : 1 ≤ limit
  window_pos : 0 < windowS

namespace RateLimiter

/-- A limiter without hits. -/
def fresh (limit : Int) (windowS : T) (hlimit : 1 ≤ limit) (hwindow : 0 < windowS) :
    RateLimiter T :=
  ⟨limit, windowS, Dict.empty, hlimit, hwindow⟩

/-- `RateLimiter.__init__`. -/
def init (limit : Int) (windowS : T) : Except (RateLimiterError T) (RateLimiter T) :=
  if hlimit : limit < 1 then .error (.limit limit)
  else if hwindow : windowS ≤ 0 then .error (.window windowS)
  else .ok (fresh limit windowS (not_lt.mp hlimit) (not_le.mp hwindow))

/-- What the constructor accepts. -/
theorem init_eq_ok_iff {limit : Int} {windowS : T} {r : RateLimiter T} :
    init limit windowS = .ok r ↔
      ∃ hlimit hwindow, r = fresh limit windowS hlimit hwindow := by
  unfold init
  split
  · next hlimit => exact ⟨nofun, fun ⟨h, _, _⟩ => absurd h (not_le.mpr hlimit)⟩
  · split
    · next hwindow => exact ⟨nofun, fun ⟨_, h, _⟩ => absurd h (not_lt.mpr hwindow)⟩
    · next hlimit hwindow =>
      constructor
      · intro h
        exact ⟨not_lt.mp hlimit, not_le.mp hwindow, (Except.ok.inj h).symm⟩
      · rintro ⟨_, _, rfl⟩
        rfl

/-- `RateLimiter._evict`. -/
def evict (r : RateLimiter T) (key : Str) (now : T) : RateLimiter T :=
  match r.hits.get? key with
  | none => r
  | some hits =>
    match hits.dropWhile (· ≤ now - r.windowS) with
    | [] => { r with hits := r.hits.erase key }
    | hit :: hits => { r with hits := r.hits.set key (hit :: hits) }

/-- The deque of a key, empty for an unknown one. -/
def hitsOf (r : RateLimiter T) (key : Str) : List T := (r.hits.get? key).getD []

/-- `RateLimiter.check`. A new key gets its empty deque before the limit is looked at. -/
def check (r : RateLimiter T) (key : Str) (now : T) : Bool × RateLimiter T :=
  let r := r.evict key now
  let hits := r.hitsOf key
  let r := { r with hits := r.hits.set key hits }
  if r.limit ≤ (hits.length : Int) then (false, r)
  else (true, { r with hits := r.hits.set key (hits ++ [now]) })

/-- `RateLimiter.require`. -/
def require (r : RateLimiter T) (key : Str) (now : T) :
    Except (RateLimitExceeded T) Unit × RateLimiter T :=
  match r.check key now with
  | (true, r) => (.ok (), r)
  | (false, r) => (.error ⟨key, r.limit, r.windowS⟩, r)

/-- `RateLimiter.reset`. -/
def reset (r : RateLimiter T) (key : Str) : RateLimiter T :=
  { r with hits := r.hits.erase key }

/-- `RateLimiter.remaining`. -/
def remaining (r : RateLimiter T) (key : Str) (now : T) : Int × RateLimiter T :=
  let r := r.evict key now
  let used := (r.hitsOf key).length
  (max 0 (r.limit - used), r)

end RateLimiter

/-! ### Runs -/

/-- What is asked of a limiter. -/
inductive RateOp where
  | check
  | require
  | remaining
  | reset
  deriving DecidableEq

/-- A call, with the time it reads. -/
structure RateCall (T : Type) where
  op : RateOp
  key : Str
  now : T
  deriving DecidableEq

/-- What a call returns or raises. -/
inductive RateAnswer (T : Type) where
  | bool (allowed : Bool)
  | int (left : Int)
  | none
  | raised (e : RateLimitExceeded T)
  deriving DecidableEq

/-- One call. -/
def RateLimiter.step (r : RateLimiter T) (c : RateCall T) : RateAnswer T × RateLimiter T :=
  match c.op with
  | .check => (.bool (r.check c.key c.now).1, (r.check c.key c.now).2)
  | .require =>
    match r.require c.key c.now with
    | (.ok _, r) => (.none, r)
    | (.error e, r) => (.raised e, r)
  | .remaining => (.int (r.remaining c.key c.now).1, (r.remaining c.key c.now).2)
  | .reset => (.none, r.reset c.key)

/-- The limiter after some calls. -/
def RateLimiter.after (r : RateLimiter T) (calls : List (RateCall T)) : RateLimiter T :=
  Run.run (fun r c => (r.step c).2) r calls

/-- A call with its answer. -/
structure RateEntry (T : Type) where
  call : RateCall T
  answer : RateAnswer T
  deriving DecidableEq

/-- The calls of a run with their answers. -/
def RateLimiter.trace (r : RateLimiter T) : List (RateCall T) → List (RateEntry T)
  | [] => []
  | c :: calls => ⟨c, (r.step c).1⟩ :: (r.step c).2.trace calls

namespace RateEntry

/-- A `check` that returned `True`, or a `require` that returned, for the key. -/
def accepts (key : Str) (e : RateEntry T) : Bool :=
  e.call.key = key &&
    match e.call.op, e.answer with
    | .check, .bool true => true
    | .require, .none => true
    | _, _ => false

/-- A `reset` of the key. -/
def resets (key : Str) (e : RateEntry T) : Bool := e.call.key = key && e.call.op = .reset

end RateEntry

/-- The times of the calls that were allowed for a key. -/
def accepted (key : Str) (l : List (RateEntry T)) : List T :=
  (l.filter (RateEntry.accepts key)).map fun e => e.call.now

/-- The times of the calls that were allowed for a key since it was last reset. -/
def acceptedSince (key : Str) (l : List (RateEntry T)) : List T :=
  accepted key (l.rtakeWhile fun e => ! e.resets key)

/-- The answers about a key. -/
def answersFor (key : Str) (l : List (RateEntry T)) : List (RateEntry T) :=
  l.filter fun e => e.call.key = key

/-- The call does not matter for the key: it is about another key, it is `remaining`, or it is
rejected. -/
def Idle (r : RateLimiter T) (key : Str) (c : RateCall T) : Prop :=
  c.key ≠ key ∨ c.op = .remaining ∨
    (r.step c).1 = .bool false ∨ ∃ e, (r.step c).1 = .raised e

end Model

/-! ### What one call does -/

namespace RateLimiter

section Calls

variable {T : Type} [AddCommGroup T] [LinearOrder T] (r : RateLimiter T) (key : Str) (now : T)

/-- The deque of a key as `_evict` leaves it. -/
def recent : List T := (r.hitsOf key).dropWhile (· ≤ now - r.windowS)

@[simp] theorem limit_evict : (r.evict key now).limit = r.limit := by
  unfold evict
  split
  · rfl
  · split <;> rfl

@[simp] theorem windowS_evict : (r.evict key now).windowS = r.windowS := by
  unfold evict
  split
  · rfl
  · split <;> rfl

theorem hitsOf_evict_self : (r.evict key now).hitsOf key = r.recent key now := by
  unfold evict recent hitsOf
  split
  · next hkey => rw [hkey]; rfl
  · next hits hkey =>
    rw [hkey, Option.getD_some]
    split
    · next hdrop =>
      rw [hdrop, Dict.get?_erase_self]
      rfl
    · next hdrop =>
      rw [hdrop, Dict.get?_set_self]
      rfl

variable {key} in
theorem hitsOf_evict_of_ne {k : Str} (hk : k ≠ key) :
    (r.evict key now).hitsOf k = r.hitsOf k := by
  unfold evict hitsOf
  split
  · rfl
  · split
    · rw [Dict.get?_erase_of_ne _ hk]
    · rw [Dict.get?_set_of_ne _ _ hk]

theorem check_eq : r.check key now =
    if ((r.recent key now).length : Int) < r.limit then
      (true, { r.evict key now with
        hits := ((r.evict key now).hits.set key (r.recent key now)).set key
          (r.recent key now ++ [now]) })
    else
      (false, { r.evict key now with
        hits := (r.evict key now).hits.set key (r.recent key now) }) := by
  unfold check
  simp only [hitsOf_evict_self, limit_evict, ← not_lt, ite_not]

theorem check_fst : (r.check key now).1 = decide (((r.recent key now).length : Int) < r.limit) := by
  rw [check_eq]
  split
  · next hlt => rw [decide_eq_true hlt]
  · next hlt => rw [decide_eq_false hlt]

@[simp] theorem limit_check : (r.check key now).2.limit = r.limit := by
  rw [check_eq]
  split <;> exact r.limit_evict key now

@[simp] theorem windowS_check : (r.check key now).2.windowS = r.windowS := by
  rw [check_eq]
  split <;> exact r.windowS_evict key now

theorem hitsOf_check_self : (r.check key now).2.hitsOf key =
    if ((r.recent key now).length : Int) < r.limit then r.recent key now ++ [now]
    else r.recent key now := by
  rw [check_eq]
  unfold hitsOf
  split
  · rw [Dict.get?_set_self]
    rfl
  · rw [Dict.get?_set_self]
    rfl

variable {key} in
theorem hitsOf_check_of_ne {k : Str} (hk : k ≠ key) :
    (r.check key now).2.hitsOf k = r.hitsOf k := by
  rw [check_eq, ← hitsOf_evict_of_ne r now hk]
  unfold hitsOf
  split
  · rw [Dict.get?_set_of_ne _ _ hk, Dict.get?_set_of_ne _ _ hk]
  · rw [Dict.get?_set_of_ne _ _ hk]

theorem require_eq : r.require key now =
    (if ((r.recent key now).length : Int) < r.limit then .ok ()
      else .error ⟨key, r.limit, r.windowS⟩, (r.check key now).2) := by
  have hfst := r.check_fst key now
  unfold require
  split
  · next r' hcheck =>
    rw [hcheck] at hfst
    rw [if_pos (of_decide_eq_true hfst.symm), hcheck]
  · next r' hcheck =>
    rw [hcheck] at hfst
    have hlimit := r.limit_check key now
    have hwindow := r.windowS_check key now
    rw [hcheck] at hlimit hwindow
    rw [if_neg (of_decide_eq_false hfst.symm), hcheck, hlimit, hwindow]

end Calls

end RateLimiter

section Step

variable {T : Type} [AddCommGroup T] [LinearOrder T]

/-- The answer to a call, from the number of hits in the window. -/
def RateCall.answer (c : RateCall T) (limit : Int) (windowS : T) (used : Nat) : RateAnswer T :=
  match c.op with
  | .check => .bool (decide (used < limit))
  | .require => if used < limit then .none else .raised ⟨c.key, limit, windowS⟩
  | .remaining => .int (max 0 (limit - used))
  | .reset => .none

/-- What a call does to a list of hits, with room for another hit or without. -/
def RateCall.record (c : RateCall T) (room : Bool) (hits : List T) : List T :=
  match c.op with
  | .check | .require => if room then hits ++ [c.now] else hits
  | .remaining => hits
  | .reset => []

namespace RateLimiter

variable (r : RateLimiter T) (c : RateCall T)

/-- There is room for another hit in the window. -/
def room : Bool := ((r.recent c.key c.now).length : Int) < r.limit

theorem step_fst : (r.step c).1 =
    c.answer r.limit r.windowS (r.recent c.key c.now).length := by
  obtain ⟨op, key, now⟩ := c
  cases op with
  | check => exact congrArg RateAnswer.bool (r.check_fst key now)
  | require =>
    unfold step RateCall.answer
    simp only [require_eq]
    by_cases hlt : ((r.recent key now).length : Int) < r.limit
    · simp only [if_pos hlt]
    · simp only [if_neg hlt]
  | remaining =>
    unfold step RateCall.answer remaining
    simp only [hitsOf_evict_self, limit_evict]
  | reset => rfl

/-- A `require` does to the limiter what a `check` does. -/
theorem step_snd_require (key : Str) (now : T) :
    (r.step ⟨.require, key, now⟩).2 = (r.check key now).2 := by
  unfold step
  simp only [require_eq]
  split
  · next heq => exact (Prod.mk.inj heq).2.symm
  · next heq => exact (Prod.mk.inj heq).2.symm

@[simp] theorem limit_step : (r.step c).2.limit = r.limit := by
  obtain ⟨op, key, now⟩ := c
  cases op with
  | check => exact r.limit_check key now
  | require => rw [step_snd_require, limit_check]
  | remaining => exact r.limit_evict key now
  | reset => rfl

@[simp] theorem windowS_step : (r.step c).2.windowS = r.windowS := by
  obtain ⟨op, key, now⟩ := c
  cases op with
  | check => exact r.windowS_check key now
  | require => rw [step_snd_require, windowS_check]
  | remaining => exact r.windowS_evict key now
  | reset => rfl

theorem hitsOf_step_self :
    (r.step c).2.hitsOf c.key = c.record (r.room c) (r.recent c.key c.now) := by
  obtain ⟨op, key, now⟩ := c
  cases op with
  | check =>
    show (r.check key now).2.hitsOf key = _
    simpa [RateCall.record, room] using r.hitsOf_check_self key now
  | require =>
    rw [step_snd_require]
    simpa [RateCall.record, room] using r.hitsOf_check_self key now
  | remaining => exact r.hitsOf_evict_self key now
  | reset =>
    show ((r.hits.erase key).get? key).getD [] = []
    rw [Dict.get?_erase_self]
    rfl

theorem hitsOf_step_of_ne {k : Str} (hk : k ≠ c.key) : (r.step c).2.hitsOf k = r.hitsOf k := by
  obtain ⟨op, key, now⟩ := c
  cases op with
  | check => exact r.hitsOf_check_of_ne now hk
  | require =>
    rw [step_snd_require]
    exact r.hitsOf_check_of_ne now hk
  | remaining => exact r.hitsOf_evict_of_ne now hk
  | reset =>
    show ((r.hits.erase key).get? k).getD [] = r.hitsOf k
    rw [Dict.get?_erase_of_ne _ hk]
    rfl

omit [AddCommGroup T] [LinearOrder T] in
theorem accepted_concat (key : Str) (l : List (RateEntry T)) (e : RateEntry T) :
    accepted key (l ++ [e]) =
      if e.accepts key then accepted key l ++ [e.call.now] else accepted key l := by
  unfold accepted
  rw [List.filter_append]
  split
  · next he => simp [he]
  · next he => simp [he]

/-- The calls that were allowed for a key, after another call. -/
theorem acceptedSince_step_self (l : List (RateEntry T)) :
    acceptedSince c.key (l ++ [⟨c, (r.step c).1⟩]) =
      c.record (r.room c) (acceptedSince c.key l) := by
  unfold acceptedSince
  rw [List.rtakeWhile_concat, step_fst]
  obtain ⟨op, key, now⟩ := c
  cases op with
  | check =>
    rw [if_pos (by simp [RateEntry.resets]), accepted_concat]
    by_cases hroom : ((r.recent key now).length : Int) < r.limit
    · simp [RateEntry.accepts, RateCall.answer, RateCall.record, room, hroom]
    · simp [RateEntry.accepts, RateCall.answer, RateCall.record, room, hroom]
  | require =>
    rw [if_pos (by simp [RateEntry.resets]), accepted_concat]
    by_cases hroom : ((r.recent key now).length : Int) < r.limit
    · simp [RateEntry.accepts, RateCall.answer, RateCall.record, room, hroom]
    · simp [RateEntry.accepts, RateCall.answer, RateCall.record, room, hroom]
  | remaining =>
    rw [if_pos (by simp [RateEntry.resets]), accepted_concat]
    simp [RateEntry.accepts, RateCall.record]
  | reset =>
    rw [if_neg (by simp [RateEntry.resets])]
    rfl

theorem acceptedSince_step_of_ne {k : Str} (hk : k ≠ c.key) (l : List (RateEntry T)) :
    acceptedSince k (l ++ [⟨c, (r.step c).1⟩]) = acceptedSince k l := by
  unfold acceptedSince accepted
  simp [RateEntry.resets, RateEntry.accepts, Ne.symm hk]

theorem after_concat (calls : List (RateCall T)) (c : RateCall T) :
    r.after (calls ++ [c]) = ((r.after calls).step c).2 := by
  unfold after
  rw [Run.run_append]
  rfl

theorem trace_concat (calls : List (RateCall T)) (c : RateCall T) :
    r.trace (calls ++ [c]) = r.trace calls ++ [⟨c, ((r.after calls).step c).1⟩] := by
  induction calls generalizing r with
  | nil => rfl
  | cons c' calls ih =>
    rw [List.cons_append, trace, ih, trace, List.cons_append]
    rfl

theorem limit_after (calls : List (RateCall T)) : (r.after calls).limit = r.limit := by
  induction calls using List.reverseRecOn with
  | nil => rfl
  | append_singleton calls c ih => rw [after_concat, limit_step, ih]

theorem windowS_after (calls : List (RateCall T)) : (r.after calls).windowS = r.windowS := by
  induction calls using List.reverseRecOn with
  | nil => rfl
  | append_singleton calls c ih => rw [after_concat, windowS_step, ih]

theorem trace_take (n : ℕ) (calls : List (RateCall T)) :
    r.trace (calls.take n) = (r.trace calls).take n := by
  induction calls generalizing r n with
  | nil => simp [trace]
  | cons c calls ih =>
    cases n with
    | zero => rfl
    | succ n => rw [List.take_succ_cons, trace, ih, trace, List.take_succ_cons]

end RateLimiter

end Step

/-! ### The deque and the accepted calls -/

section Tracking

variable {T : Type} [AddCommGroup T] [LinearOrder T]

/-- A deque is the end of the hits that were accepted, and what is in front of it had left the
window when one of the calls came. -/
structure DequeTracks (limit : Int) (windowS : T) (times accepted hits : List T) : Prop where
  split : ∃ old, accepted = old ++ hits ∧ ∀ a ∈ old, ∃ t ∈ times, a ≤ t - windowS
  sublist : accepted.Sublist times
  length_le : hits.length ≤ limit
  spaced : Window.Spaced limit.toNat windowS accepted

variable {limit : Int} {windowS now : T} {times accepted hits : List T}

theorem dequeTracks_nil (hlimit : 1 ≤ limit) : DequeTracks limit windowS times [] [] :=
  ⟨⟨[], rfl, nofun⟩, List.nil_sublist _, zero_le_one.trans hlimit, Window.spaced_nil⟩

theorem DequeTracks.mono (h : DequeTracks limit windowS times accepted hits) (now : T) :
    DequeTracks limit windowS (times ++ [now]) accepted hits := by
  obtain ⟨old, haccepted, hold⟩ := h.split
  refine ⟨⟨old, haccepted, fun a ha => ?_⟩, h.sublist.trans (List.sublist_append_left _ _),
    h.length_le, h.spaced⟩
  obtain ⟨t, ht, hle⟩ := hold a ha
  exact ⟨t, List.mem_append_left _ ht, hle⟩

theorem DequeTracks.sorted (h : DequeTracks limit windowS times accepted hits)
    (hsorted : times.Pairwise (· ≤ ·)) : accepted.Pairwise (· ≤ ·) ∧ hits.Pairwise (· ≤ ·) := by
  obtain ⟨old, haccepted, -⟩ := h.split
  have hpair := hsorted.sublist h.sublist
  refine ⟨hpair, hpair.sublist ?_⟩
  rw [haccepted]
  exact List.sublist_append_right _ _

/-- Eviction: the hits that leave the deque have left the window. -/
theorem DequeTracks.evict (h : DequeTracks limit windowS times accepted hits)
    (hsorted : times.Pairwise (· ≤ ·)) (now : T) :
    DequeTracks limit windowS (times ++ [now]) accepted
      (hits.dropWhile (· ≤ now - windowS)) := by
  have hhits := (h.sorted hsorted).2
  obtain ⟨older, recent, hsplit, holder, hrecent⟩ :=
    Window.exists_split_of_sorted (f := id) (now - windowS) hhits
  have hdrop : hits.dropWhile (· ≤ now - windowS) = recent :=
    (Window.dropWhile_eq_filter (f := id) (now - windowS) hhits).trans hrecent
  rw [hdrop]
  obtain ⟨old, haccepted, hold⟩ := (h.mono now).split
  refine ⟨⟨old ++ older, by rw [haccepted, hsplit, List.append_assoc], fun a ha => ?_⟩,
    (h.mono now).sublist, ?_, h.spaced⟩
  · obtain ha | ha := List.mem_append.mp ha
    · exact hold a ha
    · exact ⟨now, by simp, holder a ha⟩
  · have hlen := h.length_le
    rw [hsplit, List.length_append] at hlen
    omega

variable [IsOrderedAddMonoid T]

/-- The deque after eviction counts what was accepted in the window. -/
theorem DequeTracks.countP_eq (h : DequeTracks limit windowS times accepted hits)
    (hsorted : times.Pairwise (· ≤ ·)) (hnow : ∀ t ∈ times, t ≤ now) :
    accepted.countP (fun a => now - windowS < a) =
      (hits.dropWhile (· ≤ now - windowS)).length := by
  obtain ⟨old, haccepted, hold⟩ := h.split
  -- what had left the window at the time of an earlier call has left it now
  have holds : old.countP (fun a => now - windowS < a) = 0 := by
    refine List.countP_eq_zero.mpr fun a ha => ?_
    obtain ⟨t, ht, hle⟩ := hold a ha
    have hleft : a ≤ now - windowS :=
      calc a ≤ t - windowS := hle
        _ ≤ now - windowS := sub_le_sub_right (hnow t ht) windowS
    simpa using hleft
  calc accepted.countP (fun a => now - windowS < a)
      = hits.countP fun a => now - windowS < a := by
        rw [haccepted, List.countP_append, holds, Nat.zero_add]
    _ = (hits.filter fun a => now - windowS < a).length := List.countP_eq_length_filter
    _ = (hits.dropWhile (· ≤ now - windowS)).length :=
        congrArg _ (Window.dropWhile_eq_filter (f := id) _ (h.sorted hsorted).2).symm

/-- A hit that is recorded: there was room for it. -/
theorem DequeTracks.accept (h : DequeTracks limit windowS times accepted hits)
    (hsorted : (times ++ [now]).Pairwise (· ≤ ·))
    (hroom : ((hits.dropWhile (· ≤ now - windowS)).length : Int) < limit) :
    DequeTracks limit windowS (times ++ [now]) (accepted ++ [now])
      (hits.dropWhile (· ≤ now - windowS) ++ [now]) := by
  obtain ⟨htimes, -, hnow⟩ := List.pairwise_append.mp hsorted
  have hevict := h.evict htimes now
  obtain ⟨old, haccepted, hold⟩ := hevict.split
  refine ⟨⟨old, by rw [haccepted, List.append_assoc], hold⟩,
    h.sublist.append (List.Sublist.refl _), ?_, h.spaced.concat ?_⟩
  · rw [List.length_append, List.length_singleton]
    omega
  · rw [h.countP_eq htimes fun t ht => hnow t ht now List.mem_cons_self]
    omega

/-- **One call** of the key keeps deque and accepted hits together. -/
theorem DequeTracks.record (h : DequeTracks limit windowS times accepted hits) (hlimit : 1 ≤ limit)
    {c : RateCall T} (hsorted : (times ++ [c.now]).Pairwise (· ≤ ·)) {room : Bool}
    (hroom : room = true → ((hits.dropWhile (· ≤ c.now - windowS)).length : Int) < limit) :
    DequeTracks limit windowS (times ++ [c.now]) (c.record room accepted)
      (c.record room (hits.dropWhile (· ≤ c.now - windowS))) := by
  have hevict := h.evict (List.pairwise_append.mp hsorted).1 c.now
  unfold RateCall.record
  split
  · cases room with
    | true => exact h.accept hsorted (hroom rfl)
    | false => exact hevict
  · cases room with
    | true => exact h.accept hsorted (hroom rfl)
    | false => exact hevict
  · exact hevict
  · exact dequeTracks_nil hlimit

end Tracking

/-! ### Every run -/

section Run

variable {T : Type} [AddCommGroup T] [LinearOrder T] [IsOrderedAddMonoid T]

/-- The deque of every key is tied to the calls that were accepted for it. -/
def RateInv (r : RateLimiter T) (times : List T) (l : List (RateEntry T)) : Prop :=
  ∀ key, DequeTracks r.limit r.windowS times (acceptedSince key l) (r.hitsOf key)

/-- **Step.** -/
theorem RateInv.step {r : RateLimiter T} {times : List T} {l : List (RateEntry T)}
    (h : RateInv r times l) {c : RateCall T} (hsorted : (times ++ [c.now]).Pairwise (· ≤ ·)) :
    RateInv (r.step c).2 (times ++ [c.now]) (l ++ [⟨c, (r.step c).1⟩]) := by
  intro key
  rw [r.limit_step, r.windowS_step]
  by_cases hkey : key = c.key
  · subst hkey
    rw [r.hitsOf_step_self, r.acceptedSince_step_self]
    exact (h c.key).record r.limit_pos hsorted of_decide_eq_true
  · rw [r.hitsOf_step_of_ne c hkey, r.acceptedSince_step_of_ne c hkey]
    exact (h key).mono c.now

/-- **Run.** -/
theorem rateInv_run {r : RateLimiter T} (hr : r.hits = Dict.empty) {calls : List (RateCall T)}
    (hsorted : (calls.map RateCall.now).Pairwise (· ≤ ·)) :
    RateInv (r.after calls) (calls.map RateCall.now) (r.trace calls) := by
  induction calls using List.reverseRecOn with
  | nil =>
    intro key
    have hhits : r.hitsOf key = [] := by
      unfold RateLimiter.hitsOf
      rw [hr]
      rfl
    show DequeTracks r.limit r.windowS [] [] (r.hitsOf key)
    rw [hhits]
    exact dequeTracks_nil r.limit_pos
  | append_singleton calls c ih =>
    rw [List.map_append, List.map_singleton] at hsorted ⊢
    rw [r.after_concat, r.trace_concat]
    exact (ih (List.pairwise_append.mp hsorted).1).step hsorted

/-! ### What matters for a key -/

/-- Two limiters whose deques of a key agree from a time on. -/
structure Alike (key : Str) (now : T) (r r' : RateLimiter T) : Prop where
  limit_eq : r.limit = r'.limit
  windowS_eq : r.windowS = r'.windowS
  recent_eq : ∀ t, now ≤ t → r.recent key t = r'.recent key t

variable {key : Str} {now : T} {r r' : RateLimiter T} {c : RateCall T}

omit [IsOrderedAddMonoid T] in
theorem Alike.answer_eq (h : Alike c.key now r r') (hnow : now ≤ c.now) :
    (r.step c).1 = (r'.step c).1 := by
  rw [r.step_fst, r'.step_fst, h.limit_eq, h.windowS_eq, h.recent_eq c.now hnow]

omit [IsOrderedAddMonoid T] in
/-- The same call on both sides. -/
theorem Alike.step (h : Alike key now r r') (hnow : now ≤ c.now) :
    Alike key c.now (r.step c).2 (r'.step c).2 := by
  refine ⟨by rw [r.limit_step, r'.limit_step, h.limit_eq],
    by rw [r.windowS_step, r'.windowS_step, h.windowS_eq], fun t ht => ?_⟩
  unfold RateLimiter.recent
  rw [r.windowS_step, r'.windowS_step]
  by_cases hkey : key = c.key
  · -- both decide by what is left of their deques, and that is the same
    subst hkey
    have hroom : r.room c = r'.room c := by
      unfold RateLimiter.room
      rw [h.recent_eq c.now hnow, h.limit_eq]
    rw [r.hitsOf_step_self, r'.hitsOf_step_self, h.recent_eq c.now hnow, h.windowS_eq, hroom]
  · rw [r.hitsOf_step_of_ne c hkey, r'.hitsOf_step_of_ne c hkey]
    exact h.recent_eq t (hnow.trans ht)

omit [IsOrderedAddMonoid T] in
/-- A call about the key that is rejected records nothing. -/
theorem record_of_rejected {hits : List T}
    (h : c.op = .remaining ∨ (r.step c).1 = .bool false ∨ ∃ e, (r.step c).1 = .raised e) :
    c.record (r.room c) hits = hits := by
  rw [r.step_fst] at h
  unfold RateCall.answer at h
  unfold RateCall.record RateLimiter.room
  obtain ⟨op, key, now⟩ := c
  cases op with
  | check => simpa using h
  | require =>
    by_cases hroom : ((r.recent key now).length : Int) < r.limit
    · simp [hroom] at h
    · simp [hroom]
  | remaining => rfl
  | reset => simp at h

/-- A call that does not matter for the key. -/
theorem alike_of_idle (h : Idle r key c) : Alike key c.now (r.step c).2 r := by
  refine ⟨r.limit_step c, r.windowS_step c, fun t ht => ?_⟩
  unfold RateLimiter.recent
  rw [r.windowS_step]
  by_cases hkey : key = c.key
  · -- only the eviction is left of the call, and a later look would have evicted the same hits
    subst hkey
    rw [r.hitsOf_step_self, record_of_rejected (h.resolve_left (by simp))]
    exact Window.dropWhile_dropWhile (f := id) (sub_le_sub_right ht _) _
  · rw [r.hitsOf_step_of_ne c hkey]

omit [IsOrderedAddMonoid T] in
/-- All later calls about the key are answered alike. -/
theorem Alike.answersFor_eq (h : Alike key now r r') {calls : List (RateCall T)}
    (hsorted : calls.Pairwise fun a b => a.now ≤ b.now) (hnow : ∀ c ∈ calls, now ≤ c.now) :
    answersFor key (r.trace calls) = answersFor key (r'.trace calls) := by
  induction calls generalizing r r' now with
  | nil => rfl
  | cons c calls ih =>
    obtain ⟨hc, hcalls⟩ := List.pairwise_cons.mp hsorted
    have hle := hnow c List.mem_cons_self
    have hrest := ih (h.step hle) hcalls hc
    unfold answersFor at hrest ⊢
    rw [RateLimiter.trace, RateLimiter.trace]
    by_cases hkey : c.key = key
    · subst hkey
      rw [List.filter_cons_of_pos (by simp), List.filter_cons_of_pos (by simp), hrest,
        h.answer_eq hle]
    · rw [List.filter_cons_of_neg (by simpa using hkey),
        List.filter_cons_of_neg (by simpa using hkey), hrest]

/-! ### The sliding window -/

omit [AddCommGroup T] [LinearOrder T] [IsOrderedAddMonoid T] in
/-- Between two resets, what was accepted adds up. -/
theorem acceptedSince_append {key : Str} {before between : List (RateEntry T)}
    (h : ∀ e ∈ between, e.resets key = false) :
    acceptedSince key (before ++ between) = acceptedSince key before ++ accepted key between := by
  have htake : (before ++ between).rtakeWhile (fun e => ! e.resets key) =
      before.rtakeWhile (fun e => ! e.resets key) ++ between := by
    induction between using List.reverseRecOn with
    | nil => simp
    | append_singleton between e ih =>
      rw [← List.append_assoc, List.rtakeWhile_concat, if_pos (by simp [h e]),
        ih fun e' he' => h e' (List.mem_append_left _ he'), List.append_assoc]
  unfold acceptedSince
  rw [htake]
  unfold accepted
  rw [List.filter_append, List.map_append]

/-- A check is allowed exactly if fewer than `limit` calls were accepted in the window. -/
theorem RateInv.check_iff {times : List T} {l : List (RateEntry T)} (h : RateInv r times l)
    (hsorted : times.Pairwise (· ≤ ·)) (hnow : ∀ t ∈ times, t ≤ now) :
    (r.check key now).1 = true ↔
      ((acceptedSince key l).countP fun a => now - r.windowS < a ∧ a ≤ now) < r.limit := by
  have hcount : ((acceptedSince key l).countP fun a => now - r.windowS < a ∧ a ≤ now) =
      (acceptedSince key l).countP fun a => now - r.windowS < a := by
    refine List.countP_congr fun a ha => ?_
    have hle : a ≤ now := hnow a ((h key).sublist.subset ha)
    simp [hle]
  rw [r.check_fst, decide_eq_true_iff, hcount, (h key).countP_eq hsorted hnow]
  rfl

/-- Of times less than a window apart, at most `limit` were accepted between two resets. -/
theorem countP_accepted_le (hr : r.hits = Dict.empty) {calls : List (RateCall T)}
    (hsorted : (calls.map RateCall.now).Pairwise (· ≤ ·))
    {before between after : List (RateEntry T)} (hl : r.trace calls = before ++ between ++ after)
    (hresets : ∀ e ∈ between, e.resets key = false) {p : T → Bool}
    (hp : ∀ a b, p a = true → p b = true → a ≤ b → b - r.windowS < a) :
    (accepted key between).countP p ≤ r.limit := by
  -- the run up to the end of the segment, where its hits are those since the last reset
  have htake : r.trace (calls.take (before ++ between).length) = before ++ between := by
    rw [r.trace_take, hl, List.take_left]
  have htimes : ((calls.take (before ++ between).length).map RateCall.now).Pairwise (· ≤ ·) :=
    hsorted.sublist ((List.take_sublist _ _).map _)
  have htracks := rateInv_run hr htimes key
  rw [htake, r.limit_after, r.windowS_after, acceptedSince_append hresets] at htracks
  calc ((accepted key between).countP p : Int)
      ≤ (acceptedSince key before ++ accepted key between).countP p := by
        rw [List.countP_append]
        exact Int.ofNat_le.mpr (Nat.le_add_left _ _)
    _ ≤ r.limit.toNat :=
        Int.ofNat_le.mpr (htracks.spaced.countP_le (htracks.sorted htimes).1 hp)
    _ = r.limit := Int.toNat_of_nonneg (zero_le_one.trans r.limit_pos)

/-- **Sliding window.** After any calls at non-decreasing times: a check at any later time is
allowed exactly if fewer than `limit` calls that were accepted for the key since its last reset
lie in the window that ends there; between resets no half-open window contains more than `limit`
accepted calls; a call about another key, a `remaining` or a rejected call changes no later answer
about the key; and the deque is sorted and holds at most `limit` times. -/
theorem rateLimiter_sliding_window (limit : Int) (hlimit : 1 ≤ limit) (windowS : T)
    (hwindow : 0 < windowS) (calls : List (RateCall T))
    (hsorted : calls.Pairwise fun a b => a.now ≤ b.now) (key : Str) :
    let r := (RateLimiter.fresh limit windowS hlimit hwindow).after calls
    let l := (RateLimiter.fresh limit windowS hlimit hwindow).trace calls
    (∀ now, (∀ c ∈ calls, c.now ≤ now) →
      ((r.check key now).1 = true ↔
        ((acceptedSince key l).countP fun a => now - windowS < a ∧ a ≤ now) < limit)) ∧
    (∀ before between after, l = before ++ between ++ after →
      (∀ e ∈ between, e.resets key = false) → ∀ x,
        ((accepted key between).countP fun a => x < a ∧ a ≤ x + windowS) ≤ limit ∧
        ((accepted key between).countP fun a => x ≤ a ∧ a < x + windowS) ≤ limit) ∧
    (∀ c after, (calls ++ c :: after).Pairwise (fun a b => a.now ≤ b.now) → Idle r key c →
      answersFor key ((r.step c).2.trace after) = answersFor key (r.trace after)) ∧
    (∀ hits, r.hits.get? key = some hits → hits.Pairwise (· ≤ ·) ∧ hits.length ≤ limit) := by
  intro r l
  have hwindow_eq : r.windowS = windowS := RateLimiter.windowS_after _ calls
  have hlimit_eq : r.limit = limit := RateLimiter.limit_after _ calls
  have htimes : (calls.map RateCall.now).Pairwise (· ≤ ·) := List.pairwise_map.mpr hsorted
  have hinv : RateInv r (calls.map RateCall.now) l := rateInv_run rfl htimes
  refine ⟨fun now hnow => ?_, fun before between after hl hresets x => ?_,
    fun c after hcalls hidle => ?_, fun hits hhits => ?_⟩
  · rw [hinv.check_iff htimes (by simpa using hnow), hwindow_eq, hlimit_eq]
  · -- a stretch without resets accepts at most the limit in a window, closed on either side
    constructor
    · refine countP_accepted_le rfl htimes hl hresets fun a b ha hb _ => ?_
      calc b - windowS ≤ x := sub_le_iff_le_add.mpr (of_decide_eq_true hb).2
        _ < a := (of_decide_eq_true ha).1
    · refine countP_accepted_le rfl htimes hl hresets fun a b ha hb _ => ?_
      calc b - windowS < x := sub_lt_iff_lt_add.mpr (of_decide_eq_true hb).2
        _ ≤ a := (of_decide_eq_true ha).1
  · -- an idle key is answered as if it had never been seen
    obtain ⟨-, hrest, -⟩ := List.pairwise_append.mp hcalls
    obtain ⟨hc, hafter⟩ := List.pairwise_cons.mp hrest
    exact (alike_of_idle hidle).answersFor_eq hafter hc
  · have hhitsOf : r.hitsOf key = hits := by
      unfold RateLimiter.hitsOf
      rw [hhits]
      rfl
    have htracks := hinv key
    rw [hhitsOf, hlimit_eq] at htracks
    exact ⟨(htracks.sorted htimes).2, htracks.length_le⟩

/-- A limit of one call in ten: the second call is rejected, the third finds the window free. -/
theorem third_call_finds_window_free :
    let r : RateLimiter ℤ := RateLimiter.fresh 1 10 (by decide) (by decide)
    let calls : List (RateCall ℤ) := [⟨.check, [], 0⟩, ⟨.check, [], 5⟩]
    r.trace calls = [⟨⟨.check, [], 0⟩, .bool true⟩, ⟨⟨.check, [], 5⟩, .bool false⟩] ∧
      ((r.after calls).check [] 10).1 = true := by
  intro r calls
  have hwindow := rateLimiter_sliding_window 1 (by decide) (10 : ℤ) (by decide) calls (by decide) []
  exact ⟨by decide, (hwindow.1 10 (by decide)).mpr (by decide)⟩

end Run

end Chiralite
