import Chiralite.Framework.Locks
import Chiralite.Sync.Concurrent

/-!
# The locks of the engine

`send_write`, `send_delete` and `send_rename` of `sync/engine.py` once more, now with the lock of
each path. `_path_lock` makes a lock when a path is asked for first and keeps it in `_locks`; a
call waits at each of its `async with` statements until it has the lock, sends its messages inside
the last of them, waits for a reply if it is a write, and gives its locks back when it leaves, by
whatever way. Any number of calls run interleaved. A step takes a call from one `await` to the next,
and at each `await` the call may raise instead.

`asyncio.Lock` is a lock that one task holds at a time. Which of the waiting tasks gets a lock that
is free, and when, is left open, so that the order of its waiters has no part here.

Seen from the paths the engine is a system of threads that take locks (`abs_step`), and both results
come from there:

* `path_serialised`: from the `TRANSFER_BEGIN` of a write to its end, no other call sends a message
  that names its path;
* `deadlock_free_iff`: calls cannot come to wait for each other exactly when no `send_rename` among
  them has the same path twice. `send_rename` sorts its two paths, and the two are one then: it
  waits for a lock that it holds.
-/

namespace Chiralite

open Py Run

/-! ### The program -/

/-- The paths that a message names. The target of a symbolic link is content, and not named. -/
def AnyMsg.paths : AnyMsg → List Str
  | .syncState m => m.records.map Prod.fst
  | .fileWrite m => [m.entry.path]
  | .fileDelete m => [m.path]
  | .fileRename m => [m.oldPath, m.newPath]
  | .dirCreate m => [m.path]
  | .dirDelete path => [path]
  | .dirRename m => [m.oldPath, m.newPath]
  | .transferBegin m => [m.entry.path]
  | .conflictNotify m => [m.path]
  | _ => []

namespace EngineCall

/-- The paths of the `async with` statements, from the outermost on. -/
def lockOrder : EngineCall → List Str
  | .sendWrite entry _ _ _ => [entry.path]
  | .sendDelete path _ => [path]
  -- `sorted`
  | .sendRename oldPath newPath _ => [oldPath, newPath].insertionSort (· ≤ ·)

/-- The call gets as far as its first `async with`: `_prepare_payload` runs before it. -/
def prepares (X : XDelta) : EngineCall → Bool
  | .sendWrite entry content baseContent _ =>
    match preparePayload X entry content baseContent with
    | .error _ => false
    | .ok _ => true
  | _ => true

/-- The messages that are sent inside the innermost `async with`. -/
def script (X : XDelta) : EngineCall → List AnyMsg
  | .sendRename oldPath newPath nowNs => [.fileRename ⟨oldPath, newPath, nowNs⟩]
  | call => call.messages X

end EngineCall

/-- Where a call stands. `held` are the paths of the `async with` statements it is inside of, the
innermost first, with their locks. -/
inductive CallState where
  | ready
  /-- It waits for the lock of `path`, and has still to come to those of `left`. -/
  | waiting (path : Str) (lock : Nat) (left : List Str) (held : List (Str × Nat))
  /-- It has all its locks. -/
  | inside (held : List (Str × Nat)) (unsent : List AnyMsg)
  | ended

def CallState.held : CallState → List (Str × Nat)
  | .waiting _ _ _ held => held
  | .inside held _ => held
  | _ => []

/-- What can be seen of the calls. -/
inductive EngineEvent where
  | emitted (i : Nat) (m : AnyMsg)
  /-- The call has returned or raised. -/
  | ended (i : Nat)

/-- The engine with its calls. -/
structure EngineState where
  /-- `_locks`, with a number for each lock. -/
  locks : Dict Str Nat
  /-- The locks that have been made, each with the call that holds it. -/
  owners : List (Option Nat)
  calls : Nat → CallState
  trace : List EngineEvent

namespace EngineState

def start : EngineState := ⟨Dict.empty, [], fun _ => .ready, []⟩

/-- `_path_lock`. -/
def pathLock (s : EngineState) (path : Str) : Nat × EngineState :=
  match s.locks.get? path with
  | some lock => (lock, s)
  | none =>
    (s.owners.length,
      { s with locks := s.locks.set path s.owners.length, owners := s.owners ++ [none] })

/-- The call goes on to the next `async with`, or to its body. -/
def proceed (X : XDelta) (s : EngineState) (i : Nat) (call : EngineCall)
    (held : List (Str × Nat)) : List Str → EngineState
  | [] => { s with calls := Function.update s.calls i (.inside held (call.script X)) }
  | path :: left =>
    let (lock, s') := s.pathLock path
    { s' with calls := Function.update s'.calls i (.waiting path lock left held) }

/-- `release` of each lock. -/
def releaseAll (owners : List (Option Nat)) (held : List (Str × Nat)) : List (Option Nat) :=
  held.foldl (fun owners l => owners.set l.2 none) owners

/-- The call returns or raises, and gives its locks back. -/
def leave (s : EngineState) (i : Nat) : EngineState :=
  { s with
    owners := releaseAll s.owners (s.calls i).held
    calls := Function.update s.calls i .ended
    trace := s.trace ++ [.ended i] }

end EngineState

inductive EngineAct where
  | start (i : Nat)
  /-- The lock that the call waits for is free, and the call gets it. -/
  | acquire (i : Nat)
  | send (i : Nat)
  /-- Everything has been sent, and the reply, if the call waits for one, has come. -/
  | finish (i : Nat)
  /-- An exception at the `await` where the call is. -/
  | fail (i : Nat)

/-- One step of the calls `K`. -/
def EngineState.step (X : XDelta) (K : List EngineCall) (s : EngineState) :
    EngineAct → EngineState
  | .start i =>
    match K[i]?, s.calls i with
    | some call, .ready =>
      if call.prepares X then s.proceed X i call [] call.lockOrder else s.leave i
    | _, _ => s
  | .acquire i =>
    match K[i]?, s.calls i with
    | some call, .waiting path lock left held =>
      if s.owners[lock]? = some none then
        EngineState.proceed X { s with owners := s.owners.set lock (some i) } i call
          ((path, lock) :: held) left
      else s
    | _, _ => s
  | .send i =>
    match s.calls i with
    | .inside held (m :: unsent) =>
      { s with
        calls := Function.update s.calls i (.inside held unsent)
        trace := s.trace ++ [.emitted i m] }
    | _ => s
  | .finish i =>
    match s.calls i with
    | .inside _ [] => s.leave i
    | _ => s
  | .fail i =>
    match s.calls i with
    | .ready => s
    | .ended => s
    | _ => s.leave i

/-! ### The table of locks -/

/-- **The invariant of the table**: every path has a lock of its own, and a lock is held by the call
that is inside its `async with`, and by no other. -/
structure LockTable (locks : Dict Str Nat) (owners : List (Option Nat))
    (held : Nat → List (Str × Nat)) : Prop where
  made : ∀ p lock, locks.get? p = some lock → lock < owners.length
  apart : ∀ p q lock, locks.get? p = some lock → locks.get? q = some lock → p = q
  holds : ∀ i p lock, (p, lock) ∈ held i →
    locks.get? p = some lock ∧ owners[lock]? = some (some i)
  owned : ∀ i lock, owners[lock]? = some (some i) → ∃ p, (p, lock) ∈ held i

namespace LockTable

variable {locks : Dict Str Nat} {owners : List (Option Nat)} {held : Nat → List (Str × Nat)}

theorem empty : LockTable Dict.empty [] fun _ => [] where
  made _ _ h := by cases h
  apart _ _ _ h := by cases h
  holds _ _ _ h := by cases h
  owned _ _ h := by cases h

/-- A new path gets a new lock, which is free. -/
theorem make (h : LockTable locks owners held) {path : Str} (hnew : locks.get? path = none) :
    LockTable (locks.set path owners.length) (owners ++ [none]) held := by
  have hget : ∀ p lock, (locks.set path owners.length).get? p = some lock →
      (p = path ∧ lock = owners.length) ∨ (p ≠ path ∧ locks.get? p = some lock) := by
    intro p lock hp
    by_cases hpath : p = path
    · rw [hpath, Dict.get?_set_self] at hp
      exact Or.inl ⟨hpath, (Option.some.inj hp).symm⟩
    · rw [Dict.get?_set_of_ne _ _ hpath] at hp
      exact Or.inr ⟨hpath, hp⟩
  refine ⟨?_, ?_, ?_, ?_⟩
  · intro p lock hp
    rw [List.length_append, List.length_singleton]
    obtain ⟨-, rfl⟩ | ⟨-, hp⟩ := hget p lock hp
    · exact Nat.lt_succ_self _
    · exact Nat.lt_succ_of_lt (h.made p lock hp)
  · intro p q lock hp hq
    -- the number of the new lock was not in use
    obtain ⟨rfl, rfl⟩ | ⟨-, hp⟩ := hget p lock hp
    · obtain ⟨rfl, -⟩ | ⟨-, hq⟩ := hget q _ hq
      · rfl
      · exact absurd (h.made q _ hq) (Nat.lt_irrefl _)
    · obtain ⟨-, rfl⟩ | ⟨-, hq⟩ := hget q lock hq
      · exact absurd (h.made p _ hp) (Nat.lt_irrefl _)
      · exact h.apart p q lock hp hq
  · intro i p lock hheld
    obtain ⟨hp, howner⟩ := h.holds i p lock hheld
    have hne : p ≠ path := by
      rintro rfl
      rw [hnew] at hp
      cases hp
    refine ⟨by rw [Dict.get?_set_of_ne _ _ hne, hp], ?_⟩
    rw [List.getElem?_append_left (h.made p lock hp), howner]
  · intro i lock howner
    refine h.owned i lock ?_
    by_cases hlt : lock < owners.length
    · rwa [List.getElem?_append_left hlt] at howner
    · rw [List.getElem?_append_right (Nat.le_of_not_lt hlt)] at howner
      cases hk : lock - owners.length with
      | zero => rw [hk] at howner; cases howner
      | succ k => rw [hk] at howner; cases howner

/-- A free lock is held by nobody. -/
theorem free (h : LockTable locks owners held) {path : Str} {lock : Nat}
    (hlock : locks.get? path = some lock) (hfree : owners[lock]? = some none) (j : Nat) :
    path ∉ (held j).map Prod.fst := by
  intro hmem
  obtain ⟨⟨p, lock'⟩, hheld, rfl⟩ := List.mem_map.mp hmem
  obtain ⟨hp, howner⟩ := h.holds j p lock' hheld
  obtain rfl : lock = lock' := Option.some.inj (hlock.symm.trans hp)
  rw [hfree] at howner
  cases howner

/-- A call takes a free lock. -/
theorem take (h : LockTable locks owners held) {path : Str} {lock : Nat}
    (hlock : locks.get? path = some lock) (hfree : owners[lock]? = some none) (i : Nat) :
    LockTable locks (owners.set lock (some i))
      (Function.update held i ((path, lock) :: held i)) := by
  refine ⟨?_, h.apart, ?_, ?_⟩
  · intro p l hp
    rw [List.length_set]
    exact h.made p l hp
  · intro j p l hmem
    have hold : (p, l) ∈ held j →
        locks.get? p = some l ∧ (owners.set lock (some i))[l]? = some (some j) := by
      intro hheld
      obtain ⟨hp, howner⟩ := h.holds j p l hheld
      -- a lock that is held is not the one that was free
      have hne : lock ≠ l := by
        rintro rfl
        rw [hfree] at howner
        cases howner
      exact ⟨hp, by rw [List.getElem?_set_ne hne, howner]⟩
    by_cases hji : j = i
    · subst hji
      rw [Function.update_self] at hmem
      obtain heq | hheld := List.mem_cons.mp hmem
      · cases heq
        exact ⟨hlock, List.getElem?_set_self (h.made path lock hlock)⟩
      · exact hold hheld
    · rw [Function.update_of_ne hji] at hmem
      exact hold hmem
  · intro j l howner
    by_cases hll : lock = l
    · subst hll
      rw [List.getElem?_set_self (h.made path lock hlock)] at howner
      cases howner
      exact ⟨path, by rw [Function.update_self]; exact List.mem_cons_self⟩
    · rw [List.getElem?_set_ne hll] at howner
      obtain ⟨p, hp⟩ := h.owned j l howner
      refine ⟨p, ?_⟩
      by_cases hji : j = i
      · subst hji
        rw [Function.update_self]
        exact List.mem_cons_of_mem _ hp
      · rwa [Function.update_of_ne hji]

/-- What `release` leaves of a lock. -/
theorem getElem?_releaseAll (owners : List (Option Nat)) (ls : List (Str × Nat)) (lock : Nat) :
    (EngineState.releaseAll owners ls)[lock]? =
      if lock ∈ ls.map Prod.snd then owners[lock]?.map fun _ => none else owners[lock]? := by
  induction ls generalizing owners with
  | nil => rfl
  | cons l ls ih =>
    show (EngineState.releaseAll (owners.set l.2 none) ls)[lock]? = _
    rw [ih, List.map_cons, List.getElem?_set']
    by_cases heq : l.2 = lock
    · subst heq
      have hmem : l.2 ∈ l.2 :: ls.map Prod.snd := List.mem_cons_self
      rw [if_pos rfl, if_pos hmem]
      split
      · cases owners[l.2]? with
        | none => rfl
        | some o => rfl
      · rfl
    · have hcons : lock ∈ l.2 :: ls.map Prod.snd ↔ lock ∈ ls.map Prod.snd := by
        rw [List.mem_cons, or_iff_right (Ne.symm heq)]
      rw [if_neg heq]
      simp only [hcons]

theorem length_releaseAll (owners : List (Option Nat)) (ls : List (Str × Nat)) :
    (EngineState.releaseAll owners ls).length = owners.length := by
  induction ls generalizing owners with
  | nil => rfl
  | cons l ls ih =>
    show (EngineState.releaseAll (owners.set l.2 none) ls).length = _
    rw [ih, List.length_set]

/-- A call gives all its locks back. -/
theorem release (h : LockTable locks owners held) (i : Nat) :
    LockTable locks (EngineState.releaseAll owners (held i)) (Function.update held i []) := by
  refine ⟨?_, h.apart, ?_, ?_⟩
  · intro p lock hp
    rw [length_releaseAll]
    exact h.made p lock hp
  · intro j p lock hmem
    by_cases hji : j = i
    · subst hji
      rw [Function.update_self] at hmem
      cases hmem
    · rw [Function.update_of_ne hji] at hmem
      obtain ⟨hp, howner⟩ := h.holds j p lock hmem
      refine ⟨hp, ?_⟩
      rw [getElem?_releaseAll, if_neg, howner]
      -- a lock has one owner
      intro hreleased
      obtain ⟨⟨q, lock'⟩, hq, rfl⟩ := List.mem_map.mp hreleased
      have howner' := (h.holds i q lock' hq).2
      rw [howner] at howner'
      cases howner'
      exact hji rfl
  · intro j lock howner
    rw [getElem?_releaseAll] at howner
    split at howner
    · cases hl : owners[lock]? with
      | none => rw [hl] at howner; cases howner
      | some o => rw [hl] at howner; cases howner
    · rename_i hkept
      obtain ⟨p, hp⟩ := h.owned j lock howner
      have hji : j ≠ i := by
        rintro rfl
        exact hkept (List.mem_map_of_mem hp)
      exact ⟨p, by rwa [Function.update_of_ne hji]⟩

end LockTable

/-! ### What a step does -/

section Steps

variable {X : XDelta} {K : List EngineCall} {s s' : EngineState}

/-- **What a step can do.** -/
inductive EngineState.Moves (X : XDelta) (K : List EngineCall) (s : EngineState) :
    EngineState → Prop where
  | idle : Moves X K s s
  | enter {i : Nat} {call : EngineCall} (hcall : K[i]? = some call) (hready : s.calls i = .ready) :
      Moves X K s (s.proceed X i call [] call.lockOrder)
  | take {i : Nat} {call : EngineCall} {path : Str} {lock : Nat} {left : List Str}
      {held : List (Str × Nat)} (hcall : K[i]? = some call)
      (hwaiting : s.calls i = .waiting path lock left held)
      (hfree : s.owners[lock]? = some none) :
      Moves X K s (EngineState.proceed X { s with owners := s.owners.set lock (some i) } i call
        ((path, lock) :: held) left)
  | send {i : Nat} {held : List (Str × Nat)} {m : AnyMsg} {unsent : List AnyMsg}
      (hinside : s.calls i = .inside held (m :: unsent)) :
      Moves X K s { s with
        calls := Function.update s.calls i (.inside held unsent)
        trace := s.trace ++ [.emitted i m] }
  | leave (i : Nat) : Moves X K s (s.leave i)

theorem EngineState.step_moves (X : XDelta) (K : List EngineCall) (s : EngineState)
    (a : EngineAct) : Moves X K s (s.step X K a) := by
  cases a with
  | start i =>
    simp only [step]
    split
    · rename_i call hcall hready
      split
      · exact .enter hcall hready
      · exact .leave i
    · exact .idle
  | acquire i =>
    simp only [step]
    split
    · rename_i call path lock left held hcall hwaiting
      split
      · rename_i hfree
        exact .take hcall hwaiting hfree
      · exact .idle
    · exact .idle
  | send i =>
    simp only [step]
    split
    · rename_i held m unsent hinside
      exact .send hinside
    · exact .idle
  | finish i =>
    simp only [step]
    split
    · exact .leave i
    · exact .idle
  | fail i =>
    simp only [step]
    split
    · exact .idle
    · exact .idle
    · exact .leave i

/-- The path whose lock a call waits for. -/
def CallState.wanted : CallState → Option Str
  | .waiting path _ _ _ => some path
  | _ => none

/-- **The engine as threads that take locks**, where the locks are the paths. -/
def EngineState.abs (s : EngineState) : Locks.State Nat Str where
  held i := (s.calls i).held.map Prod.fst
  wants i := (s.calls i).wanted

theorem EngineState.abs_held {s : EngineState} {i : Nat} {c : CallState} (h : s.calls i = c) :
    s.abs.held i = c.held.map Prod.fst := by
  rw [← h]
  rfl

theorem EngineState.abs_wants {s : EngineState} {i : Nat} {c : CallState} (h : s.calls i = c) :
    s.abs.wants i = c.wanted := by
  rw [← h]
  rfl

/-- The table of a state and who holds what. -/
def EngineState.Table (s : EngineState) (held : Nat → List (Str × Nat)) : Prop :=
  LockTable s.locks s.owners held

/-- A call follows its text: it comes to its `async with` statements in their order, and has still
to send the rest of its messages. -/
def CallState.Follows (X : XDelta) (locks : Dict Str Nat) (call : EngineCall) : CallState → Prop
  | .waiting path lock left held =>
    locks.get? path = some lock ∧ (held.map Prod.fst).reverse ++ path :: left = call.lockOrder
  | .inside held unsent =>
    (held.map Prod.fst).reverse = call.lockOrder ∧ unsent <:+ call.script X
  | _ => True

/-- `_path_lock` finds a lock, or makes one. -/
theorem EngineState.pathLock_cases (s : EngineState) (path : Str) :
    (∃ lock, s.locks.get? path = some lock ∧ s.pathLock path = (lock, s)) ∨
      (s.locks.get? path = none ∧ s.pathLock path = (s.owners.length,
        { s with locks := s.locks.set path s.owners.length, owners := s.owners ++ [none] })) := by
  unfold pathLock
  cases hget : s.locks.get? path with
  | none => exact Or.inr ⟨rfl, rfl⟩
  | some lock => exact Or.inl ⟨lock, rfl, rfl⟩

/-- **What `proceed` leaves behind**: the table with everything it had, and the call at its next
`await` with the given locks. -/
structure EngineState.Proceeded (X : XDelta) (s : EngineState) (i : Nat) (call : EngineCall)
    (held : List (Str × Nat)) (left : List Str) (s' : EngineState) : Prop where
  trace : s'.trace = s.trace
  table : ∀ holding, s.Table holding → s'.Table holding
  grows : ∀ p lock, s.locks.get? p = some lock → s'.locks.get? p = some lock
  state : ∃ c, s'.calls = Function.update s.calls i c ∧ c.held = held ∧ c.wanted = left.head? ∧
    ((held.map Prod.fst).reverse ++ left = call.lockOrder → c.Follows X s'.locks call)

theorem EngineState.proceeded (X : XDelta) (s : EngineState) (i : Nat) (call : EngineCall)
    (held : List (Str × Nat)) (left : List Str) :
    Proceeded X s i call held left (s.proceed X i call held left) := by
  cases left with
  | nil =>
    refine ⟨rfl, fun _ h => h, fun _ _ h => h, .inside held (call.script X), rfl, rfl, rfl, ?_⟩
    intro horder
    rw [List.append_nil] at horder
    exact ⟨horder, List.suffix_refl _⟩
  | cons path left =>
    obtain ⟨lock, hget, hlock⟩ | ⟨hnew, hlock⟩ := s.pathLock_cases path
    · simp only [proceed, hlock]
      exact ⟨rfl, fun _ h => h, fun _ _ h => h, .waiting path lock left held, rfl, rfl, rfl,
        fun horder => ⟨hget, horder⟩⟩
    · simp only [proceed, hlock]
      refine ⟨rfl, fun _ h => LockTable.make h hnew, ?_, .waiting path _ left held, rfl, rfl, rfl,
        fun horder => ⟨Dict.get?_set_self _ _ _, horder⟩⟩
      intro p lock hp
      have hne : p ≠ path := by
        rintro rfl
        rw [hnew] at hp
        cases hp
      show (s.locks.set path s.owners.length).get? p = some lock
      rw [Dict.get?_set_of_ne _ _ hne, hp]

/-! ### The invariant -/

/-- **The invariant of the engine.** -/
structure EngineState.Inv (X : XDelta) (K : List EngineCall) (s : EngineState) : Prop where
  table : s.Table fun i => (s.calls i).held
  follows : ∀ i call, K[i]? = some call → (s.calls i).Follows X s.locks call
  absent : ∀ i, K[i]? = none → s.calls i = .ready ∨ s.calls i = .ended

/-- Only a call of the list comes to an `await`. -/
theorem EngineState.Inv.exists_call {s : EngineState} (h : s.Inv X K) {i : Nat} {c : CallState}
    (hc : s.calls i = c) (hready : c ≠ .ready) (hended : c ≠ .ended) :
    ∃ call, K[i]? = some call := by
  refine Option.ne_none_iff_exists'.mp fun hnone => ?_
  obtain h | h := h.absent i hnone
  · exact hready (hc.symm.trans h)
  · exact hended (hc.symm.trans h)

theorem CallState.Follows.grows {locks locks' : Dict Str Nat} {call : EngineCall} {c : CallState}
    (h : c.Follows X locks call)
    (hgrows : ∀ p lock, locks.get? p = some lock → locks'.get? p = some lock) :
    c.Follows X locks' call := by
  cases c with
  | waiting path lock left held => exact ⟨hgrows path lock h.1, h.2⟩
  | inside held unsent => exact h
  | ready => trivial
  | ended => trivial

/-- What the calls hold when one of them has moved. -/
theorem held_update (calls : Nat → CallState) (i : Nat) (c : CallState) :
    (fun j => (Function.update calls i c j).held) =
      Function.update (fun j => (calls j).held) i c.held := by
  funext j
  exact Function.apply_update (fun _ c => CallState.held c) calls i c j

theorem EngineState.Inv.proceeded {s : EngineState} {i : Nat} {call : EngineCall}
    {held : List (Str × Nat)} {left : List Str} (hcall : K[i]? = some call)
    (htable : s.Table (Function.update (fun j => (s.calls j).held) i held))
    (horder : (held.map Prod.fst).reverse ++ left = call.lockOrder)
    (hfollows : ∀ j call, K[j]? = some call → j ≠ i → (s.calls j).Follows X s.locks call)
    (habsent : ∀ j, K[j]? = none → s.calls j = .ready ∨ s.calls j = .ended)
    (h : EngineState.Proceeded X s i call held left s') : s'.Inv X K := by
  obtain ⟨c, hcalls, hheld, -, hc⟩ := h.state
  refine ⟨?_, ?_, ?_⟩
  · rw [hcalls, held_update, hheld]
    exact h.table _ htable
  · -- the others see nothing but a table of locks that has grown
    intro j call' hj
    rw [hcalls]
    by_cases hji : j = i
    · subst hji
      rw [Function.update_self]
      obtain rfl : call = call' := Option.some.inj (hcall.symm.trans hj)
      exact hc horder
    · rw [Function.update_of_ne hji]
      exact (hfollows j call' hj hji).grows h.grows
  · intro j hj
    have hji : j ≠ i := by
      rintro rfl
      rw [hcall] at hj
      cases hj
    rw [hcalls, Function.update_of_ne hji]
    exact habsent j hj

/-- A call moves on without a look at the table of locks. -/
theorem EngineState.Inv.update (h : s.Inv X K) {i : Nat} {c : CallState}
    {owners : List (Option Nat)} (trace : List EngineEvent)
    (htable : LockTable s.locks owners (Function.update (fun j => (s.calls j).held) i c.held))
    (hfollows : ∀ call, K[i]? = some call → c.Follows X s.locks call)
    (habsent : K[i]? = none → c = .ready ∨ c = .ended) :
    EngineState.Inv X K { s with
      owners := owners
      calls := Function.update s.calls i c
      trace := trace } := by
  refine ⟨?_, ?_, ?_⟩
  · show LockTable s.locks owners fun j => (Function.update s.calls i c j).held
    rw [held_update]
    exact htable
  · intro j call hj
    show (Function.update s.calls i c j).Follows X s.locks call
    by_cases hji : j = i
    · subst hji
      rw [Function.update_self]
      exact hfollows call hj
    · rw [Function.update_of_ne hji]
      exact h.follows j call hj
  · intro j hj
    show Function.update s.calls i c j = .ready ∨ Function.update s.calls i c j = .ended
    by_cases hji : j = i
    · subst hji
      rw [Function.update_self]
      exact habsent hj
    · rw [Function.update_of_ne hji]
      exact h.absent j hj

/-- **Step lemma.** -/
theorem EngineState.Inv.moves (h : s.Inv X K) (hm : EngineState.Moves X K s s') : s'.Inv X K := by
  cases hm with
  | idle => exact h
  | @enter i call hcall hready =>
    -- it holds nothing yet, so the table is as it was
    have hnone : (s.calls i).held = [] := by rw [hready]; rfl
    refine EngineState.Inv.proceeded hcall ?_ rfl (fun j call hj _ => h.follows j call hj)
      h.absent (EngineState.proceeded X s i call [] call.lockOrder)
    rw [← hnone, Function.update_eq_self]
    exact h.table
  | @take i call path lock left held hcall hwaiting hfree =>
    have hcallI := h.follows i call hcall
    rw [hwaiting] at hcallI
    obtain ⟨hlock, horder⟩ := hcallI
    refine EngineState.Inv.proceeded (s := { s with owners := s.owners.set lock (some i) }) hcall
      ?_ ?_ (fun j call hj _ => h.follows j call hj) h.absent
      (EngineState.proceeded X _ i call ((path, lock) :: held) left)
    · -- the lock that is taken is the one of the next path in the order
      have htake := LockTable.take h.table hlock hfree i
      rw [show (s.calls i).held = held by rw [hwaiting]; rfl] at htake
      exact htake
    · rw [List.map_cons, List.reverse_cons, List.append_assoc]
      exact horder
  | @send i held m unsent hinside =>
    -- only what is left to be sent changes
    have hsame : (s.calls i).held = held := by rw [hinside]; rfl
    refine h.update _ ?_ (fun call hcall => ?_) fun hnone => ?_
    · show LockTable s.locks s.owners (Function.update (fun j => (s.calls j).held) i held)
      rw [← hsame, Function.update_eq_self]
      exact h.table
    · have hfollows := h.follows i call hcall
      rw [hinside] at hfollows
      exact ⟨hfollows.1, (List.suffix_cons m unsent).trans hfollows.2⟩
    · obtain ⟨call, hcall⟩ := h.exists_call hinside nofun nofun
      rw [hcall] at hnone
      cases hnone
  | leave i =>
    exact h.update _ (LockTable.release h.table i) (fun _ _ => trivial) fun _ => Or.inr rfl

theorem EngineState.inv_start (X : XDelta) (K : List EngineCall) : start.Inv X K where
  table := LockTable.empty
  follows _ _ _ := trivial
  absent _ _ := Or.inl rfl

/-! ### Refinement -/

/-- Strictly ascending locks, with the ones held and the next one apart. -/
theorem lt_of_ascending {order held : List Str} {path next : Str} {left : List Str}
    (hsorted : order.Pairwise (· < ·)) (horder : held.reverse ++ path :: next :: left = order) :
    ∀ k ∈ path :: held, k < next := by
  subst horder
  obtain ⟨-, hright, hcross⟩ := List.pairwise_append.mp hsorted
  intro k hk
  obtain rfl | hk := List.mem_cons.mp hk
  · exact (List.pairwise_cons.mp hright).1 next List.mem_cons_self
  · exact hcross k (List.mem_reverse.mpr hk) next (List.mem_cons_of_mem _ List.mem_cons_self)

theorem EngineState.abs_proceeded {i : Nat} {call : EngineCall} {held : List (Str × Nat)}
    {left : List Str} (h : Proceeded X s i call held left s') :
    s'.abs = ⟨Function.update s.abs.held i (held.map Prod.fst),
      Function.update s.abs.wants i left.head?⟩ := by
  obtain ⟨c, hcalls, hheld, hwanted, -⟩ := h.state
  unfold abs
  rw [hcalls, ← hheld, ← hwanted]
  congr 1
  · funext j
    exact Function.apply_update (fun _ c => (CallState.held c).map Prod.fst) s.calls i c j
  · funext j
    exact Function.apply_update (fun _ c => CallState.wanted c) s.calls i c j

theorem EngineState.abs_update (s : EngineState) (i : Nat) (c : CallState)
    (owners : List (Option Nat)) (trace : List EngineEvent) :
    EngineState.abs { s with
        owners := owners
        calls := Function.update s.calls i c
        trace := trace } =
      ⟨Function.update s.abs.held i (c.held.map Prod.fst),
        Function.update s.abs.wants i c.wanted⟩ := by
  unfold abs
  congr 1
  · funext j
    exact Function.apply_update (fun _ c => (CallState.held c).map Prod.fst) s.calls i c j
  · funext j
    exact Function.apply_update (fun _ c => CallState.wanted c) s.calls i c j

/-- **Refinement.** What a step does to the locks is a run of the threads that take them; the locks
are asked for in ascending order if every call has them in this order. -/
theorem EngineState.Moves.abs (h : s.Inv X K) (hm : EngineState.Moves X K s s') :
    ∃ bs, s'.abs = run Locks.step s.abs bs ∧
      ((∀ call ∈ K, call.lockOrder.Pairwise (· < ·)) →
        Guarded Locks.step Locks.Ascending s.abs bs) := by
  cases hm with
  | idle => exact ⟨[], rfl, fun _ => trivial⟩
  | @enter i call hcall hready =>
    have hnone : s.abs.held i = [] := abs_held hready
    have hwants : s.abs.wants i = none := abs_wants hready
    have habs := abs_proceeded (EngineState.proceeded X s i call [] call.lockOrder)
    rw [List.map_nil, ← hnone, Function.update_eq_self] at habs
    -- a call without paths asks for nothing, and any other for the first of its locks
    cases hlocks : call.lockOrder with
    | nil =>
      rw [hlocks] at habs
      refine ⟨[], ?_, fun _ => trivial⟩
      rw [habs, List.head?_nil, ← hwants, Function.update_eq_self]
      rfl
    | cons path left =>
      rw [hlocks] at habs
      refine ⟨[.request i path], habs, fun _ => ⟨?_, trivial⟩⟩
      intro k hk
      rw [hnone] at hk
      cases hk
  | @take i call path lock left held hcall hwaiting hfree =>
    have hfollows := h.follows i call hcall
    rw [hwaiting] at hfollows
    obtain ⟨hlock, horder⟩ := hfollows
    have hheld : s.abs.held i = held.map Prod.fst := abs_held hwaiting
    have hwants : s.abs.wants i = some path := abs_wants hwaiting
    have hgrant : Locks.step s.abs (.grant i) =
        ⟨Function.update s.abs.held i (path :: held.map Prod.fst),
          Function.update s.abs.wants i none⟩ := by
      rw [Locks.grant_of_free hwants fun j => LockTable.free h.table hlock hfree j, hheld]
    have habs : EngineState.abs (EngineState.proceed X
          { s with owners := s.owners.set lock (some i) } i call ((path, lock) :: held) left) =
        ⟨Function.update s.abs.held i (path :: held.map Prod.fst),
          Function.update s.abs.wants i left.head?⟩ :=
      abs_proceeded (EngineState.proceeded X _ i call ((path, lock) :: held) left)
    cases left with
    | nil =>
      refine ⟨[.grant i], ?_, fun _ => ⟨trivial, trivial⟩⟩
      rw [habs]
      exact hgrant.symm
    | cons next left =>
      -- the lock is got, and the next one is asked for
      refine ⟨[.grant i, .request i next], ?_, fun hsorted => ⟨trivial, ?_, trivial⟩⟩
      · rw [habs, run_cons, hgrant, run_cons, run_nil]
        simp only [Locks.step, Function.update_idem, List.head?_cons]
      · rw [hgrant]
        have hless := lt_of_ascending (hsorted call (List.mem_of_getElem? hcall)) horder
        simpa only [Locks.Ascending, Function.update_self] using hless
  | @send i held m unsent hinside =>
    -- what is held stays held
    refine ⟨[], ?_, fun _ => trivial⟩
    have hheld : s.abs.held i = held.map Prod.fst := abs_held hinside
    have hwants : s.abs.wants i = none := abs_wants hinside
    rw [abs_update]
    show (⟨Function.update s.abs.held i (held.map Prod.fst),
      Function.update s.abs.wants i none⟩ : Locks.State Nat Str) = s.abs
    rw [← hheld, ← hwants, Function.update_eq_self, Function.update_eq_self]
  | leave i =>
    refine ⟨[.leave i], ?_, fun _ => ⟨trivial, trivial⟩⟩
    exact abs_update s i .ended _ _

/-- **Run lemma.** Every run of the engine keeps its invariant, and is a run of threads that take
locks. -/
theorem EngineState.run_refines (X : XDelta) (K : List EngineCall) (as : List EngineAct) :
    (run (step X K) start as).Inv X K ∧
      ∃ bs, (run (step X K) start as).abs = run Locks.step Locks.start bs ∧
        ((∀ call ∈ K, call.lockOrder.Pairwise (· < ·)) →
          Guarded Locks.step Locks.Ascending Locks.start bs) := by
  induction as using List.reverseRecOn with
  | nil => exact ⟨inv_start X K, [], rfl, fun _ => trivial⟩
  | append_singleton as a ih =>
    obtain ⟨hinv, bs, habs, hasc⟩ := ih
    rw [run_append, run_cons, run_nil]
    have hmoves := step_moves X K (run (step X K) start as) a
    obtain ⟨bs', habs', hasc'⟩ := hmoves.abs hinv
    refine ⟨hinv.moves hmoves, bs ++ bs', ?_, ?_⟩
    · rw [habs', habs, run_append]
    · intro hsorted
      rw [guarded_append, ← habs]
      exact ⟨hasc hsorted, hasc' hsorted⟩

end Steps

/-! ### Per-path serialisation -/

/-- A write of the path is under way in the trace: its `TRANSFER_BEGIN` has gone out, and it has
not ended since. -/
def Open (trace : List EngineEvent) (i : Nat) (path : Str) : Prop :=
  ∃ pre post begin, trace = pre ++ .emitted i (.transferBegin begin) :: post ∧
    begin.entry.path = path ∧ .ended i ∉ post

/-- **Serialisation**: while a write of a path is under way, every message that names the path is
its own. -/
def Serialised (trace : List EngineEvent) : Prop :=
  ∀ pre post i j m path, trace = pre ++ .emitted j m :: post → Open pre i path →
    path ∈ m.paths → j = i

section Trace

variable {trace : List EngineEvent} {e : EngineEvent} {i : Nat} {path : Str}

/-- A list with one more element, seen from an element in it. -/
theorem concat_eq_append_cons {α : Type} {xs pre post : List α} {x e : α}
    (h : xs ++ [e] = pre ++ x :: post) :
    (xs = pre ∧ e = x ∧ post = []) ∨ ∃ post', xs = pre ++ x :: post' ∧ post = post' ++ [e] := by
  obtain rfl | ⟨post', b, rfl⟩ := List.eq_nil_or_concat post
  · obtain ⟨hxs, he⟩ := List.append_inj' h rfl
    exact Or.inl ⟨hxs, List.head_eq_of_cons_eq he, rfl⟩
  · rw [List.concat_eq_append] at h ⊢
    rw [← List.cons_append, ← List.append_assoc] at h
    obtain ⟨hxs, he⟩ := List.append_inj' h rfl
    exact Or.inr ⟨post', hxs, by rw [List.head_eq_of_cons_eq he]⟩

/-- A write under way began just now, or was under way and has not just ended. -/
theorem open_concat (h : Open (trace ++ [e]) i path) :
    (∃ begin, e = .emitted i (.transferBegin begin) ∧ begin.entry.path = path) ∨
      (Open trace i path ∧ e ≠ .ended i) := by
  obtain ⟨pre, post, begin, heq, hpath, hopen⟩ := h
  obtain ⟨-, he, -⟩ | ⟨post', htrace, rfl⟩ := concat_eq_append_cons heq
  · exact Or.inl ⟨begin, he, hpath⟩
  · refine Or.inr ⟨⟨pre, post', begin, htrace, hpath, ?_⟩, ?_⟩
    · exact fun hmem => hopen (List.mem_append_left _ hmem)
    · rintro rfl
      exact hopen (List.mem_append_right _ List.mem_cons_self)

theorem Serialised.concat (h : Serialised trace)
    (hnew : ∀ i j m path, e = .emitted j m → Open trace i path → path ∈ m.paths → j = i) :
    Serialised (trace ++ [e]) := by
  intro pre post i j m path heq hopen hname
  obtain ⟨rfl, he, -⟩ | ⟨post', htrace, -⟩ := concat_eq_append_cons heq
  · exact hnew i j m path he hopen hname
  · exact h pre post' i j m path htrace hopen hname

end Trace

/-- Every message of a call names only paths whose locks the call takes. -/
theorem EngineCall.mem_lockOrder {X : XDelta} {call : EngineCall} {m : AnyMsg}
    (hm : m ∈ call.script X) {path : Str} (hpath : path ∈ m.paths) : path ∈ call.lockOrder := by
  cases call with
  | sendWrite entry content baseContent tid =>
    have hscript : m ∈ (EngineCall.sendWrite entry content baseContent tid).messages X := hm
    simp only [EngineCall.messages] at hscript
    cases hprepare : preparePayload X entry content baseContent with
    | error text =>
      rw [hprepare] at hscript
      cases hscript
    | ok prepared =>
      obtain ⟨wireEntry, payload⟩ := prepared
      rw [hprepare] at hscript
      -- the copy of the entry keeps its path, and what follows `TRANSFER_BEGIN` names none
      have hwire : wireEntry.path = entry.path := by
        obtain ⟨rfl, -⟩ | ⟨base, hash, -, -, rfl, -⟩ := preparePayload_ok hprepare
        · rfl
        · rfl
      obtain rfl | hrest := List.mem_cons.mp hscript
      · rw [List.mem_singleton.mp hpath]
        exact List.mem_singleton.mpr hwire
      · obtain hchunk | hcommit := List.mem_append.mp hrest
        · obtain ⟨chunk, -, rfl⟩ := List.mem_map.mp hchunk
          cases hpath
        · rw [List.mem_singleton.mp hcommit] at hpath
          cases hpath
  | sendDelete path' nowNs =>
    obtain rfl := List.mem_singleton.mp (show m ∈ [_] from hm)
    exact hpath
  | sendRename oldPath newPath nowNs =>
    obtain rfl := List.mem_singleton.mp (show m ∈ [_] from hm)
    exact (List.perm_insertionSort _ _).mem_iff.mpr hpath

section Serialisation

variable {X : XDelta} {K : List EngineCall} {s s' : EngineState}

/-- A call that sends a message holds the lock of every path that the message names. -/
theorem EngineState.Inv.held_of_send (h : s.Inv X K) {i : Nat} {held : List (Str × Nat)}
    {m : AnyMsg} {unsent : List AnyMsg} (hinside : s.calls i = .inside held (m :: unsent))
    {path : Str} (hpath : path ∈ m.paths) : path ∈ s.abs.held i := by
  have hheld : s.abs.held i = held.map Prod.fst := abs_held hinside
  obtain ⟨call, hcall⟩ := h.exists_call hinside nofun nofun
  have hfollows := h.follows i call hcall
  rw [hinside] at hfollows
  have hm : m ∈ call.script X := hfollows.2.subset List.mem_cons_self
  rw [hheld, ← List.mem_reverse, hfollows.1]
  exact EngineCall.mem_lockOrder hm hpath

/-- Locks are kept until the call ends. -/
theorem EngineState.Moves.keeps (hm : EngineState.Moves X K s s') {i : Nat} {path : Str}
    (hheld : path ∈ s.abs.held i) (hends : s'.trace ≠ s.trace ++ [.ended i]) :
    path ∈ s'.abs.held i := by
  cases hm with
  | idle => exact hheld
  | @enter j call hcall hready =>
    rw [abs_proceeded (EngineState.proceeded X s j call [] call.lockOrder)]
    by_cases hij : i = j
    · -- it has just begun, and held nothing
      subst hij
      have hnone : s.abs.held i = [] := abs_held hready
      rw [hnone] at hheld
      cases hheld
    · show path ∈ Function.update s.abs.held j _ i
      rwa [Function.update_of_ne hij]
  | @take j call path' lock left held hcall hwaiting hfree =>
    rw [abs_proceeded (EngineState.proceeded X _ j call ((path', lock) :: held) left)]
    show path ∈ Function.update s.abs.held j _ i
    by_cases hij : i = j
    · subst hij
      have hbefore : s.abs.held i = held.map Prod.fst := abs_held hwaiting
      rw [Function.update_self]
      exact List.mem_cons_of_mem _ (hbefore ▸ hheld)
    · rwa [Function.update_of_ne hij]
  | @send j held m unsent hinside =>
    rw [abs_update]
    show path ∈ Function.update s.abs.held j _ i
    by_cases hij : i = j
    · subst hij
      have hbefore : s.abs.held i = held.map Prod.fst := abs_held hinside
      rw [Function.update_self]
      exact hbefore ▸ hheld
    · rwa [Function.update_of_ne hij]
  | leave j =>
    -- the end of the call itself is excluded
    have hij : i ≠ j := by
      rintro rfl
      exact hends rfl
    rw [show (s.leave j).abs = _ from abs_update s j .ended _ _]
    show path ∈ Function.update s.abs.held j _ i
    rwa [Function.update_of_ne hij]

/-- A step leaves the trace as it is, or adds the message that a call sends or the end of one. -/
theorem EngineState.Moves.trace (hm : EngineState.Moves X K s s') :
    s'.trace = s.trace ∨ (∃ i, s'.trace = s.trace ++ [.ended i]) ∨
      ∃ i held m unsent, s.calls i = .inside held (m :: unsent) ∧
        s'.trace = s.trace ++ [.emitted i m] := by
  cases hm with
  | idle => exact Or.inl rfl
  | @enter i call hcall hready => exact Or.inl (EngineState.proceeded X s i call [] _).trace
  | @take i call path lock left held hcall hwaiting hfree =>
    exact Or.inl (EngineState.proceeded X _ i call ((path, lock) :: held) left).trace
  | @send i held m unsent hinside => exact Or.inr (Or.inr ⟨i, held, m, unsent, hinside, rfl⟩)
  | leave i => exact Or.inr (Or.inl ⟨i, rfl⟩)

/-- A call with a write under way holds the lock of its path. -/
def EngineState.Guards (s : EngineState) : Prop :=
  ∀ i path, Open s.trace i path → path ∈ s.abs.held i

/-- **Step lemma.** -/
theorem EngineState.Guards.moves (h : s.Guards) (hinv : s.Inv X K)
    (hm : EngineState.Moves X K s s') : s'.Guards := by
  intro i path hopen
  have hcons : s.trace ≠ s.trace ++ [.ended i] := by
    intro heq
    have hlength := congrArg List.length heq
    simp at hlength
  obtain htrace | ⟨j, htrace⟩ | ⟨j, held, m, unsent, hinside, htrace⟩ := hm.trace
  · rw [htrace] at hopen
    exact hm.keeps (h i path hopen) (by rwa [htrace])
  · -- a call has ended, which is not the one that is still open
    rw [htrace] at hopen
    obtain ⟨begin, he, -⟩ | ⟨hold, hne⟩ := open_concat hopen
    · cases he
    · refine hm.keeps (h i path hold) ?_
      rw [htrace]
      intro heq
      exact hne (List.head_eq_of_cons_eq (List.append_cancel_left heq))
  · rw [htrace] at hopen
    have hends : s'.trace ≠ s.trace ++ [.ended i] := by
      rw [htrace]
      intro heq
      cases List.head_eq_of_cons_eq (List.append_cancel_left heq)
    obtain ⟨begin, he, hpath⟩ | ⟨hold, -⟩ := open_concat hopen
    · -- a transfer begins, and the lock of its path is held for it
      cases he
      exact hm.keeps (hinv.held_of_send hinside (List.mem_singleton.mpr hpath.symm)) hends
    · exact hm.keeps (h i path hold) hends

/-- No two calls hold the lock of one path. -/
theorem EngineState.run_exclusive (X : XDelta) (K : List EngineCall) (as : List EngineAct) :
    Locks.Exclusive (run (step X K) start as).abs := by
  obtain ⟨-, bs, habs, -⟩ := run_refines X K as
  rw [habs]
  refine Locks.run_exclusive ?_ bs
  intro t u l hl
  cases hl

/-- **Run lemma.** -/
theorem EngineState.run_guards (X : XDelta) (K : List EngineCall) (as : List EngineAct) :
    (run (step X K) start as).Guards := by
  induction as using List.reverseRecOn with
  | nil =>
    rintro i path ⟨pre, post, begin, heq, -⟩
    exact absurd heq (by simp [start])
  | append_singleton as a ih =>
    rw [run_append, run_cons, run_nil]
    exact ih.moves (run_refines X K as).1 (step_moves X K _ a)

/-- **Per-path serialisation.** In every interleaving, from the `TRANSFER_BEGIN` of a write to the
moment it has its reply or has failed, every message that names its path is its own. -/
theorem path_serialised (X : XDelta) (K : List EngineCall) (as : List EngineAct) :
    Serialised (run (EngineState.step X K) EngineState.start as).trace := by
  induction as using List.reverseRecOn with
  | nil =>
    intro pre post i j m path heq
    exact absurd heq (by simp [EngineState.start])
  | append_singleton as a ih =>
    obtain ⟨hinv, -⟩ := EngineState.run_refines X K as
    have hguards := EngineState.run_guards X K as
    have hexclusive := EngineState.run_exclusive X K as
    rw [run_append, run_cons, run_nil]
    have hm := EngineState.step_moves X K (run (EngineState.step X K) EngineState.start as) a
    obtain htrace | ⟨j, htrace⟩ | ⟨j, held, m, unsent, hinside, htrace⟩ := hm.trace
    · rw [htrace]
      exact ih
    · rw [htrace]
      refine ih.concat ?_
      rintro i j' m path ⟨⟩
    · rw [htrace]
      refine ih.concat ?_
      rintro i j' m' path ⟨⟩ hopen hname
      -- both the write and the sender hold the lock of the path
      exact hexclusive j i path (hinv.held_of_send hinside hname) (hguards i path hopen)

end Serialisation

/-! ### Deadlocks -/

/-- **A deadlock**: calls each of which waits for a lock that one of them holds. -/
def EngineState.Deadlocked (s : EngineState) (T : Set Nat) : Prop :=
  T.Nonempty ∧ ∀ i ∈ T, ∃ path lock left held, s.calls i = .waiting path lock left held ∧
    ∃ j ∈ T, s.owners[lock]? = some (some j)

/-- A rename of a path to itself. -/
def EngineCall.SelfRename : EngineCall → Prop
  | .sendRename oldPath newPath _ => oldPath = newPath
  | _ => False

section Deadlock

variable {X : XDelta} {K : List EngineCall} {s : EngineState}

/-- Every other call has its locks in ascending order. -/
theorem EngineCall.lockOrder_ascending {call : EngineCall} (h : ¬ call.SelfRename) :
    call.lockOrder.Pairwise (· < ·) := by
  cases call with
  | sendWrite entry content baseContent tid => exact List.pairwise_singleton _ _
  | sendDelete path nowNs => exact List.pairwise_singleton _ _
  | sendRename oldPath newPath nowNs =>
    have hne : oldPath ≠ newPath := h
    have hnodup : ([oldPath, newPath].insertionSort (· ≤ ·)).Nodup := by
      rw [(List.perm_insertionSort _ _).nodup_iff]
      simpa using hne
    exact (List.pairwise_insertionSort (· ≤ ·) [oldPath, newPath]).and hnodup |>.imp
      fun hle => lt_of_le_of_ne hle.1 hle.2

/-- A deadlock of the calls is one of the threads that take locks. -/
theorem EngineState.Inv.deadlocked (h : s.Inv X K) {T : Set Nat} (hT : s.Deadlocked T) :
    Locks.Deadlocked s.abs T ∧ T.Finite := by
  obtain ⟨hne, hwaits⟩ := hT
  have hcalls : ∀ i ∈ T, ∃ call, K[i]? = some call := by
    intro i hi
    obtain ⟨path, lock, left, held, hwaiting, -⟩ := hwaits i hi
    exact h.exists_call hwaiting nofun nofun
  refine ⟨⟨hne, ?_⟩, ?_⟩
  · intro i hi
    obtain ⟨path, lock, left, held, hwaiting, j, hj, howner⟩ := hwaits i hi
    obtain ⟨call, hcall⟩ := hcalls i hi
    have hfollows := h.follows i call hcall
    rw [hwaiting] at hfollows
    refine ⟨path, abs_wants hwaiting, j, hj, ?_⟩
    -- the lock is the one of the path, for the call that waits and for the one that holds it
    obtain ⟨p, hp⟩ := h.table.owned j lock howner
    obtain rfl : p = path := h.table.apart p path lock (h.table.holds j p lock hp).1 hfollows.1
    exact List.mem_map_of_mem hp
  · refine (Set.finite_Iio K.length).subset ?_
    intro i hi
    obtain ⟨call, hcall⟩ := hcalls i hi
    exact (List.getElem?_eq_some_iff.mp hcall).1

/-- A rename of a path to itself comes to wait for a lock that it holds. -/
theorem EngineState.deadlocked_of_selfRename {i : Nat} {path : Str} {nowNs : Int}
    (hcall : K[i]? = some (.sendRename path path nowNs)) :
    (run (step X K) start [.start i, .acquire i]).Deadlocked {i} := by
  have horder : (EngineCall.sendRename path path nowNs).lockOrder = [path, path] := by
    simp [EngineCall.lockOrder, List.insertionSort]
  -- the first lock is made and waited for, and behind it the same path once more
  have hfirst : step X K start (.start i) =
      { start with
        locks := Dict.empty.set path 0
        owners := [none]
        calls := Function.update start.calls i (.waiting path 0 [path] []) } := by
    simp only [step, hcall]
    show proceed X start i (.sendRename path path nowNs) [] _ = _
    rw [horder]
    rfl
  have hsecond : step X K (step X K start (.start i)) (.acquire i) =
      { start with
        locks := Dict.empty.set path 0
        owners := [some i]
        calls := Function.update start.calls i (.waiting path 0 [] [(path, 0)]) } := by
    rw [hfirst]
    simp only [step, hcall, Function.update_self, List.getElem?_cons_zero, if_true, proceed,
      pathLock, Dict.get?_set_self, Function.update_idem, List.set_cons_zero]
  rw [run_cons, run_cons, run_nil, hsecond]
  refine ⟨Set.singleton_nonempty i, ?_⟩
  rintro j rfl
  exact ⟨path, 0, [], [(path, 0)], Function.update_self .., j, rfl, rfl⟩

/-- **Deadlock freedom.** Whatever the interleaving, calls do not come to wait for each other
exactly when none of them renames a path to itself. -/
theorem deadlock_free_iff (X : XDelta) (K : List EngineCall) :
    (∀ as T, ¬ (run (EngineState.step X K) EngineState.start as).Deadlocked T) ↔
      ∀ call ∈ K, ¬ call.SelfRename := by
  constructor
  · intro hfree call hmem hself
    obtain ⟨i, hcall⟩ := List.mem_iff_getElem?.mp hmem
    cases call with
    | sendRename oldPath newPath nowNs =>
      obtain rfl : oldPath = newPath := hself
      exact hfree _ _ (EngineState.deadlocked_of_selfRename hcall)
    | sendWrite entry content baseContent tid => exact hself
    | sendDelete path nowNs => exact hself
  · intro hnone as T hdeadlocked
    obtain ⟨hinv, bs, habs, hasc⟩ := EngineState.run_refines X K as
    obtain ⟨hlocks, hfinite⟩ := hinv.deadlocked hdeadlocked
    rw [habs] at hlocks
    refine Locks.run_not_deadlocked ?_ (hasc ?_) hfinite hlocks
    · intro t l hwants
      cases hwants
    · exact fun call hmem => EngineCall.lockOrder_ascending (hnone call hmem)

end Deadlock

namespace Sample

/-- `send_rename("a", "a")` gets the lock of its path and waits for it. -/
theorem rename_waits_for_itself :
    (run (EngineState.step xdelta [.sendRename (lit "a") (lit "a") 0]) EngineState.start
      [.start 0, .acquire 0]).Deadlocked {0} :=
  EngineState.deadlocked_of_selfRename rfl

end Sample

end Chiralite
