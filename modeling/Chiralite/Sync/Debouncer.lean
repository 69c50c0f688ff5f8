import Mathlib.Algebra.Order.Field.Rat
import Mathlib.Tactic.Linarith
import Chiralite.Fs.Jail
import Chiralite.Sync.Watcher

/-!
# The debouncer and its timers

`_Debouncer` of `sync/watcher.py`, with every timer that it ever creates. A report of a write arms a
timer, and a later report of the same path cancels it and arms another; a bulk flush cancels all of
them; an immediate flush drops the entry and leaves the timer behind. `Timer.cancel` comes too late
for a callback that is waiting for the lock already. So the callback of any timer that has not run
may run here, cancelled or not, and it takes whatever entry its path has by then.

The methods are atomic: they run under the lock, and what they pass on (`on_flush`,
`on_rename_flush`) is their result, in order. A `Dispatch` is one call of `_dispatch`. It carries
the numbers of the calls it goes back to, and so does an entry; nothing is decided by these.
Times are exact numbers of seconds.

`Armed` is the invariant of the timers: a path that is dirty has a timer of its own that is neither
cancelled nor done. From it comes that no write is forgotten (`dirty_armed`). `cap_holds_iff` is
about the delays: an entry that is made is armed with the whole debounce time, without a look at
the cap.
-/

namespace Chiralite

open Py Posix

namespace Debouncer

open Watcher (FlushOp)

/-! ### The program -/

/-- The settings of a debouncer. -/
structure Config where
  /-- `_root`, resolved. -/
  root : Location
  /-- `_spec.match_file`. -/
  blocked : Str → Bool
  debounceMs : Int
  maxDelayMs : Int
  maxDirtyFiles : Int

/-- `_debounce_s`. -/
def Config.debounceS (C : Config) : ℚ := C.debounceMs / 1000

/-- `_max_delay_s`. -/
def Config.maxDelayS (C : Config) : ℚ := C.maxDelayMs / 1000

/-- `str` of the relative path with some parts. -/
def relText (parts : List Str) : Str :=
  if parts = [] then dot else [sep].intercalate parts

/-- `_rel`: `Path(abs_path).relative_to(self._root)`, `none` for `ValueError`. -/
def Config.rel (C : Config) (absPath : Str) : Option Str :=
  if ([sep] :: C.root) <+: pathParts absPath then
    some (relText ((pathParts absPath).drop ([sep] :: C.root).length))
  else none

/-- The relative path of a report, unless `rel is None or self._is_blocked(rel)`. -/
def Config.tracked (C : Config) (absPath : Str) : Option Str :=
  (C.rel absPath).filter fun rel => !C.blocked rel

/-- A `threading.Timer` for `_timer_fired(rel)`. -/
structure Timer where
  rel : Str
  /-- When it was started. -/
  armedAt : ℚ
  delay : ℚ
  cancelled : Bool := false
  /-- The callback has run. -/
  ran : Bool := false

/-- When the timer is to fire. -/
def Timer.deadline (t : Timer) : ℚ := t.armedAt + t.delay

/-- An entry of `_dirty`, with the number of its timer and the calls that it goes back to. -/
structure Entry where
  op : FlushOp
  tFirst : ℚ
  timer : Nat
  calls : List Nat

/-- The state of a debouncer. -/
structure State where
  /-- `_dirty`. -/
  dirty : Dict Str Entry := Dict.empty
  /-- `_renames`. -/
  renames : Dict Str (Str × Str) := Dict.empty
  /-- Every timer that was created. -/
  timers : List Timer := []
  /-- How many calls there were. -/
  calls : Nat := 0

/-- What is passed on to the watcher. -/
inductive Flush where
  /-- `on_flush(rel, op)`. -/
  | file (rel : Str) (op : FlushOp)
  /-- `on_rename_flush(old, new)`. -/
  | rename (old new : Str)
  deriving DecidableEq

/-- A call of `_dispatch(rel, op)`: what it passes on, and the calls that it goes back to. -/
structure Dispatch where
  rel : Str
  flush : Flush
  calls : List Nat
  deriving DecidableEq

/-- `timer.cancel()`. -/
def State.cancelTimer (s : State) (k : Nat) : State :=
  { s with timers := s.timers.modify k fun t => { t with cancelled := true } }

/-- `_dispatch`. -/
def dispatch (s : State) (rel : Str) (op : FlushOp) (calls : List Nat) : State × Dispatch :=
  if op = .rename then
    match s.renames.get? rel with
    | some (old, new) => ({ s with renames := s.renames.erase rel }, ⟨rel, .rename old new, calls⟩)
    | none => (s, ⟨rel, .file rel .write, calls⟩)
  else (s, ⟨rel, .file rel op, calls⟩)

/-- The loop of `_flush_all_locked`. -/
def flushItems : List (Str × Entry) → State → State × List Dispatch
  | [], s => (s, [])
  | (rel, e) :: items, s =>
    let (s, d) := dispatch (s.cancelTimer e.timer) rel e.op e.calls
    let (s, ds) := flushItems items s
    (s, d :: ds)

/-- `_flush_all_locked`. -/
def flushAllLocked (s : State) : State × List Dispatch :=
  flushItems s.dirty.items { s with dirty := Dict.empty }

/-- The delay of `_schedule`: the entry that exists is given what is left of the cap. -/
def Config.delay (C : Config) (existing : Option Entry) (now : ℚ) : ℚ :=
  match existing with
  | some e => min C.debounceS (max (C.maxDelayS - (now - e.tFirst)) 0)
  | none => C.debounceS

/-- The entry and the timer that `_schedule` makes. -/
def arm (C : Config) (s : State) (now : ℚ) (rel : Str) (op : FlushOp) : State :=
  let existing := s.dirty.get? rel
  let s :=
    match existing with
    | some e => s.cancelTimer e.timer
    | none => s
  { s with
    dirty := s.dirty.set rel
      { op := op
        tFirst := (existing.map Entry.tFirst).getD now
        timer := s.timers.length
        calls := (existing.map Entry.calls).getD [] ++ [s.calls] }
    timers := s.timers ++ [⟨rel, now, C.delay existing now, false, false⟩] }

/-- `_schedule`. -/
def schedule (C : Config) (s : State) (now : ℚ) (rel : Str) (op : FlushOp) :
    State × List Dispatch :=
  let s := arm C s now rel op
  if (s.dirty.items.length : Int) > C.maxDirtyFiles then flushAllLocked s else (s, [])

/-- `_cancel`. -/
def cancel (s : State) (rel : Str) : State :=
  let s :=
    match s.dirty.get? rel with
    | some e => { s with dirty := s.dirty.erase rel }.cancelTimer e.timer
    | none => s
  { s with renames := s.renames.erase rel }

/-- `_flush_now`. The timer of an entry that is dropped here is not cancelled. -/
def flushNow (s : State) (rel : Str) (op : FlushOp) : State × List Dispatch :=
  let (s, d) := dispatch { s with dirty := s.dirty.erase rel } rel op [s.calls]
  (s, [d])

/-- `_timer_fired`, the part under the lock and what it dispatches after it. -/
def timerFired (s : State) (rel : Str) : State × List Dispatch :=
  match s.dirty.get? rel with
  | none => (s, [])
  | some e =>
    let (s, d) := dispatch { s with dirty := s.dirty.erase rel } rel e.op e.calls
    (s, [d])

/-- What a debouncer is called with. -/
inductive Call where
  | onWrite (absPath : Str)
  | onDelete (absPath : Str)
  | onRename (absSrc absDst : Str)
  | flushAll
  /-- The callback of the timer of a number. -/
  | timer (k : Nat)
  deriving DecidableEq

/-- `on_write`. -/
def onWrite (C : Config) (s : State) (now : ℚ) (absPath : Str) : State × List Dispatch :=
  match C.tracked absPath with
  | none => (s, [])
  | some rel => schedule C s now rel .write

/-- `on_delete`. -/
def onDelete (C : Config) (s : State) (absPath : Str) : State × List Dispatch :=
  match C.tracked absPath with
  | none => (s, [])
  | some rel => flushNow (cancel s rel) rel .delete

/-- `on_rename`. -/
def onRename (C : Config) (s : State) (now : ℚ) (absSrc absDst : Str) : State × List Dispatch :=
  match C.tracked absSrc, C.tracked absDst with
  | none, none => (s, [])
  -- from outside the silo: as a new write
  | none, some dst => schedule C s now dst .write
  -- out of the silo: as a delete
  | some src, none => flushNow (cancel s src) src .delete
  | some src, some dst =>
    let s := cancel s src
    flushNow { s with renames := s.renames.set dst (src, dst) } dst .rename

/-- The callback of a timer: it runs at most once, and also when `cancel` came too late. -/
def onTimer (s : State) (k : Nat) : State × List Dispatch :=
  match s.timers[k]? with
  | none => (s, [])
  | some t =>
    if t.ran then (s, [])
    else timerFired { s with timers := s.timers.modify k fun t => { t with ran := true } } t.rel

/-- One call, at a time. -/
def call (C : Config) (s : State) (now : ℚ) (c : Call) : State × List Dispatch :=
  let (s, ds) :=
    match c with
    | .onWrite absPath => onWrite C s now absPath
    | .onDelete absPath => onDelete C s absPath
    | .onRename absSrc absDst => onRename C s now absSrc absDst
    | .flushAll => flushAllLocked s
    | .timer k => onTimer s k
  ({ s with calls := s.calls + 1 }, ds)

/-! ### What a call can do -/

/-- Only writes are held back. -/
def OnlyWrites (s : State) : Prop := ∀ rel e, s.dirty.get? rel = some e → e.op = .write

/-- The timers, when that of the entry of a path is cancelled. -/
def State.timersWithout (s : State) (rel : Str) : List Timer :=
  match s.dirty.get? rel with
  | some e => (s.cancelTimer e.timer).timers
  | none => s.timers

/-- The state after a bulk flush. -/
def State.flushed (s : State) : State :=
  { s with
    dirty := Dict.empty
    timers := s.dirty.items.foldl
      (fun timers item => timers.modify item.2.timer fun t => { t with cancelled := true })
      s.timers }

/-- What a bulk flush passes on. -/
def State.heldBack (s : State) : List Dispatch :=
  s.dirty.items.map fun item => ⟨item.1, .file item.1 .write, item.2.calls⟩

/-- A call that asks for a write of a path. -/
def AsksWrite (C : Config) (c : Call) (rel : Str) : Prop :=
  (∃ absPath, c = .onWrite absPath ∧ C.tracked absPath = some rel) ∨
    ∃ absSrc absDst, c = .onRename absSrc absDst ∧ C.tracked absSrc = none ∧
      C.tracked absDst = some rel

/-- A call that asks for a delete of a path. -/
def AsksDelete (C : Config) (c : Call) (rel : Str) : Prop :=
  (∃ absPath, c = .onDelete absPath ∧ C.tracked absPath = some rel) ∨
    ∃ absSrc absDst, c = .onRename absSrc absDst ∧ C.tracked absSrc = some rel ∧
      C.tracked absDst = none

/-- A call that asks for a rename. -/
def AsksRename (C : Config) (c : Call) (src dst : Str) : Prop :=
  ∃ absSrc absDst, c = .onRename absSrc absDst ∧ C.tracked absSrc = some src ∧
    C.tracked absDst = some dst

/-- **What a call can do**, up to the number of the call: all its outcomes when only writes are
held back. -/
inductive Does (C : Config) (s : State) (now : ℚ) (c : Call) : State → List Dispatch → Prop
  /-- Nothing is asked for, or the timer is none or has run. -/
  | nothing : Does C s now c s []
  /-- A write is held back. -/
  | armed {rel : Str} (hc : AsksWrite C c rel)
      (hroom : ((arm C s now rel .write).dirty.items.length : Int) ≤ C.maxDirtyFiles) :
      Does C s now c (arm C s now rel .write) []
  /-- There is no room for another, and all are passed on. -/
  | overflowed {rel : Str} (hc : AsksWrite C c rel) :
      Does C s now c (arm C s now rel .write).flushed (arm C s now rel .write).heldBack
  | deleted {rel : Str} (hc : AsksDelete C c rel) :
      Does C s now c
        { s with
          dirty := s.dirty.erase rel
          renames := s.renames.erase rel
          timers := s.timersWithout rel }
        [⟨rel, .file rel .delete, [s.calls]⟩]
  /-- The timer of the destination is left behind. -/
  | renamed {src dst : Str} (hc : AsksRename C c src dst) :
      Does C s now c
        { s with
          dirty := (s.dirty.erase src).erase dst
          renames := (s.renames.erase src).erase dst
          timers := s.timersWithout src }
        [⟨dst, .rename src dst, [s.calls]⟩]
  | flushed (hc : c = .flushAll) : Does C s now c s.flushed s.heldBack
  /-- A timer that finds no entry. -/
  | idle {k : Nat} {t : Timer} (hc : c = .timer k) (ht : s.timers[k]? = some t)
      (hran : t.ran = false) (hnone : s.dirty.get? t.rel = none) :
      Does C s now c
        { s with timers := s.timers.modify k fun t => { t with ran := true } } []
  | fired {k : Nat} {t : Timer} {e : Entry} (hc : c = .timer k) (ht : s.timers[k]? = some t)
      (hran : t.ran = false) (he : s.dirty.get? t.rel = some e) :
      Does C s now c
        { s with
          dirty := s.dirty.erase t.rel
          timers := s.timers.modify k fun t => { t with ran := true } }
        [⟨t.rel, .file t.rel .write, e.calls⟩]

section Inversion

variable {C : Config} {s : State} {now : ℚ} {c : Call}

theorem dispatch_of_ne {rel : Str} {op : FlushOp} {calls : List Nat} (h : op ≠ .rename) :
    dispatch s rel op calls = (s, ⟨rel, .file rel op, calls⟩) := if_neg h

theorem flushItems_eq {items : List (Str × Entry)} (h : ∀ item ∈ items, item.2.op = .write) :
    flushItems items s =
      ({ s with
        timers := items.foldl
          (fun timers item => timers.modify item.2.timer fun t => { t with cancelled := true })
          s.timers },
        items.map fun item => ⟨item.1, .file item.1 .write, item.2.calls⟩) := by
  induction items generalizing s with
  | nil => rfl
  | cons item items ih =>
    have hop : item.2.op = .write := h item List.mem_cons_self
    rw [flushItems, hop, dispatch_of_ne (by decide)]
    dsimp only
    rw [ih fun i hi => h i (List.mem_cons_of_mem _ hi)]
    rfl

theorem flushAllLocked_eq (h : OnlyWrites s) : flushAllLocked s = (s.flushed, s.heldBack) := by
  refine flushItems_eq fun item hitem => h item.1 item.2 ?_
  exact (Dict.mem_items_iff s.dirty).mp hitem

theorem arm_eq (rel : Str) (op : FlushOp) :
    arm C s now rel op =
      { s with
        dirty := s.dirty.set rel
          { op := op
            tFirst := ((s.dirty.get? rel).map Entry.tFirst).getD now
            timer := s.timers.length
            calls := ((s.dirty.get? rel).map Entry.calls).getD [] ++ [s.calls] }
        timers := s.timersWithout rel ++
          [⟨rel, now, C.delay (s.dirty.get? rel) now, false, false⟩] } := by
  unfold arm State.timersWithout
  cases s.dirty.get? rel with
  | none => rfl
  | some e => simp [State.cancelTimer]

theorem cancel_eq (rel : Str) :
    cancel s rel =
      { s with
        dirty := s.dirty.erase rel
        renames := s.renames.erase rel
        timers := s.timersWithout rel } := by
  unfold cancel State.timersWithout
  cases h : s.dirty.get? rel with
  | none =>
    dsimp only
    rw [Dict.erase_of_get?_eq_none h]
  | some e => rfl

theorem onlyWrites_arm (h : OnlyWrites s) (rel : Str) : OnlyWrites (arm C s now rel .write) := by
  intro p e hp
  rw [arm_eq] at hp
  by_cases hne : p = rel
  · rw [hne, Dict.get?_set_self] at hp
    cases hp
    rfl
  · rw [Dict.get?_set_of_ne _ _ hne] at hp
    exact h p e hp

theorem does_schedule {rel : Str} (h : OnlyWrites s) (hc : AsksWrite C c rel) :
    Does C s now c (schedule C s now rel .write).1 (schedule C s now rel .write).2 := by
  unfold schedule
  dsimp only
  split
  · rw [flushAllLocked_eq (onlyWrites_arm h rel)]
    exact .overflowed hc
  · rename_i hroom
    exact .armed hc (not_lt.mp hroom)

theorem does_delete {rel : Str} (hc : AsksDelete C c rel) :
    Does C s now c (flushNow (cancel s rel) rel .delete).1
      (flushNow (cancel s rel) rel .delete).2 := by
  rw [cancel_eq, flushNow, dispatch_of_ne (by decide), Dict.erase_erase_self]
  exact .deleted hc

theorem does_timer (h : OnlyWrites s) (k : Nat) :
    Does C s now (.timer k) (onTimer s k).1 (onTimer s k).2 := by
  unfold onTimer
  split
  · exact .nothing
  rename_i t ht
  split
  · exact .nothing
  rename_i hran
  rw [Bool.not_eq_true] at hran
  unfold timerFired
  cases he : s.dirty.get? t.rel with
  | none => exact .idle rfl ht hran he
  | some e =>
    dsimp only
    rw [h _ e he, dispatch_of_ne (by decide)]
    exact .fired rfl ht hran he

/-- **Every call does one of these.** -/
theorem call_does (C : Config) (now : ℚ) (h : OnlyWrites s) (c : Call) :
    ∃ s', Does C s now c s' (call C s now c).2 ∧
      (call C s now c).1 = { s' with calls := s'.calls + 1 } := by
  refine ⟨_, ?_, rfl⟩
  cases c with
  | onWrite absPath =>
    show Does C s now _ (onWrite C s now absPath).1 (onWrite C s now absPath).2
    unfold onWrite
    split
    · exact .nothing
    · rename_i rel hrel
      exact does_schedule h (Or.inl ⟨absPath, rfl, hrel⟩)
  | onDelete absPath =>
    show Does C s now _ (onDelete C s absPath).1 (onDelete C s absPath).2
    unfold onDelete
    split
    · exact .nothing
    · rename_i rel hrel
      exact does_delete (Or.inl ⟨absPath, rfl, hrel⟩)
  | onRename absSrc absDst =>
    show Does C s now _ (onRename C s now absSrc absDst).1 (onRename C s now absSrc absDst).2
    unfold onRename
    split
    · exact .nothing
    · -- moved in from the outside, which is a write
      rename_i dst hsrc hdst
      exact does_schedule h (Or.inr ⟨absSrc, absDst, rfl, hsrc, hdst⟩)
    · -- moved out, which is a delete
      rename_i src hsrc hdst
      exact does_delete (Or.inr ⟨absSrc, absDst, rfl, hsrc, hdst⟩)
    · -- the rename finds the pair that was just put there
      rename_i src dst hsrc hdst
      have hdoes : Does C s now (.onRename absSrc absDst) _ _ :=
        .renamed ⟨absSrc, absDst, rfl, hsrc, hdst⟩
      rw [cancel_eq]
      dsimp only
      rw [flushNow, dispatch, if_pos rfl]
      simpa only [Dict.get?_set_self, Dict.erase_set_self] using hdoes
  | flushAll =>
    show Does C s now _ (flushAllLocked s).1 (flushAllLocked s).2
    rw [flushAllLocked_eq h]
    exact .flushed rfl
  | timer k => exact does_timer h k

end Inversion

/-! ### Runs -/

/-- A call and its time. -/
structure Step where
  now : ℚ
  call : Call

/-- A debouncer and all that it has passed on. -/
structure Trace where
  state : State := {}
  passed : List Dispatch := []

def step (C : Config) (x : Trace) (a : Step) : Trace where
  state := (call C x.state a.now a.call).1
  passed := x.passed ++ (call C x.state a.now a.call).2

/-! ### The invariant of the timers -/

/-- A timer of the path that is started, not cancelled, and whose callback has not run. -/
def State.Pending (s : State) (k : Nat) (rel : Str) : Prop :=
  ∃ t, s.timers[k]? = some t ∧ t.rel = rel ∧ t.cancelled = false ∧ t.ran = false

/-- **Dirty paths have a pending timer.** -/
structure Armed (s : State) : Prop where
  writes : OnlyWrites s
  pending : ∀ rel e, s.dirty.get? rel = some e → s.Pending e.timer rel

section Timers

variable {C : Config} {s s' : State} {now : ℚ} {c : Call} {ds : List Dispatch} {rel p : Str}
  {e : Entry}

/-- Cancelling the timer of one path leaves those of the others. -/
theorem Armed.timersWithout (h : Armed s) (hp : s.dirty.get? p = some e) (hne : p ≠ rel) :
    (s.timersWithout rel)[e.timer]? = s.timers[e.timer]? := by
  unfold State.timersWithout
  split
  · rename_i e' he'
    obtain ⟨t, ht, hrel, -⟩ := h.pending p e hp
    obtain ⟨t', ht', hrel', -⟩ := h.pending rel e' he'
    -- timers of two paths are different
    have hk : e'.timer ≠ e.timer := by
      intro heq
      rw [heq, ht] at ht'
      cases ht'
      exact hne (hrel.symm.trans hrel')
    exact List.getElem?_modify_ne _ _ hk
  · rfl

theorem length_timersWithout : (s.timersWithout rel).length = s.timers.length := by
  unfold State.timersWithout State.cancelTimer
  split
  · exact List.length_modify ..
  · rfl

theorem Armed.arm (h : Armed s) (rel : Str) : Armed (arm C s now rel .write) where
  writes := onlyWrites_arm h.writes rel
  pending p e hp := by
    rw [arm_eq] at hp ⊢
    by_cases hne : p = rel
    · -- the new timer is the last one
      rw [hne, Dict.get?_set_self] at hp
      cases hp
      have hlast := List.getElem?_concat_length (l := s.timersWithout rel)
        (a := (⟨rel, now, C.delay (s.dirty.get? rel) now, false, false⟩ : Timer))
      rw [length_timersWithout] at hlast
      exact ⟨_, hlast, hne.symm, rfl, rfl⟩
    · rw [Dict.get?_set_of_ne _ _ hne] at hp
      obtain ⟨t, ht, hrest⟩ := h.pending p e hp
      refine ⟨t, ?_, hrest⟩
      rw [← h.timersWithout hp hne] at ht
      exact (List.getElem?_append_left (List.getElem?_eq_some_iff.mp ht).1).trans ht

/-- A callback that runs is of another path than what is still dirty. -/
theorem Armed.ran (h : Armed s) {k : Nat} {t : Timer} (ht : s.timers[k]? = some t)
    (hp : s.dirty.get? p = some e) (hne : p ≠ t.rel) :
    ({ s with timers := s.timers.modify k fun t => { t with ran := true } } : State).Pending
      e.timer p := by
  obtain ⟨t', ht', hrest⟩ := h.pending p e hp
  have hk : k ≠ e.timer := by
    rintro rfl
    rw [ht] at ht'
    cases ht'
    exact hne hrest.1.symm
  exact ⟨t', (List.getElem?_modify_ne _ _ hk).trans ht', hrest⟩

/-- **One call keeps the timers armed.** -/
theorem Does.armed_of (hdoes : Does C s now c s' ds) (h : Armed s) : Armed s' := by
  -- a state in which nothing is dirty
  have hempty : ∀ s : State, s.dirty = Dict.empty → Armed s := by
    intro s hs
    refine ⟨fun rel e hget => ?_, fun rel e hget => ?_⟩
    · rw [hs] at hget
      cases hget
    · rw [hs] at hget
      cases hget
  cases hdoes with
  | nothing => exact h
  | armed => exact h.arm _
  | overflowed => exact hempty _ rfl
  | deleted =>
    refine ⟨fun p e hp => ?_, fun p e hp => ?_⟩
    · exact h.writes p e ((Dict.get?_erase_eq_some_iff _).mp hp).2
    · obtain ⟨hne, hp⟩ := (Dict.get?_erase_eq_some_iff _).mp hp
      obtain ⟨t, ht, hrest⟩ := h.pending p e hp
      exact ⟨t, (h.timersWithout hp hne).trans ht, hrest⟩
  | renamed =>
    have hback : ∀ {p e src dst}, ((s.dirty.erase src).erase dst).get? p = some e →
        p ≠ src ∧ s.dirty.get? p = some e := by
      intro p e src dst hp
      exact (Dict.get?_erase_eq_some_iff _).mp ((Dict.get?_erase_eq_some_iff _).mp hp).2
    refine ⟨fun p e hp => h.writes p e (hback hp).2, fun p e hp => ?_⟩
    obtain ⟨hne, hp⟩ := hback hp
    obtain ⟨t, ht, hrest⟩ := h.pending p e hp
    exact ⟨t, (h.timersWithout hp hne).trans ht, hrest⟩
  | flushed => exact hempty _ rfl
  | idle _ ht _ hnone =>
    refine ⟨h.writes, fun p e hp => h.ran ht hp ?_⟩
    rintro rfl
    rw [hnone] at hp
    cases hp
  | fired _ ht =>
    refine ⟨fun p e hp => h.writes p e ((Dict.get?_erase_eq_some_iff _).mp hp).2, fun p e hp => ?_⟩
    obtain ⟨hne, hp⟩ := (Dict.get?_erase_eq_some_iff _).mp hp
    exact h.ran ht hp hne

theorem Armed.call (h : Armed s) (C : Config) (now : ℚ) (c : Call) :
    Armed (call C s now c).1 := by
  obtain ⟨s', hdoes, heq⟩ := call_does C now h.writes c
  have h' := hdoes.armed_of h
  rw [heq]
  exact ⟨h'.writes, h'.pending⟩

/-- **One call keeps within the limit.** -/
theorem Does.length_le (hdoes : Does C s now c s' ds) (hmax : 0 ≤ C.maxDirtyFiles)
    (h : (s.dirty.items.length : Int) ≤ C.maxDirtyFiles) :
    (s'.dirty.items.length : Int) ≤ C.maxDirtyFiles := by
  cases hdoes with
  | nothing => exact h
  | armed _ hroom => exact hroom
  | overflowed => exact hmax
  | deleted =>
    exact le_trans (Int.ofNat_le.mpr (s.dirty.length_items_erase_le _)) h
  | renamed =>
    refine le_trans (Int.ofNat_le.mpr ?_) h
    exact (Dict.length_items_erase_le _ _).trans (Dict.length_items_erase_le _ _)
  | flushed => exact hmax
  | idle => exact h
  | fired =>
    exact le_trans (Int.ofNat_le.mpr (s.dirty.length_items_erase_le _)) h

end Timers

/-! ### No write is forgotten -/

/-- An `on_delete` or an `on_rename` that names a path. -/
def Overrides (C : Config) (c : Call) (rel : Str) : Prop :=
  (∃ absPath, c = .onDelete absPath ∧ C.tracked absPath = some rel) ∨
    ∃ absSrc absDst, c = .onRename absSrc absDst ∧
      (C.tracked absSrc = some rel ∨ C.tracked absDst = some rel)

section Writes

variable {C : Config} {s s' : State} {now : ℚ} {c : Call} {ds : List Dispatch} {rel : Str}

theorem AsksDelete.overrides (h : AsksDelete C c rel) : Overrides C c rel := by
  rcases h with hdelete | ⟨absSrc, absDst, hc, hsrc, -⟩
  · exact Or.inl hdelete
  · exact Or.inr ⟨absSrc, absDst, hc, Or.inl hsrc⟩

/-- What is dirty is passed on by a bulk flush. -/
theorem mem_heldBack (h : s.dirty.get? rel ≠ none) : ∃ d ∈ s.heldBack, d.rel = rel := by
  obtain ⟨e, he⟩ := Option.ne_none_iff_exists'.mp h
  exact ⟨_, List.mem_map_of_mem ((s.dirty.mem_items_iff).mpr he), rfl⟩

theorem arm_keeps {p : Str} (h : s.dirty.get? rel ≠ none ∨ rel = p) :
    (arm C s now p .write).dirty.get? rel ≠ none := by
  rw [arm_eq]
  by_cases hne : rel = p
  · rw [hne, Dict.get?_set_self]
    simp
  · rw [Dict.get?_set_of_ne _ _ hne]
    exact h.resolve_right hne

/-- **What is held back stays so**, until it is passed on or overridden. -/
theorem Does.keeps (hdoes : Does C s now c s' ds) (h : s.dirty.get? rel ≠ none) :
    s'.dirty.get? rel ≠ none ∨ (∃ d ∈ ds, d.rel = rel) ∨ Overrides C c rel := by
  cases hdoes with
  | nothing => exact Or.inl h
  | armed => exact Or.inl (arm_keeps (Or.inl h))
  | overflowed => exact Or.inr (Or.inl (mem_heldBack (arm_keeps (Or.inl h))))
  | @deleted p hc =>
    by_cases hne : rel = p
    · exact Or.inr (Or.inr (hne ▸ hc.overrides))
    · exact Or.inl (by rwa [Dict.get?_erase_of_ne _ hne])
  | @renamed src dst hc =>
    obtain ⟨absSrc, absDst, hcall, hsrc, hdst⟩ := hc
    by_cases hne : rel = src
    · exact Or.inr (Or.inr (Or.inr ⟨absSrc, absDst, hcall, Or.inl (hne ▸ hsrc)⟩))
    by_cases hne' : rel = dst
    · exact Or.inr (Or.inr (Or.inr ⟨absSrc, absDst, hcall, Or.inr (hne' ▸ hdst)⟩))
    · exact Or.inl (by rwa [Dict.get?_erase_of_ne _ hne', Dict.get?_erase_of_ne _ hne])
  | flushed => exact Or.inr (Or.inl (mem_heldBack h))
  | idle => exact Or.inl h
  | @fired k t e =>
    by_cases hne : rel = t.rel
    · exact Or.inr (Or.inl ⟨_, List.mem_singleton_self _, hne.symm⟩)
    · exact Or.inl (by rwa [Dict.get?_erase_of_ne _ hne])

/-- A write that is reported is held back, or passed on at once. -/
theorem onWrite_held (now : ℚ) {absPath : Str} (h : OnlyWrites s)
    (hrel : C.tracked absPath = some rel) :
    (call C s now (.onWrite absPath)).1.dirty.get? rel ≠ none ∨
      ∃ d ∈ (call C s now (.onWrite absPath)).2, d.rel = rel := by
  have hdirty : (arm C s now rel .write).dirty.get? rel ≠ none := arm_keeps (Or.inr rfl)
  show (onWrite C s now absPath).1.dirty.get? rel ≠ none ∨
    ∃ d ∈ (onWrite C s now absPath).2, d.rel = rel
  unfold onWrite
  rw [hrel]
  dsimp only
  unfold schedule
  dsimp only
  split
  · rw [flushAllLocked_eq (onlyWrites_arm h rel)]
    exact Or.inr (mem_heldBack hdirty)
  · exact Or.inl hdirty

end Writes

section Runs

open Run

variable {C : Config} {x : Trace} {rel : Str}

theorem armed_start : Armed ({} : Trace).state where
  writes := by
    intro rel e h
    cases h
  pending := by
    intro rel e h
    cases h

theorem armed_step (C : Config) (h : Armed x.state) (a : Step) : Armed (step C x a).state :=
  h.call C a.now a.call

theorem armed_run (C : Config) (h : Armed x.state) (as : List Step) :
    Armed (run (step C) x as).state := by
  have hstep : ∀ (x : Trace) (a : Step), Armed x.state → True → Armed (step C x a).state :=
    fun x a hx _ => armed_step C hx a
  exact run_invariant hstep h (guarded_of_forall fun _ _ => trivial)

theorem length_run (hmax : 0 ≤ C.maxDirtyFiles) (as : List Step) :
    ((run (step C) {} as).state.dirty.items.length : Int) ≤ C.maxDirtyFiles := by
  let Inv (x : Trace) : Prop :=
    Armed x.state ∧ (x.state.dirty.items.length : Int) ≤ C.maxDirtyFiles
  have hstep : ∀ (x : Trace) (a : Step), Inv x → True → Inv (step C x a) := by
    rintro x a ⟨harmed, hlen⟩ -
    refine ⟨armed_step C harmed a, ?_⟩
    obtain ⟨s', hdoes, heq⟩ := call_does C a.now harmed.writes a.call
    show ((call C x.state a.now a.call).1.dirty.items.length : Int) ≤ C.maxDirtyFiles
    rw [heq]
    exact hdoes.length_le hmax hlen
  exact (run_invariant hstep ⟨armed_start, hmax⟩ (guarded_of_forall fun _ _ => trivial)).2

theorem state_run_congr {y : Trace} (h : x.state = y.state) (as : List Step) :
    (run (step C) x as).state = (run (step C) y as).state := by
  induction as generalizing x y with
  | nil => exact h
  | cons a as ih =>
    refine ih ?_
    show (call C x.state a.now a.call).1 = (call C y.state a.now a.call).1
    rw [h]

/-- What was passed on stays so. -/
theorem mem_passed_run (as : List Step) {d : Dispatch} (h : d ∈ x.passed) :
    d ∈ (run (step C) x as).passed := by
  induction as generalizing x with
  | nil => exact h
  | cons a as ih => exact ih (List.mem_append_left _ h)

/-- **A run keeps what is held back**, until it is passed on or overridden. -/
theorem run_keeps (harmed : Armed x.state) (h : x.state.dirty.get? rel ≠ none)
    (as : List Step) :
    (run (step C) x as).state.dirty.get? rel ≠ none ∨
      (∃ d ∈ (run (step C) x as).passed, d.rel = rel) ∨ ∃ a ∈ as, Overrides C a.call rel := by
  induction as generalizing x with
  | nil => exact Or.inl h
  | cons a as ih =>
    obtain ⟨s', hdoes, heq⟩ := call_does C a.now harmed.writes a.call
    rcases hdoes.keeps h with hdirty | ⟨d, hd, hrel⟩ | hover
    · have hdirty' : (step C x a).state.dirty.get? rel ≠ none := by
        show (call C x.state a.now a.call).1.dirty.get? rel ≠ none
        rw [heq]
        exact hdirty
      rcases ih (armed_step C harmed a) hdirty' with hend | hpassed | ⟨b, hb, hover⟩
      · exact Or.inl hend
      · exact Or.inr (Or.inl hpassed)
      · exact Or.inr (Or.inr ⟨b, List.mem_cons_of_mem _ hb, hover⟩)
    · have hstep : d ∈ (step C x a).passed := List.mem_append_right _ hd
      exact Or.inr (Or.inl ⟨d, mem_passed_run as hstep, hrel⟩)
    · exact Or.inr (Or.inr ⟨a, List.mem_cons_self, hover⟩)

/-- **Every dirty path has a pending timer, and no write is forgotten.** After any calls and timer
callbacks, in any order and at any times: at most `max_dirty_files` paths are dirty, and each of
them has a timer of its own that is started, not cancelled, and whose callback has not run. If at
the end every timer that is not cancelled has run, then every write that was reported of a tracked
path was followed by a dispatch for it, or by an `on_delete` or an `on_rename` that names it. -/
theorem dirty_armed (C : Config) (hmax : 0 ≤ C.maxDirtyFiles) (as : List Step) :
    (((run (step C) {} as).state.dirty.items.length : Int) ≤ C.maxDirtyFiles ∧
      ∀ rel e, (run (step C) {} as).state.dirty.get? rel = some e →
        (run (step C) {} as).state.Pending e.timer rel) ∧
    ((∀ t ∈ (run (step C) {} as).state.timers, t.cancelled = false → t.ran = true) →
      ∀ before now absPath after rel, as = before ++ ⟨now, .onWrite absPath⟩ :: after →
        C.tracked absPath = some rel →
        (∃ d ∈ (run (step C) ⟨(run (step C) {} before).state, []⟩
          (⟨now, .onWrite absPath⟩ :: after)).passed, d.rel = rel) ∨
        ∃ a ∈ after, Overrides C a.call rel) := by
  have harmed := armed_run C armed_start as
  refine ⟨⟨length_run hmax as, harmed.pending⟩, ?_⟩
  rintro hdone before now absPath after rel rfl hrel
  have hbefore : Armed (run (step C) {} before).state := armed_run C armed_start before
  -- right after the report the path is dirty, or a bulk flush has passed it on
  let x : Trace := step C ⟨(run (step C) {} before).state, []⟩ ⟨now, .onWrite absPath⟩
  have hx : Armed x.state := armed_step C hbefore _
  rcases onWrite_held now hbefore.writes hrel with hdirty | ⟨d, hd, hdrel⟩
  · rcases run_keeps hx hdirty after with hend | hpassed | hover
    · -- what is dirty at the end has a timer that has not run
      have hstate : (run (step C) {} (before ++ ⟨now, .onWrite absPath⟩ :: after)).state =
          (run (step C) x after).state := by
        rw [run_append, run_cons]
        refine state_run_congr ?_ after
        rfl
      obtain ⟨e, he⟩ := Option.ne_none_iff_exists'.mp hend
      rw [← hstate] at he
      obtain ⟨t, ht, -, hcancelled, hran⟩ := harmed.pending rel e he
      rw [hdone t (List.mem_of_getElem? ht) hcancelled] at hran
      cases hran
    · exact Or.inl hpassed
    · exact Or.inr hover
  · exact Or.inl ⟨d, mem_passed_run after (x := x) hd, hdrel⟩

/-- A silo at `/srv`, with the settings that are the default. -/
def sampleConfig : Config where
  root := [lit "srv"]
  blocked _ := false
  debounceMs := 200
  maxDelayMs := 1500
  maxDirtyFiles := 50

/-- One write, and its timer. -/
def sampleSteps : List Step := [⟨0, .onWrite (lit "/srv/notes")⟩, ⟨1, .timer 0⟩]

theorem sample_write_dispatched :
    (∀ t ∈ (run (step sampleConfig) {} sampleSteps).state.timers,
        t.cancelled = false → t.ran = true) ∧
      ∃ d ∈ (run (step sampleConfig) {} sampleSteps).passed, d.rel = lit "notes" := by
  have hdone : ∀ t ∈ (run (step sampleConfig) {} sampleSteps).state.timers,
      t.cancelled = false → t.ran = true := by decide
  refine ⟨hdone, ?_⟩
  rcases (dirty_armed sampleConfig (by decide) sampleSteps).2 hdone [] 0 (lit "/srv/notes")
    [⟨1, .timer 0⟩] (lit "notes") rfl (by decide) with hpassed | ⟨a, ha, hover⟩
  · exact hpassed
  · rw [List.mem_singleton.mp ha] at hover
    simp [Overrides] at hover

end Runs

/-! ### The cap -/

/-- The deadline of an entry is within the cap, or it is due at once. -/
def Capped (C : Config) (s : State) : Prop :=
  ∀ rel e t, s.dirty.get? rel = some e → s.timers[e.timer]? = some t →
    t.deadline ≤ max t.armedAt (e.tFirst + C.maxDelayS)

/-- **The cap is absolute**: after any writes at times that do not decrease, every dirty path has
its deadline within the cap from its first event on. -/
def CapHolds (C : Config) : Prop :=
  ∀ as : List Step, (∀ a ∈ as, ∃ absPath, a.call = .onWrite absPath) →
    (as.map Step.now).Pairwise (· ≤ ·) → Capped C (Run.run (step C) {} as).state

section Cap

open Run

variable {C : Config} {s : State} {now : ℚ} {rel : Str}

/-- A timer that replaces another is armed within the cap, and so is a first one if the debounce
time is. -/
theorem delay_le (hle : C.debounceS ≤ C.maxDelayS) (existing : Option Entry) (now : ℚ) :
    now + C.delay existing now ≤
      max now ((existing.map Entry.tFirst).getD now + C.maxDelayS) := by
  cases existing with
  | none => exact le_max_of_le_right (add_le_add_right hle now)
  | some e =>
    show now + min C.debounceS (max (C.maxDelayS - (now - e.tFirst)) 0) ≤
      max now (e.tFirst + C.maxDelayS)
    have hmin : min C.debounceS (max (C.maxDelayS - (now - e.tFirst)) 0) ≤
        max (C.maxDelayS - (now - e.tFirst)) 0 := min_le_right _ _
    rcases max_choice (C.maxDelayS - (now - e.tFirst)) 0 with hcap | hzero
    · rw [hcap] at hmin ⊢
      exact le_max_of_le_right (by linarith)
    · rw [hzero] at hmin ⊢
      exact le_max_of_le_left (by linarith)

theorem Capped.arm (hle : C.debounceS ≤ C.maxDelayS) (harmed : Armed s) (h : Capped C s) :
    Capped C (arm C s now rel .write) := by
  intro p e t hp ht
  rw [arm_eq] at hp ht
  by_cases hne : p = rel
  · rw [hne, Dict.get?_set_self] at hp
    cases hp
    dsimp only at ht
    rw [← length_timersWithout, List.getElem?_concat_length] at ht
    cases ht
    exact delay_le hle _ now
  · rw [Dict.get?_set_of_ne _ _ hne] at hp
    -- the timer of another path is as it was
    obtain ⟨t', ht', -⟩ := harmed.pending p e hp
    rw [← harmed.timersWithout hp hne] at ht'
    have hlt := (List.getElem?_eq_some_iff.mp ht').1
    dsimp only at ht
    rw [List.getElem?_append_left hlt, harmed.timersWithout hp hne] at ht
    exact h p e t hp ht

/-- One write keeps the deadlines within the cap. -/
theorem capped_step (hle : C.debounceS ≤ C.maxDelayS) {x : Trace} {a : Step}
    (ha : ∃ absPath, a.call = .onWrite absPath) (harmed : Armed x.state)
    (h : Capped C x.state) : Capped C (step C x a).state := by
  obtain ⟨absPath, hcall⟩ := ha
  show Capped C (call C x.state a.now a.call).1
  rw [hcall]
  show Capped C { (onWrite C x.state a.now absPath).1 with
    calls := (onWrite C x.state a.now absPath).1.calls + 1 }
  unfold onWrite
  split
  · exact h
  rename_i rel hrel
  unfold schedule
  dsimp only
  split
  · rw [flushAllLocked_eq (onlyWrites_arm harmed.writes rel)]
    intro p e t hp ht
    cases hp
  · exact h.arm hle harmed

/-- The first write of a path is armed with the whole debounce time. -/
theorem first_write {absPath : Str} (hrel : C.tracked absPath = some rel)
    (hmax : 0 < C.maxDirtyFiles) :
    (run (step C) {} [⟨0, .onWrite absPath⟩]).state.dirty.get? rel = some ⟨.write, 0, 0, [0]⟩ ∧
      (run (step C) {} [⟨0, .onWrite absPath⟩]).state.timers =
        [⟨rel, 0, C.debounceS, false, false⟩] := by
  have harm : arm C {} 0 rel .write =
      { dirty := Dict.empty.set rel ⟨.write, 0, 0, [0]⟩
        timers := [⟨rel, 0, C.debounceS, false, false⟩] } := rfl
  have hcall : (run (step C) {} [⟨0, .onWrite absPath⟩]).state =
      { arm C {} 0 rel .write with calls := 1 } := by
    show { (onWrite C {} 0 absPath).1 with
      calls := (onWrite C {} 0 absPath).1.calls + 1 } = _
    unfold onWrite
    rw [hrel]
    dsimp only
    unfold schedule
    dsimp only
    rw [if_neg, harm]
    rw [harm]
    show ¬ ((1 : Nat) : Int) > C.maxDirtyFiles
    omega
  rw [hcall, harm]
  exact ⟨Dict.get?_set_self _ _ _, rfl⟩

/-- Nothing is held back when there is no room for it, or no path is tracked. -/
theorem clean_step (h : C.maxDirtyFiles ≤ 0 ∨ ∀ absPath, C.tracked absPath = none) {x : Trace}
    {a : Step} (ha : ∃ absPath, a.call = .onWrite absPath) (hx : x.state.dirty = Dict.empty) :
    (step C x a).state.dirty = Dict.empty := by
  obtain ⟨absPath, hcall⟩ := ha
  show (call C x.state a.now a.call).1.dirty = Dict.empty
  rw [hcall]
  show (onWrite C x.state a.now absPath).1.dirty = Dict.empty
  unfold onWrite
  split
  · exact hx
  rename_i rel hrel
  have hmax : C.maxDirtyFiles ≤ 0 := by
    rcases h with hmax | hnone
    · exact hmax
    · rw [hnone absPath] at hrel
      cases hrel
  have hwrites : OnlyWrites x.state := by
    intro p e hp
    rw [hx] at hp
    cases hp
  -- the one entry is one too many
  have hpos : 0 < (arm C x.state a.now rel .write).dirty.items.length := by
    obtain ⟨e, he⟩ := Option.ne_none_iff_exists'.mp
      (arm_keeps (C := C) (s := x.state) (p := rel) (Or.inr rfl))
    exact List.length_pos_of_mem ((Dict.mem_items_iff _).mpr he)
  unfold schedule
  dsimp only
  rw [if_pos (by omega), flushAllLocked_eq (onlyWrites_arm hwrites rel)]
  rfl

theorem capped_of_clean (h : s.dirty = Dict.empty) : Capped C s := by
  intro rel e t he
  rw [h] at he
  cases he

end Cap

/-- **When the cap holds.** For every debounce time and every cap that is not negative: sustained
writing cannot postpone the flush of a path beyond the cap exactly when the debounce time is not
longer than the cap, or nothing is ever held back, because there is no room for it or no path is
tracked. -/
theorem cap_holds_iff (C : Config) (hcap : 0 ≤ C.maxDelayMs) :
    CapHolds C ↔ C.debounceMs ≤ C.maxDelayMs ∨ C.maxDirtyFiles ≤ 0 ∨
      ∀ absPath, C.tracked absPath = none := by
  constructor
  · intro h
    by_contra hnot
    obtain ⟨hlt, hroom, htracked⟩ : C.maxDelayMs < C.debounceMs ∧ 0 < C.maxDirtyFiles ∧
        ¬ ∀ absPath, C.tracked absPath = none := by
      simpa only [not_or, not_le] using hnot
    obtain ⟨absPath, hpath⟩ := not_forall.mp htracked
    obtain ⟨rel, hrel⟩ := Option.ne_none_iff_exists'.mp hpath
    -- one write is enough
    obtain ⟨hdirty, htimers⟩ := first_write hrel hroom
    have hcapped := h [⟨0, .onWrite absPath⟩] (by simp) (List.pairwise_singleton _ _) rel _
      ⟨rel, 0, C.debounceS, false, false⟩ hdirty (by rw [htimers]; rfl)
    have hmax : (0 : ℚ) + C.debounceS ≤ max 0 (0 + C.maxDelayS) := hcapped
    have hcapS : 0 ≤ C.maxDelayS := div_nonneg (by exact_mod_cast hcap) (by norm_num)
    have hltS : C.maxDelayS < C.debounceS :=
      div_lt_div_of_pos_right (by exact_mod_cast hlt) (by norm_num)
    rw [zero_add, zero_add, max_eq_right hcapS] at hmax
    exact absurd hmax (not_le.mpr hltS)
  · rintro (hle | hclean) as hwrites -
    · have hleS : C.debounceS ≤ C.maxDelayS :=
        div_le_div_of_nonneg_right (by exact_mod_cast hle) (by norm_num)
      let Inv (x : Trace) : Prop := Armed x.state ∧ Capped C x.state
      have hstep : ∀ (x : Trace) (a : Step), Inv x → (∃ absPath, a.call = .onWrite absPath) →
          Inv (step C x a) :=
        fun x a hx ha => ⟨armed_step C hx.1 a, capped_step hleS ha hx.1 hx.2⟩
      exact (Run.run_invariant hstep ⟨armed_start, capped_of_clean rfl⟩
        (Run.guarded_of_forall hwrites)).2
    · have hstep : ∀ (x : Trace) (a : Step), x.state.dirty = Dict.empty →
          (∃ absPath, a.call = .onWrite absPath) → (step C x a).state.dirty = Dict.empty :=
        fun x a hx ha => clean_step hclean ha hx
      exact capped_of_clean (Run.run_invariant hstep rfl (Run.guarded_of_forall hwrites))

/-- The default settings keep within the cap. -/
theorem sample_cap_holds : 0 ≤ sampleConfig.maxDelayMs ∧ CapHolds sampleConfig :=
  ⟨by decide, (cap_holds_iff sampleConfig (by decide)).mpr (Or.inl (by decide))⟩

/-- **A debounce time of five seconds under a cap of one**: the first write is due after five. -/
theorem first_write_beyond_cap :
    ∃ t, (Run.run (step { sampleConfig with debounceMs := 5000, maxDelayMs := 1000 }) {}
        [⟨0, .onWrite (lit "/srv/notes")⟩]).state.timers[0]? = some t ∧
      t.deadline = 5 ∧ ¬ CapHolds { sampleConfig with debounceMs := 5000, maxDelayMs := 1000 } := by
  have hrel : Config.tracked { sampleConfig with debounceMs := 5000, maxDelayMs := 1000 }
      (lit "/srv/notes") = some (lit "notes") := by decide
  obtain ⟨hdirty, htimers⟩ := first_write hrel (by decide)
  refine ⟨_, by rw [htimers]; rfl, by norm_num [Timer.deadline, Config.debounceS], fun h => ?_⟩
  have hcapped := h [⟨0, .onWrite (lit "/srv/notes")⟩] (by simp) (List.pairwise_singleton _ _)
    (lit "notes") _ _ hdirty (by rw [htimers]; rfl)
  norm_num [Timer.deadline, Config.debounceS, Config.maxDelayS] at hcapped

end Debouncer

end Chiralite
