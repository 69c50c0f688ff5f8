import Chiralite.Sync.Debouncer

/-!
# The watcher with its timers, and without

`Sync/Watcher.lean` has no times: there a timer may fire whenever there is something to flush. Here
a silo has the debouncer of `Sync/Debouncer.lean`, with all its timers and delays, and what the
debouncer passes on is worked off at once.

Erasing the timers turns every step of this silo into a step of the other, or into none when a
timer finds that it has run already (`step_erase`), and every run into a run (`run_erase`). So what
is proved of the runs without times holds at all times: no change is lost under the same condition
(`timed_replica`).
-/

namespace Chiralite

open Py Posix

namespace Debouncer

open Watcher (FlushOp LocalOp Emission)

/-! ### Erasure -/

/-- The settings of a watcher around a debouncer: its own, with the host of another. -/
def Config.erase (C : Config) (host : Watcher.Config) : Watcher.Config :=
  { host with blocked := C.blocked, maxDirtyFiles := C.maxDirtyFiles }

/-- A debouncer without its timers, in a watcher. -/
def State.erase (s : State) (w : Watcher.State) : Watcher.State :=
  { w with dirty := s.dirty.map Entry.op, renames := s.renames }

/-- The watcher works off what is passed on. -/
def Flush.emit (W : Watcher.Config) (w : Watcher.State) : Flush → Watcher.State
  | .file rel op => Watcher.onFlush W w rel op
  | .rename old new => Watcher.onRenameFlush W w old new

/-- The watcher works off a list of flushes. -/
def workOff (W : Watcher.Config) (w : Watcher.State) (ds : List Dispatch) : Watcher.State :=
  ds.foldl (fun w d => d.flush.emit W w) w

section Erasure

variable (W : Watcher.Config) (s : State) (w : Watcher.State)

theorem emit_erase (flush : Flush) : flush.emit W (s.erase w) = s.erase (flush.emit W w) := by
  cases flush with
  | file rel op =>
    have hfiles : (s.erase w).files rel = w.files rel := rfl
    show Watcher.onFlush W (s.erase w) rel op = s.erase (Watcher.onFlush W w rel op)
    unfold Watcher.onFlush
    rw [hfiles]
    by_cases hop : op = .delete
    · simp only [hop, if_true]
      rfl
    · simp only [hop, if_false]
      cases w.files rel <;> rfl
  | rename old new =>
    have hfiles : (s.erase w).files new = w.files new := rfl
    show Watcher.onRenameFlush W (s.erase w) old new = s.erase (Watcher.onRenameFlush W w old new)
    unfold Watcher.onRenameFlush
    rw [hfiles]
    cases w.files new <;> rfl

/-- Cancelling a timer is not seen. -/
theorem erase_cancelTimer (k : Nat) : (s.cancelTimer k).erase w = s.erase w := rfl

theorem dispatch_erase (rel : Str) (op : FlushOp) (calls : List Nat) :
    Watcher.dispatch W (s.erase w) rel op =
      (dispatch s rel op calls).1.erase ((dispatch s rel op calls).2.flush.emit W w) := by
  unfold Watcher.dispatch dispatch
  by_cases hop : op = .rename
  · rw [if_pos hop, if_pos hop]
    have hrenames : (s.erase w).renames.get? rel = s.renames.get? rel := rfl
    rw [hrenames]
    cases s.renames.get? rel with
    | none => exact emit_erase W s w (.file rel .write)
    | some pair =>
      exact emit_erase W { s with renames := s.renames.erase rel } w (.rename pair.1 pair.2)
  · rw [if_neg hop, if_neg hop]
    exact emit_erase W s w (.file rel op)

theorem flushItems_erase (items : List (Str × Entry)) :
    (items.map fun item => (item.1, item.2.op)).foldl
        (fun w item => Watcher.dispatch W w item.1 item.2) (s.erase w) =
      (flushItems items s).1.erase (workOff W w (flushItems items s).2) := by
  induction items generalizing s w with
  | nil => rfl
  | cons item items ih =>
    obtain ⟨rel, e⟩ := item
    rw [List.map_cons, List.foldl_cons, ← erase_cancelTimer s w e.timer,
      dispatch_erase W (s.cancelTimer e.timer) w rel e.op e.calls, ih]
    rfl

theorem flushAll_erase :
    Watcher.flushAll W (s.erase w) =
      (flushAllLocked s).1.erase (workOff W w (flushAllLocked s).2) :=
  flushItems_erase W { s with dirty := Dict.empty } w s.dirty.items

theorem cancel_erase (rel : Str) : Watcher.cancel (s.erase w) rel = (cancel s rel).erase w := by
  rw [cancel_eq]
  unfold Watcher.cancel State.erase
  dsimp only
  rw [Dict.map_erase]

theorem flushNow_erase (rel : Str) (op : FlushOp) :
    Watcher.flushNow W (s.erase w) rel op =
      (flushNow s rel op).1.erase (workOff W w (flushNow s rel op).2) := by
  have hdirty : { s.erase w with dirty := (s.erase w).dirty.erase rel } =
      { s with dirty := s.dirty.erase rel }.erase w := by
    unfold State.erase
    dsimp only
    rw [Dict.map_erase]
  unfold Watcher.flushNow
  rw [hdirty, dispatch_erase W _ w rel op [s.calls]]
  rfl

theorem timerFired_erase (rel : Str) :
    Watcher.timerFired W (s.erase w) rel =
      (timerFired s rel).1.erase (workOff W w (timerFired s rel).2) := by
  have hget : (s.erase w).dirty.get? rel = (s.dirty.get? rel).map Entry.op :=
    Dict.get?_map Entry.op s.dirty rel
  have hdirty : { s.erase w with dirty := (s.erase w).dirty.erase rel } =
      { s with dirty := s.dirty.erase rel }.erase w := by
    unfold State.erase
    dsimp only
    rw [Dict.map_erase]
  unfold Watcher.timerFired timerFired
  rw [hget]
  cases s.dirty.get? rel with
  | none => rfl
  | some e =>
    dsimp only [Option.map_some]
    rw [hdirty, dispatch_erase W _ w rel e.op e.calls]
    rfl

end Erasure

section Calls

variable (C : Config) (host : Watcher.Config) (s : State) (w : Watcher.State) (now : ℚ)

theorem schedule_erase (rel : Str) (op : FlushOp) :
    Watcher.schedule (C.erase host) (s.erase w) rel op =
      (schedule C s now rel op).1.erase
        (workOff (C.erase host) w (schedule C s now rel op).2) := by
  have harm : { s.erase w with dirty := (s.erase w).dirty.set rel op } =
      (arm C s now rel op).erase w := by
    rw [arm_eq]
    unfold State.erase
    dsimp only
    rw [Dict.map_set]
  -- both count the same dirty paths
  have hlength : ((s.erase w).dirty.set rel op).items.length =
      (arm C s now rel op).dirty.items.length := by
    have hdirty : (s.erase w).dirty.set rel op = (arm C s now rel op).dirty.map Entry.op :=
      congrArg Watcher.State.dirty harm
    rw [hdirty]
    exact List.length_map _
  unfold Watcher.schedule schedule
  dsimp only
  by_cases hfull : ((arm C s now rel op).dirty.items.length : Int) > C.maxDirtyFiles
  · have hfull' : (((s.erase w).dirty.set rel op).items.length : Int) >
        (C.erase host).maxDirtyFiles := by
      rw [hlength]
      exact hfull
    rw [if_pos hfull', if_pos hfull]
    exact (congrArg _ harm).trans (flushAll_erase (C.erase host) (arm C s now rel op) w)
  · have hfull' : ¬ (((s.erase w).dirty.set rel op).items.length : Int) >
        (C.erase host).maxDirtyFiles := by
      rw [hlength]
      exact hfull
    rw [if_neg hfull', if_neg hfull]
    exact harm

theorem tracked_erase (absPath : Str) :
    Watcher.tracked (C.erase host) (C.rel absPath) = C.tracked absPath := rfl

theorem onWrite_erase (absPath : Str) :
    Watcher.onWrite (C.erase host) (s.erase w) (C.rel absPath) =
      (onWrite C s now absPath).1.erase
        (workOff (C.erase host) w (onWrite C s now absPath).2) := by
  unfold Watcher.onWrite onWrite
  rw [tracked_erase]
  cases C.tracked absPath with
  | none => rfl
  | some rel => exact schedule_erase C host s w now rel .write

theorem onDelete_erase (absPath : Str) :
    Watcher.onDelete (C.erase host) (s.erase w) (C.rel absPath) =
      (onDelete C s absPath).1.erase (workOff (C.erase host) w (onDelete C s absPath).2) := by
  unfold Watcher.onDelete onDelete
  rw [tracked_erase]
  cases C.tracked absPath with
  | none => rfl
  | some rel =>
    dsimp only
    rw [cancel_erase, flushNow_erase]

theorem onRename_erase (absSrc absDst : Str) :
    Watcher.onRename (C.erase host) (s.erase w) (C.rel absSrc) (C.rel absDst) =
      (onRename C s now absSrc absDst).1.erase
        (workOff (C.erase host) w (onRename C s now absSrc absDst).2) := by
  unfold Watcher.onRename onRename
  rw [tracked_erase, tracked_erase]
  cases C.tracked absSrc with
  | none =>
    cases C.tracked absDst with
    | none => rfl
    | some dst => exact schedule_erase C host s w now dst .write
  | some src =>
    cases C.tracked absDst with
    | none =>
      dsimp only
      rw [cancel_erase, flushNow_erase]
    | some dst =>
      dsimp only
      rw [cancel_erase]
      exact flushNow_erase (C.erase host)
        { cancel s src with renames := (cancel s src).renames.set dst (src, dst) } w dst .rename

end Calls

/-! ### A silo with timers -/

/-- A silo whose debouncer has its timers. What is passed on is worked off at once. -/
structure Silo where
  debouncer : State := {}
  files : Str → Option FileData
  queue : List Emission := []
  unreported : List LocalOp := []

/-- A silo whose watcher has just been started. -/
def Silo.start (files : Str → Option FileData) : Silo := { files := files }

/-- What can happen, and when. -/
inductive Act where
  /-- A file is changed. -/
  | op (o : LocalOp)
  /-- The observer reports the next operation. -/
  | report (now : ℚ)
  /-- The callback of a timer. -/
  | fire (now : ℚ) (k : Nat)
  /-- `flush_all`, when the watcher is stopped. -/
  | flushAll (now : ℚ)

/-- The call that an operation is reported with. The observer names paths in full. -/
def reportCall (absolute : Str → Str) : LocalOp → Call
  | .write path _ => .onWrite (absolute path)
  | .delete path => .onDelete (absolute path)
  | .rename src dst => .onRename (absolute src) (absolute dst)

section Silo

variable (C : Config) (host : Watcher.Config) (absolute : Str → Str)

/-- The watcher around the debouncer. -/
def Silo.outer (x : Silo) : Watcher.State := ⟨x.files, Dict.empty, Dict.empty, x.queue⟩

/-- The debouncer is called, and the watcher works off what it passes on. -/
def Silo.enter (x : Silo) (now : ℚ) (c : Call) : Silo :=
  let (debouncer, ds) := call C x.debouncer now c
  { x with debouncer := debouncer, queue := (workOff (C.erase host) x.outer ds).queue }

/-- One step. -/
def Silo.step (x : Silo) : Act → Silo
  | .op o =>
    if o.possible x.files then
      { x with files := o.apply x.files, unreported := x.unreported ++ [o] }
    else x
  | .report now =>
    match x.unreported with
    | [] => x
    | o :: later => { x.enter C host now (reportCall absolute o) with unreported := later }
  | .fire now k => x.enter C host now (.timer k)
  | .flushAll now => x.enter C host now .flushAll

/-- The silo without timers. -/
def Silo.erase (x : Silo) : Watcher.Silo := ⟨x.debouncer.erase x.outer, x.unreported⟩

/-- Every path that an operation names is found again by `_rel`. -/
def Observable (o : LocalOp) : Prop := ∀ p ∈ o.paths, C.rel (absolute p) = some p

/-- The steps without timers that a step comes to. A timer that has run, or is none, does
nothing. -/
def Silo.untimed (x : Silo) : Act → List Watcher.Act
  | .op o => [.op o]
  | .report _ => [.report]
  | .fire _ k =>
    match x.debouncer.timers[k]? with
    | none => []
    | some t => if t.ran then [] else [.fire t.rel]
  | .flushAll _ => [.flushAll]

/-- What is passed on changes nothing but the queue. -/
theorem emit_frame (W : Watcher.Config) (w : Watcher.State) (flush : Flush) :
    flush.emit W w = { w with queue := (flush.emit W w).queue } := by
  cases flush with
  | file rel op =>
    unfold Flush.emit Watcher.onFlush
    dsimp only
    split
    · rfl
    · split <;> rfl
  | rename old new =>
    unfold Flush.emit Watcher.onRenameFlush
    dsimp only
    split <;> rfl

theorem workOff_frame (W : Watcher.Config) (w : Watcher.State) (ds : List Dispatch) :
    workOff W w ds = { w with queue := (workOff W w ds).queue } := by
  induction ds generalizing w with
  | nil => rfl
  | cons d ds ih =>
    have hemit : d.flush.emit W w = { w with queue := (d.flush.emit W w).queue } := emit_frame W w _
    show workOff W (d.flush.emit W w) ds =
      { w with queue := (workOff W (d.flush.emit W w) ds).queue }
    rw [ih, hemit]

/-- A call of the debouncer, seen without timers. -/
theorem enter_erase {w' : Watcher.State} {x : Silo} {now : ℚ} {c : Call}
    (h : w' = (call C x.debouncer now c).1.erase
      (workOff (C.erase host) x.outer (call C x.debouncer now c).2)) :
    (x.enter C host now c).erase = ⟨w', x.unreported⟩ := by
  rw [h, workOff_frame]
  rfl

theorem report_erase (x : Silo) (now : ℚ) {o : LocalOp} (ho : Observable C absolute o) :
    (x.enter C host now (reportCall absolute o)).erase =
      ⟨o.report (C.erase host) (x.debouncer.erase x.outer), x.unreported⟩ := by
  refine enter_erase C host ?_
  cases o with
  | write path file =>
    have hpath : C.rel (absolute path) = some path := ho path (by simp [LocalOp.paths])
    show Watcher.onWrite _ _ (some path) = _
    rw [← hpath]
    exact onWrite_erase C host x.debouncer x.outer now (absolute path)
  | delete path =>
    have hpath : C.rel (absolute path) = some path := ho path (by simp [LocalOp.paths])
    show Watcher.onDelete _ _ (some path) = _
    rw [← hpath]
    exact onDelete_erase C host x.debouncer x.outer (absolute path)
  | rename src dst =>
    have hsrc : C.rel (absolute src) = some src := ho src (by simp [LocalOp.paths])
    have hdst : C.rel (absolute dst) = some dst := ho dst (by simp [LocalOp.paths])
    show Watcher.onRename _ _ (some src) (some dst) = _
    rw [← hsrc, ← hdst]
    exact onRename_erase C host x.debouncer x.outer now (absolute src) (absolute dst)

/-- A timer fires, or it has run already, or it is none. -/
theorem onTimer_cases (x : Silo) (now : ℚ) (k : Nat) :
    (onTimer x.debouncer k = (x.debouncer, []) ∧ x.untimed (.fire now k) = []) ∨
      ∃ t : Timer, onTimer x.debouncer k =
          timerFired { x.debouncer with
            timers := x.debouncer.timers.modify k fun t => { t with ran := true } } t.rel ∧
        x.untimed (.fire now k) = [.fire t.rel] := by
  unfold onTimer Silo.untimed
  dsimp only
  cases x.debouncer.timers[k]? with
  | none => exact .inl ⟨rfl, rfl⟩
  | some t =>
    by_cases hran : t.ran = true
    · exact .inl ⟨if_pos hran, if_pos hran⟩
    · exact .inr ⟨t, if_neg hran, if_neg hran⟩

theorem fire_erase (x : Silo) (now : ℚ) (k : Nat) :
    (x.enter C host now (.timer k)).erase =
      Run.run (Watcher.step (C.erase host)) x.erase (x.untimed (.fire now k)) := by
  rcases onTimer_cases x now k with ⟨hidle, hnone⟩ | ⟨t, hfires, hfire⟩
  · rw [hnone]
    refine enter_erase C host ?_
    show _ = (onTimer x.debouncer k).1.erase (workOff _ _ (onTimer x.debouncer k).2)
    rw [hidle]
    rfl
  · -- the callback marks its timer, which is not seen
    rw [hfire]
    refine enter_erase C host ?_
    show _ = (onTimer x.debouncer k).1.erase (workOff _ _ (onTimer x.debouncer k).2)
    rw [hfires]
    exact timerFired_erase (C.erase host)
      { x.debouncer with
        timers := x.debouncer.timers.modify k fun t => { t with ran := true } } x.outer t.rel

/-- **One step is one step without timers, or none.** -/
theorem step_erase {x : Silo} (hx : ∀ o ∈ x.unreported, Observable C absolute o) (a : Act) :
    (x.step C host absolute a).erase =
      Run.run (Watcher.step (C.erase host)) x.erase (x.untimed a) := by
  cases a with
  | op o =>
    show _ = Watcher.step (C.erase host) x.erase (.op o)
    unfold Silo.step Watcher.step
    dsimp only
    by_cases hpossible : o.possible x.files = true
    · rw [if_pos hpossible]
      exact (if_pos hpossible).symm
    · rw [if_neg hpossible]
      exact (if_neg hpossible).symm
  | report now =>
    show _ = Watcher.step (C.erase host) x.erase .report
    -- both report the same operation, and the report is erased to a report
    have hsame : x.erase.unreported = x.unreported := rfl
    unfold Silo.step Watcher.step
    dsimp only
    rw [hsame]
    cases hops : x.unreported with
    | nil => rfl
    | cons o later =>
      have ho : Observable C absolute o := hx o (hops ▸ List.mem_cons_self)
      have hreport := report_erase C host absolute x now ho
      exact congrArg (fun y : Watcher.Silo => { y with unreported := later }) hreport
  | fire now k => exact fire_erase C host x now k
  | flushAll now =>
    exact enter_erase C host (flushAll_erase (C.erase host) x.debouncer x.outer)

/-- The steps without timers that a run comes to. -/
def Silo.untimedRun (x : Silo) : List Act → List Watcher.Act
  | [] => []
  | a :: as => x.untimed a ++ (x.step C host absolute a).untimedRun as

/-- The operation of a step is observable. -/
def Act.Observable : Act → Prop
  | .op o => Debouncer.Observable C absolute o
  | _ => True

theorem unreported_step {x : Silo} {a : Act} (ha : a.Observable C absolute)
    (hx : ∀ o ∈ x.unreported, Observable C absolute o) :
    ∀ o ∈ (x.step C host absolute a).unreported, Observable C absolute o := by
  cases a with
  | op o =>
    unfold Silo.step
    dsimp only
    split
    · intro o' ho'
      rcases List.mem_append.mp ho' with hmem | hmem
      · exact hx o' hmem
      · rw [List.mem_singleton.mp hmem]
        exact ha
    · exact hx
  | report now =>
    unfold Silo.step
    dsimp only
    split
    · exact hx
    · next o later hops => exact fun o' ho' => hx o' (hops ▸ List.mem_cons_of_mem _ ho')
  | fire now k => exact hx
  | flushAll now => exact hx

/-- **A run is a run without timers.** -/
theorem run_erase {x : Silo} {as : List Act}
    (hx : ∀ o ∈ x.unreported, Observable C absolute o)
    (has : ∀ a ∈ as, a.Observable C absolute) :
    (Run.run (Silo.step C host absolute) x as).erase =
      Run.run (Watcher.step (C.erase host)) x.erase (x.untimedRun C host absolute as) := by
  induction as generalizing x with
  | nil => rfl
  | cons a as ih =>
    have ha := has a List.mem_cons_self
    rw [Run.run_cons, Silo.untimedRun, Run.run_append, ← step_erase C host absolute hx a]
    exact ih (unreported_step C host absolute ha hx) fun b hb => has b (List.mem_cons_of_mem _ hb)

/-- An operation is observable, on unblocked paths, and no file is renamed while a change to it is
held back or not yet reported. -/
def Silo.Settled (x : Silo) (a : Act) : Prop :=
  a.Observable C absolute ∧
    ∀ b ∈ x.untimed a, Watcher.Unblocked (C.erase host) b ∧ Watcher.Settled x.erase b

theorem untimed_cases (x : Silo) (a : Act) : x.untimed a = [] ∨ ∃ b, x.untimed a = [b] := by
  cases a with
  | op o => exact .inr ⟨_, rfl⟩
  | report now => exact .inr ⟨_, rfl⟩
  | fire now k =>
    unfold Silo.untimed
    dsimp only
    split
    · exact .inl rfl
    · split
      · exact .inl rfl
      · exact .inr ⟨_, rfl⟩
  | flushAll now => exact .inr ⟨_, rfl⟩

/-- The invariant of the silo without timers, and the operations that wait to be reported. -/
structure Silo.Inv (R : Str → Option Bytes) (x : Silo) : Prop where
  erased : Watcher.Inv (C.erase host) R x.erase
  observable : ∀ o ∈ x.unreported, Observable C absolute o

variable {C host absolute} in
theorem Silo.Inv.step {R : Str → Option Bytes} {x : Silo} {a : Act}
    (h : x.Inv C host absolute R) (ha : x.Settled C host absolute a) :
    (x.step C host absolute a).Inv C host absolute R where
  erased := by
    rw [step_erase C host absolute h.observable a]
    rcases untimed_cases x a with hnone | ⟨b, hb⟩
    · rw [hnone]
      exact h.erased
    · rw [hb]
      exact h.erased.step (ha.2 b (hb ▸ List.mem_singleton_self b))
  observable := unreported_step C host absolute ha.1 h.observable

theorem silo_inv_start (files : Str → Option FileData) :
    (Silo.start files).Inv C host absolute (Watcher.contents files) where
  erased := Watcher.inv_start (C.erase host) files
  observable := List.forall_mem_nil _

/-- **With timers too, no change is lost**: when everything is reported and nothing is held back,
the queue makes a replica that was the local tree at the start what the local tree is. -/
theorem timed_replica (files : Str → Option FileData) (acts : List Act)
    (hrun : Run.Guarded (Silo.step C host absolute) (Silo.Settled C host absolute)
      (Silo.start files) acts)
    (hreported : (Run.run (Silo.step C host absolute) (Silo.start files) acts).unreported = [])
    (hflushed : (Run.run (Silo.step C host absolute) (Silo.start files) acts).debouncer.dirty =
      Dict.empty) :
    Watcher.replay (Watcher.contents files)
        (Run.run (Silo.step C host absolute) (Silo.start files) acts).queue =
      Watcher.contents (Run.run (Silo.step C host absolute) (Silo.start files) acts).files := by
  have hinv : Silo.Inv C host absolute (Watcher.contents files)
      (Run.run (Silo.step C host absolute) (Silo.start files) acts) :=
    Run.run_invariant (fun _ _ h ha => h.step ha) (silo_inv_start C host absolute files) hrun
  refine hinv.erased.replica_of_quiet ⟨hreported, ?_⟩
  show (Run.run (Silo.step C host absolute) (Silo.start files) acts).debouncer.dirty.map Entry.op =
    Dict.empty
  rw [hflushed]
  rfl

end Silo

end Debouncer

end Chiralite
