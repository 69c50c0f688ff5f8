import Chiralite.Sync.Debouncer

/-!
# The watcher and its threads

`SiloWatcher` of `sync/watcher.py` with the threads it runs in. The observer calls the debouncer,
`stop` calls `flush_all`, and every timer has a thread of its own. A call holds the lock until all
that it passes on has been worked off; a timer callback holds it only while it takes the entry of
its path, and then works in the open. To work off a flush is to stat the file, to read it and to
put an event in the queue, and between any two of these any other thread may go on and any file may
change.

The `log` has the calls, in the order in which they had the lock, and the events in the order in
which they were put. A delete is to be the last word on its path, but it is not always. The content
that a callback has read is put in the queue without a look at what has happened since, and a
delete that took the lock in between is overtaken. `NoRace` excludes this, and under it no write
event follows (`delete_last_of_noRace`).

A report of a path that is not tracked does not wait for the lock. It does nothing either, and here
it takes its turn like the others.
-/

namespace Chiralite

open Py Posix

namespace SiloWatcher

open Debouncer (Call Dispatch Flush)

/-! ### The program -/

/-- The settings of a watcher, and what it asks of its host. -/
structure Config extends Debouncer.Config where
  /-- `pwd.getpwuid(uid).pw_name`, `none` for `KeyError`. -/
  getpwuid : Int → Option Str
  /-- `grp.getgrgid(gid).gr_name`. -/
  getgrgid : Int → Option Str

/-- The fields of `os.stat` that are used. -/
structure Stat where
  size : Nat
  mtimeNs : Int
  mode : Nat
  uid : Int
  gid : Int

/-- What the system answers for a path of the silo, `none` for `OSError`. -/
structure LocalFile where
  /-- `os.stat`. -/
  stat : Option Stat
  /-- `read_bytes`. -/
  content : Option Bytes

/-- The `WriteEvent` of a file. -/
def writeEvent (C : Config) (rel : Str) (st : Stat) (content : Bytes) (nowNs : Int) :
    WriteEvent where
  path := rel
  rapidhash := rapidhash content
  size := st.size
  mtimeS := st.mtimeNs / 1000000000
  mtimeNs := st.mtimeNs % 1000000000
  recvTsNs := nowNs
  -- `stat_mode`
  mode := (st.mode &&& 0o7777 : Nat)
  uidName := (C.getpwuid st.uid).getD (Json.dumpInt st.uid)
  gidName := (C.getgrgid st.gid).getD (Json.dumpInt st.gid)

/-- How far a flush has come. -/
inductive Stage where
  | start
  /-- The file is there and has not been read. -/
  | statted (nowNs : Int) (st : Stat)
  /-- The event is made and has not been put. -/
  | ready (event : SyncEvent)

/-- A flush that is being worked off. -/
structure Job where
  dispatch : Dispatch
  stage : Stage := .start

/-- One step of `_on_flush` or `_on_rename_flush`, up to the event that is put last. -/
def advance (C : Config) (files : Str → LocalFile) (nowNs : Int) (job : Job) : Job :=
  match job.dispatch.flush, job.stage with
  | .file rel .delete, .start => { job with stage := .ready (.delete ⟨rel, nowNs⟩) }
  | .file rel _, .start =>
    match (files rel).stat with
    -- the file disappeared between the event and the flush
    | none => { job with stage := .ready (.delete ⟨rel, nowNs⟩) }
    | some st => { job with stage := .statted nowNs st }
  | .file rel _, .statted nowNs st =>
    match (files rel).content with
    | none => { job with stage := .ready (.delete ⟨rel, nowNs⟩) }
    | some content => { job with stage := .ready (.write (writeEvent C rel st content nowNs)) }
  | .rename old new, .start =>
    match (files new).stat with
    | none => { job with stage := .ready (.delete ⟨old, nowNs⟩) }
    | some _ => { job with stage := .ready (.rename ⟨old, new, nowNs⟩) }
  | _, _ => job

/-- What `watchdog` reports. -/
inductive FileSystemEvent where
  | created (isDirectory : Bool) (srcPath : Str)
  | modified (isDirectory : Bool) (srcPath : Str)
  | deleted (isDirectory : Bool) (srcPath : Str)
  /-- `FileMovedEvent` or `DirMovedEvent`. -/
  | moved (srcPath destPath : Str)

/-- `_Handler`: the call that a report becomes. -/
def handle : FileSystemEvent → Option Call
  | .created isDirectory srcPath => if isDirectory then none else some (.onWrite srcPath)
  | .modified isDirectory srcPath => if isDirectory then none else some (.onWrite srcPath)
  | .deleted isDirectory srcPath =>
    if isDirectory then some (.onDelete (srcPath ++ [sep])) else some (.onDelete srcPath)
  | .moved srcPath destPath => some (.onRename srcPath destPath)

/-! ### The threads -/

/-- An entry of the log. -/
inductive Record where
  /-- A call, when it takes the lock. -/
  | called (c : Call)
  /-- `_put`, by a call that holds the lock or else by a timer callback. -/
  | put (caller : Option Call) (d : Dispatch) (event : SyncEvent)

/-- A watcher that runs. -/
structure State where
  files : Str → LocalFile
  debouncer : Debouncer.State := {}
  /-- The call that holds the lock, and the flushes that it has to work off. -/
  holder : Option (Call × List Job) := none
  /-- The timer callbacks that have let go of the lock, each with its flush. -/
  callbacks : List Job := []
  log : List Record := []

/-- What can happen. -/
inductive Act where
  /-- The files change, in any way. -/
  | change (files : Str → LocalFile)
  /-- The observer reports an event. -/
  | observe (now : ℚ) (event : FileSystemEvent)
  /-- `stop` calls `flush_all`. -/
  | stop (now : ℚ)
  /-- The callback of a timer takes the lock. -/
  | fire (now : ℚ) (k : Nat)
  /-- The call that holds the lock goes on, or lets go of it. -/
  | work (nowNs : Int)
  /-- A timer callback that has let go of the lock goes on. -/
  | callback (i : Nat) (nowNs : Int)

/-- The flushes of a call, none of them begun. -/
def newJobs (ds : List Dispatch) : List Job := ds.map fun d => { dispatch := d }

/-- A call takes the lock, if that is free. What a timer callback passes on is worked off without
it. -/
def enter (C : Config) (s : State) (now : ℚ) (c : Call) : State :=
  match s.holder with
  | some _ => s
  | none =>
    let (debouncer, ds) := Debouncer.call C.toConfig s.debouncer now c
    let log := s.log ++ [.called c]
    match c with
    | .timer _ =>
      { s with debouncer := debouncer, log := log, callbacks := s.callbacks ++ newJobs ds }
    | _ => { s with debouncer := debouncer, log := log, holder := some (c, newJobs ds) }

/-- One step. -/
def step (C : Config) (s : State) : Act → State
  | .change files => { s with files := files }
  | .observe now event =>
    match handle event with
    | none => s
    | some c => enter C s now c
  | .stop now => enter C s now .flushAll
  | .fire now k => enter C s now (.timer k)
  | .work nowNs =>
    match s.holder with
    | none => s
    | some (_, []) => { s with holder := none }
    | some (c, job :: jobs) =>
      match job.stage with
      | .ready event =>
        { s with holder := some (c, jobs), log := s.log ++ [.put (some c) job.dispatch event] }
      | _ => { s with holder := some (c, advance C s.files nowNs job :: jobs) }
  | .callback i nowNs =>
    match s.callbacks[i]? with
    | none => s
    | some job =>
      match job.stage with
      | .ready event =>
        { s with
          callbacks := s.callbacks.eraseIdx i
          log := s.log ++ [.put none job.dispatch event] }
      | _ => { s with callbacks := s.callbacks.set i (advance C s.files nowNs job) }

/-- A watcher that has just been started. -/
def start (files : Str → LocalFile) : State := { files := files }

/-! ### What a flush comes to -/

/-- The stages that a flush can come to. -/
def Reaches (flush : Flush) : Stage → Prop
  | .start => True
  | .statted _ _ => ∃ rel op, flush = .file rel op ∧ op ≠ .delete
  | .ready (.write e) => ∃ op, flush = .file e.path op ∧ op ≠ .delete
  | .ready (.delete e) => (∃ op, flush = .file e.path op) ∨ ∃ new, flush = .rename e.path new
  | .ready (.rename e) => flush = .rename e.oldPath e.newPath

section Advance

variable {C : Config} {files : Str → LocalFile} {nowNs : Int} {job : Job}

@[simp] theorem advance_dispatch : (advance C files nowNs job).dispatch = job.dispatch := by
  unfold advance
  split
  · rfl
  · split
    · rfl
    · rfl
  · split
    · rfl
    · rfl
  · split
    · rfl
    · rfl
  · rfl

theorem reaches_advance (h : Reaches job.dispatch.flush job.stage) :
    Reaches job.dispatch.flush (advance C files nowNs job).stage := by
  unfold advance
  split
  · rename_i rel hflush hstage
    exact Or.inl ⟨.delete, hflush⟩
  · rename_i rel op hop hflush hstage
    split
    · exact Or.inl ⟨op, hflush⟩
    · exact ⟨rel, op, hflush, hop⟩
  · rename_i rel op now st hflush hstage
    rw [hstage] at h
    obtain ⟨rel', op', hflush', hop⟩ := h
    split
    · exact Or.inl ⟨op, hflush⟩
    · refine ⟨op, hflush, ?_⟩
      rw [hflush] at hflush'
      cases hflush'
      exact hop
  · rename_i old new hflush hstage
    split
    · exact Or.inr ⟨new, hflush⟩
    · exact hflush
  · exact h

/-- **A write event is made by reading the file.** -/
theorem advance_write {e : WriteEvent} (hnot : ∀ event, job.stage ≠ .ready event)
    (h : (advance C files nowNs job).stage = .ready (.write e)) :
    ∃ op now st, job.dispatch.flush = .file e.path op ∧ job.stage = .statted now st ∧
      (files e.path).content ≠ none := by
  unfold advance at h
  split at h
  · cases h
  · split at h
    · cases h
    · cases h
  · rename_i rel op now st hflush hstage
    split at h
    · cases h
    · rename_i content hcontent
      cases h
      refine ⟨op, now, st, hflush, hstage, ?_⟩
      show (files rel).content ≠ none
      rw [hcontent]
      simp
  · split at h
    · cases h
    · cases h
  · exact absurd h (hnot _)

end Advance

/-! ### What a step can do -/

/-- The state after a call has taken the lock. -/
def entered (C : Config) (s : State) (now : ℚ) (c : Call) : State :=
  { s with
    debouncer := (Debouncer.call C.toConfig s.debouncer now c).1
    log := s.log ++ [.called c] }

/-- **What a step can do.** -/
inductive Moves (C : Config) (s : State) (a : Act) : State → Prop
  | idle : Moves C s a s
  | changed (files : Str → LocalFile) : Moves C s a { s with files := files }
  /-- The observer or `stop` takes the lock. -/
  | called {c : Call} {now : ℚ} (hfree : s.holder = none) :
      Moves C s a { entered C s now c with
        holder := some (c, newJobs (Debouncer.call C.toConfig s.debouncer now c).2) }
  /-- A timer callback has taken the lock and let go of it. -/
  | fired {k : Nat} {now : ℚ} (hfree : s.holder = none) :
      Moves C s a { entered C s now (.timer k) with
        callbacks := s.callbacks ++
          newJobs (Debouncer.call C.toConfig s.debouncer now (.timer k)).2 }
  | released {c : Call} (hholder : s.holder = some (c, [])) : Moves C s a { s with holder := none }
  /-- The call that holds the lock goes on with its first flush. -/
  | worked {c : Call} {job : Job} {jobs : List Job} {nowNs : Int} (ha : a = .work nowNs)
      (hholder : s.holder = some (c, job :: jobs)) (hnot : ∀ event, job.stage ≠ .ready event) :
      Moves C s a { s with holder := some (c, advance C s.files nowNs job :: jobs) }
  /-- It puts the event of its first flush. -/
  | put {c : Call} {job : Job} {jobs : List Job} {event : SyncEvent} {nowNs : Int}
      (ha : a = .work nowNs) (hholder : s.holder = some (c, job :: jobs))
      (hready : job.stage = .ready event) :
      Moves C s a { s with
        holder := some (c, jobs)
        log := s.log ++ [.put (some c) job.dispatch event] }
  /-- A timer callback goes on. -/
  | workedOpen {i : Nat} {job : Job} {nowNs : Int} (ha : a = .callback i nowNs)
      (hjob : s.callbacks[i]? = some job) (hnot : ∀ event, job.stage ≠ .ready event) :
      Moves C s a { s with callbacks := s.callbacks.set i (advance C s.files nowNs job) }
  /-- A timer callback puts its event, without the lock. -/
  | putOpen {i : Nat} {job : Job} {event : SyncEvent} {nowNs : Int} (ha : a = .callback i nowNs)
      (hjob : s.callbacks[i]? = some job) (hready : job.stage = .ready event) :
      Moves C s a { s with
        callbacks := s.callbacks.eraseIdx i
        log := s.log ++ [.put none job.dispatch event] }

section Moves

variable {C : Config} {s : State} {a : Act}

theorem moves_enter (now : ℚ) (c : Call) : Moves C s a (enter C s now c) := by
  unfold enter
  split
  · exact .idle
  rename_i hfree
  dsimp only
  split
  · exact .fired hfree
  · exact .called hfree

theorem step_moves (C : Config) (s : State) (a : Act) : Moves C s a (step C s a) := by
  cases a with
  | change files => exact .changed files
  | observe now event =>
    rw [step]
    split
    · exact .idle
    · exact moves_enter now _
  | stop now => exact moves_enter now .flushAll
  | fire now k => exact moves_enter now (.timer k)
  | work nowNs =>
    rw [step]
    split
    · exact .idle
    · rename_i c hholder
      exact .released hholder
    · rename_i c job jobs hholder
      split
      · rename_i event hready
        exact .put rfl hholder hready
      · rename_i hnot
        exact .worked rfl hholder hnot
  | callback i nowNs =>
    rw [step]
    split
    · exact .idle
    · rename_i job hjob
      split
      · rename_i event hready
        exact .putOpen rfl hjob hready
      · rename_i hnot
        exact .workedOpen rfl hjob hnot

end Moves

/-! ### A delete is the last word -/

/-- An `on_delete` of a path. -/
def Deletes (C : Config) (c : Call) (rel : Str) : Prop :=
  ∃ absPath, c = .onDelete absPath ∧ C.tracked absPath = some rel

/-- An `on_write` or an `on_rename` that names a path. -/
def Revives (C : Config) (c : Call) (rel : Str) : Prop :=
  (∃ absPath, c = .onWrite absPath ∧ C.tracked absPath = some rel) ∨
    ∃ absSrc absDst, c = .onRename absSrc absDst ∧
      (C.tracked absSrc = some rel ∨ C.tracked absDst = some rel)

/-- **A delete is the last word**: when `on_delete` has put its event and no later `on_write` or
`on_rename` names the path, no write event of the path is put after it. -/
def DeleteIsLast (C : Config) (log : List Record) : Prop :=
  ∀ before c d rel ts after, log = before ++ .put (some c) d (.delete ⟨rel, ts⟩) :: after →
    Deletes C c rel → (∀ c', .called c' ∈ after → ¬ Revives C c' rel) →
    ∀ caller d' e, .put caller d' (.write e) ∈ after → e.path ≠ rel

/-- The last that was said of a path is that it was deleted. -/
def LastWord (C : Config) (log : List Record) (rel : Str) : Prop :=
  ∃ before c d ts after, log = before ++ .put (some c) d (.delete ⟨rel, ts⟩) :: after ∧
    Deletes C c rel ∧ ∀ c', .called c' ∈ after → ¬ Revives C c' rel

/-- **The condition.** When `on_delete` puts its event, no timer callback of the path has read the
file and not yet put what it read. A callback that reads the file later, with nothing said of the
path since, finds none. -/
def NoRace (C : Config) (s : State) : Act → Prop
  | .work _ => ∀ c job jobs rel ts, s.holder = some (c, job :: jobs) → Deletes C c rel →
      job.stage = .ready (.delete ⟨rel, ts⟩) →
      ∀ other ∈ s.callbacks, ∀ e, other.stage = .ready (.write e) → e.path ≠ rel
  | .callback i _ => ∀ job rel op nowNs st, s.callbacks[i]? = some job →
      job.dispatch.flush = .file rel op → job.stage = .statted nowNs st → LastWord C s.log rel →
      (s.files rel).content = none
  | _ => True

section Logs

variable {C : Config} {log : List Record} {r : Record} {rel : Str}

/-- What is said last is said before the last record, and that does not revive the path; or it is
the last record. -/
theorem LastWord.concat_inv (h : LastWord C (log ++ [r]) rel) :
    (LastWord C log rel ∧ ∀ c, r = .called c → ¬ Revives C c rel) ∨
      ∃ c d ts, r = .put (some c) d (.delete ⟨rel, ts⟩) ∧ Deletes C c rel := by
  obtain ⟨before, c, d, ts, after, heq, hdeletes, hquiet⟩ := h
  rcases List.eq_nil_or_concat after with rfl | ⟨after, r', rfl⟩
  · obtain ⟨-, hr⟩ := List.append_inj' heq rfl
    cases hr
    exact Or.inr ⟨c, d, ts, rfl, hdeletes⟩
  · rw [List.concat_eq_append] at heq hquiet
    rw [← List.cons_append, ← List.append_assoc] at heq
    obtain ⟨hlog, hr⟩ := List.append_inj' heq rfl
    cases hr
    refine Or.inl ⟨⟨before, c, d, ts, after, hlog, hdeletes, fun c' hc' =>
      hquiet c' (List.mem_append_left _ hc')⟩, ?_⟩
    rintro c' rfl
    exact hquiet c' (List.mem_append_right _ (List.mem_singleton_self _))

/-- A record may be added unless it is a write of a path on which a delete was the last word. -/
theorem DeleteIsLast.concat (h : DeleteIsLast C log)
    (hr : ∀ caller d e, r = .put caller d (.write e) → ¬ LastWord C log e.path) :
    DeleteIsLast C (log ++ [r]) := by
  intro before c d rel ts after heq hdeletes hquiet caller d' e he
  rcases List.eq_nil_or_concat after with rfl | ⟨after, r', rfl⟩
  · cases he
  rw [List.concat_eq_append] at heq hquiet he
  rw [← List.cons_append, ← List.append_assoc] at heq
  obtain ⟨hlog, hr'⟩ := List.append_inj' heq rfl
  cases hr'
  have hquiet' : ∀ c', .called c' ∈ after → ¬ Revives C c' rel := fun c' hc' =>
    hquiet c' (List.mem_append_left _ hc')
  rcases List.mem_append.mp he with he | he
  · exact h before c d rel ts after hlog hdeletes hquiet' caller d' e he
  · rintro rfl
    exact hr caller d' e (List.mem_singleton.mp he).symm
      ⟨before, c, d, ts, after, hlog, hdeletes, hquiet'⟩

end Logs

/-- **What keeps a delete the last word.** -/
structure Orderly (C : Config) (s : State) : Prop where
  armed : Debouncer.Armed s.debouncer
  /-- Every flush is at a stage that it can come to. -/
  held : ∀ c jobs, s.holder = some (c, jobs) → ∀ job ∈ jobs, Reaches job.dispatch.flush job.stage
  open_ : ∀ job ∈ s.callbacks, Reaches job.dispatch.flush job.stage
  /-- While `on_delete` holds the lock, the path is clean and there is nothing but the delete. -/
  deleting : ∀ c jobs rel, s.holder = some (c, jobs) → Deletes C c rel →
    s.debouncer.dirty.get? rel = none ∧ ∀ job ∈ jobs, job.dispatch.flush = .file rel .delete
  /-- After the last word, nothing is left that could write the path. -/
  clean : ∀ rel, LastWord C s.log rel → s.debouncer.dirty.get? rel = none
  noWrite : ∀ rel, LastWord C s.log rel → ∀ c jobs, s.holder = some (c, jobs) →
    ∀ job ∈ jobs, ∀ op, job.dispatch.flush = .file rel op → op = .delete
  notRead : ∀ rel, LastWord C s.log rel → ∀ job ∈ s.callbacks, ∀ e,
    job.stage = .ready (.write e) → e.path ≠ rel
  last : DeleteIsLast C s.log

section Calls

variable {C : Config} {s : Debouncer.State} {c : Call} {rel : Str}

theorem revives_of_asksWrite (h : Debouncer.AsksWrite C.toConfig c rel) : Revives C c rel := by
  rcases h with hwrite | ⟨absSrc, absDst, hc, -, hdst⟩
  · exact Or.inl hwrite
  · exact Or.inr ⟨absSrc, absDst, hc, Or.inr hdst⟩

theorem revives_of_asksRename {src dst : Str} (h : Debouncer.AsksRename C.toConfig c src dst)
    (hrel : rel = src ∨ rel = dst) : Revives C c rel := by
  obtain ⟨absSrc, absDst, hc, hsrc, hdst⟩ := h
  rcases hrel with rfl | rfl
  · exact Or.inr ⟨absSrc, absDst, hc, Or.inl hsrc⟩
  · exact Or.inr ⟨absSrc, absDst, hc, Or.inr hdst⟩

/-- A bulk flush passes on nothing of a clean path. -/
theorem heldBack_of_clean (h : s.dirty.get? rel = none) :
    ∀ d ∈ s.heldBack, ∀ op, d.flush = .file rel op → op = .delete := by
  intro d hd op hflush
  obtain ⟨item, hitem, rfl⟩ := List.mem_map.mp hd
  cases hflush
  rw [(s.dirty.mem_items_iff).mp hitem] at h
  cases h

/-- A call that does not revive a clean path leaves it clean, and passes on no write of it. -/
theorem call_quiet (now : ℚ) (hwrites : Debouncer.OnlyWrites s) (hnone : s.dirty.get? rel = none)
    (hnot : ¬ Revives C c rel) :
    (Debouncer.call C.toConfig s now c).1.dirty.get? rel = none ∧
      ∀ d ∈ (Debouncer.call C.toConfig s now c).2, ∀ op, d.flush = .file rel op →
        op = .delete := by
  obtain ⟨s', hdoes, heq⟩ := Debouncer.call_does C.toConfig now hwrites c
  generalize (Debouncer.call C.toConfig s now c).2 = ds at hdoes
  rw [heq]
  show s'.dirty.get? rel = none ∧ _
  -- a write that is asked for is of another path
  have harm : ∀ {p : Str}, Debouncer.AsksWrite C.toConfig c p →
      (Debouncer.arm C.toConfig s now p .write).dirty.get? rel = none := by
    intro p hc
    have hne : rel ≠ p := by
      rintro rfl
      exact hnot (revives_of_asksWrite hc)
    rw [Debouncer.arm_eq]
    exact (Dict.get?_set_of_ne _ _ hne).trans hnone
  cases hdoes with
  | nothing => exact ⟨hnone, List.forall_mem_nil _⟩
  | armed hc => exact ⟨harm hc, List.forall_mem_nil _⟩
  | overflowed hc => exact ⟨rfl, heldBack_of_clean (harm hc)⟩
  | @deleted p hc =>
    refine ⟨?_, fun d hd op hflush => ?_⟩
    · by_cases hne : rel = p
      · rw [hne]
        exact Dict.get?_erase_self _ _
      · exact (Dict.get?_erase_of_ne _ hne).trans hnone
    · rw [List.mem_singleton.mp hd] at hflush
      cases hflush
      rfl
  | @renamed src dst hc =>
    have hneSrc : rel ≠ src := fun heq => hnot (revives_of_asksRename hc (Or.inl heq))
    have hneDst : rel ≠ dst := fun heq => hnot (revives_of_asksRename hc (Or.inr heq))
    refine ⟨?_, fun d hd op hflush => ?_⟩
    · rw [Dict.get?_erase_of_ne _ hneDst, Dict.get?_erase_of_ne _ hneSrc]
      exact hnone
    · rw [List.mem_singleton.mp hd] at hflush
      cases hflush
  | flushed => exact ⟨rfl, heldBack_of_clean hnone⟩
  | idle => exact ⟨hnone, List.forall_mem_nil _⟩
  | @fired k t e _ _ _ he =>
    -- a timer that finds an entry is of another path
    have hne : rel ≠ t.rel := by
      rintro rfl
      rw [hnone] at he
      cases he
    refine ⟨(Dict.get?_erase_of_ne _ hne).trans hnone, fun d hd op hflush => ?_⟩
    rw [List.mem_singleton.mp hd] at hflush
    cases hflush
    exact absurd rfl hne

/-- An `on_delete` leaves the path clean, and passes on the delete. -/
theorem call_delete (s : Debouncer.State) (now : ℚ) (h : Deletes C c rel) :
    (Debouncer.call C.toConfig s now c).1.dirty.get? rel = none ∧
      ∀ d ∈ (Debouncer.call C.toConfig s now c).2, d.flush = .file rel .delete := by
  obtain ⟨absPath, rfl, hrel⟩ := h
  show (Debouncer.onDelete C.toConfig s absPath).1.dirty.get? rel = none ∧
    ∀ d ∈ (Debouncer.onDelete C.toConfig s absPath).2, d.flush = .file rel .delete
  unfold Debouncer.onDelete
  rw [hrel]
  dsimp only
  rw [Debouncer.cancel_eq, Debouncer.flushNow, Debouncer.dispatch_of_ne (by decide)]
  refine ⟨Dict.get?_erase_self _ _, fun d hd => ?_⟩
  rw [List.mem_singleton.mp hd]

end Calls

section Order

variable {C : Config} {s : State}

theorem mem_newJobs {ds : List Dispatch} {job : Job} (h : job ∈ newJobs ds) :
    ∃ d ∈ ds, job = { dispatch := d } := by
  obtain ⟨d, hd, rfl⟩ := List.mem_map.mp h
  exact ⟨d, hd, rfl⟩

theorem orderly_start (C : Config) (files : Str → LocalFile) : Orderly C (start files) where
  armed := Debouncer.armed_start
  held c jobs h := by cases h
  open_ := List.forall_mem_nil _
  deleting c jobs rel h := by cases h
  clean rel h := rfl
  noWrite rel _ c jobs h := by cases h
  notRead rel _ := List.forall_mem_nil _
  last before c d rel ts after h := by simp [start] at h

/-- A call that takes the lock, and what it means for the last words so far. -/
theorem Orderly.entered (h : Orderly C s) (now : ℚ) {c : Call} {rel : Str}
    (hlast : LastWord C (s.log ++ [.called c]) rel) :
    (Debouncer.call C.toConfig s.debouncer now c).1.dirty.get? rel = none ∧
      (∀ d ∈ (Debouncer.call C.toConfig s.debouncer now c).2, ∀ op, d.flush = .file rel op →
        op = .delete) ∧ LastWord C s.log rel := by
  rcases hlast.concat_inv with ⟨hbefore, hquiet⟩ | ⟨c', d, ts, hr, -⟩
  · obtain ⟨hclean, hflush⟩ := call_quiet now h.armed.writes (h.clean rel hbefore)
      (hquiet c rfl)
    exact ⟨hclean, hflush, hbefore⟩
  · cases hr

/-- The observer or `stop` takes the lock. -/
theorem Orderly.called (h : Orderly C s) (now : ℚ) (c : Call) :
    Orderly C { SiloWatcher.entered C s now c with
      holder := some (c, newJobs (Debouncer.call C.toConfig s.debouncer now c).2) } := by
  refine
    { armed := h.armed.call C.toConfig now c
      held := ?_
      open_ := h.open_
      deleting := ?_
      clean := fun rel hlast => (h.entered now hlast).1
      noWrite := ?_
      notRead := fun rel hlast => h.notRead rel (h.entered now hlast).2.2
      last := h.last.concat fun caller d e hr => by cases hr }
  · rintro c' jobs ⟨⟩ job hjob
    obtain ⟨d, -, rfl⟩ := mem_newJobs hjob
    trivial
  · rintro c' jobs rel ⟨⟩ hdeletes
    obtain ⟨hclean, hflush⟩ := call_delete s.debouncer now hdeletes
    refine ⟨hclean, fun job hjob => ?_⟩
    obtain ⟨d, hd, rfl⟩ := mem_newJobs hjob
    exact hflush d hd
  · rintro rel hlast c' jobs ⟨⟩ job hjob op hop
    obtain ⟨d, hd, rfl⟩ := mem_newJobs hjob
    exact (h.entered now hlast).2.1 d hd op hop

/-- A timer callback takes the lock and lets go of it. -/
theorem Orderly.fired (h : Orderly C s) (now : ℚ) (k : Nat) (hfree : s.holder = none) :
    Orderly C { SiloWatcher.entered C s now (.timer k) with
      callbacks := s.callbacks ++
        newJobs (Debouncer.call C.toConfig s.debouncer now (.timer k)).2 } := by
  refine
    { armed := h.armed.call C.toConfig now (.timer k)
      held := fun c jobs hholder => ?_
      open_ := ?_
      deleting := fun c jobs rel hholder => ?_
      clean := fun rel hlast => (h.entered now hlast).1
      noWrite := fun rel _ c jobs hholder => ?_
      notRead := ?_
      last := h.last.concat fun caller d e hr => by cases hr }
  · cases hfree.symm.trans hholder
  · -- the new callbacks have not looked at a file yet
    intro job hjob
    rcases List.mem_append.mp hjob with hjob | hjob
    · exact h.open_ job hjob
    · obtain ⟨d, -, rfl⟩ := mem_newJobs hjob
      trivial
  · cases hfree.symm.trans hholder
  · cases hfree.symm.trans hholder
  · intro rel hlast job hjob e hready
    rcases List.mem_append.mp hjob with hjob | hjob
    · exact h.notRead rel (h.entered now hlast).2.2 job hjob e hready
    · obtain ⟨d, -, rfl⟩ := mem_newJobs hjob
      cases hready

/-- The call that holds the lock goes on. -/
theorem Orderly.worked (h : Orderly C s) {c : Call} {job : Job} {jobs : List Job} (nowNs : Int)
    (hholder : s.holder = some (c, job :: jobs)) :
    Orderly C { s with holder := some (c, advance C s.files nowNs job :: jobs) } := by
  refine
    { h with
      held := ?_
      deleting := ?_
      noWrite := ?_ }
  -- the job goes on with the dispatch it began with
  · rintro c' jobs' ⟨⟩ job' hjob'
    rcases List.mem_cons.mp hjob' with rfl | hjob'
    · rw [advance_dispatch]
      exact reaches_advance (h.held c _ hholder job List.mem_cons_self)
    · exact h.held c _ hholder job' (List.mem_cons_of_mem _ hjob')
  · rintro c' jobs' rel ⟨⟩ hdeletes
    obtain ⟨hclean, hflush⟩ := h.deleting c _ rel hholder hdeletes
    refine ⟨hclean, fun job' hjob' => ?_⟩
    rcases List.mem_cons.mp hjob' with rfl | hjob'
    · rw [advance_dispatch]
      exact hflush job List.mem_cons_self
    · exact hflush job' (List.mem_cons_of_mem _ hjob')
  · rintro rel hlast c' jobs' ⟨⟩ job' hjob' op hop
    rcases List.mem_cons.mp hjob' with rfl | hjob'
    · rw [advance_dispatch] at hop
      exact h.noWrite rel hlast c _ hholder job List.mem_cons_self op hop
    · exact h.noWrite rel hlast c _ hholder job' (List.mem_cons_of_mem _ hjob') op hop

/-- The call that holds the lock puts an event. If that is a delete, no timer callback may have the
file in its hands. -/
theorem Orderly.put (h : Orderly C s) {c : Call} {job : Job} {jobs : List Job} {event : SyncEvent}
    (hholder : s.holder = some (c, job :: jobs)) (hready : job.stage = .ready event)
    (hguard : ∀ rel ts, Deletes C c rel → event = .delete ⟨rel, ts⟩ →
      ∀ other ∈ s.callbacks, ∀ e, other.stage = .ready (.write e) → e.path ≠ rel) :
    Orderly C { s with
      holder := some (c, jobs)
      log := s.log ++ [.put (some c) job.dispatch event] } := by
  have hreaches := h.held c _ hholder job List.mem_cons_self
  rw [hready] at hreaches
  -- the last words of the longer log, with what was known of them
  have hwords : ∀ rel, LastWord C (s.log ++ [.put (some c) job.dispatch event]) rel →
      LastWord C s.log rel ∨ (Deletes C c rel ∧ ∃ ts, event = .delete ⟨rel, ts⟩) := by
    intro rel hlast
    rcases hlast.concat_inv with ⟨hbefore, -⟩ | ⟨c', d, ts, hr, hdeletes⟩
    · exact Or.inl hbefore
    · cases hr
      exact Or.inr ⟨hdeletes, ts, rfl⟩
  refine
    { armed := h.armed
      held := ?_
      open_ := h.open_
      deleting := ?_
      clean := fun rel hlast => ?_
      noWrite := ?_
      notRead := fun rel hlast => ?_
      last := h.last.concat ?_ }
  · rintro c' jobs' ⟨⟩ job' hjob'
    exact h.held c _ hholder job' (List.mem_cons_of_mem _ hjob')
  · rintro c' jobs' rel ⟨⟩ hdeletes
    obtain ⟨hclean, hflush⟩ := h.deleting c _ rel hholder hdeletes
    exact ⟨hclean, fun job' hjob' => hflush job' (List.mem_cons_of_mem _ hjob')⟩
  · rcases hwords rel hlast with hbefore | ⟨hdeletes, -⟩
    · exact h.clean rel hbefore
    · exact (h.deleting c _ rel hholder hdeletes).1
  · rintro rel hlast c' jobs' ⟨⟩ job' hjob' op hop
    have hmem := List.mem_cons_of_mem job hjob'
    rcases hwords rel hlast with hbefore | ⟨hdeletes, -⟩
    · exact h.noWrite rel hbefore c _ hholder job' hmem op hop
    · rw [(h.deleting c _ rel hholder hdeletes).2 job' hmem] at hop
      cases hop
      rfl
  · rcases hwords rel hlast with hbefore | ⟨hdeletes, ts, rfl⟩
    · exact h.notRead rel hbefore
    · exact hguard rel ts hdeletes rfl
  · rintro caller d e hr hlast
    cases hr
    obtain ⟨op, hflush, hop⟩ := hreaches
    exact hop (h.noWrite e.path hlast c _ hholder job List.mem_cons_self op hflush)

/-- A timer callback goes on. If it reads a file after the last word on it, there must be none. -/
theorem Orderly.workedOpen (h : Orderly C s) {i : Nat} {job : Job} (nowNs : Int)
    (hjob : s.callbacks[i]? = some job) (hnot : ∀ event, job.stage ≠ .ready event)
    (hguard : ∀ rel op nowNs st, job.dispatch.flush = .file rel op →
      job.stage = .statted nowNs st → LastWord C s.log rel → (s.files rel).content = none) :
    Orderly C { s with callbacks := s.callbacks.set i (advance C s.files nowNs job) } := by
  have hmem : job ∈ s.callbacks := List.mem_of_getElem? hjob
  refine { h with open_ := fun job' hjob' => ?_, notRead := fun rel hlast job' hjob' e he => ?_ }
  · rcases List.mem_or_eq_of_mem_set hjob' with hjob' | rfl
    · exact h.open_ job' hjob'
    · rw [advance_dispatch]
      exact reaches_advance (h.open_ job hmem)
  · rcases List.mem_or_eq_of_mem_set hjob' with hjob' | rfl
    · exact h.notRead rel hlast job' hjob' e he
    · obtain ⟨op, nowNs', st, hflush, hstage, hcontent⟩ := advance_write hnot he
      rintro rfl
      exact hcontent (hguard e.path op nowNs' st hflush hstage hlast)

/-- A timer callback puts its event. -/
theorem Orderly.putOpen (h : Orderly C s) {i : Nat} {job : Job} {event : SyncEvent}
    (hjob : s.callbacks[i]? = some job) (hready : job.stage = .ready event) :
    Orderly C { s with
      callbacks := s.callbacks.eraseIdx i
      log := s.log ++ [.put none job.dispatch event] } := by
  have hmem : job ∈ s.callbacks := List.mem_of_getElem? hjob
  have hwords : ∀ rel, LastWord C (s.log ++ [.put none job.dispatch event]) rel →
      LastWord C s.log rel := by
    intro rel hlast
    rcases hlast.concat_inv with ⟨hbefore, -⟩ | ⟨c', d, ts, hr, -⟩
    · exact hbefore
    · cases hr
  refine
    { h with
      open_ := fun job' hjob' => h.open_ job' (List.mem_of_mem_eraseIdx hjob')
      clean := fun rel hlast => h.clean rel (hwords rel hlast)
      noWrite := fun rel hlast => h.noWrite rel (hwords rel hlast)
      notRead := fun rel hlast job' hjob' =>
        h.notRead rel (hwords rel hlast) job' (List.mem_of_mem_eraseIdx hjob')
      last := h.last.concat ?_ }
  rintro caller d e hr hlast
  cases hr
  exact h.notRead e.path hlast job hmem e hready rfl

/-- **One step that meets the condition keeps order.** -/
theorem Orderly.step (h : Orderly C s) (a : Act) (hguard : NoRace C s a) :
    Orderly C (step C s a) := by
  have hmoves := step_moves C s a
  generalize SiloWatcher.step C s a = s' at hmoves ⊢
  cases hmoves with
  | idle => exact h
  | changed files => exact { h with }
  | @called c now hfree => exact h.called now c
  | @fired k now hfree => exact h.fired now k hfree
  | released hholder =>
    exact
      { h with
        held := fun c jobs hnone => by cases hnone
        deleting := fun c jobs rel hnone => by cases hnone
        noWrite := fun rel _ c jobs hnone => by cases hnone }
  | @worked c job jobs nowNs ha hholder hnot => exact h.worked nowNs hholder
  | @put c job jobs event nowNs ha hholder hready =>
    rw [ha] at hguard
    refine h.put hholder hready fun rel ts hdeletes hevent => ?_
    rw [hevent] at hready
    exact hguard c job jobs rel ts hholder hdeletes hready
  | @workedOpen i job nowNs ha hjob hnot =>
    rw [ha] at hguard
    exact h.workedOpen nowNs hjob hnot fun rel op nowNs st => hguard job rel op nowNs st hjob
  | @putOpen i job event nowNs ha hjob hready => exact h.putOpen hjob hready

end Order

/-- **When a delete is the last word.** In every run, under every interleaving of the observer, the
timer callbacks and changes to the files, whose steps all meet the condition. -/
theorem delete_last_of_noRace (C : Config) (files : Str → LocalFile) (acts : List Act)
    (h : Run.Guarded (step C) (NoRace C) (start files) acts) :
    DeleteIsLast C (Run.run (step C) (start files) acts).log := by
  have hstep : ∀ s a, Orderly C s → NoRace C s a → Orderly C (step C s a) :=
    fun s a hs ha => hs.step a ha
  exact (Run.run_invariant hstep (orderly_start C files) h).last

/-! ### A silo at `/srv` with one file -/

def sampleConfig : Config where
  toConfig := Debouncer.sampleConfig
  getpwuid _ := some (lit "alice")
  getgrgid _ := some (lit "users")

def sampleStat : Stat := ⟨0, 0, 0o644, 1000, 100⟩

/-- An empty file of each name. -/
def sampleFiles : Str → LocalFile := fun _ => ⟨some sampleStat, some []⟩

/-- No files. -/
def noFiles : Str → LocalFile := fun _ => ⟨none, none⟩

/-- The file is written, its timer fires, and the file is deleted and that reported, all in turn. -/
def inTurn : List Act :=
  [.observe 0 (.created false (lit "/srv/notes")), .work 0, .fire 1 0, .callback 0 1,
    .callback 0 2, .callback 0 3, .change noFiles,
    .observe 2 (.deleted false (lit "/srv/notes")), .work 4, .work 5, .work 6]

/-- The same, but the callback is held up between reading the file and putting its event. -/
def overtaken : List Act :=
  [.observe 0 (.created false (lit "/srv/notes")), .work 0, .fire 1 0, .callback 0 1,
    .callback 0 2, .change noFiles,
    .observe 2 (.deleted false (lit "/srv/notes")), .work 4, .work 5, .callback 0 3]

/-- The write event of the sample file. -/
def sampleWrite : WriteEvent := writeEvent sampleConfig (lit "notes") sampleStat [] 1

/-- The log of the run in turn: the write event, and then the delete event. -/
def inTurnLog : List Record :=
  [.called (.onWrite (lit "/srv/notes")), .called (.timer 0),
    .put none ⟨lit "notes", .file (lit "notes") .write, [0]⟩ (.write sampleWrite),
    .called (.onDelete (lit "/srv/notes")),
    .put (some (.onDelete (lit "/srv/notes"))) ⟨lit "notes", .file (lit "notes") .delete, [2]⟩
      (.delete ⟨lit "notes", 4⟩)]

theorem inTurn_noRace :
    Run.Guarded (step sampleConfig) (NoRace sampleConfig) (start sampleFiles) inTurn := by
  -- while the lock is held here, no callback is under way
  have hwork : ∀ {s : State} {nowNs : Int}, s.callbacks = [] →
      NoRace sampleConfig s (.work nowNs) := by
    intro s nowNs hnone c job jobs rel ts _ _ _ other hother
    rw [hnone] at hother
    cases hother
  -- the callbacks are done before anything is deleted
  have hcallback : ∀ {s : State} {i : Nat} {nowNs : Int},
      (∀ c d event, Record.put (some c) d event ∉ s.log) →
      NoRace sampleConfig s (.callback i nowNs) := by
    intro s i nowNs hnone job rel op nowNs' st _ _ _ hlast
    obtain ⟨before, c, d, ts, after, heq, -⟩ := hlast
    refine absurd ?_ (hnone c d (.delete ⟨rel, ts⟩))
    rw [heq]
    simp
  have hcalls : ∀ c d event, Record.put (some c) d event ∉
      [Record.called (.onWrite (lit "/srv/notes")), .called (.timer 0)] := by simp
  exact ⟨trivial, hwork rfl, trivial, hcallback hcalls, hcallback hcalls, hcallback hcalls,
    trivial, trivial, hwork rfl, hwork rfl, hwork rfl, trivial⟩

/-- A run in which all is done in turn, and the delete is the last word. -/
theorem inTurn_delete_last :
    (Run.run (step sampleConfig) (start sampleFiles) inTurn).log = inTurnLog ∧
      DeleteIsLast sampleConfig inTurnLog :=
  ⟨rfl, delete_last_of_noRace sampleConfig sampleFiles inTurn inTurn_noRace⟩

/-- **A delete that is overtaken**: the write event of the content that was read before is put
after the delete event, and nothing is reported of the path in between. -/
theorem delete_overtaken :
    (Run.run (step sampleConfig) (start sampleFiles) overtaken).log =
      [.called (.onWrite (lit "/srv/notes")), .called (.timer 0),
        .called (.onDelete (lit "/srv/notes")),
        .put (some (.onDelete (lit "/srv/notes"))) ⟨lit "notes", .file (lit "notes") .delete, [2]⟩
          (.delete ⟨lit "notes", 4⟩),
        .put none ⟨lit "notes", .file (lit "notes") .write, [0]⟩ (.write sampleWrite)] ∧
      ¬ DeleteIsLast sampleConfig
        (Run.run (step sampleConfig) (start sampleFiles) overtaken).log := by
  refine ⟨rfl, fun h => ?_⟩
  have hne := h [.called (.onWrite (lit "/srv/notes")), .called (.timer 0),
      .called (.onDelete (lit "/srv/notes"))] _ _ (lit "notes") 4
    [.put none ⟨lit "notes", .file (lit "notes") .write, [0]⟩ (.write sampleWrite)] rfl
    ⟨lit "/srv/notes", rfl, by decide⟩ (by simp) none _ sampleWrite (List.mem_singleton_self _)
  exact hne rfl

end SiloWatcher

end Chiralite
