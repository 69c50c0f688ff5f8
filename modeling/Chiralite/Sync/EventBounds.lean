import Chiralite.Sync.SiloWatcher

/-!
# Events of the watcher are within bounds

The debouncer looks at the root and the blacklist when a path is reported, and not again. What is
put in the queue comes later and from several places: from a call that holds the lock, from a bulk
flush, from a timer callback. Here the account is kept from the report to the event. A dispatch is
`Owed` to calls of the log that asked for it, and a call asks only for paths that are tracked; an
event has no other paths than its flush (`Reaches`). `Booked` says this of all that is held back, on
its way or in the queue, and every step of every interleaving keeps it.

`events_confined` reads it off: the paths of every event are relative to the root and not blocked,
and an event that goes back to a rename with an end out of bounds is a write or a delete of the
other end.
-/

namespace Chiralite

open Py Posix

namespace SiloWatcher

open Debouncer (Call Dispatch Flush)

/-! ### Accounts -/

/-- The paths of an event. -/
def eventPaths : SyncEvent → List Str
  | .write e => [e.path]
  | .delete e => [e.path]
  | .rename e => [e.oldPath, e.newPath]

/-- A path that is relative to the root, as something that can be reported is, and not blocked. -/
def InBounds (C : Config) (rel : Str) : Prop :=
  C.blocked rel = false ∧
    ∃ absPath parts, pathParts absPath = ([sep] :: C.root) ++ parts ∧ rel = Debouncer.relText parts

/-- The calls of a log, in order. -/
def callsOf (log : List Record) : List Call :=
  log.filterMap fun r =>
    match r with
    | .called c => some c
    | .put _ _ _ => none

/-- The call of a number. -/
def Called (cs : List Call) (k : Nat) (P : Call → Prop) : Prop := ∃ c, cs[k]? = some c ∧ P c

/-- **What a dispatch goes back to**: a write to calls that asked for a write of the path, a delete
or a rename to the one call that asked for it. -/
def Owed (C : Config) (cs : List Call) (d : Dispatch) : Prop :=
  d.calls ≠ [] ∧
    ((d.flush = .file d.rel .write ∧
        ∀ k ∈ d.calls, Called cs k fun c => Debouncer.AsksWrite C.toConfig c d.rel) ∨
      (d.flush = .file d.rel .delete ∧
        ∀ k ∈ d.calls, Called cs k fun c => Debouncer.AsksDelete C.toConfig c d.rel) ∨
      ∃ src, d.flush = .rename src d.rel ∧
        ∀ k ∈ d.calls, Called cs k fun c => Debouncer.AsksRename C.toConfig c src d.rel)

/-- The numbers in the entries of a debouncer are those of calls that asked for the write. -/
def Entries (C : Config) (cs : List Call) (s : Debouncer.State) : Prop :=
  ∀ rel e, s.dirty.get? rel = some e → e.calls ≠ [] ∧
    ∀ k ∈ e.calls, Called cs k fun c => Debouncer.AsksWrite C.toConfig c rel

structure Accounts (C : Config) (cs : List Call) (s : Debouncer.State) : Prop where
  count : s.calls = cs.length
  entries : Entries C cs s

section Bounds

variable {C : Config} {cs : List Call} {s : Debouncer.State} {now : ℚ} {c : Call}

theorem inBounds_of_tracked {absPath rel : Str} (h : C.tracked absPath = some rel) :
    InBounds C rel := by
  obtain ⟨hrel, hblocked⟩ := Option.filter_eq_some_iff.mp h
  refine ⟨by simpa using hblocked, absPath, ?_⟩
  unfold Debouncer.Config.rel at hrel
  split at hrel
  · rename_i hpre
    obtain ⟨parts, hparts⟩ := hpre
    cases hrel
    refine ⟨parts, hparts.symm, ?_⟩
    rw [← hparts, List.drop_left]
  · cases hrel

theorem Called.concat {k : Nat} {P : Call → Prop} (h : Called cs k P) (c : Call) :
    Called (cs ++ [c]) k P := by
  obtain ⟨c', hc', hP⟩ := h
  exact ⟨c', (List.getElem?_append_left (List.getElem?_eq_some_iff.mp hc').1).trans hc', hP⟩

theorem called_length {P : Call → Prop} (h : P c) : Called (cs ++ [c]) cs.length P :=
  ⟨c, List.getElem?_concat_length, h⟩

theorem Owed.concat {d : Dispatch} (h : Owed C cs d) (c : Call) : Owed C (cs ++ [c]) d := by
  obtain ⟨hne, h⟩ := h
  refine ⟨hne, ?_⟩
  rcases h with ⟨hflush, h⟩ | ⟨hflush, h⟩ | ⟨src, hflush, h⟩
  · exact Or.inl ⟨hflush, fun k hk => (h k hk).concat c⟩
  · exact Or.inr (Or.inl ⟨hflush, fun k hk => (h k hk).concat c⟩)
  · exact Or.inr (Or.inr ⟨src, hflush, fun k hk => (h k hk).concat c⟩)

/-- What is held back goes back to the calls in its entry. -/
theorem Entries.owed (h : Entries C cs s) {rel : Str} {e : Debouncer.Entry}
    (he : s.dirty.get? rel = some e) : Owed C cs ⟨rel, .file rel .write, e.calls⟩ :=
  ⟨(h rel e he).1, Or.inl ⟨rfl, (h rel e he).2⟩⟩

theorem Entries.heldBack (h : Entries C cs s) : ∀ d ∈ s.heldBack, Owed C cs d := by
  intro d hd
  obtain ⟨item, hitem, rfl⟩ := List.mem_map.mp hd
  exact h.owed ((s.dirty.mem_items_iff).mp hitem)

theorem Entries.concat (h : Entries C cs s) (c : Call) : Entries C (cs ++ [c]) s := by
  intro rel e he
  obtain ⟨hne, hk⟩ := h rel e he
  exact ⟨hne, fun k hmem => (hk k hmem).concat c⟩

/-- Fewer entries are accounted for too. -/
theorem Entries.of_subset {s' : Debouncer.State} (h : Entries C cs s)
    (hsub : ∀ rel e, s'.dirty.get? rel = some e → s.dirty.get? rel = some e) :
    Entries C cs s' := fun rel e he => h rel e (hsub rel e he)

theorem entries_of_empty (h : s.dirty = Dict.empty) : Entries C cs s := by
  intro rel e he
  rw [h] at he
  cases he

theorem Accounts.arm (h : Accounts C cs s) (now : ℚ) {p : Str}
    (hc : Debouncer.AsksWrite C.toConfig c p) :
    Entries C (cs ++ [c]) (Debouncer.arm C.toConfig s now p .write) := by
  intro rel e he
  rw [Debouncer.arm_eq] at he
  by_cases hne : rel = p
  · -- the entry of the path is given the number of this call
    rw [hne, Dict.get?_set_self] at he
    cases he
    refine ⟨by simp, fun k hk => ?_⟩
    rw [hne]
    rcases List.mem_append.mp hk with hk | hk
    · cases hold : s.dirty.get? p with
      | none =>
        rw [hold] at hk
        cases hk
      | some e =>
        rw [hold] at hk
        exact (h.entries.concat c p e hold).2 k hk
    · rw [List.mem_singleton.mp hk, h.count]
      exact called_length hc
  · rw [Dict.get?_set_of_ne _ _ hne] at he
    exact h.entries.concat c rel e he

/-- A dispatch that is due to this call alone. -/
theorem Accounts.called_self (h : Accounts C cs s) {P : Call → Prop} (hc : P c) :
    ∀ k ∈ [s.calls], Called (cs ++ [c]) k P := by
  intro k hk
  rw [List.mem_singleton.mp hk, h.count]
  exact called_length hc

/-- **The account of one call**: the entries that it leaves and the dispatches that it makes go back
to the calls so far, itself included. -/
theorem Accounts.call (h : Accounts C cs s) (hwrites : Debouncer.OnlyWrites s) (now : ℚ)
    (c : Call) :
    Accounts C (cs ++ [c]) (Debouncer.call C.toConfig s now c).1 ∧
      ∀ d ∈ (Debouncer.call C.toConfig s now c).2, Owed C (cs ++ [c]) d := by
  obtain ⟨s', hdoes, heq⟩ := Debouncer.call_does C.toConfig now hwrites c
  generalize (Debouncer.call C.toConfig s now c).2 = ds at hdoes
  rw [heq]
  -- the number of the next call is how many there were
  have hcount : s.calls + 1 = (cs ++ [c]).length := by
    rw [h.count, List.length_append, List.length_singleton]
  have hkept : Entries C (cs ++ [c]) s := h.entries.concat c
  cases hdoes with
  | nothing => exact ⟨⟨hcount, hkept⟩, List.forall_mem_nil _⟩
  | armed hc =>
    refine ⟨⟨?_, h.arm now hc⟩, List.forall_mem_nil _⟩
    rw [Debouncer.arm_eq]
    exact hcount
  | overflowed hc =>
    refine ⟨⟨?_, entries_of_empty rfl⟩, (h.arm now hc).heldBack⟩
    rw [Debouncer.arm_eq]
    exact hcount
  | deleted hc =>
    refine ⟨⟨hcount, hkept.of_subset fun rel e he => ?_⟩, fun d hd => ?_⟩
    · exact ((Dict.get?_erase_eq_some_iff _).mp he).2
    · rw [List.mem_singleton.mp hd]
      exact ⟨by simp, Or.inr (Or.inl ⟨rfl, h.called_self hc⟩)⟩
  | renamed hc =>
    refine ⟨⟨hcount, hkept.of_subset fun rel e he => ?_⟩, fun d hd => ?_⟩
    · exact ((Dict.get?_erase_eq_some_iff _).mp ((Dict.get?_erase_eq_some_iff _).mp he).2).2
    · rw [List.mem_singleton.mp hd]
      exact ⟨by simp, Or.inr (Or.inr ⟨_, rfl, h.called_self hc⟩)⟩
  | flushed => exact ⟨⟨hcount, entries_of_empty rfl⟩, hkept.heldBack⟩
  | idle => exact ⟨⟨hcount, hkept⟩, List.forall_mem_nil _⟩
  | fired _ _ _ he =>
    refine ⟨⟨hcount, hkept.of_subset fun rel e he => ?_⟩, fun d hd => ?_⟩
    · exact ((Dict.get?_erase_eq_some_iff _).mp he).2
    · rw [List.mem_singleton.mp hd]
      exact hkept.owed he

end Bounds

/-! ### Books -/

/-- A flush that goes back to calls, at a stage that it can come to. -/
def Job.Sound (C : Config) (cs : List Call) (job : Job) : Prop :=
  Owed C cs job.dispatch ∧ Reaches job.dispatch.flush job.stage

/-- **Everything on its way to the queue, and everything in it, is accounted for.** -/
structure Booked (C : Config) (s : State) : Prop where
  armed : Debouncer.Armed s.debouncer
  accounts : Accounts C (callsOf s.log) s.debouncer
  held : ∀ c jobs, s.holder = some (c, jobs) → ∀ job ∈ jobs, job.Sound C (callsOf s.log)
  open_ : ∀ job ∈ s.callbacks, job.Sound C (callsOf s.log)
  queued : ∀ caller d event, .put caller d event ∈ s.log →
    Owed C (callsOf s.log) d ∧ Reaches d.flush (.ready event)

section Booked

variable {C : Config} {s : State}

@[simp] theorem callsOf_called (log : List Record) (c : Call) :
    callsOf (log ++ [.called c]) = callsOf log ++ [c] := List.filterMap_append

@[simp] theorem callsOf_put (log : List Record) (caller : Option Call) (d : Dispatch)
    (event : SyncEvent) : callsOf (log ++ [.put caller d event]) = callsOf log :=
  List.filterMap_append.trans (List.append_nil _)

theorem Job.Sound.concat {cs : List Call} {job : Job} (h : job.Sound C cs) (c : Call) :
    job.Sound C (cs ++ [c]) := ⟨h.1.concat c, h.2⟩

theorem Job.Sound.advance {cs : List Call} {job : Job} (h : job.Sound C cs)
    (files : Str → LocalFile) (nowNs : Int) : (advance C files nowNs job).Sound C cs := by
  refine ⟨?_, ?_⟩
  · rw [advance_dispatch]
    exact h.1
  · rw [advance_dispatch]
    exact reaches_advance h.2

theorem booked_start (C : Config) (files : Str → LocalFile) : Booked C (start files) where
  armed := Debouncer.armed_start
  accounts := ⟨rfl, entries_of_empty rfl⟩
  held c jobs h := by cases h
  open_ := List.forall_mem_nil _
  queued caller d event h := by cases h

/-- A call takes the lock: what was accounted for stays so, and its flushes are. -/
theorem Booked.entered (h : Booked C s) (now : ℚ) (c : Call) :
    Accounts C (callsOf (entered C s now c).log) (entered C s now c).debouncer ∧
      (∀ job ∈ newJobs (Debouncer.call C.toConfig s.debouncer now c).2,
        job.Sound C (callsOf (entered C s now c).log)) ∧
      (∀ job ∈ s.callbacks, job.Sound C (callsOf (entered C s now c).log)) ∧
      ∀ caller d event, .put caller d event ∈ (entered C s now c).log →
        Owed C (callsOf (entered C s now c).log) d ∧ Reaches d.flush (.ready event) := by
  have hcalls : callsOf (SiloWatcher.entered C s now c).log = callsOf s.log ++ [c] :=
    callsOf_called s.log c
  rw [hcalls]
  obtain ⟨haccounts, howed⟩ := h.accounts.call h.armed.writes now c
  refine ⟨haccounts, fun job hjob => ?_, fun job hjob => (h.open_ job hjob).concat c,
    fun caller d event hput => ?_⟩
  · obtain ⟨d, hd, rfl⟩ := mem_newJobs hjob
    exact ⟨howed d hd, trivial⟩
  · rcases List.mem_append.mp hput with hput | hput
    · obtain ⟨hd, hevent⟩ := h.queued caller d event hput
      exact ⟨hd.concat c, hevent⟩
    · cases List.mem_singleton.mp hput

/-- The observer or `stop` takes the lock. -/
theorem Booked.called (h : Booked C s) (now : ℚ) (c : Call) :
    Booked C { SiloWatcher.entered C s now c with
      holder := some (c, newJobs (Debouncer.call C.toConfig s.debouncer now c).2) } := by
  obtain ⟨haccounts, hjobs, hopen, hqueued⟩ := h.entered now c
  refine
    { armed := h.armed.call C.toConfig now c
      accounts := haccounts
      held := ?_
      open_ := hopen
      queued := hqueued }
  rintro c' jobs ⟨⟩
  exact hjobs

/-- A timer callback takes the lock and lets go of it. -/
theorem Booked.fired (h : Booked C s) (now : ℚ) (k : Nat) (hfree : s.holder = none) :
    Booked C { SiloWatcher.entered C s now (.timer k) with
      callbacks := s.callbacks ++
        newJobs (Debouncer.call C.toConfig s.debouncer now (.timer k)).2 } := by
  obtain ⟨haccounts, hjobs, hopen, hqueued⟩ := h.entered now (.timer k)
  exact
    { armed := h.armed.call C.toConfig now (.timer k)
      accounts := haccounts
      held := fun c jobs hholder => by cases hfree.symm.trans hholder
      open_ := List.forall_mem_append.mpr ⟨hopen, hjobs⟩
      queued := hqueued }

/-- The call that holds the lock goes on. -/
theorem Booked.worked (h : Booked C s) {c : Call} {job : Job} {jobs : List Job} (nowNs : Int)
    (hholder : s.holder = some (c, job :: jobs)) :
    Booked C { s with holder := some (c, advance C s.files nowNs job :: jobs) } := by
  refine { h with held := ?_ }
  rintro c' jobs' ⟨⟩ job' hjob'
  rcases List.mem_cons.mp hjob' with rfl | hjob'
  · exact (h.held c _ hholder job List.mem_cons_self).advance s.files nowNs
  · exact h.held c _ hholder job' (List.mem_cons_of_mem _ hjob')

/-- An event is put that its flush came to. -/
theorem Booked.put (h : Booked C s) {job : Job} {event : SyncEvent} (caller : Option Call)
    (hjob : job.Sound C (callsOf s.log)) (hready : job.stage = .ready event) :
    Booked C { s with log := s.log ++ [.put caller job.dispatch event] } := by
  have hcalls := callsOf_put s.log caller job.dispatch event
  refine
    { armed := h.armed
      accounts := by rw [hcalls]; exact h.accounts
      held := by rw [hcalls]; exact h.held
      open_ := by rw [hcalls]; exact h.open_
      queued := ?_ }
  rw [hcalls]
  intro caller' d event' hput
  rcases List.mem_append.mp hput with hput | hput
  · exact h.queued caller' d event' hput
  · cases List.mem_singleton.mp hput
    exact ⟨hjob.1, hready ▸ hjob.2⟩

/-- **One step keeps the books.** -/
theorem Booked.step (h : Booked C s) (a : Act) : Booked C (step C s a) := by
  have hmoves := step_moves C s a
  generalize SiloWatcher.step C s a = s' at hmoves ⊢
  cases hmoves with
  | idle => exact h
  | changed files => exact { h with }
  | @called c now hfree => exact h.called now c
  | @fired k now hfree => exact h.fired now k hfree
  | released hholder => exact { h with held := fun c jobs hnone => by cases hnone }
  | @worked c job jobs nowNs ha hholder hnot => exact h.worked nowNs hholder
  | @put c job jobs event nowNs ha hholder hready =>
    -- the job is done with; those behind it are accounted for as before
    have hjobs := h.held c _ hholder
    have hput := h.put (some c) (hjobs job List.mem_cons_self) hready
    refine { hput with held := ?_ }
    rintro c' jobs' ⟨⟩ job' hjob'
    exact hput.held c _ hholder job' (List.mem_cons_of_mem _ hjob')
  | @workedOpen i job nowNs ha hjob hnot =>
    refine { h with open_ := fun job' hjob' => ?_ }
    rcases List.mem_or_eq_of_mem_set hjob' with hjob' | rfl
    · exact h.open_ job' hjob'
    · exact (h.open_ job (List.mem_of_getElem? hjob)).advance s.files nowNs
  | @putOpen i job event nowNs ha hjob hready =>
    have hput := h.put none (h.open_ job (List.mem_of_getElem? hjob)) hready
    exact { hput with
      open_ := fun job' hjob' => hput.open_ job' (List.mem_of_mem_eraseIdx hjob') }

end Booked

/-! ### Events -/

/-- **What a rename that is out of bounds may contribute.** If its source is blocked or outside, a
write or a delete of its destination; if its destination is, a delete of its source; if both are,
nothing. -/
def ContributesAtMost (C : Config) (c : Call) (event : SyncEvent) : Prop :=
  ∀ absSrc absDst, c = .onRename absSrc absDst →
    (C.tracked absSrc = none → ∃ dst, C.tracked absDst = some dst ∧
      ((∃ e, event = .write e ∧ e.path = dst) ∨ ∃ e, event = .delete e ∧ e.path = dst)) ∧
    (C.tracked absDst = none → ∃ src, C.tracked absSrc = some src ∧
      ∃ e, event = .delete e ∧ e.path = src)

section Events

variable {C : Config} {cs : List Call} {d : Dispatch} {event : SyncEvent} {c : Call} {k : Nat}

/-- The event of a dispatch: a write or a delete for those that asked for a write, a delete for one
that asked for it, and a rename or a delete of its source for one that asked for that. -/
theorem Owed.event_cases (h : Owed C cs d) (hevent : Reaches d.flush (.ready event)) :
    (((∃ e, event = .write e ∧ e.path = d.rel) ∨ ∃ e, event = .delete e ∧ e.path = d.rel) ∧
        ∀ k ∈ d.calls, Called cs k fun c => Debouncer.AsksWrite C.toConfig c d.rel) ∨
      ((∃ e, event = .delete e ∧ e.path = d.rel) ∧
        ∀ k ∈ d.calls, Called cs k fun c => Debouncer.AsksDelete C.toConfig c d.rel) ∨
      ∃ src, (∀ p ∈ eventPaths event, p = src ∨ p = d.rel) ∧
        ∀ k ∈ d.calls, Called cs k fun c => Debouncer.AsksRename C.toConfig c src d.rel := by
  rcases h.2 with ⟨hflush, hcalls⟩ | ⟨hflush, hcalls⟩ | ⟨src, hflush, hcalls⟩
  · -- a write of a file that is gone has become a delete
    refine Or.inl ⟨?_, hcalls⟩
    rw [hflush] at hevent
    cases event with
    | write e =>
      obtain ⟨op, heq, -⟩ := hevent
      exact Or.inl ⟨e, rfl, (Flush.file.inj heq).1.symm⟩
    | delete e =>
      rcases hevent with ⟨op, heq⟩ | ⟨new, heq⟩
      · exact Or.inr ⟨e, rfl, (Flush.file.inj heq).1.symm⟩
      · cases heq
    | rename e => cases hevent
  · refine Or.inr (Or.inl ⟨?_, hcalls⟩)
    rw [hflush] at hevent
    cases event with
    | write e =>
      obtain ⟨op, heq, hop⟩ := hevent
      exact absurd (Flush.file.inj heq).2.symm hop
    | delete e =>
      rcases hevent with ⟨op, heq⟩ | ⟨new, heq⟩
      · exact ⟨e, rfl, (Flush.file.inj heq).1.symm⟩
      · cases heq
    | rename e => cases hevent
  · -- and so has a rename whose destination is gone, of its source
    refine Or.inr (Or.inr ⟨src, fun p hp => ?_, hcalls⟩)
    rw [hflush] at hevent
    cases event with
    | write e =>
      obtain ⟨op, heq, -⟩ := hevent
      cases heq
    | delete e =>
      rcases hevent with ⟨op, heq⟩ | ⟨new, heq⟩
      · cases heq
      · cases heq
        exact Or.inl (List.mem_singleton.mp hp)
    | rename e =>
      obtain ⟨hold, hnew⟩ := Flush.rename.inj hevent
      rcases List.mem_cons.mp hp with rfl | hp
      · exact Or.inl hold.symm
      · exact Or.inr ((List.mem_singleton.mp hp).trans hnew.symm)

theorem inBounds_of_asksWrite {rel : Str} (h : Debouncer.AsksWrite C.toConfig c rel) :
    InBounds C rel := by
  rcases h with ⟨absPath, -, hrel⟩ | ⟨absSrc, absDst, -, -, hrel⟩
  · exact inBounds_of_tracked hrel
  · exact inBounds_of_tracked hrel

theorem inBounds_of_asksDelete {rel : Str} (h : Debouncer.AsksDelete C.toConfig c rel) :
    InBounds C rel := by
  rcases h with ⟨absPath, -, hrel⟩ | ⟨absSrc, absDst, -, hrel, -⟩
  · exact inBounds_of_tracked hrel
  · exact inBounds_of_tracked hrel

theorem Owed.inBounds (h : Owed C cs d) (hevent : Reaches d.flush (.ready event)) :
    ∀ p ∈ eventPaths event, InBounds C p := by
  intro p hp
  obtain ⟨k, hk⟩ := List.exists_mem_of_ne_nil _ h.1
  rcases h.event_cases hevent with ⟨hkind, hcalls⟩ | ⟨⟨e, rfl, hpath⟩, hcalls⟩ |
    ⟨src, hpaths, hcalls⟩
  · obtain ⟨c, -, hc⟩ := hcalls k hk
    have hrel : p = d.rel := by
      rcases hkind with ⟨e, rfl, hpath⟩ | ⟨e, rfl, hpath⟩
      · exact (List.mem_singleton.mp hp).trans hpath
      · exact (List.mem_singleton.mp hp).trans hpath
    rw [hrel]
    exact inBounds_of_asksWrite hc
  · obtain ⟨c, -, hc⟩ := hcalls k hk
    rw [List.mem_singleton.mp hp, hpath]
    exact inBounds_of_asksDelete hc
  · obtain ⟨c, -, absSrc, absDst, -, hsrc, hdst⟩ := hcalls k hk
    rcases hpaths p hp with rfl | rfl
    · exact inBounds_of_tracked hsrc
    · exact inBounds_of_tracked hdst

theorem Owed.contributes (h : Owed C cs d) (hevent : Reaches d.flush (.ready event)) :
    ∀ k ∈ d.calls, Called cs k fun c => ContributesAtMost C c event := by
  intro k hk
  rcases h.event_cases hevent with ⟨hkind, hcalls⟩ | ⟨hdelete, hcalls⟩ | ⟨src, -, hcalls⟩
  · -- a rename from out of bounds asks for a write
    obtain ⟨c, hget, hc⟩ := hcalls k hk
    refine ⟨c, hget, ?_⟩
    rintro absSrc absDst rfl
    rcases hc with ⟨absPath, hcall, -⟩ | ⟨absSrc', absDst', hcall, hsrc, hdst⟩
    · cases hcall
    · cases hcall
      refine ⟨fun _ => ⟨d.rel, hdst, hkind⟩, fun hnone => ?_⟩
      cases hnone.symm.trans hdst
  · -- one out of bounds asks for a delete
    obtain ⟨c, hget, hc⟩ := hcalls k hk
    refine ⟨c, hget, ?_⟩
    rintro absSrc absDst rfl
    rcases hc with ⟨absPath, hcall, -⟩ | ⟨absSrc', absDst', hcall, hsrc, hdst⟩
    · cases hcall
    · cases hcall
      refine ⟨fun hnone => ?_, fun _ => ⟨d.rel, hsrc, hdelete⟩⟩
      cases hnone.symm.trans hsrc
  · -- both ends are within bounds
    obtain ⟨c, hget, absSrc', absDst', hcall, hsrc, hdst⟩ := hcalls k hk
    refine ⟨c, hget, ?_⟩
    rintro absSrc absDst rfl
    cases hcall
    refine ⟨fun hnone => ?_, fun hnone => ?_⟩
    · cases hnone.symm.trans hsrc
    · cases hnone.symm.trans hdst

end Events

/-- **Every event is within bounds.** For every blacklist and every root, in every run, under every
interleaving: each path of an event that is put in the queue is relative to the root and not
blocked. The event goes back to calls, and if one of them is a rename with an end that is blocked
or outside, the event is what that rename may contribute. -/
theorem events_confined (C : Config) (files : Str → LocalFile) (acts : List Act)
    (caller : Option Call) (d : Dispatch) (event : SyncEvent)
    (hput : .put caller d event ∈ (Run.run (step C) (start files) acts).log) :
    (∀ p ∈ eventPaths event, InBounds C p) ∧ d.calls ≠ [] ∧
      ∀ k ∈ d.calls, ∃ c, (callsOf (Run.run (step C) (start files) acts).log)[k]? = some c ∧
        ContributesAtMost C c event := by
  have hstep : ∀ (s : State) (a : Act), Booked C s → True → Booked C (step C s a) :=
    fun s a hs _ => hs.step a
  have hguarded : Run.Guarded (step C) (fun _ _ => True) (start files) acts :=
    Run.guarded_of_forall fun _ _ => trivial
  have hbooked := Run.run_invariant hstep (booked_start C files) hguarded
  obtain ⟨howed, hevent⟩ := hbooked.queued caller d event hput
  exact ⟨howed.inBounds hevent, howed.1, howed.contributes hevent⟩

/-- A silo in which names that end in `~` are blocked. -/
def backupConfig : Config :=
  { sampleConfig with blocked := fun rel => rel.getLast? == some (ofChar '~') }

/-- A file is moved into place from a name that is blocked, and its timer fires. -/
def movedIn : List Act :=
  [.observe 0 (.moved (lit "/srv/notes~") (lit "/srv/notes")), .work 0, .fire 1 0, .callback 0 1,
    .callback 0 2, .callback 0 3]

/-- The rename from a blocked name ends in a write event of the other name. -/
theorem movedIn_event :
    Record.put none ⟨lit "notes", .file (lit "notes") .write, [0]⟩
        (.write (writeEvent backupConfig (lit "notes") sampleStat [] 1)) ∈
      (Run.run (step backupConfig) (start sampleFiles) movedIn).log ∧
    InBounds backupConfig (lit "notes") := by
  have hlog : (Run.run (step backupConfig) (start sampleFiles) movedIn).log =
      [.called (.onRename (lit "/srv/notes~") (lit "/srv/notes")), .called (.timer 0),
        .put none ⟨lit "notes", .file (lit "notes") .write, [0]⟩
          (.write (writeEvent backupConfig (lit "notes") sampleStat [] 1))] := rfl
  have hput : Record.put none ⟨lit "notes", .file (lit "notes") .write, [0]⟩
      (.write (writeEvent backupConfig (lit "notes") sampleStat [] 1)) ∈
      (Run.run (step backupConfig) (start sampleFiles) movedIn).log := by
    rw [hlog]
    exact List.mem_cons_of_mem _ (List.mem_cons_of_mem _ (List.mem_singleton_self _))
  exact ⟨hput, (events_confined backupConfig sampleFiles movedIn _ _ _ hput).1 _
    (List.mem_singleton_self _)⟩

end SiloWatcher

end Chiralite
