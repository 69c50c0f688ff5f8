import Chiralite.Framework.FileTree
import Chiralite.Framework.Run
import Chiralite.Hash
import Chiralite.Sync.Index

/-!
# The watcher

`sync/watcher.py`: the observer reports local changes to a `_Debouncer`, which holds writes back
for a while and passes deletes and renames on at once; `SiloWatcher` makes sync events of what it
passes on, and puts them in a queue.

When a timer fires is not computed: the timers here may fire at any time, and so the times of the
first report and the lengths of the delays are left out. Its callback is one step: it takes the
entry of its path and works off the flush before anything else happens. `_timer_fired` works it off
after it has released the lock, so that a report of another thread may come in between and be
overtaken. This race is left out here. `Sync/SiloWatcher.lean` has the callback step by step, and
the condition under which no delete is overtaken (`NoRace`).

The local tree is the map of its files. A local operation and its report are two steps, between
which others may take place; the reports come in the order of the operations.

The question is whether the queue, replayed on a replica, makes the replica what the local tree is.
A write that is held back is lost when its file is renamed: `on_rename` cancels it, and the rename
that is passed on finds nothing to move. `Settled` excludes that, and under it no change is lost
(`replica_eq_local`). The argument has two parts: away from what is held back or not yet reported,
the replica is the local tree; and a rename that is not yet reported still finds at its source, on
the replica, what it is to move (`Kept`).
-/

namespace Chiralite

open Py Posix

namespace Watcher

/-! ### The program -/

/-- What is passed on: `"write"`, `"delete"` or `"rename"`. -/
inductive FlushOp where
  | write
  | delete
  | rename
  deriving DecidableEq

/-- The settings of a watcher, and what it asks of its host. -/
structure Config where
  /-- `_is_blocked`. -/
  blocked : Str → Bool
  maxDirtyFiles : Int
  /-- `pwd.getpwuid(uid).pw_name`, `none` for `KeyError`. -/
  getpwuid : Int → Option Str
  /-- `grp.getgrgid(gid).gr_name`. -/
  getgrgid : Int → Option Str
  /-- `time.time_ns()` at the event of a number. -/
  timeNs : Nat → Int

/-- An event in the queue, and the file that a write event was made of. -/
structure Emission where
  event : SyncEvent
  file : Option FileData

/-- The local files, the debouncer and the queue. -/
structure State where
  files : Str → Option FileData
  /-- `_dirty`. -/
  dirty : Dict Str FlushOp
  /-- `_renames`. -/
  renames : Dict Str (Str × Str)
  /-- Everything put in the queue so far. -/
  queue : List Emission

section Program

variable (C : Config)

/-- `_put`. -/
def put (s : State) (event : SyncEvent) (file : Option FileData) : State :=
  { s with queue := s.queue ++ [⟨event, file⟩] }

/-- The `WriteEvent` of a file. -/
def writeEvent (rel : Str) (f : FileData) (nowNs : Int) : WriteEvent where
  path := rel
  rapidhash := rapidhash f.content
  size := f.content.length
  mtimeS := f.mtimeNs / 1000000000
  mtimeNs := f.mtimeNs % 1000000000
  recvTsNs := nowNs
  -- `stat_mode`
  mode := (f.mode &&& 0o7777 : Nat)
  uidName := (C.getpwuid f.uid).getD (Json.dumpInt f.uid)
  gidName := (C.getgrgid f.gid).getD (Json.dumpInt f.gid)

/-- `SiloWatcher._on_flush`. -/
def onFlush (s : State) (rel : Str) (op : FlushOp) : State :=
  let nowNs := C.timeNs s.queue.length
  if op = .delete then put s (.delete ⟨rel, nowNs⟩) none
  else
    match s.files rel with
    -- the file disappeared between the event and the flush
    | none => put s (.delete ⟨rel, nowNs⟩) none
    | some f => put s (.write (writeEvent C rel f nowNs)) (some f)

/-- `SiloWatcher._on_rename_flush`. -/
def onRenameFlush (s : State) (old new : Str) : State :=
  let nowNs := C.timeNs s.queue.length
  match s.files new with
  | none => put s (.delete ⟨old, nowNs⟩) none
  | some _ => put s (.rename ⟨old, new, nowNs⟩) none

/-- `_dispatch`. -/
def dispatch (s : State) (rel : Str) (op : FlushOp) : State :=
  if op = .rename then
    match s.renames.get? rel with
    | some (old, new) => onRenameFlush C { s with renames := s.renames.erase rel } old new
    | none => onFlush C s rel .write
  else onFlush C s rel op

/-- `_flush_all_locked`. -/
def flushAll (s : State) : State :=
  s.dirty.items.foldl (fun s item => dispatch C s item.1 item.2) { s with dirty := Dict.empty }

/-- `_schedule`. -/
def schedule (s : State) (rel : Str) (op : FlushOp) : State :=
  let s := { s with dirty := s.dirty.set rel op }
  if (s.dirty.items.length : Int) > C.maxDirtyFiles then flushAll C s else s

/-- `_cancel`. -/
def cancel (s : State) (rel : Str) : State :=
  { s with dirty := s.dirty.erase rel, renames := s.renames.erase rel }

/-- `_flush_now`. -/
def flushNow (s : State) (rel : Str) (op : FlushOp) : State :=
  dispatch C { s with dirty := s.dirty.erase rel } rel op

/-- `_timer_fired`, with the flush that it works off outside the lock. -/
def timerFired (s : State) (rel : Str) : State :=
  match s.dirty.get? rel with
  | none => s
  | some op => dispatch C { s with dirty := s.dirty.erase rel } rel op

/-- The relative path of a report, unless the path is outside the root (`rel is None`) or
blocked. -/
def tracked (rel : Option Str) : Option Str := rel.filter fun rel => !C.blocked rel

/-- `on_write`. -/
def onWrite (s : State) (rel : Option Str) : State :=
  match tracked C rel with
  | none => s
  | some rel => schedule C s rel .write

/-- `on_delete`. -/
def onDelete (s : State) (rel : Option Str) : State :=
  match tracked C rel with
  | none => s
  | some rel => flushNow C (cancel s rel) rel .delete

/-- `on_rename`. -/
def onRename (s : State) (src dst : Option Str) : State :=
  match tracked C src, tracked C dst with
  | none, none => s
  -- from outside the silo: as a new write
  | none, some dst => schedule C s dst .write
  -- out of the silo: as a delete
  | some src, none => flushNow C (cancel s src) src .delete
  | some src, some dst =>
    let s := cancel s src
    flushNow C { s with renames := s.renames.set dst (src, dst) } dst .rename

end Program

/-! ### The silo around it -/

/-- A local operation on a file; a creation and a modification are both a `write`. -/
inductive LocalOp where
  | write (path : Str) (file : FileData)
  | delete (path : Str)
  | rename (src dst : Str)

/-- The paths that an operation names. -/
def LocalOp.paths : LocalOp → List Str
  | .write path _ => [path]
  | .delete path => [path]
  | .rename src dst => [src, dst]

/-- The system lets the operation through. -/
def LocalOp.possible (files : Str → Option FileData) : LocalOp → Bool
  | .write _ _ => true
  | .delete path => (files path).isSome
  | .rename src dst => (files src).isSome && src != dst

/-- The files after an operation. -/
def LocalOp.apply (files : Str → Option FileData) : LocalOp → Str → Option FileData
  | .write path file => Function.update files path (some file)
  | .delete path => Function.update files path none
  | .rename src dst => Function.update (Function.update files src none) dst (files src)

/-- The report of an operation on a file of the silo. -/
def LocalOp.report (C : Config) (s : State) : LocalOp → State
  | .write path _ => onWrite C s (some path)
  | .delete path => onDelete C s (some path)
  | .rename src dst => onRename C s (some src) (some dst)

/-- The paths of a list of operations. -/
def pathsOf (ops : List LocalOp) : List Str := ops.flatMap LocalOp.paths

/-- A silo that is watched: the operations that are not reported yet come in order. -/
structure Silo extends State where
  unreported : List LocalOp

/-- A watcher that has just been started. -/
def start (files : Str → Option FileData) : Silo := ⟨⟨files, Dict.empty, Dict.empty, []⟩, []⟩

/-- What can happen. -/
inductive Act where
  /-- A file is changed. -/
  | op (o : LocalOp)
  /-- The observer reports the next operation. -/
  | report
  /-- A timer fires, and its callback ends. -/
  | fire (rel : Str)
  /-- `flush_all`, when the watcher is stopped. -/
  | flushAll

/-- One step. -/
def step (C : Config) (s : Silo) : Act → Silo
  | .op o =>
    if o.possible s.files then
      { s with files := o.apply s.files, unreported := s.unreported ++ [o] }
    else s
  | .report =>
    match s.unreported with
    | [] => s
    | o :: later => ⟨o.report C s.toState, later⟩
  | .fire rel => { s with toState := timerFired C s.toState rel }
  | .flushAll => { s with toState := Watcher.flushAll C s.toState }

/-- Nothing is held back and nothing is unreported. -/
def Silo.Quiet (s : Silo) : Prop := s.unreported = [] ∧ s.dirty = Dict.empty

/-! ### The replica -/

/-- The contents of files. -/
def contents (files : Str → Option FileData) : Str → Option Bytes :=
  fun p => (files p).map FileData.content

/-- The source is moved, if it is there. -/
def move (replica : Str → Option Bytes) (src dst : Str) : Str → Option Bytes :=
  match replica src with
  | none => replica
  | some content => Function.update (Function.update replica src none) dst (some content)

/-- What one event does to a replica: a write installs the content of the file as it was at the
flush, a delete removes, and a rename moves its source if that is there. -/
def Emission.replay (replica : Str → Option Bytes) (e : Emission) : Str → Option Bytes :=
  match e.event with
  | .write w => Function.update replica w.path (e.file.map FileData.content)
  | .delete d => Function.update replica d.path none
  | .rename r => move replica r.oldPath r.newPath

/-- The replica after the events of a queue. -/
def replay (replica : Str → Option Bytes) (queue : List Emission) : Str → Option Bytes :=
  queue.foldl Emission.replay replica

/-- The replica after the queue of a state. -/
def State.replica (R : Str → Option Bytes) (s : State) : Str → Option Bytes := replay R s.queue

/-- **The condition.** A file is renamed within the silo only when no change to it is held back or
not yet reported. -/
def Settled (s : Silo) : Act → Prop
  | .op (.rename src _) => s.dirty.get? src = none ∧ src ∉ pathsOf s.unreported
  | _ => True

/-- The operation is on unblocked paths. -/
def Unblocked (C : Config) : Act → Prop
  | .op o => ∀ p ∈ o.paths, C.blocked p = false
  | _ => True

/-! ### What the debouncer does to the replica -/

section Specs

variable {C : Config} {R : Str → Option Bytes} {s : State}

theorem replica_put (event : SyncEvent) (file : Option FileData) :
    (put s event file).replica R = Emission.replay (s.replica R) ⟨event, file⟩ := by
  unfold State.replica replay put
  rw [List.foldl_append]
  rfl

/-- A flushed write leaves the replica with what is there locally. -/
theorem replica_onFlush_write (rel : Str) :
    (onFlush C s rel .write).replica R =
      Function.update (s.replica R) rel (contents s.files rel) := by
  unfold onFlush contents
  rw [if_neg (by decide)]
  cases s.files rel with
  | none => exact replica_put _ _
  | some f => exact replica_put _ _

theorem replica_onFlush_delete (rel : Str) :
    (onFlush C s rel .delete).replica R = Function.update (s.replica R) rel none := by
  unfold onFlush
  rw [if_pos rfl]
  exact replica_put _ _

/-- A flush changes nothing but the queue. -/
theorem onFlush_frame (rel : Str) (op : FlushOp) :
    (onFlush C s rel op).files = s.files ∧ (onFlush C s rel op).dirty = s.dirty := by
  unfold onFlush
  split
  · exact ⟨rfl, rfl⟩
  · split
    · exact ⟨rfl, rfl⟩
    · exact ⟨rfl, rfl⟩

/-- Only writes are held back. -/
def OnlyWrites (s : State) : Prop := ∀ p op, s.dirty.get? p = some op → op = .write

/-- **Held-back writes are flushed**, some or all of them: where nothing was held back nothing
changes, and what is no longer held back is on the replica as it is locally. -/
structure Flushed (R : Str → Option Bytes) (s s' : State) : Prop where
  files : s'.files = s.files
  clean : ∀ p, s.dirty.get? p = none → s'.dirty.get? p = none ∧ s'.replica R p = s.replica R p
  flushed : ∀ p, s'.dirty.get? p = none → s.dirty.get? p ≠ none →
    s'.replica R p = contents s.files p
  writes : OnlyWrites s'

theorem Flushed.refl (h : OnlyWrites s) : Flushed R s s where
  files := rfl
  clean _ hp := ⟨hp, rfl⟩
  flushed _ hp hne := absurd hp hne
  writes := h

theorem OnlyWrites.erase (h : OnlyWrites s) (rel : Str) :
    OnlyWrites { s with dirty := s.dirty.erase rel } := by
  intro p op hp
  by_cases heq : p = rel
  · rw [heq, Dict.get?_erase_self] at hp
    cases hp
  · rw [Dict.get?_erase_of_ne _ heq] at hp
    exact h p op hp

theorem OnlyWrites.hold (h : OnlyWrites s) (rel : Str) :
    OnlyWrites { s with dirty := s.dirty.set rel .write } := by
  intro p op hp
  by_cases heq : p = rel
  · rw [heq, Dict.get?_set_self] at hp
    cases hp
    rfl
  · rw [Dict.get?_set_of_ne _ _ heq] at hp
    exact h p op hp

theorem flushed_timerFired (h : OnlyWrites s) (rel : Str) :
    Flushed R s (timerFired C s rel) := by
  unfold timerFired
  cases hop : s.dirty.get? rel with
  | none => exact Flushed.refl h
  | some op =>
    cases h rel op hop
    show Flushed R s (onFlush C { s with dirty := s.dirty.erase rel } rel .write)
    obtain ⟨hfiles, hdirty⟩ :=
      onFlush_frame (C := C) (s := { s with dirty := s.dirty.erase rel }) rel .write
    refine ⟨hfiles, fun p hp => ?_, fun p hp hne => ?_, ?_⟩
    · have hother : p ≠ rel := by
        rintro rfl
        rw [hop] at hp
        cases hp
      rw [hdirty, replica_onFlush_write, Dict.get?_erase_of_ne _ hother,
        Function.update_of_ne hother]
      exact ⟨hp, rfl⟩
    · -- only the path of the timer is flushed
      have hself : p = rel := by
        by_contra hother
        rw [hdirty, Dict.get?_erase_of_ne _ hother] at hp
        exact hne hp
      rw [replica_onFlush_write, hself, Function.update_self]
    · intro p op hp
      rw [hdirty] at hp
      exact h.erase rel p op hp

/-- Writes that are passed on one after another. -/
theorem dispatch_writes (items : List (Str × FlushOp)) (h : ∀ item ∈ items, item.2 = .write)
    (s : State) :
    (items.foldl (fun s item => dispatch C s item.1 item.2) s).files = s.files ∧
      (items.foldl (fun s item => dispatch C s item.1 item.2) s).dirty = s.dirty ∧
      ∀ p, (items.foldl (fun s item => dispatch C s item.1 item.2) s).replica R p =
        if p ∈ items.map Prod.fst then contents s.files p else s.replica R p := by
  induction items generalizing s with
  | nil => exact ⟨rfl, rfl, fun p => rfl⟩
  | cons item items ih =>
    obtain ⟨rel, op⟩ := item
    cases h (rel, op) List.mem_cons_self
    obtain ⟨hfiles, hdirty⟩ := onFlush_frame (C := C) (s := s) rel .write
    obtain ⟨ihfiles, ihdirty, ihreplica⟩ :=
      ih (fun item hitem => h item (List.mem_cons_of_mem _ hitem)) (onFlush C s rel .write)
    refine ⟨ihfiles.trans hfiles, ihdirty.trans hdirty, fun p => (ihreplica p).trans ?_⟩
    rw [hfiles, replica_onFlush_write, List.map_cons]
    -- a later write of the same path brings the same content
    by_cases hlater : p ∈ items.map Prod.fst
    · rw [if_pos hlater, if_pos (List.mem_cons_of_mem _ hlater)]
    · rw [if_neg hlater]
      by_cases hself : p = rel
      · rw [hself, Function.update_self, if_pos List.mem_cons_self]
      · rw [Function.update_of_ne hself, if_neg]
        rw [List.mem_cons, not_or]
        exact ⟨hself, hlater⟩

theorem flushed_flushAll (h : OnlyWrites s) : Flushed R s (flushAll C s) := by
  have hitems : ∀ item ∈ s.dirty.items, item.2 = .write :=
    fun item hitem => h item.1 item.2 (s.dirty.mem_items_iff.mp hitem)
  have hkeys : ∀ p, p ∈ s.dirty.items.map Prod.fst ↔ s.dirty.get? p ≠ none := by
    intro p
    rw [List.mem_map, Option.ne_none_iff_exists']
    constructor
    · rintro ⟨⟨_, op⟩, hitem, rfl⟩
      exact ⟨op, s.dirty.mem_items_iff.mp hitem⟩
    · rintro ⟨op, hop⟩
      exact ⟨(p, op), s.dirty.mem_items_iff.mpr hop, rfl⟩
  obtain ⟨hfiles, hdirty, hreplica⟩ :=
    dispatch_writes (C := C) (R := R) _ hitems { s with dirty := Dict.empty }
  refine ⟨hfiles, fun p hp => ⟨?_, ?_⟩, fun p _ hne => ?_, fun p op hp => ?_⟩
  · rw [flushAll, hdirty]
    rfl
  · rw [flushAll, hreplica, if_neg (fun hmem => (hkeys p).mp hmem hp)]
    rfl
  · rw [flushAll, hreplica, if_pos ((hkeys p).mpr hne)]
  · rw [flushAll, hdirty] at hp
    cases hp

/-- A write is held back; when too many are, all are flushed. -/
theorem flushed_schedule (h : OnlyWrites s) (rel : Str) :
    Flushed R { s with dirty := s.dirty.set rel .write } (schedule C s rel .write) := by
  unfold schedule
  dsimp only
  split
  · exact flushed_flushAll (h.hold rel)
  · exact Flushed.refl (h.hold rel)

theorem tracked_of_unblocked {rel : Str} (h : C.blocked rel = false) :
    tracked C (some rel) = some rel := by
  rw [tracked, Option.filter_some, h]
  rfl

/-- A delete: nothing is held back at the path, and it is gone from the replica. -/
theorem onDelete_spec {rel : Str} (h : C.blocked rel = false) :
    (onDelete C s (some rel)).files = s.files ∧
      (onDelete C s (some rel)).dirty = (s.dirty.erase rel).erase rel ∧
      (onDelete C s (some rel)).replica R = Function.update (s.replica R) rel none := by
  unfold onDelete
  rw [tracked_of_unblocked h]
  have hframe := onFlush_frame (C := C) (s := { cancel s rel with
    dirty := (s.dirty.erase rel).erase rel }) rel .delete
  exact ⟨hframe.1, hframe.2, replica_onFlush_delete rel⟩

theorem onRenameFlush_frame (old new : Str) :
    (onRenameFlush C s old new).files = s.files ∧ (onRenameFlush C s old new).dirty = s.dirty := by
  unfold onRenameFlush
  split
  · exact ⟨rfl, rfl⟩
  · exact ⟨rfl, rfl⟩

theorem replica_onRenameFlush (old new : Str) :
    (onRenameFlush C s old new).replica R =
      if s.files new = none then Function.update (s.replica R) old none
      else move (s.replica R) old new := by
  unfold onRenameFlush
  cases s.files new with
  | none => exact replica_put _ _
  | some f => exact replica_put _ _

/-- A rename within the silo: nothing is held back at either path; the replica is told to move the
source, or, when the target is gone already, to remove it. -/
theorem onRename_spec {src dst : Str} (hsrc : C.blocked src = false)
    (hdst : C.blocked dst = false) :
    (onRename C s (some src) (some dst)).files = s.files ∧
      (onRename C s (some src) (some dst)).dirty = (s.dirty.erase src).erase dst ∧
      (onRename C s (some src) (some dst)).replica R =
        if s.files dst = none then Function.update (s.replica R) src none
        else move (s.replica R) src dst := by
  -- the rename that is put in `_renames` is taken out again at once
  have hrun : onRename C s (some src) (some dst) = onRenameFlush C
      { s with
        dirty := (s.dirty.erase src).erase dst
        renames := ((s.renames.erase src).set dst (src, dst)).erase dst } src dst := by
    unfold onRename
    rw [tracked_of_unblocked hsrc, tracked_of_unblocked hdst]
    simp only [flushNow, dispatch, cancel, Dict.get?_set_self, if_true]
  rw [hrun]
  obtain ⟨hfiles, hdirty⟩ := onRenameFlush_frame (C := C) (s := { s with
    dirty := (s.dirty.erase src).erase dst
    renames := ((s.renames.erase src).set dst (src, dst)).erase dst }) src dst
  exact ⟨hfiles, hdirty, replica_onRenameFlush src dst⟩

end Specs

/-! ### The invariant -/

/-- **An operation whose report is still to come** finds what it needs, with the operations after
it: what a delete or a rename takes away is gone, unless a later operation brings it back; and a
rename finds on the replica the content that it is to move, which nothing before its report will
touch. -/
def LocalOp.Kept (files replica : Str → Option Bytes) (dirty seen : Str → Prop)
    (later : List LocalOp) : LocalOp → Prop
  | .write _ _ => True
  | .delete path => path ∉ pathsOf later → files path = none
  | .rename src dst => ¬ dirty src ∧ ¬ seen src ∧ (src ∉ pathsOf later → files src = none) ∧
      ∃ content, replica src = some content ∧ (dst ∉ pathsOf later → files dst = some content)

/-- So it is with every operation of a list; `seen` are the paths of those before it. -/
def AllKept (files replica : Str → Option Bytes) (dirty : Str → Prop) :
    (Str → Prop) → List LocalOp → Prop
  | _, [] => True
  | seen, o :: later => o.Kept files replica dirty seen later ∧
      AllKept files replica dirty (fun p => seen p ∨ p ∈ o.paths) later

section Kept

variable {files files' replica replica' : Str → Option Bytes} {dirty dirty' seen seen' : Str → Prop}

/-- The replica may change away from the sources of the renames. -/
theorem AllKept.mono {ops : List LocalOp} (h : AllKept files replica dirty seen ops)
    (hkeep : ∀ p, ¬ seen p → ¬ dirty p → ¬ seen' p ∧ ¬ dirty' p ∧ replica' p = replica p) :
    AllKept files replica' dirty' seen' ops := by
  induction ops generalizing seen seen' with
  | nil => trivial
  | cons o later ih =>
    obtain ⟨hkept, hlater⟩ := h
    refine ⟨?_, ih hlater fun p hseen hdirty => ?_⟩
    · cases o with
      | write path file => trivial
      | delete path => exact hkept
      | rename src dst =>
        obtain ⟨hclean, hunseen, hgone, content, hsource, htarget⟩ := hkept
        obtain ⟨hunseen', hclean', hsame⟩ := hkeep src hunseen hclean
        exact ⟨hclean', hunseen', hgone, content, hsame.trans hsource, htarget⟩
    · rw [not_or] at hseen
      obtain ⟨hunseen', hclean', hsame⟩ := hkeep p hseen.1 hdirty
      exact ⟨not_or.mpr ⟨hunseen', hseen.2⟩, hclean', hsame⟩

theorem pathsOf_append (ops ops' : List LocalOp) :
    pathsOf (ops ++ ops') = pathsOf ops ++ pathsOf ops' := List.flatMap_append

theorem mem_pathsOf_cons {o : LocalOp} {later : List LocalOp} {p : Str} :
    p ∈ pathsOf (o :: later) ↔ p ∈ o.paths ∨ p ∈ pathsOf later := by
  unfold pathsOf
  rw [List.flatMap_cons, List.mem_append]

/-- A further operation changes the files at its own paths only. -/
theorem AllKept.concat {ops : List LocalOp} {o : LocalOp}
    (h : AllKept files replica dirty seen ops) (hframe : ∀ p ∉ o.paths, files' p = files p)
    (hlast : o.Kept files' replica dirty (fun p => seen p ∨ p ∈ pathsOf ops) []) :
    AllKept files' replica dirty seen (ops ++ [o]) := by
  -- what is said of an earlier operation is said of paths that the later ones do not touch
  have hlater : ∀ {p later}, p ∉ pathsOf (later ++ [o]) →
      p ∉ pathsOf later ∧ files' p = files p := by
    intro p later hp
    rw [pathsOf_append, List.mem_append, not_or] at hp
    refine ⟨hp.1, hframe p fun hmem => hp.2 ?_⟩
    exact mem_pathsOf_cons.mpr (Or.inl hmem)
  induction ops generalizing seen with
  | nil =>
    refine ⟨?_, trivial⟩
    simpa [pathsOf] using hlast
  | cons first ops ih =>
    obtain ⟨hkept, hrest⟩ := h
    refine ⟨?_, ih hrest ?_⟩
    · cases first with
      | write path file => trivial
      | delete path =>
        intro hp
        obtain ⟨hp', hsame⟩ := hlater hp
        rw [hsame]
        exact hkept hp'
      | rename src dst =>
        obtain ⟨hclean, hunseen, hgone, content, hsource, htarget⟩ := hkept
        refine ⟨hclean, hunseen, fun hp => ?_, content, hsource, fun hp => ?_⟩
        · obtain ⟨hp', hsame⟩ := hlater hp
          rw [hsame]
          exact hgone hp'
        · obtain ⟨hp', hsame⟩ := hlater hp
          rw [hsame]
          exact htarget hp'
    · have hseen : (fun p => seen p ∨ p ∈ pathsOf (first :: ops)) =
          fun p => (seen p ∨ p ∈ first.paths) ∨ p ∈ pathsOf ops := by
        funext p
        rw [mem_pathsOf_cons, or_assoc]
      rw [hseen] at hlast
      exact hlast

end Kept

/-- **The invariant.** Away from what is held back or not yet reported, the replica is the local
tree; and the reports that are still to come find what they need. -/
structure Inv (C : Config) (R : Str → Option Bytes) (s : Silo) : Prop where
  writes : OnlyWrites s.toState
  unblocked : ∀ p ∈ pathsOf s.unreported, C.blocked p = false
  settled : ∀ p, s.dirty.get? p = none → p ∉ pathsOf s.unreported →
    s.replica R p = contents s.files p
  kept : AllKept (contents s.files) (s.replica R) (fun p => s.dirty.get? p ≠ none)
    (fun _ => False) s.unreported

section Steps

variable {C : Config} {R : Str → Option Bytes} {s : Silo}

/-- Flushing what is held back keeps the invariant. -/
theorem Inv.flushed (h : Inv C R s) {s' : State} (hflush : Flushed R s.toState s') :
    Inv C R ⟨s', s.unreported⟩ where
  writes := hflush.writes
  unblocked := h.unblocked
  settled p hclean hp := by
    rw [hflush.files]
    by_cases hdirty : s.dirty.get? p = none
    · rw [(hflush.clean p hdirty).2]
      exact h.settled p hdirty hp
    · exact hflush.flushed p hclean hdirty
  kept := by
    rw [hflush.files]
    refine h.kept.mono fun p hseen hdirty => ?_
    obtain ⟨hclean, hsame⟩ := hflush.clean p (not_not.mp hdirty)
    exact ⟨hseen, not_not_intro hclean, hsame⟩

theorem LocalOp.apply_of_notMem {files : Str → Option FileData} {o : LocalOp} {p : Str}
    (h : p ∉ o.paths) : o.apply files p = files p := by
  cases o with
  | write path file => exact Function.update_of_ne (List.ne_of_not_mem_cons h) _ _
  | delete path => exact Function.update_of_ne (List.ne_of_not_mem_cons h) _ _
  | rename src dst =>
    have hsrc : p ≠ src := List.ne_of_not_mem_cons h
    have hdst : p ≠ dst := List.ne_of_not_mem_cons (List.not_mem_of_not_mem_cons h)
    rw [LocalOp.apply, Function.update_of_ne hdst, Function.update_of_ne hsrc]

/-- A local operation. -/
theorem Inv.op (h : Inv C R s) {o : LocalOp} (hpossible : o.possible s.files = true)
    (hunblocked : ∀ p ∈ o.paths, C.blocked p = false) (hsettled : Settled s (.op o)) :
    Inv C R { s with files := o.apply s.files, unreported := s.unreported ++ [o] } where
  writes := h.writes
  unblocked p hp := by
    rw [pathsOf_append, List.mem_append] at hp
    rcases hp with hp | hp
    · exact h.unblocked p hp
    · rcases mem_pathsOf_cons.mp hp with hp | hp
      · exact hunblocked p hp
      · cases hp
  settled p hclean hp := by
    rw [pathsOf_append, List.mem_append, not_or] at hp
    have hother : p ∉ o.paths := fun hmem => hp.2 (mem_pathsOf_cons.mpr (Or.inl hmem))
    refine (h.settled p hclean hp.1).trans ?_
    exact congrArg (Option.map FileData.content) (LocalOp.apply_of_notMem hother).symm
  kept := by
    refine h.kept.concat (fun p hp => ?_) ?_
    · exact congrArg (Option.map FileData.content) (LocalOp.apply_of_notMem hp)
    · cases o with
      | write path file => trivial
      | delete path =>
        intro _
        show (LocalOp.apply s.files (.delete path) path).map FileData.content = none
        rw [LocalOp.apply, Function.update_self]
        rfl
      | rename src dst =>
        rw [LocalOp.possible, Bool.and_eq_true, bne_iff_ne] at hpossible
        obtain ⟨hsome, hne⟩ := hpossible
        obtain ⟨f, hf⟩ := Option.isSome_iff_exists.mp hsome
        obtain ⟨hclean, hunseen⟩ := hsettled
        -- nothing waits at the source, so that the replica has it
        have hsource : s.replica R src = some f.content := by
          rw [h.settled src hclean hunseen, contents, hf]
          rfl
        refine ⟨not_not_intro hclean, not_or.mpr ⟨id, hunseen⟩, fun _ => ?_, f.content, hsource,
          fun _ => ?_⟩
        · show (LocalOp.apply s.files (.rename src dst) src).map FileData.content = none
          rw [LocalOp.apply, Function.update_of_ne hne, Function.update_self]
          rfl
        · show (LocalOp.apply s.files (.rename src dst) dst).map FileData.content = _
          rw [LocalOp.apply, Function.update_self, hf]
          rfl

/-- A report changes nothing away from the paths of its operation; at these it is enough that what
is neither held back nor changed again is on the replica. -/
theorem Inv.reported {s s' : State} {o : LocalOp} {later : List LocalOp}
    (h : Inv C R ⟨s, o :: later⟩) (hfiles : s'.files = s.files) (hwrites : OnlyWrites s')
    (hframe : ∀ p ∉ o.paths, s'.dirty.get? p = s.dirty.get? p ∧ s'.replica R p = s.replica R p)
    (hown : ∀ p ∈ o.paths, p ∉ pathsOf later → s'.dirty.get? p = none →
      s'.replica R p = contents s.files p) : Inv C R ⟨s', later⟩ where
  writes := hwrites
  unblocked p hp := h.unblocked p (mem_pathsOf_cons.mpr (Or.inr hp))
  settled p hclean hp := by
    rw [hfiles]
    by_cases hmem : p ∈ o.paths
    · exact hown p hmem hp hclean
    · obtain ⟨hdirty, hreplica⟩ := hframe p hmem
      rw [hreplica]
      refine h.settled p (hdirty.symm.trans hclean) ?_
      rw [mem_pathsOf_cons, not_or]
      exact ⟨hmem, hp⟩
  kept := by
    rw [hfiles]
    refine h.kept.2.mono fun p hseen hclean => ?_
    -- a path that the operation names is no source of a later rename
    rw [not_or] at hseen
    obtain ⟨hdirty, hreplica⟩ := hframe p hseen.2
    exact ⟨id, by rwa [hdirty], hreplica⟩

/-- A write that is reported is held back. -/
theorem Inv.report_write {s : State} {path : Str} {file : FileData} {later : List LocalOp}
    (h : Inv C R ⟨s, .write path file :: later⟩) : Inv C R ⟨onWrite C s (some path), later⟩ := by
  have hpath : C.blocked path = false := h.unblocked path (by simp [pathsOf, LocalOp.paths])
  have hheld : Inv C R ⟨{ s with dirty := s.dirty.set path .write }, later⟩ := by
    refine h.reported rfl (h.writes.hold path) (fun p hp => ⟨?_, rfl⟩) fun p hp _ hclean => ?_
    · exact Dict.get?_set_of_ne _ _ (List.ne_of_not_mem_cons hp)
    · rw [List.mem_singleton.mp hp, Dict.get?_set_self] at hclean
      cases hclean
  rw [onWrite, tracked_of_unblocked hpath]
  exact hheld.flushed (flushed_schedule h.writes path)

/-- A delete that is reported drops what is held back at the path. -/
theorem Inv.report_delete {s : State} {path : Str} {later : List LocalOp}
    (h : Inv C R ⟨s, .delete path :: later⟩) : Inv C R ⟨onDelete C s (some path), later⟩ := by
  have hpath : C.blocked path = false := h.unblocked path (by simp [pathsOf, LocalOp.paths])
  obtain ⟨hfiles, hdirty, hreplica⟩ := onDelete_spec (R := R) (s := s) hpath
  refine h.reported hfiles ?_ (fun p hp => ?_) fun p hp hlater _ => ?_
  · intro p op hp
    rw [hdirty] at hp
    exact (h.writes.erase path).erase path p op hp
  · have hne : p ≠ path := List.ne_of_not_mem_cons hp
    rw [hdirty, hreplica, Dict.get?_erase_of_ne _ hne, Dict.get?_erase_of_ne _ hne,
      Function.update_of_ne hne]
    exact ⟨rfl, rfl⟩
  · cases List.mem_singleton.mp hp
    rw [hreplica, Function.update_self]
    exact (h.kept.1 hlater).symm

/-- A rename that is reported moves, on the replica, what the file was renamed with. -/
theorem Inv.report_rename {s : State} {src dst : Str} {later : List LocalOp}
    (h : Inv C R ⟨s, .rename src dst :: later⟩) :
    Inv C R ⟨onRename C s (some src) (some dst), later⟩ := by
  have hsrc : C.blocked src = false := h.unblocked src (by simp [pathsOf, LocalOp.paths])
  have hdst : C.blocked dst = false := h.unblocked dst (by simp [pathsOf, LocalOp.paths])
  obtain ⟨hfiles, hdirty, hreplica⟩ := onRename_spec (R := R) (s := s) hsrc hdst
  obtain ⟨-, -, hgone, content, hsource, htarget⟩ := h.kept.1
  -- the replica has under the old path what was renamed, so it moves that
  have hmove : move (s.replica R) src dst =
      Function.update (Function.update (s.replica R) src none) dst (some content) := by
    rw [move, show s.replica R src = some content from hsource]
  rw [hmove] at hreplica
  refine h.reported hfiles ?_ (fun p hp => ?_) fun p hp hlater _ => ?_
  · intro p op hp
    rw [hdirty] at hp
    exact (h.writes.erase src).erase dst p op hp
  · have hneSrc : p ≠ src := List.ne_of_not_mem_cons hp
    have hneDst : p ≠ dst := List.ne_of_not_mem_cons (List.not_mem_of_not_mem_cons hp)
    refine ⟨?_, ?_⟩
    · rw [hdirty, Dict.get?_erase_of_ne _ hneDst, Dict.get?_erase_of_ne _ hneSrc]
    · rw [hreplica]
      split
      · rw [Function.update_of_ne hneSrc]
      · rw [Function.update_of_ne hneDst, Function.update_of_ne hneSrc]
  · rw [hreplica]
    by_cases hself : p = dst
    · -- the target is there, with the content that was moved
      rw [hself] at hlater ⊢
      have hcontent : contents s.files dst = some content := htarget hlater
      have hthere : s.files dst ≠ none := by
        intro hnone
        rw [contents, hnone] at hcontent
        cases hcontent
      rw [if_neg hthere, Function.update_self]
      exact hcontent.symm
    · -- the source is gone on both sides
      have hsource' : p = src := by simpa [LocalOp.paths, hself] using hp
      rw [hsource'] at hself hlater ⊢
      have hnone : contents s.files src = none := hgone hlater
      rw [hnone]
      split
      · exact Function.update_self _ _ _
      · rw [Function.update_of_ne hself, Function.update_self]

/-- **Every step keeps the invariant**, under the condition. -/
theorem Inv.step (h : Inv C R s) {a : Act} (ha : Unblocked C a ∧ Settled s a) :
    Inv C R (Watcher.step C s a) := by
  cases a with
  | op o =>
    by_cases hpossible : o.possible s.files = true
    · simp only [Watcher.step, if_pos hpossible]
      exact h.op hpossible ha.1 ha.2
    · simp only [Watcher.step, if_neg hpossible]
      exact h
  | report =>
    obtain ⟨s, unreported⟩ := s
    cases unreported with
    | nil => exact h
    | cons o later =>
      cases o with
      | write path file => exact h.report_write
      | delete path => exact h.report_delete
      | rename src dst => exact h.report_rename
  | fire rel => exact h.flushed (flushed_timerFired h.writes rel)
  | flushAll => exact h.flushed (flushed_flushAll h.writes)

end Steps

theorem inv_start (C : Config) (files : Str → Option FileData) :
    Inv C (contents files) (start files) where
  writes := fun p op hp => by cases hp
  unblocked := fun p hp => by cases hp
  settled := fun p _ _ => rfl
  kept := trivial

/-- When nothing is held back and nothing is unreported, the replica is the local tree. -/
theorem Inv.replica_of_quiet {C : Config} {R : Str → Option Bytes} {s : Silo} (h : Inv C R s)
    (hquiet : s.Quiet) : replay R s.queue = contents s.files := by
  obtain ⟨hreported, hfired⟩ := hquiet
  funext p
  refine h.settled p ?_ ?_
  · rw [hfired]
    rfl
  · rw [hreported]
    exact List.not_mem_nil

/-- **No local change is lost.** In every run of local operations on unblocked paths, of reports
and of timers, in which no file is renamed while a change to it is held back or not yet reported:
whenever everything is reported and every timer has fired, the queue makes a replica that was the
local tree at the start what the local tree is. -/
theorem replica_eq_local (C : Config) (files : Str → Option FileData) (acts : List Act)
    (hrun : Run.Guarded (step C) (fun s a => Unblocked C a ∧ Settled s a) (start files) acts)
    (hquiet : (Run.run (step C) (start files) acts).Quiet) :
    replay (contents files) (Run.run (step C) (start files) acts).queue =
      contents (Run.run (step C) (start files) acts).files := by
  have hinv : Inv C (contents files) (Run.run (step C) (start files) acts) :=
    Run.run_invariant (fun s a h ha => h.step ha) (inv_start C files) hrun
  exact hinv.replica_of_quiet hquiet

namespace Sample

def config : Config where
  blocked _ := false
  maxDirtyFiles := 50
  getpwuid _ := some (lit "alice")
  getgrgid _ := some (lit "users")
  timeNs n := n

def old : FileData := ⟨[1], 0o644, 1000, 100, 0⟩

def new : FileData := ⟨[2], 0o644, 1000, 100, 5⟩

/-- A silo with one document. -/
def files (p : Str) : Option FileData := if p = lit "doc" then some old else none

/-- An editor saves the document: it writes a temporary file, and later renames it over the
document. -/
def save (meanwhile : List Act) : List Act :=
  [.op (.write (lit "tmp") new), .report] ++ meanwhile ++
    [.op (.rename (lit "tmp") (lit "doc")), .report]

/-- When the timer fires before the rename, the new document arrives. -/
theorem save_replayed :
    (Run.run (step config) (start files) (save [.fire (lit "tmp")])).Quiet ∧
      replay (contents files)
          (Run.run (step config) (start files) (save [.fire (lit "tmp")])).queue =
        contents (Run.run (step config) (start files) (save [.fire (lit "tmp")])).files := by
  have hquiet : (Run.run (step config) (start files) (save [.fire (lit "tmp")])).Quiet :=
    ⟨rfl, rfl⟩
  refine ⟨hquiet, replica_eq_local config files _ ?_ hquiet⟩
  exact ⟨⟨fun p _ => rfl, trivial⟩, ⟨trivial, trivial⟩, ⟨trivial, trivial⟩,
    ⟨fun p _ => rfl, rfl, List.not_mem_nil⟩, ⟨trivial, trivial⟩, trivial⟩

/-- When it does not, the replica keeps the old document. -/
theorem save_lost : (∀ a ∈ save [], Unblocked config a) ∧
    (Run.run (step config) (start files) (save [])).Quiet ∧
    replay (contents files) (Run.run (step config) (start files) (save [])).queue (lit "doc") =
      some [1] ∧
    contents (Run.run (step config) (start files) (save [])).files (lit "doc") = some [2] := by
  refine ⟨?_, ⟨rfl, rfl⟩, by decide, by decide⟩
  intro a ha
  cases a with
  | op o => exact fun p _ => rfl
  | _ => trivial

end Sample

end Watcher

end Chiralite
