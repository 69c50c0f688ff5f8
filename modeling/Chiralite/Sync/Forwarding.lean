import Chiralite.Sync.Watcher

/-!
# From the watcher to the server

`_run_silo_once` of `client.py` takes one event after another from the watcher's queue and hands it
to `_dispatch_event`. Between the two the local files change on: an event is forwarded with the
content that its file has *at that moment*, and not with the one it had when the event was made. A
write whose file is gone is not sent at all, and one whose file has changed meanwhile is turned down
by the server, because its content does not have the announced hash.

So a forwarded write may do nothing, and the remote files are not what the queue replays to
(`replay`). That is no loss by itself, since a file that changed is reported again. It is one when
the file is renamed before its write was forwarded: the rename then finds nothing, or something
old, to move. `Settled` excludes that. Under it the remote files are the local ones whenever
nothing is under way (`converges`), whatever is skipped or turned down in between. The callback of a
timer is one step here too, as in `Sync/Watcher.lean`: none is overtaken by another thread.

What carries the argument is `Consistent`. It looks at the events that are still to be forwarded and
at the operations that are still to be reported as at one list, of which the events come first: away
from the paths in the list and from what is held back, the remote files are the local ones; and each
entry of the list does what it should if no later one names its paths.
-/

namespace Chiralite

open Py Posix

namespace Watcher

/-! ### Forwarding -/

/-- The paths that some events name. -/
def namedBy (events : List Emission) : List Str := events.flatMap fun e => e.event.names

/-- **The remote files after an event that is forwarded** while the local files are these: the
content is read now, and it is turned down if it is not the announced one. -/
def Emission.forward (files : Str → Option FileData) (remote : Str → Option Bytes)
    (e : Emission) : Str → Option Bytes :=
  match e.event with
  | .write w =>
    match files w.path with
    -- `read_bytes` raises, which is logged
    | none => remote
    | some f =>
      if rapidhash f.content = w.rapidhash then Function.update remote w.path (some f.content)
      else remote
  | .delete d => Function.update remote d.path none
  | .rename r => move remote r.oldPath r.newPath

/-- A silo whose events are forwarded: how many of them have been, and the remote files. -/
structure Pipeline extends Silo where
  taken : Nat
  remote : Str → Option Bytes

namespace Pipeline

/-- The events that are still to be forwarded. -/
def out (s : Pipeline) : List Emission := s.queue.drop s.taken

/-- A watcher that has just been started, on both sides of which the files are the same. -/
def start (files : Str → Option FileData) : Pipeline :=
  { Watcher.start files with taken := 0, remote := contents files }

/-- What can happen. -/
inductive Act where
  /-- On the side of the watcher. -/
  | here (a : Watcher.Act)
  /-- The next event is forwarded. -/
  | forward

/-- One step. -/
def step (C : Config) (s : Pipeline) : Act → Pipeline
  | .here a => { s with toSilo := Watcher.step C s.toSilo a }
  | .forward =>
    match s.queue[s.taken]? with
    | none => s
    | some e => { s with taken := s.taken + 1, remote := e.forward s.files s.remote }

/-- A change to the path is under way. -/
def Pending (s : Pipeline) (p : Str) : Prop :=
  p ∈ namedBy s.out ∨ s.dirty.get? p ≠ none ∨ p ∈ pathsOf s.unreported

/-- **The condition.** A file is renamed within the silo only when no change to it is under way. -/
def Settled (s : Pipeline) : Act → Prop
  | .here (.op (.rename src _)) => ¬ s.Pending src
  | _ => True

/-- The operation is on unblocked paths, and on paths of the silo. -/
def Within (C : Config) (paths : Set Str) : Act → Prop
  | .here (.op o) => ∀ p ∈ o.paths, C.blocked p = false ∧ p ∈ paths
  | _ => True

/-- Nothing is held back, unreported or still to be forwarded. -/
def Quiet (s : Pipeline) : Prop := s.toSilo.Quiet ∧ s.out = []

end Pipeline

/-! ### What is awaited of an event -/

/-- **An event that is still to be forwarded** finds what it needs: unless its paths change again, a
write finds the announced content and a delete finds the file gone; and a rename finds at its source
the content that it is to move, which no event before it touches. -/
def Emission.Await (files : Str → Option FileData) (remote : Str → Option Bytes)
    (seen pending : Str → Prop) (e : Emission) : Prop :=
  match e.event with
  | .write w => ¬ pending w.path →
      ∃ f, files w.path = some f ∧ rapidhash f.content = w.rapidhash
  | .delete d => ¬ pending d.path → files d.path = none
  | .rename r => ¬ seen r.oldPath ∧ (¬ pending r.oldPath → files r.oldPath = none) ∧
      ∃ content, remote r.oldPath = some content ∧
        (¬ pending r.newPath → contents files r.newPath = some content)

/-- So it is with every event of a list; `seen` are the paths of those before it, and `after` those
that change again after all of them. -/
def AllAwait (files : Str → Option FileData) (remote : Str → Option Bytes) (after : Str → Prop) :
    (Str → Prop) → List Emission → Prop
  | _, [] => True
  | seen, e :: later =>
    e.Await files remote seen (fun p => p ∈ namedBy later ∨ after p) ∧
      AllAwait files remote after (fun p => seen p ∨ p ∈ e.event.names) later

/-- An event that says how a file is right now. -/
def Emission.Current (files : Str → Option FileData) (e : Emission) : Prop :=
  match e.event with
  | .write w => ∃ f, files w.path = some f ∧ rapidhash f.content = w.rapidhash
  | .delete d => files d.path = none
  | .rename _ => False

section Await

variable {files files' : Str → Option FileData} {remote remote' : Str → Option Bytes}
  {seen seen' pending pending' after after' : Str → Prop} {e : Emission} {es new : List Emission}
  {p : Str}

theorem namedBy_append (es new : List Emission) :
    namedBy (es ++ new) = namedBy es ++ namedBy new := List.flatMap_append

theorem mem_namedBy_cons : p ∈ namedBy (e :: es) ↔ p ∈ e.event.names ∨ p ∈ namedBy es := by
  unfold namedBy
  rw [List.flatMap_cons, List.mem_append]

/-- The local files may change where a change is under way, and the remote ones where an earlier
event is at work. -/
theorem Emission.Await.mono (h : e.Await files remote seen pending)
    (hseen : ∀ p, seen' p → seen p) (hpending : ∀ p, pending p → pending' p)
    (hfiles : ∀ p, ¬ pending' p → files' p = files p)
    (hremote : ∀ p, ¬ seen p → remote' p = remote p) : e.Await files' remote' seen' pending' := by
  have hclean : ∀ {p}, ¬ pending' p → ¬ pending p := fun hp hmem => hp (hpending _ hmem)
  obtain ⟨event, file⟩ := e
  cases event with
  | write w =>
    intro hp
    obtain ⟨f, hf, hhash⟩ := h (hclean hp)
    exact ⟨f, (hfiles _ hp).trans hf, hhash⟩
  | delete d =>
    intro hp
    exact (hfiles _ hp).trans (h (hclean hp))
  | rename r =>
    obtain ⟨hunseen, hgone, content, hsource, htarget⟩ := h
    refine ⟨fun hs => hunseen (hseen _ hs), fun hp => ?_, content, ?_, fun hp => ?_⟩
    · exact (hfiles _ hp).trans (hgone (hclean hp))
    · exact (hremote _ hunseen).trans hsource
    · rw [contents, hfiles _ hp]
      exact htarget (hclean hp)

theorem Emission.Current.await (h : e.Current files) : e.Await files remote seen pending := by
  obtain ⟨event, file⟩ := e
  cases event with
  | write w =>
    intro _
    exact h
  | delete d =>
    intro _
    exact h
  | rename r => exact h.elim

theorem allAwait_of_current (h : ∀ e ∈ es, e.Current files) :
    AllAwait files remote after seen es := by
  induction es generalizing seen with
  | nil => trivial
  | cons e later ih =>
    exact ⟨(h e List.mem_cons_self).await, ih fun e he => h e (List.mem_cons_of_mem _ he)⟩

theorem AllAwait.mono (h : AllAwait files remote after seen es)
    (hseen : ∀ p, seen' p → seen p) (hafter : ∀ p, after p → after' p)
    (hfiles : ∀ p, ¬ after' p → files' p = files p)
    (hremote : ∀ p, ¬ seen p → remote' p = remote p) :
    AllAwait files' remote' after' seen' es := by
  induction es generalizing seen seen' with
  | nil => trivial
  | cons e later ih =>
    obtain ⟨hawait, hlater⟩ := h
    refine ⟨hawait.mono hseen ?_ ?_ hremote, ih hlater ?_ ?_⟩
    · exact fun p hp => hp.imp_right (hafter p)
    · exact fun p hp => hfiles p fun hmem => hp (Or.inr hmem)
    · exact fun p hp => hp.imp_left (hseen p)
    · exact fun p hp => hremote p fun hmem => hp (Or.inl hmem)

/-- Further events name paths that change again, as seen from the earlier ones. -/
theorem AllAwait.append (h : AllAwait files remote after seen es)
    (hafter : ∀ p, after p → p ∈ namedBy new ∨ after' p)
    (hnew : AllAwait files remote after' (fun p => seen p ∨ p ∈ namedBy es) new) :
    AllAwait files remote after' seen (es ++ new) := by
  induction es generalizing seen with
  | nil => simpa [namedBy] using hnew
  | cons e later ih =>
    obtain ⟨hawait, hlater⟩ := h
    refine ⟨hawait.mono (fun p hp => hp) (fun p hp => ?_) (fun p _ => rfl) (fun p _ => rfl),
      ih hlater ?_⟩
    · show p ∈ namedBy (later ++ new) ∨ after' p
      rw [namedBy_append, List.mem_append, or_assoc]
      exact hp.imp_right (hafter p)
    · have hseen : (fun p => seen p ∨ p ∈ namedBy (e :: later)) =
          fun p => (seen p ∨ p ∈ e.event.names) ∨ p ∈ namedBy later := by
        funext p
        rw [mem_namedBy_cons, or_assoc]
      rw [hseen] at hnew
      exact hnew

/-- Forwarding an event changes the remote files at its paths only. -/
theorem Emission.forward_of_notMem (h : p ∉ e.event.names) :
    e.forward files remote p = remote p := by
  obtain ⟨event, file⟩ := e
  cases event with
  | write w =>
    have hne : p ≠ w.path := List.ne_of_not_mem_cons h
    dsimp only [Emission.forward]
    cases files w.path with
    | none => rfl
    | some f =>
      dsimp only
      split
      · exact Function.update_of_ne hne _ _
      · rfl
  | delete d => exact Function.update_of_ne (List.ne_of_not_mem_cons h) _ _
  | rename r =>
    have hold : p ≠ r.oldPath := List.ne_of_not_mem_cons h
    have hnew : p ≠ r.newPath := List.ne_of_not_mem_cons (List.not_mem_of_not_mem_cons h)
    dsimp only [Emission.forward]
    unfold move
    cases remote r.oldPath with
    | none => rfl
    | some content =>
      dsimp only
      rw [Function.update_of_ne hnew, Function.update_of_ne hold]

/-- **An event that found what it needs** makes the remote files what the local ones are, at those
of its paths that do not change again. -/
theorem Emission.Await.forwarded (h : e.Await files remote seen pending)
    (hp : p ∈ e.event.names) (hlast : ¬ pending p) :
    e.forward files remote p = contents files p := by
  obtain ⟨event, file⟩ := e
  cases event with
  | write w =>
    obtain rfl := List.mem_singleton.mp hp
    obtain ⟨f, hf, hhash⟩ := h hlast
    dsimp only [Emission.forward]
    rw [hf]
    dsimp only
    rw [if_pos hhash, Function.update_self, contents, hf]
    rfl
  | delete d =>
    obtain rfl := List.mem_singleton.mp hp
    dsimp only [Emission.forward]
    rw [Function.update_self, contents, h hlast]
    rfl
  | rename r =>
    obtain ⟨-, hgone, content, hsource, htarget⟩ := h
    dsimp only [Emission.forward]
    rw [move, hsource]
    dsimp only
    by_cases hnew : p = r.newPath
    · rw [hnew] at hlast ⊢
      rw [Function.update_self]
      exact (htarget hlast).symm
    · -- it is the source, which is gone on both sides
      have hold : p = r.oldPath := by
        rcases List.mem_cons.mp hp with hold | hp
        · exact hold
        · exact absurd (List.mem_singleton.mp hp) hnew
      rw [hold] at hnew hlast ⊢
      rw [Function.update_of_ne hnew, Function.update_self, contents, hgone hlast]
      rfl

end Await

/-! ### The invariant -/

/-- **The invariant**, of the files on both sides, the events that are still to be forwarded, the
paths that are held back and the operations that are still to be reported. -/
structure Consistent (paths : Set Str) (files : Str → Option FileData)
    (remote : Str → Option Bytes) (out : List Emission) (dirty : Str → Prop)
    (ops : List LocalOp) : Prop where
  /-- Changes are to paths of the silo. -/
  known : ∀ p, p ∈ namedBy out ∨ dirty p ∨ p ∈ pathsOf ops → p ∈ paths
  /-- Where no change is under way, the remote files are the local ones. -/
  settled : ∀ p, ¬ (p ∈ namedBy out ∨ dirty p ∨ p ∈ pathsOf ops) → remote p = contents files p
  /-- The events that are still to be forwarded find what they need. -/
  awaited : AllAwait files remote (fun p => dirty p ∨ p ∈ pathsOf ops) (fun _ => False) out
  /-- And so do the operations that are still to be reported. -/
  kept : AllKept (contents files) remote dirty (fun p => p ∈ namedBy out) ops

section Consistent

variable {paths : Set Str} {files files' : Str → Option FileData} {remote : Str → Option Bytes}
  {out new : List Emission} {dirty dirty' : Str → Prop} {ops later : List LocalOp} {e : Emission}
  {path src dst : Str}

theorem consistent_start (paths : Set Str) (files : Str → Option FileData) :
    Consistent paths files (contents files) [] (fun _ => False) [] where
  known p hp := by simp [namedBy, pathsOf] at hp
  settled p _ := rfl
  awaited := trivial
  kept := trivial

/-- A local operation. -/
theorem Consistent.op (h : Consistent paths files remote out dirty ops) {o : LocalOp}
    (hpossible : o.possible files = true) (hknown : ∀ p ∈ o.paths, p ∈ paths)
    (hsettled : ∀ src dst, o = .rename src dst →
      ¬ (src ∈ namedBy out ∨ dirty src ∨ src ∈ pathsOf ops)) :
    Consistent paths (o.apply files) remote out dirty (ops ++ [o]) := by
  have hpaths : ∀ p, p ∈ pathsOf (ops ++ [o]) ↔ p ∈ pathsOf ops ∨ p ∈ o.paths := by
    intro p
    rw [pathsOf_append, List.mem_append]
    refine or_congr_right ?_
    unfold pathsOf
    rw [List.flatMap_cons, List.flatMap_nil, List.append_nil]
  have hframe : ∀ p, p ∉ o.paths → contents (o.apply files) p = contents files p :=
    fun p hp => congrArg (Option.map FileData.content) (LocalOp.apply_of_notMem hp)
  refine ⟨fun p hp => ?_, fun p hp => ?_, ?_, ?_⟩
  · rw [hpaths] at hp
    rcases hp with hp | hp | hp | hp
    · exact h.known p (Or.inl hp)
    · exact h.known p (Or.inr (Or.inl hp))
    · exact h.known p (Or.inr (Or.inr hp))
    · exact hknown p hp
  · rw [hpaths, ← or_assoc, ← or_assoc, not_or] at hp
    rw [hframe p hp.2]
    refine h.settled p ?_
    rw [← or_assoc]
    exact hp.1
  · -- what is said of an event is said of paths that do not change again
    refine h.awaited.mono (fun p hp => hp) (fun p hp => ?_) (fun p hp => ?_) (fun p _ => rfl)
    · rw [hpaths]
      exact hp.imp_right Or.inl
    · rw [hpaths, not_or, not_or] at hp
      exact LocalOp.apply_of_notMem hp.2.2
  · refine h.kept.concat hframe ?_
    cases o with
    | write path file => trivial
    | delete path =>
      intro _
      show (LocalOp.apply files (.delete path) path).map FileData.content = none
      rw [LocalOp.apply, Function.update_self]
      rfl
    | rename src dst =>
      rw [LocalOp.possible, Bool.and_eq_true, bne_iff_ne] at hpossible
      obtain ⟨hsome, hne⟩ := hpossible
      obtain ⟨f, hf⟩ := Option.isSome_iff_exists.mp hsome
      have hclean := hsettled src dst rfl
      -- nothing is under way at the source, so that the other side has it
      have hsource : remote src = some f.content := by
        rw [h.settled src hclean, contents, hf]
        rfl
      rw [not_or, not_or] at hclean
      refine ⟨hclean.2.1, not_or.mpr ⟨hclean.1, hclean.2.2⟩, fun _ => ?_, f.content, hsource,
        fun _ => ?_⟩
      · show (LocalOp.apply files (.rename src dst) src).map FileData.content = none
        rw [LocalOp.apply, Function.update_of_ne hne, Function.update_self]
        rfl
      · show (LocalOp.apply files (.rename src dst) dst).map FileData.content = _
        rw [LocalOp.apply, Function.update_self, hf]
        rfl

/-- Held-back writes are passed on: the events say how the files are now. -/
theorem Consistent.flush (h : Consistent paths files remote out dirty ops)
    (hdirty : ∀ p, dirty p ↔ dirty' p ∨ p ∈ namedBy new)
    (hcurrent : ∀ e ∈ new, e.Current files) :
    Consistent paths files remote (out ++ new) dirty' ops := by
  have hsame : ∀ p, (p ∈ namedBy (out ++ new) ∨ dirty' p ∨ p ∈ pathsOf ops) ↔
      (p ∈ namedBy out ∨ dirty p ∨ p ∈ pathsOf ops) := by
    intro p
    rw [namedBy_append, List.mem_append, hdirty p]
    tauto
  refine ⟨fun p hp => h.known p ((hsame p).mp hp),
    fun p hp => h.settled p fun hmem => hp ((hsame p).mpr hmem), ?_, ?_⟩
  · refine h.awaited.append (fun p hp => ?_) (allAwait_of_current hcurrent)
    rw [hdirty p] at hp
    tauto
  · -- a path that was held back is no source of a rename that is still to be reported
    refine h.kept.mono fun p hseen hclean => ⟨?_, ?_, rfl⟩
    · rw [namedBy_append, List.mem_append, not_or]
      exact ⟨hseen, fun hmem => hclean ((hdirty p).mpr (Or.inr hmem))⟩
    · exact fun hmem => hclean ((hdirty p).mpr (Or.inl hmem))

/-- A write that is reported is held back. -/
theorem Consistent.report_write {file : FileData}
    (h : Consistent paths files remote out dirty (.write path file :: later)) :
    Consistent paths files remote out (fun p => dirty p ∨ p = path) later := by
  have hsame : ∀ p, ((dirty p ∨ p = path) ∨ p ∈ pathsOf later) ↔
      (dirty p ∨ p ∈ pathsOf (.write path file :: later)) := by
    intro p
    rw [mem_pathsOf_cons, LocalOp.paths, List.mem_singleton, or_assoc]
  refine ⟨fun p hp => h.known p ?_, fun p hp => h.settled p ?_, ?_, ?_⟩
  · rw [← hsame]
    exact hp
  · rw [← hsame]
    exact hp
  · refine h.awaited.mono (fun p hp => hp) (fun p hp => (hsame p).mpr hp) (fun p _ => rfl)
      (fun p _ => rfl)
  · refine h.kept.2.mono fun p hseen hclean => ?_
    rw [not_or, LocalOp.paths, List.mem_singleton] at hseen
    exact ⟨hseen.1, not_or.mpr ⟨hclean, hseen.2⟩, rfl⟩

/-- A report that is passed on at once: what its operation names changes at the event, or again. -/
theorem Consistent.report_now {o : LocalOp}
    (h : Consistent paths files remote out dirty (o :: later))
    (hdirty : ∀ p, dirty' p ↔ dirty p ∧ p ∉ o.paths) (hnames : ∀ p ∈ e.event.names, p ∈ o.paths)
    (hpending : ∀ p ∈ o.paths, p ∈ e.event.names ∨ p ∈ pathsOf later)
    (hawait : e.Await files remote (fun p => p ∈ namedBy out)
      fun p => dirty' p ∨ p ∈ pathsOf later) :
    Consistent paths files remote (out ++ [e]) dirty' later := by
  have hlast : namedBy [e] = e.event.names := by
    unfold namedBy
    rw [List.flatMap_cons, List.flatMap_nil, List.append_nil]
  have hafter : ∀ p, dirty p ∨ p ∈ pathsOf (o :: later) →
      p ∈ namedBy [e] ∨ dirty' p ∨ p ∈ pathsOf later := by
    intro p hp
    rw [mem_pathsOf_cons] at hp
    rw [hlast, hdirty p]
    by_cases hown : p ∈ o.paths
    · exact (hpending p hown).imp_right Or.inr
    · tauto
  refine ⟨fun p hp => ?_, fun p hp => h.settled p fun hmem => hp ?_, ?_, ?_⟩
  · rw [namedBy_append, List.mem_append, hlast, hdirty p] at hp
    refine h.known p ?_
    rw [mem_pathsOf_cons]
    rcases hp with (hp | hp) | hp | hp
    · exact Or.inl hp
    · exact Or.inr (Or.inr (Or.inl (hnames p hp)))
    · exact Or.inr (Or.inl hp.1)
    · exact Or.inr (Or.inr (Or.inr hp))
  · rw [namedBy_append, List.mem_append, or_assoc]
    exact hmem.imp_right (hafter p)
  · refine h.awaited.append hafter ⟨hawait.mono (fun p hp => ?_) (fun p hp => ?_) (fun p _ => rfl)
      (fun p _ => rfl), trivial⟩
    · exact hp.resolve_left id
    · exact Or.inr hp
  · -- the sources of the later renames are not among the paths of this operation
    refine h.kept.2.mono fun p hseen hclean => ?_
    rw [not_or] at hseen
    refine ⟨?_, fun hmem => hclean ((hdirty p).mp hmem).1, rfl⟩
    rw [namedBy_append, List.mem_append, hlast, not_or]
    exact ⟨hseen.1, fun hmem => hseen.2 (hnames p hmem)⟩

/-- **The next event is forwarded.** -/
theorem Consistent.forward (h : Consistent paths files remote (e :: out) dirty ops) :
    Consistent paths files (e.forward files remote) out dirty ops := by
  obtain ⟨hawait, hlater⟩ := h.awaited
  refine ⟨fun p hp => h.known p ?_, fun p hp => ?_, ?_, ?_⟩
  · rw [mem_namedBy_cons]
    tauto
  · by_cases hown : p ∈ e.event.names
    · exact hawait.forwarded hown hp
    · rw [Emission.forward_of_notMem hown]
      refine h.settled p ?_
      rw [mem_namedBy_cons]
      tauto
  · refine hlater.mono (fun p hp => hp.elim) (fun p hp => hp) (fun p _ => rfl) (fun p hp => ?_)
    exact Emission.forward_of_notMem fun hmem => hp (Or.inr hmem)
  · refine h.kept.mono fun p hseen hclean => ?_
    rw [mem_namedBy_cons, not_or] at hseen
    exact ⟨hseen.2, hclean, Emission.forward_of_notMem hseen.1⟩

end Consistent

/-! ### What the debouncer passes on -/

/-- **Held-back writes are passed on**, some or all of them, each as an event that says how its file
is now. -/
structure Passed (s s' : State) (new : List Emission) : Prop where
  files : s'.files = s.files
  queue : s'.queue = s.queue ++ new
  dirty : ∀ p, s.dirty.get? p ≠ none ↔ s'.dirty.get? p ≠ none ∨ p ∈ namedBy new
  current : ∀ e ∈ new, e.Current s.files
  writes : OnlyWrites s'

section Passed

variable {C : Config} {s : State}

theorem Passed.refl (h : OnlyWrites s) : Passed s s [] where
  files := rfl
  queue := (List.append_nil _).symm
  dirty _ := (or_iff_left List.not_mem_nil).symm
  current _ he := by cases he
  writes := h

/-- A flushed write is one event, of its path. -/
theorem queue_onFlush (C : Config) (s : State) (rel : Str) :
    ∃ e, (onFlush C s rel .write).queue = s.queue ++ [e] ∧ e.event.names = [rel] ∧
      e.Current s.files := by
  unfold onFlush
  rw [if_neg (by decide)]
  cases hf : s.files rel with
  | none => exact ⟨_, rfl, rfl, hf⟩
  | some f => exact ⟨_, rfl, rfl, f, hf, rfl⟩

theorem namedBy_singleton {e : Emission} {rel : Str} (h : e.event.names = [rel]) :
    namedBy [e] = [rel] := by
  unfold namedBy
  rw [List.flatMap_cons, List.flatMap_nil, List.append_nil, h]

theorem passed_timerFired (h : OnlyWrites s) (rel : Str) :
    ∃ new, Passed s (timerFired C s rel) new := by
  unfold timerFired
  cases hop : s.dirty.get? rel with
  | none => exact ⟨[], Passed.refl h⟩
  | some op =>
    cases h rel op hop
    obtain ⟨e, hqueue, hnames, hcurrent⟩ :=
      queue_onFlush C { s with dirty := s.dirty.erase rel } rel
    obtain ⟨hfiles, hdirty⟩ :=
      onFlush_frame (C := C) (s := { s with dirty := s.dirty.erase rel }) rel .write
    refine ⟨[e], hfiles, hqueue, fun p => ?_, fun e' he' => ?_, fun p op hp => ?_⟩
    · show s.dirty.get? p ≠ none ↔
        (onFlush C { s with dirty := s.dirty.erase rel } rel .write).dirty.get? p ≠ none ∨ _
      rw [hdirty, namedBy_singleton hnames, List.mem_singleton]
      by_cases hself : p = rel
      · rw [hself, hop]
        simp
      · rw [Dict.get?_erase_of_ne _ hself]
        simp [hself]
    · rw [List.mem_singleton.mp he']
      exact hcurrent
    · have hp' : (s.dirty.erase rel).get? p = some op := by
        rw [← hp]
        exact congrArg (fun d => Dict.get? d p) hdirty.symm
      exact h.erase rel p op hp'

/-- Writes that are passed on one after another. -/
theorem queue_dispatch (items : List (Str × FlushOp)) (h : ∀ item ∈ items, item.2 = .write)
    (s : State) : ∃ new,
      (items.foldl (fun s item => dispatch C s item.1 item.2) s).queue = s.queue ++ new ∧
      namedBy new = items.map Prod.fst ∧ ∀ e ∈ new, e.Current s.files := by
  induction items generalizing s with
  | nil =>
    refine ⟨[], (List.append_nil _).symm, rfl, ?_⟩
    intro e he
    cases he
  | cons item items ih =>
    obtain ⟨rel, op⟩ := item
    cases h (rel, op) List.mem_cons_self
    obtain ⟨e, hqueue, hnames, hcurrent⟩ := queue_onFlush C s rel
    have hfiles : (onFlush C s rel .write).files = s.files := (onFlush_frame rel .write).1
    obtain ⟨new, ihqueue, ihnames, ihcurrent⟩ :=
      ih (fun item hitem => h item (List.mem_cons_of_mem _ hitem)) (onFlush C s rel .write)
    refine ⟨e :: new, ?_, ?_, ?_⟩
    · exact ihqueue.trans (by rw [hqueue, List.append_assoc, List.singleton_append])
    · rw [← List.singleton_append, namedBy_append, namedBy_singleton hnames, ihnames]
      rfl
    · intro e' he'
      rcases List.mem_cons.mp he' with rfl | he'
      · exact hcurrent
      · rw [← hfiles]
        exact ihcurrent e' he'

theorem passed_flushAll (h : OnlyWrites s) : ∃ new, Passed s (flushAll C s) new := by
  have hitems : ∀ item ∈ s.dirty.items, item.2 = .write :=
    fun item hitem => h item.1 item.2 (s.dirty.mem_items_iff.mp hitem)
  obtain ⟨new, hqueue, hnames, hcurrent⟩ :=
    queue_dispatch (C := C) _ hitems { s with dirty := Dict.empty }
  obtain ⟨hfiles, hdirty, -⟩ :=
    dispatch_writes (C := C) (R := fun _ => none) _ hitems { s with dirty := Dict.empty }
  have hnone : ∀ p, (flushAll C s).dirty.get? p = none := by
    intro p
    rw [flushAll, hdirty]
    rfl
  refine ⟨new, hfiles, hqueue, fun p => ?_, hcurrent, fun p op hp => ?_⟩
  · rw [hnone p, hnames, List.mem_map, Option.ne_none_iff_exists']
    constructor
    · rintro ⟨op, hop⟩
      exact Or.inr ⟨(p, op), s.dirty.mem_items_iff.mpr hop, rfl⟩
    · rintro (habs | ⟨⟨_, op⟩, hitem, rfl⟩)
      · exact absurd rfl habs
      · exact ⟨op, s.dirty.mem_items_iff.mp hitem⟩
  · rw [hnone p] at hp
    cases hp

/-- A write is held back; when too many are, all are passed on. -/
theorem passed_schedule (h : OnlyWrites s) (rel : Str) :
    ∃ new, Passed { s with dirty := s.dirty.set rel .write } (schedule C s rel .write) new := by
  unfold schedule
  dsimp only
  split
  · exact passed_flushAll (h.hold rel)
  · exact ⟨[], Passed.refl (h.hold rel)⟩

end Passed

/-! ### The pipeline -/

namespace Pipeline

/-- **The invariant of the pipeline.** -/
structure Inv (C : Config) (paths : Set Str) (s : Pipeline) : Prop where
  taken : s.taken ≤ s.queue.length
  writes : OnlyWrites s.toState
  unblocked : ∀ p ∈ pathsOf s.unreported, C.blocked p = false
  consistent : Consistent paths s.files s.remote s.out (fun p => s.dirty.get? p ≠ none)
    s.unreported

section Steps

variable {C : Config} {paths : Set Str} {s : Pipeline}

theorem inv_start (C : Config) (paths : Set Str) (files : Str → Option FileData) :
    Inv C paths (start files) where
  taken := Nat.le_refl 0
  writes p op hp := by cases hp
  unblocked p hp := by cases hp
  consistent := by
    have hclean : (fun p => (Dict.empty : Dict Str FlushOp).get? p ≠ none) = fun _ => False := by
      funext p
      exact eq_false (fun h => h rfl)
    show Consistent paths files (contents files) [] (fun p => (Dict.empty : Dict Str FlushOp).get? p
      ≠ none) []
    rw [hclean]
    exact consistent_start paths files

/-- New events come after those that are still to be forwarded. -/
theorem drop_append (h : s.taken ≤ s.queue.length) (new : List Emission) :
    (s.queue ++ new).drop s.taken = s.out ++ new :=
  List.drop_append_of_le_length h

theorem Inv.passed (h : Inv C paths s) {s' : State} {new : List Emission}
    (hpass : Passed s.toState s' new) : Inv C paths { s with toState := s' } where
  taken := by
    show s.taken ≤ s'.queue.length
    rw [hpass.queue, List.length_append]
    exact h.taken.trans (Nat.le_add_right _ _)
  writes := hpass.writes
  unblocked := h.unblocked
  consistent := by
    show Consistent paths s'.files s.remote (s'.queue.drop s.taken)
      (fun p => s'.dirty.get? p ≠ none) s.unreported
    rw [hpass.files, hpass.queue, drop_append h.taken]
    exact h.consistent.flush hpass.dirty hpass.current

/-- A write that is reported is held back, and with it others may be passed on. -/
theorem Inv.report_write (h : Inv C paths s) {path : Str} {file : FileData}
    {later : List LocalOp} (hops : s.unreported = .write path file :: later) :
    Inv C paths { s with toSilo := ⟨onWrite C s.toState (some path), later⟩ } := by
  have hpath : C.blocked path = false := by
    refine h.unblocked path ?_
    rw [hops]
    exact mem_pathsOf_cons.mpr (Or.inl List.mem_cons_self)
  have hcons := h.consistent
  rw [hops] at hcons
  have hset : ∀ p, (s.dirty.set path .write).get? p ≠ none ↔ s.dirty.get? p ≠ none ∨ p = path := by
    intro p
    by_cases hself : p = path
    · rw [hself, Dict.get?_set_self]
      simp
    · rw [Dict.get?_set_of_ne _ _ hself]
      simp [hself]
  have hheld : Inv C paths
      { s with toSilo := ⟨{ s.toState with dirty := s.dirty.set path .write }, later⟩ } := by
    refine ⟨h.taken, h.writes.hold path, fun p hp => h.unblocked p ?_, ?_⟩
    · rw [hops]
      exact mem_pathsOf_cons.mpr (Or.inr hp)
    · show Consistent paths s.files s.remote s.out
        (fun p => (s.dirty.set path .write).get? p ≠ none) later
      rw [funext fun p => propext (hset p)]
      exact hcons.report_write
  obtain ⟨new, hpass⟩ := passed_schedule (C := C) h.writes path
  rw [onWrite, tracked_of_unblocked hpath]
  exact hheld.passed hpass

/-- A report that is passed on at once. -/
theorem Inv.report_now (h : Inv C paths s) {o : LocalOp} {later : List LocalOp}
    (hops : s.unreported = o :: later) {s' : State} {e : Emission} (hfiles : s'.files = s.files)
    (hqueue : s'.queue = s.queue ++ [e]) (hwrites : OnlyWrites s')
    (hdirty : ∀ p, s'.dirty.get? p ≠ none ↔ s.dirty.get? p ≠ none ∧ p ∉ o.paths)
    (hnames : ∀ p ∈ e.event.names, p ∈ o.paths)
    (hpending : ∀ p ∈ o.paths, p ∈ e.event.names ∨ p ∈ pathsOf later)
    (hawait : e.Await s.files s.remote (fun p => p ∈ namedBy s.out)
      fun p => s'.dirty.get? p ≠ none ∨ p ∈ pathsOf later) :
    Inv C paths { s with toSilo := ⟨s', later⟩ } := by
  have hcons := h.consistent
  rw [hops] at hcons
  refine ⟨?_, hwrites, fun p hp => h.unblocked p ?_, ?_⟩
  · show s.taken ≤ s'.queue.length
    rw [hqueue, List.length_append]
    exact h.taken.trans (Nat.le_add_right _ _)
  · rw [hops]
    exact mem_pathsOf_cons.mpr (Or.inr hp)
  · show Consistent paths s'.files s.remote (s'.queue.drop s.taken)
      (fun p => s'.dirty.get? p ≠ none) later
    rw [hfiles, hqueue, drop_append h.taken]
    exact hcons.report_now hdirty hnames hpending hawait

theorem erase_ne_none {β : Type} (d : Dict Str β) (rel p : Str) :
    (d.erase rel).get? p ≠ none ↔ d.get? p ≠ none ∧ p ≠ rel := by
  by_cases hself : p = rel
  · rw [hself, Dict.get?_erase_self]
    simp
  · rw [Dict.get?_erase_of_ne _ hself]
    simp [hself]

/-- A delete that is reported is passed on at once. -/
theorem Inv.report_delete (h : Inv C paths s) {path : Str} {later : List LocalOp}
    (hops : s.unreported = .delete path :: later) :
    Inv C paths { s with toSilo := ⟨onDelete C s.toState (some path), later⟩ } := by
  have hpath : C.blocked path = false := by
    refine h.unblocked path ?_
    rw [hops]
    exact mem_pathsOf_cons.mpr (Or.inl List.mem_cons_self)
  have hqueue : (onDelete C s.toState (some path)).queue =
      s.queue ++ [⟨.delete ⟨path, C.timeNs s.queue.length⟩, none⟩] := by
    unfold onDelete
    rw [tracked_of_unblocked hpath]
    rfl
  obtain ⟨hfiles, hdirty, -⟩ := onDelete_spec (R := fun _ => none) (s := s.toState) hpath
  have hkept := h.consistent.kept
  rw [hops] at hkept
  refine h.report_now hops hfiles hqueue ?_ (fun p => ?_) (fun p hp => hp)
    (fun p hp => Or.inl hp) fun hlater => ?_
  · intro p op hp
    rw [hdirty] at hp
    exact (h.writes.erase path).erase path p op hp
  · rw [hdirty, erase_ne_none, erase_ne_none, LocalOp.paths, List.mem_singleton, and_assoc,
      and_self]
  · rw [not_or] at hlater
    exact Option.map_eq_none_iff.mp (hkept.1 hlater.2)

/-- A rename that is reported is passed on at once, or its source is reported as gone. -/
theorem Inv.report_rename (h : Inv C paths s) {src dst : Str} {later : List LocalOp}
    (hops : s.unreported = .rename src dst :: later) :
    Inv C paths { s with toSilo := ⟨onRename C s.toState (some src) (some dst), later⟩ } := by
  have hmem : ∀ p ∈ LocalOp.paths (.rename src dst), C.blocked p = false := by
    intro p hp
    refine h.unblocked p ?_
    rw [hops]
    exact mem_pathsOf_cons.mpr (Or.inl hp)
  have hsrc : C.blocked src = false := hmem src List.mem_cons_self
  have hdst : C.blocked dst = false := hmem dst (List.mem_cons_of_mem _ List.mem_cons_self)
  have hrun : onRename C s.toState (some src) (some dst) = onRenameFlush C
      { s.toState with
        dirty := (s.dirty.erase src).erase dst
        renames := ((s.renames.erase src).set dst (src, dst)).erase dst } src dst := by
    unfold onRename
    rw [tracked_of_unblocked hsrc, tracked_of_unblocked hdst]
    simp only [flushNow, Watcher.dispatch, cancel, Dict.get?_set_self, if_true]
  obtain ⟨hfiles, hdirty, -⟩ := onRename_spec (R := fun _ => none) (s := s.toState) hsrc hdst
  have hkept := h.consistent.kept
  rw [hops] at hkept
  obtain ⟨-, hunseen, hgone, content, hsource, htarget⟩ := hkept.1
  have hwrites : OnlyWrites (onRename C s.toState (some src) (some dst)) := by
    intro p op hp
    rw [hdirty] at hp
    exact (h.writes.erase src).erase dst p op hp
  have hclean : ∀ p, (onRename C s.toState (some src) (some dst)).dirty.get? p ≠ none ↔
      s.dirty.get? p ≠ none ∧ p ∉ LocalOp.paths (.rename src dst) := by
    intro p
    rw [hdirty, erase_ne_none, erase_ne_none, LocalOp.paths, List.mem_cons, List.mem_singleton,
      not_or, and_assoc]
  cases hfile : s.files dst with
  | none =>
    -- the target is gone, and so it changes again
    have hqueue : (onRename C s.toState (some src) (some dst)).queue =
        s.queue ++ [⟨.delete ⟨src, C.timeNs s.queue.length⟩, none⟩] := by
      rw [hrun, onRenameFlush, hfile]
      rfl
    have hagain : dst ∈ pathsOf later := by
      by_contra hlast
      have hcontent := htarget hlast
      rw [contents, hfile] at hcontent
      cases hcontent
    refine h.report_now hops hfiles hqueue hwrites hclean (fun p hp => ?_) (fun p hp => ?_)
      fun hlater => ?_
    · rw [List.mem_singleton.mp hp]
      exact List.mem_cons_self
    · rcases List.mem_cons.mp hp with rfl | hp
      · exact Or.inl List.mem_cons_self
      · rw [List.mem_singleton.mp hp]
        exact Or.inr hagain
    · rw [not_or] at hlater
      exact Option.map_eq_none_iff.mp (hgone hlater.2)
  | some f =>
    -- the target is there, and the event moves what the operation has moved
    have hqueue : (onRename C s.toState (some src) (some dst)).queue =
        s.queue ++ [⟨.rename ⟨src, dst, C.timeNs s.queue.length⟩, none⟩] := by
      rw [hrun, onRenameFlush, hfile]
      rfl
    refine h.report_now hops hfiles hqueue hwrites hclean (fun p hp => hp)
      (fun p hp => Or.inl hp) ⟨hunseen, fun hlater => ?_, content, hsource, fun hlater => ?_⟩
    · rw [not_or] at hlater
      exact Option.map_eq_none_iff.mp (hgone hlater.2)
    · rw [not_or] at hlater
      exact htarget hlater.2

/-- **Every step keeps the invariant**, under the condition. -/
theorem Inv.step (h : Inv C paths s) {a : Act} (ha : Within C paths a ∧ Settled s a) :
    Inv C paths (step C s a) := by
  cases a with
  | forward =>
    unfold Pipeline.step
    cases hnext : s.queue[s.taken]? with
    | none => exact h
    | some e =>
      -- the first of the events that are still to be forwarded
      obtain ⟨hlt, -⟩ := List.getElem?_eq_some_iff.mp hnext
      have hout : s.out = e :: s.queue.drop (s.taken + 1) := by
        rw [out, List.drop_eq_getElem?_toList_append, hnext]
        rfl
      have hcons := h.consistent
      rw [hout] at hcons
      exact ⟨hlt, h.writes, h.unblocked, hcons.forward⟩
  | here a =>
    cases a with
    | op o =>
      unfold Pipeline.step Watcher.step
      by_cases hpossible : o.possible s.files = true
      · -- the operation becomes the last that is to be reported
        dsimp only
        rw [if_pos hpossible]
        refine ⟨h.taken, h.writes, fun p hp => ?_, ?_⟩
        · rw [pathsOf_append, List.mem_append] at hp
          rcases hp with hp | hp
          · exact h.unblocked p hp
          · rcases mem_pathsOf_cons.mp hp with hp | hp
            · exact (ha.1 p hp).1
            · cases hp
        · refine h.consistent.op hpossible (fun p hp => (ha.1 p hp).2) ?_
          rintro src dst rfl
          exact ha.2
      · dsimp only
        rw [if_neg hpossible]
        exact h
    | report =>
      unfold Pipeline.step Watcher.step
      cases hops : s.unreported with
      | nil => exact h
      | cons o later =>
        cases o with
        | write path file => exact h.report_write hops
        | delete path => exact h.report_delete hops
        | rename src dst => exact h.report_rename hops
    | fire rel =>
      obtain ⟨new, hpass⟩ := passed_timerFired (C := C) h.writes rel
      exact h.passed hpass
    | flushAll =>
      obtain ⟨new, hpass⟩ := passed_flushAll (C := C) h.writes
      exact h.passed hpass

/-- When nothing is under way, the remote files are the local ones. -/
theorem Inv.remote_of_quiet (h : Inv C paths s) (hquiet : s.Quiet) :
    s.remote = contents s.files := by
  obtain ⟨⟨hreported, hfired⟩, hforwarded⟩ := hquiet
  funext p
  refine h.consistent.settled p ?_
  rw [hforwarded, hreported, hfired]
  rintro (hmem | hmem | hmem)
  · cases hmem
  · exact hmem rfl
  · cases hmem

end Steps

/-- **Both sides converge.** In every run of local operations on paths of the silo, of reports, of
timers and of events that are forwarded, each with the content that its file has at that moment,
in which no file is renamed while a change to it is under way: whenever nothing is under way, the
remote files are the local ones. -/
theorem converges (C : Config) (paths : Set Str) (files : Str → Option FileData) (acts : List Act)
    (hrun : Run.Guarded (step C) (fun s a => Within C paths a ∧ Settled s a) (start files) acts)
    (hquiet : (Run.run (step C) (start files) acts).Quiet) :
    (Run.run (step C) (start files) acts).remote =
      contents (Run.run (step C) (start files) acts).files := by
  have hinv : Inv C paths (Run.run (step C) (start files) acts) :=
    Run.run_invariant (fun s a h ha => h.step ha) (inv_start C paths files) hrun
  exact hinv.remote_of_quiet hquiet

end Pipeline

namespace Sample

/-- The document is saved, and the two events are forwarded, the first one before the rename or
after it. -/
def savedAndForwarded (before after : List Pipeline.Act) : List Pipeline.Act :=
  [.here (.op (.write (lit "tmp") new)), .here .report, .here (.fire (lit "tmp"))] ++ before ++
    [.here (.op (.rename (lit "tmp") (lit "doc"))), .here .report] ++ after ++ [.forward]

/-- When the write is forwarded before the rename, the new document arrives. -/
theorem saved_converges :
    Run.Guarded (Pipeline.step config)
        (fun s a => Pipeline.Within config {lit "tmp", lit "doc"} a ∧ Pipeline.Settled s a)
        (Pipeline.start files) (savedAndForwarded [.forward] []) ∧
      (Run.run (Pipeline.step config) (Pipeline.start files)
        (savedAndForwarded [.forward] [])).Quiet ∧
      (Run.run (Pipeline.step config) (Pipeline.start files)
          (savedAndForwarded [.forward] [])).remote =
        contents (Run.run (Pipeline.step config) (Pipeline.start files)
          (savedAndForwarded [.forward] [])).files := by
  have hguarded : Run.Guarded (Pipeline.step config)
      (fun s a => Pipeline.Within config {lit "tmp", lit "doc"} a ∧ Pipeline.Settled s a)
      (Pipeline.start files) (savedAndForwarded [.forward] []) := by
    refine ⟨⟨fun p hp => ⟨rfl, ?_⟩, trivial⟩, ⟨trivial, trivial⟩, ⟨trivial, trivial⟩,
      ⟨trivial, trivial⟩, ⟨fun p hp => ⟨rfl, ?_⟩, ?_⟩, ⟨trivial, trivial⟩, ⟨trivial, trivial⟩,
      trivial⟩
    · exact Or.inl (List.mem_singleton.mp hp)
    · rcases List.mem_cons.mp hp with rfl | hp
      · exact Or.inl rfl
      · exact Or.inr (List.mem_singleton.mp hp)
    · -- the write has been forwarded already
      rintro (hmem | hmem | hmem)
      · cases hmem
      · exact hmem rfl
      · cases hmem
  have hquiet : (Run.run (Pipeline.step config) (Pipeline.start files)
      (savedAndForwarded [.forward] [])).Quiet := ⟨⟨rfl, rfl⟩, rfl⟩
  exact ⟨hguarded, hquiet, Pipeline.converges config _ files _ hguarded hquiet⟩

/-- When it is not, it finds no file to read, and the remote document stays the old one. -/
example : (Run.run (Pipeline.step config) (Pipeline.start files)
      (savedAndForwarded [] [.forward])).Quiet ∧
    (Run.run (Pipeline.step config) (Pipeline.start files)
      (savedAndForwarded [] [.forward])).remote (lit "doc") = some [1] :=
  ⟨⟨⟨rfl, rfl⟩, rfl⟩, rfl⟩

end Sample

end Watcher

end Chiralite
