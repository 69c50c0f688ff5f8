import Chiralite.Framework.JsonLocality
import Chiralite.Sync.JournalRun

/-!
# A crash inside `append`

`EventJournal.append` writes its line with one call, so a crash can leave any prefix of the
line behind the journal. Printed lines are ASCII, so a prefix in bytes is a prefix in
characters.

Recovery is all or nothing. A tail that stops inside the line is not a JSON document
(`loads_torn`), and the loader turns that into a `JournalError`. A tail that lacks
only its newline loads, but the next append continues the same line, and the two printed
events together are not a document either (`loads_obj_append`). What is left are the two
tails without a tear: none of the line, or all of it with its newline.
-/

namespace Chiralite

open Py Json Run

/-- The directory after a crash that left `tail` of the line being appended. -/
def tornDisk (d : Disk) (tail : Str) : Disk :=
  { d with journal := some (d.journal.getD [] ++ tail) }

/-- Recovery from a crash inside `append` of `e`: the directory opens with the records before
or after `e`, and after any further appends it opens again with all of them. -/
def TornAppendRecovers (d : Disk) (j : EventJournal) (e : SyncEvent) (tail : Str) : Prop :=
  ∀ siloId nodeId, ∃ j₁ d₁, EventJournal.init (tornDisk d tail) siloId nodeId = .ok (j₁, d₁) ∧
    (j₁.index.records = j.index.records ∨ j₁.index.records = apply j.index.records e) ∧
    ∀ fs : List SyncEvent, (∀ f ∈ fs, f.Scalar) → ∀ siloId' nodeId', ∃ j₂ d₂,
      EventJournal.init (run Owner.step ⟨d₁, some j₁⟩ (fs.map .append)).disk siloId' nodeId' =
        .ok (j₂, d₂) ∧ j₂.index.records = applyAll j₁.index.records fs

/-! ### The tails that recover -/

/-- Appends through an open handle collect in the log. -/
theorem run_append_log {l : Log} (hl : l.handle = some true) (fs : List SyncEvent) :
    run Log.step l (fs.map .append) = { l with events := l.events ++ fs } := by
  induction fs generalizing l with
  | nil => rw [List.map_nil, run_nil, List.append_nil]
  | cons f fs ih =>
    have hstep : l.step (.append f) = { l with events := l.events ++ [f] } := if_pos hl
    have hrest := ih (l := { l with events := l.events ++ [f] }) hl
    rw [List.map_cons, run_cons, hstep, hrest, List.append_assoc, List.singleton_append]

/-- A directory that represents a log opens with its index, and so it does after any further
appends. -/
theorem recovers_of_represents {d : Disk} {l : Log} (h : Represents d l) (siloId : Uuid)
    (nodeId : Str) :
    ∃ j₁ d₁, EventJournal.init d siloId nodeId = .ok (j₁, d₁) ∧ j₁.index.records = l.index ∧
      ∀ fs : List SyncEvent, (∀ f ∈ fs, f.Scalar) → ∀ siloId' nodeId', ∃ j₂ d₂,
        EventJournal.init (run Owner.step ⟨d₁, some j₁⟩ (fs.map .append)).disk siloId' nodeId' =
          .ok (j₂, d₂) ∧ j₂.index.records = applyAll j₁.index.records fs := by
  refine ⟨_, _, init_of_represents h siloId nodeId, rfl, ?_⟩
  intro fs hfs siloId' nodeId'
  -- the reopened object and directory refine the log, with its handle open
  have href : Refines
      ⟨{ d with journal := some (d.journal.getD []) }, some ⟨⟨siloId, nodeId, l.index⟩, true⟩⟩
      { l with handle := some true } :=
    ⟨⟨h.scalar_base, h.scalar_events, h.checkpoint, Or.inr (congrArg some h.journal_getD)⟩, rfl,
      fun j hj => by rw [← Option.some.inj hj]; rfl⟩
  have hops : ∀ op ∈ fs.map JournalOp.append, op.Scalar := by
    intro op hop
    obtain ⟨f, hf, rfl⟩ := List.mem_map.mp hop
    exact hfs f hf
  have hend := href.run_from hops
  refine ⟨_, _, init_of_represents hend.disk siloId' nodeId', ?_⟩
  change (run Log.step { l with handle := some true } (fs.map .append)).index = _
  rw [run_append_log rfl]
  exact applyAll_append _ _ _

/-! ### The tails that do not -/

/-- The stripped form of a torn line is still a torn line. -/
theorem strip_prefix_brace (t : Str) :
    strip (0x7b :: t) <+: 0x7b :: t ∧ strip (0x7b :: t) ≠ [] := by
  have hbrace : isSpace 0x7b = false := by decide
  -- nothing is stripped in front of the brace, so that at least the brace stays
  have hleft : (0x7b :: t : Str).dropWhile isSpace = 0x7b :: t :=
    List.dropWhile_cons_of_neg (by rw [hbrace]; simp)
  unfold strip
  rw [hleft]
  refine ⟨List.rdropWhile_prefix _ _, ?_⟩
  intro hnil
  have hall := List.rdropWhile_eq_nil_iff.mp hnil 0x7b List.mem_cons_self
  rw [hbrace] at hall
  exact absurd hall (by simp)

/-- A line that starts with a printed event's brace and is no document stops the loader. -/
theorem replayLines_corrupt {lineno : Nat} {rs : Records} {t : Str} (rest : List Str)
    (h : loads (strip (0x7b :: t)) = none) :
    replayLines lineno rs ((0x7b :: t) :: rest) =
      .error (.journalError (.corruptEntry lineno)) := by
  rw [replayLines, if_neg (strip_prefix_brace t).2, readEntry, h]

/-- **A tear inside the line.** The loader reports a corrupt entry. -/
theorem load_torn_inside {d : Disk} {l : Log} (h : Represents d l) {e : SyncEvent}
    (he : e.Scalar) {tail x : Str} (htail : tail ++ x = eventLine e) (ht : tail ≠ [])
    (hx : x ≠ []) :
    load (tornDisk d tail) =
      .error (.journalError (.corruptEntry (1 + l.events.length))) := by
  obtain ⟨s, hs⟩ := dumps_obj_shape (eventToDict e)
  -- a non-empty part of the line starts with its brace
  obtain ⟨t, rfl⟩ : ∃ t, tail = 0x7b :: t := by
    cases tail with
    | nil => exact absurd rfl ht
    | cons c t =>
      unfold eventLine at htail
      rw [hs, List.cons_append] at htail
      exact ⟨t, by rw [(List.cons.inj htail).1]⟩
  have hprint : Printable (0x7b :: t) := fun c hc =>
    eventLine_printable he c (by rw [← htail]; exact List.mem_append_left _ hc)
  unfold tornDisk
  rw [load_with_journal h, h.journal_getD, replayJournal_append h.scalar_events,
    splitlines_printable hprint, if_neg (by simp)]
  -- the lines before it are read, and the torn one is a proper prefix of a document
  obtain ⟨u, hu⟩ := (strip_prefix_brace t).1
  refine replayLines_corrupt _ (loads_torn (x := u ++ x) (eventToDict_codable he) ?_ ?_)
  · rw [← List.append_assoc, hu]
    exact htail
  · simp [hx]

/-- **A missing newline.** The next event continues the line, and the loader reports it as
corrupt. -/
theorem load_joined_lines {d : Disk} {l : Log} (h : Represents d l) {e f : SyncEvent}
    (he : e.Scalar) (hf : f.Scalar) :
    load (tornDisk d (eventLine e ++ (eventLine f ++ [newline]))) =
      .error (.journalError (.corruptEntry (1 + l.events.length))) := by
  obtain ⟨s, hs⟩ := dumps_obj_shape (eventToDict e)
  obtain ⟨u, hu⟩ := dumps_obj_shape (eventToDict f)
  have hprint : Printable (eventLine e ++ eventLine f) :=
    (eventLine_printable he).append (eventLine_printable hf)
  have hline : eventLine e ++ eventLine f = 0x7b :: (s ++ 0x7d :: (0x7b :: u) ++ [0x7d]) := by
    unfold eventLine
    rw [hs, hu]
    simp
  -- the joined line is its own stripped form, and no document
  have hstrip : strip (eventLine e ++ eventLine f) = eventLine e ++ eventLine f := by
    rw [hline]
    exact strip_eq_self (by decide) (by decide)
  have hdoc : loads (eventLine e ++ eventLine f) = none := by
    unfold eventLine
    rw [loads_obj_append (eventToDict_codable he), if_neg]
    rw [hu, skipWs_cons (by decide)]
    simp
  have hsplit : splitlines (eventLine e ++ (eventLine f ++ [newline])) =
      [eventLine e ++ eventLine f] := by
    rw [← List.append_assoc, splitlines_line hprint]
    rfl
  unfold tornDisk
  rw [load_with_journal h, h.journal_getD, replayJournal_append h.scalar_events, hsplit]
  rw [hline] at hstrip hdoc ⊢
  exact replayLines_corrupt _ (by rw [hstrip]; exact hdoc)

/-- An append through an open handle writes its line behind the journal. -/
theorem disk_append {d : Disk} {j : EventJournal} (hj : j.fpOpen = true) (f : SyncEvent) :
    (run Owner.step ⟨d, some j⟩ [.append f]).disk = tornDisk d (eventLine f ++ [newline]) := by
  simp only [run_cons, run_nil, Owner.step, EventJournal.append, if_pos hj, tornDisk]

/-! ### The characterisation -/

section Recovery

variable {ops : List JournalOp} {j : EventJournal} {e : SyncEvent} {tail : Str}

/-- A tear inside the line: the directory does not open. -/
theorem not_recovers_inside (hops : ∀ op ∈ ops, op.Scalar) (he : e.Scalar) {x : Str}
    (htail : tail ++ x = eventLine e) (ht : tail ≠ []) (hx : x ≠ []) :
    ¬ TornAppendRecovers (run Owner.step Owner.start ops).disk j e tail := by
  intro hrec
  obtain ⟨j₁, d₁, hinit, -⟩ := hrec 0 []
  have hrep := (Refines.run hops).disk
  unfold EventJournal.init at hinit
  rw [load_torn_inside hrep he htail ht hx] at hinit
  exact absurd hinit (by simp)

/-- A line without its newline: the directory opens, but not after one more append. -/
theorem not_recovers_without_newline (hops : ∀ op ∈ ops, op.Scalar) (he : e.Scalar) :
    ¬ TornAppendRecovers (run Owner.step Owner.start ops).disk j e (eventLine e) := by
  intro hrec
  obtain ⟨j₁, d₁, hinit, -, hmore⟩ := hrec 0 []
  have hrep := (Refines.run hops).disk
  -- the first opening succeeds, with the incomplete line in the journal
  have hopened : j₁.fpOpen = true ∧
      d₁ = tornDisk (run Owner.step Owner.start ops).disk (eventLine e) := by
    unfold EventJournal.init at hinit
    split at hinit
    · exact absurd hinit (by simp)
    · obtain ⟨rfl, rfl⟩ := Prod.mk.inj (Except.ok.inj hinit)
      exact ⟨rfl, rfl⟩
  obtain ⟨j₂, d₂, hagain, -⟩ := hmore [e] (by simpa using he) 0 []
  -- the next append goes on in that line
  have hdisk : tornDisk (tornDisk (run Owner.step Owner.start ops).disk (eventLine e))
      (eventLine e ++ [newline]) =
      tornDisk (run Owner.step Owner.start ops).disk
        (eventLine e ++ (eventLine e ++ [newline])) := by
    simp only [tornDisk, Option.getD_some, List.append_assoc]
  rw [List.map_cons, List.map_nil, disk_append hopened.1, hopened.2, hdisk] at hagain
  unfold EventJournal.init at hagain
  rw [load_joined_lines hrep he he] at hagain
  exact absurd hagain (by simp)

/-- **Crash inside `append`.** Recovery succeeds exactly when the crash left nothing of the
line, or the line with its newline. -/
theorem torn_append_recovers_iff (hops : ∀ op ∈ ops, op.Scalar)
    (hj : (run Owner.step Owner.start ops).journal = some j) (he : e.Scalar)
    (htail : tail <+: eventLine e ++ [newline]) :
    TornAppendRecovers (run Owner.step Owner.start ops).disk j e tail ↔
      tail = [] ∨ tail = eventLine e ++ [newline] := by
  have href := Refines.run hops
  constructor
  · intro hrec
    rcases List.prefix_concat_iff.mp htail with hwhole | ⟨x, hx⟩
    · exact Or.inr hwhole
    · refine Or.inl (by_contra fun hne => ?_)
      -- something was written, and it is not everything: a part of the line, or all but the newline
      by_cases hxnil : x = []
      · rw [hxnil, List.append_nil] at hx
        rw [hx] at hrec
        exact not_recovers_without_newline hops he hrec
      · exact not_recovers_inside hops he hx hne hxnil hrec
  · intro hwhole siloId nodeId
    rcases hwhole with rfl | rfl
    · -- nothing was written: the log is the old one
      have hrep : Represents (tornDisk (run Owner.step Owner.start ops).disk [])
          (run Log.step Log.start ops) :=
        ⟨href.disk.scalar_base, href.disk.scalar_events, href.disk.checkpoint,
          Or.inr (by rw [tornDisk, List.append_nil, href.disk.journal_getD])⟩
      obtain ⟨j₁, d₁, hinit, hrec, hmore⟩ := recovers_of_represents hrep siloId nodeId
      exact ⟨j₁, d₁, hinit, Or.inl (by rw [hrec, href.records j hj]), hmore⟩
    · -- everything was written: the log has one more event
      have hrep : Represents (tornDisk (run Owner.step Owner.start ops).disk
          (eventLine e ++ [newline]))
          { run Log.step Log.start ops with
            events := (run Log.step Log.start ops).events ++ [e] } := by
        refine ⟨href.disk.scalar_base, ?_, href.disk.checkpoint, Or.inr ?_⟩
        · intro f hf
          rcases List.mem_append.mp hf with hf | hf
          · exact href.disk.scalar_events f hf
          · rw [List.mem_singleton.mp hf]
            exact he
        · rw [tornDisk, href.disk.journal_getD, journalText_append, journalText_singleton]
      obtain ⟨j₁, d₁, hinit, hrec, hmore⟩ := recovers_of_represents hrep siloId nodeId
      refine ⟨j₁, d₁, hinit, Or.inr ?_, hmore⟩
      rw [hrec, href.records j hj]
      exact applyAll_append _ _ _

end Recovery

/-- The event of the two closed statements below. -/
def sampleDelete : SyncEvent := .delete ⟨lit "a", 5⟩

theorem sampleDelete_scalar : sampleDelete.Scalar := show Scalar (lit "a") by decide

/-- A write goes into a checkpoint, and a rename comes after it. -/
def sampleOps : List JournalOp :=
  [.init 0 [], .append (.write ⟨lit "a", 7, 1, 1, 0, 2, 0o644, lit "root", lit "root"⟩),
    .checkpoint, .append (.rename ⟨lit "a", lit "b", 3⟩)]

theorem torn_append_recovers_iff_sample :
    ∃ j, (run Owner.step Owner.start sampleOps).journal = some j ∧
      TornAppendRecovers (run Owner.step Owner.start sampleOps).disk j sampleDelete
        (eventLine sampleDelete ++ [newline]) ∧
      ¬ TornAppendRecovers (run Owner.step Owner.start sampleOps).disk j sampleDelete
        (eventLine sampleDelete) := by
  have hops : ∀ op ∈ sampleOps, op.Scalar := by
    simp only [sampleOps, List.forall_mem_cons, JournalOp.Scalar, SyncEvent.Scalar]
    exact ⟨trivial, by decide, trivial, by decide, List.forall_mem_nil _⟩
  have hiff : ∀ tail, tail <+: eventLine sampleDelete ++ [newline] → _ := fun tail htail =>
    torn_append_recovers_iff hops rfl sampleDelete_scalar htail
  refine ⟨_, rfl, (hiff _ List.prefix_rfl).mpr (.inr rfl), fun hrec => ?_⟩
  -- all but the newline is there, which is neither nothing nor the whole
  rcases (hiff _ (List.prefix_append _ _)).mp hrec with hnil | hwhole
  · exact absurd hnil (by decide)
  · exact absurd hwhole (by simp)

/-- One byte of the line is enough to lock the journal. -/
theorem not_torn_append_recovers :
    ¬ ∀ (ops : List JournalOp) (j : EventJournal) (e : SyncEvent) (tail : Str),
      (∀ op ∈ ops, op.Scalar) → (run Owner.step Owner.start ops).journal = some j →
      j.fpOpen = true → e.Scalar → tail <+: eventLine e ++ [newline] →
      TornAppendRecovers (run Owner.step Owner.start ops).disk j e tail := by
  intro hall
  obtain ⟨s, hs⟩ := dumps_obj_shape (eventToDict sampleDelete)
  have hops : ∀ op ∈ [JournalOp.init 0 []], op.Scalar := by simp [JournalOp.Scalar]
  have hline : [0x7b] ++ (s ++ [0x7d]) = eventLine sampleDelete := hs.symm
  have hrec := hall [.init 0 []] _ sampleDelete [0x7b] hops rfl rfl sampleDelete_scalar
    (by rw [← hline]; simp)
  exact not_recovers_inside hops sampleDelete_scalar hline (by simp) (by simp) hrec

end Chiralite
