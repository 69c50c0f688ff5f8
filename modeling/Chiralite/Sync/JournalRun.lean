import Chiralite.Framework.Run
import Chiralite.Sync.Journal

/-!
# Runs of a journal directory

One directory and the `EventJournal` object that owns it, driven by opening, appending,
checkpointing and closing in any order. An operation on an object that does not exist does
nothing, an append through a closed handle raises and changes nothing, and opening builds a
new object in place of the old one.

The abstract model of the directory is a `Log`: the table of the last checkpoint, the events
appended since, and the state of the handle. Its index is the fold of the events over the
base. `Refines` ties the two levels: the files are the printed base and the printed events,
and the object's records are the log's index. Every operation preserves it
(`Refines.step`), so that every reachable directory loads to its log's index
(`load_of_represents`).
-/

namespace Chiralite

open Py Json Run

/-! ### The concrete system -/

/-- What the owner of a directory can do. -/
inductive JournalOp where
  | init (siloId : Uuid) (nodeId : Str)
  | append (e : SyncEvent)
  | checkpoint
  | close

/-- The strings of an appended event are Unicode scalar values. -/
def JournalOp.Scalar : JournalOp → Prop
  | .append e => e.Scalar
  | _ => True

/-- The directory and the object, if one has been built. -/
structure Owner where
  disk : Disk
  journal : Option EventJournal

/-- An empty directory without an object. -/
def Owner.start : Owner := ⟨Disk.empty, none⟩

/-- One operation. -/
def Owner.step (s : Owner) : JournalOp → Owner
  | .init siloId nodeId =>
    -- opening replaces the object; if it raises, the old one stays in use
    match EventJournal.init s.disk siloId nodeId with
    | .ok (j, d) => ⟨d, some j⟩
    | .error _ => s
  | .append e =>
    match s.journal with
    | none => s
    | some j =>
      match j.append s.disk e with
      | .ok (j', d, _) => ⟨d, some j'⟩
      | .error _ => s
  | .checkpoint =>
    match s.journal with
    | none => s
    | some j => ⟨(j.checkpoint s.disk).2, some (j.checkpoint s.disk).1⟩
  | .close => { s with journal := s.journal.map EventJournal.close }

/-! ### The abstract log -/

/-- What a directory stands for: the checkpointed table, the events journalled since, and
whether an object exists and its handle is open. -/
structure Log where
  base : Records
  events : List SyncEvent
  handle : Option Bool

namespace Log

/-- An empty directory without an object. -/
def start : Log := ⟨Dict.empty, [], none⟩

/-- The table a log stands for. -/
def index (l : Log) : Records := applyAll l.base l.events

/-- One operation. -/
def step (l : Log) : JournalOp → Log
  | .init _ _ => { l with handle := some true }
  | .append e => if l.handle = some true then { l with events := l.events ++ [e] } else l
  | .checkpoint => if l.handle.isSome then ⟨l.index, [], some true⟩ else l
  | .close => { l with handle := l.handle.map fun _ => false }

end Log

/-! ### The refinement -/

/-- The files of a directory are the printed log. -/
structure Represents (d : Disk) (l : Log) : Prop where
  scalar_base : ScalarRecords l.base
  scalar_events : ∀ e ∈ l.events, e.Scalar
  checkpoint : (d.checkpoint = none ∧ l.base = Dict.empty) ∨
    ∃ index : SiloIndex, d.checkpoint = some (dumps (checkpointDoc index)) ∧
      index.records = l.base
  journal : (d.journal = none ∧ l.events = []) ∨ d.journal = some (journalText l.events)

/-- The directory is the printed log, and the object holds the log's index. -/
structure Refines (s : Owner) (l : Log) : Prop where
  disk : Represents s.disk l
  handle : s.journal.map EventJournal.fpOpen = l.handle
  records : ∀ j, s.journal = some j → j.index.records = l.index

namespace Represents

variable {d : Disk} {l : Log}

theorem journal_getD (h : Represents d l) : d.journal.getD [] = journalText l.events := by
  rcases h.journal with ⟨hj, hes⟩ | hj
  · rw [hj, hes]
    rfl
  · rw [hj]
    rfl

theorem scalar_index (h : Represents d l) : ScalarRecords l.index := by
  -- events of encodable strings keep a table of encodable strings
  have hfold : ∀ (es : List SyncEvent) (rs : Records), (∀ e ∈ es, e.Scalar) →
      ScalarRecords rs → ScalarRecords (applyAll rs es) := by
    intro es
    induction es with
    | nil => intro rs _ hrs; exact hrs
    | cons e es ih =>
      intro rs hes hrs
      exact ih _ (fun f hf => hes f (List.mem_cons_of_mem _ hf))
        (hrs.apply (hes e List.mem_cons_self))
  exact hfold _ _ h.scalar_events h.scalar_base

end Represents

/-- The checkpoint file of a represented directory loads to the base. -/
theorem loadCheckpoint_of_index {index : SiloIndex} {base : Records} (hb : ScalarRecords base)
    (hi : index.records = base) :
    loadCheckpoint (dumps (checkpointDoc index)) Dict.empty = .ok base := by
  subst hi
  exact loadCheckpoint_snapshot hb

/-- Whatever journal stands next to the checkpoint of a represented directory, loading replays
it over the base. -/
theorem load_with_journal {d : Disk} {l : Log} (h : Represents d l) (text : Str) :
    load { d with journal := some text } = replayJournal text l.base := by
  unfold load
  rcases h.checkpoint with ⟨hc, hb⟩ | ⟨index, hc, hi⟩
  · simp only [hc, hb]
  · simp only [hc, loadCheckpoint_of_index h.scalar_base hi]

/-- **A represented directory loads to the index of its log.** -/
theorem load_of_represents {d : Disk} {l : Log} (h : Represents d l) : load d = .ok l.index := by
  rcases h.journal with ⟨hj, hes⟩ | hj
  · -- no journal file yet: only the checkpoint is read
    have hindex : l.index = l.base := by
      unfold Log.index
      rw [hes]
      rfl
    unfold load
    rcases h.checkpoint with ⟨hc, hb⟩ | ⟨index, hc, hi⟩
    · rw [hc, hj, hindex, hb]
    · rw [hc]
      simp only [loadCheckpoint_of_index h.scalar_base hi, hj, hindex]
  · have hd : d = { d with journal := some (journalText l.events) } := by rw [← hj]
    rw [hd, load_with_journal h, replayJournal_journalText h.scalar_events]
    rfl

/-- Opening a represented directory succeeds, with the log's index as its records. -/
theorem init_of_represents {d : Disk} {l : Log} (h : Represents d l) (siloId : Uuid)
    (nodeId : Str) :
    EventJournal.init d siloId nodeId =
      .ok (⟨⟨siloId, nodeId, l.index⟩, true⟩, { d with journal := some (d.journal.getD []) }) := by
  unfold EventJournal.init
  rw [load_of_represents h]

/-! ### The operations preserve the refinement -/

namespace Refines

variable {s : Owner} {l : Log}

theorem start : Refines Owner.start Log.start where
  disk :=
    { scalar_base := scalarRecords_empty
      scalar_events := fun _ h => absurd h (by simp [Log.start])
      checkpoint := Or.inl ⟨rfl, rfl⟩
      journal := Or.inl ⟨rfl, rfl⟩ }
  handle := rfl
  records := fun _ h => absurd h (by simp [Owner.start])

theorem step_init (h : Refines s l) (siloId : Uuid) (nodeId : Str) :
    Refines (s.step (.init siloId nodeId)) (l.step (.init siloId nodeId)) := by
  have hstep : s.step (.init siloId nodeId) =
      ⟨{ s.disk with journal := some (s.disk.journal.getD []) },
        some ⟨⟨siloId, nodeId, l.index⟩, true⟩⟩ := by
    unfold Owner.step
    simp only [init_of_represents h.disk]
  rw [hstep]
  refine ⟨⟨h.disk.scalar_base, h.disk.scalar_events, h.disk.checkpoint, Or.inr ?_⟩, rfl, ?_⟩
  · exact congrArg some h.disk.journal_getD
  · intro j hj
    rw [← Option.some.inj hj]
    rfl

/-- An append that raises, or that has no object to go through, changes nothing. -/
theorem owner_append_of_not_open (h : Refines s l) (hl : l.handle ≠ some true) (e : SyncEvent) :
    s.step (.append e) = s := by
  have hhandle := h.handle
  cases hs : s.journal with
  | none => simp only [Owner.step, hs]
  | some j =>
    rw [hs, Option.map_some] at hhandle
    have hfp : ¬ j.fpOpen = true := by
      intro hfp
      exact hl (by rw [← hhandle, hfp])
    simp only [Owner.step, hs, EventJournal.append, if_neg hfp]

theorem step_append (h : Refines s l) {e : SyncEvent} (he : e.Scalar) :
    Refines (s.step (.append e)) (l.step (.append e)) := by
  by_cases hl : l.handle = some true
  · have hhandle := h.handle
    rw [hl] at hhandle
    obtain ⟨j, hs, hfp⟩ := Option.map_eq_some_iff.mp hhandle
    -- the line goes behind the journal and the event into the table
    have hown : s.step (.append e) =
        ⟨{ s.disk with journal := some (s.disk.journal.getD [] ++ (eventLine e ++ [newline])) },
          some { j with index := { j.index with records := apply j.index.records e } }⟩ := by
      simp only [Owner.step, hs, EventJournal.append, if_pos hfp]
      rfl
    have hlog : l.step (.append e) = { l with events := l.events ++ [e] } := if_pos hl
    rw [hown, hlog]
    refine ⟨⟨h.disk.scalar_base, ?_, h.disk.checkpoint, Or.inr ?_⟩, ?_, ?_⟩
    · intro f hf
      rcases List.mem_append.mp hf with hf | hf
      · exact h.disk.scalar_events f hf
      · rw [List.mem_singleton.mp hf]
        exact he
    · rw [h.disk.journal_getD, journalText_append, journalText_singleton]
    · exact (congrArg some hfp).trans hl.symm
    · intro j' hj'
      rw [← Option.some.inj hj']
      -- the object's table is the log's index, one event further
      change apply j.index.records e = applyAll l.base (l.events ++ [e])
      rw [applyAll_append, h.records j hs]
      rfl
  · have hlog : l.step (.append e) = l := if_neg hl
    rw [h.owner_append_of_not_open hl, hlog]
    exact h

theorem step_checkpoint (h : Refines s l) :
    Refines (s.step .checkpoint) (l.step .checkpoint) := by
  have hhandle := h.handle
  cases hs : s.journal with
  | none =>
    rw [hs] at hhandle
    have hown : s.step .checkpoint = s := by simp only [Owner.step, hs]
    have hlog : l.step .checkpoint = l := if_neg (by rw [← hhandle]; simp)
    rw [hown, hlog]
    exact h
  | some j =>
    rw [hs] at hhandle
    -- the table goes into the checkpoint, and the journal starts anew
    have hown : s.step .checkpoint =
        ⟨(j.checkpoint s.disk).2, some (j.checkpoint s.disk).1⟩ := by simp only [Owner.step, hs]
    have hlog : l.step .checkpoint = ⟨l.index, [], some true⟩ := if_pos (by rw [← hhandle]; simp)
    rw [hown, hlog]
    refine ⟨⟨h.disk.scalar_index, ?_, Or.inr ⟨j.index, rfl, h.records j hs⟩, Or.inr rfl⟩, rfl, ?_⟩
    · exact fun _ hf => absurd hf (by simp)
    · intro j' hj'
      rw [← Option.some.inj hj']
      exact h.records j hs

theorem step_close (h : Refines s l) : Refines (s.step .close) (l.step .close) := by
  refine ⟨⟨h.disk.scalar_base, h.disk.scalar_events, h.disk.checkpoint, h.disk.journal⟩, ?_, ?_⟩
  · change (s.journal.map EventJournal.close).map EventJournal.fpOpen = l.handle.map fun _ => false
    rw [← h.handle, Option.map_map, Option.map_map]
    rfl
  · intro j' hj'
    obtain ⟨j, hj, rfl⟩ := Option.map_eq_some_iff.mp hj'
    exact h.records j hj

/-- **Step lemma.** Every operation on the files is the operation on the log. -/
theorem step (h : Refines s l) {op : JournalOp} (hop : op.Scalar) :
    Refines (s.step op) (l.step op) := by
  cases op with
  | init siloId nodeId => exact h.step_init siloId nodeId
  | append e => exact h.step_append hop
  | checkpoint => exact h.step_checkpoint
  | close => exact h.step_close

/-- **Run lemma.** A run of the files refines the run of the log. -/
theorem run_from (h : Refines s l) {ops : List JournalOp} (hops : ∀ op ∈ ops, op.Scalar) :
    Refines (run Owner.step s ops) (run Log.step l ops) := by
  refine run_simulates ?_ h hops
  intro s l op h hop
  exact h.step hop

/-- Every run from the empty directory refines the run of the log. -/
theorem run {ops : List JournalOp} (hops : ∀ op ∈ ops, op.Scalar) :
    Refines (run Owner.step Owner.start ops) (run Log.step Log.start ops) :=
  Refines.start.run_from hops

end Refines

/-! ### Durability -/

/-- **Durability without crashes.** After every run of operations, opening the directory again
succeeds and gives the records the object holds: the same rows, tombstones included, in the
same order. -/
theorem reopen_records_eq {ops : List JournalOp} (hops : ∀ op ∈ ops, op.Scalar)
    {j : EventJournal} (hj : (run Owner.step Owner.start ops).journal = some j) (siloId : Uuid)
    (nodeId : Str) :
    ∃ j' d', EventJournal.init (run Owner.step Owner.start ops).disk siloId nodeId =
      .ok (j', d') ∧ j'.index.records = j.index.records := by
  have href := Refines.run hops
  -- what is on disk is the printed log, and loading it gives its index
  refine ⟨_, _, init_of_represents href.disk siloId nodeId, ?_⟩
  exact (href.records j hj).symm

/-- A write whose strings hold a newline, a line separator and a character beyond the basic
plane. -/
def awkwardWrite : WriteEvent where
  path := [0x61, 0x0a, 0x2028, 0x1f600]
  rapidhash := -1
  size := 2 ^ 70
  mtimeS := 0
  mtimeNs := 0
  recvTsNs := 5
  mode := 420
  uidName := [0x85]
  gidName := []

theorem reopen_records_eq_awkward :
    ∃ j, (run Owner.step Owner.start
        [.init 0 (lit "n"), .append (.write awkwardWrite), .checkpoint,
          .append (.delete ⟨awkwardWrite.path, 9⟩), .close]).journal = some j ∧
      ∃ j' d', EventJournal.init (run Owner.step Owner.start
        [.init 0 (lit "n"), .append (.write awkwardWrite), .checkpoint,
          .append (.delete ⟨awkwardWrite.path, 9⟩), .close]).disk 0 (lit "n") = .ok (j', d') ∧
        j'.index.records = j.index.records := by
  have hpath : Scalar awkwardWrite.path := by decide
  have huid : Scalar awkwardWrite.uidName := by decide
  have hgid : Scalar awkwardWrite.gidName := by decide
  have hops : ∀ op ∈ [JournalOp.init 0 (lit "n"), .append (.write awkwardWrite), .checkpoint,
      .append (.delete ⟨awkwardWrite.path, 9⟩), .close], op.Scalar := by
    simp only [List.forall_mem_cons]
    exact ⟨trivial, ⟨hpath, huid, hgid⟩, trivial, hpath, trivial, fun _ h => absurd h (by simp)⟩
  have href := Refines.run hops
  cases hj : (run Owner.step Owner.start
      [.init 0 (lit "n"), .append (.write awkwardWrite), .checkpoint,
        .append (.delete ⟨awkwardWrite.path, 9⟩), .close]).journal with
  | none =>
    have hhandle := href.handle
    rw [hj] at hhandle
    exact absurd hhandle (by simp [run, Log.step, Log.start])
  | some j => exact ⟨j, rfl, reopen_records_eq hops hj 0 (lit "n")⟩

end Chiralite
