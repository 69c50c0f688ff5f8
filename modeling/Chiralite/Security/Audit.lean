import Chiralite.Framework.JsonRoundTrip
import Chiralite.Framework.Run
import Chiralite.Protocol.Messages

/-!
# Rotation of the audit log

`security/audit.py`: `AuditLogger.log` appends one JSON line to the live file, and the
`RotatingFileHandler` of the standard library rolls the file over when the line would make it too
long. A rollover shifts the backups by one name, from the oldest on, and hands the live file to
`_gzip_rotator`.

The handler asks `_gz_namer` for the names of the backups, and `_gz_namer` returns them without
`.gz`; `_gzip_rotator` adds `.gz` to the name it writes. So the handler looks for backups under
names that no backup has, shifts none, and the rotator overwrites the one file it always writes.

The purpose of the log is stated on `Segments`: the live segment and those that were rolled over.
`holdsSegments_run` says what the files hold of them, which is the last one rolled over and no
other, and `audit_retention_iff` when that is all that should be there: with one backup, or while at
most one file with records in it has been rolled over.
-/

namespace Chiralite

open Py Run

/-! ### `AuditLogger.log` -/

/-- The arguments of a call of `AuditLogger.log`, with what it reads of the clock. -/
structure LogCall where
  tsNs : Nat
  /-- `time.strftime("%Y-%m-%dT%H:%M:%S", …)`. -/
  isoSeconds : Str
  event : Str
  severity : Str := lit "INFO"
  clientCn : Str := []
  siloId : Option Uuid := none
  path : Str := []
  detail : List (Str × Json.Value) := []
  /-- `json.dumps` prints the detail in printable ASCII. -/
  printable : Printable (Json.dumps (.obj detail))

namespace LogCall

/-- `f".{ts_ns % 1_000_000_000:09d}"[:7]`. -/
def microseconds (tsNs : Nat) : Str :=
  let digits := Json.dumpNat (tsNs % 1000000000)
  (lit "." ++ (List.replicate (9 - digits.length) 0x30 ++ digits)).take 7

/-- The record; empty arguments are left out. -/
def record (c : LogCall) : List (Str × Json.Value) :=
  [(lit "ts_ns", .int c.tsNs),
    (lit "ts_iso", .str (c.isoSeconds ++ microseconds c.tsNs ++ lit "Z")),
    (lit "severity", .str c.severity),
    (lit "event", .str c.event)] ++
  (if c.clientCn = [] then [] else [(lit "client_cn", .str c.clientCn)]) ++
  (match c.siloId with
    | none => []
    | some siloId => [(lit "silo_id", .str (uuidStr siloId))]) ++
  (if c.path = [] then [] else [(lit "path", .str c.path)]) ++
  (if c.detail.isEmpty then [] else [(lit "detail", .obj c.detail)])

/-- The line that is logged. -/
def line (c : LogCall) : Str := Json.dumps (.obj c.record)

end LogCall

/-! ### The handler -/

/-- The arguments of `AuditLogger`. -/
structure AuditConfig where
  /-- `baseFilename`. -/
  base : Str
  maxBytes : Nat
  backupCount : Nat
  /-- The handler rolls an empty file over too, as older versions of the library do. -/
  rollsEmpty : Bool

inductive LogFile where
  | plain (text : Str)
  /-- A file that has been compressed. -/
  | gzip (file : LogFile)
  deriving DecidableEq

/-- The files of the directory. -/
abbrev LogFiles := Dict Str LogFile

/-- `"%s.%d" % (baseFilename, i)`. -/
def AuditConfig.backup (cfg : AuditConfig) (i : Nat) : Str :=
  cfg.base ++ (lit "." ++ Json.dumpNat i)

/-- `_gz_namer`. -/
def gzNamer (name : Str) : Str := name

/-- `_gzip_rotator`. A source that is not there raises, and the handler passes over it. -/
def gzipRotator (source dest : Str) (files : LogFiles) : LogFiles :=
  match files.get? source with
  | some file => (files.set (dest ++ lit ".gz") (.gzip file)).erase source
  | none => files

/-- One round of the loop of `doRollover`: `os.rename` from one name to the next, if there is a
file. -/
def shiftBackup (cfg : AuditConfig) (files : LogFiles) (i : Nat) : LogFiles :=
  match files.get? (gzNamer (cfg.backup i)) with
  | some file =>
    ((files.erase (gzNamer (cfg.backup (i + 1)))).erase (gzNamer (cfg.backup i))).set
      (gzNamer (cfg.backup (i + 1))) file
  | none => files

/-- The stream is opened for appending. -/
def openLive (cfg : AuditConfig) (files : LogFiles) : LogFiles :=
  match files.get? cfg.base with
  | some _ => files
  | none => files.set cfg.base (.plain [])

/-- `RotatingFileHandler.doRollover`. -/
def doRollover (cfg : AuditConfig) (files : LogFiles) : LogFiles :=
  if cfg.backupCount = 0 then openLive cfg files
  else
    let files := (List.range' 1 (cfg.backupCount - 1)).reverse.foldl (shiftBackup cfg) files
    let files := files.erase (gzNamer (cfg.backup 1))
    openLive cfg (gzipRotator cfg.base (gzNamer (cfg.backup 1)) files)

/-- `RotatingFileHandler.shouldRollover`, at a position of the stream and for a line. -/
def shouldRollover (cfg : AuditConfig) (pos : Nat) (line : Str) : Bool :=
  decide (0 < cfg.maxBytes) && (cfg.rollsEmpty || decide (pos ≠ 0)) &&
    decide (cfg.maxBytes ≤ pos + (line.length + 1))

/-- The text of the live file. -/
def liveText (cfg : AuditConfig) (files : LogFiles) : Str :=
  match files.get? cfg.base with
  | some (.plain text) => text
  | _ => []

/-- The logger on an empty directory. -/
def auditStart (cfg : AuditConfig) : LogFiles := openLive cfg Dict.empty

/-- `emit`, for a line: the file may be rolled over, and then the line is appended. -/
def emitLine (cfg : AuditConfig) (files : LogFiles) (line : Str) : LogFiles :=
  let files :=
    if shouldRollover cfg (liveText cfg files).length line then doRollover cfg files else files
  files.set cfg.base (.plain (liveText cfg files ++ (line ++ [newline])))

/-- `AuditLogger.log`. -/
def auditLog (cfg : AuditConfig) (files : LogFiles) (c : LogCall) : LogFiles :=
  emitLine cfg files c.line

/-! ### What can be read -/

/-- The lines of a gzip backup, if there is one of this name. -/
def backupLines (files : LogFiles) (name : Str) : List Str :=
  match files.get? name with
  | some (.gzip (.plain text)) => splitlines text
  | _ => []

/-- **The readable records**: those of the backups, the oldest first, and of the live file. -/
def readable (cfg : AuditConfig) (files : LogFiles) : List Str :=
  (List.range' 1 cfg.backupCount).reverse.flatMap
      (fun i => backupLines files (cfg.backup i ++ lit ".gz")) ++
    splitlines (liveText cfg files)

/-! ### What the log is for -/

/-- **The log in segments**: those that were rolled over, in order, and the live one. -/
structure Segments where
  rotated : List (List Str)
  live : List Str

def Segments.start : Segments := ⟨[], []⟩

def Segments.log (cfg : AuditConfig) (s : Segments) (c : LogCall) : Segments :=
  if shouldRollover cfg (unlines s.live).length c.line then ⟨s.rotated ++ [s.live], [c.line]⟩
  else ⟨s.rotated, s.live ++ [c.line]⟩

/-- The records of the last `n` segments that were rolled over, and of the live one. -/
def Segments.retained (s : Segments) (n : Nat) : List Str :=
  (s.rotated.drop (s.rotated.length - n)).flatten ++ s.live

/-- **Retention**: the readable records are those of the live segment and of the last segments
that were rolled over, as many as there are backups; no record is lost before that many rollovers
have followed its own. -/
structure Retains (cfg : AuditConfig) (files : LogFiles) (s : Segments) : Prop where
  records : readable cfg files = s.retained cfg.backupCount
  kept : ∀ j segment, s.rotated[j]? = some segment →
    s.rotated.length - (j + 1) < cfg.backupCount → ∀ line ∈ segment, line ∈ readable cfg files

/-! ### The lines and the names -/

/-- **A record is one line** of printable ASCII. -/
theorem LogCall.line_printable (c : LogCall) : Printable c.line := by
  refine Json.dumps_obj_printable ?_
  have hstr : ∀ t : Str, Printable (Json.dumps (.str t)) := fun t => Json.dumpStr_printable t
  simp only [record, List.forall_mem_append, List.forall_mem_cons]
  refine ⟨⟨⟨⟨⟨Json.dumpInt_printable _, hstr _, hstr _, hstr _, ?_⟩, ?_⟩, ?_⟩, ?_⟩, ?_⟩
  · exact fun _ h => absurd h List.not_mem_nil
  · split
    · exact fun _ h => absurd h List.not_mem_nil
    · exact List.forall_mem_singleton.mpr (hstr _)
  · split
    · exact fun _ h => absurd h List.not_mem_nil
    · exact List.forall_mem_singleton.mpr (hstr _)
  · split
    · exact fun _ h => absurd h List.not_mem_nil
    · exact List.forall_mem_singleton.mpr (hstr _)
  · split
    · exact fun _ h => absurd h List.not_mem_nil
    · exact List.forall_mem_singleton.mpr c.printable

theorem lines_unlines {ls : List Str} (h : ∀ l ∈ ls, Printable l) :
    splitlines (unlines ls) = ls := by
  have hlines := splitlines_unlines_append h []
  rwa [List.append_nil, show splitlines [] = [] from rfl, List.append_nil] at hlines

section Names

variable (cfg : AuditConfig)

theorem backup_ne_base (i : Nat) : cfg.backup i ≠ cfg.base := by
  intro h
  have hnil : lit "." ++ Json.dumpNat i = [] := List.append_right_eq_self.mp h
  exact absurd hnil (by simp [lit])

theorem backup_gz_ne_base (i : Nat) : cfg.backup i ++ lit ".gz" ≠ cfg.base := by
  unfold AuditConfig.backup
  rw [List.append_assoc]
  intro h
  have hnil := List.append_right_eq_self.mp h
  exact absurd hnil (by simp [lit])

/-- A number has no letters: no name the handler asks for is one that the rotator has written. -/
theorem backup_ne_gz (i j : Nat) : cfg.backup i ≠ cfg.backup j ++ lit ".gz" := by
  unfold AuditConfig.backup
  rw [List.append_assoc, List.append_assoc]
  intro h
  have htail : Json.dumpNat i = Json.dumpNat j ++ lit ".gz" :=
    List.append_cancel_left (List.append_cancel_left h)
  have hletter : (0x67 : CodePoint) ∈ Json.dumpNat i := by
    rw [htail]
    exact List.mem_append_right _ (by decide)
  exact absurd (Json.dumpNat_digits i _ hletter) (by decide)

theorem backup_gz_injective {i j : Nat}
    (h : cfg.backup i ++ lit ".gz" = cfg.backup j ++ lit ".gz") : i = j := by
  have hnames : cfg.backup i = cfg.backup j := List.append_cancel_right h
  have hdigits : Json.dumpNat i = Json.dumpNat j :=
    List.append_cancel_left (List.append_cancel_left hnames)
  rw [← Json.ofDigits_dumpNat i, hdigits, Json.ofDigits_dumpNat]

end Names

/-! ### What the files hold -/

/-- **The files of a log**: the live segment, and of the others the last one alone. -/
structure HoldsSegments (cfg : AuditConfig) (files : LogFiles) (s : Segments) : Prop where
  live : files.get? cfg.base = some (.plain (unlines s.live))
  backup : files.get? (cfg.backup 1 ++ lit ".gz") =
    s.rotated.getLast?.map fun segment => .gzip (.plain (unlines segment))
  others : ∀ name, name ≠ cfg.base → name ≠ cfg.backup 1 ++ lit ".gz" → files.get? name = none

section Steps

variable {cfg : AuditConfig} {files : LogFiles} {s : Segments}

theorem HoldsSegments.liveText (h : HoldsSegments cfg files s) :
    liveText cfg files = unlines s.live := by
  simp only [Chiralite.liveText, h.live]

/-- The loop of `doRollover` finds nothing to shift. -/
theorem HoldsSegments.shift (h : HoldsSegments cfg files s) (is : List Nat) :
    is.foldl (shiftBackup cfg) files = files := by
  induction is with
  | nil => rfl
  | cons i is ih =>
    have hnone : files.get? (gzNamer (cfg.backup i)) = none :=
      h.others _ (backup_ne_base cfg i) (backup_ne_gz cfg i 1)
    rw [List.foldl_cons]
    simp only [shiftBackup, hnone]
    exact ih

/-- **A rollover** replaces the one backup. -/
theorem HoldsSegments.rollover (h : HoldsSegments cfg files s) (hcount : 1 ≤ cfg.backupCount) :
    HoldsSegments cfg (doRollover cfg files) ⟨s.rotated ++ [s.live], []⟩ := by
  have hgz := backup_gz_ne_base cfg 1
  have hlive : (files.erase (cfg.backup 1)).get? cfg.base = some (.plain (unlines s.live)) := by
    rw [Dict.get?_erase_of_ne _ (Ne.symm (backup_ne_base cfg 1)), h.live]
  have hroll : doRollover cfg files = (((files.erase (cfg.backup 1)).set
      (cfg.backup 1 ++ lit ".gz") (.gzip (.plain (unlines s.live)))).erase cfg.base).set
        cfg.base (.plain []) := by
    unfold doRollover
    rw [if_neg (by omega)]
    simp only [h.shift, gzipRotator, gzNamer, hlive, openLive, Dict.get?_erase_self]
  rw [hroll]
  refine ⟨Dict.get?_set_self _ _ _, ?_, ?_⟩
  · rw [Dict.get?_set_of_ne _ _ hgz, Dict.get?_erase_of_ne _ hgz, Dict.get?_set_self,
      List.getLast?_concat]
    rfl
  · intro name hbase hbackup
    rw [Dict.get?_set_of_ne _ _ hbase, Dict.get?_erase_of_ne _ hbase,
      Dict.get?_set_of_ne _ _ hbackup]
    by_cases hfirst : name = cfg.backup 1
    · rw [hfirst, Dict.get?_erase_self]
    · rw [Dict.get?_erase_of_ne _ hfirst]
      exact h.others name hbase hbackup

/-- A line is appended to the live file. -/
theorem HoldsSegments.append (h : HoldsSegments cfg files s) (line : Str) :
    HoldsSegments cfg (files.set cfg.base (.plain (Chiralite.liveText cfg files ++
      (line ++ [newline])))) ⟨s.rotated, s.live ++ [line]⟩ := by
  refine ⟨?_, ?_, ?_⟩
  · rw [Dict.get?_set_self, h.liveText, unlines_append, unlines_cons, unlines_nil]
  · rw [Dict.get?_set_of_ne _ _ (backup_gz_ne_base cfg 1)]
    exact h.backup
  · intro name hbase hbackup
    rw [Dict.get?_set_of_ne _ _ hbase]
    exact h.others name hbase hbackup

/-- **Step lemma.** -/
theorem HoldsSegments.log (h : HoldsSegments cfg files s) (hcount : 1 ≤ cfg.backupCount)
    (c : LogCall) : HoldsSegments cfg (auditLog cfg files c) (s.log cfg c) := by
  unfold auditLog emitLine Segments.log
  rw [h.liveText]
  split
  · exact (h.rollover hcount).append c.line
  · exact h.append c.line

theorem holdsSegments_start (cfg : AuditConfig) : HoldsSegments cfg (auditStart cfg) .start := by
  have hstart : auditStart cfg = Dict.empty.set cfg.base (.plain []) := rfl
  rw [hstart]
  refine ⟨Dict.get?_set_self _ _ _, ?_, ?_⟩
  · rw [Dict.get?_set_of_ne _ _ (backup_gz_ne_base cfg 1)]
    rfl
  · intro name hbase _
    rw [Dict.get?_set_of_ne _ _ hbase]
    rfl

/-- **Run lemma.** After any calls, the files hold the live segment and the last one that was
rolled over. -/
theorem holdsSegments_run (hcount : 1 ≤ cfg.backupCount) (calls : List LogCall) :
    HoldsSegments cfg (run (auditLog cfg) (auditStart cfg) calls)
      (run (Segments.log cfg) .start calls) :=
  run_simulates (fun _ _ c h (_ : True) => h.log hcount c) (holdsSegments_start cfg)
    fun _ _ => trivial

end Steps

/-! ### Which segments are empty -/

/-- **Well-formed segments**: the live file is empty only until the first line, so at most the
first segment that is rolled over is empty. -/
structure Segments.WellFormed (s : Segments) : Prop where
  rotatedLines : ∀ segment ∈ s.rotated, ∀ line ∈ segment, Printable line
  liveLines : ∀ line ∈ s.live, Printable line
  laterNonempty : ∀ segment ∈ s.rotated.tail, segment ≠ []
  liveNonempty : s.rotated ≠ [] → s.live ≠ []

theorem Segments.wellFormed_start : Segments.start.WellFormed := by
  refine ⟨?_, ?_, ?_, fun h => absurd rfl h⟩
  · exact fun _ h => absurd h List.not_mem_nil
  · exact fun _ h => absurd h List.not_mem_nil
  · exact fun _ h => absurd h List.not_mem_nil

/-- **Step lemma.** -/
theorem Segments.WellFormed.log {cfg : AuditConfig} {s : Segments} (h : s.WellFormed)
    (c : LogCall) : (s.log cfg c).WellFormed := by
  have hline : ∀ line ∈ [c.line], Printable line :=
    List.forall_mem_singleton.mpr c.line_printable
  unfold Segments.log
  split
  · refine ⟨?_, hline, ?_, fun _ => List.cons_ne_nil _ _⟩
    · exact List.forall_mem_append.mpr
        ⟨h.rotatedLines, List.forall_mem_singleton.mpr h.liveLines⟩
    · intro segment hsegment
      by_cases hfirst : s.rotated = []
      · rw [hfirst] at hsegment
        exact absurd hsegment List.not_mem_nil
      · rw [List.tail_append_of_ne_nil hfirst] at hsegment
        obtain hlater | hlast := List.mem_append.mp hsegment
        · exact h.laterNonempty segment hlater
        · rw [List.mem_singleton.mp hlast]
          exact h.liveNonempty hfirst
  · refine ⟨h.rotatedLines, List.forall_mem_append.mpr ⟨h.liveLines, hline⟩, h.laterNonempty, ?_⟩
    exact fun _ => List.append_ne_nil_of_right_ne_nil _ (List.cons_ne_nil _ _)

theorem wellFormed_run (cfg : AuditConfig) (calls : List LogCall) :
    (run (Segments.log cfg) .start calls).WellFormed := by
  have hstep : ∀ (s : Segments) (c : LogCall), s.WellFormed → True → (s.log cfg c).WellFormed :=
    fun s c h _ => h.log c
  exact run_invariant hstep Segments.wellFormed_start (guarded_of_forall fun _ _ => trivial)

/-! ### Retention -/

section Retention

variable {cfg : AuditConfig} {files : LogFiles} {s : Segments}

/-- **The readable records** are those of the last segment that was rolled over and of the live
one. -/
theorem HoldsSegments.readable_eq (h : HoldsSegments cfg files s) (hwf : s.WellFormed)
    (hcount : 1 ≤ cfg.backupCount) :
    readable cfg files = s.rotated.getLast?.getD [] ++ s.live := by
  -- every rollover overwrites the first backup, and no other is ever made
  have hfirst : backupLines files (cfg.backup 1 ++ lit ".gz") = s.rotated.getLast?.getD [] := by
    unfold backupLines
    rw [h.backup]
    cases hlast : s.rotated.getLast? with
    | none => rfl
    | some segment =>
      exact lines_unlines (hwf.rotatedLines segment (List.mem_of_getLast? hlast))
  have hothers : ∀ i ∈ (List.range' 2 (cfg.backupCount - 1)).reverse,
      backupLines files (cfg.backup i ++ lit ".gz") = [] := by
    intro i hi
    have htwo : 2 ≤ i := (List.mem_range'_1.mp (List.mem_reverse.mp hi)).1
    have hnone : files.get? (cfg.backup i ++ lit ".gz") = none := by
      refine h.others _ (backup_gz_ne_base cfg i) ?_
      intro hname
      have hone := backup_gz_injective cfg hname
      omega
    unfold backupLines
    rw [hnone]
  have hrange : List.range' 1 cfg.backupCount = 1 :: List.range' 2 (cfg.backupCount - 1) := by
    obtain ⟨n, hn⟩ := Nat.exists_eq_add_of_le' hcount
    rw [hn]
    rfl
  unfold readable
  rw [hrange, List.reverse_cons, List.flatMap_append, List.flatMap_singleton, hfirst,
    List.flatMap_eq_nil_iff.mpr hothers, h.liveText, lines_unlines hwf.liveLines, List.nil_append]

/-- What is kept of the last segments, when the last of them is set apart. -/
theorem Segments.retained_concat {rotated : List (List Str)} {last live : List Str} {n : Nat}
    (hn : 1 ≤ n) :
    Segments.retained ⟨rotated ++ [last], live⟩ n =
      (rotated.drop (rotated.length + 1 - n)).flatten ++ (last ++ live) := by
  unfold Segments.retained
  have hle : (rotated ++ [last]).length - n ≤ rotated.length := by
    rw [List.length_append, List.length_singleton]
    omega
  rw [List.drop_append_of_le_length hle, List.flatten_append, List.flatten_singleton,
    List.append_assoc, List.length_append, List.length_singleton]

/-- The segments that were rolled over with records in them. -/
def Segments.filled (s : Segments) : List (List Str) := s.rotated.filter (· ≠ [])

/-- The last segment is all that is kept, exactly if the others that should be kept are empty. -/
theorem Segments.last_eq_retained_iff {before : List (List Str)} {last live : List Str} {n : Nat}
    (hn : 1 ≤ n) :
    last ++ live = Segments.retained ⟨before ++ [last], live⟩ n ↔
      ∀ segment ∈ before.drop (before.length + 1 - n), segment = [] := by
  rw [Segments.retained_concat hn, List.self_eq_append_left, List.flatten_eq_nil_iff]

/-- With two backups or more, the segment before the last one should be kept too, and it is empty
only if it was the first. -/
theorem Segments.WellFormed.before_empty_iff {before : List (List Str)} {last live : List Str}
    (h : Segments.WellFormed ⟨before ++ [last], live⟩) {n : Nat} (hn : 2 ≤ n) :
    (∀ segment ∈ before.drop (before.length + 1 - n), segment = []) ↔
      (Segments.filled ⟨before ++ [last], live⟩).length ≤ 1 := by
  obtain rfl | ⟨earlier, previous, rfl⟩ := List.eq_nil_or_concat' before
  · refine iff_of_true ?_ (List.length_filter_le _ [last])
    rw [List.drop_nil]
    exact fun _ h => absurd h List.not_mem_nil
  -- with two backups the segment before the last one is among those to be kept
  have hmem : previous ∈ (earlier ++ [previous]).drop ((earlier ++ [previous]).length + 1 - n) := by
    have hle : (earlier ++ [previous]).length + 1 - n ≤ earlier.length := by
      rw [List.length_append, List.length_singleton]
      omega
    rw [List.drop_append_of_le_length hle]
    exact List.mem_append_right _ (List.mem_singleton_self _)
  have hlast : last ≠ [] := by
    refine h.laterNonempty last ?_
    show last ∈ (earlier ++ [previous] ++ [last]).tail
    rw [List.tail_append_of_ne_nil (List.append_ne_nil_of_right_ne_nil _ (List.cons_ne_nil _ _))]
    exact List.mem_append_right _ (List.mem_singleton_self _)
  by_cases hfirst : earlier = []
  · -- two segments were rolled over, the first of them perhaps empty
    subst hfirst
    constructor
    · intro hempty
      rw [hempty previous hmem]
      simp [Segments.filled, hlast]
    · intro hfilled segment hsegment
      rw [List.mem_singleton.mp (List.mem_of_mem_drop hsegment)]
      by_contra hprevious
      simp [Segments.filled, hprevious, hlast] at hfilled
  · -- only the first segment can be empty, and this one is not the first
    have hprevious : previous ≠ [] := by
      refine h.laterNonempty previous ?_
      show previous ∈ (earlier ++ [previous] ++ [last]).tail
      rw [List.append_assoc, List.tail_append_of_ne_nil hfirst]
      exact List.mem_append_right _ List.mem_cons_self
    constructor
    · exact fun hempty => absurd (hempty previous hmem) hprevious
    · intro hfilled
      simp [Segments.filled, hprevious, hlast] at hfilled

/-- **Which segments are kept.** The last segment is all there is of the last `n`, exactly if
`n` is one or no more than one segment with records in it was rolled over. -/
theorem Segments.WellFormed.retained_iff (h : s.WellFormed) {n : Nat} (hn : 1 ≤ n) :
    s.rotated.getLast?.getD [] ++ s.live = s.retained n ↔ n = 1 ∨ s.filled.length ≤ 1 := by
  obtain ⟨rotated, live⟩ := s
  obtain rfl | ⟨before, last, rfl⟩ := List.eq_nil_or_concat' rotated
  · simp [Segments.retained, Segments.filled]
  show (before ++ [last]).getLast?.getD [] ++ live = _ ↔ _
  rw [List.getLast?_concat, Option.getD_some, Segments.last_eq_retained_iff hn]
  obtain rfl | htwo : n = 1 ∨ 2 ≤ n := by omega
  · simp
  · rw [h.before_empty_iff htwo]
    exact (or_iff_right (by omega)).symm

/-- Once the readable records are those of the last segments, no record of them is lost. -/
theorem retains_iff :
    Retains cfg files s ↔ readable cfg files = s.retained cfg.backupCount := by
  refine ⟨fun h => h.records, fun hrecords => ⟨hrecords, ?_⟩⟩
  intro j segment hj hrecent line hline
  rw [hrecords]
  refine List.mem_append_left _ (List.mem_flatten.mpr ⟨segment, ?_, hline⟩)
  have hdrop : s.rotated.length - cfg.backupCount ≤ j := by
    omega
  refine List.mem_of_getElem? (i := j - (s.rotated.length - cfg.backupCount)) ?_
  rw [List.getElem?_drop, Nat.add_sub_cancel' hdrop]
  exact hj

end Retention

/-- **Retention across rotation.** After any calls of `log`, the live file and the backups hold the
records they should, exactly if one backup is kept, or no more than one file with records in it has
been rolled over. -/
theorem audit_retention_iff (cfg : AuditConfig) (hcount : 1 ≤ cfg.backupCount)
    (calls : List LogCall) :
    Retains cfg (run (auditLog cfg) (auditStart cfg) calls)
        (run (Segments.log cfg) .start calls) ↔
      cfg.backupCount = 1 ∨ (run (Segments.log cfg) .start calls).filled.length ≤ 1 := by
  have hwf := wellFormed_run cfg calls
  rw [retains_iff, (holdsSegments_run hcount calls).readable_eq hwf hcount]
  exact hwf.retained_iff hcount

namespace Sample

/-- Two backups, and a file that is too long with its first line. -/
def auditConfig : AuditConfig where
  base := lit "audit.log"
  maxBytes := 1
  backupCount := 2
  rollsEmpty := false

def logCall (event : String) : LogCall where
  tsNs := 1
  isoSeconds := lit "1970-01-01T00:00:00"
  event := lit event
  printable := by decide

/-- Two calls roll the file over once. -/
theorem audit_retention_two_calls :
    Retains auditConfig
      (run (auditLog auditConfig) (auditStart auditConfig) [logCall "a", logCall "b"])
      (run (Segments.log auditConfig) .start [logCall "a", logCall "b"]) :=
  (audit_retention_iff auditConfig (by decide) _).mpr (Or.inr (by decide +kernel))

/-- **The first record is lost** at the second rollover: the backup that holds it is overwritten,
where two should be kept. -/
theorem audit_record_lost :
    ¬ Retains auditConfig
      (run (auditLog auditConfig) (auditStart auditConfig)
        [logCall "a", logCall "b", logCall "c"])
      (run (Segments.log auditConfig) .start [logCall "a", logCall "b", logCall "c"]) ∧
    (logCall "a").line ∉ readable auditConfig
      (run (auditLog auditConfig) (auditStart auditConfig)
        [logCall "a", logCall "b", logCall "c"]) := by
  have hlost : (logCall "a").line ∉ readable auditConfig
      (run (auditLog auditConfig) (auditStart auditConfig)
        [logCall "a", logCall "b", logCall "c"]) := by
    decide +kernel
  refine ⟨fun h => hlost (h.kept 0 [(logCall "a").line] ?_ (by decide +kernel) _ ?_), hlost⟩
  · decide +kernel
  · exact List.mem_singleton_self _

end Sample

end Chiralite
