import Chiralite.Security.AuditText

/-!
# Watching the audit log

`audit tail` of `cli.py` prints the last lines of the live log file, one line of text for each
record, and goes on with those that are appended. It reads the file while the logger writes it, and
the logger may roll the file over in between: the name then stands for a new file, while the handle
that was opened stays with the old one.

`tail_shows` says what is seen. What is printed at first are the last records of the live file, none
left out and none read wrongly. What follows are the records that are logged after the file was
opened, in their order and each of them once, until the file is rolled over; the command says
nothing of the records after that, nor of those between the first reading and the opening.
-/

namespace Chiralite

open Py Run

/-! ### `_print_audit_line` -/

section Printing

/-- `s.ljust(width)`. -/
def ljust (width : Nat) (s : Str) : Str := s ++ List.replicate (width - s.length) 0x20

/-- `s.replace("T", " ")`. -/
def replaceT (s : Str) : Str := s.map fun c => if c = 0x54 then 0x20 else c

/-- `"  ".join(parts)`. -/
def joinParts (parts : List Str) : Str := (parts.intersperse (lit "  ")).flatten

/-- A number that is zero as a `float`: it is at most half of the smallest positive one, which is
`2 ^ -1074`. `NaN` and the infinities have no digits. -/
def floatZero (lexeme : Str) : Bool :=
  let beforeExp : CodePoint → Bool := fun c => c ≠ 0x65 && c ≠ 0x45
  let mantissa := lexeme.takeWhile beforeExp
  let exponent := lexeme.dropWhile beforeExp
  let digits := mantissa.filter Json.isDigit
  let places := ((mantissa.dropWhile (· ≠ 0x2e)).filter Json.isDigit).length
  let exp : Int := Json.ofDigits (exponent.filter Json.isDigit)
  let power : Int := (if 0x2d ∈ exponent then -exp else exp) - places
  digits ≠ [] && Json.ofDigits digits * 2 ^ 1075 * 10 ^ power.toNat ≤ 10 ^ (-power).toNat

/-- A value that counts as false. -/
def falsy : Json.Value → Bool
  | .null | .bool false | .int 0 | .str [] | .arr [] | .obj [] => true
  | .float lexeme => floatZero lexeme
  | _ => false

example : ["0.0", "-0e5", "1e-400", "0.5", "2e-3", "NaN"].map (fun t => falsy (.float (lit t))) =
    [true, true, true, false, false, false] := by decide +kernel

/-- `record.get(key, default)`, on which a method of strings is called. -/
def stringMember (kvs : List (Str × Json.Value)) (key : String) (default : Str) : Option Str :=
  match lookupL (lit key) kvs with
  | none => some default
  | some (.str s) => some s
  | some _ => none

/-- `record.get(key, "")`, which is joined to the others unless it is false. -/
def joinedMember (kvs : List (Str × Json.Value)) (key : String) : Option (List Str) :=
  match lookupL (lit key) kvs with
  | none => some []
  | some v =>
    if falsy v then some []
    else
      match v with
      | .str s => some [s]
      | _ => none

/-- `str` of a value: a string is its own. -/
def strOf (other : Json.Value → Str) : Json.Value → Str
  | .str s => s
  | v => other v

/-- `"[" + "  ".join(f"{k}={v}" …) + "]"`. -/
def detailText (other : Json.Value → Str) (detail : List (Str × Json.Value)) : Str :=
  lit "[" ++ joinParts (detail.map fun kv => kv.1 ++ lit "=" ++ strOf other kv.2) ++ lit "]"

def detailMember (other : Json.Value → Str) (kvs : List (Str × Json.Value)) :
    Option (List Str) :=
  match lookupL (lit "detail") kvs with
  | none => some []
  | some v =>
    if falsy v then some []
    else
      match v with
      | .obj detail => some [detailText other detail]
      | _ => none

/-- The text of a record, or `none` for a `TypeError` or `AttributeError`. -/
def recordText (other : Json.Value → Str) (kvs : List (Str × Json.Value)) : Option Str := do
  let ts ← stringMember kvs "ts_iso" []
  let severity ← stringMember kvs "severity" (lit "INFO")
  let event ← stringMember kvs "event" []
  let cn ← joinedMember kvs "client_cn"
  let path ← joinedMember kvs "path"
  let detail ← detailMember other kvs
  pure (joinParts ([replaceT (ts.take 19), ljust 8 severity, ljust 30 event] ++ cn ++ path ++
    detail))

/-- What becomes of a line. -/
inductive Shown where
  | echoed (text : Str)
  | skipped
  /-- An exception that is not caught. -/
  | raised
  deriving DecidableEq

/-- `_print_audit_line`, with the clause around it: what is no JSON is printed as it is. -/
def printAuditLine (other : Json.Value → Str) (raw : Str) : Shown :=
  match Json.loads raw with
  | none => .echoed raw
  | some (.obj kvs) =>
    match recordText other kvs with
    | some text => .echoed text
    | none => .raised
  | some _ => .raised

/-- One line of the file: blanks around it are dropped, and an empty one is passed over. -/
def showLine (other : Json.Value → Str) (raw : Str) : Shown :=
  if strip raw = [] then .skipped else printAuditLine other (strip raw)

end Printing

/-! ### `audit_tail` -/

/-- `xs[start:]`. -/
def sliceFrom {α : Type} (start : Int) (xs : List α) : List α :=
  if start < 0 then xs.drop (start + xs.length).toNat else xs.drop start.toNat

/-- `xs[-n:] if len(xs) > n else xs`. With `n = 0` that is all of them. -/
def recent {α : Type} (n : Int) (xs : List α) : List α :=
  if n < xs.length then sliceFrom (-n) xs else xs

/-- The lines that are printed, up to one that raises; whether none has. -/
def echoLines (other : Json.Value → Str) : List Str → List Str × Bool
  | [] => ([], true)
  | raw :: rest =>
    match showLine other raw with
    | .echoed text => (text :: (echoLines other rest).1, (echoLines other rest).2)
    | .skipped => echoLines other rest
    | .raised => ([], false)

/-- `audit_tail` on the text of the file, up to the streaming. -/
def auditTail (other : Json.Value → Str) (text : Str) (n : Int) : List Str × Bool :=
  echoLines other (recent n (splitlines text))

/-- `fh.readline()` on what is left of the file. The logger writes no `\r`, so that a line ends with
`\n`. -/
def readline (s : Str) : Str := s.take ((s.takeWhile (· ≠ newline)).length + 1)

/-- A rollover makes a new live file. -/
def rollsOver (cfg : AuditConfig) (files : LogFiles) (c : LogCall) : Bool :=
  decide (cfg.backupCount ≠ 0) && shouldRollover cfg (liveText cfg files).length c.line

/-- The command while it streams, beside the logger. -/
structure Follower where
  files : LogFiles
  /-- The text of the opened file, once it is not the live one any more. -/
  rolled : Option Str
  /-- `fh.tell()`. -/
  pos : Nat
  echoed : List Str
  raised : Bool

inductive TailAct where
  | log (c : LogCall)
  /-- One round of the loop. -/
  | poll

namespace Follower

/-- `open` and `seek(0, 2)`. -/
def opened (cfg : AuditConfig) (files : LogFiles) : Follower :=
  ⟨files, none, (liveText cfg files).length, [], false⟩

/-- The text of the opened file. -/
def text (cfg : AuditConfig) (f : Follower) : Str := f.rolled.getD (liveText cfg f.files)

def step (other : Json.Value → Str) (cfg : AuditConfig) (f : Follower) : TailAct → Follower
  | .log c =>
    { f with
      files := auditLog cfg f.files c
      rolled :=
        match f.rolled with
        | some text => some text
        | none => if rollsOver cfg f.files c then some (liveText cfg f.files) else none }
  | .poll =>
    if f.raised then f
    else
      let line := readline ((f.text cfg).drop f.pos)
      match showLine other line with
      | .echoed text => { f with pos := f.pos + line.length, echoed := f.echoed ++ [text] }
      | .skipped => { f with pos := f.pos + line.length }
      | .raised => { f with pos := f.pos + line.length, raised := true }

end Follower

/-! ### What there is to see -/

/-- The calls whose lines are in the live file: those since the last rollover. -/
def liveCalls (cfg : AuditConfig) : LogFiles → List LogCall → List LogCall → List LogCall
  | _, live, [] => live
  | files, live, c :: calls =>
    liveCalls cfg (auditLog cfg files c) (if rollsOver cfg files c then [c] else live ++ [c]) calls

/-- The calls that are logged until the file is rolled over. -/
def heard (cfg : AuditConfig) : LogFiles → List TailAct → List LogCall
  | _, [] => []
  | files, .poll :: acts => heard cfg files acts
  | files, .log c :: acts =>
    if rollsOver cfg files c then [] else c :: heard cfg (auditLog cfg files c) acts

/-- A record as it is to be seen. -/
def tailLine (other : Json.Value → Str) (c : LogCall) : Str :=
  joinParts ([replaceT ((c.isoSeconds ++ LogCall.microseconds c.tsNs ++ lit "Z").take 19),
      ljust 8 c.severity, ljust 30 c.event] ++
    (if c.clientCn = [] then [] else [c.clientCn]) ++
    (if c.path = [] then [] else [c.path]) ++
    (if c.detail.isEmpty then [] else [detailText other c.detail]))

/-! ### One line -/

section Line

variable {other : Json.Value → Str} {c : LogCall}

theorem lookupL_tsIso (c : LogCall) : lookupL (lit "ts_iso") c.record =
    some (.str (c.isoSeconds ++ LogCall.microseconds c.tsNs ++ lit "Z")) := by
  simp only [LogCall.record_eq, lookupL_append]
  rfl

theorem lookupL_severity (c : LogCall) :
    lookupL (lit "severity") c.record = some (.str c.severity) := by
  simp only [LogCall.record_eq, lookupL_append]
  rfl

theorem lookupL_event (c : LogCall) : lookupL (lit "event") c.record = some (.str c.event) := by
  simp only [LogCall.record_eq, lookupL_append]
  rfl

theorem lookupL_clientCn (c : LogCall) : lookupL (lit "client_cn") c.record =
    if c.clientCn = [] then none else some (.str c.clientCn) := by
  simp only [LogCall.record_eq, lookupL_append, lookupL_present]
  exact Option.or_none.trans (Option.or_none.trans Option.or_none)

theorem lookupL_path (c : LogCall) : lookupL (lit "path") c.record =
    if c.path = [] then none else some (.str c.path) := by
  simp only [LogCall.record_eq, lookupL_append, lookupL_present]
  exact Option.or_none

theorem lookupL_detail (c : LogCall) : lookupL (lit "detail") c.record =
    if c.detail.isEmpty then none else some (.obj c.detail) := by
  simp only [LogCall.record_eq, lookupL_append, lookupL_present]
  rfl

/-- A text that is left out when it is empty. -/
theorem joinedMember_of_lookupL {kvs : List (Str × Json.Value)} {key : String} {s : Str}
    (h : lookupL (lit key) kvs = if s = [] then none else some (.str s)) :
    joinedMember kvs key = some (if s = [] then [] else [s]) := by
  unfold joinedMember
  rw [h]
  cases s with
  | nil => rfl
  | cons a s => rfl

/-- **The text of a record** is that of the call that made it. -/
theorem recordText_record (c : LogCall) :
    recordText other c.record = some (tailLine other c) := by
  have hdetail : detailMember other c.record =
      some (if c.detail.isEmpty then [] else [detailText other c.detail]) := by
    unfold detailMember
    rw [lookupL_detail]
    cases c.detail with
    | nil => rfl
    | cons kv kvs => rfl
  unfold recordText
  rw [joinedMember_of_lookupL (lookupL_clientCn c), joinedMember_of_lookupL (lookupL_path c),
    hdetail]
  simp only [stringMember, lookupL_tsIso, lookupL_severity, lookupL_event]
  rfl

theorem LogCall.strip_line (c : LogCall) : strip c.line = c.line := by
  obtain ⟨s, hs⟩ : ∃ s, c.line = 0x7b :: (s ++ [0x7d]) := Json.dumps_obj_shape c.record
  rw [hs]
  exact strip_eq_self (by decide) (by decide)

theorem LogCall.line_ne_nil (c : LogCall) : c.line ≠ [] := by
  obtain ⟨s, hs⟩ : ∃ s, c.line = 0x7b :: (s ++ [0x7d]) := Json.dumps_obj_shape c.record
  rw [hs]
  exact List.cons_ne_nil _ _

/-- **A line of the log is seen as its record.** -/
theorem LogCall.Carried.showLine_line (h : c.Carried) :
    showLine other c.line = .echoed (tailLine other c) := by
  unfold showLine
  rw [c.strip_line, if_neg c.line_ne_nil, printAuditLine, h.loads_line]
  show (match recordText other c.record with
    | some text => Shown.echoed text
    | none => .raised) = _
  rw [recordText_record]

/-- So it is with its `\n`. -/
theorem LogCall.Carried.showLine_concat (h : c.Carried) :
    showLine other (c.line ++ [newline]) = .echoed (tailLine other c) := by
  have hstrip : strip (c.line ++ [newline]) = strip c.line := strip_concat_space (by decide) _
  rw [← h.showLine_line]
  unfold showLine
  rw [hstrip]

/-- A line is read up to its `\n`. -/
theorem readline_line (c : LogCall) (rest : Str) :
    readline (c.line ++ newline :: rest) = c.line ++ [newline] := by
  have hplain : ∀ d ∈ c.line, decide (d ≠ newline) = true := by
    intro d hd
    refine decide_eq_true ?_
    rintro rfl
    exact absurd (c.line_printable newline hd) (by decide)
  have hlength : ((c.line ++ newline :: rest).takeWhile (· ≠ newline)).length = c.line.length := by
    rw [List.takeWhile_append_of_pos hplain, List.takeWhile_cons_of_neg (by simp),
      List.append_nil]
  unfold readline
  rw [hlength, List.append_cons]
  exact List.take_left' (by rw [List.length_append, List.length_singleton])

end Line

/-! ### The first lines -/

section First

variable {other : Json.Value → Str} {cfg : AuditConfig}

theorem recent_map {α β : Type} (f : α → β) (n : Int) (xs : List α) :
    recent n (xs.map f) = (recent n xs).map f := by
  unfold recent sliceFrom
  rw [List.length_map]
  split
  · split
    · exact List.map_drop.symm
    · exact List.map_drop.symm
  · rfl

theorem recent_subset {α : Type} (n : Int) (xs : List α) : recent n xs ⊆ xs := by
  unfold recent sliceFrom
  split
  · split
    · exact List.drop_subset _ _
    · exact List.drop_subset _ _
  · exact List.Subset.refl _

/-- **The last `n`**, for a positive `n`. -/
theorem recent_of_pos {α : Type} {n : Int} (hn : 0 < n) (xs : List α) :
    recent n xs = xs.drop (xs.length - n.toNat) := by
  unfold recent sliceFrom
  split
  · rw [if_pos (by omega)]
    congr 1
    omega
  · rw [show xs.length - n.toNat = 0 by omega, List.drop_zero]

/-- Lines of the log are printed one by one. -/
theorem echoLines_lines {calls : List LogCall} (h : ∀ c ∈ calls, c.Carried) :
    echoLines other (calls.map LogCall.line) = (calls.map (tailLine other), true) := by
  induction calls with
  | nil => rfl
  | cons c calls ih =>
    rw [List.map_cons, echoLines, (h c List.mem_cons_self).showLine_line,
      ih fun d hd => h d (List.mem_cons_of_mem _ hd)]
    rfl

theorem liveText_openLive (files : LogFiles) :
    liveText cfg (openLive cfg files) = liveText cfg files := by
  unfold openLive
  cases hbase : files.get? cfg.base with
  | some file => rfl
  | none =>
    show liveText cfg (files.set cfg.base (.plain [])) = liveText cfg files
    rw [liveText_set, liveText, hbase]

/-- **A call without a rollover** appends its line. -/
theorem liveText_auditLog {files : LogFiles} {c : LogCall} (h : rollsOver cfg files c = false) :
    liveText cfg (auditLog cfg files c) = liveText cfg files ++ (c.line ++ [newline]) := by
  unfold auditLog emitLine
  rw [liveText_set]
  congr 1
  split
  · -- without backups the file that is rolled over is opened again
    rename_i hroll
    have hcount : cfg.backupCount = 0 := by
      rw [rollsOver, hroll, Bool.and_true] at h
      exact not_not.mp (of_decide_eq_false h)
    rw [doRollover, if_pos hcount]
    exact liveText_openLive files
  · rfl

/-- **A rollover** leaves the line in a new file. -/
theorem liveText_auditLog_rolls {files : LogFiles} {c : LogCall}
    (h : rollsOver cfg files c = true) :
    liveText cfg (auditLog cfg files c) = c.line ++ [newline] := by
  obtain ⟨hcount, hroll⟩ := (Bool.and_eq_true _ _).mp h
  have hempty : liveText cfg (doRollover cfg files) = [] := by
    unfold doRollover
    rw [if_neg (of_decide_eq_true hcount)]
    dsimp only
    rw [liveText_openLive]
    -- the rotator leaves nothing under the name
    unfold gzipRotator
    split
    · rw [liveText, Dict.get?_erase_self]
    · rename_i hnone
      rw [liveText, hnone]
  unfold auditLog emitLine
  rw [liveText_set, if_pos hroll, hempty, List.nil_append]

/-- **What the live file holds**: the lines of the calls since the last rollover. -/
theorem liveText_run_calls {calls live : List LogCall} {files : LogFiles}
    (h : liveText cfg files = unlines (live.map LogCall.line)) :
    liveText cfg (run (auditLog cfg) files calls) =
      unlines ((liveCalls cfg files live calls).map LogCall.line) := by
  induction calls generalizing files live with
  | nil => exact h
  | cons c calls ih =>
    rw [run_cons, liveCalls]
    refine ih ?_
    cases hroll : rollsOver cfg files c with
    | true =>
      rw [liveText_auditLog_rolls hroll]
      exact (unlines_cons c.line []).symm
    | false =>
      rw [liveText_auditLog hroll, h, if_neg Bool.false_ne_true, List.map_append, unlines_append]
      exact congrArg _ (unlines_cons c.line []).symm

theorem liveCalls_subset (files : LogFiles) (live calls : List LogCall) :
    liveCalls cfg files live calls ⊆ live ++ calls := by
  induction calls generalizing files live with
  | nil =>
    rw [List.append_nil]
    exact List.Subset.refl _
  | cons c calls ih =>
    rw [liveCalls]
    refine List.Subset.trans (ih _ _) ?_
    split
    · exact List.subset_append_right _ _
    · rw [List.append_assoc]
      exact List.Subset.refl _

/-- **What is printed at first**: the last records of the live file. -/
theorem auditTail_live {live : List LogCall} (h : ∀ c ∈ live, c.Carried) (n : Int) :
    auditTail other (unlines (live.map LogCall.line)) n =
      ((recent n live).map (tailLine other), true) := by
  have hlines : ∀ l ∈ live.map LogCall.line, Printable l := by
    intro l hl
    obtain ⟨c, -, rfl⟩ := List.mem_map.mp hl
    exact c.line_printable
  unfold auditTail
  rw [lines_unlines hlines, recent_map]
  exact echoLines_lines fun c hc => h c (recent_subset n live hc)

end First

/-! ### Streaming -/

section Streaming

variable {other : Json.Value → Str} {cfg : AuditConfig}

/-- **Where the command stands**: it has printed some records, and others are in the file behind
its position. -/
structure Follower.Shows (other : Json.Value → Str) (cfg : AuditConfig) (f : Follower)
    (shown pending : List LogCall) : Prop where
  echoed : f.echoed = shown.map (tailLine other)
  raised : f.raised = false
  behind : (f.text cfg).drop f.pos = unlines (pending.map LogCall.line)
  pos_le : f.pos ≤ (f.text cfg).length

/-- A round of the loop prints the next record, or waits. -/
theorem Follower.Shows.poll {f : Follower} {shown pending : List LogCall}
    (h : f.Shows other cfg shown pending) (hcarried : ∀ c ∈ pending, c.Carried) :
    (f.step other cfg .poll).files = f.files ∧ (f.step other cfg .poll).rolled = f.rolled ∧
      (f.step other cfg .poll).Shows other cfg (shown ++ pending.take 1) (pending.drop 1) := by
  have hstep : f.step other cfg .poll =
      match showLine other (readline ((f.text cfg).drop f.pos)) with
      | .echoed text => { f with
          pos := f.pos + (readline ((f.text cfg).drop f.pos)).length
          echoed := f.echoed ++ [text] }
      | .skipped => { f with pos := f.pos + (readline ((f.text cfg).drop f.pos)).length }
      | .raised => { f with
          pos := f.pos + (readline ((f.text cfg).drop f.pos)).length
          raised := true } := by
    unfold Follower.step
    rw [h.raised, if_neg Bool.false_ne_true]
  rw [hstep, h.behind]
  cases pending with
  | nil =>
    refine ⟨rfl, rfl, ?_, h.raised, h.behind, h.pos_le⟩
    rw [List.take_nil, List.append_nil]
    exact h.echoed
  | cons c pending =>
    have hbehind := h.behind
    rw [List.map_cons, unlines_cons] at hbehind ⊢
    rw [readline_line, (hcarried c List.mem_cons_self).showLine_concat]
    -- what is behind the line is behind the new position
    have hdrop : (f.text cfg).drop (f.pos + (c.line ++ [newline]).length) =
        unlines (pending.map LogCall.line) := by
      rw [← List.drop_drop, hbehind, List.append_cons c.line newline (unlines _)]
      exact List.drop_left' rfl
    have hle : f.pos + (c.line ++ [newline]).length ≤ (f.text cfg).length := by
      have hlength := congrArg List.length hbehind
      rw [List.length_drop, List.length_append, List.length_cons] at hlength
      rw [List.length_append, List.length_singleton]
      omega
    refine ⟨rfl, rfl, ?_, h.raised, hdrop, hle⟩
    show f.echoed ++ [tailLine other c] = (shown ++ [c]).map (tailLine other)
    rw [h.echoed, List.map_append]
    rfl

/-- A call that is logged is behind the position, unless the file is not the live one any more. -/
theorem Follower.Shows.log {f : Follower} {shown pending : List LogCall}
    (h : f.Shows other cfg shown pending) (c : LogCall) :
    (f.step other cfg (.log c)).Shows other cfg shown
      (if f.rolled = none ∧ rollsOver cfg f.files c = false then pending ++ [c] else pending) := by
  have htext : (f.step other cfg (.log c)).text cfg =
      if f.rolled = none ∧ rollsOver cfg f.files c = false then
        f.text cfg ++ (c.line ++ [newline])
      else f.text cfg := by
    unfold Follower.step Follower.text
    dsimp only
    cases hrolled : f.rolled with
    | some text => rfl
    | none =>
      cases hroll : rollsOver cfg f.files c with
      | true => rfl
      | false => exact liveText_auditLog hroll
  refine ⟨h.echoed, h.raised, ?_, ?_⟩
  · rw [htext]
    show (if f.rolled = none ∧ rollsOver cfg f.files c = false then
        f.text cfg ++ (c.line ++ [newline]) else f.text cfg).drop f.pos = _
    split
    · rw [List.drop_append_of_le_length h.pos_le, h.behind, List.map_append, unlines_append]
      exact congrArg _ (unlines_cons c.line []).symm
    · exact h.behind
  · rw [htext]
    show f.pos ≤ _
    split
    · rw [List.length_append]
      exact h.pos_le.trans (Nat.le_add_right _ _)
    · exact h.pos_le

/-- **Run lemma.** What is printed and what is still behind the position are the records that were
there to see. -/
theorem Follower.Shows.run {f : Follower} {shown pending : List LogCall}
    (h : f.Shows other cfg shown pending) {acts : List TailAct}
    (hpending : ∀ c ∈ pending, c.Carried) (hacts : ∀ c, .log c ∈ acts → c.Carried) :
    ∃ shown' pending', (Run.run (Follower.step other cfg) f acts).Shows other cfg shown' pending' ∧
      shown' ++ pending' = shown ++ pending ++
        if f.rolled = none then heard cfg f.files acts else [] := by
  induction acts generalizing f shown pending with
  | nil =>
    refine ⟨shown, pending, h, ?_⟩
    rw [heard, ite_self, List.append_nil]
  | cons a acts ih =>
    have hrest : ∀ c, .log c ∈ acts → c.Carried := fun c hc => hacts c (List.mem_cons_of_mem _ hc)
    cases a with
    | poll =>
      obtain ⟨hfiles, hrolled, hshows⟩ := h.poll hpending
      obtain ⟨shown', pending', hrun, heq⟩ := ih hshows
        (fun c hc => hpending c (List.mem_of_mem_drop hc)) hrest
      refine ⟨shown', pending', hrun, ?_⟩
      rw [heq, hfiles, hrolled, List.append_assoc shown, List.take_append_drop]
      rfl
    | log c =>
      have hc : c.Carried := hacts c List.mem_cons_self
      have hlog := h.log c
      by_cases hlive : f.rolled = none ∧ rollsOver cfg f.files c = false
      · -- the line goes to the opened file
        rw [if_pos hlive] at hlog
        obtain ⟨shown', pending', hrun, heq⟩ := ih hlog
          (List.forall_mem_append.mpr ⟨hpending, List.forall_mem_singleton.mpr hc⟩) hrest
        have hrolled : (f.step other cfg (.log c)).rolled = none := by
          unfold Follower.step
          rw [hlive.1]
          exact if_neg (by rw [hlive.2]; exact Bool.false_ne_true)
        refine ⟨shown', pending', hrun, ?_⟩
        rw [heq, if_pos hrolled, if_pos hlive.1, heard, hlive.2, if_neg Bool.false_ne_true,
          List.append_cons (shown ++ pending), ← List.append_assoc shown]
        rfl
      · rw [if_neg hlive] at hlog
        obtain ⟨shown', pending', hrun, heq⟩ := ih hlog hpending hrest
        refine ⟨shown', pending', hrun, ?_⟩
        rw [heq]
        congr 1
        cases hrolled : f.rolled with
        | some text =>
          have hstill : (f.step other cfg (.log c)).rolled = some text := by
            unfold Follower.step
            rw [hrolled]
          rw [hstill]
          rfl
        | none =>
          -- the file is rolled over, and nothing more is heard
          have hroll : rollsOver cfg f.files c = true := by
            by_contra hnot
            exact hlive ⟨hrolled, Bool.eq_false_iff.mpr hnot⟩
          have hgone : (f.step other cfg (.log c)).rolled = some (liveText cfg f.files) := by
            unfold Follower.step
            rw [hrolled]
            exact if_pos hroll
          rw [hgone, heard, hroll]
          rfl

/-- Rounds of the loop, without calls between them, print what is pending. -/
theorem Follower.Shows.polls {f : Follower} {shown pending : List LogCall}
    (h : f.Shows other cfg shown pending) (hpending : ∀ c ∈ pending, c.Carried) :
    (Run.run (Follower.step other cfg) f (List.replicate pending.length .poll)).Shows other cfg
      (shown ++ pending) [] := by
  induction pending generalizing f shown with
  | nil =>
    rw [List.append_nil]
    exact h
  | cons c pending ih =>
    obtain ⟨-, -, hshows⟩ := h.poll hpending
    have hrest := ih hshows fun d hd => hpending d (List.mem_cons_of_mem _ hd)
    rw [List.append_assoc] at hrest
    exact hrest

theorem mem_of_mem_heard {files : LogFiles} {acts : List TailAct} {c : LogCall}
    (h : c ∈ heard cfg files acts) : .log c ∈ acts := by
  induction acts generalizing files with
  | nil => exact absurd h List.not_mem_nil
  | cons a acts ih =>
    cases a with
    | poll => exact List.mem_cons_of_mem _ (ih h)
    | log d =>
      rw [heard] at h
      split at h
      · exact absurd h List.not_mem_nil
      · obtain rfl | hrest := List.mem_cons.mp h
        · exact List.mem_cons_self
        · exact List.mem_cons_of_mem _ (ih hrest)

theorem Follower.shows_opened (files : LogFiles) :
    (Follower.opened cfg files).Shows other cfg [] [] :=
  ⟨rfl, rfl, List.drop_length, Nat.le_refl _⟩

/-- **What the command shows.** The logger has written some records when the file is read, and some
more when it is opened for streaming; after that its calls and the rounds of the loop interleave in
any way. First the last records of the live file are printed, as many as are asked for. At any point
of the streaming, the records printed since are the first ones of those logged since the file was
opened and before it is rolled over, in their order; and as many more rounds as there are left print
the rest. -/
theorem tail_shows (other : Json.Value → Str) (cfg : AuditConfig) (n : Int) (hn : 0 < n)
    (before gap : List LogCall) (acts : List TailAct) (hbefore : ∀ c ∈ before, c.Carried)
    (hacts : ∀ c, .log c ∈ acts → c.Carried) :
    let live := liveCalls cfg (auditStart cfg) [] before
    let files := run (auditLog cfg) (auditStart cfg) (before ++ gap)
    let f := run (Follower.step other cfg) (Follower.opened cfg files) acts
    auditTail other (liveText cfg (run (auditLog cfg) (auditStart cfg) before)) n =
        ((live.drop (live.length - n.toNat)).map (tailLine other), true) ∧
      ∃ shown pending, heard cfg files acts = shown ++ pending ∧
        f.raised = false ∧ f.echoed = shown.map (tailLine other) ∧
        (run (Follower.step other cfg) f (List.replicate pending.length .poll)).echoed =
          (heard cfg files acts).map (tailLine other) := by
  intro live files f
  constructor
  · have hempty : liveText cfg (auditStart cfg) = unlines (([] : List LogCall).map LogCall.line) :=
      liveText_openLive Dict.empty
    have hlive : ∀ c ∈ live, c.Carried := by
      intro c hc
      exact hbefore c (liveCalls_subset (auditStart cfg) [] before hc)
    rw [liveText_run_calls hempty, auditTail_live hlive, recent_of_pos hn]
  · have hopened : (Follower.opened cfg files).Shows other cfg [] [] := Follower.shows_opened files
    obtain ⟨shown, pending, hshows, heq⟩ :=
      hopened.run (fun c hc => absurd hc List.not_mem_nil) hacts
    have hheard : heard cfg files acts = shown ++ pending := heq.symm
    have hpending : ∀ c ∈ pending, c.Carried := by
      intro c hc
      have hmem : c ∈ heard cfg files acts := by
        rw [hheard]
        exact List.mem_append_right _ hc
      exact hacts c (mem_of_mem_heard hmem)
    refine ⟨shown, pending, hheard, hshows.raised, hshows.echoed, ?_⟩
    rw [(hshows.polls hpending).echoed, hheard]

end Streaming

namespace Sample

/-- Another record is logged while the command streams. -/
def tailActs : List TailAct := [.poll, .log (logCall "session.start"), .poll]

/-- The last record is the rename; the one that is logged later comes with the next round. -/
theorem rename_shown :
    auditTail (fun _ => []) (liveText roomyConfig
        (run (auditLog roomyConfig) (auditStart roomyConfig) renamerCalls)) 1 =
      ([lit "1970-01-01 00:00:00  INFO      file.rename                     laptop  notes  " ++
        lit "[new_path=old]"], true) ∧
      ∃ shown pending,
        heard roomyConfig (run (auditLog roomyConfig) (auditStart roomyConfig) (renamerCalls ++ []))
          tailActs = shown ++ pending ∧
        (run (Follower.step (fun _ => []) roomyConfig) (Follower.opened roomyConfig
          (run (auditLog roomyConfig) (auditStart roomyConfig) (renamerCalls ++ [])))
            tailActs).echoed = shown.map (tailLine fun _ => []) := by
  have hacts : ∀ c, .log c ∈ tailActs → c.Carried := by
    intro c hc
    have hcall : c = logCall "session.start" := by simpa [tailActs] using hc
    rw [hcall]
    exact renamerCalls_carried _ List.mem_cons_self
  obtain ⟨hfirst, shown, pending, hheard, -, hechoed, -⟩ := tail_shows (fun _ => []) roomyConfig 1
    (by decide) renamerCalls [] tailActs renamerCalls_carried hacts
  refine ⟨hfirst.trans ?_, shown, pending, hheard, hechoed⟩
  decide +kernel

end Sample

end Chiralite
