import Chiralite.Server.Effects

/-!
# The atomic writer

`atomic_write` of `filesystem/writer.py`. A file is written under a temporary name in the
directory of its destination, given its owner, mode and time there, and renamed onto the
destination at the very end. Whatever goes wrong before that, the temporary file is removed.

`stage` is the body of the `try` up to the rename. It touches the temporary file and nothing else
(`entryFrame_stage`), so that after a failure the removal of that file undoes all it did. On the
way out of a failure the removal may fail in turn; its exception then replaces the one that was on
the way, and it is never a `WriteError`. So a `WriteError` says that the regular files are what
they were (`atomicWrite_error`).
-/

namespace Chiralite

open Py Posix Effect

/-- `uuid.hex`. -/
def uuidHex (u : Uuid) : Str :=
  (List.range 32).map fun i => Json.hexDigit (u.val / 16 ^ (31 - i) % 16)

/-- The name of the temporary file. -/
def tmpName (u : Uuid) : Str := lit ".chiralite_tmp_" ++ uuidHex u

/-- The entry's time of modification in nanoseconds. -/
def FileEntry.mtimeTotalNs (e : FileEntry) : Int := e.mtimeS * 1000000000 + e.mtimeNs

/-- The seconds of a time in nanoseconds fit the `time_t` of the platform. -/
def TimeFits (ns : Int) : Prop := -2 ^ 63 ≤ ns / 1000000000 ∧ ns / 1000000000 < 2 ^ 63

instance (ns : Int) : Decidable (TimeFits ns) := inferInstanceAs (Decidable (_ ∧ _))

section Program

variable (E : Env)

/-- `open(tmp, "wb")`. -/
def openTmp (tmp : Location) : Io Unit := do
  let w ← Eff.look
  -- the two cases differ in the event they leave, not in the call
  if w.fs.node tmp = none then
    fsCall E .create tmp fun t => t.openWrite tmp (E.newFile w.clock)
  else do
    Eff.emit (.touched .reopen tmp)
    fsCall E .reopen tmp fun t => t.openWrite tmp (E.newFile w.clock)

/-- The world in which a write that is about to fail has put some of its bytes into the file. -/
def partlyWritten (tmp : Location) (content : Bytes) (w : World) : World :=
  match E.fault w.clock with
  | none => w
  | some _ =>
    let part := content.take (E.written w.clock)
    match w.fs.modify tmp fun f => { f with content := f.content ++ part } with
    | .error _ => w
    | .ok t => { w with fs := t }

/-- `fh.write(content)`. -/
def writeTmp (tmp : Location) (content : Bytes) : Io Unit := do
  Eff.change (partlyWritten E tmp content)
  fsCall E .write tmp fun t => t.modify tmp fun f => { f with content := f.content ++ content }

/-- A lookup of `fs/permissions.py`, whose `UnknownOwnerError` becomes a `WriteError`. -/
def lookupOwner (r : Except Str Int) : Io Int :=
  match r with
  | .error text => Eff.raise (.write text)
  | .ok id => pure id

/-- `os.utime(tmp, ns=(ns, ns))`. A time that does not fit is an `OverflowError`, which no `except`
clause names; the call to the system is not made. -/
def utimeTmp (tmp : Location) (ns : Int) : Io Unit :=
  if TimeFits ns then
    fsCall E .utime tmp fun t => t.modify tmp fun f => { f with mtimeNs := E.storedNs ns }
  else Eff.raise (.other (lit "timestamp out of range for platform time_t"))

/-- The temporary file is written and given its attributes. -/
def stage (tmp : Location) (content : Bytes) (entry : FileEntry) : Io Unit := do
  openTmp E tmp
  writeTmp E tmp content
  -- flush, fsync and close
  tick E
  tick E
  tick E
  let uid ← lookupOwner (lookupUid E.reprStr E.accounts entry.uidName)
  let gid ← lookupOwner (lookupGid E.reprStr E.accounts entry.gidName)
  let mode := sanitizeMode entry.mode false
  fsCall E .chown tmp fun t => t.modify tmp fun f => { f with uid := uid, gid := gid }
  fsCall E .chmod tmp fun t => t.modify tmp fun f => { f with mode := mode }
  utimeTmp E tmp entry.mtimeTotalNs

/-- The body of the `try` of `atomic_write`. -/
def writeBody (dest tmp : Location) (content : Bytes) (entry : FileEntry) : Io Unit := do
  stage E tmp content entry
  fsCall E (.rename dest) tmp fun t => t.rename tmp dest

/-- `atomic_write`. -/
def atomicWrite (jail : PathJail) (relativePath : Str) (content : Bytes) (entry : FileEntry) :
    Io Unit := do
  let dest ← jailResolve E jail relativePath
  mkdirParents E dest.dropLast.reverse
  -- the name of the temporary file is drawn before the `try`
  let w ← Eff.look
  let tmp := dest.dropLast ++ [tmpName (E.uuid4 w.clock)]
  match ← Eff.attempt (writeBody E dest tmp content entry) with
  | .ok () => pure ()
  -- every `except` clause removes the temporary file before it raises
  | .error (.write text) => do
    unlinkMissingOk E tmp
    Eff.raise (.write text)
  | .error (.os _ text) => do
    unlinkMissingOk E tmp
    Eff.raise (.write (lit "atomic_write failed for " ++ E.reprStr relativePath ++ lit ": " ++
      text))
  | .error e => do
    unlinkMissingOk E tmp
    Eff.raise e

end Program

/-! ### The temporary file -/

section Stage

variable {E : Env} {tmp : Location} {content : Bytes} {entry : FileEntry} {w w' : World}
  {evs : List Event}

theorem openWrite_elsewhere {init : FileData} {t t' : Tree} (h : t.openWrite tmp init = .ok t') :
    ∀ q, q ≠ tmp → t'.node q = t.node q := by
  intro q hq
  rcases Tree.openWrite_ok h with ⟨-, hnode⟩ | ⟨f, -, hnode⟩
  · rw [hnode q, if_neg hq]
  · rw [hnode q, if_neg hq]

theorem entryFrame_openTmp : (entryFrame tmp).Allows (openTmp E tmp) := by
  refine Frame.Allows.look fun w => ?_
  split
  · exact entryFrame_fsCall fun t t' h => openWrite_elsewhere h
  · refine Frame.Allows.bind ?_ fun _ => entryFrame_fsCall fun t t' h => openWrite_elsewhere h
    intro w evs v w' h
    cases h
    exact ⟨fun q _ => rfl, by simp [entryFrame], by simp⟩

theorem openTmp_ok (h : Runs (openTmp E tmp) w evs (.ok ()) w') :
    ∃ f : FileData, w'.fs.node tmp = some (.file f) ∧ f.content = [] := by
  have hopen : ∃ init, w.fs.openWrite tmp init = .ok w'.fs := by
    have hrest := h.bind_look_inv
    split at hrest
    · exact ⟨_, (fsCall_ok hrest).2⟩
    · obtain ⟨evs₂, hcall, -⟩ := hrest.bind_emit_inv
      exact ⟨_, (fsCall_ok hcall).2⟩
  obtain ⟨init, hopen⟩ := hopen
  -- a new file is empty, and one that was there is truncated
  rcases Tree.openWrite_ok hopen with ⟨-, hnode⟩ | ⟨f, -, hnode⟩
  · exact ⟨_, (hnode tmp).trans (if_pos rfl), rfl⟩
  · exact ⟨_, (hnode tmp).trans (if_pos rfl), rfl⟩

/-- A temporary name that was taken shows. -/
theorem openTmp_taken {v : Except Exc Unit} (h : Runs (openTmp E tmp) w evs v w')
    (hfresh : FreshNames evs) : w.fs.node tmp = none := by
  by_contra hne
  have hrest := h.bind_look_inv
  rw [if_neg hne] at hrest
  obtain ⟨evs₂, -, rfl⟩ := hrest.bind_emit_inv
  exact hfresh tmp List.mem_cons_self

theorem partlyWritten_clock : (partlyWritten E tmp content w).clock = w.clock := by
  unfold partlyWritten
  split
  · rfl
  · dsimp only
    split <;> rfl

/-- The bytes of a write that fails go into the file at `tmp` and nowhere else. -/
theorem node_partlyWritten {q : Location} (hq : q ≠ tmp) :
    (partlyWritten E tmp content w).fs.node q = w.fs.node q := by
  unfold partlyWritten
  split
  · rfl
  · dsimp only
    split
    · rfl
    · rename_i t hmodify
      obtain ⟨f, -, hnode⟩ := Tree.modify_ok hmodify
      exact (hnode q).trans (if_neg hq)

theorem entryFrame_writeTmp : (entryFrame tmp).Allows (writeTmp E tmp content) := by
  refine Frame.Allows.bind ?_ fun _ => entryFrame_modify
  intro w evs v w' h
  cases h
  exact ⟨fun q hq => node_partlyWritten hq, by simp, by simp⟩

/-- A write that returns has written all the bytes. -/
theorem writeTmp_ok {f : FileData} (hf : w.fs.node tmp = some (.file f))
    (h : Runs (writeTmp E tmp content) w evs (.ok ()) w') :
    w'.fs.node tmp = some (.file { f with content := f.content ++ content }) := by
  have hcall := h.bind_change_inv
  -- a call that returns has not failed, so that nothing was written in advance
  have hwhole : partlyWritten E tmp content w = w := by
    obtain ⟨_, w₁, evs₁, evs₂, htick, -, -⟩ := hcall.bind_ok_inv
    obtain ⟨-, -, ⟨-, hfault⟩ | ⟨fault, hv, -⟩⟩ := tick_inv htick
    · rw [partlyWritten_clock] at hfault
      rw [partlyWritten, hfault]
    · cases hv
  rw [hwhole] at hcall
  obtain ⟨g, hg, hnode⟩ := Tree.modify_ok (fsCall_ok hcall).2
  rw [hf] at hg
  cases hg
  exact (hnode tmp).trans (if_pos rfl)

theorem entryFrame_lookupOwner (r : Except Str Int) : (entryFrame tmp).Allows (lookupOwner r) := by
  unfold lookupOwner
  split
  · exact Frame.allows_raise (Or.inr ⟨_, rfl⟩)
  · exact Frame.allows_pure _

theorem entryFrame_utimeTmp (ns : Int) : (entryFrame tmp).Allows (utimeTmp E tmp ns) := by
  unfold utimeTmp
  split
  · exact entryFrame_modify
  · exact Frame.allows_raise (Or.inl trivial)

/-- **The stage works on the temporary file alone.** -/
theorem entryFrame_stage : (entryFrame tmp).Allows (stage E tmp content entry) := by
  unfold stage
  refine entryFrame_openTmp.bind fun _ => entryFrame_writeTmp.bind fun _ => ?_
  refine (entryFrame_tick tmp).bind fun _ => (entryFrame_tick tmp).bind fun _ =>
    (entryFrame_tick tmp).bind fun _ => ?_
  -- the lookups may raise a `WriteError`, and then the attributes are not set
  refine (entryFrame_lookupOwner _).bind fun uid => (entryFrame_lookupOwner _).bind fun gid => ?_
  exact entryFrame_modify.bind fun _ => entryFrame_modify.bind fun _ => entryFrame_utimeTmp _

theorem fsCall_modify_ok {op : FsOp} {g : FileData → FileData} {f : FileData}
    (hf : w.fs.node tmp = some (.file f))
    (h : Runs (fsCall E op tmp fun t => t.modify tmp g) w evs (.ok ()) w') :
    w'.fs.node tmp = some (.file (g f)) := by
  obtain ⟨f', hf', hnode⟩ := Tree.modify_ok (fsCall_ok h).2
  rw [hf] at hf'
  cases hf'
  exact (hnode tmp).trans (if_pos rfl)

theorem tick_ok (h : Runs (tick E) w evs (.ok ()) w') : SameTree w w' := by
  obtain ⟨-, rfl, -⟩ := tick_inv h
  rfl

theorem lookupOwner_ok {r : Except Str Int} {id : Int}
    (h : Runs (lookupOwner r) w evs (.ok id) w') : r = .ok id ∧ w' = w := by
  unfold lookupOwner at h
  split at h
  · obtain ⟨hv, -, -⟩ := h.raise_inv
    cases hv
  · obtain ⟨hv, -, rfl⟩ := h.pure_inv
    cases hv
    exact ⟨rfl, rfl⟩

theorem utimeTmp_ok {ns : Int} {f : FileData} (hf : w.fs.node tmp = some (.file f))
    (h : Runs (utimeTmp E tmp ns) w evs (.ok ()) w') :
    w'.fs.node tmp = some (.file { f with mtimeNs := E.storedNs ns }) := by
  unfold utimeTmp at h
  split at h
  · exact fsCall_modify_ok hf h
  · obtain ⟨hv, -, -⟩ := h.raise_inv
    cases hv

/-- The file that a stage makes when it returns. -/
def stagedFile (E : Env) (content : Bytes) (entry : FileEntry) (uid gid : Int) : FileData where
  content := content
  mode := sanitizeMode entry.mode false
  uid := uid
  gid := gid
  mtimeNs := E.storedNs entry.mtimeTotalNs

/-- **A stage that returns** leaves the complete file under the temporary name. -/
theorem stage_ok (h : Runs (stage E tmp content entry) w evs (.ok ()) w') :
    ∃ uid gid, lookupUid E.reprStr E.accounts entry.uidName = .ok uid ∧
      lookupGid E.reprStr E.accounts entry.gidName = .ok gid ∧
      w'.fs.node tmp = some (.file (stagedFile E content entry uid gid)) := by
  obtain ⟨_, w₁, _, _, hopen, h₁, -⟩ := h.bind_ok_inv
  obtain ⟨f₁, hf₁, hempty⟩ := openTmp_ok hopen
  obtain ⟨_, w₂, _, _, hwrite, h₂, -⟩ := h₁.bind_ok_inv
  have hf₂ := writeTmp_ok hf₁ hwrite
  rw [hempty, List.nil_append] at hf₂
  -- flush, fsync and close change nothing
  obtain ⟨_, w₃, _, _, hflush, h₃, -⟩ := h₂.bind_ok_inv
  obtain ⟨_, w₄, _, _, hfsync, h₄, -⟩ := h₃.bind_ok_inv
  obtain ⟨_, w₅, _, _, hclose, h₅, -⟩ := h₄.bind_ok_inv
  have hsame : w₅.fs = w₂.fs := (tick_ok hclose).trans ((tick_ok hfsync).trans (tick_ok hflush))
  obtain ⟨uid, w₆, _, _, hlookupUid, h₆, -⟩ := h₅.bind_ok_inv
  obtain ⟨gid, w₇, _, _, hlookupGid, h₇, -⟩ := h₆.bind_ok_inv
  obtain ⟨huid, hw₆⟩ := lookupOwner_ok hlookupUid
  obtain ⟨hgid, hw₇⟩ := lookupOwner_ok hlookupGid
  rw [← hsame, ← hw₆, ← hw₇] at hf₂
  -- owner, mode and time, one after the other
  obtain ⟨_, w₈, _, _, hchown, h₈, -⟩ := h₇.bind_ok_inv
  obtain ⟨_, w₉, _, _, hchmod, hutime, -⟩ := h₈.bind_ok_inv
  have hf := utimeTmp_ok (fsCall_modify_ok (fsCall_modify_ok hf₂ hchown) hchmod) hutime
  exact ⟨uid, gid, huid, hgid, hf⟩

end Stage

/-! ### The whole write -/

section Write

variable {E : Env} {jail : PathJail} {relativePath : Str} {content : Bytes} {entry : FileEntry}
  {w w' : World} {evs : List Event}

/-- What stands in the tree after the temporary file has been removed, when its name was new. -/
theorem sameFiles_of_unlinked {tmp : Location} {w₁ w₂ : World} (hnew : w.fs.node tmp = none)
    (hstage : ∀ q, q ≠ tmp → w₁.fs.node q = w.fs.node q)
    (hunlink : ∀ q, w₂.fs.node q = if q = tmp then none else w₁.fs.node q) : SameFiles w w₂ := by
  intro q
  have hnode : w₂.fs.node q = w.fs.node q := by
    rw [hunlink q]
    by_cases hq : q = tmp
    · rw [if_pos hq, hq, hnew]
    · rw [if_neg hq, hstage q hq]
  rw [Tree.file, Tree.file, hnode]

/-- The way out of a failure: the temporary file is removed, and the exception goes on unless the
removal brings one of its own. -/
theorem cleanup_inv {tmp : Location} {e : Exc} {v : Except Exc Unit}
    (h : Runs (do unlinkMissingOk E tmp; Eff.raise e : Io Unit) w evs v w') :
    (∃ e', v = .error e' ∧ e'.External) ∨
      (v = .error e ∧ ∀ q, w'.fs.node q = if q = tmp then none else w.fs.node q) := by
  -- either the removal raises, from outside, or the exception goes on after it
  rcases h.bind_inv with ⟨e', hunlink, rfl⟩ | ⟨_, w₁, evs₁, evs₂, hunlink, hraise, -⟩
  · rcases (unlinkMissingOk_inv hunlink).2 with ⟨e'', hv, hext⟩ | ⟨hv, -⟩
    · cases hv
      exact Or.inl ⟨e', rfl, hext⟩
    · cases hv
  · obtain ⟨rfl, -, rfl⟩ := hraise.raise_inv
    rcases (unlinkMissingOk_inv hunlink).2 with ⟨e'', hv, -⟩ | ⟨-, hnode⟩
    · cases hv
    · exact Or.inr ⟨rfl, hnode⟩

theorem stage_taken {tmp : Location} {v : Except Exc Unit}
    (h : Runs (stage E tmp content entry) w evs v w') (hfresh : FreshNames evs) :
    w.fs.node tmp = none := by
  rcases h.bind_inv with ⟨e, hopen, -⟩ | ⟨_, w₁, evs₁, evs₂, hopen, -, rfl⟩
  · exact openTmp_taken hopen hfresh
  · exact openTmp_taken hopen hfresh.left

/-- A body that raises has changed at most the temporary file. -/
theorem writeBody_error {dest tmp : Location} {e : Exc}
    (h : Runs (writeBody E dest tmp content entry) w evs (.error e) w') :
    (∀ q, q ≠ tmp → w'.fs.node q = w.fs.node q) ∧ (FreshNames evs → w.fs.node tmp = none) ∧
      (e.External ∨ ∃ text, e = .write text) := by
  rcases h.bind_inv with ⟨e', hstage, hv⟩ | ⟨_, w₁, evs₁, evs₂, hstage, hrename, rfl⟩
  · cases hv
    obtain ⟨hchange, -, hexc⟩ := entryFrame_stage _ _ _ _ hstage
    exact ⟨hchange, stage_taken hstage, hexc e rfl⟩
  · -- the rename failed, and so did nothing
    obtain ⟨hchange, -, -⟩ := entryFrame_stage _ _ _ _ hstage
    rcases fsCall_inv hrename with ⟨e', hv, hext, rfl, htree⟩ | ⟨hv, -, -⟩
    · cases hv
      refine ⟨fun q hq => ?_, fun hfresh => stage_taken hstage hfresh.left, Or.inl hext⟩
      rw [show w'.fs = w₁.fs from htree]
      exact hchange q hq
    · cases hv

/-- A body that returns has put the file at the destination, by the rename that ends it. -/
theorem writeBody_ok {dest tmp : Location}
    (h : Runs (writeBody E dest tmp content entry) w evs (.ok ()) w') :
    ∃ uid gid evs₁, lookupUid E.reprStr E.accounts entry.uidName = .ok uid ∧
      lookupGid E.reprStr E.accounts entry.gidName = .ok gid ∧
      w'.fs.node dest = some (.file (stagedFile E content entry uid gid)) ∧
      evs = evs₁ ++ [.touched (.rename dest) tmp] := by
  obtain ⟨_, w₁, evs₁, evs₂, hstage, hrename, rfl⟩ := h.bind_ok_inv
  obtain ⟨uid, gid, huid, hgid, hfile⟩ := stage_ok hstage
  -- the stage has put the complete file under the temporary name, and the rename moves it
  obtain ⟨rfl, hcall⟩ := fsCall_ok hrename
  refine ⟨uid, gid, evs₁, huid, hgid, ?_, rfl⟩
  by_cases hne : tmp = dest
  · -- the destination has the temporary name itself: it is in place already
    subst hne
    have hself : w₁.fs.rename tmp tmp = .ok w₁.fs := Tree.rename_self (by rw [hfile]; simp)
    have heq : w'.fs = w₁.fs := Except.ok.inj (hcall.symm.trans hself)
    rw [heq]
    exact hfile
  · obtain ⟨-, hnode⟩ := Tree.rename_file_ok hfile hne hcall
    exact (hnode dest).trans (if_pos rfl)

/-- Every event of a write is a change to the file system. -/
theorem touchFrame_atomicWrite :
    touchFrame.Allows (atomicWrite E jail relativePath content entry) := by
  have hresolve : touchFrame.Allows (jailResolve E jail relativePath) := by
    intro w evs v w' h
    obtain ⟨-, rfl, -⟩ := jailResolve_inv h
    exact ⟨trivial, by simp, fun _ _ => trivial⟩
  have hmkdir : ∀ p, touchFrame.Allows (mkdirParents E p) := fun p =>
    (mkdirFrame_mkdirParents p).mono (fun _ _ _ => trivial) (fun o ⟨q, hq⟩ => ⟨_, q, hq⟩)
      fun _ _ => trivial
  have hbody : ∀ dest tmp, touchFrame.Allows (writeBody E dest tmp content entry) := by
    intro dest tmp
    refine Frame.Allows.bind (entryFrame_stage.mono (fun _ _ _ => trivial)
      (fun o ⟨op, ho⟩ => ⟨op, tmp, ho⟩) fun _ _ => trivial) fun _ => ?_
    exact allows_fsCall (fun _ _ _ => trivial) (fun _ _ => trivial) ⟨_, _, rfl⟩
      fun _ _ _ => trivial
  -- the three `except` clauses share their way out
  have hcleanup : ∀ tmp e, touchFrame.Allows (do unlinkMissingOk E tmp; Eff.raise e : Io Unit) := by
    intro tmp e
    refine Frame.Allows.bind ?_ fun _ => Frame.allows_raise trivial
    intro w evs v w' h
    refine ⟨trivial, fun o ho => ⟨.unlink, tmp, ?_⟩, fun _ _ => trivial⟩
    exact (unlinkMissingOk_inv h).1 o ho
  unfold atomicWrite
  refine hresolve.bind fun dest => (hmkdir _).bind fun _ => Frame.Allows.look fun w => ?_
  refine (hbody dest _).bind_attempt fun r _ => ?_
  split
  · exact Frame.allows_pure ()
  · exact hcleanup _ _
  · exact hcleanup _ _
  · exact hcleanup _ _

/-- **A write that returns** has put exactly the content at the place the jail resolves the path
to, with the sanitized mode, the owner that was looked up and the entry's time, as far as the file
system can keep it; the rename onto that place is the last thing it did. -/
theorem atomicWrite_ok
    (h : Runs (atomicWrite E jail relativePath content entry) w evs (.ok ()) w') :
    ∃ dest tmp uid gid evs₁,
      jail.resolve w.fs E.fuel E.lstatError relativePath = some (.ok dest) ∧
      lookupUid E.reprStr E.accounts entry.uidName = .ok uid ∧
      lookupGid E.reprStr E.accounts entry.gidName = .ok gid ∧
      w'.fs.node dest = some (.file (stagedFile E content entry uid gid)) ∧
      evs = evs₁ ++ [.touched (.rename dest) tmp] := by
  obtain ⟨dest, w₁, evs₁, evs₂, hresolve, h₁, rfl⟩ := h.bind_ok_inv
  obtain ⟨_, w₂, evs₃, evs₄, hmkdir, h₂, rfl⟩ := h₁.bind_ok_inv
  obtain ⟨r, w₃, evs₅, evs₆, hbody, hrest, rfl⟩ := h₂.bind_look_inv.bind_attempt_inv
  have hdest : jail.resolve w.fs E.fuel E.lstatError relativePath = some (.ok dest) := by
    obtain ⟨-, -, ⟨p, hv, hp⟩ | ⟨err, hv, -⟩ | ⟨e, hv, -⟩⟩ := jailResolve_inv hresolve
    · cases hv
      exact hp
    · cases hv
    · cases hv
  -- each `except` clause raises, so that the body has returned
  split at hrest
  · obtain ⟨-, rfl, rfl⟩ := hrest.pure_inv
    obtain ⟨uid, gid, evs₇, huid, hgid, hfile, rfl⟩ := writeBody_ok hbody
    refine ⟨dest, dest.dropLast ++ [tmpName (E.uuid4 w₂.clock)], uid, gid, evs₁ ++ (evs₃ ++ evs₇),
      hdest, huid, hgid, hfile, ?_⟩
    simp only [List.append_assoc, List.append_nil]
  all_goals
    rcases cleanup_inv hrest with ⟨e', hv, -⟩ | ⟨hv, -⟩
    · cases hv
    · cases hv

/-- **A write that raises** `WriteError` or `JailbreakError` leaves every regular file as it was,
if the name of its temporary file was new. -/
theorem atomicWrite_error {e : Exc}
    (h : Runs (atomicWrite E jail relativePath content entry) w evs (.error e) w')
    (he : ¬ e.External) (hfresh : FreshNames evs) : SameFiles w w' := by
  rcases h.bind_inv with ⟨e', hresolve, -⟩ | ⟨dest, w₁, evs₁, evs₂, hresolve, h₁, rfl⟩
  · exact (jailResolve_inv hresolve).1.sameFiles
  have htree : SameTree w w₁ := (jailResolve_inv hresolve).1
  -- up to here nothing has happened; from here on directories may have been added
  rcases h₁.bind_inv with ⟨e', hmkdir, -⟩ | ⟨_, w₂, evs₃, evs₄, hmkdir, h₂, rfl⟩
  · exact htree.sameFiles.trans (mkdirFrame_mkdirParents _ _ _ _ _ hmkdir).1.sameFiles
  have hdirs : SameFiles w w₂ :=
    htree.sameFiles.trans (mkdirFrame_mkdirParents _ _ _ _ _ hmkdir).1.sameFiles
  obtain ⟨r, w₃, evs₅, evs₆, hbody, hrest, rfl⟩ := h₂.bind_look_inv.bind_attempt_inv
  refine hdirs.trans ?_
  -- the body raised, and the temporary file was removed on the way out
  have hundo : ∀ e₁ e₂, r = .error e₁ →
      Runs (do unlinkMissingOk E (dest.dropLast ++ [tmpName (E.uuid4 w₂.clock)]); Eff.raise e₂ :
        Io Unit) w₃ evs₆ (.error e) w' → SameFiles w₂ w' := by
    rintro e₁ e₂ rfl hcleanup
    obtain ⟨hchange, htaken, -⟩ := writeBody_error hbody
    rcases cleanup_inv hcleanup with ⟨e', hv, hext⟩ | ⟨-, hunlink⟩
    · cases hv
      exact absurd hext he
    · exact sameFiles_of_unlinked (htaken hfresh.right.right.left) hchange hunlink
  split at hrest
  · obtain ⟨hv, -, -⟩ := hrest.pure_inv
    cases hv
  · exact hundo _ _ rfl hrest
  · exact hundo _ _ rfl hrest
  · exact hundo _ _ rfl hrest

end Write

end Chiralite
