import Chiralite.Server.Transfer

/-!
# Transfers that go through

The other direction of the server's lemmas: what a run comes to when nothing fails. Every call of
a fault-free environment returns, and from the state of the file tree it is clear with what. The
results are stated as runs, one for each function of the source on the way of a transfer, and
`handleTransfer_runs` puts them together: a complete transfer of a content that has the committed
hash, is scanned clean and may be written, ends in an ACK.
-/

namespace Chiralite

open Py Posix Effect

/-- No call fails. -/
def Env.NoFaults (E : Env) : Prop := ∀ k, E.fault k = none

/-- The world one call later. -/
def World.tick (w : World) : World := { w with clock := w.clock + 1 }

@[simp] theorem World.tick_fs (w : World) : w.tick.fs = w.fs := rfl

@[simp] theorem World.tick_inbox (w : World) : w.tick.inbox = w.inbox := rfl

section Calls

variable {E : Env} {w : World}

theorem tick_runs (hE : E.NoFaults) (w : World) : Runs (tick E) w [] (.ok ()) w.tick := by
  refine Runs.look_bind (Runs.change_bind ?_)
  rw [hE w.clock]
  rfl

theorem tick_bind {α : Type} {f : Unit → Io α} {evs : List Event} {v : Except Exc α} {w' : World}
    (hE : E.NoFaults) (h : Runs (f ()) w.tick evs v w') : Runs (tick E >>= f) w evs v w' := by
  rw [← List.nil_append evs]
  exact (tick_runs hE w).bind h

theorem recv_runs {m : AnyMsg} {valid : m.Valid} {rest : List Incoming}
    (h : w.inbox = .message m valid :: rest) :
    Runs recv w [.received m] (.ok m) { w with inbox := rest } := by
  refine Runs.look_bind ?_
  rw [h]
  exact Runs.change_bind (Runs.emit_bind rfl)

theorem send_runs (hE : E.NoFaults) (m : AnyMsg) :
    Runs (send E m) w [.sent m] (.ok ()) w.tick := tick_bind hE rfl

theorem jailResolve_runs (hE : E.NoFaults) {jail : PathJail} {relPath : Str} {p : Location}
    (h : jail.resolve w.fs E.fuel E.lstatError relPath = some (.ok p)) :
    Runs (jailResolve E jail relPath) w [] (.ok p) w.tick := by
  refine tick_bind hE (Runs.look_bind ?_)
  rw [World.tick_fs, h]
  rfl

theorem readBytes_runs (hE : E.NoFaults) {p : Location} {f : FileData}
    (h : w.fs.node p = some (.file f)) :
    Runs (readBytes E p) w [] (.ok f.content) w.tick := by
  refine tick_bind hE (Runs.look_bind ?_)
  rw [World.tick_fs, h]
  rfl

theorem fsCall_runs (hE : E.NoFaults) {op : FsOp} {p : Location}
    {call : Tree → Except Errno Tree} {t : Tree} (h : call w.fs = .ok t) :
    Runs (fsCall E op p call) w [.touched op p] (.ok ()) { w.tick with fs := t } := by
  refine tick_bind hE (Runs.look_bind ?_)
  rw [World.tick_fs, h]
  exact Runs.change_bind rfl

theorem fsCall_runs_error (hE : E.NoFaults) {op : FsOp} {p : Location}
    {call : Tree → Except Errno Tree} {errno : Errno} (h : call w.fs = .error errno) :
    Runs (fsCall E op p call) w [] (.error (.os errno (E.osText errno p))) w.tick := by
  refine tick_bind hE (Runs.look_bind ?_)
  rw [World.tick_fs, h]
  rfl

end Calls

/-! ### Directories -/

section Directories

variable {E : Env}

/-- A directory and all that lies on the way to it. -/
theorem node_of_isDir {t : Tree} {p : Location} (h : t.node p = some .dir) (q : Location) :
    t.node q = if q <+: p then some .dir else t.node q := by
  by_cases hq : q <+: p
  · rw [if_pos hq]
    by_cases heq : q = p
    · rw [heq]
      exact h
    · exact Tree.isDir_of_isPrefix hq heq (by rw [h]; simp)
  · rw [if_neg hq]

/-- What stands where after one directory was made in another. -/
theorem node_of_mkdir {t t' : Tree} {up : Location} {name : Str}
    (h : t.mkdir (up ++ [name]) = .ok t') (q : Location) :
    t'.node q = if q <+: up ++ [name] then some .dir else t.node q := by
  obtain ⟨-, hnode⟩ := Tree.mkdir_ok h
  have hself : t'.node (up ++ [name]) = some .dir := (hnode _).trans (if_pos rfl)
  rw [node_of_isDir hself q, hnode q]
  by_cases hq : q <+: up ++ [name]
  · rw [if_pos hq, if_pos hq]
  · have hne : q ≠ up ++ [name] := by
      rintro rfl
      exact hq (List.prefix_refl _)
    rw [if_neg hq, if_neg hq, if_neg hne]

theorem Env.mkdir_eq {t : Tree} {p : Location} (h : E.mkdirError p = none) :
    E.mkdir t p = t.mkdir p := by
  rw [Env.mkdir, h]
  split
  · rename_i heq
    cases heq
  · rfl

theorem Env.mkdir_error {t : Tree} {p : Location} {errno : Errno} (h : t.mkdir p = .error errno) :
    E.mkdir t p = .error errno := by
  rw [Env.mkdir, h]

/-- `mkdir(parents=True, exist_ok=True)` makes every location on the way a directory, when none of
them is anything else and none that is missing is refused. -/
theorem mkdirParents_runs (hE : E.NoFaults) (p : List Str) (w : World)
    (h : ∀ q, q <+: p.reverse → w.fs.node q = none ∨ w.fs.node q = some .dir)
    (hgrants : ∀ q, q <+: p.reverse → w.fs.node q = none → E.mkdirError q = none) :
    ∃ evs w', Runs (mkdirParents E p) w evs (.ok ()) w' ∧ w'.inbox = w.inbox ∧
      ∀ q, w'.fs.node q = if q <+: p.reverse then some .dir else w.fs.node q := by
  -- on the path, from its last name upwards
  induction p generalizing w with
  | nil =>
    refine ⟨[], w, rfl, rfl, fun q => ?_⟩
    rw [List.reverse_nil]
    by_cases hq : q <+: []
    · rw [if_pos hq, List.prefix_nil.mp hq, w.fs.root_isDir]
    · rw [if_neg hq]
  | cons name up ih =>
    rw [List.reverse_cons] at h hgrants ⊢
    have hne : up.reverse ++ [name] ≠ [] := by simp
    have hup : ∀ q, q <+: up.reverse → w.fs.node q = none ∨ w.fs.node q = some .dir :=
      fun q hq => h q (hq.trans (List.prefix_append _ _))
    rcases h _ (List.prefix_refl _) with hnone | hdir
    · have hgranted : E.mkdirError (up.reverse ++ [name]) = none :=
        hgrants _ (List.prefix_refl _) hnone
      by_cases hparent : w.fs.node up.reverse = some .dir
      · -- only the last directory is missing
        obtain ⟨t, hmkdir⟩ := Tree.mkdir_of_missing hne hnone (by rwa [List.dropLast_concat])
        have hcall : E.mkdir w.fs (up.reverse ++ [name]) = .ok t :=
          (Env.mkdir_eq hgranted).trans hmkdir
        refine ⟨_, _, Runs.attempt_bind (fsCall_runs hE hcall) rfl, rfl, fun q => ?_⟩
        exact node_of_mkdir hmkdir q
      · -- the parent is missing too: it is made first
        have hmissing : w.fs.mkdir (up.reverse ++ [name]) = .error .enoent := by
          rw [Tree.mkdir_of_missing_parent hne hnone (by rwa [List.dropLast_concat]),
            Tree.lookupError_eq_enoent (by rwa [List.dropLast_concat])]
        obtain ⟨evs, w₁, hrun, hinbox, hnode⟩ := ih w.tick hup
          fun q hq hq' => hgrants q (hq.trans (List.prefix_append _ _)) hq'
        have hup₁ : w₁.fs.node up.reverse = some .dir := by
          rw [hnode, if_pos (List.prefix_refl _)]
        have hnone₁ : w₁.fs.node (up.reverse ++ [name]) = none := by
          have hlong : ¬ up.reverse ++ [name] <+: up.reverse := by
            intro hq
            have hlen := hq.length_le
            rw [List.length_append, List.length_singleton] at hlen
            omega
          rw [hnode, if_neg hlong]
          exact hnone
        obtain ⟨t, hmkdir⟩ := Tree.mkdir_of_missing hne hnone₁ (by rwa [List.dropLast_concat])
        have hcall : E.mkdir w₁.fs (up.reverse ++ [name]) = .ok t :=
          (Env.mkdir_eq hgranted).trans hmkdir
        refine ⟨_, _, Runs.attempt_bind (fsCall_runs_error hE (Env.mkdir_error hmissing))
          (hrun.bind (Runs.attempt_bind (fsCall_runs hE hcall) rfl)), hinbox, fun q => ?_⟩
        refine (node_of_mkdir hmkdir q).trans ?_
        by_cases hq : q <+: up.reverse ++ [name]
        · rw [if_pos hq, if_pos hq]
        · have hq' : ¬ q <+: up.reverse := fun h => hq (h.trans (List.prefix_append _ _))
          rw [if_neg hq, if_neg hq, hnode q, if_neg hq']
          rfl
    · -- everything is there already
      have hexists : w.fs.mkdir (up.reverse ++ [name]) = .error .eexist := Tree.mkdir_of_dir hdir
      have hthere : Runs (isDir (up.reverse ++ [name])) w.tick [] (.ok true) w.tick := by
        refine Runs.look_bind ?_
        rw [World.tick_fs, hdir]
        rfl
      refine ⟨_, _, Runs.attempt_bind (fsCall_runs_error hE (Env.mkdir_error hexists))
        (hthere.bind rfl), rfl, fun q => ?_⟩
      exact node_of_isDir hdir q

end Directories

/-! ### Writing -/

section Writing

variable {E : Env} {tmp : Location} {entry : FileEntry} {w : World}

theorem openTmp_runs (hE : E.NoFaults) (hne : tmp ≠ []) (hnone : w.fs.node tmp = none)
    (hdir : w.fs.node tmp.dropLast = some .dir) :
    ∃ evs w', Runs (openTmp E tmp) w evs (.ok ()) w' ∧ w'.inbox = w.inbox := by
  obtain ⟨t, hopen⟩ : ∃ t, w.fs.openWrite tmp (E.newFile w.clock) = .ok t :=
    Tree.openWrite_of_missing hne hnone hdir
  have hrun : Runs (openTmp E tmp) w [.touched .create tmp] (.ok ()) { w.tick with fs := t } := by
    refine Runs.look_bind ?_
    rw [if_pos hnone]
    exact fsCall_runs hE hopen
  exact ⟨_, _, hrun, rfl⟩

/-- A change to a file that is there. -/
theorem fsCall_modify_runs (hE : E.NoFaults) (op : FsOp) (g : FileData → FileData) {f : FileData}
    (hf : w.fs.node tmp = some (.file f)) :
    ∃ evs w', Runs (fsCall E op tmp fun t => t.modify tmp g) w evs (.ok ()) w' ∧
      w'.inbox = w.inbox ∧ w'.fs.node tmp = some (.file (g f)) := by
  obtain ⟨t, hmodify⟩ : ∃ t, w.fs.modify tmp g = .ok t := Tree.modify_of_file hf
  have hrun : Runs (fsCall E op tmp fun t => t.modify tmp g) w [.touched op tmp] (.ok ())
      { w.tick with fs := t } := fsCall_runs hE hmodify
  exact ⟨_, _, hrun, rfl, fsCall_modify_ok hf hrun⟩

theorem writeTmp_runs (hE : E.NoFaults) (content : Bytes) {f : FileData}
    (hf : w.fs.node tmp = some (.file f)) :
    ∃ evs w', Runs (writeTmp E tmp content) w evs (.ok ()) w' ∧ w'.inbox = w.inbox ∧
      ∃ g, w'.fs.node tmp = some (.file g) := by
  have hwhole : partlyWritten E tmp content w = w := by
    rw [partlyWritten, hE]
  obtain ⟨evs, w', hrun, hinbox, hnode⟩ := fsCall_modify_runs hE .write
    (fun f => { f with content := f.content ++ content }) hf
  refine ⟨evs, w', Runs.change_bind ?_, hinbox, _, hnode⟩
  rw [hwhole]
  exact hrun

theorem lookupOwner_runs {r : Except Str Int} {id : Int} (h : r = .ok id) :
    Runs (lookupOwner r) w [] (.ok id) w := by
  rw [h]
  rfl

theorem utimeTmp_runs (hE : E.NoFaults) {ns : Int} (htime : TimeFits ns) {f : FileData}
    (hf : w.fs.node tmp = some (.file f)) :
    ∃ evs w', Runs (utimeTmp E tmp ns) w evs (.ok ()) w' ∧ w'.inbox = w.inbox := by
  obtain ⟨evs, w', hrun, hinbox, -⟩ := fsCall_modify_runs hE .utime
    (fun f => { f with mtimeNs := E.storedNs ns }) hf
  refine ⟨evs, w', ?_, hinbox⟩
  rw [utimeTmp, if_pos htime]
  exact hrun

/-- The owner, the mode and the time of the temporary file. -/
def setAttributes (E : Env) (tmp : Location) (entry : FileEntry) : Io Unit := do
  let uid ← lookupOwner (lookupUid E.reprStr E.accounts entry.uidName)
  let gid ← lookupOwner (lookupGid E.reprStr E.accounts entry.gidName)
  let mode := sanitizeMode entry.mode false
  fsCall E .chown tmp fun t => t.modify tmp fun f => { f with uid := uid, gid := gid }
  fsCall E .chmod tmp fun t => t.modify tmp fun f => { f with mode := mode }
  utimeTmp E tmp entry.mtimeTotalNs

/-- The stage is the writing of the bytes and then the attributes. -/
theorem stage_eq (E : Env) (tmp : Location) (content : Bytes) (entry : FileEntry) :
    stage E tmp content entry = (do
      openTmp E tmp
      writeTmp E tmp content
      tick E
      tick E
      tick E
      setAttributes E tmp entry) := rfl

/-- The stage up to the attributes: the file can be made in a directory that has no such entry. -/
theorem stage_bind (hE : E.NoFaults) (content : Bytes) (entry : FileEntry) (hne : tmp ≠ [])
    (hnone : w.fs.node tmp = none) (hdir : w.fs.node tmp.dropLast = some .dir) :
    ∃ evs w₁ f, w₁.inbox = w.inbox ∧ w₁.fs.node tmp = some (.file f) ∧
      ∀ evs' v w', Runs (setAttributes E tmp entry) w₁ evs' v w' →
        Runs (stage E tmp content entry) w (evs ++ evs') v w' := by
  obtain ⟨evs₁, w₁, hopen, hin₁⟩ := openTmp_runs hE hne hnone hdir
  obtain ⟨f₁, hf₁, -⟩ := openTmp_ok hopen
  obtain ⟨evs₂, w₂, hwrite, hin₂, f₂, hf₂⟩ := writeTmp_runs hE content hf₁
  -- the three calls after the write leave the tree alone
  refine ⟨evs₁ ++ evs₂, w₂.tick.tick.tick, f₂, hin₂.trans hin₁, hf₂, fun evs' v w' h => ?_⟩
  rw [stage_eq, List.append_assoc]
  exact hopen.bind (hwrite.bind (tick_bind hE (tick_bind hE (tick_bind hE h))))

/-- The attributes up to the time, for an owner that the system knows. -/
theorem setAttributes_bind (hE : E.NoFaults) {f : FileData} (hf : w.fs.node tmp = some (.file f))
    {uid gid : Int} (huid : lookupUid E.reprStr E.accounts entry.uidName = .ok uid)
    (hgid : lookupGid E.reprStr E.accounts entry.gidName = .ok gid) :
    ∃ evs w₁ g, w₁.inbox = w.inbox ∧ w₁.fs.node tmp = some (.file g) ∧
      ∀ evs' v w', Runs (utimeTmp E tmp entry.mtimeTotalNs) w₁ evs' v w' →
        Runs (setAttributes E tmp entry) w (evs ++ evs') v w' := by
  obtain ⟨evs₁, w₁, hchown, hin₁, hf₁⟩ := fsCall_modify_runs hE .chown
    (fun f => { f with uid := uid, gid := gid }) hf
  obtain ⟨evs₂, w₂, hchmod, hin₂, hf₂⟩ := fsCall_modify_runs hE .chmod
    (fun f => { f with mode := sanitizeMode entry.mode false }) hf₁
  refine ⟨evs₁ ++ evs₂, w₂, _, hin₂.trans hin₁, hf₂, fun evs' v w' h => ?_⟩
  rw [List.append_assoc]
  exact (lookupOwner_runs huid).bind ((lookupOwner_runs hgid).bind (hchown.bind (hchmod.bind h)))

/-- The temporary file can be made in a directory that has no such entry, for an owner that the
system knows and a time that fits. -/
theorem stage_runs (hE : E.NoFaults) (content : Bytes) (hne : tmp ≠ [])
    (hnone : w.fs.node tmp = none) (hdir : w.fs.node tmp.dropLast = some .dir) {uid gid : Int}
    (huid : lookupUid E.reprStr E.accounts entry.uidName = .ok uid)
    (hgid : lookupGid E.reprStr E.accounts entry.gidName = .ok gid)
    (htime : TimeFits entry.mtimeTotalNs) :
    ∃ evs w', Runs (stage E tmp content entry) w evs (.ok ()) w' ∧ w'.inbox = w.inbox := by
  obtain ⟨evs₁, w₁, f₁, hin₁, hf₁, hstage⟩ := stage_bind hE content entry hne hnone hdir
  obtain ⟨evs₂, w₂, f₂, hin₂, hf₂, hattributes⟩ := setAttributes_bind hE hf₁ huid hgid
  obtain ⟨evs₃, w₃, hutime, hin₃⟩ := utimeTmp_runs hE htime hf₂
  exact ⟨_, w₃, hstage _ _ _ (hattributes _ _ _ hutime), hin₃.trans (hin₂.trans hin₁)⟩

/-- Staging and renaming, to a destination in the same directory. -/
theorem writeBody_runs (hE : E.NoFaults) (content : Bytes) {dir dest : Location} {name : Str}
    (hnone : w.fs.node (dir ++ [name]) = none) (hdir : w.fs.node dir = some .dir)
    (hroot : dest ≠ []) (hdest : dest.dropLast = dir) (hnotDir : w.fs.node dest ≠ some .dir)
    {uid gid : Int} (huid : lookupUid E.reprStr E.accounts entry.uidName = .ok uid)
    (hgid : lookupGid E.reprStr E.accounts entry.gidName = .ok gid)
    (htime : TimeFits entry.mtimeTotalNs) :
    ∃ evs w', Runs (writeBody E dest (dir ++ [name]) content entry) w evs (.ok ()) w' ∧
      w'.inbox = w.inbox := by
  obtain ⟨evs₁, w₁, hstage, hin₁⟩ := stage_runs hE content (by simp) hnone
    (by rwa [List.dropLast_concat]) huid hgid htime
  obtain ⟨uid', gid', -, -, hfile⟩ := stage_ok hstage
  -- the stage has changed nothing but the temporary file
  have hkeep := (entryFrame_stage _ _ _ _ hstage).1
  have hdir₁ : w₁.fs.node dest.dropLast = some .dir := by
    rw [hdest, hkeep dir (fun heq => by simpa using congrArg List.length heq)]
    exact hdir
  have hnotDir₁ : w₁.fs.node dest ≠ some .dir := by
    by_cases heq : dest = dir ++ [name]
    · rw [heq, hfile]
      simp
    · rw [hkeep dest heq]
      exact hnotDir
  obtain ⟨t, hrename⟩ := Tree.rename_of_file hfile hroot hdir₁ hnotDir₁
  exact ⟨_, _, hstage.bind (fsCall_runs hE hrename), hin₁⟩

end Writing

/-- **A place that can be written.** Nothing but directories lies on the way to it, the missing ones
can be made, it is no directory itself, and no name that `uuid4` draws is taken in its directory. -/
structure Writable (E : Env) (t : Tree) (dest : Location) : Prop where
  ne_root : dest ≠ []
  parents : ∀ q, q <+: dest.dropLast → t.node q = none ∨ t.node q = some .dir
  grants : ∀ q, q <+: dest.dropLast → t.node q = none → E.mkdirError q = none
  notDir : t.node dest ≠ some .dir
  fresh : ∀ k, t.node (dest.dropLast ++ [tmpName (E.uuid4 k)]) = none

/-- The way out of the `try` of `atomic_write`. -/
def wayOut (E : Env) (relativePath : Str) (tmp : Location) : Except Exc Unit → Io Unit
  | .ok () => pure ()
  | .error (.write text) => do
    unlinkMissingOk E tmp
    Eff.raise (.write text)
  | .error (.os _ text) => do
    unlinkMissingOk E tmp
    Eff.raise (.write (lit "atomic_write failed for " ++ E.reprStr relativePath ++ lit ": " ++
      text))
  | .error e => do
    unlinkMissingOk E tmp
    Eff.raise e

/-- `atomic_write` up to its `try`: the parents of the destination are there, the temporary name
is free, and what is no parent is as it was. -/
theorem atomicWrite_bind {E : Env} (hE : E.NoFaults) {jail : PathJail} {relativePath : Str}
    (content : Bytes) (entry : FileEntry) {w : World} {dest : Location}
    (hdest : jail.resolve w.fs E.fuel E.lstatError relativePath = some (.ok dest))
    (hparents : ∀ q, q <+: dest.dropLast → w.fs.node q = none ∨ w.fs.node q = some .dir)
    (hgrants : ∀ q, q <+: dest.dropLast → w.fs.node q = none → E.mkdirError q = none)
    (hfresh : ∀ k, w.fs.node (dest.dropLast ++ [tmpName (E.uuid4 k)]) = none) :
    ∃ evs w₁ name, w₁.inbox = w.inbox ∧ w₁.fs.node dest.dropLast = some .dir ∧
      w₁.fs.node (dest.dropLast ++ [name]) = none ∧
      (∀ q, ¬ q <+: dest.dropLast → w₁.fs.node q = w.fs.node q) ∧
      ∀ r evs₂ w₂ evs₃ v w',
        Runs (writeBody E dest (dest.dropLast ++ [name]) content entry) w₁ evs₂ r w₂ →
        Runs (wayOut E relativePath (dest.dropLast ++ [name]) r) w₂ evs₃ v w' →
        Runs (atomicWrite E jail relativePath content entry) w (evs ++ (evs₂ ++ evs₃)) v w' := by
  obtain ⟨evs₁, w₁, hmkdir, hin₁, hnode₁⟩ := mkdirParents_runs hE dest.dropLast.reverse w.tick
    (by rw [List.reverse_reverse]; exact hparents) (by rw [List.reverse_reverse]; exact hgrants)
  rw [List.reverse_reverse] at hnode₁
  -- the temporary name is longer than the directories that were made
  have hlong : ¬ dest.dropLast ++ [tmpName (E.uuid4 w₁.clock)] <+: dest.dropLast := by
    intro hq
    have hlen := hq.length_le
    rw [List.length_append, List.length_singleton] at hlen
    omega
  refine ⟨evs₁, w₁, tmpName (E.uuid4 w₁.clock), hin₁, ?_, ?_, fun q hq => ?_,
    fun r evs₂ w₂ evs₃ v w' hbody hout => ?_⟩
  · rw [hnode₁, if_pos (List.prefix_refl _)]
  · rw [hnode₁, if_neg hlong]
    exact hfresh w₁.clock
  · rw [hnode₁, if_neg hq]
    rfl
  · exact (jailResolve_runs hE hdest).bind (hmkdir.bind (Runs.look_bind
      (Runs.attempt_bind hbody hout)))

/-- **`atomic_write` returns** where nothing fails, for a place that can be written, an owner that
the system knows and a time that fits. -/
theorem atomicWrite_runs {E : Env} (hE : E.NoFaults) {jail : PathJail} {relativePath : Str}
    (content : Bytes) {entry : FileEntry} {w : World} {dest : Location}
    (hdest : jail.resolve w.fs E.fuel E.lstatError relativePath = some (.ok dest))
    (hwritable : Writable E w.fs dest) {uid gid : Int}
    (huid : lookupUid E.reprStr E.accounts entry.uidName = .ok uid)
    (hgid : lookupGid E.reprStr E.accounts entry.gidName = .ok gid)
    (htime : TimeFits entry.mtimeTotalNs) :
    ∃ evs w', Runs (atomicWrite E jail relativePath content entry) w evs (.ok ()) w' ∧
      w'.inbox = w.inbox := by
  obtain ⟨evs₁, w₁, name, hin₁, hparent, hnone, hkeep, hrun⟩ :=
    atomicWrite_bind hE content entry hdest hwritable.parents hwritable.grants hwritable.fresh
  have hdestLong : ¬ dest <+: dest.dropLast := by
    intro hq
    have hlen := hq.length_le
    rw [List.length_dropLast] at hlen
    have hpos := List.length_pos_iff.mpr hwritable.ne_root
    omega
  have hnotDir : w₁.fs.node dest ≠ some .dir := by
    rw [hkeep dest hdestLong]
    exact hwritable.notDir
  obtain ⟨evs₂, w₂, hbody, hin₂⟩ := writeBody_runs hE content hnone hparent
    hwritable.ne_root rfl hnotDir huid hgid htime
  exact ⟨_, w₂, hrun _ _ _ [] _ _ hbody rfl, hin₂.trans hin₁⟩

/-! ### Transfers -/

/-- Valid messages on the connection, in order. -/
def deliver (ms : List AnyMsg) (h : ∀ m ∈ ms, m.Valid) : List Incoming := ms.pmap .message h

theorem deliver_append (ms ms' : List AnyMsg) (h : ∀ m ∈ ms ++ ms', m.Valid) :
    deliver (ms ++ ms') h = deliver ms (fun m hm => h m (List.mem_append_left _ hm)) ++
      deliver ms' fun m hm => h m (List.mem_append_right _ hm) := List.pmap_append h

section Transfers

variable {S : Service} {w : World}

/-- The chunks at the front of the connection are taken in. -/
theorem collectChunks_runs {tid : Uuid} {chunks : List TransferChunkMsg} {more : List Incoming}
    (hids : ∀ m ∈ chunks, m.transferId = tid) (d : Dict Int Bytes)
    (hvalid : ∀ m ∈ chunks.map AnyMsg.transferChunk, m.Valid)
    (hinbox : w.inbox = deliver (chunks.map AnyMsg.transferChunk) hvalid ++ more) :
    Runs (collectChunks tid chunks.length d) w
      (chunks.map fun m => .received (.transferChunk m))
      (.ok (some (chunks.foldl (fun d m => d.set m.seq m.data) d))) { w with inbox := more } := by
  -- on the chunks that are still on the connection
  induction chunks generalizing w d with
  | nil =>
    have hmore : w.inbox = more := hinbox
    rw [← hmore]
    rfl
  | cons chunk chunks ih =>
    have hid : chunk.transferId = tid := hids chunk List.mem_cons_self
    have hrun := ih (w := { w with
        inbox := deliver (chunks.map AnyMsg.transferChunk) (fun m hm =>
          hvalid m (List.mem_cons_of_mem _ hm)) ++ more })
      (fun m hm => hids m (List.mem_cons_of_mem _ hm)) (d.set chunk.seq chunk.data)
      (fun m hm => hvalid m (List.mem_cons_of_mem _ hm)) rfl
    refine (recv_runs hinbox).bind ?_
    dsimp only
    rw [if_neg (not_not_intro hid)]
    exact hrun

/-- How many calls a reconstruction makes: for a delta, the base is resolved and read. -/
def FileEntry.baseCalls (entry : FileEntry) : Nat := if entry.isFull then 0 else 2

theorem reconstruct_runs (hE : S.env.NoFaults) {entry : FileEntry} {payload content : Bytes}
    (h : Reconstructed S w.fs entry payload content) :
    ∃ w', Runs (reconstruct S entry payload) w [] (.ok content) w' ∧ w'.fs = w.fs ∧
      w'.clock = w.clock + entry.baseCalls := by
  unfold reconstruct FileEntry.baseCalls
  rcases h with ⟨hfull, rfl⟩ | ⟨hfull, baseRapidhash, path, record, p, base, hhash, hfind, hp, hf,
    happly⟩
  · rw [if_pos hfull, if_pos hfull]
    exact ⟨w, rfl, rfl, rfl⟩
  · have hdelta : ¬ entry.isFull = true := by simp [hfull]
    rw [if_neg hdelta, if_neg hdelta]
    have hread : Runs (readBase S entry.deltaBaseRapidhash) w [] (.ok base.content)
        w.tick.tick := by
      rw [hhash]
      unfold readBase
      simp only [hfind]
      exact (jailResolve_runs hE hp).bind (readBytes_runs hE hf)
    refine ⟨w.tick.tick, hread.bind ?_, rfl, rfl⟩
    rw [happly]
    rfl

/-- The scanner, if there is one, finds the content clean whenever it is asked. -/
def ScansClean (S : Service) (content : Bytes) : Prop :=
  ∀ clamd, S.env.clamd = some clamd → ∀ k, ∃ r, clamd k content = .ok r ∧ r.isClean = true

theorem scan_runs {content : Bytes} (h : ScansClean S content) :
    ∃ result w', Runs (scan S content) w [.scanned content result] (.ok result) w' ∧
      result.isClean = true ∧ w'.fs = w.fs := by
  unfold scan
  cases hclamd : S.env.clamd with
  | none => exact ⟨.makeClean, w, rfl, rfl, rfl⟩
  | some clamd =>
    obtain ⟨r, hr, hclean⟩ := h clamd hclamd w.clock
    refine ⟨r, w.tick, Runs.look_bind (Runs.change_bind ?_), hclean, rfl⟩
    rw [hr]
    rfl

/-- **The owner names are accepted**: by the policy of the session and by the system. -/
structure OwnerAccepted (S : Service) (entry : FileEntry) : Prop where
  uid : ∃ uid, resolveUid S.env.reprStr S.env.accounts entry.uidName S.session.uidPolicy = .ok uid
  gid : ∃ gid, resolveGid S.env.reprStr S.env.accounts entry.gidName S.session.gidPolicy = .ok gid
  user : ∃ uid, lookupUid S.env.reprStr S.env.accounts entry.uidName = .ok uid
  group : ∃ gid, lookupGid S.env.reprStr S.env.accounts entry.gidName = .ok gid

theorem ScanResult.text_of_isClean {r : ScanResult} (h : r.isClean = true) :
    r.text = lit "CLEAN" := by
  rw [ScanResult.text, if_pos h]

/-- From the content on: everything that is checked holds, and the content is written. -/
theorem checkAndWrite_runs (hE : S.env.NoFaults) {tid : Uuid} {entry : FileEntry}
    {commit : TransferCommitMsg} {content : Bytes} {dest : Location}
    (hhash : rapidhash content = commit.rapidhash) (hclean : ScansClean S content)
    (howner : OwnerAccepted S entry) (htime : TimeFits entry.mtimeTotalNs)
    (hdest : S.session.jail.resolve w.fs S.env.fuel S.env.lstatError entry.path = some (.ok dest))
    (hwritable : Writable S.env w.fs dest) :
    ∃ evs w' f, Runs (checkAndWrite S tid entry commit content) w evs (.ok ()) w' ∧
      Event.sent (.transferAck ⟨tid, lit "CLEAN"⟩) ∈ evs ∧
      w'.fs.file dest = some f ∧ f.content = content := by
  obtain ⟨result, w₁, hscan, hresult, htree⟩ := scan_runs (w := w) hclean
  obtain ⟨uid, huid⟩ := howner.user
  obtain ⟨gid, hgid⟩ := howner.group
  rw [← htree] at hdest hwritable
  obtain ⟨evs₂, w₂, hwrite, -⟩ := atomicWrite_runs hE content hdest hwritable huid hgid
    htime
  -- what the write has done is known from its having returned
  obtain ⟨dest', tmp, uid', gid', evs₃, hdest', -, -, hfile, -⟩ := atomicWrite_ok hwrite
  rw [hdest] at hdest'
  cases hdest'
  -- the policy
  have hpolicy : ∃ ids, resolveOwner S entry = .ok ids := by
    obtain ⟨u, hu⟩ := howner.uid
    obtain ⟨g, hg⟩ := howner.gid
    refine ⟨(u, g), ?_⟩
    rw [resolveOwner, hu]
    dsimp only
    rw [hg]
  obtain ⟨ids, hpolicy⟩ := hpolicy
  have hack : Runs (writeAndAck S tid entry content result) w₁
      (evs₂ ++ [Event.audited (writeRecord S entry content),
        .sent (.transferAck ⟨tid, result.text⟩)]) (.ok ()) w₂.tick :=
    Runs.attempt_bind hwrite (Runs.emit_bind (send_runs hE _))
  have hrun : Runs (checkAndWrite S tid entry commit content) w ([.scanned content result] ++
      (evs₂ ++ [Event.audited (writeRecord S entry content),
        .sent (.transferAck ⟨tid, result.text⟩)])) (.ok ()) w₂.tick := by
    unfold checkAndWrite
    rw [if_neg (not_not_intro hhash)]
    refine hscan.bind ?_
    rw [if_neg (not_not_intro hresult), hpolicy]
    exact hack
  refine ⟨_, _, _, hrun, ?_, Tree.file_eq_some_iff.mpr hfile, rfl⟩
  rw [ScanResult.text_of_isClean hresult]
  simp

/-- The handler of a complete transfer up to its commit. -/
theorem handleTransfer_bind (hE : S.env.NoFaults) {begin : TransferBeginMsg}
    {chunks : List TransferChunkMsg} {commit : TransferCommitMsg} {rest : List Incoming}
    {dest : Location} (hcount : begin.chunkCount = chunks.length)
    (hids : ∀ m ∈ chunks, m.transferId = begin.transferId)
    (hcommit : commit.transferId = begin.transferId)
    (hvalid : ∀ m ∈ chunks.map AnyMsg.transferChunk ++ [AnyMsg.transferCommit commit], m.Valid)
    (hinbox : w.inbox =
      deliver (chunks.map AnyMsg.transferChunk ++ [AnyMsg.transferCommit commit]) hvalid ++ rest)
    (hdest : S.session.jail.resolve w.fs S.env.fuel S.env.lstatError begin.entry.path =
      some (.ok dest))
    {evs : List Event} {v : Except Exc Unit} {w' : World}
    (h : Runs (finishTransfer S begin (chunkDict chunks) commit) { w.tick with inbox := rest } evs v
      w') :
    Runs (handleTransfer S begin) w ((chunks.map fun m => Event.received (.transferChunk m)) ++
      .received (.transferCommit commit) :: evs) v w' := by
  have hchunks : ∀ m ∈ chunks.map AnyMsg.transferChunk, m.Valid :=
    fun m hm => hvalid m (List.mem_append_left _ hm)
  -- the commit comes after the chunks
  have hlast : (AnyMsg.transferCommit commit).Valid := hvalid _ (by simp)
  have hinbox₁ : w.tick.inbox = deliver (chunks.map AnyMsg.transferChunk) hchunks ++
      (.message (.transferCommit commit) hlast :: rest) := by
    rw [World.tick_inbox, hinbox, deliver_append, List.append_assoc]
    rfl
  have hcollect := collectChunks_runs (w := w.tick) hids Dict.empty hchunks hinbox₁
  have hrecv : Runs recv { w.tick with inbox := .message (.transferCommit commit) hlast :: rest }
      [.received (.transferCommit commit)] (.ok (.transferCommit commit))
      { w.tick with inbox := rest } := recv_runs rfl
  rw [← List.nil_append ((chunks.map _) ++ _), ← List.singleton_append]
  refine Runs.attempt_bind (jailResolve_runs hE hdest) ?_
  dsimp only
  rw [hcount, Int.toNat_natCast]
  refine hcollect.bind (hrecv.bind ?_)
  dsimp only
  rw [if_neg (not_not_intro hcommit)]
  exact h

/-- **A transfer that goes through.** All its messages are on the connection, and its content
passes every check: the handler answers with the ACK and nothing else, and the content is at the
place the jail resolves the path to. -/
theorem handleTransfer_runs (hE : S.env.NoFaults) {begin : TransferBeginMsg} (hbegin : begin.Valid)
    {chunks : List TransferChunkMsg} {commit : TransferCommitMsg} {content : Bytes}
    {dest : Location} (hcount : begin.chunkCount = chunks.length)
    (hids : ∀ m ∈ chunks, m.transferId = begin.transferId)
    (hcommit : commit.transferId = begin.transferId)
    (hvalid : ∀ m ∈ chunks.map AnyMsg.transferChunk ++ [AnyMsg.transferCommit commit], m.Valid)
    (hinbox : w.inbox =
      deliver (chunks.map AnyMsg.transferChunk ++ [AnyMsg.transferCommit commit]) hvalid)
    (hcontent : Reconstructed S w.fs begin.entry (joinChunks (chunkDict chunks)) content)
    (hhash : rapidhash content = commit.rapidhash) (hclean : ScansClean S content)
    (howner : OwnerAccepted S begin.entry) (htime : TimeFits begin.entry.mtimeTotalNs)
    (hdest : S.session.jail.resolve w.fs S.env.fuel S.env.lstatError begin.entry.path =
      some (.ok dest))
    (hwritable : Writable S.env w.fs dest) :
    ∃ evs w' f, Runs (handleTransfer S begin) w evs (.ok ()) w' ∧
      sends evs = [.transferAck ⟨begin.transferId, lit "CLEAN"⟩] ∧
      w'.fs.file dest = some f ∧ f.content = content ∧
      ∃ rest, evs = (chunks.map fun m => Event.received (.transferChunk m)) ++
        .received (.transferCommit commit) :: rest := by
  have hcontent₁ : Reconstructed S (World.fs { w.tick with inbox := [] }) begin.entry
      (joinChunks (chunkDict chunks)) content := hcontent
  obtain ⟨w₂, hrec, htree, -⟩ := reconstruct_runs hE hcontent₁
  obtain ⟨evs₃, w₃, f, hwrite, hmem, hfile, hf⟩ := checkAndWrite_runs (w := w₂) hE hhash hclean
    howner htime (by rw [htree]; exact hdest) (by rw [htree]; exact hwritable)
  have hfinish : Runs (finishTransfer S begin (chunkDict chunks) commit)
      { w.tick with inbox := [] } evs₃ (.ok ()) w₃ := Runs.attempt_bind hrec hwrite
  have hrun := handleTransfer_bind hE hcount hids hcommit hvalid
    (hinbox.trans (List.append_nil _).symm) hdest hfinish
  refine ⟨_, w₃, f, hrun, ?_, hfile, hf, evs₃, rfl⟩
  -- the ACK is among the events, which leaves one of the three verdicts
  have hsent : AnyMsg.transferAck ⟨begin.transferId, lit "CLEAN"⟩ ∈
      sends ((chunks.map fun m => Event.received (.transferChunk m)) ++
        .received (.transferCommit commit) :: evs₃) :=
    List.mem_filterMap.mpr ⟨_, List.mem_append_right _ (List.mem_cons_of_mem _ hmem), rfl⟩
  rcases handleTransfer_inv hbegin hrun with hnone | ⟨reason, hnack, -⟩ | hacc
  · rw [hnone] at hsent
    cases hsent
  · rw [hnack, List.mem_singleton] at hsent
    cases hsent
  · obtain ⟨text, hsends⟩ := hacc.sends_eq
    rw [hsends, List.mem_singleton] at hsent
    rw [hsends, hsent]

end Transfers

end Chiralite
