import Chiralite.Server.Confinement

/-!
# Where files come from

Renames carry files about the tree, and writes that fail leave some behind, so that little can be
said of the file under a name after many sessions. What can be said is where a file comes from.
`FilesFrom` follows one attribute of the files, their mode or their content: what a file has of it
now, the server has granted it, or some file had it before, under whatever name.

A delete and a rename keep to that by themselves, and of a transfer only the stage of its write
grants anything, for a content that the scanner has cleared. So a bound on what stages grant
(`StagesGrant`) is one on a session, and on any number of sessions (`run_files`).
-/

namespace Chiralite

open Py Posix Effect

variable {α : Type}

/-- The attribute of a file is granted, or one that a file had before. -/
def FilesFrom (attr : FileData → α) (granted : α → Prop) (t t' : Tree) : Prop :=
  ∀ p f, t'.node p = some (.file f) →
    granted (attr f) ∨ ∃ q g, t.node q = some (.file g) ∧ attr g = attr f

section Calls

variable {attr : FileData → α} {granted : α → Prop} {t t' t'' : Tree} {p : Location}

theorem FilesFrom.refl (attr : FileData → α) (granted : α → Prop) (t : Tree) :
    FilesFrom attr granted t t :=
  fun p f hf => Or.inr ⟨p, f, hf, rfl⟩

theorem FilesFrom.trans (h : FilesFrom attr granted t t') (h' : FilesFrom attr granted t' t'') :
    FilesFrom attr granted t t'' := by
  intro p f hf
  obtain hgranted | ⟨q, g, hg, hattr⟩ := h' p f hf
  · exact Or.inl hgranted
  · rw [← hattr]
    exact h q g hg

/-- Every file was there before, at some place. -/
theorem FilesFrom.of_kept
    (h : ∀ q f, t'.node q = some (.file f) → ∃ q', t.node q' = some (.file f)) :
    FilesFrom attr granted t t' := by
  intro q f hf
  obtain ⟨q', hq'⟩ := h q f hf
  exact Or.inr ⟨q', f, hq', rfl⟩

/-- A file takes the place of what was there. -/
theorem FilesFrom.of_node {g : FileData}
    (hg : granted (attr g) ∨ ∃ f, t.node p = some (.file f) ∧ attr f = attr g)
    (hnode : ∀ q, t'.node q = if q = p then some (.file g) else t.node q) :
    FilesFrom attr granted t t' := by
  intro q f hf
  rw [hnode q] at hf
  by_cases hq : q = p
  · rw [if_pos hq] at hf
    cases hf
    exact hg.imp id fun ⟨f, hf, hattr⟩ => ⟨p, f, hf, hattr⟩
  · rw [if_neg hq] at hf
    exact Or.inr ⟨q, f, hf, rfl⟩

theorem FilesFrom.unlink (h : t.unlink p = .ok t') : FilesFrom attr granted t t' := by
  obtain ⟨-, -, hnode⟩ := Tree.unlink_ok h
  refine FilesFrom.of_kept fun q f hf => ⟨q, ?_⟩
  rw [hnode q] at hf
  split at hf
  · cases hf
  · exact hf

/-- A rename carries the files as they are. -/
theorem FilesFrom.rename {src dst : Location} (h : t.rename src dst = .ok t') :
    FilesFrom attr granted t t' := by
  by_cases hne : src = dst
  · rw [hne] at h
    rw [Tree.rename_self_ok h]
    exact FilesFrom.refl attr granted t
  · obtain ⟨-, hnode⟩ := Tree.rename_ok hne h
    refine FilesFrom.of_kept fun q f hf => ?_
    rw [hnode q, Tree.movedNode] at hf
    split at hf
    · exact ⟨_, hf⟩
    · split at hf
      · cases hf
      · exact ⟨q, hf⟩

theorem FilesFrom.of_dirsAdded {w w' : World} (h : DirsAdded w w') :
    FilesFrom attr granted w.fs w'.fs := by
  refine FilesFrom.of_kept fun q f hf => ⟨q, ?_⟩
  obtain heq | ⟨-, hdir⟩ := h q
  · rw [← heq]
    exact hf
  · rw [hdir] at hf
    cases hf

theorem FilesFrom.of_sameTree {w w' : World} (h : SameTree w w') :
    FilesFrom attr granted w.fs w'.fs := by
  rw [show w'.fs = w.fs from h]
  exact FilesFrom.refl attr granted w.fs

end Calls

/-! ### The write -/

section Write

variable {attr : FileData → α} {granted : α → Prop} {E : Env} {content : Bytes}
  {entry : FileEntry}

/-- What does no more to the files than is granted. -/
def filesFrame (attr : FileData → α) (granted : α → Prop) : Frame World Event Exc where
  change w w' := FilesFrom attr granted w.fs w'.fs
  refl w := FilesFrom.refl attr granted w.fs
  trans _ _ _ := FilesFrom.trans
  event _ := True
  exception _ := True

theorem filesFrame_of {β : Type} {c : Io β}
    (h : ∀ w evs v w', Runs c w evs v w' → FilesFrom attr granted w.fs w'.fs) :
    (filesFrame attr granted).Allows c :=
  fun w evs v w' hrun => ⟨h w evs v w' hrun, fun _ _ => trivial, fun _ _ => trivial⟩

theorem filesFrame_fsCall {op : FsOp} {p : Location} {call : Tree → Except Errno Tree}
    (hcall : ∀ t t', call t = .ok t' → FilesFrom attr granted t t') :
    (filesFrame attr granted).Allows (fsCall E op p call) :=
  allows_fsCall (fun _ _ => FilesFrom.of_sameTree) (fun _ _ => trivial) trivial
    fun w w' => hcall w.fs w'.fs

/-- A change to a file that leaves the attribute as it is, or sets it as it may. -/
theorem filesFrame_modify {op : FsOp} {p : Location} {g : FileData → FileData}
    (hg : ∀ f, granted (attr (g f)) ∨ attr (g f) = attr f) :
    (filesFrame attr granted).Allows (fsCall E op p fun t => t.modify p g) := by
  refine filesFrame_fsCall fun t t' h => ?_
  obtain ⟨f, hf, hnode⟩ := Tree.modify_ok h
  refine FilesFrom.of_node ?_ hnode
  exact (hg f).imp id fun hattr => ⟨f, hf, hattr.symm⟩

theorem filesFrame_tick : (filesFrame attr granted).Allows (tick E) := by
  refine filesFrame_of fun w evs v w' h => ?_
  obtain ⟨-, rfl, -⟩ := tick_inv h
  exact FilesFrom.refl attr granted w.fs

theorem filesFrame_unlinkMissingOk {p : Location} :
    (filesFrame attr granted).Allows (unlinkMissingOk E p) := by
  refine filesFrame_of fun w evs v w' h => ?_
  obtain ⟨e, -, -, -, htree⟩ | ⟨-, -, -, htree⟩ | ⟨-, -, hunlink⟩ := unlinkMissingOk_cases h
  · exact FilesFrom.of_sameTree htree
  · exact FilesFrom.of_sameTree htree
  · exact FilesFrom.unlink hunlink

theorem filesFrame_lookupOwner (r : Except Str Int) :
    (filesFrame attr granted).Allows (lookupOwner r) := by
  unfold lookupOwner
  split
  · exact Frame.allows_raise trivial
  · exact Frame.allows_pure _

/-- Behind its bytes, a stage sets the owner, the mode and the time. -/
theorem filesFrame_setAttributes {tmp : Location}
    (howner : ∀ f : FileData, ∀ uid gid, attr { f with uid := uid, gid := gid } = attr f)
    (hmode : ∀ f : FileData, granted (attr { f with mode := sanitizeMode entry.mode false }) ∨
      attr { f with mode := sanitizeMode entry.mode false } = attr f)
    (htime : ∀ f : FileData, ∀ ns, attr { f with mtimeNs := ns } = attr f) :
    (filesFrame attr granted).Allows (do
      tick E
      tick E
      tick E
      setAttributes E tmp entry) := by
  refine filesFrame_tick.bind fun _ => filesFrame_tick.bind fun _ =>
    filesFrame_tick.bind fun _ => ?_
  refine (filesFrame_lookupOwner _).bind fun uid => (filesFrame_lookupOwner _).bind fun gid => ?_
  refine Frame.Allows.bind (filesFrame_modify fun f => Or.inr (howner f uid gid)) fun _ => ?_
  refine Frame.Allows.bind (filesFrame_modify hmode) fun _ => ?_
  -- a time that does not fit raises before the call
  unfold utimeTmp
  split
  · exact filesFrame_modify fun f => Or.inr (htime f _)
  · exact Frame.allows_raise trivial

/-- **A write grants what its stage does**: the directories on the way, the rename and the removal
of the temporary file grant nothing. -/
theorem filesFrame_atomicWrite
    (hstage : ∀ tmp, (filesFrame attr granted).Allows (stage E tmp content entry))
    {jail : PathJail} {path : Str} :
    (filesFrame attr granted).Allows (atomicWrite E jail path content entry) := by
  have hresolve : (filesFrame attr granted).Allows (jailResolve E jail path) :=
    filesFrame_of fun _ _ _ _ h => FilesFrom.of_sameTree (jailResolve_inv h).1
  have hmkdir : ∀ p, (filesFrame attr granted).Allows (mkdirParents E p) := fun p =>
    (mkdirFrame_mkdirParents p).mono (fun _ _ => FilesFrom.of_dirsAdded) (fun _ _ => trivial)
      fun _ _ => trivial
  have hbody : ∀ dest tmp, (filesFrame attr granted).Allows
      (writeBody E dest tmp content entry) := by
    intro dest tmp
    exact (hstage tmp).bind fun _ => filesFrame_fsCall fun t t' => FilesFrom.rename
  have hcleanup : ∀ tmp e, (filesFrame attr granted).Allows
      (do unlinkMissingOk E tmp; Eff.raise e : Io Unit) := fun tmp e =>
    filesFrame_unlinkMissingOk.bind fun _ => Frame.allows_raise trivial
  unfold atomicWrite
  refine hresolve.bind fun dest => (hmkdir _).bind fun _ => ?_
  refine Frame.Allows.look fun w => (hbody dest _).bind_attempt fun r _ => ?_
  split
  · exact Frame.allows_pure ()
  · exact hcleanup _ _
  · exact hcleanup _ _
  · exact hcleanup _ _

end Write

/-! ### The transfer -/

section Transfer

variable {attr : FileData → α} {granted : α → Prop} {S : Service} {tid : Uuid} {w w' : World}
  {evs : List Event}

/-- The scanner calls the content clean, if there is one. -/
def Cleared (E : Env) (content : Bytes) : Prop :=
  ∀ clamd, E.clamd = some clamd →
    ∃ n result, clamd n content = .ok result ∧ result.isClean = true

/-- **What a stage grants**, with a content that is cleared: no more than is said. -/
def StagesGrant (attr : FileData → α) (granted : α → Prop) (E : Env) : Prop :=
  ∀ tmp content entry, Cleared E content →
    (filesFrame attr granted).Allows (stage E tmp content entry)

theorem scan_cleared {content : Bytes} {result : ScanResult}
    (h : Runs (scan S content) w evs (.ok result) w') (hclean : result.isClean = true) :
    Cleared S.env content := by
  intro clamd hclamd
  unfold scan at h
  rw [hclamd] at h
  have hrest := h.bind_look_inv.bind_change_inv
  split at hrest
  · obtain ⟨hv, -, -⟩ := hrest.raise_inv
    cases hv
  · rename_i result' hresult
    obtain ⟨evs₂, hpure, -⟩ := hrest.bind_emit_inv
    obtain ⟨hv, -, -⟩ := hpure.pure_inv
    cases hv
    exact ⟨_, result, hresult, hclean⟩

theorem filesFrame_of_idle {β : Type} {c : Io β} (h : idleFrame.Allows c) :
    (filesFrame attr granted).Allows c :=
  h.mono (fun _ _ => FilesFrom.of_sameTree) (fun _ _ => trivial) fun _ _ => trivial

theorem filesFrame_nack {reason : Str} : (filesFrame attr granted).Allows (nack S tid reason) :=
  filesFrame_of fun _ _ _ _ h => FilesFrom.of_sameTree (send_inv h).1

theorem filesFrame_audit {record : AuditEvent} :
    (filesFrame attr granted).Allows (audit record) := by
  refine filesFrame_of fun w evs v w' h => ?_
  cases h
  exact FilesFrom.refl attr granted w.fs

/-- Only a content that the scanner has cleared comes to the write. -/
theorem filesFrame_checkAndWrite (hgrant : StagesGrant attr granted S.env) {entry : FileEntry}
    {commit : TransferCommitMsg} {content : Bytes} :
    (filesFrame attr granted).Allows (checkAndWrite S tid entry commit content) := by
  unfold checkAndWrite
  split
  · exact filesFrame_nack
  refine filesFrame_of fun w evs v w' h => ?_
  obtain ⟨e, hscan, -⟩ | ⟨result, w₁, evs₁, evs₂, hscan, hrest, -⟩ := h.bind_inv
  · exact FilesFrom.of_sameTree (scan_inv hscan).1
  refine FilesFrom.trans (FilesFrom.of_sameTree (scan_inv hscan).1) ?_
  split at hrest
  · exact (filesFrame_audit.bind (fun _ => filesFrame_nack) _ _ _ _ hrest).1
  rename_i hclean
  have hwrite := fun tmp => hgrant tmp content entry (scan_cleared hscan (not_not.mp hclean))
  split at hrest
  · exact (filesFrame_audit.bind (fun _ => filesFrame_nack) _ _ _ _ hrest).1
  · obtain ⟨evs₃, v₁, w₂, hrun, hafter⟩ := writeAndAck_tree hrest
    exact (filesFrame_atomicWrite hwrite _ _ _ _ hrun).1.trans (FilesFrom.of_sameTree hafter)

/-- **A transfer.** -/
theorem filesFrame_handleTransfer (hgrant : StagesGrant attr granted S.env)
    {begin : TransferBeginMsg} : (filesFrame attr granted).Allows (handleTransfer S begin) := by
  unfold handleTransfer
  refine (filesFrame_of_idle idleFrame_jailResolve).bind_attempt fun r _ => ?_
  split
  · refine filesFrame_audit.bind fun _ => ?_
    exact (filesFrame_of_idle (idleFrame_drain _)).bind_attempt fun _ _ => filesFrame_nack
  · exact Frame.allows_raise trivial
  refine (filesFrame_of_idle (idleFrame_collectChunks _ _ _)).bind fun chunks => ?_
  split
  · exact filesFrame_nack
  refine (filesFrame_of_idle idleFrame_recv).bind fun m => ?_
  split
  · split
    · exact filesFrame_nack
    · refine (filesFrame_of_idle (idleFrame_reconstruct _ _)).bind_attempt fun r _ => ?_
      split
      · exact filesFrame_nack
      · exact filesFrame_nack
      · exact Frame.allows_raise trivial
      · exact filesFrame_checkAndWrite hgrant
  · exact filesFrame_nack

end Transfer

/-! ### The sessions -/

section Sessions

variable {attr : FileData → α} {granted : α → Prop} {S : Service} {w w' : World}
  {evs : List Event} {v : Except Exc Unit}

/-- **Every handler**, whatever the message and whichever calls fail. -/
theorem dispatch_files (hgrant : StagesGrant attr granted S.env) {m : AnyMsg}
    (h : Runs (dispatch S m) w evs v w') : FilesFrom attr granted w.fs w'.fs := by
  unfold dispatch at h
  split at h
  · exact (filesFrame_handleTransfer hgrant _ _ _ _ h).1
  · obtain htree | ⟨p, w₁, -, -, htree, hcall⟩ := handleDelete_inv h
    · exact FilesFrom.of_sameTree htree
    · exact (FilesFrom.of_sameTree htree).trans (FilesFrom.unlink hcall)
  · obtain htree | ⟨src, dst, evs₁, w₁, -, -, hmade, hend⟩ := handleRename_inv h
    · exact FilesFrom.of_sameTree htree
    have hdirs : FilesFrom attr granted w.fs w₁.fs := FilesFrom.of_dirsAdded hmade.dirsAdded
    obtain htree | ⟨-, -, hcall⟩ := hend
    · exact hdirs.trans (FilesFrom.of_sameTree htree)
    · exact hdirs.trans (FilesFrom.rename hcall)
  · obtain ⟨-, -, rfl⟩ := h.pure_inv
    exact FilesFrom.refl attr granted _

theorem serveTurn_files (hgrant : StagesGrant attr granted S.env)
    (h : Runs (serveTurn S) w evs v w') : FilesFrom attr granted w.fs w'.fs := by
  obtain ⟨-, -, htree⟩ | ⟨turn, rfl, rfl, rfl, hran⟩ := serveTurn_turn h
  · exact FilesFrom.of_sameTree htree
  · obtain ⟨w₁, v₁, evs₁, htree, -, -, hrun⟩ := hran.dispatched
    exact (FilesFrom.of_sameTree htree).trans (dispatch_files hgrant hrun)

theorem serveTurns_files (hgrant : StagesGrant attr granted S.env) {n : Nat}
    (h : Runs (serveTurns S n) w evs v w') : FilesFrom attr granted w.fs w'.fs := by
  induction n generalizing w evs with
  | zero =>
    obtain ⟨-, -, rfl⟩ := h.pure_inv
    exact FilesFrom.refl attr granted _
  | succ n ih =>
    obtain ⟨e, hturn, -⟩ | ⟨_, w₁, evs₁, evs₂, hturn, hrest, -⟩ := h.bind_inv
    · exact serveTurn_files hgrant hturn
    · exact (serveTurn_files hgrant hturn).trans (ih hrest)

/-- **One session.** -/
theorem serve_files (server : SiloServer) (a : SessionRun)
    (hgrant : StagesGrant attr granted a.env) :
    FilesFrom attr granted server.world.fs (serve server a).world.fs := by
  let index := server.indexes.get? a.session.siloId
  show FilesFrom attr granted server.world.fs
    (serveSession a.env a.session index a.rounds { server.world with inbox := a.inbox }).state.fs
  obtain ⟨e, hsync, -⟩ | ⟨_, w₁, evs₁, evs₂, hsync, hturns, -⟩ :=
    (runs_self (serveSession a.env a.session index a.rounds)
      { server.world with inbox := a.inbox }).bind_inv
  · exact FilesFrom.of_sameTree (serverHandleSyncRequest_told hsync).2
  · have htree : FilesFrom attr granted server.world.fs w₁.fs :=
      FilesFrom.of_sameTree (serverHandleSyncRequest_told hsync).2
    exact htree.trans (serveTurns_files (S := serviceOf a.env a.session index) hgrant hturns)

/-- **Any number of sessions**, one after the other. -/
theorem run_files (server : SiloServer) (as : List SessionRun)
    (hgrant : ∀ a ∈ as, StagesGrant attr granted a.env) :
    FilesFrom attr granted server.world.fs (Run.run serve server as).world.fs := by
  induction as generalizing server with
  | nil => exact FilesFrom.refl attr granted _
  | cons a as ih =>
    have hfirst := serve_files server a (hgrant a List.mem_cons_self)
    exact hfirst.trans (ih (serve server a) fun b hb => hgrant b (List.mem_cons_of_mem a hb))

end Sessions

end Chiralite
