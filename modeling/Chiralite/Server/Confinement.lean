import Chiralite.Server.AuditReplay
import Chiralite.Server.Tracking

/-!
# What a session can reach

The jail is checked path by path, and a handler acts on what the check has returned. Here the
checks are put together: over a whole session, with any messages, any links inside the silo and any
calls that fail, what changes lies strictly below the root of the silo (`session_confined`). The one
exception is a write to the root itself, whose temporary file stands beside the root and stays
there when it cannot be removed.

In particular the root stays a directory that no link leads to, so that the next session finds it
as this one did. Silos with roots that are not inside each other therefore cannot disturb each
other, in any number of sessions (`silos_isolated`).
-/

namespace Chiralite

open Py Posix Effect

/-! ### Reach -/

/-- **Where a silo may change the tree**: strictly below its root, and under the names of temporary
files beside the root. -/
def InReach (root q : Location) : Prop :=
  StrictlyBelow root q ∨ (q.dropLast = root.dropLast ∧ IsTmp q)

/-- Nothing has changed but what is in reach. -/
def Confined (root : Location) (t t' : Tree) : Prop :=
  ∀ q, ¬ InReach root q → t'.node q = t.node q

/-- **A root to serve from**: a directory, with no link and no temporary name on its way. -/
structure SiloRoot (root : Location) (t : Tree) : Prop where
  real : t.Real root
  isDir : t.node root = some .dir
  plain : ∀ q, q <+: root → ¬ IsTmp q

section Reach

variable {root root' p q : Location} {t t' t'' : Tree}

theorem Confined.refl (root : Location) (t : Tree) : Confined root t t := fun _ _ => rfl

theorem Confined.trans (h : Confined root t t') (h' : Confined root t' t'') :
    Confined root t t'' := by
  intro q hq
  calc t''.node q = t'.node q := h' q hq
    _ = t.node q := h q hq

/-- A root that is not inside another one is out of the other's reach, with its whole way. -/
theorem SiloRoot.not_inReach (h : SiloRoot root t) (hout : ¬ StrictlyBelow root' root)
    (hp : p <+: root) : ¬ InReach root' p := by
  rintro (⟨hpre, hne⟩ | ⟨-, htmp⟩)
  · refine hout ⟨hpre.trans hp, ?_⟩
    rintro rfl
    exact hne (hp.eq_of_length_le hpre.length_le)
  · exact h.plain p hp htmp

/-- A root stays one as long as its way is as it was. -/
theorem SiloRoot.congr (h : SiloRoot root t) (hsame : ∀ q, q <+: root → t'.node q = t.node q) :
    SiloRoot root t' where
  real := by
    refine ⟨h.real.names, fun q hq => ?_⟩
    have hlink := h.real.noLink q hq
    rw [Tree.isSymlink, hsame q hq]
    exact hlink
  isDir := (hsame root (List.prefix_refl root)).trans h.isDir
  plain := h.plain

/-- **A root stays one** when what changes is in the reach of a root that it is not inside of. -/
theorem SiloRoot.of_confined (h : SiloRoot root t) (hout : ¬ StrictlyBelow root' root)
    (hconf : Confined root' t t') : SiloRoot root t' :=
  h.congr fun q hq => hconf q (h.not_inReach hout hq)

theorem not_strictlyBelow_self : ¬ StrictlyBelow root root := fun h => h.2 rfl

/-- Every directory on the way to a root is there. -/
theorem SiloRoot.dir_of_isPrefix (h : SiloRoot root t) (hp : p <+: root) :
    t.node p = some .dir := by
  by_cases hne : p = root
  · rw [hne]
    exact h.isDir
  · refine Tree.isDir_of_isPrefix hp hne ?_
    rw [h.isDir]
    exact Option.some_ne_none _

/-- Whatever a wire path of the silo resolves to is at or below the root. -/
theorem SiloRoot.below {jail : PathJail} {fuel : Nat} {lstatError : Location → Option Errno}
    {path : Str} (h : SiloRoot jail.root t) (hpath : (validateRelativePath path).Ok)
    (hp : jail.resolve t fuel lstatError path = some (.ok p)) : jail.root <+: p := by
  have hpasses := PathJail.passes_of_resolve_of_valid h.real hpath hp
  exact (hpasses.real_below h.real (List.prefix_refl _)).2

/-- A missing directory on the way to a place in the silo is in reach. -/
theorem SiloRoot.inReach_of_missing (h : SiloRoot root t) {dest : Location} (hdest : root <+: dest)
    (hq : q <+: dest.dropLast) (hnone : t.node q = none) : StrictlyBelow root q := by
  by_cases hne : dest = root
  · -- the whole way to the root is there
    rw [hne] at hq
    rw [h.dir_of_isPrefix (hq.trans (List.dropLast_prefix root))] at hnone
    exact absurd hnone (Option.some_ne_none _)
  · refine strictlyBelow_of_missing ?_ (prefix_dropLast_of_ne hdest hne) hq hnone
    rw [h.isDir]
    exact Option.some_ne_none _

/-- So is the name of a temporary file beside it. -/
theorem inReach_of_tmp {dest : Location} (hdest : root <+: dest)
    (hdrop : q.dropLast = dest.dropLast) (htmp : IsTmp q) : InReach root q := by
  by_cases hne : dest = root
  · rw [hne] at hdrop
    exact Or.inr ⟨hdrop, htmp⟩
  · obtain ⟨dir, id, rfl⟩ := htmp
    exact Or.inl (strictlyBelow_of_dropLast (prefix_dropLast_of_ne hdest hne) hdrop (by simp))

/-- Directories that are made on the way to a place in the silo are in reach. -/
theorem SiloRoot.confined_of_made {w w' : World} {evs : List Event} (h : SiloRoot root w.fs)
    {dest : Location} (hdest : root <+: dest) (hmade : Made dest.dropLast w evs w') :
    Confined root w.fs w'.fs := by
  intro q hq
  by_contra hchange
  rcases hmade.added q with heq | ⟨hnone, -, -⟩
  · exact hchange heq
  · exact hq (Or.inl (h.inReach_of_missing hdest (hmade.isPrefix hchange) hnone))

end Reach

/-! ### The handlers -/

section Handlers

variable {S : Service} {w w₁ w' : World} {evs : List Event}

theorem confined_of_sameTree (root : Location) (h : SameTree w w') :
    Confined root w.fs w'.fs := by
  rw [show w'.fs = w.fs from h]
  exact Confined.refl root w.fs

section Write

variable {E : Env} {jail : PathJail} {relativePath : Str} {content : Bytes} {entry : FileEntry}
  {v : Except Exc Unit} {dest tmp : Location}

/-- A temporary file is put in place of no directory. -/
theorem writeBody_not_dir (hne : tmp ≠ dest)
    (h : Runs (writeBody E dest tmp content entry) w evs (.ok ()) w') :
    w.fs.node dest ≠ some .dir := by
  obtain ⟨_, w₁, evs₁, evs₂, hstage, hrename, -⟩ := h.bind_ok_inv
  obtain ⟨uid, gid, -, -, hfile⟩ := stage_ok hstage
  have hsame : w₁.fs.node dest = w.fs.node dest :=
    (entryFrame_stage _ _ _ _ hstage).1 dest (Ne.symm hne)
  have hnotDir : w₁.fs.node dest ≠ some .dir :=
    (Tree.rename_file_ok hfile hne (fsCall_ok hrename).2).1
  rw [← hsame]
  exact hnotDir

/-- **What a write may change**: a missing directory on the way, a temporary name beside the
destination, and the destination, where that is no directory. -/
theorem atomicWrite_changes (h : Runs (atomicWrite E jail relativePath content entry) w evs v w')
    {q : Location} (hq : w'.fs.node q ≠ w.fs.node q) :
    ∃ dest, jail.resolve w.fs E.fuel E.lstatError relativePath = some (.ok dest) ∧
      ((q <+: dest.dropLast ∧ w.fs.node q = none) ∨ (q.dropLast = dest.dropLast ∧ IsTmp q) ∨
        (q = dest ∧ w.fs.node q ≠ some .dir)) := by
  rcases atomicWrite_inv h with ⟨-, -, -, htree⟩ | ⟨dest, hdest, hcases⟩
  · exact absurd (by rw [show w'.fs = w.fs from htree]) hq
  have hdirs : ∀ {evs₁ w₁}, Made dest.dropLast w evs₁ w₁ → w₁.fs.node q ≠ w.fs.node q →
      q <+: dest.dropLast ∧ w.fs.node q = none := by
    intro evs₁ w₁ hmade hchange
    rcases hmade.added q with heq | ⟨hnone, -, -⟩
    · exact absurd heq hchange
    · exact ⟨hmade.isPrefix hchange, hnone⟩
  refine ⟨dest, hdest, ?_⟩
  rcases hcases with ⟨e, -, hmade⟩ |
    ⟨tmp, r, w₁, w₂, evs₁, evs₂, evs₃, hdrop, -, hmade, -, hbody, hout, -, evs₀, hattempt⟩
  · exact Or.inl (hdirs hmade hq)
  by_cases htmp : q = tmp
  · rw [htmp]
    exact Or.inr (Or.inl ⟨hdrop, attemptWrite_isTmp hattempt⟩)
  cases r with
  | error e =>
    -- neither the body nor the removal of the temporary file has touched the location
    obtain ⟨e', hundo⟩ := wayOut_error hout
    have hbefore : w₂.fs.node q = w₁.fs.node q := (writeBody_error hbody).1 q htmp
    have hafter : w'.fs.node q = w₂.fs.node q := by
      rcases hundo.bind_inv with ⟨e'', hunlink, -⟩ | ⟨_, w₃, evs₄, evs₅, hunlink, hraise, -⟩
      · exact unlinkMissingOk_elsewhere hunlink htmp
      · obtain ⟨-, -, rfl⟩ := hraise.raise_inv
        exact unlinkMissingOk_elsewhere hunlink htmp
    refine Or.inl (hdirs hmade ?_)
    rw [← hbefore, ← hafter]
    exact hq
  | ok u =>
    obtain ⟨-, -, rfl⟩ := hout.pure_inv
    by_cases hself : q = dest
    · refine Or.inr (Or.inr ⟨hself, fun hdir => ?_⟩)
      have hstill : w₁.fs.node q = w.fs.node q := hmade.node_eq (by rw [hdir]; simp)
      have hne : tmp ≠ dest := fun heq => htmp (hself.trans heq.symm)
      refine writeBody_not_dir hne hbody ?_
      rw [← hself, hstill]
      exact hdir
    · refine Or.inl (hdirs hmade ?_)
      rw [← (writeBody_moved hbody).1 q hself htmp]
      exact hq

theorem atomicWrite_confined (hroot : SiloRoot jail.root w.fs)
    (hpath : (validateRelativePath relativePath).Ok)
    (h : Runs (atomicWrite E jail relativePath content entry) w evs v w') :
    Confined jail.root w.fs w'.fs := by
  intro q hq
  by_contra hchange
  obtain ⟨dest, hdest, hcases⟩ := atomicWrite_changes h hchange
  have hbelow := hroot.below hpath hdest
  rcases hcases with ⟨hpre, hnone⟩ | ⟨hdrop, htmp⟩ | ⟨rfl, hnotDir⟩
  · exact hq (Or.inl (hroot.inReach_of_missing hbelow hpre hnone))
  · exact hq (inReach_of_tmp hbelow hdrop htmp)
  · -- the root itself is a directory
    refine hq (Or.inl ⟨hbelow, ?_⟩)
    rintro rfl
    exact hnotDir hroot.isDir

end Write

/-- After the write, nothing but messages and the log. -/
theorem writeAndAck_tree {tid : Uuid} {entry : FileEntry} {content : Bytes} {result : ScanResult}
    {v : Except Exc Unit} (h : Runs (writeAndAck S tid entry content result) w evs v w') :
    ∃ evs₁ v₁ w₁, Runs (atomicWrite S.env S.session.jail entry.path content entry) w evs₁ v₁ w₁ ∧
      SameTree w₁ w' := by
  obtain ⟨r, w₁, evs₁, evs₂, hwrite, hrest, -⟩ := h.bind_attempt_inv
  refine ⟨evs₁, r, w₁, hwrite, ?_⟩
  split at hrest
  · exact (nack_inv hrest).1
  · exact (nack_inv hrest).1
  · obtain ⟨-, -, rfl⟩ := hrest.raise_inv
    rfl
  · obtain ⟨evs₃, hsend, -⟩ := hrest.bind_emit_inv
    exact (send_inv hsend).1

theorem handleTransfer_confined {begin : TransferBeginMsg} (hvalid : begin.Valid)
    (hroot : SiloRoot S.session.jail.root w.fs) {v : Except Exc Unit}
    (h : Runs (handleTransfer S begin) w evs v w') :
    Confined S.session.jail.root w.fs w'.fs := by
  rcases handleTransfer_cases hvalid h with hdown | ⟨_, _, content, _, -, -, -, -, -, -, _, _, w₁,
    _, -, -, htree, -, hwrite⟩
  · exact confined_of_sameTree _ hdown.1
  · obtain ⟨evs₁, v₁, w₂, hrun, hafter⟩ := writeAndAck_tree hwrite
    have hroot₁ : SiloRoot S.session.jail.root w₁.fs := by
      rw [show w₁.fs = w.fs from htree]
      exact hroot
    have hconf := atomicWrite_confined hroot₁ hvalid.entry.path hrun
    rw [show w₁.fs = w.fs from htree, ← show w'.fs = w₂.fs from hafter] at hconf
    exact hconf

/-- **A delete stays below the root**: the root is a directory, which `unlink` does not remove. -/
theorem handleDelete_confined {msg : FileDeleteMsg} (hpath : (validateRelativePath msg.path).Ok)
    (hroot : SiloRoot S.session.jail.root w.fs) {v : Except Exc Unit}
    (h : Runs (handleDelete S msg) w evs v w') : Confined S.session.jail.root w.fs w'.fs := by
  rcases handleDelete_inv h with htree | ⟨p, w₁, hp, -, htree, hcall⟩
  · exact confined_of_sameTree _ htree
  rw [show w₁.fs = w.fs from htree] at hcall
  obtain ⟨-, hnotDir, hnode⟩ := Tree.unlink_ok hcall
  intro q hq
  rw [hnode q, if_neg]
  rintro rfl
  refine hq (Or.inl ⟨hroot.below hpath hp, ?_⟩)
  rintro rfl
  exact hnotDir hroot.isDir

/-- **A rename stays below the root.** Nothing is moved below itself, and so not the root; and
nothing that was below the root takes its place, as a directory that holds something is not
replaced. -/
theorem handleRename_confined {msg : FileRenameMsg} (hold : (validateRelativePath msg.oldPath).Ok)
    (hnew : (validateRelativePath msg.newPath).Ok) (hroot : SiloRoot S.session.jail.root w.fs)
    {v : Except Exc Unit} (h : Runs (handleRename S msg) w evs v w') :
    Confined S.session.jail.root w.fs w'.fs := by
  rcases handleRename_inv h with htree | ⟨src, dst, evs₁, w₁, hsrc, hdst, hmade, hend⟩
  · exact confined_of_sameTree _ htree
  have hsrcBelow := hroot.below hold hsrc
  have hdstBelow := hroot.below hnew hdst
  have hdirs := hroot.confined_of_made hdstBelow hmade
  rcases hend with htree | ⟨-, -, hcall⟩
  · rw [show w'.fs = w₁.fs from htree]
    exact hdirs
  refine hdirs.trans ?_
  by_cases hne : src = dst
  · rw [hne] at hcall
    rw [Tree.rename_self_ok hcall]
    exact Confined.refl _ _
  obtain ⟨hmovable, hnode⟩ := Tree.rename_ok hne hcall
  have hsrcNe : src ≠ S.session.jail.root := by
    intro heq
    rw [heq] at hmovable
    exact hmovable.not_below hdstBelow
  have hdstNe : dst ≠ S.session.jail.root := by
    intro heq
    rw [heq] at hmovable
    exact hmovable.there (hmovable.holds_nothing src hsrcBelow hsrcNe)
  -- what is at or below either end is strictly below the root
  have hreach : ∀ {p q}, S.session.jail.root <+: p → p ≠ S.session.jail.root → p <+: q →
      InReach S.session.jail.root q := by
    intro p q hbelow hpne hpre
    refine Or.inl ⟨hbelow.trans hpre, ?_⟩
    rintro rfl
    exact hpne (hpre.eq_of_length_le hbelow.length_le)
  intro q hq
  rw [hnode q, Tree.movedNode, if_neg, if_neg]
  · exact fun hpre => hq (hreach hsrcBelow hsrcNe hpre)
  · exact fun hpre => hq (hreach hdstBelow hdstNe hpre)

/-- **Every handler stays in reach**, whatever the message and whichever calls fail. -/
theorem dispatch_confined {m : AnyMsg} (hvalid : m.Valid)
    (hroot : SiloRoot S.session.jail.root w.fs) {v : Except Exc Unit}
    (h : Runs (dispatch S m) w evs v w') : Confined S.session.jail.root w.fs w'.fs := by
  unfold dispatch at h
  split at h
  · exact handleTransfer_confined hvalid hroot h
  · exact handleDelete_confined hvalid.1 hroot h
  · exact handleRename_confined hvalid.1 hvalid.2.1 hroot h
  · obtain ⟨-, -, rfl⟩ := h.pure_inv
    exact Confined.refl _ _

end Handlers

/-! ### Sessions -/

section Sessions

variable {S : Service} {w w' : World} {evs : List Event} {v : Except Exc Unit}

theorem serveTurn_confined (hroot : SiloRoot S.session.jail.root w.fs)
    (h : Runs (serveTurn S) w evs v w') : Confined S.session.jail.root w.fs w'.fs := by
  rcases serveTurn_turn h with ⟨-, -, htree⟩ | ⟨turn, rfl, rfl, rfl, hran⟩
  · exact confined_of_sameTree _ htree
  · obtain ⟨w₁, v₁, evs₁, htree, -, hvalid, hrun⟩ := hran.dispatched
    rw [← show w₁.fs = turn.before.fs from htree] at hroot ⊢
    exact dispatch_confined hvalid hroot hrun

theorem serveTurns_confined {n : Nat} (hroot : SiloRoot S.session.jail.root w.fs)
    (h : Runs (serveTurns S n) w evs v w') : Confined S.session.jail.root w.fs w'.fs := by
  -- on the rounds: each of them finds the root as it was
  induction n generalizing w evs with
  | zero =>
    obtain ⟨-, -, rfl⟩ := h.pure_inv
    exact Confined.refl _ _
  | succ n ih =>
    rcases h.bind_inv with ⟨e, hturn, -⟩ | ⟨_, w₁, evs₁, evs₂, hturn, hrest, -⟩
    · exact serveTurn_confined hroot hturn
    · have hfirst := serveTurn_confined hroot hturn
      exact hfirst.trans (ih (hroot.of_confined not_strictlyBelow_self hfirst) hrest)

theorem serveSession_confined {E : Env} {session : SiloSession} {index : Option SiloIndex} {n : Nat}
    (hroot : SiloRoot session.jail.root w.fs)
    (h : Runs (serveSession E session index n) w evs v w') :
    Confined session.jail.root w.fs w'.fs := by
  rcases h.bind_inv with ⟨e, hsync, -⟩ | ⟨_, w₁, evs₁, evs₂, hsync, hturns, -⟩
  · exact confined_of_sameTree _ (serverHandleSyncRequest_told hsync).2
  · have htree := (serverHandleSyncRequest_told hsync).2
    rw [← show w₁.fs = w.fs from htree] at hroot ⊢
    exact serveTurns_confined hroot hturns

end Sessions

/-- **A session stays in the jail.** From a root to serve from, whatever messages the client sends,
whatever links there are in the silo and whichever calls fail: nothing has changed at the end that
does not lie strictly below the root, apart from temporary names beside the root; and the root is
one to serve from again. -/
theorem session_confined (E : Env) (session : SiloSession) (index : Option SiloIndex) (n : Nat)
    (w : World) (hroot : SiloRoot session.jail.root w.fs) :
    Confined session.jail.root w.fs (serveSession E session index n w).state.fs ∧
      SiloRoot session.jail.root (serveSession E session index n w).state.fs := by
  have hconf := serveSession_confined hroot (runs_self (serveSession E session index n) w)
  exact ⟨hconf, hroot.of_confined not_strictlyBelow_self hconf⟩

/-! ### Silos beside each other -/

/-- **The roots of some sessions**: each is one to serve from, and none is inside another. -/
structure RootsApart (as : List SessionRun) (t : Tree) : Prop where
  root : ∀ a ∈ as, SiloRoot a.session.jail.root t
  apart : ∀ a ∈ as, ∀ b ∈ as, ¬ StrictlyBelow a.session.jail.root b.session.jail.root

section Silos

variable {as : List SessionRun} {root q : Location} {t : Tree}

/-- A session of another silo leaves the roots as they are. -/
theorem RootsApart.serve {server : SiloServer} {a : SessionRun}
    (h : RootsApart (a :: as) server.world.fs) :
    Confined a.session.jail.root server.world.fs (serve server a).world.fs ∧
      RootsApart as (Chiralite.serve server a).world.fs := by
  have hconf : Confined a.session.jail.root server.world.fs
      (Chiralite.serve server a).world.fs :=
    serveSession_confined (w := { server.world with inbox := a.inbox })
      (h.root a List.mem_cons_self) (runs_self _ _)
  refine ⟨hconf, fun b hb => ?_, fun b hb c hc => ?_⟩
  · have hmem := List.mem_cons_of_mem a hb
    exact (h.root b hmem).of_confined (h.apart a List.mem_cons_self b hmem) hconf
  · exact h.apart b (List.mem_cons_of_mem a hb) c (List.mem_cons_of_mem a hc)

/-- Out of the reach of all sessions, nothing changes. -/
theorem run_confined {server : SiloServer} (h : RootsApart as server.world.fs)
    (hq : ∀ a ∈ as, ¬ InReach a.session.jail.root q) :
    (Run.run serve server as).world.fs.node q = server.world.fs.node q := by
  -- on the sessions: each of them finds the roots of the later ones as they were
  induction as generalizing server with
  | nil => rfl
  | cons a as ih =>
    obtain ⟨hconf, hrest⟩ := h.serve
    calc (Run.run serve server (a :: as)).world.fs.node q
        = (serve server a).world.fs.node q := ih hrest fun b hb => hq b (List.mem_cons_of_mem a hb)
      _ = server.world.fs.node q := hconf q (hq a List.mem_cons_self)

/-- A silo is out of the reach of another one whose root is not on the same way. -/
theorem not_inReach_of_apart {root' : Location} (hplain : ¬ IsTmp root) (hout : ¬ root' <+: root)
    (hin : ¬ root <+: root') (hq : root <+: q) : ¬ InReach root' q := by
  rintro (⟨hpre, -⟩ | ⟨hdrop, htmp⟩)
  · rcases List.prefix_or_prefix_of_prefix hpre hq with hpre | hpre
    · exact hout hpre
    · exact hin hpre
  · by_cases hself : q = root
    · rw [hself] at htmp
      exact hplain htmp
    · refine hin ((prefix_dropLast_of_ne hq hself).trans ?_)
      rw [hdrop]
      exact List.dropLast_prefix root'

end Silos

/-- **Silos do not disturb each other.** Clients of any number of silos are served, one session
after the other, and no root is inside another. Then every entry at or below the root of a silo
that none of them serves, and with it every file of that silo, is as it was: whatever the clients
send, whatever links they have in their silos, and whichever calls fail. -/
theorem silos_isolated (server : SiloServer) (as : List SessionRun)
    (hroots : RootsApart as server.world.fs) (root : Location)
    (hroot : SiloRoot root server.world.fs)
    (hother : ∀ a ∈ as, ¬ a.session.jail.root <+: root ∧ ¬ root <+: a.session.jail.root) :
    SiloRoot root (Run.run serve server as).world.fs ∧
      ∀ q, root <+: q →
        (Run.run serve server as).world.fs.node q = server.world.fs.node q := by
  have hplain : ¬ IsTmp root := hroot.plain root (List.prefix_refl root)
  have hreach : ∀ q, (q <+: root ∨ root <+: q) →
      (Run.run serve server as).world.fs.node q = server.world.fs.node q := by
    intro q hq
    refine run_confined hroots fun a ha => ?_
    obtain ⟨hout, hin⟩ := hother a ha
    rcases hq with hq | hq
    · exact hroot.not_inReach (fun h => hout h.1) hq
    · exact not_inReach_of_apart hplain hout hin hq
  exact ⟨hroot.congr fun q hq => hreach q (Or.inl hq), fun q hq => hreach q (Or.inr hq)⟩

namespace Sample

theorem siloRoot_top {t : Tree} (name : Str) (hname : IsName name) (hshort : name.length < 47)
    (hdir : t.node [name] = some .dir) : SiloRoot [name] t where
  real := by
    refine Tree.Real.concat (p := []) Tree.real_root hname ?_
    rw [Tree.isSymlink, List.nil_append, hdir]
  isDir := hdir
  plain q hq := by
    rcases List.prefix_concat_iff.mp (show q <+: [] ++ [name] from hq) with rfl | hnil
    · exact not_isTmp_of_short name hshort []
    · rw [List.prefix_nil.mp hnil]
      rintro ⟨dir, id, heq⟩
      exact absurd heq.symm (by simp)

theorem siloRoot_srv : SiloRoot [lit "srv"] tree :=
  siloRoot_top (lit "srv") (by decide) (by decide) (by decide)

/-- The client that renames a file reaches nothing outside `/srv`. -/
theorem renamer_confined :
    Confined [lit "srv"] tree (serveSession env service.session none 1 renamer).state.fs ∧
      SiloRoot [lit "srv"] (serveSession env service.session none 1 renamer).state.fs :=
  session_confined env service.session none 1 renamer siloRoot_srv

/-- The silo of the notes, and `/mail` beside it. -/
def twoSilos : Tree :=
  tree.insert [lit "mail"] .dir (by decide) (by decide) (by decide)

/-- A server without an index, and a session that renames the notes. -/
def mailServer : SiloServer := ⟨⟨twoSilos, [], 0⟩, Dict.empty⟩

def notesRun : SessionRun := ⟨env, service.session, renamer.inbox, 1⟩

/-- The mail is as it was. -/
theorem mail_isolated :
    SiloRoot [lit "mail"] (Run.run serve mailServer [notesRun]).world.fs ∧
      ∀ q, [lit "mail"] <+: q →
        (Run.run serve mailServer [notesRun]).world.fs.node q = mailServer.world.fs.node q := by
  have hroots : RootsApart [notesRun] mailServer.world.fs := by
    refine ⟨fun a ha => ?_, fun a ha b hb => ?_⟩
    · rw [List.mem_singleton.mp ha]
      exact siloRoot_top (lit "srv") (by decide) (by decide) (by decide)
    · rw [List.mem_singleton.mp ha, List.mem_singleton.mp hb]
      exact not_strictlyBelow_self
  refine silos_isolated mailServer [notesRun] hroots [lit "mail"]
    (siloRoot_top (lit "mail") (by decide) (by decide) (by decide)) fun a ha => ?_
  rw [List.mem_singleton.mp ha]
  exact ⟨by decide, by decide⟩

end Sample

end Chiralite
