import Chiralite.Fs.JailWalk
import Chiralite.Server.Totality

/-!
# What a write leaves behind, and where

Two properties of `atomic_write` over all runs, with every system call free to fail.

**All or nothing** (`write_all_or_nothing`). A write that raises, wherever it does, leaves every
entry of the tree as it was and nothing new but directories; a write that returns has replaced the
destination by the complete file, and changed nothing else. What it takes from outside: the name
that `uuid4` drew was new, and the removal of the temporary file went through. The file has the
time that the file system keeps for that of the entry, which may be another (`late_time_not_kept`).

**Inside the jail** (`writes_stay_inside_iff`). The destination lies at or below the root, but the
temporary file and the parents are taken from `dest.parent`. When the destination is the root
itself, as for the path `.` or for a link to the root, that is the directory above; and when the
root does not exist, the directories above it are made too.

Both start from one inversion lemma, `atomicWrite_inv`, and from `Made`: the directories that a run
of `mkdir(parents=True)` has added, each with its event.
-/

namespace Chiralite

open Py Posix Effect

/-! ### Directories that were made -/

/-- **Directories were made** on the way to `top`, and nothing else happened: whatever changed was
missing, is a directory and has its event, and every event is of a location that was missing. -/
structure Made (top : Location) (w : World) (evs : List Event) (w' : World) : Prop where
  added : ∀ q, w'.fs.node q = w.fs.node q ∨
    (w.fs.node q = none ∧ w'.fs.node q = some .dir ∧ Event.touched .mkdir q ∈ evs)
  events : ∀ o ∈ evs, ∃ q, o = .touched .mkdir q ∧ q <+: top ∧ w.fs.node q = none ∧
    w'.fs.node q = some .dir

namespace Made

variable {top : Location} {w w₁ w' : World} {evs evs' : List Event}

theorem of_sameTree (h : SameTree w w') : Made top w [] w' where
  added q := Or.inl (by rw [show w'.fs = w.fs from h])
  events o ho := by cases ho

/-- What was there stays as it is. -/
theorem node_eq (h : Made top w evs w') {q : Location} (hq : w.fs.node q ≠ none) :
    w'.fs.node q = w.fs.node q := by
  rcases h.added q with heq | ⟨hnone, -, -⟩
  · exact heq
  · exact absurd hnone hq

theorem trans (h : Made top w evs w₁) (h' : Made top w₁ evs' w') :
    Made top w (evs ++ evs') w' where
  added q := by
    rcases h.added q with heq | ⟨hnone, hdir, hmem⟩
    · rcases h'.added q with heq' | ⟨hnone', hdir', hmem'⟩
      · exact Or.inl (heq'.trans heq)
      · exact Or.inr ⟨heq ▸ hnone', hdir', List.mem_append_right _ hmem'⟩
    · -- a directory that was made stays
      have hstay : w'.fs.node q = w₁.fs.node q := h'.node_eq (by rw [hdir]; simp)
      exact Or.inr ⟨hnone, hstay.trans hdir, List.mem_append_left _ hmem⟩
  events o ho := by
    rcases List.mem_append.mp ho with ho | ho
    · obtain ⟨q, rfl, hq, hnone, hdir⟩ := h.events o ho
      have hstay : w'.fs.node q = w₁.fs.node q := h'.node_eq (by rw [hdir]; simp)
      exact ⟨q, rfl, hq, hnone, hstay.trans hdir⟩
    · obtain ⟨q, rfl, hq, hnone, hdir⟩ := h'.events o ho
      refine ⟨q, rfl, hq, ?_, hdir⟩
      by_contra hsome
      rw [h.node_eq hsome] at hnone
      exact hsome hnone

theorem dirsAdded (h : Made top w evs w') : DirsAdded w w' := by
  intro q
  rcases h.added q with heq | ⟨hnone, hdir, -⟩
  · exact Or.inl heq
  · exact Or.inr ⟨hnone, hdir⟩

/-- A location that changed lies on the way. -/
theorem isPrefix (h : Made top w evs w') {q : Location} (hq : w'.fs.node q ≠ w.fs.node q) :
    q <+: top := by
  rcases h.added q with heq | ⟨-, -, hmem⟩
  · exact absurd heq hq
  · obtain ⟨q', heq, hpre, -, -⟩ := h.events _ hmem
    cases heq
    exact hpre

end Made

/-- The conduct of the calls that make directories on the way to `top`. -/
def makesDirs (top : Location) : Conduct World Event where
  rel := Made top
  refl _ := Made.of_sameTree rfl
  trans _ _ _ _ _ := Made.trans

section Directories

variable {E : Env} {top : Location}

theorem makesDirs_mkdir {p : Location} (hp : p <+: top) :
    (makesDirs top).Allows (fsCall E .mkdir p fun t => E.mkdir t p) := by
  intro w evs v w' h
  rcases fsCall_inv h with ⟨e, -, -, rfl, htree⟩ | ⟨-, rfl, hmkdir⟩
  · exact Made.of_sameTree htree
  obtain ⟨hnone, hnode⟩ := Tree.mkdir_ok (Env.mkdir_ok hmkdir)
  have hdir : w'.fs.node p = some .dir := (hnode p).trans (if_pos rfl)
  refine ⟨fun q => ?_, fun o ho => ⟨p, List.mem_singleton.mp ho, hp, hnone, hdir⟩⟩
  by_cases hq : q = p
  · rw [hq]
    exact Or.inr ⟨hnone, hdir, List.mem_singleton_self _⟩
  · exact Or.inl ((hnode q).trans (if_neg hq))

theorem makesDirs_existOk {p : Location} {errno : Errno} {text : Str} :
    (makesDirs top).Allows
      (do if ← isDir p then pure () else Eff.raise (.os errno text) : Io Unit) := by
  refine Conduct.Allows.bind (Conduct.Allows.look fun _ => Conduct.allows_pure _) fun b => ?_
  split
  · exact Conduct.allows_pure ()
  · exact Conduct.allows_raise _

/-- `mkdir(parents=True, exist_ok=True)` makes the directories that are missing on the way, and
leaves an event for each. -/
theorem makesDirs_mkdirParents {p : List Str} (hp : p.reverse <+: top) :
    (makesDirs top).Allows (mkdirParents E p) := by
  induction p with
  | nil => exact Conduct.allows_pure ()
  | cons name up ih =>
    rw [List.reverse_cons] at hp
    have hup : up.reverse <+: top := (List.prefix_append _ _).trans hp
    unfold mkdirParents
    refine (makesDirs_mkdir hp).bind_attempt fun r => ?_
    split
    · exact Conduct.allows_pure ()
    · -- the parent is made first, and the directory is tried again
      refine (ih hup).bind fun _ => (makesDirs_mkdir hp).bind_attempt fun r' => ?_
      split
      · exact Conduct.allows_pure ()
      · exact Conduct.allows_raise _
      · exact makesDirs_existOk
      · exact Conduct.allows_raise _
    · exact makesDirs_existOk
    · exact Conduct.allows_raise _

end Directories

/-! ### The parts of a write -/

section Parts

variable (E : Env) (jail : PathJail) (relativePath : Str) (content : Bytes) (entry : FileEntry)

/-- `atomic_write` up to the end of its `try`: the temporary name, and how the body ended. -/
def attemptWrite : Io (Location × Except Exc Unit) := do
  let dest ← jailResolve E jail relativePath
  mkdirParents E dest.dropLast.reverse
  let w ← Eff.look
  let tmp := dest.dropLast ++ [tmpName (E.uuid4 w.clock)]
  let r ← Eff.attempt (writeBody E dest tmp content entry)
  pure (tmp, r)

/-- When the body of the `try` has raised, the removal of the temporary file goes through. -/
def UnlinkSucceeds (w : World) : Prop :=
  ∀ evs tmp e w₁, Runs (attemptWrite E jail relativePath content entry) w evs
    (.ok (tmp, .error e)) w₁ → ∃ evs' w₂, Runs (unlinkMissingOk E tmp) w₁ evs' (.ok ()) w₂

variable {E jail relativePath content entry} {w w' : World} {evs : List Event}
  {v : Except Exc Unit}

/-- **What a run of `atomic_write` consists of**: it raises in front of the `try`, with directories
made at most; or it goes through the `try`, and takes the way out that goes with how that ended. -/
theorem atomicWrite_inv (h : Runs (atomicWrite E jail relativePath content entry) w evs v w') :
    (∃ e, v = .error e ∧ evs = [] ∧ SameTree w w') ∨
    ∃ dest, jail.resolve w.fs E.fuel E.lstatError relativePath = some (.ok dest) ∧
      ((∃ e, v = .error e ∧ Made dest.dropLast w evs w') ∨
      ∃ tmp r w₁ w₂ evs₁ evs₂ evs₃, tmp.dropLast = dest.dropLast ∧ tmp ≠ [] ∧
        Made dest.dropLast w evs₁ w₁ ∧ w₁.fs.node dest.dropLast = some .dir ∧
        Runs (writeBody E dest tmp content entry) w₁ evs₂ r w₂ ∧
        Runs (wayOut E relativePath tmp r) w₂ evs₃ v w' ∧ evs = evs₁ ++ (evs₂ ++ evs₃) ∧
        ∃ evs₀, Runs (attemptWrite E jail relativePath content entry) w evs₀ (.ok (tmp, r))
          w₂) := by
  rcases h.bind_inv with ⟨e, hresolve, rfl⟩ | ⟨dest, w₀, evs₀, evs', hresolve, h₁, rfl⟩
  · obtain ⟨htree, rfl, -⟩ := jailResolve_inv hresolve
    exact Or.inl ⟨e, rfl, rfl, htree⟩
  obtain ⟨htree, rfl, hend⟩ := jailResolve_inv hresolve
  have hdest : jail.resolve w.fs E.fuel E.lstatError relativePath = some (.ok dest) := by
    rcases hend with ⟨p, hv, hp⟩ | ⟨err, hv, -⟩ | ⟨e, hv, -⟩
    · cases hv
      exact hp
    · cases hv
    · cases hv
  have hstart : Made dest.dropLast w [] w₀ := Made.of_sameTree htree
  have hmade : ∀ {evs₁ v₁ w₁}, Runs (mkdirParents E dest.dropLast.reverse) w₀ evs₁ v₁ w₁ →
      Made dest.dropLast w evs₁ w₁ := fun hrun =>
    hstart.trans (makesDirs_mkdirParents (by rw [List.reverse_reverse]) _ _ _ _ hrun)
  refine Or.inr ⟨dest, hdest, ?_⟩
  rcases h₁.bind_inv with ⟨e, hmkdir, rfl⟩ | ⟨_, w₁, evs₁, evs₄, hmkdir, h₂, rfl⟩
  · exact Or.inl ⟨e, rfl, hmade hmkdir⟩
  obtain ⟨r, w₂, evs₂, evs₃, hbody, hrest, rfl⟩ := h₂.bind_look_inv.bind_attempt_inv
  have hdir := mkdirParents_ok hmkdir
  rw [List.reverse_reverse] at hdir
  -- the `except` clauses are the way out, under its own name
  exact Or.inr ⟨dest.dropLast ++ [tmpName (E.uuid4 w₁.clock)], r, w₁, w₂, evs₁, evs₂, evs₃,
    List.dropLast_concat, by simp, hmade hmkdir, hdir, hbody, hrest, rfl, _,
    hresolve.bind (hmkdir.bind (Runs.look_bind (Runs.attempt_bind hbody rfl)))⟩

end Parts

/-! ### All or nothing -/

section Outcome

variable {E : Env} {jail : PathJail} {relativePath : Str} {content : Bytes} {entry : FileEntry}
  {w w' : World} {evs : List Event} {v : Except Exc Unit} {dest tmp : Location}

theorem writeBody_taken {r : Except Exc Unit}
    (h : Runs (writeBody E dest tmp content entry) w evs r w') (hfresh : FreshNames evs) :
    w.fs.node tmp = none := by
  rcases h.bind_inv with ⟨e, hstage, -⟩ | ⟨_, w₁, evs₁, evs₂, hstage, -, rfl⟩
  · exact stage_taken hstage hfresh
  · exact stage_taken hstage hfresh.left

/-- A body that returns has changed the destination and the temporary name, which is gone. -/
theorem writeBody_moved (h : Runs (writeBody E dest tmp content entry) w evs (.ok ()) w') :
    (∀ q, q ≠ dest → q ≠ tmp → w'.fs.node q = w.fs.node q) ∧
      (tmp ≠ dest → w'.fs.node tmp = none) := by
  obtain ⟨_, w₁, evs₁, evs₂, hstage, hrename, -⟩ := h.bind_ok_inv
  obtain ⟨uid, gid, -, -, hfile⟩ := stage_ok hstage
  have hframe := (entryFrame_stage _ _ _ _ hstage).1
  have hcall := (fsCall_ok hrename).2
  by_cases hne : tmp = dest
  · -- the destination has the temporary name itself
    subst hne
    have hself : w₁.fs.rename tmp tmp = .ok w₁.fs := Tree.rename_self (by rw [hfile]; simp)
    have heq : w'.fs = w₁.fs := Except.ok.inj (hcall.symm.trans hself)
    refine ⟨fun q hq _ => ?_, fun habs => absurd rfl habs⟩
    rw [heq]
    exact hframe q hq
  · obtain ⟨-, hnode⟩ := Tree.rename_file_ok hfile hne hcall
    refine ⟨fun q hdest htmp => ?_, fun _ => ?_⟩
    · rw [hnode q, if_neg hdest, if_neg htmp]
      exact hframe q htmp
    · rw [hnode tmp, if_neg hne, if_pos rfl]

/-- The way out of a body that raised: the temporary file is removed, and something is raised. -/
theorem wayOut_error {e : Exc} (h : Runs (wayOut E relativePath tmp (.error e)) w evs v w') :
    ∃ e', Runs (do unlinkMissingOk E tmp; Eff.raise e' : Io Unit) w evs v w' := by
  cases e with
  | write text => exact ⟨_, h⟩
  | os errno text => exact ⟨_, h⟩
  | recvFailed text => exact ⟨_, h⟩
  | jailbreak err => exact ⟨_, h⟩
  | patch text => exact ⟨_, h⟩
  | reconcile text => exact ⟨_, h⟩
  | transfer text => exact ⟨_, h⟩
  | other text => exact ⟨_, h⟩

/-- After a removal that went through, nothing has the temporary name, and something was raised. -/
theorem wayOut_unlinked {e : Exc} (h : Runs (wayOut E relativePath tmp (.error e)) w evs v w')
    (hunlink : ∃ evs' w₁, Runs (unlinkMissingOk E tmp) w evs' (.ok ()) w₁) :
    (∃ e', v = .error e') ∧ ∀ q, w'.fs.node q = if q = tmp then none else w.fs.node q := by
  obtain ⟨e', hrun⟩ := wayOut_error h
  obtain ⟨evs', w₁, hunlink⟩ := hunlink
  rcases hrun.bind_inv with ⟨e'', hfails, -⟩ | ⟨_, w₂, evs₁, evs₂, hremoved, hraise, -⟩
  · -- the removal has one outcome
    cases hunlink.symm.trans hfails
  · obtain ⟨rfl, -, rfl⟩ := hraise.raise_inv
    refine ⟨⟨e', rfl⟩, ?_⟩
    rcases (unlinkMissingOk_inv hremoved).2 with ⟨e'', hv, -⟩ | ⟨-, hnode⟩
    · cases hv
    · exact hnode

end Outcome

/-- **A write is all or nothing**, whatever fails and wherever. If it raises, every entry of the
tree is as it was, with its content and attributes, and nothing is new but directories. If it
returns, the destination is a file with exactly the content, the sanitized mode, the owner that was
looked up and the time that is kept for that of the entry, and no other location has changed but
that its parents were made. -/
theorem write_all_or_nothing (E : Env) (jail : PathJail) (relativePath : Str) (content : Bytes)
    (entry : FileEntry) (w w' : World) (evs : List Event) (v : Except Exc Unit)
    (hrun : Runs (atomicWrite E jail relativePath content entry) w evs v w')
    (hfresh : FreshNames evs)
    (hunlink : UnlinkSucceeds E jail relativePath content entry w) :
    (∀ e, v = .error e → DirsAdded w w') ∧
      (v = .ok () → ∃ dest uid gid,
        jail.resolve w.fs E.fuel E.lstatError relativePath = some (.ok dest) ∧
        lookupUid E.reprStr E.accounts entry.uidName = .ok uid ∧
        lookupGid E.reprStr E.accounts entry.gidName = .ok gid ∧
        w'.fs.node dest = some (.file (stagedFile E content entry uid gid)) ∧
        ∀ q, q ≠ dest → w'.fs.node q = w.fs.node q ∨
          (w.fs.node q = none ∧ w'.fs.node q = some .dir ∧ q <+: dest.dropLast)) := by
  rcases atomicWrite_inv hrun with ⟨e, rfl, -, htree⟩ | ⟨dest, hdest, ⟨e, rfl, hmade⟩ |
    ⟨tmp, r, w₁, w₂, evs₁, evs₂, evs₃, -, -, hmade, -, hbody, hway, rfl, evs₀, hattempt⟩⟩
  · exact ⟨fun _ _ => htree.dirsAdded, nofun⟩
  · exact ⟨fun _ _ => hmade.dirsAdded, nofun⟩
  -- through the `try`: the temporary name was free, and so it was at the start
  have hfree : w₁.fs.node tmp = none := writeBody_taken hbody hfresh.right.left
  have hfree₀ : w.fs.node tmp = none := by
    rcases hmade.added tmp with heq | ⟨hnone, -, -⟩
    · rw [← heq]
      exact hfree
    · exact hnone
  cases r with
  | error e =>
    -- the way out unlinks the temporary file, and nothing else was touched
    obtain ⟨⟨e', rfl⟩, hnode⟩ := wayOut_unlinked hway (hunlink _ _ _ _ hattempt)
    refine ⟨fun _ _ q => ?_, nofun⟩
    by_cases hq : q = tmp
    · exact Or.inl (by rw [hnode q, if_pos hq, hq, hfree₀])
    · rw [hnode q, if_neg hq, (writeBody_error hbody).1 q hq]
      exact hmade.dirsAdded q
  | ok =>
    -- the temporary file has become the destination
    obtain ⟨rfl, -, rfl⟩ := hway.pure_inv
    obtain ⟨uid, gid, -, huid, hgid, hfile, -⟩ := writeBody_ok hbody
    obtain ⟨hframe, hgone⟩ := writeBody_moved hbody
    refine ⟨nofun, fun _ => ⟨dest, uid, gid, hdest, huid, hgid, hfile, fun q hq => ?_⟩⟩
    by_cases htmp : q = tmp
    · subst htmp
      exact Or.inl ((hgone hq).trans hfree₀.symm)
    · rw [hframe q hq htmp]
      rcases hmade.added q with heq | ⟨hnone, hdir, -⟩
      · exact Or.inl heq
      · refine Or.inr ⟨hnone, hdir, hmade.isPrefix ?_⟩
        rw [hnone, hdir]
        simp

namespace Sample

/-- An entry of an owner that the system does not know. -/
def strangersEntry : FileEntry := { entry with uidName := lit "bob" }

/-- The temporary file of that write. -/
def strangersTmp : Location := [lit "srv", tmpName (env.uuid4 2)]

/-- A write for an unknown owner raises, after the temporary file has been written, and leaves the
tree as it was. -/
theorem strangers_write_leaves_nothing :
    ∃ text evs w', Runs (atomicWrite env ⟨[lit "srv"]⟩ (lit "notes") content strangersEntry) world
      evs (.error (.write text)) w' ∧ Event.touched .write strangersTmp ∈ evs ∧
      FreshNames evs ∧ DirsAdded world w' := by
  have hevents : ∀ evs, evs = [Event.touched .create strangersTmp, .touched .write strangersTmp,
      .touched .unlink strangersTmp] →
      Event.touched .write strangersTmp ∈ evs ∧ FreshNames evs := by
    rintro evs rfl
    exact ⟨by simp, fun p hp => by simp at hp⟩
  have hrun : ∃ text evs w', Runs (atomicWrite env ⟨[lit "srv"]⟩ (lit "notes") content
      strangersEntry) world evs (.error (.write text)) w' ∧
      evs = [Event.touched .create strangersTmp, .touched .write strangersTmp,
        .touched .unlink strangersTmp] := ⟨_, _, _, rfl, rfl⟩
  -- the body has raised, and the removal goes through
  have hunlink : UnlinkSucceeds env ⟨[lit "srv"]⟩ (lit "notes") content strangersEntry world := by
    intro evs tmp e w₁ hattempt
    cases hattempt
    exact ⟨_, _, rfl⟩
  obtain ⟨text, evs, w', hrun, hevs⟩ := hrun
  obtain ⟨hwritten, hfresh⟩ := hevents evs hevs
  refine ⟨text, evs, w', hrun, hwritten, hfresh, ?_⟩
  exact (write_all_or_nothing env _ _ content strangersEntry world w' evs _ hrun hfresh hunlink).1
    _ rfl

/-- What an ext4 file system keeps of a time: its seconds end at 15032385535, in the year 2446, and
a later time is kept as that. -/
def ext4StoredNs (ns : Int) : Int :=
  if 15032385535 < ns / 1000000000 then 15032385535 * 1000000000
  else if ns / 1000000000 < -2147483648 then -2147483648 * 1000000000
  else ns

def ext4Env : Env := { env with storedNs := ext4StoredNs }

/-- An entry with a later time. -/
def lateEntry : FileEntry := { entry with mtimeS := 2 ^ 34 }

theorem lateEntry_valid : lateEntry.Valid := { entry_valid with }

/-- **A write that returns with another time**: the file system keeps the latest it can. -/
theorem late_time_not_kept :
    lateEntry.Valid ∧ ∃ evs w' f,
      Runs (atomicWrite ext4Env ⟨[lit "srv"]⟩ (lit "notes") content lateEntry) world evs (.ok ())
        w' ∧ FreshNames evs ∧
      UnlinkSucceeds ext4Env ⟨[lit "srv"]⟩ (lit "notes") content lateEntry world ∧
      w'.fs.file [lit "srv", lit "notes"] = some f ∧ f.content = content ∧
      f.mtimeNs = 15032385535000000000 ∧
      f.mtimeNs ≠ lateEntry.mtimeS * 1000000000 + lateEntry.mtimeNs := by
  have hrun : ∃ evs w', Runs (atomicWrite ext4Env ⟨[lit "srv"]⟩ (lit "notes") content lateEntry)
      world evs (.ok ()) w' ∧ evs = [.touched .create strangersTmp, .touched .write strangersTmp,
        .touched .chown strangersTmp, .touched .chmod strangersTmp, .touched .utime strangersTmp,
        .touched (.rename [lit "srv", lit "notes"]) strangersTmp] := ⟨_, _, rfl, rfl⟩
  have hunlink : UnlinkSucceeds ext4Env ⟨[lit "srv"]⟩ (lit "notes") content lateEntry world := by
    intro evs tmp e w₁ hattempt
    cases hattempt
  obtain ⟨evs, w', hrun, hevs⟩ := hrun
  have hfresh : FreshNames evs := by
    rw [hevs]
    exact fun p hp => by simp at hp
  obtain ⟨dest, tmp, uid, gid, evs₁, hdest, -, -, hfile, -⟩ := atomicWrite_ok hrun
  cases receives.resolved.symm.trans hdest
  have htime : (stagedFile ext4Env content lateEntry uid gid).mtimeNs = 15032385535000000000 := by
    rfl
  refine ⟨lateEntry_valid, evs, w', _, hrun, hfresh, hunlink, Tree.file_eq_some_iff.mpr hfile, rfl,
    htime, ?_⟩
  rw [htime]
  decide

end Sample

/-! ### Inside the jail -/

/-- The locations that an event names: what was created, written, changed, removed, or moved to. -/
def Event.locations : Event → List Location
  | .touched (.rename dst) p => [p, dst]
  | .touched _ p => [p]
  | _ => []

/-- At a location strictly below the root. -/
def StrictlyBelow (root p : Location) : Prop := root <+: p ∧ p ≠ root

/-- **Writes stay inside**: whatever the world does in a write to the path, every location that
`atomic_write` touches lies strictly below the root. -/
def WritesStayInside (t : Tree) (jail : PathJail) (relativePath : Str) : Prop :=
  ∀ E w content entry evs v w', w.fs = t →
    Runs (atomicWrite E jail relativePath content entry) w evs v w' →
    ∀ o ∈ evs, ∀ p ∈ o.locations, StrictlyBelow jail.root p

section Events

variable {E : Env} {content : Bytes} {entry : FileEntry} {w w' : World} {evs : List Event}
  {dest tmp : Location}

/-- The frame of what renames nothing. -/
def noRenameFrame : Frame World Event Exc where
  change _ _ := True
  refl _ := trivial
  trans _ _ _ _ _ := trivial
  event o := ∀ p dst, o ≠ .touched (.rename dst) p
  exception _ := True

theorem noRenameFrame_fsCall {op : FsOp} {p : Location} {call : Tree → Except Errno Tree}
    (hop : ∀ dst, op ≠ .rename dst) : noRenameFrame.Allows (fsCall E op p call) := by
  refine allows_fsCall (fun _ _ _ => trivial) (fun _ _ => trivial) ?_ fun _ _ _ => trivial
  rintro p' dst heq
  cases heq
  exact hop dst rfl

theorem noRenameFrame_tick : noRenameFrame.Allows (tick E) := by
  intro w evs v w' h
  obtain ⟨rfl, -, -⟩ := tick_inv h
  exact ⟨trivial, by simp, fun _ _ => trivial⟩

theorem noRenameFrame_lookupOwner (r : Except Str Int) :
    noRenameFrame.Allows (lookupOwner r) := by
  unfold lookupOwner
  split
  · exact Frame.allows_raise trivial
  · exact Frame.allows_pure _

theorem noRenameFrame_stage : noRenameFrame.Allows (stage E tmp content entry) := by
  have hopen : noRenameFrame.Allows (openTmp E tmp) := by
    refine Frame.Allows.look fun w => ?_
    split
    · exact noRenameFrame_fsCall (by simp)
    · refine Frame.Allows.bind ?_ fun _ => noRenameFrame_fsCall (by simp)
      intro w evs v w' h
      cases h
      exact ⟨trivial, by simp [noRenameFrame], fun _ _ => trivial⟩
  have hwrite : noRenameFrame.Allows (writeTmp E tmp content) := by
    refine Frame.Allows.bind ?_ fun _ => noRenameFrame_fsCall (by simp)
    intro w evs v w' h
    cases h
    exact ⟨trivial, by simp, fun _ _ => trivial⟩
  have hutime : noRenameFrame.Allows (utimeTmp E tmp entry.mtimeTotalNs) := by
    unfold utimeTmp
    split
    · exact noRenameFrame_fsCall (by simp)
    · exact Frame.allows_raise trivial
  unfold stage
  refine hopen.bind fun _ => hwrite.bind fun _ => ?_
  refine noRenameFrame_tick.bind fun _ => noRenameFrame_tick.bind fun _ =>
    noRenameFrame_tick.bind fun _ => ?_
  refine (noRenameFrame_lookupOwner _).bind fun uid => (noRenameFrame_lookupOwner _).bind
    fun gid => ?_
  exact (noRenameFrame_fsCall (by simp)).bind fun _ => (noRenameFrame_fsCall (by simp)).bind
    fun _ => hutime

/-- The stage touches the temporary name and no other location. -/
theorem stage_locations {v : Except Exc Unit} (h : Runs (stage E tmp content entry) w evs v w') :
    ∀ o ∈ evs, ∀ p ∈ o.locations, p = tmp := by
  intro o ho p hp
  obtain ⟨op, rfl⟩ := (entryFrame_stage _ _ _ _ h).2.1 o ho
  have hop := (noRenameFrame_stage _ _ _ _ h).2.1 _ ho
  cases op with
  | rename dst => exact absurd rfl (hop tmp dst)
  | _ => exact List.mem_singleton.mp hp

/-- The body of the `try` touches the temporary name, and the destination if that is not the root
directory. -/
theorem writeBody_locations {v : Except Exc Unit} (htmp : tmp ≠ [])
    (h : Runs (writeBody E dest tmp content entry) w evs v w') :
    ∀ o ∈ evs, ∀ p ∈ o.locations, p = tmp ∨ (p = dest ∧ dest ≠ []) := by
  rcases h.bind_inv with ⟨e, hstage, -⟩ | ⟨_, w₁, evs₁, evs₂, hstage, hrename, rfl⟩
  · exact fun o ho p hp => Or.inl (stage_locations hstage o ho p hp)
  · intro o ho p hp
    rcases List.mem_append.mp ho with ho | ho
    · exact Or.inl (stage_locations hstage o ho p hp)
    rcases fsCall_inv hrename with ⟨e, -, -, rfl, -⟩ | ⟨-, rfl, hcall⟩
    · cases ho
    rw [List.mem_singleton.mp ho] at hp
    rcases List.mem_cons.mp hp with rfl | hp
    · exact Or.inl rfl
    · exact Or.inr ⟨List.mem_singleton.mp hp, Tree.rename_ok_ne_nil htmp hcall⟩

theorem wayOut_locations {relativePath : Str} {r v : Except Exc Unit}
    (h : Runs (wayOut E relativePath tmp r) w evs v w') :
    ∀ o ∈ evs, ∀ p ∈ o.locations, p = tmp := by
  cases r with
  | ok =>
    obtain ⟨-, rfl, -⟩ := h.pure_inv
    exact List.forall_mem_nil _
  | error e =>
    obtain ⟨e', hrun⟩ := wayOut_error h
    have hevents : ∀ o ∈ evs, o = .touched .unlink tmp := by
      rcases hrun.bind_inv with ⟨e'', hunlink, -⟩ | ⟨_, w₁, evs₁, evs₂, hunlink, hraise, rfl⟩
      · exact (unlinkMissingOk_inv hunlink).1
      · obtain ⟨-, rfl, -⟩ := hraise.raise_inv
        rw [List.append_nil]
        exact (unlinkMissingOk_inv hunlink).1
    intro o ho p hp
    rw [hevents o ho] at hp
    exact List.mem_singleton.mp hp

end Events

/-- What lies strictly below a location has its parent at or below it. -/
theorem prefix_dropLast_of_ne {p q : Location} (h : p <+: q) (hne : q ≠ p) : p <+: q.dropLast := by
  obtain ⟨rest, rfl⟩ := h
  have hrest : rest ≠ [] := by
    rintro rfl
    exact hne (List.append_nil _)
  rw [List.dropLast_append_of_ne_nil hrest]
  exact List.prefix_append _ _

section Inside

variable {E : Env} {jail : PathJail} {content : Bytes} {entry : FileEntry} {w w' : World}
  {evs : List Event} {dest tmp : Location}

/-- A blocked way is not changed: no directory can be made on it. -/
theorem Made.eq_nil_of_blocked (h : Made dest.dropLast w evs w') (hblocked : Blocked w.fs dest) :
    evs = [] := by
  rw [List.eq_nil_iff_forall_not_mem]
  intro o ho
  obtain ⟨q, -, hq, hnone, hdir⟩ := h.events o ho
  obtain ⟨q₀, hq₀, hsome, hnotDir⟩ := hblocked
  have hne : q ≠ q₀ := by
    rintro rfl
    exact hsome hnone
  -- the location that was made lies below what blocks the way, or above
  rcases List.prefix_or_prefix_of_prefix hq hq₀ with hpre | hpre
  · rw [Tree.isDir_of_isPrefix hpre hne hsome] at hnone
    cases hnone
  · have hdir₀ : w'.fs.node q₀ = some .dir :=
      Tree.isDir_of_isPrefix hpre hne.symm (by rw [hdir]; simp)
    rw [h.node_eq hsome] at hdir₀
    exact hnotDir hdir₀

/-- **What a run of `atomic_write` may touch**, when the way to the destination is not blocked: a
missing directory on that way, a temporary file beside the destination, and the destination. -/
theorem atomicWrite_locations {relativePath : Str} {v : Except Exc Unit}
    (h : Runs (atomicWrite E jail relativePath content entry) w evs v w') :
    ∀ o ∈ evs, ∀ p ∈ o.locations, ∃ dest,
      jail.resolve w.fs E.fuel E.lstatError relativePath = some (.ok dest) ∧ ¬ Blocked w.fs dest ∧
        ((p <+: dest.dropLast ∧ w.fs.node p = none) ∨
          (p.dropLast = dest.dropLast ∧ p ≠ []) ∨ (p = dest ∧ dest ≠ [])) := by
  intro o ho p hp
  rcases atomicWrite_inv h with ⟨-, -, rfl, -⟩ | ⟨dest, hdest, hcases⟩
  · cases ho
  have hdirs : ∀ {evs₁ w₁}, Made dest.dropLast w evs₁ w₁ → o ∈ evs₁ →
      ¬ Blocked w.fs dest ∧ p <+: dest.dropLast ∧ w.fs.node p = none := by
    intro evs₁ w₁ hmade ho₁
    refine ⟨fun hblocked => ?_, ?_⟩
    · rw [hmade.eq_nil_of_blocked hblocked] at ho₁
      cases ho₁
    · obtain ⟨q, rfl, hq, hnone, -⟩ := hmade.events o ho₁
      rw [List.mem_singleton.mp hp]
      exact ⟨hq, hnone⟩
  refine ⟨dest, hdest, ?_⟩
  rcases hcases with ⟨e, -, hmade⟩ |
    ⟨tmp, r, w₁, w₂, evs₁, evs₂, evs₃, hdrop, htmp, hmade, hdir, hbody, hway, rfl, -⟩
  · exact (hdirs hmade ho).imp id Or.inl
  -- the `try` is reached, so that every directory on the way is there
  have hopen : ¬ Blocked w.fs dest := by
    rintro ⟨q, hq, hsome, hnotDir⟩
    have hq₁ := node_of_isDir hdir q
    rw [if_pos hq, hmade.node_eq hsome] at hq₁
    exact hnotDir hq₁
  refine ⟨hopen, ?_⟩
  rcases List.mem_append.mp ho with ho | ho
  · exact Or.inl (hdirs hmade ho).2
  rcases List.mem_append.mp ho with ho | ho
  · rcases writeBody_locations htmp hbody o ho p hp with rfl | hdest
    · exact Or.inr (Or.inl ⟨hdrop, htmp⟩)
    · exact Or.inr (Or.inr hdest)
  · rw [wayOut_locations hway o ho p hp]
    exact Or.inr (Or.inl ⟨hdrop, htmp⟩)

/-- What is missing on the way from a root that is there lies below it. -/
theorem strictlyBelow_of_missing {t : Tree} {root p : Location} (hroot : t.node root ≠ none)
    (hbelow : root <+: dest.dropLast) (hp : p <+: dest.dropLast) (hnone : t.node p = none) :
    StrictlyBelow root p := by
  have hne : p ≠ root := by
    rintro rfl
    exact hroot hnone
  refine ⟨?_, hne⟩
  rcases List.prefix_or_prefix_of_prefix hbelow hp with hpre | hpre
  · exact hpre
  · rw [Tree.isDir_of_isPrefix hpre hne hroot] at hnone
    cases hnone

/-- What stands beside something below a root is below it. -/
theorem strictlyBelow_of_dropLast {root p : Location} (hbelow : root <+: dest.dropLast)
    (hdrop : p.dropLast = dest.dropLast) (hne : p ≠ []) : StrictlyBelow root p := by
  rw [← hdrop] at hbelow
  refine ⟨hbelow.trans (List.dropLast_prefix p), ?_⟩
  rintro rfl
  exact hne (Tree.eq_nil_of_isPrefix_dropLast hbelow)

/-- With nothing to fail, the body of the `try` touches the temporary name. -/
theorem writeBody_touches {r : Except Exc Unit} (hE : E.NoFaults) (htmp : tmp ≠ [])
    (hdir : w.fs.node tmp.dropLast = some .dir)
    (h : Runs (writeBody E dest tmp content entry) w evs r w') :
    ∃ op, Event.touched op tmp ∈ evs ∧ tmp ∈ (Event.touched op tmp).locations := by
  -- the first call of the body opens the file, and leaves its event
  have hopen : ∀ {evs₁ : List Event} {r₁ : Except Exc Unit} {w₁ : World},
      Runs (openTmp E tmp) w evs₁ r₁ w₁ →
      ∃ op, Event.touched op tmp ∈ evs₁ ∧ tmp ∈ (Event.touched op tmp).locations := by
    intro evs₁ r₁ w₁ hrun
    have hrest := hrun.bind_look_inv
    split at hrest
    · rename_i hnone
      obtain ⟨t, hcall⟩ : ∃ t, w.fs.openWrite tmp (E.newFile w.clock) = .ok t :=
        Tree.openWrite_of_missing htmp hnone hdir
      have hok : Runs (fsCall E .create tmp fun t => t.openWrite tmp (E.newFile w.clock)) w
          [.touched .create tmp] (.ok ()) { w.tick with fs := t } := fsCall_runs hE hcall
      rcases fsCall_inv hrest with ⟨e, rfl, -, -, -⟩ | ⟨-, rfl, -⟩
      · cases hrest.symm.trans hok
      · exact ⟨.create, List.mem_singleton_self _, List.mem_singleton_self _⟩
    · obtain ⟨evs₂, -, rfl⟩ := hrest.bind_emit_inv
      exact ⟨.reopen, List.mem_cons_self, List.mem_singleton_self _⟩
  have hstage : ∀ {evs₁ : List Event} {r₁ : Except Exc Unit} {w₁ : World},
      Runs (stage E tmp content entry) w evs₁ r₁ w₁ →
      ∃ op, Event.touched op tmp ∈ evs₁ ∧ tmp ∈ (Event.touched op tmp).locations := by
    intro evs₁ r₁ w₁ hrun
    rcases hrun.bind_inv with ⟨e, hfirst, -⟩ | ⟨_, w₂, evs₂, evs₃, hfirst, -, rfl⟩
    · exact hopen hfirst
    · obtain ⟨op, hmem, hloc⟩ := hopen hfirst
      exact ⟨op, List.mem_append_left _ hmem, hloc⟩
  rcases h.bind_inv with ⟨e, hfirst, -⟩ | ⟨_, w₂, evs₂, evs₃, hfirst, -, rfl⟩
  · exact hstage hfirst
  · obtain ⟨op, hmem, hloc⟩ := hstage hfirst
    exact ⟨op, List.mem_append_left _ hmem, hloc⟩

end Inside

/-- **The condition** on where the path leads: the way there is blocked by something that is no
directory, or the jail is the whole file system, or the root is there and the path leads to
something else than the root itself. -/
def LeadsInside (t : Tree) (root dest : Location) : Prop :=
  Blocked t dest ∨ root = [] ∨ (t.node root ≠ none ∧ dest ≠ root)

section Confined

variable {t : Tree} {jail : PathJail} {relativePath : Str}

/-- Under the condition, a write stays inside. -/
theorem writes_inside_of_leads (hreal : t.Real jail.root)
    (hpath : (validateRelativePath relativePath).Ok)
    (h : ∀ dest, PathJail.Passes t jail.root jail.root (components relativePath) dest →
      LeadsInside t jail.root dest) : WritesStayInside t jail relativePath := by
  rintro E w content entry evs v w' rfl hrun o ho p hp
  obtain ⟨dest, hdest, hopen, hp⟩ := atomicWrite_locations hrun o ho p hp
  have hpasses := PathJail.passes_of_resolve_of_valid hreal hpath hdest
  obtain ⟨-, hbelow⟩ := hpasses.real_below hreal (List.prefix_refl _)
  rcases h dest hpasses with hblocked | hnil | ⟨hthere, hne⟩
  · exact absurd hblocked hopen
  · -- below the root directory there is everything but itself
    rw [hnil]
    refine ⟨List.nil_prefix, ?_⟩
    rcases hp with ⟨-, hnone⟩ | ⟨-, hne⟩ | ⟨rfl, hne⟩
    · rintro rfl
      rw [w.fs.root_isDir] at hnone
      cases hnone
    · exact hne
    · exact hne
  · -- the destination lies below the root, and so do its parents and the temporary file
    have hparent : jail.root <+: dest.dropLast := prefix_dropLast_of_ne hbelow hne
    rcases hp with ⟨hpre, hnone⟩ | ⟨hdrop, htmp⟩ | ⟨rfl, -⟩
    · exact strictlyBelow_of_missing hthere hparent hpre hnone
    · exact strictlyBelow_of_dropLast hparent hdrop htmp
    · exact ⟨hbelow, hne⟩

/-- When the path leads to the root itself, or the root is missing, a write with nothing to fail
touches something that is not below the root. -/
theorem leads_of_writes_inside (hreal : t.Real jail.root)
    (hpath : (validateRelativePath relativePath).Ok)
    (h : WritesStayInside t jail relativePath) {dest : Location}
    (hpasses : PathJail.Passes t jail.root jail.root (components relativePath) dest) :
    LeadsInside t jail.root dest := by
  by_contra hnot
  obtain ⟨hopen, hnil, hroot⟩ : ¬ Blocked t dest ∧ jail.root ≠ [] ∧
      (t.node jail.root ≠ none → dest = jail.root) := by
    simpa only [LeadsInside, not_or, not_and, not_not] using hnot
  obtain ⟨-, hbelow⟩ := hpasses.real_below hreal (List.prefix_refl _)
  obtain ⟨fuel, hresolve⟩ := hpasses.resolve_of_valid PathJail.silent_none hreal hpath
  -- the sample system, on which nothing fails, with enough fuel
  let E : Env := { Sample.env with fuel := fuel }
  let w : World := ⟨t, [], 0⟩
  have hE : E.NoFaults := fun _ => rfl
  have hgrants : ¬ ParentRefused E t dest := fun ⟨_, _, _, herror⟩ => herror rfl
  obtain ⟨evs₁, w₁, hmkdir, hnode⟩ := mkdirParents_open (w := w.tick) hE hopen hgrants
  have hdir : w₁.fs.node dest.dropLast = some .dir := by
    rw [hnode, if_pos (List.prefix_refl _)]
  -- what comes after the directories, whatever it is
  obtain ⟨evs₂, v, w', hrest⟩ : ∃ evs₂ v w', Runs (do
      let w ← Eff.look
      let tmp := dest.dropLast ++ [tmpName (E.uuid4 w.clock)]
      wayOut E relativePath tmp (← Eff.attempt (writeBody E dest tmp [] Sample.entry)) : Io Unit)
      w₁ evs₂ v w' := ⟨_, _, _, runs_self _ w₁⟩
  have hrun : Runs (atomicWrite E jail relativePath [] Sample.entry) w ([] ++ (evs₁ ++ evs₂)) v
      w' := (jailResolve_runs hE (hresolve fuel le_rfl)).bind (hmkdir.bind hrest)
  have hinside := h E w [] Sample.entry _ v w' rfl hrun
  by_cases hdest : dest = jail.root
  · -- the temporary file stands beside the root
    obtain ⟨r, w₂, evs₃, evs₄, hbody, -, rfl⟩ := hrest.bind_look_inv.bind_attempt_inv
    obtain ⟨op, hmem, hloc⟩ := writeBody_touches hE (by simp)
      (by rw [List.dropLast_concat]; exact hdir) hbody
    have hevent := List.mem_append_right evs₁ (List.mem_append_left evs₄ hmem)
    obtain ⟨hpre, hne⟩ := hinside _ hevent _ hloc
    refine hne (hpre.eq_of_length ?_).symm
    rw [hdest, List.length_append, List.length_dropLast, List.length_singleton]
    have hpos := List.length_pos_iff.mpr hnil
    omega
  · -- the root was missing, and has been made
    have hmissing : t.node jail.root = none := by
      by_contra hthere
      exact hdest (hroot hthere)
    have hmade : Made dest.dropLast w.tick evs₁ w₁ :=
      makesDirs_mkdirParents (by rw [List.reverse_reverse]) _ _ _ _ hmkdir
    have hparent : jail.root <+: dest.dropLast := prefix_dropLast_of_ne hbelow hdest
    rcases hmade.added jail.root with heq | ⟨-, -, hmem⟩
    · rw [hnode, if_pos hparent] at heq
      exact absurd (heq.trans hmissing) (by simp)
    · have hevent := List.mem_append_left evs₂ hmem
      exact (hinside _ hevent jail.root (List.mem_singleton_self _)).2 rfl

end Confined

/-- **When writes stay inside the jail.** For every file system, every root that a jail was made
with and every wire path: every location that `atomic_write` creates, writes, changes, renames or
unlinks lies strictly below the root, whatever fails, exactly when wherever the path leads to meets
the condition. -/
theorem writes_stay_inside_iff (t : Tree) (cwd : {p // t.Real p}) (root : Str) (fuel₀ : Nat)
    (jail : PathJail) (hjail : PathJail.init t fuel₀ cwd root = some jail) (relativePath : Str)
    (hpath : (validateRelativePath relativePath).Ok) :
    WritesStayInside t jail relativePath ↔
      ∀ dest, PathJail.Passes t jail.root jail.root (components relativePath) dest →
        LeadsInside t jail.root dest :=
  have hreal : t.Real jail.root := PathJail.real_root_of_init hjail
  ⟨fun h _ hpasses => leads_of_writes_inside hreal hpath h hpasses,
    writes_inside_of_leads hreal hpath⟩

namespace Sample

theorem tree_real_srv : tree.Real [lit "srv"] :=
  Tree.Real.concat (p := []) Tree.real_root (by decide) (by decide)

/-- A write to `/srv/notes` stays inside `/srv`. -/
theorem notes_stay_inside :
    (validateRelativePath (lit "notes")).Ok ∧
      WritesStayInside tree ⟨[lit "srv"]⟩ (lit "notes") := by
  refine ⟨by decide, ?_⟩
  refine (writes_stay_inside_iff tree ⟨[], Tree.real_root⟩ (lit "/srv") 8 _ (by decide) _
    (by decide)).mpr fun dest hpasses => Or.inr (Or.inr ⟨by decide, ?_⟩)
  -- the path has one component, and that is no link
  have hself : tree.Resolves ([lit "srv"] ++ [lit "notes"]) ([lit "srv"] ++ [lit "notes"]) :=
    PathJail.resolves_of_not_symlink tree_real_srv (by decide) (by decide)
  cases hpasses with
  | go hname hthere hinside hrest =>
    cases hrest
    rw [Tree.Walks.end_unique hthere hself]
    decide

/-- **The path `.` leads to the root**, and the temporary file is created in the directory above
it. -/
theorem dot_write_outside :
    (validateRelativePath (lit ".")).Ok ∧
      PathJail.init tree 8 ⟨[], Tree.real_root⟩ (lit "/srv") = some ⟨[lit "srv"]⟩ ∧
      (∃ rest v w', Runs (atomicWrite env ⟨[lit "srv"]⟩ (lit ".") content entry) world
        (Event.touched .create [tmpName (env.uuid4 1)] :: rest) v w') ∧
      ¬ WritesStayInside tree ⟨[lit "srv"]⟩ (lit ".") := by
  have hrun : ∃ rest v w', Runs (atomicWrite env ⟨[lit "srv"]⟩ (lit ".") content entry) world
      (Event.touched .create [tmpName (env.uuid4 1)] :: rest) v w' := ⟨_, _, _, rfl⟩
  refine ⟨by decide, by decide, hrun, fun hinside => ?_⟩
  obtain ⟨rest, v, w', hrun⟩ := hrun
  obtain ⟨hpre, hne⟩ := hinside env world content entry _ v w' rfl hrun _ List.mem_cons_self _
    (List.mem_singleton_self _)
  exact hne (hpre.eq_of_length rfl).symm

end Sample

end Chiralite
