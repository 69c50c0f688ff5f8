import Chiralite.Filesystem.WriteSafety
import Chiralite.Server.Session

/-!
# The entries that a delete and a rename act on

`_handle_delete` and `_handle_rename` work on the location that `jail.resolve` returns, and that is
where the path leads to, with the last link followed too. The entry that the path *names* is
another one when it is a link: `unlink` then removes the file behind the link, and `rename` moves
what is behind it, while the audit record has the name of the link.

A path `Names` the last of its names in the directory that the others lead to. `DeletesOnlyNamed`
and `RenamesOnlyNamed` say of every run of the handlers, with every call free to fail, that nothing
but the named entries has changed. `named_entries_iff` says on which trees and messages that holds:
a delete must not come upon a file behind a link, and a rename must not have a link at either end,
unless the way is blocked or the kernel refuses what is asked of it.
-/

namespace Chiralite

open Py Posix Effect

namespace PathJail

/-! ### Named entries -/

/-- **The entry that a path names**: the last name, in the directory that the names before it lead
to. A path without names is the root of the jail. -/
inductive Names (t : Tree) (root : Location) : List Str → Location → Prop
  | root : Names t root [] root
  | entry {names : List Str} {dir : Location} {last : Str} (hdir : Passes t root root names dir)
      (hlast : IsName last) : Names t root (names ++ [last]) (dir ++ [last])

section Names

variable {t : Tree} {root here dest dest' named named' : Location} {names : List Str}

theorem Passes.end_unique (h : Passes t root here names dest)
    (h' : Passes t root here names dest') : dest = dest' := by
  induction h with
  | done =>
    cases h'
    rfl
  | go _ hthere _ _ ih =>
    cases h' with
    | go _ hthere' _ hrest' =>
      rw [Tree.Walks.end_unique hthere' hthere] at hrest'
      exact ih hrest'

theorem Names.unique (h : Names t root names named) (h' : Names t root names named') :
    named = named' := by
  cases h with
  | root =>
    generalize hnil : ([] : List Str) = names at h'
    cases h' with
    | root => rfl
    | entry => simp at hnil
  | @entry names dir last hdir =>
    generalize hnames : names ++ [last] = all at h'
    cases h' with
    | root => simp at hnames
    | entry hdir' =>
      obtain ⟨rfl, hlast⟩ := List.append_inj' hnames rfl
      rw [hdir.end_unique hdir', hlast]

theorem Passes.concat_inv {last : Str} (h : Passes t root here (names ++ [last]) dest) :
    ∃ dir, Passes t root here names dir ∧ IsName last ∧ t.Resolves (dir ++ [last]) dest := by
  induction names generalizing here with
  | nil =>
    cases h with
    | go hname hthere _ hrest =>
      cases hrest
      exact ⟨here, .done, hname, hthere⟩
  | cons name names ih =>
    cases h with
    | go hname hthere hinside hrest =>
      obtain ⟨dir, hdir, hlast, hend⟩ := ih hrest
      exact ⟨dir, .go hname hthere hinside hdir, hlast, hend⟩

/-- **A path that passes names an entry**, and if that is no link, it is where the path leads. -/
theorem Passes.exists_names (h : Passes t root root names dest) (hroot : t.Real root) :
    ∃ named, Names t root names named ∧ (t.isSymlink named = false → dest = named) := by
  rcases List.eq_nil_or_concat names with rfl | ⟨init, last, rfl⟩
  · cases h
    exact ⟨root, .root, fun _ => rfl⟩
  · rw [List.concat_eq_append] at h ⊢
    obtain ⟨dir, hdir, hlast, hend⟩ := h.concat_inv
    refine ⟨dir ++ [last], .entry hdir hlast, fun hlink => ?_⟩
    have hreal : t.Real dir := (hdir.real_below hroot (List.prefix_refl _)).1
    exact Tree.Walks.end_unique hend (resolves_of_not_symlink hreal hlast hlink)

theorem Passes.eq_of_names {named : Location} (h : Passes t root root names dest)
    (hroot : t.Real root) (hnamed : Names t root names named)
    (hlink : t.isSymlink named = false) : dest = named := by
  obtain ⟨named', hnamed', hself⟩ := h.exists_names hroot
  rw [hnamed'.unique hnamed] at hself
  exact hself hlink

end Names

end PathJail

open PathJail

/-- The sample system, on which nothing fails, with a jail and as much fuel as needed. -/
def Sample.serviceIn (jail : PathJail) (fuel : Nat) : Service :=
  { service with
    env := { env with fuel := fuel }
    session := { service.session with jail := jail } }

/-! ### Deletes -/

/-- **A delete acts only on the named entry**: in every run either nothing changes, or the delete
is recorded, the entry that the path names is gone and every other one is as it was. -/
def DeletesOnlyNamed (t : Tree) (jail : PathJail) (msg : FileDeleteMsg) : Prop :=
  ∀ (S : Service) (w w' : World) (evs : List Event) (v : Except Exc Unit),
    S.session.jail = jail → w.fs = t → Runs (handleDelete S msg) w evs v w' →
    (∀ q, w'.fs.node q = t.node q) ∨
      (Event.audited (.fileDelete S.session.clientCn S.session.siloId msg.path) ∈ evs ∧
        ∃ named, Names t jail.root (components msg.path) named ∧
          ∀ q, w'.fs.node q = if q = named then none else t.node q)

section Delete

variable {S : Service} {w w' : World} {evs : List Event} {v : Except Exc Unit}

/-- **What a delete does**: nothing, or it removes the location that the path resolves to. -/
theorem handleDelete_inv {msg : FileDeleteMsg} (h : Runs (handleDelete S msg) w evs v w') :
    SameTree w w' ∨ ∃ p w₁,
      S.session.jail.resolve w.fs S.env.fuel S.env.lstatError msg.path = some (.ok p) ∧
      Event.audited (.fileDelete S.session.clientCn S.session.siloId msg.path) ∈ evs ∧
      SameTree w w₁ ∧ w₁.fs.unlink p = .ok w'.fs := by
  obtain ⟨r, w₁, evs₁, evs₂, hresolve, hrest, rfl⟩ := h.bind_attempt_inv
  obtain ⟨htree, rfl, hend⟩ := jailResolve_inv hresolve
  -- a `JailbreakError` is logged, and any other exception goes on
  split at hrest
  · cases hrest
    exact Or.inl htree
  · obtain ⟨-, -, rfl⟩ := hrest.raise_inv
    exact Or.inl htree
  rename_i p
  have hp : S.session.jail.resolve w.fs S.env.fuel S.env.lstatError msg.path = some (.ok p) := by
    rcases hend with ⟨p', hv, hp⟩ | ⟨err, hv, -⟩ | ⟨e, hv, -⟩
    · cases hv
      exact hp
    · cases hv
    · cases hv
  obtain ⟨r', w₂, evs₃, evs₄, hunlink, hlast, rfl⟩ := hrest.bind_attempt_inv
  rcases unlinkMissingOk_cases hunlink with ⟨e, rfl, -, -, htree'⟩ | ⟨rfl, -, -, htree'⟩ |
    ⟨rfl, -, hcall⟩
  · -- the failure is logged, or raised
    refine Or.inl ?_
    split at hlast
    · obtain ⟨-, -, rfl⟩ := hlast.pure_inv
      exact htree'.trans htree
    · obtain ⟨-, -, rfl⟩ := hlast.raise_inv
      exact htree'.trans htree
    · rename_i hv
      cases hv
  · cases hlast
    exact Or.inl (htree'.trans htree)
  · cases hlast
    exact Or.inr ⟨p, w₁, hp, by simp, htree, hcall⟩

/-- A path whose named entry is no link, or that leads to no file, is deleted as named. -/
theorem deletesOnlyNamed_of {t : Tree} {jail : PathJail} {msg : FileDeleteMsg}
    (hroot : t.Real jail.root) (hpath : (validateRelativePath msg.path).Ok)
    (h : ∀ named dest, Names t jail.root (components msg.path) named →
      Passes t jail.root jail.root (components msg.path) dest →
      t.isSymlink named = false ∨ ∀ f, t.node dest ≠ some (.file f)) :
    DeletesOnlyNamed t jail msg := by
  rintro S w w' evs v rfl rfl hrun
  rcases handleDelete_inv hrun with htree | ⟨p, w₁, hp, hrecord, htree, hcall⟩
  · exact Or.inl fun q => by rw [show w'.fs = w.fs from htree]
  obtain ⟨hsome, hdir, hnode⟩ := Tree.unlink_ok hcall
  rw [show w₁.fs = w.fs from htree] at hsome hdir hnode
  have hpasses := passes_of_resolve_of_valid hroot hpath hp
  obtain ⟨named, hnamed, hself⟩ := hpasses.exists_names hroot
  refine Or.inr ⟨hrecord, named, hnamed, ?_⟩
  rcases h named p hnamed hpasses with hlink | hfile
  · rw [← hself hlink]
    exact hnode
  · -- where a path leads there is no link, so that only a file can be removed
    have hreal := (hpasses.real_below hroot (List.prefix_refl _)).1
    have hnotLink := hreal.noLink p (List.prefix_refl _)
    cases hn : w.fs.node p with
    | none => exact absurd hn hsome
    | some node =>
      cases node with
      | file f => exact absurd hn (hfile f)
      | dir => exact absurd hn hdir
      | symlink target =>
        rw [Tree.isSymlink, hn] at hnotLink
        cases hnotLink

/-- A file behind a link is removed in the place of the link, if nothing fails. -/
theorem not_deletesOnlyNamed {t : Tree} {jail : PathJail} {msg : FileDeleteMsg}
    {named dest : Location} {f : FileData} (hroot : t.Real jail.root)
    (hpath : (validateRelativePath msg.path).Ok)
    (hnamed : Names t jail.root (components msg.path) named)
    (hpasses : Passes t jail.root jail.root (components msg.path) dest)
    (hlink : t.isSymlink named = true) (hfile : t.node dest = some (.file f)) :
    ¬ DeletesOnlyNamed t jail msg := by
  intro h
  obtain ⟨fuel, hresolve⟩ := hpasses.resolve_of_valid silent_none hroot hpath
  obtain ⟨t', hunlink⟩ : ∃ t', t.unlink dest = .ok t' := by
    rw [Tree.unlink, dif_neg (by rw [hfile]; simp), if_neg (by rw [hfile]; simp)]
    exact ⟨_, rfl⟩
  let S := Sample.serviceIn jail fuel
  have hE : S.env.NoFaults := fun _ => rfl
  have hgone : Runs (unlinkMissingOk S.env dest) (World.mk t [] 0).tick [.touched .unlink dest]
      (.ok ()) { (World.mk t [] 0).tick.tick with fs := t' } := by
    refine tick_bind hE (Runs.look_bind ?_)
    rw [World.tick_fs, World.tick_fs, hunlink]
    exact Runs.change_bind rfl
  have hrun : Runs (handleDelete S msg) ⟨t, [], 0⟩
      ([] ++ ([.touched .unlink dest] ++ [.audited (.fileDelete _ _ msg.path)])) (.ok ())
      { (World.mk t [] 0).tick.tick with fs := t' } :=
    Runs.attempt_bind (jailResolve_runs hE (hresolve fuel le_rfl)) (Runs.attempt_bind hgone rfl)
  -- the file has changed, and it is not what the path names
  have hchanged : t'.node dest = none := ((Tree.unlink_ok hunlink).2.2 dest).trans (if_pos rfl)
  rcases h S _ _ _ _ rfl rfl hrun with hsame | ⟨-, named', hnamed', hnode⟩
  · have habsurd := hsame dest
    rw [hfile] at habsurd
    cases hchanged.symm.trans habsurd
  · have hne : dest ≠ named' := by
      rintro rfl
      have hreal := (hpasses.real_below hroot (List.prefix_refl _)).1
      rw [hnamed.unique hnamed', hreal.noLink _ (List.prefix_refl _)] at hlink
      cases hlink
    have habsurd := hnode dest
    rw [if_neg hne, hfile] at habsurd
    cases hchanged.symm.trans habsurd

end Delete

/-! ### Renames -/

/-- The entries of a tree, with directories made on the way to the parent of the entry that a path
names. -/
def ParentsMade (t : Tree) (root : Location) (names : List Str)
    (nodes : Location → Option Node) : Prop :=
  ∀ q, nodes q = t.node q ∨ (t.node q = none ∧ nodes q = some .dir ∧
    ∃ named, Names t root names named ∧ q <+: named.dropLast)

/-- **A rename acts only on the named entries**: in every run nothing changes but that parents of
the new path are made, or the rename is recorded and the entry that the old path names has moved
to where the new path says. -/
def RenamesOnlyNamed (t : Tree) (jail : PathJail) (msg : FileRenameMsg) : Prop :=
  ∀ (S : Service) (w w' : World) (evs : List Event) (v : Except Exc Unit),
    S.session.jail = jail → w.fs = t → Runs (handleRename S msg) w evs v w' →
    ∃ nodes, ParentsMade t jail.root (components msg.newPath) nodes ∧
      ((∀ q, w'.fs.node q = nodes q) ∨
        (Event.audited (.fileRename S.session.clientCn S.session.siloId msg.oldPath
            msg.newPath) ∈ evs ∧
          ∃ old new, Names t jail.root (components msg.oldPath) old ∧
            Names t jail.root (components msg.newPath) new ∧
            ∀ q, w'.fs.node q = Tree.movedNode nodes old new q))

/-- **The condition** on a rename whose paths name `old` and `new` and lead to `src` and `dst`:
neither end is a link, or the way is blocked by something that is no directory, or no directory
has to be made elsewhere and there is nothing to move, or nothing that the kernel will move. -/
def RenameHarmless (t : Tree) (old new src dst : Location) : Prop :=
  (t.isSymlink old = false ∧ t.isSymlink new = false) ∨ Blocked t dst ∨
    ((dst = new ∨ t.node dst.dropLast ≠ none) ∧ (src = dst ∨ ¬ t.Movable src dst))

section Rename

variable {S : Service} {w w' : World} {evs : List Event} {v : Except Exc Unit}

theorem resolveEnds_ok {msg : FileRenameMsg} {src dst : Location}
    (h : Runs (resolveEnds S msg) w evs (.ok (src, dst)) w') :
    S.session.jail.resolve w.fs S.env.fuel S.env.lstatError msg.oldPath = some (.ok src) ∧
      S.session.jail.resolve w.fs S.env.fuel S.env.lstatError msg.newPath = some (.ok dst) := by
  -- what `jail.resolve` answers does not depend on the clock
  have hok : ∀ {path p w₁ w₂ evs₁}, SameTree w w₁ →
      Runs (jailResolve S.env S.session.jail path) w₁ evs₁ (.ok p) w₂ →
      SameTree w w₂ ∧
        S.session.jail.resolve w.fs S.env.fuel S.env.lstatError path = some (.ok p) := by
    intro path p w₁ w₂ evs₁ htree hrun
    obtain ⟨htree', -, hend⟩ := jailResolve_inv hrun
    refine ⟨htree'.trans htree, ?_⟩
    rw [show w₁.fs = w.fs from htree] at hend
    rcases hend with ⟨p', hv, hp⟩ | ⟨err, hv, -⟩ | ⟨e, hv, -⟩
    · cases hv
      exact hp
    · cases hv
    · cases hv
  obtain ⟨src', w₁, evs₁, evs₂, hsrc, hrest, -⟩ := h.bind_ok_inv
  obtain ⟨dst', w₂, evs₃, evs₄, hdst, hpure, -⟩ := hrest.bind_ok_inv
  obtain ⟨hv, -, -⟩ := hpure.pure_inv
  cases hv
  obtain ⟨htree, hsrc⟩ := hok rfl hsrc
  exact ⟨hsrc, (hok htree hdst).2⟩

theorem resolveEnds_sameTree {msg : FileRenameMsg} {v : Except Exc (Location × Location)}
    (h : Runs (resolveEnds S msg) w evs v w') : SameTree w w' := by
  rcases h.bind_inv with ⟨e, hsrc, -⟩ | ⟨src, w₁, evs₁, evs₂, hsrc, hrest, -⟩
  · exact (jailResolve_inv hsrc).1
  rcases hrest.bind_inv with ⟨e, hdst, -⟩ | ⟨dst, w₂, evs₃, evs₄, hdst, hpure, -⟩
  · exact (jailResolve_inv hdst).1.trans (jailResolve_inv hsrc).1
  · obtain ⟨-, -, rfl⟩ := hpure.pure_inv
    exact (jailResolve_inv hdst).1.trans (jailResolve_inv hsrc).1

/-- **What a rename does**: nothing, or it makes directories on the way to the location that the
new path resolves to, and then it moves what the old one resolves to, or fails. -/
theorem handleRename_inv {msg : FileRenameMsg} (h : Runs (handleRename S msg) w evs v w') :
    SameTree w w' ∨ ∃ src dst evs₁ w₁,
      S.session.jail.resolve w.fs S.env.fuel S.env.lstatError msg.oldPath = some (.ok src) ∧
      S.session.jail.resolve w.fs S.env.fuel S.env.lstatError msg.newPath = some (.ok dst) ∧
      Made dst.dropLast w evs₁ w₁ ∧
      (SameTree w₁ w' ∨
        (Event.audited (.fileRename S.session.clientCn S.session.siloId msg.oldPath
            msg.newPath) ∈ evs ∧
          w₁.fs.node dst.dropLast = some .dir ∧ w₁.fs.rename src dst = .ok w'.fs)) := by
  obtain ⟨r, w₀, evs₀, evs', hends, hrest, rfl⟩ := h.bind_attempt_inv
  have htree := resolveEnds_sameTree hends
  split at hrest
  · cases hrest
    exact Or.inl htree
  · obtain ⟨-, -, rfl⟩ := hrest.raise_inv
    exact Or.inl htree
  rename_i src dst
  obtain ⟨hsrc, hdst⟩ := resolveEnds_ok hends
  obtain ⟨r', w₂, evs₂, evs₃, hmove, hlast, rfl⟩ := hrest.bind_attempt_inv
  have hstart : Made dst.dropLast w [] w₀ := Made.of_sameTree htree
  -- how the body of the second `try` ended decides whether there is a record
  have hend : ∀ {e}, r' = .error e → SameTree w₂ w' := by
    rintro e rfl
    split at hlast
    · obtain ⟨-, -, rfl⟩ := hlast.pure_inv
      rfl
    · obtain ⟨-, -, rfl⟩ := hlast.raise_inv
      rfl
    · rename_i hv
      cases hv
  rcases hmove.bind_inv with ⟨e, hmkdir, rfl⟩ | ⟨_, w₁, evs₄, evs₅, hmkdir, hrename, rfl⟩
  · have hmade := makesDirs_mkdirParents (by rw [List.reverse_reverse]) _ _ _ _ hmkdir
    exact Or.inr ⟨src, dst, _, w₂, hsrc, hdst, hstart.trans hmade, Or.inl (hend rfl)⟩
  have hmade := makesDirs_mkdirParents (by rw [List.reverse_reverse]) _ _ _ _ hmkdir
  refine Or.inr ⟨src, dst, _, w₁, hsrc, hdst, hstart.trans hmade, ?_⟩
  rcases fsCall_inv hrename with ⟨e, rfl, -, -, htree'⟩ | ⟨rfl, -, hcall⟩
  · exact Or.inl ((hend rfl).trans htree')
  · have hdir := mkdirParents_ok hmkdir
    rw [List.reverse_reverse] at hdir
    cases hlast
    exact Or.inr ⟨by simp, hdir, hcall⟩

/-- When the last directory is there, all directories on the way are, and nothing else changed. -/
theorem Made.node_of_isDir {dest : Location} (h : Made dest.dropLast w evs w')
    (hdir : w'.fs.node dest.dropLast = some .dir) (q : Location) :
    w'.fs.node q = if q <+: dest.dropLast then some .dir else w.fs.node q := by
  by_cases hq : q <+: dest.dropLast
  · have hq' := Chiralite.node_of_isDir hdir q
    rw [if_pos hq] at hq' ⊢
    exact hq'
  · rw [if_neg hq]
    by_contra hchanged
    exact hq (h.isPrefix hchanged)

/-- Directories that were made on the way to the named entry, or none at all. -/
theorem Made.parentsMade {root dest new : Location} {names : List Str}
    (h : Made dest.dropLast w evs w') (hnew : Names w.fs root names new)
    (hdest : dest = new ∨ Blocked w.fs dest ∨ w.fs.node dest.dropLast ≠ none) :
    ParentsMade w.fs root names w'.fs.node := by
  intro q
  rcases h.added q with heq | ⟨hnone, hdir, hmem⟩
  · exact Or.inl heq
  have hpre : q <+: dest.dropLast := h.isPrefix (by rw [hnone, hdir]; simp)
  rcases hdest with rfl | hblocked | hthere
  · exact Or.inr ⟨hnone, hdir, dest, hnew, hpre⟩
  · rw [h.eq_nil_of_blocked hblocked] at hmem
    cases hmem
  · -- what is on the way to something that was there was there
    by_cases hq : q = dest.dropLast
    · exact absurd (hq ▸ hnone) hthere
    · rw [Tree.isDir_of_isPrefix hpre hq hthere] at hnone
      cases hnone

/-- Under the condition, only the named entries change. -/
theorem renamesOnlyNamed_of {t : Tree} {jail : PathJail} {msg : FileRenameMsg}
    (hroot : t.Real jail.root) (hold : (validateRelativePath msg.oldPath).Ok)
    (hnew : (validateRelativePath msg.newPath).Ok)
    (h : ∀ old new src dst, Names t jail.root (components msg.oldPath) old →
      Names t jail.root (components msg.newPath) new →
      Passes t jail.root jail.root (components msg.oldPath) src →
      Passes t jail.root jail.root (components msg.newPath) dst →
      RenameHarmless t old new src dst) : RenamesOnlyNamed t jail msg := by
  rintro S w w' evs v rfl rfl hrun
  rcases handleRename_inv hrun with htree | ⟨src, dst, evs₁, w₁, hsrc, hdst, hmade, hend⟩
  · exact ⟨w.fs.node, fun q => Or.inl rfl, Or.inl fun q => by rw [show w'.fs = w.fs from htree]⟩
  have hpassesSrc := passes_of_resolve_of_valid hroot hold hsrc
  have hpassesDst := passes_of_resolve_of_valid hroot hnew hdst
  obtain ⟨old, hnamesOld, hselfOld⟩ := hpassesSrc.exists_names hroot
  obtain ⟨new, hnamesNew, hselfNew⟩ := hpassesDst.exists_names hroot
  have hcond := h old new src dst hnamesOld hnamesNew hpassesSrc hpassesDst
  -- in every case of the condition, directories are made for the named entry or not at all
  have hparents : dst = new ∨ Blocked w.fs dst ∨ w.fs.node dst.dropLast ≠ none := by
    rcases hcond with ⟨-, hlink⟩ | hblocked | ⟨heq | hthere, -⟩
    · exact Or.inl (hselfNew hlink)
    · exact Or.inr (Or.inl hblocked)
    · exact Or.inl heq
    · exact Or.inr (Or.inr hthere)
  refine ⟨w₁.fs.node, hmade.parentsMade hnamesNew hparents, ?_⟩
  rcases hend with htree | ⟨hrecord, hdir, hcall⟩
  · exact Or.inl fun q => by rw [show w'.fs = w₁.fs from htree]
  by_cases hne : src = dst
  · rw [hne] at hcall
    exact Or.inl fun q => by rw [Tree.rename_self_ok hcall]
  obtain ⟨hmovable, hnode⟩ := Tree.rename_ok hne hcall
  rcases hcond with ⟨hlinkOld, hlinkNew⟩ | ⟨q, hq, hsome, hnotDir⟩ | ⟨-, heq | hrefused⟩
  · refine Or.inr ⟨hrecord, old, new, hnamesOld, hnamesNew, ?_⟩
    rw [← hselfOld hlinkOld, ← hselfNew hlinkNew]
    exact hnode
  · -- the rename is not reached when the way is blocked
    have hq' := hmade.node_of_isDir hdir q
    rw [if_pos hq, hmade.node_eq hsome] at hq'
    exact absurd hq' hnotDir
  · exact absurd heq hne
  · exact absurd ((Tree.movable_congr (hmade.node_of_isDir hdir)).mp hmovable) hrefused

/-- A rename for which nothing fails: the directories are made, and the call is made. -/
theorem handleRename_runs {t : Tree} {jail : PathJail} {msg : FileRenameMsg} {src dst : Location}
    (hroot : t.Real jail.root) (hold : (validateRelativePath msg.oldPath).Ok)
    (hnew : (validateRelativePath msg.newPath).Ok)
    (hsrc : Passes t jail.root jail.root (components msg.oldPath) src)
    (hdst : Passes t jail.root jail.root (components msg.newPath) dst)
    (hopen : ¬ Blocked t dst) :
    ∃ S w evs v w' t₁, S.session.jail = jail ∧ w.fs = t ∧ Runs (handleRename S msg) w evs v w' ∧
      (∀ q, t₁.node q = if q <+: dst.dropLast then some .dir else t.node q) ∧
      ((∃ errno, t₁.rename src dst = .error errno ∧ w'.fs = t₁) ∨
        t₁.rename src dst = .ok w'.fs) := by
  obtain ⟨n, hn⟩ := hsrc.resolve_of_valid silent_none hroot hold
  obtain ⟨m, hm⟩ := hdst.resolve_of_valid silent_none hroot hnew
  -- nothing fails here, and the fuel is enough for both ends
  let S := Sample.serviceIn jail (n + m)
  let w : World := ⟨t, [], 0⟩
  have hE : S.env.NoFaults := fun _ => rfl
  have hends : Runs (resolveEnds S msg) w ([] ++ ([] ++ [])) (.ok (src, dst)) w.tick.tick :=
    (jailResolve_runs hE (hn (n + m) (by omega))).bind
      ((jailResolve_runs hE (hm (n + m) (by omega))).bind rfl)
  have hgrants : ¬ ParentRefused S.env t dst := fun ⟨_, _, _, herror⟩ => herror rfl
  obtain ⟨evs₁, w₁, hmkdir, hnode⟩ := mkdirParents_open (w := w.tick.tick) hE hopen hgrants
  -- the system may still refuse the call, which is logged
  cases hcall : w₁.fs.rename src dst with
  | error errno =>
    have hmove : Runs (moveEntry S src dst) w.tick.tick (evs₁ ++ []) (.error _) w₁.tick :=
      hmkdir.bind (fsCall_runs_error hE hcall)
    have hrun : Runs (handleRename S msg) w _ (.ok ()) w₁.tick :=
      Runs.attempt_bind hends (Runs.attempt_bind hmove rfl)
    exact ⟨S, w, _, _, _, w₁.fs, rfl, rfl, hrun, hnode, Or.inl ⟨errno, hcall, rfl⟩⟩
  | ok t' =>
    have hmove : Runs (moveEntry S src dst) w.tick.tick (evs₁ ++ [.touched (.rename dst) src])
        (.ok ()) { w₁.tick with fs := t' } := hmkdir.bind (fsCall_runs hE hcall)
    have hrun : Runs (handleRename S msg) w _ (.ok ()) { w₁.tick with fs := t' } :=
      Runs.attempt_bind hends (Runs.attempt_bind hmove rfl)
    exact ⟨S, w, _, _, _, w₁.fs, rfl, rfl, hrun, hnode, Or.inr hcall⟩

/-- No parent has to be made for a link that is there. -/
theorem ParentsMade.node_eq {t : Tree} {root new : Location} {names : List Str}
    {nodes : Location → Option Node} (h : ParentsMade t root names nodes)
    (hnew : Names t root names new) (hlink : t.isSymlink new = true) (q : Location) :
    nodes q = t.node q := by
  rcases h q with heq | ⟨hnone, -, new', hnew', hpre⟩
  · exact heq
  obtain ⟨target, htarget⟩ := Tree.isSymlink_iff.mp hlink
  have hnil : new ≠ [] := by
    rintro rfl
    rw [Tree.isSymlink_root] at hlink
    cases hlink
  have hparent : t.node new.dropLast = some .dir :=
    Tree.parent_of_ne_nil hnil (by rw [htarget]; simp)
  rw [hnew'.unique hnew] at hpre
  have hq := node_of_isDir hparent q
  rw [if_pos hpre, hnone] at hq
  cases hq

/-- **What is behind the links is not what they name.** A move between the locations that the two
paths lead to is none between the entries that they name, when one of these is a link. -/
theorem moved_ne_named {t t₁ : Tree} {root old new src dst : Location} {names : List Str}
    {nodes : Location → Option Node} (hsrc : t.Real src) (hdst : t.Real dst)
    (hselfOld : t.isSymlink old = false → src = old)
    (hselfNew : t.isSymlink new = false → dst = new)
    (hlinks : ¬ (t.isSymlink old = false ∧ t.isSymlink new = false)) (hne : src ≠ dst)
    (hmovable : t.Movable src dst)
    (hnode : ∀ q, t₁.node q = if q <+: dst.dropLast then some .dir else t.node q)
    (hnew : Names t root names new) (hnodes : ParentsMade t root names nodes) :
    (¬ ∀ q, Tree.movedNode t₁.node src dst q = nodes q) ∧
      ¬ ∀ q, Tree.movedNode t₁.node src dst q = Tree.movedNode nodes old new q := by
  -- the source is gone
  have hnotBelow : ¬ dst <+: src := hmovable.not_above hne
  have hgone : Tree.movedNode t₁.node src dst src = none := hmovable.movedNode_self hne t₁.node
  have hkept : nodes src = t.node src := by
    rcases hnodes src with heq | ⟨hnone, -, -⟩
    · exact heq
    · exact absurd hnone hmovable.there
  have hnotLink : ∀ q, q <+: src → t.isSymlink q = false := hsrc.noLink
  refine ⟨fun h => ?_, fun h => ?_⟩
  · have hsame := h src
    rw [hgone, hkept] at hsame
    exact hmovable.there hsame.symm
  -- so it has been moved as what the old path names, and that is no link
  have hnewAbove : ¬ new <+: src := by
    intro hpre
    rw [← hselfNew (hnotLink new hpre)] at hpre
    exact hnotBelow hpre
  have holdAbove : old <+: src := by
    by_contra hnot
    have hsame := h src
    rw [hgone, Tree.movedNode, if_neg hnewAbove, if_neg hnot, hkept] at hsame
    exact hmovable.there hsame.symm
  have holdLink : t.isSymlink old = false := hnotLink old holdAbove
  have hnewLink : t.isSymlink new = true := by
    rw [← Bool.not_eq_false]
    exact fun hfalse => hlinks ⟨holdLink, hfalse⟩
  obtain ⟨target, htarget⟩ := Tree.isSymlink_iff.mp hnewLink
  -- the new path names a link, which is still there
  have hdstAbove : ¬ dst <+: new := hmovable.not_above_link hdst hnewLink
  have hsame := h new
  rw [Tree.movedNode, if_neg hdstAbove, Tree.movedNode, if_pos (List.prefix_refl _),
    List.drop_length, List.append_nil, hnodes.node_eq hnew hnewLink, ← hselfOld holdLink] at hsame
  by_cases hsrcAbove : src <+: new
  · rw [if_pos hsrcAbove] at hsame
    exact hmovable.there hsame.symm
  · have hnewNode : t₁.node new = t.node new := by
      rw [hnode new]
      split
      · rename_i hpre
        rw [hdst.noLink new (hpre.trans (List.dropLast_prefix dst))] at hnewLink
        cases hnewLink
      · rfl
    rw [if_neg hsrcAbove, hnewNode, htarget] at hsame
    have hsrcLink := hnotLink src (List.prefix_refl _)
    rw [Tree.isSymlink, ← hsame] at hsrcLink
    cases hsrcLink

/-- **A directory that is made behind a link is seen.** The named entries have not changed when
the parent of the location behind a link has been made. -/
theorem made_ne_named {t : Tree} {root new dst : Location} {names : List Str}
    {nodes after : Location → Option Node} (hdst : t.Real dst) (hnew : Names t root names new)
    (hlink : t.isSymlink new = true) (hnodes : ParentsMade t root names nodes)
    (hmissing : t.node dst.dropLast = none) (hmade : after dst.dropLast = some .dir) :
    (¬ ∀ q, after q = nodes q) ∧ ∀ old, ¬ ∀ q, after q = Tree.movedNode nodes old new q := by
  have hstill : nodes dst.dropLast = none := (hnodes.node_eq hnew hlink _).trans hmissing
  refine ⟨fun h => ?_, fun old h => ?_⟩
  · rw [h, hstill] at hmade
    cases hmade
  · have hnewAbove : ¬ new <+: dst.dropLast := by
      intro hpre
      rw [hdst.noLink new (hpre.trans (List.dropLast_prefix dst))] at hlink
      cases hlink
    rw [h, Tree.movedNode, if_neg hnewAbove, hstill, ite_self] at hmade
    cases hmade

/-- Where the condition does not hold, a run with nothing to fail changes other entries. -/
theorem not_renamesOnlyNamed {t : Tree} {jail : PathJail} {msg : FileRenameMsg}
    {old new src dst : Location} (hroot : t.Real jail.root)
    (hold : (validateRelativePath msg.oldPath).Ok) (hnew : (validateRelativePath msg.newPath).Ok)
    (hnamesOld : Names t jail.root (components msg.oldPath) old)
    (hnamesNew : Names t jail.root (components msg.newPath) new)
    (hpassesSrc : Passes t jail.root jail.root (components msg.oldPath) src)
    (hpassesDst : Passes t jail.root jail.root (components msg.newPath) dst)
    (hharm : ¬ RenameHarmless t old new src dst) : ¬ RenamesOnlyNamed t jail msg := by
  intro h
  -- nothing blocks the way, so that the handler comes to the call of `rename`
  obtain ⟨hlinks, hopen, hrest⟩ : ¬ (t.isSymlink old = false ∧ t.isSymlink new = false) ∧
      ¬ Blocked t dst ∧
      ¬ ((dst = new ∨ t.node dst.dropLast ≠ none) ∧ (src = dst ∨ ¬ t.Movable src dst)) := by
    simpa only [RenameHarmless, not_or] using hharm
  obtain ⟨S, w, evs, v, w', t₁, hjail, rfl, hrun, hnode, hend⟩ :=
    handleRename_runs hroot hold hnew hpassesSrc hpassesDst hopen
  obtain ⟨nodes, hnodes, hafter⟩ := h S w w' evs v hjail rfl hrun
  have hrealSrc := (hpassesSrc.real_below hroot (List.prefix_refl _)).1
  have hrealDst := (hpassesDst.real_below hroot (List.prefix_refl _)).1
  have hselfNew := hpassesDst.eq_of_names hroot hnamesNew
  have hdir : t₁.node dst.dropLast = some .dir := by
    rw [hnode, if_pos (List.prefix_refl _)]
  by_cases hparents : dst = new ∨ w.fs.node dst.dropLast ≠ none
  · -- what the old path leads to is moved
    obtain ⟨hne, hmovable⟩ : src ≠ dst ∧ w.fs.Movable src dst := by
      simpa only [hparents, true_and, not_or, not_not] using hrest
    obtain ⟨t', hcall⟩ := Tree.rename_of_movable hne
      ((Tree.movable_congr hnode).mpr hmovable) hdir
    have hmoved : ∀ q, w'.fs.node q = Tree.movedNode t₁.node src dst q := by
      rcases hend with ⟨errno, herror, -⟩ | hok
      · cases hcall.symm.trans herror
      · exact (Tree.rename_ok hne hok).2
    -- one of the two names is a link, and its target is moved: no named rename does that
    obtain ⟨hsame, hother⟩ := moved_ne_named hrealSrc hrealDst
      (hpassesSrc.eq_of_names hroot hnamesOld) hselfNew hlinks hne hmovable hnode hnamesNew hnodes
    rcases hafter with hunchanged | ⟨-, old', new', hnamesOld', hnamesNew', hnamed⟩
    · exact hsame fun q => (hmoved q).symm.trans (hunchanged q)
    · rw [hnamesOld'.unique hnamesOld, hnamesNew'.unique hnamesNew] at hnamed
      exact hother fun q => (hmoved q).symm.trans (hnamed q)
  · -- a directory is made behind a link
    obtain ⟨hne, hmissing⟩ : dst ≠ new ∧ w.fs.node dst.dropLast = none := by
      simpa only [not_or, not_not] using hparents
    have hlink : w.fs.isSymlink new = true := by
      rw [← Bool.not_eq_false]
      exact fun hfalse => hne (hselfNew hfalse)
    have hnil : dst ≠ [] := by
      rintro rfl
      rw [List.dropLast_nil, w.fs.root_isDir] at hmissing
      cases hmissing
    -- it stays there whether the rename succeeds or not
    have hmade : w'.fs.node dst.dropLast = some .dir := by
      rcases hend with ⟨errno, -, htree⟩ | hok
      · rw [htree]
        exact hdir
      · exact Tree.rename_keeps_parent hnil hok hdir
    obtain ⟨hsame, hother⟩ := made_ne_named hrealDst hnamesNew hlink hnodes hmissing hmade
    rcases hafter with hunchanged | ⟨-, old', new', -, hnamesNew', hnamed⟩
    · exact hsame hunchanged
    · rw [hnamesNew'.unique hnamesNew] at hnamed
      exact hother old' hnamed

end Rename

/-- **When deletes and renames act only on the named entries.** For every file system, every root
that a jail was made with and every delete and rename that the wire validator lets through: a
delete changes nothing but the named entry, whatever fails, exactly when the path names no link
with a file behind it; a rename changes nothing but the two named entries exactly when its ends
meet the condition. -/
theorem named_entries_iff (t : Tree) (cwd : {p // t.Real p}) (root : Str) (fuel₀ : Nat)
    (jail : PathJail) (hjail : PathJail.init t fuel₀ cwd root = some jail) :
    (∀ msg : FileDeleteMsg, (AnyMsg.fileDelete msg).Valid →
      (DeletesOnlyNamed t jail msg ↔
        ∀ named dest, Names t jail.root (components msg.path) named →
          Passes t jail.root jail.root (components msg.path) dest →
          t.isSymlink named = false ∨ ∀ f, t.node dest ≠ some (.file f))) ∧
    ∀ msg : FileRenameMsg, (AnyMsg.fileRename msg).Valid →
      (RenamesOnlyNamed t jail msg ↔
        ∀ old new src dst, Names t jail.root (components msg.oldPath) old →
          Names t jail.root (components msg.newPath) new →
          Passes t jail.root jail.root (components msg.oldPath) src →
          Passes t jail.root jail.root (components msg.newPath) dst →
          RenameHarmless t old new src dst) := by
  have hroot : t.Real jail.root := real_root_of_init hjail
  refine ⟨fun msg hvalid => ⟨fun h named dest hnamed hpasses => ?_,
    deletesOnlyNamed_of hroot hvalid.1⟩, fun msg hvalid => ⟨fun h old new src dst hold hnew hsrc
    hdst => ?_, renamesOnlyNamed_of hroot hvalid.1 hvalid.2.1⟩⟩
  · by_contra hharm
    obtain ⟨hlink, f, hfile⟩ : t.isSymlink named = true ∧ ∃ f, t.node dest = some (.file f) := by
      simpa only [not_or, Bool.not_eq_false, not_forall, not_not] using hharm
    exact not_deletesOnlyNamed hroot hvalid.1 hnamed hpasses hlink hfile h
  · by_contra hharm
    exact not_renamesOnlyNamed hroot hvalid.1 hvalid.2.1 hold hnew hsrc hdst hharm h

namespace Sample

/-- `/srv/latest`, a link to the notes. -/
def linkedTree : Tree :=
  tree.insert [lit "srv", lit "latest"] (.symlink (lit "notes")) (by decide) (by decide)
    (by decide)

/-- The file itself is deleted and renamed as it is named, in a silo with a link. -/
theorem notes_acted_on_as_named :
    PathJail.init linkedTree 8 ⟨[], Tree.real_root⟩ (lit "/srv") = some ⟨[lit "srv"]⟩ ∧
      DeletesOnlyNamed linkedTree ⟨[lit "srv"]⟩ ⟨lit "notes", 0⟩ ∧
      RenamesOnlyNamed linkedTree ⟨[lit "srv"]⟩ ⟨lit "notes", lit "todo", 0⟩ := by
  have hinit : PathJail.init linkedTree 8 ⟨[], Tree.real_root⟩ (lit "/srv") =
      some ⟨[lit "srv"]⟩ := by decide
  -- one name is looked for in the root itself
  have hnames : ∀ (name : Str) {named : Location}, IsName name →
      Names linkedTree [lit "srv"] [name] named → named = [lit "srv", name] := by
    intro name named hname h
    exact h.unique (.entry .done hname)
  obtain ⟨hdelete, hrename⟩ := named_entries_iff linkedTree ⟨[], Tree.real_root⟩ (lit "/srv") 8 _
    hinit
  refine ⟨hinit, (hdelete _ ⟨by decide, by decide⟩).mpr fun named dest hnamed _ => Or.inl ?_,
    (hrename _ ⟨by decide, by decide, by decide⟩).mpr fun old new src dst hold hnew _ _ =>
      Or.inl ⟨?_, ?_⟩⟩
  · rw [hnames (lit "notes") (by decide) hnamed]
    decide
  · rw [hnames (lit "notes") (by decide) hold]
    decide
  · rw [hnames (lit "todo") (by decide) hnew]
    decide

/-- **A delete of the link removes the file**, and leaves the link. -/
theorem delete_of_link_removes_file :
    (AnyMsg.fileDelete ⟨lit "latest", 0⟩).Valid ∧
      (∃ evs w', Runs (handleDelete service ⟨lit "latest", 0⟩) ⟨linkedTree, [], 0⟩ evs (.ok ()) w' ∧
        w'.fs.node [lit "srv", lit "latest"] = some (.symlink (lit "notes")) ∧
        w'.fs.node [lit "srv", lit "notes"] = none) ∧
      ¬ DeletesOnlyNamed linkedTree ⟨[lit "srv"]⟩ ⟨lit "latest", 0⟩ := by
  have hrun : ∃ evs w', Runs (handleDelete service ⟨lit "latest", 0⟩) ⟨linkedTree, [], 0⟩ evs
      (.ok ()) w' ∧ w'.fs.node [lit "srv", lit "latest"] = some (.symlink (lit "notes")) ∧
      w'.fs.node [lit "srv", lit "notes"] = none := ⟨_, _, rfl, by decide, by decide⟩
  refine ⟨⟨by decide, by decide⟩, hrun, fun h => ?_⟩
  obtain ⟨evs, w', hrun, -, hgone⟩ := hrun
  have hthere : linkedTree.node [lit "srv", lit "notes"] ≠ none := by decide
  rcases h service ⟨linkedTree, [], 0⟩ w' evs _ rfl rfl hrun with hsame | ⟨-, named, hnamed, hnode⟩
  · exact hthere ((hsame _).symm.trans hgone)
  · have hname : named = [lit "srv", lit "latest"] :=
      hnamed.unique (.entry .done (by decide))
    rw [hnode, hname, if_neg (by decide)] at hgone
    exact hthere hgone

end Sample

end Chiralite
