import Chiralite.Server.NamedEntries

/-!
# Silos without links

The silo of a client that syncs plain files: no symbolic link lies on the way to any of its paths,
and no path is a directory on the way to another. On such a silo a handler that meets with no
failure does exactly what its message says, and the result is such a silo again. So the files of
the silo can be looked at as a map from paths to contents, and the handlers as changes to that map:
a transfer sets a path, a delete removes one, and a rename moves one if it is there.

`PutAt` is what all three come to on the tree: one entry is put or removed, and directories are
made on the way to it at most.
-/

namespace Chiralite

open Py Posix Effect

/-! ### One entry changes -/

/-- **One entry was put or removed**, and nothing else has changed but that directories were made
on the way to it. -/
structure PutAt (dest : Location) (n : Option Node) (t t' : Tree) : Prop where
  self : t'.node dest = n
  other : ∀ q, q ≠ dest → t'.node q = t.node q ∨
    (t.node q = none ∧ t'.node q = some .dir ∧ q <+: dest.dropLast)

section PutAt

variable {dest : Location} {n : Option Node} {t t' t'' : Tree}

theorem PutAt.refl (t : Tree) (dest : Location) : PutAt dest (t.node dest) t t where
  self := rfl
  other _ _ := Or.inl rfl

/-- Directories on the way to the entry do not matter. -/
theorem PutAt.after (hmade : ∀ q, t'.node q = if q <+: dest.dropLast then some .dir else t.node q)
    (hopen : ∀ q, q <+: dest.dropLast → t.node q = none ∨ t.node q = some .dir)
    (h : PutAt dest n t' t'') : PutAt dest n t t'' where
  self := h.self
  other q hq := by
    have hstep : t'.node q = t.node q ∨
        (t.node q = none ∧ t'.node q = some .dir ∧ q <+: dest.dropLast) := by
      rw [hmade q]
      by_cases hpre : q <+: dest.dropLast
      · rw [if_pos hpre]
        rcases hopen q hpre with hnone | hdir
        · exact Or.inr ⟨hnone, rfl, hpre⟩
        · exact Or.inl hdir.symm
      · exact Or.inl (if_neg hpre)
    rcases h.other q hq with heq | ⟨hnone, hdir, hpre⟩
    · rw [heq]
      exact hstep
    · rcases hstep with heq | ⟨-, hdir', -⟩
      · exact Or.inr ⟨heq ▸ hnone, hdir, hpre⟩
      · -- a directory that was made is not missing
        rw [hdir'] at hnone
        cases hnone

end PutAt

/-! ### The paths of a silo -/

/-- **Paths that can be files of one silo together**: the wire accepts each, each names something,
none is on the way to another, and none goes through a temporary name. The file system shows what
is there, and makes the directories that are missing. -/
structure FilePaths (E : Env) (paths : Set Str) : Prop where
  valid : ∀ p ∈ paths, (validateRelativePath p).Ok
  named : ∀ p ∈ paths, components p ≠ []
  apart : ∀ p ∈ paths, ∀ q ∈ paths, components p <+: components q → p = q
  noTmp : ∀ p ∈ paths, ∀ c ∈ components p, ∀ k, c ≠ tmpName (E.uuid4 k)
  silent : PathJail.Silent E.lstatError
  grants : ∀ q, E.mkdirError q = none

/-- **A silo without links**: its root is a directory that no link leads to, what is on the way to
a path is a directory if it is there, what a path names is a file if it is there, no temporary
name is taken, and every path can be given to the system, with fuel enough. -/
structure PlainSilo (E : Env) (jail : PathJail) (paths : Set Str) (t : Tree) : Prop where
  real : t.Real jail.root
  isDir : t.node jail.root = some .dir
  dirs : ∀ p ∈ paths, ∀ q, q <+: (jail.root ++ components p).dropLast →
    t.node q = none ∨ t.node q = some .dir
  leaf : ∀ p ∈ paths, t.node (jail.root ++ components p) = none ∨
    ∃ f, t.node (jail.root ++ components p) = some (.file f)
  fresh : FreshTmp E t
  encodable : ∀ p ∈ paths, FsEncodable (jail.root ++ components p)
  fuel : ∀ p ∈ paths, (jail.root ++ components p).length ≤ E.fuel

/-- The files of a silo: the content of what a path names. -/
def siloFiles (jail : PathJail) (t : Tree) (p : Str) : Option Bytes :=
  (t.file (jail.root ++ components p)).map FileData.content

section Paths

variable {E : Env} {jail : PathJail} {paths : Set Str} {t t' : Tree} {p q : Str}

theorem FilePaths.ne_nil (hP : FilePaths E paths) (hp : p ∈ paths) :
    jail.root ++ components p ≠ [] := by
  intro h
  exact hP.named p hp (List.append_eq_nil_iff.mp h).2

theorem FilePaths.dropLast_eq (hP : FilePaths E paths) (hp : p ∈ paths) :
    (jail.root ++ components p).dropLast = jail.root ++ (components p).dropLast :=
  List.dropLast_append_of_ne_nil (hP.named p hp)

/-- One path names one entry. -/
theorem FilePaths.dest_inj (hP : FilePaths E paths) (hp : p ∈ paths) (hq : q ∈ paths)
    (h : jail.root ++ components p = jail.root ++ components q) : p = q := by
  refine hP.apart p hp q hq ?_
  rw [List.append_cancel_left h]

/-- No path is on the way to one. -/
theorem FilePaths.not_above (hP : FilePaths E paths) (hp : p ∈ paths) (hq : q ∈ paths) :
    ¬ jail.root ++ components p <+: (jail.root ++ components q).dropLast := by
  rw [hP.dropLast_eq hq, List.prefix_append_right_inj]
  intro hpre
  have heq : p = q := hP.apart p hp q hq (hpre.trans (List.dropLast_prefix _))
  have hlen := hpre.length_le
  have hpos := List.length_pos_iff.mpr (hP.named q hq)
  rw [heq, List.length_dropLast] at hlen
  omega

/-- No temporary name is on the way to a path, nor at its end. -/
theorem PlainSilo.tmp_not_above (hP : FilePaths E paths) (h : PlainSilo E jail paths t)
    (hp : p ∈ paths) (dir : Location) (k : Nat) :
    ¬ dir ++ [tmpName (E.uuid4 k)] <+: jail.root ++ components p := by
  intro hpre
  have hinside : ¬ dir ++ [tmpName (E.uuid4 k)] <+: jail.root := by
    intro hroot
    -- inside the root everything is there already
    have hthere : t.node (dir ++ [tmpName (E.uuid4 k)]) ≠ none := by
      rw [(node_of_isDir h.isDir _).trans (if_pos hroot)]
      simp
    exact hthere (h.fresh dir k)
  rcases List.prefix_or_prefix_of_prefix hpre (List.prefix_append jail.root _) with hroot | hbelow
  · exact hinside hroot
  obtain ⟨rest, hrest⟩ := hbelow
  obtain rfl | ⟨names, last, rfl⟩ := List.eq_nil_or_concat' rest
  · rw [List.append_nil] at hrest
    exact hinside (hrest ▸ List.prefix_refl _)
  · -- the temporary name is one of the components
    rw [← List.append_assoc] at hrest
    obtain ⟨-, hlast⟩ := List.append_inj' hrest rfl
    rw [← hrest, List.append_assoc, List.prefix_append_right_inj] at hpre
    have hmem : last ∈ components p := hpre.subset (by simp)
    exact hP.noTmp p hp last hmem k (List.cons.inj hlast).1

/-- The location of a path can be written. -/
theorem PlainSilo.writable (hP : FilePaths E paths) (h : PlainSilo E jail paths t)
    (hp : p ∈ paths) : Writable E t (jail.root ++ components p) where
  ne_root := hP.ne_nil hp
  parents := h.dirs p hp
  grants q _ _ := hP.grants q
  notDir := by
    rcases h.leaf p hp with hnone | ⟨f, hfile⟩
    · rw [hnone]
      simp
    · rw [hfile]
      simp
  fresh k := h.fresh _ k

/-- No link lies on the way to a path. -/
theorem PlainSilo.real_dest (hP : FilePaths E paths) (h : PlainSilo E jail paths t)
    (hp : p ∈ paths) : t.Real (jail.root ++ components p) where
  names c hc := by
    rcases List.mem_append.mp hc with hc | hc
    · exact h.real.names c hc
    · have hup : c ≠ Posix.dotdot := by
        rintro rfl
        exact (validateRelativePath_ok_iff.mp (hP.valid p hp)).2.2.2
          (List.mem_of_mem_filter hc)
      exact (PathJail.component_of_mem hc).isName hup
  noLink q hq := by
    by_cases hself : q = jail.root ++ components p
    · rw [hself, Tree.isSymlink]
      rcases h.leaf p hp with hnone | ⟨f, hfile⟩
      · rw [hnone]
      · rw [hfile]
    · rw [Tree.isSymlink]
      rcases h.dirs p hp q (prefix_dropLast_of_ne hq (Ne.symm hself)) with hnone | hdir
      · rw [hnone]
      · rw [hdir]

/-- The entry of a path is changed, and the silo is as plain as before. -/
theorem PlainSilo.putAt (hP : FilePaths E paths) (h : PlainSilo E jail paths t) (hp : p ∈ paths)
    {n : Option Node} (hn : n = none ∨ ∃ f, n = some (.file f))
    (hput : PutAt (jail.root ++ components p) n t t') : PlainSilo E jail paths t' := by
  -- what was there on the way to a path is there still, and what is new is a directory
  have hway : ∀ q ∈ paths, ∀ r, r <+: (jail.root ++ components q).dropLast →
      t'.node r = t.node r ∨ t'.node r = some .dir := by
    intro q hq r hr
    have hne : r ≠ jail.root ++ components p := by
      rintro rfl
      exact hP.not_above hp hq hr
    rcases hput.other r hne with heq | ⟨-, hdir, -⟩
    · exact Or.inl heq
    · exact Or.inr hdir
  have hroot : ∀ r, r <+: jail.root → t'.node r = t.node r := by
    intro r hr
    have hdir : t.node r = some .dir := (node_of_isDir h.isDir r).trans (if_pos hr)
    have hbelow : r <+: (jail.root ++ components p).dropLast := by
      rw [hP.dropLast_eq hp]
      exact hr.trans (List.prefix_append _ _)
    rcases hway p hp r hbelow with heq | hdir'
    · exact heq
    · rw [hdir, hdir']
  refine ⟨⟨h.real.names, fun r hr => ?_⟩, ?_, fun q hq r hr => ?_, fun q hq => ?_,
    fun dir k => ?_, h.encodable, h.fuel⟩
  · rw [Tree.isSymlink, hroot r hr]
    exact h.real.noLink r hr
  · rw [hroot _ (List.prefix_refl _)]
    exact h.isDir
  · rcases hway q hq r hr with heq | hdir
    · rw [heq]
      exact h.dirs q hq r hr
    · exact Or.inr hdir
  · by_cases heq : q = p
    · rw [heq, hput.self]
      exact hn
    · have hne : jail.root ++ components q ≠ jail.root ++ components p :=
        fun hdest => heq (hP.dest_inj hq hp hdest)
      rcases hput.other _ hne with hsame | ⟨-, -, hpre⟩
      · rw [hsame]
        exact h.leaf q hq
      · exact absurd hpre (hP.not_above hq hp)
  · have hnot := h.tmp_not_above hP hp dir k
    have hne : dir ++ [tmpName (E.uuid4 k)] ≠ jail.root ++ components p := by
      intro heq
      exact hnot (heq ▸ List.prefix_refl _)
    rcases hput.other _ hne with hsame | ⟨-, -, hpre⟩
    · exact hsame.trans (h.fresh dir k)
    · exact absurd (hpre.trans (List.dropLast_prefix _)) hnot

/-- The files after a change to the entry of a path. -/
theorem siloFiles_putAt (hP : FilePaths E paths) (hp : p ∈ paths) {n : Option Node}
    (hput : PutAt (jail.root ++ components p) n t t') (hq : q ∈ paths) :
    siloFiles jail t' q =
      if q = p then
        (match n with
        | some (.file f) => some f.content
        | _ => none)
      else siloFiles jail t q := by
  unfold siloFiles Tree.file
  by_cases heq : q = p
  · rw [if_pos heq, heq, hput.self]
    split <;> simp_all
  · have hne : jail.root ++ components q ≠ jail.root ++ components p :=
      fun hdest => heq (hP.dest_inj hq hp hdest)
    rw [if_neg heq]
    rcases hput.other _ hne with hsame | ⟨-, -, hpre⟩
    · rw [hsame]
    · exact absurd hpre (hP.not_above hq hp)

end Paths

/-! ### Writes -/

section Writes

variable {S : Service} {paths : Set Str} {w w' : World} {p : Str}

/-- The jail takes a path to its own entry. -/
theorem PlainSilo.resolve {E : Env} {jail : PathJail} {t : Tree} (hP : FilePaths E paths)
    (h : PlainSilo E jail paths t) (hp : p ∈ paths) :
    jail.resolve t E.fuel E.lstatError p = some (.ok (jail.root ++ components p)) :=
  PathJail.resolve_of_real hP.silent (hP.valid p hp) (h.real_dest hP hp) (h.fuel p hp)

/-- **`atomic_write` puts one file.** -/
theorem atomicWrite_putAt {E : Env} (hE : E.NoFaults) {jail : PathJail} {relativePath : Str}
    (content : Bytes) {entry : FileEntry} {dest : Location}
    (hdest : jail.resolve w.fs E.fuel E.lstatError relativePath = some (.ok dest))
    (hwritable : Writable E w.fs dest) (howner : OwnerKnown E entry)
    (htime : TimeFits entry.mtimeTotalNs) :
    ∃ evs w' f, Runs (atomicWrite E jail relativePath content entry) w evs (.ok ()) w' ∧
      w'.inbox = w.inbox ∧ f.content = content ∧ PutAt dest (some (.file f)) w.fs w'.fs := by
  obtain ⟨⟨uid, huid⟩, gid, hgid⟩ := howner
  obtain ⟨evs₁, w₁, name, hin₁, hparent, hnone, hkeep, hrun⟩ :=
    atomicWrite_bind hE content entry hdest hwritable.parents hwritable.grants hwritable.fresh
  have hlong : ∀ q, dest.dropLast.length < q.length → ¬ q <+: dest.dropLast := by
    intro q hlt hq
    have hlen := hq.length_le
    omega
  have hdestLong : ¬ dest <+: dest.dropLast := by
    refine hlong dest ?_
    have hpos := List.length_pos_iff.mpr hwritable.ne_root
    rw [List.length_dropLast]
    omega
  have hnotDir : w₁.fs.node dest ≠ some .dir := by
    rw [hkeep dest hdestLong]
    exact hwritable.notDir
  obtain ⟨evs₂, w₂, hbody, hin₂⟩ := writeBody_runs hE content hnone hparent
    hwritable.ne_root rfl hnotDir huid hgid htime
  obtain ⟨uid', gid', -, -, -, hfile, -⟩ := writeBody_ok hbody
  obtain ⟨hother, hgone⟩ := writeBody_moved hbody
  refine ⟨_, w₂, stagedFile E content entry uid' gid', hrun _ _ _ [] _ _ hbody rfl,
    hin₂.trans hin₁, rfl, ?_⟩
  -- the parents were made first, and then the body changed the destination alone
  have hmade : ∀ q, w₁.fs.node q = if q <+: dest.dropLast then some .dir else w.fs.node q := by
    intro q
    by_cases hpre : q <+: dest.dropLast
    · rw [if_pos hpre, node_of_isDir hparent q, if_pos hpre]
    · rw [if_neg hpre, hkeep q hpre]
  refine PutAt.after hmade hwritable.parents ⟨hfile, fun q hq => Or.inl ?_⟩
  by_cases htmp : q = dest.dropLast ++ [name]
  · rw [htmp, hnone]
    refine hgone ?_
    rintro heq
    exact hq (htmp.trans heq)
  · exact hother q hq htmp

theorem scan_inbox {content : Bytes} {v : Except Exc ScanResult} {evs : List Event}
    (h : Runs (scan S content) w evs v w') : w'.inbox = w.inbox := by
  unfold scan at h
  split at h
  · obtain ⟨evs₂, hpure, -⟩ := h.bind_emit_inv
    obtain ⟨-, -, rfl⟩ := hpure.pure_inv
    rfl
  · have hrest := h.bind_look_inv.bind_change_inv
    split at hrest
    · obtain ⟨-, -, rfl⟩ := hrest.raise_inv
      rfl
    · obtain ⟨evs₂, hpure, -⟩ := hrest.bind_emit_inv
      obtain ⟨-, -, rfl⟩ := hpure.pure_inv
      rfl

/-- **What a server takes**: the scanner finds the content clean, the owner is accepted, and the
time fits the platform. -/
structure Acceptable (S : Service) (entry : FileEntry) (content : Bytes) : Prop where
  clean : ScansClean S content
  owner : OwnerAccepted S entry
  time : TimeFits entry.mtimeTotalNs

/-- From the content on: everything that is checked holds, and one file is put. -/
theorem checkAndWrite_putAt (hE : S.env.NoFaults) {tid : Uuid} {entry : FileEntry}
    {commit : TransferCommitMsg} {content : Bytes} {dest : Location}
    (hhash : rapidhash content = commit.rapidhash) (haccept : Acceptable S entry content)
    (hdest : S.session.jail.resolve w.fs S.env.fuel S.env.lstatError entry.path = some (.ok dest))
    (hwritable : Writable S.env w.fs dest) :
    ∃ evs w' f, Runs (checkAndWrite S tid entry commit content) w evs (.ok ()) w' ∧
      w'.inbox = w.inbox ∧ f.content = content ∧ PutAt dest (some (.file f)) w.fs w'.fs := by
  obtain ⟨result, w₁, hscan, hresult, htree⟩ := scan_runs (w := w) haccept.clean
  have hin₁ : w₁.inbox = w.inbox := scan_inbox hscan
  rw [← htree] at hdest hwritable
  obtain ⟨evs₂, w₂, f, hwrite, hin₂, hf, hput⟩ := atomicWrite_putAt hE content hdest hwritable
    ⟨haccept.owner.user, haccept.owner.group⟩ haccept.time
  obtain ⟨uid, huid⟩ := haccept.owner.uid
  obtain ⟨gid, hgid⟩ := haccept.owner.gid
  have hpolicy : resolveOwner S entry = .ok (uid, gid) := by
    rw [resolveOwner, huid]
    dsimp only
    rw [hgid]
  have hack : Runs (writeAndAck S tid entry content result) w₁
      (evs₂ ++ [Event.audited (writeRecord S entry content),
        .sent (.transferAck ⟨tid, result.text⟩)]) (.ok ()) w₂.tick :=
    Runs.attempt_bind hwrite (Runs.emit_bind (send_runs hE _))
  refine ⟨[.scanned content result] ++ (evs₂ ++ [Event.audited (writeRecord S entry content),
    .sent (.transferAck ⟨tid, result.text⟩)]), w₂.tick, f, ?_, hin₂.trans hin₁, hf, htree ▸ hput⟩
  unfold checkAndWrite
  rw [if_neg (not_not_intro hhash)]
  refine hscan.bind ?_
  rw [if_neg (not_not_intro hresult), hpolicy]
  exact hack

/-- A content that is not the announced one is turned down. -/
theorem checkAndWrite_mismatch (hE : S.env.NoFaults) {tid : Uuid} {entry : FileEntry}
    {commit : TransferCommitMsg} {content : Bytes} (hhash : rapidhash content ≠ commit.rapidhash) :
    Runs (checkAndWrite S tid entry commit content) w
      [.sent (.transferNack ⟨tid, lit "rapidhash_mismatch"⟩)] (.ok ()) w.tick := by
  unfold checkAndWrite
  rw [if_pos hhash]
  exact send_runs hE _

/-- The messages of a full transfer are read, and what is left is the check of their content. -/
theorem handleTransfer_full (hE : S.env.NoFaults) {tid : Uuid} {entry : FileEntry}
    (hentry : entry.Valid) (hfull : entry.isFull = true) {content : Bytes} {dest : Location}
    {rest : List Incoming}
    (hinbox : w.inbox =
      deliver (restMessages tid entry content) (valid_of_mem_restMessages hentry content) ++ rest)
    (hdest : S.session.jail.resolve w.fs S.env.fuel S.env.lstatError entry.path = some (.ok dest))
    {evs : List Event} {v : Except Exc Unit}
    (h : Runs (checkAndWrite S tid entry ⟨tid, entry.rapidhash⟩ content)
      { w.tick with inbox := rest } evs v w') :
    ∃ evs', Runs (handleTransfer S (beginMessage tid entry content)) w evs' v w' := by
  have hcount : (beginMessage tid entry content).chunkCount =
      (chunkMessages tid (splitChunks content).zipIdx).length := by
    rw [chunkMessages, List.length_map, List.length_zipIdx]
    rfl
  have hids : ∀ m ∈ chunkMessages tid (splitChunks content).zipIdx, m.transferId = tid := by
    intro m hm
    obtain ⟨c, -, rfl⟩ := List.mem_map.mp hm
    rfl
  have hjoin :
      joinChunks (chunkDict (chunkMessages tid (splitChunks content).zipIdx)) = content := by
    rw [joinChunks_chunkMessages, flatten_splitChunks]
  have hrebuilt : Runs (reconstruct S entry content) { w.tick with inbox := rest } []
      (.ok content) { w.tick with inbox := rest } := by
    unfold reconstruct
    rw [if_pos hfull]
    rfl
  have hfinish : Runs (finishTransfer S (beginMessage tid entry content)
      (chunkDict (chunkMessages tid (splitChunks content).zipIdx)) ⟨tid, entry.rapidhash⟩)
      { w.tick with inbox := rest } ([] ++ evs) v w' := by
    unfold finishTransfer
    rw [hjoin]
    exact Runs.attempt_bind hrebuilt h
  exact ⟨_, handleTransfer_bind hE hcount hids rfl (valid_of_mem_restMessages hentry content)
    hinbox hdest hfinish⟩

end Writes

/-! ### Deletes and renames -/

section Moves

variable {S : Service} {paths : Set Str} {w : World} {p old new : Str}

/-- **A delete removes one file**, if it is there. -/
theorem handleDelete_putAt (hE : S.env.NoFaults) (hP : FilePaths S.env paths)
    (h : PlainSilo S.env S.session.jail paths w.fs) (hp : p ∈ paths) (nowNs : Int) :
    ∃ evs w', Runs (handleDelete S ⟨p, nowNs⟩) w evs (.ok ()) w' ∧ w'.inbox = w.inbox ∧
      PutAt (S.session.jail.root ++ components p) none w.fs w'.fs := by
  have hresolve := jailResolve_runs hE (h.resolve hP hp)
  rcases h.leaf p hp with hnone | ⟨f, hfile⟩
  · -- nothing is there, and the call says so
    have hmissing : w.fs.unlink (S.session.jail.root ++ components p) = .error .enoent := by
      rw [Tree.unlink, dif_neg (by rw [hnone]; simp), if_pos hnone,
        Tree.lookupError_eq_enoent (h.dirs p hp)]
    have hunlink : Runs (unlinkMissingOk S.env (S.session.jail.root ++ components p)) w.tick []
        (.ok ()) w.tick.tick := by
      refine tick_bind hE (Runs.look_bind ?_)
      rw [World.tick_fs, World.tick_fs, hmissing]
      rfl
    refine ⟨_, w.tick.tick, Runs.attempt_bind hresolve (Runs.attempt_bind hunlink rfl), rfl, ?_⟩
    rw [← hnone]
    exact PutAt.refl _ _
  · obtain ⟨t', hcall⟩ : ∃ t', w.fs.unlink (S.session.jail.root ++ components p) = .ok t' := by
      rw [Tree.unlink, dif_neg (by rw [hfile]; simp), if_neg (by rw [hfile]; simp)]
      exact ⟨_, rfl⟩
    have hunlink : Runs (unlinkMissingOk S.env (S.session.jail.root ++ components p)) w.tick
        [.touched .unlink (S.session.jail.root ++ components p)] (.ok ())
        { w.tick.tick with fs := t' } := by
      refine tick_bind hE (Runs.look_bind ?_)
      rw [World.tick_fs, World.tick_fs, hcall]
      exact Runs.change_bind rfl
    have hnode := (Tree.unlink_ok hcall).2.2
    refine ⟨_, { w.tick.tick with fs := t' },
      Runs.attempt_bind hresolve (Runs.attempt_bind hunlink rfl), rfl, ?_, fun q hq => ?_⟩
    · exact (hnode _).trans (if_pos rfl)
    · exact Or.inl ((hnode q).trans (if_neg hq))

/-- The files of a silo after a rename. -/
def renamed (files : Str → Option Bytes) (old new : Str) (p : Str) : Option Bytes :=
  match files old with
  | none => files p
  | some content => if p = new then some content else if p = old then none else files p

/-- The system call of a rename, when the directories on the way are there. -/
theorem PlainSilo.rename {E : Env} {jail : PathJail} {t : Tree} (hP : FilePaths E paths)
    (h : PlainSilo E jail paths t) (hold : old ∈ paths) (hnew : new ∈ paths)
    (hdir : t.node (jail.root ++ components new).dropLast = some .dir) :
    ((∃ errno, t.rename (jail.root ++ components old) (jail.root ++ components new) =
        .error errno) ∧ siloFiles jail t old = none) ∨
      ∃ t', t.rename (jail.root ++ components old) (jail.root ++ components new) = .ok t' ∧
        PlainSilo E jail paths t' ∧
        ∀ q ∈ paths, siloFiles jail t' q = renamed (siloFiles jail t) old new q := by
  rcases h.leaf old hold with hnone | ⟨f, hfile⟩
  · refine Or.inl ⟨⟨t.lookupError (jail.root ++ components old), ?_⟩, ?_⟩
    · unfold Tree.rename
      split
      · rfl
      · rename_i n hn
        rw [hnone] at hn
        cases hn
    · unfold siloFiles Tree.file
      rw [hnone]
      rfl
  refine Or.inr ?_
  have hcontent : siloFiles jail t old = some f.content := by
    unfold siloFiles
    rw [Tree.file_eq_some_iff.mpr hfile]
    rfl
  by_cases hsame : old = new
  · -- the call does nothing
    subst hsame
    have hself := Tree.rename_self (t := t) (p := jail.root ++ components old)
      (by rw [hfile]; simp)
    refine ⟨t, hself, h, fun q _ => ?_⟩
    unfold renamed
    rw [hcontent]
    by_cases hq : q = old
    · rw [hq, hcontent]
      simp
    · simp [hq]
  have hne : jail.root ++ components old ≠ jail.root ++ components new :=
    fun heq => hsame (hP.dest_inj hold hnew heq)
  obtain ⟨t', hcall⟩ := Tree.rename_of_file hfile (hP.ne_nil hnew) hdir
    (h.writable hP hnew).notDir
  obtain ⟨-, hnode⟩ := Tree.rename_file_ok hfile hne hcall
  -- first the old entry goes, and then the new one comes
  have hleaf : t.node (jail.root ++ components old) ≠ some .dir := by
    rw [hfile]
    simp
  have hgone : PutAt (jail.root ++ components old) none t
      (t.erase (jail.root ++ components old) hleaf) :=
    ⟨if_pos rfl, fun q hq => Or.inl (if_neg hq)⟩
  have hcome : PutAt (jail.root ++ components new) (some (.file f))
      (t.erase (jail.root ++ components old) hleaf) t' :=
    ⟨(hnode _).trans (if_pos rfl), fun q hq => Or.inl ((hnode q).trans (if_neg hq))⟩
  have hmid := h.putAt hP hold (Or.inl rfl) hgone
  refine ⟨t', hcall, hmid.putAt hP hnew (Or.inr ⟨f, rfl⟩) hcome, fun q hq => ?_⟩
  rw [siloFiles_putAt hP hnew hcome hq, siloFiles_putAt hP hold hgone hq, renamed, hcontent]

/-- **A rename moves one file**, if it is there. -/
theorem handleRename_renamed (hE : S.env.NoFaults) (hP : FilePaths S.env paths)
    (h : PlainSilo S.env S.session.jail paths w.fs) (hold : old ∈ paths) (hnew : new ∈ paths)
    (nowNs : Int) :
    ∃ evs w', Runs (handleRename S ⟨old, new, nowNs⟩) w evs (.ok ()) w' ∧ w'.inbox = w.inbox ∧
      PlainSilo S.env S.session.jail paths w'.fs ∧
      ∀ q ∈ paths, siloFiles S.session.jail w'.fs q =
        renamed (siloFiles S.session.jail w.fs) old new q := by
  have hends : Runs (resolveEnds S ⟨old, new, nowNs⟩) w ([] ++ ([] ++ []))
      (.ok (S.session.jail.root ++ components old, S.session.jail.root ++ components new))
      w.tick.tick := by
    have htick : PlainSilo S.env S.session.jail paths w.tick.fs := h
    exact (jailResolve_runs hE (h.resolve hP hold)).bind
      ((jailResolve_runs hE (htick.resolve hP hnew)).bind rfl)
  obtain ⟨evs₁, w₁, hmkdir, hin₁, hnode₁⟩ := mkdirParents_runs hE
    (S.session.jail.root ++ components new).dropLast.reverse w.tick.tick
    (by rw [List.reverse_reverse]; exact h.dirs new hnew) fun q _ _ => hP.grants q
  rw [List.reverse_reverse] at hnode₁
  -- the directories are no change to the files
  have hmade : PutAt (S.session.jail.root ++ components new)
      (w₁.fs.node (S.session.jail.root ++ components new)) w.fs w₁.fs :=
    PutAt.after hnode₁ (h.dirs new hnew) (PutAt.refl _ _)
  have hkept : w₁.fs.node (S.session.jail.root ++ components new) =
      w.fs.node (S.session.jail.root ++ components new) := by
    rw [hnode₁, if_neg (hP.not_above hnew hnew)]
    rfl
  rw [hkept] at hmade
  have h₁ := h.putAt hP hnew (h.leaf new hnew) hmade
  have hfiles₁ : ∀ q ∈ paths,
      siloFiles S.session.jail w₁.fs q = siloFiles S.session.jail w.fs q := by
    intro q hq
    by_cases heq : q = new
    · rw [heq, siloFiles, siloFiles, Tree.file, Tree.file, hkept]
    · rw [siloFiles_putAt hP hnew hmade hq, if_neg heq]
  have hdir : w₁.fs.node (S.session.jail.root ++ components new).dropLast = some .dir := by
    rw [hnode₁, if_pos (List.prefix_refl _)]
  rcases h₁.rename hP hold hnew hdir with ⟨⟨errno, hcall⟩, hnone⟩ | ⟨t', hcall, h', hfiles'⟩
  · -- the failure is logged
    have hmove : Runs (moveEntry S (S.session.jail.root ++ components old)
        (S.session.jail.root ++ components new)) w.tick.tick (evs₁ ++ []) (.error _) w₁.tick :=
      hmkdir.bind (fsCall_runs_error hE hcall)
    refine ⟨_, w₁.tick, Runs.attempt_bind hends (Runs.attempt_bind hmove rfl), hin₁, h₁,
      fun q hq => ?_⟩
    rw [renamed, ← hfiles₁ old hold, hnone]
    exact hfiles₁ q hq
  · have hmove : Runs (moveEntry S (S.session.jail.root ++ components old)
        (S.session.jail.root ++ components new)) w.tick.tick
        (evs₁ ++ [.touched (.rename _) (S.session.jail.root ++ components old)]) (.ok ())
        { w₁.tick with fs := t' } := hmkdir.bind (fsCall_runs hE hcall)
    refine ⟨_, { w₁.tick with fs := t' },
      Runs.attempt_bind hends (Runs.attempt_bind hmove rfl), hin₁, h', fun q hq => ?_⟩
    rw [hfiles' q hq, renamed, renamed, hfiles₁ old hold, hfiles₁ q hq]

end Moves

end Chiralite
