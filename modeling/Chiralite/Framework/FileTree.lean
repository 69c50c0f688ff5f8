import Mathlib.Data.Set.Finite.List
import Mathlib.Data.Set.Finite.Basic
import Chiralite.Framework.Text

/-!
# File trees

A POSIX file tree, as a map from locations to what stands there. A **location** is the list of
names that leads to it from the root directory, with no symbolic link followed on the way; the
tree is keyed by locations, so two paths that reach one file through different links meet at one
key (how a path is taken to a location is `Framework/PathWalk.lean`).

A tree is well formed by construction: the root is a directory, whatever has a parent has a
directory for it, and all entries are in one list. `insert`, `erase` and `move` are the three ways
a tree changes. Each asks for what it needs to stay well formed, and each has one equation that
says what stands where afterwards. The system calls (`mkdir`, `openWrite`, `modify`, `unlink`,
`rename`) make the checks the kernel makes, and answer with an `Errno` or with the changed tree.
They take locations: a caller that hands them a path has to know that no link lies on it.

Regular files carry their bytes, mode, owner and time of modification. Directories and links
carry no attributes.
-/

namespace Posix

open Py

/-- A location: the names that lead to it from the root directory. -/
abbrev Location := List Str

/-- A regular file. -/
structure FileData where
  content : List UInt8
  mode : Nat
  uid : Int
  gid : Int
  /-- Time of modification, in nanoseconds. -/
  mtimeNs : Int
  deriving DecidableEq

/-- What stands at a location. -/
inductive Node where
  | file (data : FileData)
  | dir
  | symlink (target : Str)
  deriving DecidableEq

/-- The error numbers of the system calls below, and any other that a failing device or a missing
permission may bring. -/
inductive Errno where
  | enoent
  | eexist
  | enotdir
  | eisdir
  | enotempty
  | einval
  | ebusy
  | eloop
  | other (code : Nat)
  deriving DecidableEq

/-- A well-formed file tree. -/
structure Tree where
  node : Location → Option Node
  root_isDir : node [] = some .dir
  parent_isDir : ∀ p name, node (p ++ [name]) ≠ none → node p = some .dir
  /-- A list with every location that holds something. -/
  support : List Location
  mem_support : ∀ p, node p ≠ none → p ∈ support

namespace Tree

variable {t : Tree} {p q : Location}

/-- The tree with nothing but its root directory. -/
def empty : Tree where
  node p := if p = [] then some .dir else none
  root_isDir := rfl
  parent_isDir p name h := by simp at h
  support := [[]]
  mem_support p hp := by
    by_contra hne
    exact hp (if_neg fun h => hne (List.mem_singleton.mpr h))

/-- There are finitely many entries. -/
theorem finite (t : Tree) : {p | t.node p ≠ none}.Finite :=
  t.support.finite_toSet.subset t.mem_support

/-- The regular file at a location. -/
def file (t : Tree) (p : Location) : Option FileData :=
  match t.node p with
  | some (.file f) => some f
  | _ => none

/-- A symbolic link stands there. -/
def isSymlink (t : Tree) (p : Location) : Bool :=
  match t.node p with
  | some (.symlink _) => true
  | _ => false

theorem file_eq_some_iff {f : FileData} : t.file p = some f ↔ t.node p = some (.file f) := by
  unfold file
  split <;> simp_all

theorem isSymlink_iff : t.isSymlink p = true ↔ ∃ target, t.node p = some (.symlink target) := by
  unfold isSymlink
  split <;> simp_all

theorem isSymlink_root : t.isSymlink [] = false := by
  simp [isSymlink, t.root_isDir]

/-- The parent of an entry, in the form without a split. -/
theorem parent_of_ne_nil (hp : p ≠ []) (h : t.node p ≠ none) : t.node p.dropLast = some .dir := by
  have hsplit : p = p.dropLast ++ [p.getLast hp] := (List.dropLast_append_getLast hp).symm
  rw [hsplit] at h
  exact t.parent_isDir _ _ h

/-! ### Changes -/

/-- An entry is put at a location that holds no directory, in a directory that exists. -/
def insert (t : Tree) (p : Location) (n : Node) (hp : p ≠ [])
    (hdir : t.node p.dropLast = some .dir) (hleaf : t.node p ≠ some .dir) : Tree where
  node q := if q = p then some n else t.node q
  root_isDir := by rw [if_neg hp.symm]; exact t.root_isDir
  parent_isDir q name h := by
    have hq : t.node q = some .dir := by
      by_cases heq : q ++ [name] = p
      · rw [← heq, List.dropLast_concat] at hdir
        exact hdir
      · rw [if_neg heq] at h
        exact t.parent_isDir q name h
    -- the new entry replaces no directory, so it is not the parent in question
    have hne : q ≠ p := by
      rintro rfl
      exact hleaf hq
    rw [if_neg hne]
    exact hq
  support := p :: t.support
  mem_support q hq := by
    by_cases heq : q = p
    · exact List.mem_cons.mpr (Or.inl heq)
    · rw [if_neg heq] at hq
      exact List.mem_cons_of_mem _ (t.mem_support q hq)

theorem node_insert {n : Node} {hp hdir hleaf} :
    (t.insert p n hp hdir hleaf).node q = if q = p then some n else t.node q := rfl

/-- An entry that is not a directory is removed. -/
def erase (t : Tree) (p : Location) (hleaf : t.node p ≠ some .dir) : Tree where
  node q := if q = p then none else t.node q
  root_isDir := by
    have hne : ([] : Location) ≠ p := by
      rintro rfl
      exact hleaf t.root_isDir
    rw [if_neg hne]
    exact t.root_isDir
  parent_isDir q name h := by
    have hq : t.node q = some .dir := by
      by_cases heq : q ++ [name] = p
      · exact absurd (if_pos heq) h
      · rw [if_neg heq] at h
        exact t.parent_isDir q name h
    -- the entry that goes is no directory, so it is nobody's parent
    have hne : q ≠ p := by
      rintro rfl
      exact hleaf hq
    rw [if_neg hne]
    exact hq
  support := t.support
  mem_support q hq := by
    by_cases heq : q = p
    · exact absurd (if_pos heq) hq
    · rw [if_neg heq] at hq
      exact t.mem_support q hq

theorem node_erase {hleaf} :
    (t.erase p hleaf).node q = if q = p then none else t.node q := rfl

/-- A directory is moved, with all that is below it, to a location that holds nothing, or an empty
directory, and that is not below it. -/
def move (t : Tree) (src dst : Location) (hsrc : src ≠ []) (hdst : dst ≠ [])
    (hdir : t.node dst.dropLast = some .dir) (hbelow : ¬ src <+: dst) : Tree where
  node q :=
    if dst <+: q then t.node (src ++ q.drop dst.length)
    else if src <+: q then none
    else t.node q
  root_isDir := by
    have hd : ¬ dst <+: [] := fun h => hdst (List.prefix_nil.mp h)
    have hs : ¬ src <+: [] := fun h => hsrc (List.prefix_nil.mp h)
    rw [if_neg hd, if_neg hs]
    exact t.root_isDir
  parent_isDir q name h := by
    by_cases hd : dst <+: q
    · -- inside the moved directory the parents are those it had before
      have hd' : dst <+: q ++ [name] := hd.trans (List.prefix_append _ _)
      rw [if_pos hd', List.drop_append_of_le_length hd.length_le, ← List.append_assoc] at h
      rw [if_pos hd]
      exact t.parent_isDir _ _ h
    by_cases htop : dst = q ++ [name]
    · -- the moved directory itself: its new parent exists, and has not been moved away
      have hs : ¬ src <+: q := fun hs => hbelow (htop ▸ hs.trans (List.prefix_append _ _))
      rw [if_neg hd, if_neg hs]
      rw [htop, List.dropLast_concat] at hdir
      exact hdir
    · have hd' : ¬ dst <+: q ++ [name] := by
        intro hpre
        rcases List.prefix_concat_iff.mp hpre with heq | hpre
        · exact htop heq
        · exact hd hpre
      rw [if_neg hd'] at h
      by_cases hs' : src <+: q ++ [name]
      · exact absurd (if_pos hs') h
      · have hs : ¬ src <+: q := fun hs => hs' (hs.trans (List.prefix_append _ _))
        rw [if_neg hs'] at h
        rw [if_neg hd, if_neg hs]
        exact t.parent_isDir q name h
  -- every location below `src` comes back below `dst`
  support := t.support ++ t.support.map fun q => dst ++ q.drop src.length
  mem_support q hq := by
    rw [List.mem_append]
    by_cases hd : dst <+: q
    · rw [if_pos hd] at hq
      obtain ⟨rest, rfl⟩ := hd
      rw [List.drop_left] at hq
      refine Or.inr (List.mem_map.mpr ⟨src ++ rest, t.mem_support _ hq, ?_⟩)
      rw [List.drop_left]
    · rw [if_neg hd] at hq
      by_cases hs : src <+: q
      · exact absurd (if_pos hs) hq
      · rw [if_neg hs] at hq
        exact Or.inl (t.mem_support q hq)

/-! ### System calls -/

/-- The error of a call whose directory part leads nowhere. -/
def lookupError (t : Tree) (p : Location) : Errno :=
  if p.dropLast.inits.any fun q =>
      match t.node q with
      | none => false
      | some .dir => false
      | some _ => true
  then .enotdir
  else .enoent

/-- `mkdir(2)`. -/
def mkdir (t : Tree) (p : Location) : Except Errno Tree :=
  if hp : p = [] then .error .eexist
  else if hex : t.node p = none then
    if hdir : t.node p.dropLast = some .dir then
      .ok (t.insert p .dir hp hdir (by rw [hex]; simp))
    else .error (t.lookupError p)
  else .error .eexist

/-- `open(2)` with `O_WRONLY | O_CREAT | O_TRUNC`, for a name that no link has: a new file with the
attributes of `init`, or the old one emptied. -/
def openWrite (t : Tree) (p : Location) (init : FileData) : Except Errno Tree :=
  if hp : p = [] then .error .eisdir
  else
    match hnode : t.node p with
    | none =>
      if hdir : t.node p.dropLast = some .dir then
        .ok (t.insert p (.file { init with content := [] }) hp hdir (by rw [hnode]; simp))
      else .error (t.lookupError p)
    | some (.file f) =>
      .ok (t.insert p (.file { f with content := [] }) hp
        (parent_of_ne_nil hp (by rw [hnode]; simp)) (by rw [hnode]; simp))
    | some .dir => .error .eisdir
    | some (.symlink _) => .error .eloop

/-- A change to the file at a location: written bytes, `chown`, `chmod`, `utime`. -/
def modify (t : Tree) (p : Location) (g : FileData → FileData) : Except Errno Tree :=
  if hp : p = [] then .error .eisdir
  else
    match hnode : t.node p with
    | some (.file f) =>
      .ok (t.insert p (.file (g f)) hp (parent_of_ne_nil hp (by rw [hnode]; simp))
        (by rw [hnode]; simp))
    | some .dir => .error .eisdir
    | some (.symlink _) => .error .eloop
    | none => .error (t.lookupError p)

/-- `unlink(2)`. -/
def unlink (t : Tree) (p : Location) : Except Errno Tree :=
  if hdir : t.node p = some .dir then .error .eisdir
  else if t.node p = none then .error (t.lookupError p)
  else .ok (t.erase p hdir)

/-- The directory at a location holds nothing. -/
def isEmptyDir (t : Tree) (p : Location) : Bool :=
  t.support.all fun q => !(p.isPrefixOf q && q != p && (t.node q).isSome)

/-- `rename(2)`. -/
def rename (t : Tree) (src dst : Location) : Except Errno Tree :=
  match hsrc : t.node src with
  | none => .error (t.lookupError src)
  | some n =>
    -- the checks in the order in which the kernel makes them
    if src = dst then .ok t
    else if hs : src = [] then .error .ebusy
    else if hd : dst = [] then .error .ebusy
    else if hparent : t.node dst.dropLast = some .dir then
      if hleaf : n = .dir then
        if hbelow : src <+: dst then .error .einval
        else
          match t.node dst with
          | none => .ok (t.move src dst hs hd hparent hbelow)
          | some .dir =>
            if t.isEmptyDir dst then .ok (t.move src dst hs hd hparent hbelow)
            else .error .enotempty
          | some _ => .error .enotdir
      else if hdst : t.node dst = some .dir then .error .eisdir
      else
        -- a file or a link takes the place of whatever stood there
        .ok ((t.erase src (by rw [hsrc]; simpa using hleaf)).insert dst n hd
          (by
            rw [node_erase, if_neg ?_]
            · exact hparent
            · intro heq
              rw [heq, hsrc] at hparent
              exact hleaf (Option.some.inj hparent))
          (by
            rw [node_erase]
            split
            · simp
            · exact hdst))
    else .error (t.lookupError dst)

/-! ### What a call that succeeds has done -/

variable {t' : Tree}

theorem mkdir_ok (h : t.mkdir p = .ok t') :
    t.node p = none ∧ ∀ q, t'.node q = if q = p then some .dir else t.node q := by
  unfold mkdir at h
  split at h
  · cases h
  split at h
  · rename_i hex
    split at h
    · cases h
      exact ⟨hex, fun q => node_insert⟩
    · cases h
  · cases h

theorem openWrite_ok {init : FileData} (h : t.openWrite p init = .ok t') :
    (t.node p = none ∧ ∀ q, t'.node q =
        if q = p then some (.file { init with content := [] }) else t.node q) ∨
      ∃ f, t.node p = some (.file f) ∧ ∀ q, t'.node q =
        if q = p then some (.file { f with content := [] }) else t.node q := by
  unfold openWrite at h
  -- the root is a directory; below it a new file, an old one, or an error
  split at h
  · cases h
  split at h
  · rename_i hnode
    split at h
    · cases h
      exact Or.inl ⟨hnode, fun q => node_insert⟩
    · cases h
  · rename_i f hnode
    cases h
    exact Or.inr ⟨f, hnode, fun q => node_insert⟩
  · cases h
  · cases h

theorem modify_ok {g : FileData → FileData} (h : t.modify p g = .ok t') :
    ∃ f, t.node p = some (.file f) ∧
      ∀ q, t'.node q = if q = p then some (.file (g f)) else t.node q := by
  unfold modify at h
  split at h
  · cases h
  split at h
  · rename_i f hnode
    cases h
    exact ⟨f, hnode, fun q => node_insert⟩
  · cases h
  · cases h
  · cases h

theorem unlink_ok (h : t.unlink p = .ok t') :
    t.node p ≠ none ∧ t.node p ≠ some .dir ∧
      ∀ q, t'.node q = if q = p then none else t.node q := by
  unfold unlink at h
  split at h
  · cases h
  split at h
  · cases h
  · rename_i hdir hex
    cases h
    exact ⟨hex, hdir, fun q => node_erase⟩

/-- `unlink` reports `ENOENT` only where there is nothing. -/
theorem node_of_unlink_enoent (h : t.unlink p = .error .enoent) : t.node p = none := by
  unfold unlink at h
  split at h
  · cases h
  split at h
  · rename_i hnone
    exact hnone
  · cases h

/-- Renaming an entry to its own location does nothing. -/
theorem rename_self (h : t.node p ≠ none) : t.rename p p = .ok t := by
  unfold rename
  split
  · rename_i hnone
    exact absurd hnone h
  · rw [if_pos rfl]

theorem rename_self_ok (h : t.rename p p = .ok t') : t' = t := by
  have hthere : t.node p ≠ none := by
    intro hnone
    unfold rename at h
    split at h
    · cases h
    · simp_all
  rw [rename_self hthere] at h
  exact (Except.ok.inj h).symm

/-- A file that is renamed to another location replaces what stood there. -/
theorem rename_file_ok {src dst : Location} {f : FileData} (hsrc : t.node src = some (.file f))
    (hne : src ≠ dst) (h : t.rename src dst = .ok t') :
    t.node dst ≠ some .dir ∧ ∀ q, t'.node q =
      if q = dst then some (.file f) else if q = src then none else t.node q := by
  unfold rename at h
  split at h
  · cases h
  -- the entry is the file, which leaves the branch that moves no directory
  rename_i n hn
  rw [hsrc] at hn
  cases hn
  rw [if_neg hne] at h
  split at h
  · cases h
  split at h
  · cases h
  split at h
  · rw [dif_neg (by simp)] at h
    split at h
    · cases h
    · rename_i hdst
      cases h
      exact ⟨hdst, fun q => by rw [node_insert, node_erase]⟩
  · cases h

/-- Nothing but the root itself is renamed onto the root. -/
theorem rename_ok_ne_nil {src dst : Location} (hsrc : src ≠ [])
    (h : t.rename src dst = .ok t') : dst ≠ [] := by
  rintro rfl
  unfold rename at h
  split at h
  · cases h
  rw [if_neg hsrc, dif_neg hsrc, dif_pos rfl] at h
  cases h

/-! ### When a call succeeds -/

/-- Whatever lies on the way to an entry is a directory. -/
theorem isDir_of_isPrefix (hq : q <+: p) (hne : q ≠ p) (h : t.node p ≠ none) :
    t.node q = some .dir := by
  induction p using List.reverseRecOn with
  | nil => exact absurd (List.prefix_nil.mp hq) hne
  | append_singleton p name ih =>
    -- from the entry upwards: its parent is a directory, and so an entry
    have hp : t.node p = some .dir := t.parent_isDir p name h
    rcases List.prefix_concat_iff.mp hq with heq | hq
    · exact absurd heq hne
    · by_cases heq : q = p
      · rw [heq]
        exact hp
      · exact ih hq heq (by rw [hp]; simp)

/-- When nothing but directories lies on the way, a missing directory part is just missing. -/
theorem lookupError_eq_enoent
    (h : ∀ q, q <+: p.dropLast → t.node q = none ∨ t.node q = some .dir) :
    t.lookupError p = .enoent := by
  refine if_neg ?_
  rw [List.any_eq_true]
  -- `ENOTDIR` is for a location on the way that is there and no directory
  rintro ⟨q, hq, hnode⟩
  rcases h q ((List.mem_inits _ _).mp hq) with hnone | hdir
  · rw [hnone] at hnode
    cases hnode
  · rw [hdir] at hnode
    cases hnode

theorem mkdir_of_missing (hp : p ≠ []) (hnone : t.node p = none)
    (hdir : t.node p.dropLast = some .dir) : ∃ t', t.mkdir p = .ok t' := by
  rw [mkdir, dif_neg hp, dif_pos hnone, dif_pos hdir]
  exact ⟨_, rfl⟩

theorem mkdir_of_dir (hdir : t.node p = some .dir) : t.mkdir p = .error .eexist := by
  unfold mkdir
  split
  · rfl
  · rw [dif_neg (by rw [hdir]; simp)]

theorem mkdir_of_missing_parent (hp : p ≠ []) (hnone : t.node p = none)
    (hparent : t.node p.dropLast ≠ some .dir) : t.mkdir p = .error (t.lookupError p) := by
  rw [mkdir, dif_neg hp, dif_pos hnone, dif_neg hparent]

theorem openWrite_of_missing {init : FileData} (hp : p ≠ []) (hnone : t.node p = none)
    (hdir : t.node p.dropLast = some .dir) : ∃ t', t.openWrite p init = .ok t' := by
  rw [openWrite, dif_neg hp]
  split
  · rw [dif_pos hdir]
    exact ⟨_, rfl⟩
  all_goals simp_all

theorem modify_of_file {f : FileData} {g : FileData → FileData}
    (h : t.node p = some (.file f)) : ∃ t', t.modify p g = .ok t' := by
  have hp : p ≠ [] := by
    rintro rfl
    rw [t.root_isDir] at h
    cases h
  rw [modify, dif_neg hp]
  split
  · exact ⟨_, rfl⟩
  all_goals simp_all

theorem rename_of_file {src dst : Location} {f : FileData} (hsrc : t.node src = some (.file f))
    (hdst : dst ≠ []) (hparent : t.node dst.dropLast = some .dir)
    (hdir : t.node dst ≠ some .dir) : ∃ t', t.rename src dst = .ok t' := by
  have hs : src ≠ [] := by
    rintro rfl
    rw [t.root_isDir] at hsrc
    cases hsrc
  unfold rename
  split
  · simp_all
  rename_i n hn
  -- a file is no directory, so that the destination may be anything but one
  have hleaf : n ≠ .dir := by
    rintro rfl
    rw [hsrc] at hn
    cases hn
  by_cases hself : src = dst
  · rw [if_pos hself]
    exact ⟨_, rfl⟩
  · rw [if_neg hself, dif_neg hs, dif_neg hdst, dif_pos hparent, dif_neg hleaf, dif_neg hdir]
    exact ⟨_, rfl⟩

/-! ### Renames -/

/-- What stands where after the entry at `src` was moved to `dst`, with all that is below it. -/
def movedNode (nodes : Location → Option Node) (src dst q : Location) : Option Node :=
  if dst <+: q then nodes (src ++ q.drop dst.length)
  else if src <+: q then none
  else nodes q

/-- Nothing stands below what is no directory. -/
theorem node_below_eq_none (hdir : t.node p ≠ some .dir) (hpre : p <+: q) (hne : q ≠ p) :
    t.node q = none := by
  by_contra hsome
  exact hdir (isDir_of_isPrefix hpre hne.symm hsome)

theorem isEmptyDir_iff : t.isEmptyDir p = true ↔ ∀ q, p <+: q → q ≠ p → t.node q = none := by
  unfold isEmptyDir
  rw [List.all_eq_true]
  constructor
  · intro h q hpre hne
    by_contra hsome
    have hq := h q (t.mem_support q hsome)
    simp [List.isPrefixOf_iff_prefix.mpr hpre, hne, hsome] at hq
  · intro h q _
    by_cases hpre : p <+: q
    · by_cases hne : q = p
      · simp [hne]
      · simp [h q hpre hne]
    · simp [mt List.isPrefixOf_iff_prefix.mp hpre]

/-- **What `rename` asks of the two ends**: something is moved, not to a place below itself; what
it replaces is of its kind, and holds nothing. -/
structure Movable (t : Tree) (src dst : Location) : Prop where
  there : t.node src ≠ none
  not_below : ¬ src <+: dst
  kind : t.node dst = none ∨ (t.node dst = some .dir ↔ t.node src = some .dir)
  holds_nothing : ∀ q, dst <+: q → q ≠ dst → t.node q = none

section Movable

variable {src dst : Location}

/-- What is moved is not inside what it replaces. -/
theorem Movable.not_above (h : t.Movable src dst) (hne : src ≠ dst) : ¬ dst <+: src :=
  fun hpre => h.there (h.holds_nothing src hpre hne)

/-- What is moved is not where it was. -/
theorem Movable.movedNode_self (h : t.Movable src dst) (hne : src ≠ dst)
    (nodes : Location → Option Node) : movedNode nodes src dst src = none := by
  rw [movedNode, if_neg (h.not_above hne), if_pos (List.prefix_refl _)]

end Movable

theorem eq_nil_of_isPrefix_dropLast {p : Location} (h : p <+: p.dropLast) : p = [] := by
  have hlen := h.length_le
  rw [List.length_dropLast] at hlen
  exact List.length_eq_zero_iff.mp (by omega)

/-- A leaf has nothing below it, and so it is not above a location whose parent is a directory. -/
theorem not_isPrefix_of_leaf {src dst : Location} (hleaf : t.node src ≠ some .dir)
    (hne : src ≠ dst) (hd : dst ≠ []) (hparent : t.node dst.dropLast = some .dir) :
    ¬ src <+: dst := by
  intro hpre
  have hup : src <+: dst.dropLast := by
    rcases List.prefix_concat_iff.mp
      (show src <+: dst.dropLast ++ [dst.getLast hd] by
        rwa [List.dropLast_append_getLast]) with heq | hpre'
    · rw [List.dropLast_append_getLast] at heq
      exact absurd heq hne
    · exact hpre'
  by_cases heq : src = dst.dropLast
  · exact hleaf (heq ▸ hparent)
  · exact hleaf (isDir_of_isPrefix hup heq (by rw [hparent]; simp))

/-- Moving a leaf to where nothing is below is to remove it there and to insert it here. -/
theorem movedNode_of_leaf {src dst : Location} {n : Node} (hsrc : t.node src = some n)
    (hleaf : t.node src ≠ some .dir) (hempty : ∀ q, dst <+: q → q ≠ dst → t.node q = none)
    (q : Location) :
    (if q = dst then some n else if q = src then none else t.node q) =
      movedNode t.node src dst q := by
  rw [movedNode]
  by_cases hpre : dst <+: q
  · -- nothing comes along below a leaf
    rw [if_pos hpre]
    obtain ⟨rest, rfl⟩ := hpre
    rw [List.drop_left]
    by_cases hrest : rest = []
    · rw [hrest, List.append_nil, List.append_nil, if_pos rfl, hsrc]
    · have hq : dst ++ rest ≠ dst := by simpa using hrest
      have hsrcRest : t.node (src ++ rest) = none :=
        node_below_eq_none hleaf (List.prefix_append _ _) (by simpa using hrest)
      rw [if_neg hq, hsrcRest]
      split
      · rfl
      · exact hempty _ (List.prefix_append _ _) hq
  · have hq : q ≠ dst := by
      rintro rfl
      exact hpre (List.prefix_refl _)
    rw [if_neg hpre, if_neg hq]
    by_cases hpre' : src <+: q
    · rw [if_pos hpre']
      by_cases heq : q = src
      · rw [if_pos heq]
      · rw [if_neg heq]
        exact node_below_eq_none hleaf hpre' heq
    · have heq : q ≠ src := by
        rintro rfl
        exact hpre' (List.prefix_refl _)
      rw [if_neg hpre', if_neg heq]

/-- **What a rename to another location has done**, if it succeeds. -/
theorem rename_ok {src dst : Location} (hne : src ≠ dst) (h : t.rename src dst = .ok t') :
    t.Movable src dst ∧ ∀ q, t'.node q = movedNode t.node src dst q := by
  unfold rename at h
  split at h
  · cases h
  rename_i n hsrc
  have hthere : t.node src ≠ none := by rw [hsrc]; simp
  rw [if_neg hne] at h
  split at h
  · cases h
  split at h
  · cases h
  split at h
  · rename_i hs hd hparent
    by_cases hdir : n = .dir
    · -- a directory moves with all that is below it, to where nothing is
      rw [dif_pos hdir] at h
      split at h
      · cases h
      rename_i hbelow
      split at h
      · rename_i hnone
        cases h
        exact ⟨⟨hthere, hbelow, Or.inl hnone, fun q hpre hq =>
          node_below_eq_none (by rw [hnone]; simp) hpre hq⟩, fun q => rfl⟩
      · split at h
        · rename_i hdst hempty
          cases h
          rw [hdir] at hsrc
          exact ⟨⟨hthere, hbelow, Or.inr (iff_of_true hdst hsrc), isEmptyDir_iff.mp hempty⟩,
            fun q => rfl⟩
        · cases h
      · cases h
    · -- a file or a link takes the place of whatever stood there
      rw [dif_neg hdir] at h
      split at h
      · cases h
      rename_i hdst
      have hleaf : t.node src ≠ some .dir := by
        rw [hsrc]
        simpa using hdir
      cases h
      have hbelow : ¬ src <+: dst := not_isPrefix_of_leaf hleaf hne hd hparent
      have hbelowDst : ∀ q, dst <+: q → q ≠ dst → t.node q = none :=
        fun q hpre hq => node_below_eq_none hdst hpre hq
      refine ⟨⟨hthere, hbelow, Or.inr (iff_of_false hdst hleaf), hbelowDst⟩, fun q => ?_⟩
      rw [node_insert, node_erase]
      exact movedNode_of_leaf hsrc hleaf hbelowDst q
  · cases h

/-- The parent of the destination is where it was. -/
theorem rename_keeps_parent {src dst : Location} (hnil : dst ≠ [])
    (h : t.rename src dst = .ok t') (hparent : t.node dst.dropLast = some .dir) :
    t'.node dst.dropLast = some .dir := by
  by_cases hne : src = dst
  · rw [hne] at h
    rw [rename_self_ok h]
    exact hparent
  · obtain ⟨hmovable, hmoved⟩ := rename_ok hne h
    have hdstAbove : ¬ dst <+: dst.dropLast := fun hpre => hnil (eq_nil_of_isPrefix_dropLast hpre)
    have hsrcAbove : ¬ src <+: dst.dropLast := fun hpre =>
      hmovable.not_below (hpre.trans (List.dropLast_prefix dst))
    rw [hmoved, movedNode, if_neg hdstAbove, if_neg hsrcAbove]
    exact hparent

theorem rename_of_movable {src dst : Location} (hne : src ≠ dst) (h : t.Movable src dst)
    (hparent : t.node dst.dropLast = some .dir) : ∃ t', t.rename src dst = .ok t' := by
  have hs : src ≠ [] := by
    rintro rfl
    exact h.not_below List.nil_prefix
  have hd : dst ≠ [] := by
    rintro rfl
    exact h.there (h.holds_nothing src List.nil_prefix hne)
  unfold rename
  split
  · rename_i hnone
    exact absurd hnone h.there
  rename_i n hsrc
  rw [if_neg hne, dif_neg hs, dif_neg hd, dif_pos hparent]
  -- a directory replaces nothing or an empty directory, a leaf replaces nothing or a leaf
  by_cases hdir : n = .dir
  · rw [dif_pos hdir, dif_neg h.not_below]
    rw [hdir] at hsrc
    rcases h.kind with hnone | hkind
    · rw [hnone]
      exact ⟨_, rfl⟩
    · rw [hkind.mpr hsrc]
      exact ⟨_, if_pos (isEmptyDir_iff.mpr h.holds_nothing)⟩
  · have hdst : t.node dst ≠ some .dir := by
      rcases h.kind with hnone | hkind
      · rw [hnone]
        simp
      · intro hdst
        rw [hkind.mp hdst] at hsrc
        exact hdir (Option.some.inj hsrc).symm
    rw [dif_neg hdir, dif_neg hdst]
    exact ⟨_, rfl⟩

/-- Directories that are made on the way to the destination make no difference. -/
theorem movable_congr {src dst : Location}
    (hnode : ∀ q, t'.node q = if q <+: dst.dropLast then some .dir else t.node q) :
    t'.Movable src dst ↔ t.Movable src dst := by
  have hsrc : ¬ src <+: dst → t'.node src = t.node src := by
    intro hbelow
    rw [hnode src, if_neg fun hpre => hbelow (hpre.trans (List.dropLast_prefix dst))]
  have hdst : t'.node dst = t.node dst := by
    rw [hnode dst]
    split
    · -- only the root directory is on the way to itself
      rename_i hpre
      rw [eq_nil_of_isPrefix_dropLast hpre, t.root_isDir]
    · rfl
  have hbelow : ∀ q, dst <+: q → q ≠ dst → t'.node q = t.node q := by
    intro q hpre hne
    have hnot : ¬ q <+: dst.dropLast := fun hq =>
      hne ((hq.trans (List.dropLast_prefix dst)).eq_of_length_le hpre.length_le)
    rw [hnode q, if_neg hnot]
  constructor
  · rintro ⟨hthere, hnot, hkind, hnothing⟩
    rw [hsrc hnot] at hthere hkind
    rw [hdst] at hkind
    exact ⟨hthere, hnot, hkind, fun q hpre hne => (hbelow q hpre hne) ▸ hnothing q hpre hne⟩
  · rintro ⟨hthere, hnot, hkind, hnothing⟩
    refine ⟨by rwa [hsrc hnot], hnot, by rwa [hsrc hnot, hdst], fun q hpre hne => ?_⟩
    rw [hbelow q hpre hne]
    exact hnothing q hpre hne

end Tree

end Posix
