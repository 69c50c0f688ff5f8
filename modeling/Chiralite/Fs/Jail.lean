import Chiralite.Framework.PathWalk
import Chiralite.Protocol.Messages

/-!
# The path jail

`PathJail` of `fs/jail.py`. Its `resolve` does not resolve a path as a whole: it appends one
component after another to a running candidate, and whenever the candidate is a symbolic link it
replaces the candidate by the link's full resolution, which has to lie below the root.

What makes the walk safe is one invariant: the candidate is a real location (no symbolic link on
the way to it) at or below the root. Appending a name that is no link keeps it, and so does a
resolution that was checked. A real location is its own resolution, so that a path which passes
the walk cannot lead out of the root by any link (`resolve_confined`).

Resolution takes fuel, and a call that runs out of it answers `none`; in a tree without symlink
cycles all large enough fuels give the same answer.

The tree holds what `lstat` shows, and a link is one that it shows. Where there is none, `lstat` may
also refuse to answer: a name may be too long, a directory closed to the process, the device broken.
`is_symlink` passes over the refusals that say that nothing is there, and raises the others; the
loop catches nothing, so that such an `OSError` is a third way for `resolve` to end. Where `lstat`
refuses, and with which error, is a parameter. `Path.resolve` asks `realpath`, which takes every
refusal for "no link" and raises nothing. `repr` of a string is a parameter of the error texts.
-/

namespace Chiralite

open Py Posix

/-- `Path(s).parts`. An absolute path has its root as first part; exactly two leading slashes
are a root of their own. -/
def pathParts (s : Str) : List Str :=
  let root :=
    if ¬ isAbsolute s then []
    else if s.take 2 = [sep, sep] ∧ s.take 3 ≠ [sep, sep, sep] then [[sep, sep]]
    else [[sep]]
  root ++ components s

/-- `JailbreakError`, with what its text is made of. -/
inductive JailbreakError where
  /-- `path traversal component '..' in: {rel_path!r}`. -/
  | traversal (relPath : Str)
  /-- `symlink {candidate!r} escapes silo root {self._root!r}`. -/
  | escapes (candidate root : Location)
  /-- `{path!r} is outside silo root {self._root!r}`. -/
  | outside (path root : Location)
  deriving DecidableEq

/-- `repr` of a `Path`. -/
def reprPath (reprStr : Str → Str) (p : Location) : Str :=
  lit "PosixPath(" ++ reprStr (pathText p) ++ lit ")"

/-- `str(exc)` of a `JailbreakError`. -/
def JailbreakError.text (reprStr : Str → Str) : JailbreakError → Str
  | .traversal relPath => lit "path traversal component '..' in: " ++ reprStr relPath
  | .escapes candidate root =>
    lit "symlink " ++ reprPath reprStr candidate ++ lit " escapes silo root " ++
      reprPath reprStr root
  | .outside path root =>
    reprPath reprStr path ++ lit " is outside silo root " ++ reprPath reprStr root

/-- What `resolve` raises. -/
inductive ResolveError where
  | jailbreak (err : JailbreakError)
  /-- The `OSError` of an `lstat` that is refused. -/
  | os (errno : Errno) (path : Location)
  deriving DecidableEq

/-- `_ignore_error` of `pathlib`: `ENOENT`, `ENOTDIR`, `EBADF` and `ELOOP` say that nothing is
there. -/
def ignoreError : Errno → Bool
  | .enoent | .enotdir | .eloop => true
  | .other code => code = 9
  | _ => false

/-- The refusal of `lstat` that `is_symlink` raises at a place, if there is one. -/
def lstatRefuses (lstatError : Location → Option Errno) (p : Location) : Option Errno :=
  (lstatError p).filter fun errno => ¬ ignoreError errno

/-- `PathJail`, by its resolved root. -/
structure PathJail where
  root : Location
  deriving DecidableEq

namespace PathJail

/-- `PathJail.__init__`, in the working directory `cwd`. -/
def init (t : Tree) (fuel : Nat) (cwd : {p // t.Real p}) (root : Str) : Option PathJail :=
  (t.realpath fuel cwd root).map fun root => ⟨root⟩

/-- What `is_symlink` answers for a place, by whether a link is shown there. -/
def answer (lstatError : Location → Option Errno) (p : Location) (link : Bool) :
    Except Errno Bool :=
  if link then .ok true
  else
    match lstatRefuses lstatError p with
    | some errno => .error errno
    | none => .ok false

/-- `candidate.is_symlink()`. -/
def isSymlink (t : Tree) (fuel : Nat) (lstatError : Location → Option Errno)
    (candidate : Location) : Option (Except Errno Bool) :=
  (t.lstat fuel candidate).map fun node => answer lstatError candidate <|
    match node with
    | some (.symlink _) => true
    | _ => false

/-- The loop of `resolve`, from a candidate, over the parts that are left. -/
def resolveLoop (jail : PathJail) (t : Tree) (fuel : Nat) (lstatError : Location → Option Errno)
    (relPath : Str) : Location → List Str → Option (Except ResolveError Location)
  | candidate, [] => some (.ok candidate)
  | candidate, part :: parts =>
    if part = [] ∨ part = dot then resolveLoop jail t fuel lstatError relPath candidate parts
    else if part = Posix.dotdot then some (.error (.jailbreak (.traversal relPath)))
    else
      let candidate := joinPath candidate part
      match isSymlink t fuel lstatError candidate with
      | none => none
      -- nothing catches the `OSError`
      | some (.error errno) => some (.error (.os errno candidate))
      | some (.ok false) => resolveLoop jail t fuel lstatError relPath candidate parts
      | some (.ok true) =>
        match t.resolveLocation fuel candidate with
        | none => none
        | some resolved =>
          if ¬ jail.root <+: resolved then
            some (.error (.jailbreak (.escapes candidate jail.root)))
          else resolveLoop jail t fuel lstatError relPath resolved parts

/-- `PathJail.resolve`. -/
def resolve (jail : PathJail) (t : Tree) (fuel : Nat) (lstatError : Location → Option Errno)
    (relPath : Str) : Option (Except ResolveError Location) :=
  resolveLoop jail t fuel lstatError relPath jail.root (pathParts relPath)

/-- `PathJail.check`, on an absolute path given by its components. -/
def check (jail : PathJail) (t : Tree) (fuel : Nat) (path : Location) :
    Option (Except JailbreakError Unit) :=
  (t.resolveLocation fuel path).map fun resolved =>
    if ¬ jail.root <+: resolved then .error (.outside path jail.root) else .ok ()

variable {jail : PathJail} {t : Tree} {lstatError : Location → Option Errno} {p : Location}

/-! ### One part -/

/-- A refusal that `is_symlink` raises is one of `lstat`. -/
theorem lstatError_of_refuses {errno : Errno} (h : lstatRefuses lstatError p = some errno) :
    lstatError p = some errno := (Option.filter_eq_some_iff.mp h).1

theorem answer_true : answer lstatError p true = .ok true := rfl

theorem answer_of_silent {link : Bool} (h : link = false → lstatRefuses lstatError p = none) :
    answer lstatError p link = .ok link := by
  cases link with
  | false => rw [answer, h rfl]; rfl
  | true => rfl

theorem answer_of_refuses {errno : Errno} (h : lstatRefuses lstatError p = some errno) :
    answer lstatError p false = .error errno := by
  rw [answer, h]
  rfl

/-- The parts of a wire path are names. -/
theorem pathParts_of_valid {v : Str} (h : (validateRelativePath v).Ok) :
    ∀ c ∈ pathParts v, IsName c ∧ sep ∉ c := by
  obtain ⟨-, -, habs, hup⟩ := validateRelativePath_ok_iff.mp h
  have hrel : isAbsolute v = false := by
    rw [isAbsolute, beq_eq_false_iff_ne]
    exact habs
  intro c hc
  simp only [pathParts, hrel, Bool.false_eq_true, not_false_eq_true, if_true, List.nil_append,
    components, List.mem_filter, decide_eq_true_eq] at hc
  obtain ⟨hmem, hempty, hdot⟩ := hc
  refine ⟨⟨hempty, hdot, ?_⟩, sep_notMem_of_mem_splitOn hmem⟩
  rintro rfl
  exact hup hmem

/-- Below a real candidate, `is_symlink` answers for what stands there. -/
theorem isSymlink_of_real (lstatError : Location → Option Errno) (h : t.Real p) (c : Str) :
    ∃ n, ∀ fuel ≥ n, isSymlink t fuel lstatError (p ++ [c]) =
      some (answer lstatError (p ++ [c]) (t.isSymlink (p ++ [c]))) := by
  obtain ⟨n, hn⟩ := Tree.lstat_concat_of_real h c
  refine ⟨n, fun fuel hfuel => ?_⟩
  unfold isSymlink
  rw [hn fuel hfuel]
  rfl

/-! ### The loop -/

theorem resolveLoop_dotdot {fuel : Nat} {relPath : Str} {candidate : Location} {parts : List Str} :
    jail.resolveLoop t fuel lstatError relPath candidate (Posix.dotdot :: parts) =
      some (.error (.jailbreak (.traversal relPath))) := by
  rw [resolveLoop, if_neg (by decide), if_pos rfl]

/-- The candidate after the join of a name, and what the loop does with it. -/
theorem resolveLoop_name {fuel : Nat} {relPath part : Str} {candidate : Location}
    {parts : List Str} (hname : IsName part) (hsep : sep ∉ part) :
    jail.resolveLoop t fuel lstatError relPath candidate (part :: parts) =
      match isSymlink t fuel lstatError (candidate ++ [part]) with
      | none => none
      | some (.error errno) => some (.error (.os errno (candidate ++ [part])))
      | some (.ok false) =>
        jail.resolveLoop t fuel lstatError relPath (candidate ++ [part]) parts
      | some (.ok true) =>
        match t.resolveLocation fuel (candidate ++ [part]) with
        | none => none
        | some resolved =>
          if ¬ jail.root <+: resolved then
            some (.error (.jailbreak (.escapes (candidate ++ [part]) jail.root)))
          else jail.resolveLoop t fuel lstatError relPath resolved parts := by
  rw [resolveLoop, if_neg (by simp [hname.1, hname.2.1]), if_neg hname.2.2,
    joinPath_name hname hsep]

/-- **The loop keeps the candidate real and below the root.** From such a candidate, and over
parts that are names, it raises or ends at such a location; an `OSError` is one of `lstat`. Large
enough fuels all agree. -/
theorem resolveLoop_spec (hc : t.NoSymlinkCycles) (lstatError : Location → Option Errno)
    (relPath : Str) {parts : List Str} (hparts : ∀ c ∈ parts, IsName c ∧ sep ∉ c)
    {candidate : Location} (hreal : t.Real candidate) (hroot : jail.root <+: candidate) :
    ∃ r n, (∀ fuel ≥ n, jail.resolveLoop t fuel lstatError relPath candidate parts = some r) ∧
      (∀ p, r = .ok p → t.Real p ∧ jail.root <+: p) ∧
      ∀ errno q, r = .error (.os errno q) → lstatError q = some errno := by
  induction parts generalizing candidate with
  | nil =>
    refine ⟨.ok candidate, 0, fun _ _ => rfl, ?_, by simp⟩
    rintro p ⟨⟩
    exact ⟨hreal, hroot⟩
  | cons part parts ih =>
    obtain ⟨hname, hsep⟩ := hparts part List.mem_cons_self
    have hrest : ∀ c ∈ parts, IsName c ∧ sep ∉ c :=
      fun c hcm => hparts c (List.mem_cons_of_mem _ hcm)
    obtain ⟨n₁, hlink⟩ := isSymlink_of_real lstatError hreal part
    by_cases hsym : t.isSymlink (candidate ++ [part]) = true
    · -- a link: its resolution is real, and is checked against the root
      rw [hsym, answer_true] at hlink
      obtain ⟨resolved, hwalk⟩ := Tree.exists_walks_end hc ⟨[], candidate ++ [part]⟩
      have hresolved : t.Real resolved := hwalk.real Tree.real_root
      obtain ⟨n₂, hresolve⟩ := Tree.resolveFrom_of_walks hwalk
      by_cases hinside : jail.root <+: resolved
      · obtain ⟨r, n₃, hloop, hr⟩ := ih hrest hresolved hinside
        refine ⟨r, n₁ + n₂ + n₃, fun fuel hfuel => ?_, hr⟩
        rw [resolveLoop_name hname hsep, hlink fuel (by omega)]
        simp only [Tree.resolveLocation, hresolve fuel (by omega), hinside, not_true_eq_false,
          if_false]
        exact hloop fuel (by omega)
      · refine ⟨.error (.jailbreak (.escapes (candidate ++ [part]) jail.root)), n₁ + n₂,
          fun fuel hfuel => ?_, by simp, by simp⟩
        rw [resolveLoop_name hname hsep, hlink fuel (by omega)]
        simp only [Tree.resolveLocation, hresolve fuel (by omega), hinside, not_false_eq_true,
          if_true]
    · rw [Bool.not_eq_true] at hsym
      rw [hsym] at hlink
      cases hrefuses : lstatRefuses lstatError (candidate ++ [part]) with
      | some errno =>
        -- `lstat` is refused, and the error goes out
        rw [answer_of_refuses hrefuses] at hlink
        refine ⟨.error (.os errno (candidate ++ [part])), n₁, fun fuel hfuel => ?_, by simp, ?_⟩
        · rw [resolveLoop_name hname hsep, hlink fuel hfuel]
        · rintro errno' q ⟨⟩
          exact lstatError_of_refuses hrefuses
      | none =>
        -- no link: the candidate stays real with the name appended
        rw [answer_of_silent fun _ => hrefuses] at hlink
        obtain ⟨r, n₃, hloop, hr⟩ :=
          ih hrest (hreal.concat hname hsym) (hroot.trans (List.prefix_append _ _))
        refine ⟨r, n₁ + n₃, fun fuel hfuel => ?_, hr⟩
        rw [resolveLoop_name hname hsep, hlink fuel (by omega)]
        exact hloop fuel (by omega)

/-- **What `resolve` returns passes `check`.** It is below the root and its own resolution. -/
theorem check_of_resolve (hc : t.NoSymlinkCycles) (hroot : t.Real jail.root)
    (lstatError : Location → Option Errno) {relPath : Str}
    (hrel : (validateRelativePath relPath).Ok) :
    ∃ r n, ∀ fuel ≥ n, jail.resolve t fuel lstatError relPath = some r ∧
      ∀ p, r = .ok p → jail.check t fuel p = some (.ok ()) := by
  have hstart : jail.root <+: jail.root := List.prefix_refl _
  obtain ⟨r, n₁, hresolve, hr, -⟩ :=
    resolveLoop_spec hc lstatError relPath (pathParts_of_valid hrel) hroot hstart
  cases r with
  | error err => exact ⟨.error err, n₁, fun fuel hfuel => ⟨hresolve fuel hfuel, by simp⟩⟩
  | ok p =>
    obtain ⟨hp, hbelow⟩ := hr p rfl
    obtain ⟨n₂, hself⟩ := Tree.resolveLocation_of_real hp
    refine ⟨.ok p, n₁ + n₂, fun fuel hfuel => ⟨hresolve fuel (by omega), ?_⟩⟩
    rintro q ⟨⟩
    rw [check, hself fuel (by omega), Option.map_some, if_neg (not_not_intro hbelow)]

/-- **Confinement.** Whatever links the tree holds and wherever `lstat` is refused, a wire path
makes `resolve` raise `JailbreakError` or the `OSError` of `lstat`, or is taken to a location at or
below the root, with no symbolic link between the root and it, that is its own full resolution. -/
theorem resolve_confined (t : Tree) (hc : t.NoSymlinkCycles) (lstatError : Location → Option Errno)
    (cwd : {p // t.Real p}) (root relPath : Str) (hrel : (validateRelativePath relPath).Ok) :
    ∃ jail r n, ∀ fuel ≥ n, PathJail.init t fuel cwd root = some jail ∧
      jail.resolve t fuel lstatError relPath = some r ∧
      ((∃ err, r = .error (.jailbreak err)) ∨
        (∃ errno q, r = .error (.os errno q) ∧ lstatError q = some errno) ∨
        ∃ p, r = .ok p ∧ jail.root <+: p ∧
          (∀ q, jail.root <+: q → q <+: p → q ≠ jail.root → t.isSymlink q = false) ∧
          t.resolveLocation fuel p = some p) := by
  obtain ⟨rootLoc, hrootReal, n₁, hrealpath⟩ := Tree.exists_realpath hc cwd.2 root
  -- the walk starts at the root itself, which is real because it has been resolved
  have hstart : (PathJail.mk rootLoc).root <+: rootLoc := List.prefix_refl rootLoc
  obtain ⟨r, n₂, hresolve, hok, hos⟩ :=
    resolveLoop_spec hc lstatError relPath (pathParts_of_valid hrel) hrootReal hstart
  have hinit : ∀ fuel ≥ n₁, PathJail.init t fuel cwd root = some ⟨rootLoc⟩ := by
    intro fuel hfuel
    rw [PathJail.init, hrealpath fuel hfuel, Option.map_some]
  cases r with
  | error err =>
    refine ⟨⟨rootLoc⟩, .error err, n₁ + n₂, fun fuel hfuel =>
      ⟨hinit fuel (by omega), hresolve fuel (by omega), ?_⟩⟩
    cases err with
    | jailbreak err => exact Or.inl ⟨err, rfl⟩
    | os errno q => exact Or.inr (Or.inl ⟨errno, q, rfl, hos errno q rfl⟩)
  | ok p =>
    obtain ⟨hp, hbelow⟩ := hok p rfl
    obtain ⟨n₃, hself⟩ := Tree.resolveLocation_of_real hp
    refine ⟨⟨rootLoc⟩, .ok p, n₁ + n₂ + n₃, fun fuel hfuel =>
      ⟨hinit fuel (by omega), hresolve fuel (by omega), Or.inr (Or.inr ⟨p, rfl, hbelow, ?_, ?_⟩)⟩⟩
    · exact fun q _ hq _ => hp.noLink q hq
    · exact hself fuel (by omega)

/-! ### A jail with a link in it -/

/-- The directory `/srv`. -/
def srvTree : Tree := Tree.empty.insert [lit "srv"] .dir (by decide) (by decide) (by decide)

/-- `/srv`, with the link `cur` to the file or directory `data`, which does not exist yet. -/
def sampleTree : Tree :=
  srvTree.insert [lit "srv", lit "cur"] (.symlink (lit "data")) (by decide) (by decide) (by decide)

theorem sampleTree_noSymlinkCycles : sampleTree.NoSymlinkCycles := by
  rintro p ⟨target, hnode, hvisit⟩
  have hlink : p = [lit "srv", lit "cur"] ∧ target = lit "data" := by
    simp only [sampleTree, srvTree, Tree.node_insert] at hnode
    split at hnode
    · rename_i hp
      cases hnode
      exact ⟨hp, rfl⟩
    · split at hnode
      · cases hnode
      · simp only [Tree.empty] at hnode
        split at hnode <;> cases hnode
  obtain ⟨rfl, rfl⟩ := hlink
  -- following the link enters `data`, which is no link, and is done
  have hstart : Cursor.follow [lit "srv"] (lit "data") [] = ⟨[lit "srv"], [lit "data"]⟩ := by
    decide
  have hstep : sampleTree.step ⟨[lit "srv"], [lit "data"]⟩ =
      some ⟨[lit "srv", lit "data"], []⟩ := by decide
  have hvisit' : sampleTree.Visits ⟨[lit "srv"], [lit "data"]⟩ [lit "srv", lit "cur"] := by
    rw [← hstart]
    exact hvisit
  rcases hvisit'.cases_head hstep with ⟨heq, -⟩ | hrest
  · revert heq
    decide
  · exact Tree.not_visits_nil hrest

/-- The `lstat` of a file system whose names have at most 255 characters (`ENAMETOOLONG`). -/
def nameTooLong (p : Location) : Option Errno :=
  if ∃ c ∈ p, 255 < c.length then some (.other 36) else none

theorem sampleTree_confined :
    (validateRelativePath (lit "cur/x")).Ok ∧
      ∃ jail r n, ∀ fuel ≥ n,
        PathJail.init sampleTree fuel ⟨[], Tree.real_root⟩ (lit "/srv") = some jail ∧
        jail.resolve sampleTree fuel nameTooLong (lit "cur/x") = some r ∧
        ((∃ err, r = .error (.jailbreak err)) ∨
          (∃ errno q, r = .error (.os errno q) ∧ nameTooLong q = some errno) ∨
          ∃ p, r = .ok p ∧ jail.root <+: p ∧
            (∀ q, jail.root <+: q → q <+: p → q ≠ jail.root → sampleTree.isSymlink q = false) ∧
            sampleTree.resolveLocation fuel p = some p) :=
  ⟨by decide, resolve_confined sampleTree sampleTree_noSymlinkCycles nameTooLong
    ⟨[], Tree.real_root⟩ (lit "/srv") (lit "cur/x") (by decide)⟩

/-- `"a" * 256`. -/
def longName : Str := (List.replicate 256 (lit "a")).flatten

/-- **A wire path may end in an `OSError`**, neither in `JailbreakError` nor in a location. -/
theorem long_name_raises_os :
    (validateRelativePath longName).Ok ∧
      PathJail.init sampleTree 8 ⟨[], Tree.real_root⟩ (lit "/srv") = some ⟨[lit "srv"]⟩ ∧
      (∀ fuel, (PathJail.mk [lit "srv"]).resolve sampleTree (fuel + 8) nameTooLong longName =
        some (.error (.os (.other 36) [lit "srv", longName]))) ∧
      ¬ ∃ r n, ∀ fuel ≥ n,
        (PathJail.mk [lit "srv"]).resolve sampleTree fuel nameTooLong longName = some r ∧
          ((∃ err, r = .error (.jailbreak err)) ∨ ∃ p, r = .ok p) := by
  have hvalid : (validateRelativePath longName).Ok := by decide +kernel
  have hraise : ∀ fuel, (PathJail.mk [lit "srv"]).resolve sampleTree (fuel + 8) nameTooLong
      longName = some (.error (.os (.other 36) [lit "srv", longName])) := by
    intro fuel
    have hparts : pathParts longName = [longName] := by decide +kernel
    have hname : IsName longName ∧ sep ∉ longName :=
      pathParts_of_valid hvalid longName (by rw [hparts]; exact List.mem_cons_self)
    have hrefuses : lstatRefuses nameTooLong [lit "srv", longName] = some (.other 36) := by
      decide +kernel
    have hdir : sampleTree.resolveLocation (fuel + 8) [lit "srv"] = some [lit "srv"] := rfl
    have hnode : sampleTree.node [lit "srv", longName] = none := by decide +kernel
    rw [resolve, hparts, resolveLoop_name hname.1 hname.2, isSymlink, Tree.lstat]
    simp only [List.getLast?_concat, List.dropLast_concat, hdir, Option.map_some]
    rw [List.singleton_append, hnode]
    dsimp only
    rw [answer_of_refuses hrefuses]
  refine ⟨hvalid, by decide, hraise, ?_⟩
  rintro ⟨r, n, hr⟩
  obtain ⟨hresolve, hend⟩ := hr (n + 8) (by omega)
  rw [hraise n] at hresolve
  cases hresolve
  -- what was raised is the error of `lstat`
  rcases hend with ⟨err, herr⟩ | ⟨p, hp⟩
  · cases herr
  · cases hp

example : (PathJail.mk [lit "srv"]).resolve sampleTree 8 nameTooLong (lit "cur/x") =
    some (.ok [lit "srv", lit "data", lit "x"]) := by decide

end PathJail

end Chiralite
