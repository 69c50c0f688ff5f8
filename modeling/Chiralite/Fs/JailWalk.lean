import Chiralite.Fs.Jail

/-!
# Where the jail takes a path

`PathJail.resolve` takes a path component by component, and what it does with it depends on the
links of the tree. Here the outcome is described without the loop and without fuel. The walk
`Passes` when every link on it leads to somewhere at or below the root, and it is `Stopped` when it
comes to a `..` or to a link that leads out, and `lstat` has not been refused before. What
`resolve` returns is where the path passes to (`passes_of_resolve`), and it returns there if
`lstat` always answers (`resolve_eq_ok_iff`); it raises `JailbreakError` exactly where the path is
stopped (`resolve_eq_error_iff`). On any other path the walk comes to a place that `lstat` refuses,
or to a link with no end.

The walk begins at the root of the jail. Not so for an absolute path: its first part is `/`, and
joining that discards the root, so that the walk begins at the root directory and no later part is
checked unless it is a link. `hostile_rejected_iff` says which of the paths that the wire validator
refuses are refused by the jail as well.
-/

namespace Chiralite

open Py Posix

namespace PathJail

/-! ### Walks -/

/-- **A walk that passes** from a location along some names: each is entered, and where it is a
link, the link leads to somewhere at or below the root. -/
inductive Passes (t : Tree) (root : Location) : Location → List Str → Location → Prop
  | done {here : Location} : Passes t root here [] here
  | go {here there dest : Location} {name : Str} {names : List Str} (hname : IsName name)
      (hthere : t.Resolves (here ++ [name]) there)
      (hinside : t.isSymlink (here ++ [name]) = true → root <+: there)
      (hrest : Passes t root there names dest) : Passes t root here (name :: names) dest

/-- **A walk that is stopped**: it comes to a `..`, or to a link that leads out of the root, and
`lstat` is refused at no place before. -/
inductive Stopped (t : Tree) (lstatError : Location → Option Errno) (root : Location) :
    Location → List Str → Prop
  | up {here : Location} {parts : List Str} :
      Stopped t lstatError root here (Posix.dotdot :: parts)
  | out {here there : Location} {name : Str} {parts : List Str} (hname : IsName name)
      (hlink : t.isSymlink (here ++ [name]) = true) (hthere : t.Resolves (here ++ [name]) there)
      (houtside : ¬ root <+: there) : Stopped t lstatError root here (name :: parts)
  | go {here there : Location} {name : Str} {parts : List Str} (hname : IsName name)
      (hanswers : t.isSymlink (here ++ [name]) = false →
        lstatRefuses lstatError (here ++ [name]) = none)
      (hthere : t.Resolves (here ++ [name]) there)
      (hinside : t.isSymlink (here ++ [name]) = true → root <+: there)
      (hrest : Stopped t lstatError root there parts) :
      Stopped t lstatError root here (name :: parts)

/-- `lstat` is nowhere refused. -/
def Silent (lstatError : Location → Option Errno) : Prop :=
  ∀ p, lstatRefuses lstatError p = none

theorem silent_none : Silent fun _ => none := fun _ => rfl

/-- A component as `pathlib` keeps it. -/
def Component (c : Str) : Prop := c ≠ [] ∧ c ≠ dot ∧ sep ∉ c

theorem component_of_mem {s c : Str} (h : c ∈ components s) : Component c := by
  rw [components, List.mem_filter, decide_eq_true_eq] at h
  exact ⟨h.2.1, h.2.2, sep_notMem_of_mem_splitOn h.1⟩

theorem Component.isName {c : Str} (h : Component c) (hup : c ≠ Posix.dotdot) : IsName c :=
  ⟨h.1, h.2.1, hup⟩

section Loop

variable {jail : PathJail} {t : Tree} {fuel : Nat} {lstatError : Location → Option Errno}
  {relPath : Str} {here p : Location} {parts : List Str}

/-- What `is_symlink` answers below a real candidate is so, and `lstat` has answered. -/
theorem isSymlink_eq_of_real (h : t.Real here) {c : Str} {b : Bool}
    (hb : isSymlink t fuel lstatError (here ++ [c]) = some (.ok b)) :
    (t.isSymlink (here ++ [c]) = false → lstatRefuses lstatError (here ++ [c]) = none) ∧
      t.isSymlink (here ++ [c]) = b := by
  obtain ⟨node, hlstat, hanswer⟩ := Option.map_eq_some_iff.mp hb
  unfold Tree.lstat at hlstat
  simp only [List.getLast?_concat, List.dropLast_concat] at hlstat
  obtain ⟨d, hd, rfl⟩ := Option.map_eq_some_iff.mp hlstat
  -- the directory is real, and so it resolves to itself
  have hself : d = here := (Tree.walks_of_resolveFrom hd).end_unique (Tree.resolves_self h)
  rw [hself] at hanswer
  replace hanswer : answer lstatError (here ++ [c]) (t.isSymlink (here ++ [c])) = .ok b := hanswer
  have hanswers : t.isSymlink (here ++ [c]) = false →
      lstatRefuses lstatError (here ++ [c]) = none := by
    intro hlink
    rw [hlink] at hanswer
    cases hrefuses : lstatRefuses lstatError (here ++ [c]) with
    | none => rfl
    | some errno =>
      rw [answer_of_refuses hrefuses] at hanswer
      cases hanswer
  rw [answer_of_silent hanswers] at hanswer
  exact ⟨hanswers, Except.ok.inj hanswer⟩

/-- Below a real location, a name that is no link leads to itself. -/
theorem resolves_of_not_symlink (h : t.Real here) {c : Str} (hc : IsName c)
    (hlink : t.isSymlink (here ++ [c]) = false) : t.Resolves (here ++ [c]) (here ++ [c]) :=
  Tree.resolves_self (h.concat hc hlink)

theorem resolveLoop_ok (hreal : t.Real here) (hparts : ∀ c ∈ parts, Component c)
    (h : jail.resolveLoop t fuel lstatError relPath here parts = some (.ok p)) :
    Passes t jail.root here parts p := by
  induction parts generalizing here with
  | nil =>
    cases h
    exact .done
  | cons part parts ih =>
    have hcomponent : Component part := hparts part List.mem_cons_self
    have hrest : ∀ c ∈ parts, Component c := fun c hc => hparts c (List.mem_cons_of_mem _ hc)
    by_cases hup : part = Posix.dotdot
    · rw [hup, resolveLoop_dotdot] at h
      cases h
    have hname : IsName part := hcomponent.isName hup
    rw [resolveLoop_name hname hcomponent.2.2] at h
    split at h
    · cases h
    · cases h
    · -- no link
      rename_i hsym
      have hlink := (isSymlink_eq_of_real hreal hsym).2
      refine .go hname (resolves_of_not_symlink hreal hname hlink) ?_
        (ih (hreal.concat hname hlink) hrest h)
      rw [hlink]
      exact nofun
    · -- a link, which must lead to the inside
      split at h
      · cases h
      rename_i resolved hresolved
      have hthere : t.Resolves (here ++ [part]) resolved := Tree.walks_of_resolveFrom hresolved
      by_cases hinside : jail.root <+: resolved
      · rw [if_neg (not_not_intro hinside)] at h
        exact .go hname hthere (fun _ => hinside) (ih hthere.real hrest h)
      · rw [if_pos hinside] at h
        cases h

theorem resolveLoop_error {err : JailbreakError} (hreal : t.Real here)
    (hparts : ∀ c ∈ parts, Component c)
    (h : jail.resolveLoop t fuel lstatError relPath here parts = some (.error (.jailbreak err))) :
    Stopped t lstatError jail.root here parts := by
  induction parts generalizing here with
  | nil => cases h
  | cons part parts ih =>
    have hcomponent : Component part := hparts part List.mem_cons_self
    have hrest : ∀ c ∈ parts, Component c := fun c hc => hparts c (List.mem_cons_of_mem _ hc)
    by_cases hup : part = Posix.dotdot
    · rw [hup]
      exact .up
    have hname : IsName part := hcomponent.isName hup
    rw [resolveLoop_name hname hcomponent.2.2] at h
    split at h
    · cases h
    · -- `lstat` is refused: the error is another one
      cases h
    · -- no link: the name is entered, and the error comes later
      rename_i hsym
      obtain ⟨hanswers, hlink⟩ := isSymlink_eq_of_real hreal hsym
      refine .go hname hanswers (resolves_of_not_symlink hreal hname hlink) ?_
        (ih (hreal.concat hname hlink) hrest h)
      rw [hlink]
      exact nofun
    · -- a link: either it leads out, or the loop goes on from where it leads
      rename_i hsym
      have hlink := (isSymlink_eq_of_real hreal hsym).2
      split at h
      · cases h
      rename_i resolved hresolved
      have hthere : t.Resolves (here ++ [part]) resolved := Tree.walks_of_resolveFrom hresolved
      by_cases hinside : jail.root <+: resolved
      · rw [if_neg (not_not_intro hinside)] at h
        refine .go hname ?_ hthere (fun _ => hinside) (ih hthere.real hrest h)
        rw [hlink]
        exact nofun
      · exact .out hname hlink hthere hinside

/-- One component of the loop, when the fuel is large enough and `lstat` answers: the walk goes on
from where the component leads, unless that is out of the root. -/
theorem resolveLoop_step (jail : PathJail) (relPath : Str) (parts : List Str) {there : Location}
    {part : Str} (hreal : t.Real here) (hname : IsName part) (hsep : sep ∉ part)
    (hanswers : t.isSymlink (here ++ [part]) = false →
      lstatRefuses lstatError (here ++ [part]) = none)
    (hthere : t.Resolves (here ++ [part]) there) :
    ∃ n, ∀ fuel ≥ n, jail.resolveLoop t fuel lstatError relPath here (part :: parts) =
      if t.isSymlink (here ++ [part]) = true ∧ ¬ jail.root <+: there then
        some (.error (.jailbreak (.escapes (here ++ [part]) jail.root)))
      else jail.resolveLoop t fuel lstatError relPath there parts := by
  obtain ⟨n₁, hlink⟩ := isSymlink_of_real lstatError hreal part
  rw [answer_of_silent hanswers] at hlink
  obtain ⟨n₂, hresolve⟩ := Tree.resolveFrom_of_walks hthere
  refine ⟨n₁ + n₂, fun fuel hfuel => ?_⟩
  rw [resolveLoop_name hname hsep, hlink fuel (by omega)]
  by_cases hsym : t.isSymlink (here ++ [part]) = true
  · simp only [hsym, Tree.resolveLocation, hresolve fuel (by omega), true_and]
  · rw [Bool.not_eq_true] at hsym
    have hself : there = here ++ [part] :=
      Tree.Walks.end_unique hthere (resolves_of_not_symlink hreal hname hsym)
    simp [hsym, hself]

theorem Passes.resolveLoop (h : Passes t jail.root here parts p) (hsilent : Silent lstatError)
    (relPath : Str) (hreal : t.Real here) (hparts : ∀ c ∈ parts, Component c) :
    ∃ n, ∀ fuel ≥ n, jail.resolveLoop t fuel lstatError relPath here parts = some (.ok p) := by
  induction h with
  | done => exact ⟨0, fun _ _ => rfl⟩
  | go hname hthere hinside _ ih =>
    have hsep := (hparts _ List.mem_cons_self).2.2
    obtain ⟨n₁, hstep⟩ :=
      resolveLoop_step jail relPath _ hreal hname hsep (fun _ => hsilent _) hthere
    obtain ⟨n₂, hrest⟩ := ih hthere.real fun c hc => hparts c (List.mem_cons_of_mem _ hc)
    refine ⟨n₁ + n₂, fun fuel hfuel => ?_⟩
    rw [hstep fuel (by omega), if_neg fun hout => hout.2 (hinside hout.1)]
    exact hrest fuel (by omega)

theorem Stopped.resolveLoop (h : Stopped t lstatError jail.root here parts) (relPath : Str)
    (hreal : t.Real here) (hparts : ∀ c ∈ parts, Component c) :
    ∃ n, ∀ fuel ≥ n, ∃ err,
      jail.resolveLoop t fuel lstatError relPath here parts = some (.error (.jailbreak err)) := by
  induction h with
  | up => exact ⟨0, fun _ _ => ⟨_, resolveLoop_dotdot⟩⟩
  | out hname hlink hthere houtside =>
    have hsep := (hparts _ List.mem_cons_self).2.2
    -- a link is shown
    obtain ⟨n, hstep⟩ := resolveLoop_step jail relPath _ hreal hname hsep
      (fun hfalse => absurd hlink (by rw [hfalse]; exact Bool.false_ne_true)) hthere
    refine ⟨n, fun fuel hfuel => ?_⟩
    rw [hstep fuel hfuel, if_pos ⟨hlink, houtside⟩]
    exact ⟨_, rfl⟩
  | go hname hanswers hthere hinside _ ih =>
    have hsep := (hparts _ List.mem_cons_self).2.2
    obtain ⟨n₁, hstep⟩ := resolveLoop_step jail relPath _ hreal hname hsep hanswers hthere
    obtain ⟨n₂, hrest⟩ := ih hthere.real fun c hc => hparts c (List.mem_cons_of_mem _ hc)
    refine ⟨n₁ + n₂, fun fuel hfuel => ?_⟩
    rw [hstep fuel (by omega), if_neg fun hout => hout.2 (hinside hout.1)]
    exact hrest fuel (by omega)

end Loop

/-! ### Paths -/

section Paths

variable {jail : PathJail} {t : Tree} {fuel : Nat} {lstatError : Location → Option Errno}
  {relPath : Str} {p : Location}

/-- Where the walk along a path begins. -/
def walkStart (jail : PathJail) (relPath : Str) : Location :=
  if isAbsolute relPath then [] else jail.root

theorem real_walkStart (hroot : t.Real jail.root) : t.Real (walkStart jail relPath) := by
  unfold walkStart
  split
  · exact Tree.real_root
  · exact hroot

/-- Before the walk along an absolute path, `lstat` is asked for the root directory. -/
def StartAnswers (lstatError : Location → Option Errno) (relPath : Str) : Prop :=
  isAbsolute relPath = true → lstatRefuses lstatError [] = none

/-- The part that stands for the root takes the walk to the root directory. -/
theorem resolveLoop_slash {first : Str} {parts : List Str}
    (hfirst : first = [sep] ∨ first = [sep, sep]) :
    jail.resolveLoop t fuel lstatError relPath jail.root (first :: parts) =
      match lstatRefuses lstatError [] with
      | some errno => some (.error (.os errno []))
      | none => jail.resolveLoop t fuel lstatError relPath [] parts := by
  have hjoin : joinPath jail.root first = [] := by
    rcases hfirst with rfl | rfl
    · rfl
    · rfl
  have hskip : ¬ (first = [] ∨ first = dot) ∧ first ≠ Posix.dotdot := by
    rcases hfirst with rfl | rfl
    · decide
    · decide
  have hdir : isSymlink t fuel lstatError [] = some (answer lstatError [] false) := by
    simp [isSymlink, Tree.lstat, t.root_isDir]
  rw [PathJail.resolveLoop, if_neg hskip.1, if_neg hskip.2, hjoin]
  dsimp only
  rw [hdir]
  cases hrefuses : lstatRefuses lstatError [] with
  | some errno => rw [answer_of_refuses hrefuses]
  | none => rw [answer_of_silent fun _ => hrefuses]

theorem pathParts_of_absolute (habs : isAbsolute relPath = true) :
    ∃ first, (first = [sep] ∨ first = [sep, sep]) ∧
      pathParts relPath = first :: components relPath := by
  unfold pathParts
  dsimp only
  rw [if_neg (not_not_intro habs)]
  split
  · exact ⟨_, Or.inr rfl, rfl⟩
  · exact ⟨_, Or.inl rfl, rfl⟩

theorem resolve_eq_resolveLoop (hstart : StartAnswers lstatError relPath) :
    jail.resolve t fuel lstatError relPath =
      jail.resolveLoop t fuel lstatError relPath (walkStart jail relPath)
        (components relPath) := by
  unfold resolve walkStart
  by_cases habs : isAbsolute relPath = true
  · obtain ⟨first, hfirst, hparts⟩ := pathParts_of_absolute habs
    rw [hparts, resolveLoop_slash hfirst, hstart habs, if_pos habs]
  · rw [pathParts, if_pos habs, if_neg habs]
    rfl

/-- A `resolve` that ends in no `OSError` has seen the root directory, if it had to. -/
theorem startAnswers_of_resolve {r : Except ResolveError Location}
    (h : jail.resolve t fuel lstatError relPath = some r)
    (hr : ∀ errno q, r ≠ .error (.os errno q)) : StartAnswers lstatError relPath := by
  intro habs
  obtain ⟨first, hfirst, hparts⟩ := pathParts_of_absolute habs
  rw [resolve, hparts, resolveLoop_slash hfirst] at h
  cases hrefuses : lstatRefuses lstatError [] with
  | none => rfl
  | some errno =>
    rw [hrefuses] at h
    cases h
    exact absurd rfl (hr errno [])

/-- The root that a jail was made with is real. -/
theorem real_root_of_init {cwd : {p // t.Real p}} {root : Str}
    (h : PathJail.init t fuel cwd root = some jail) : t.Real jail.root := by
  obtain ⟨rootLoc, hrealpath, rfl⟩ := Option.map_eq_some_iff.mp h
  have hstart : t.Real (Cursor.follow cwd.1 root []).here := by
    unfold Cursor.follow
    dsimp only
    split
    · exact Tree.real_root
    · exact cwd.2
  exact (Tree.walks_of_resolveFrom hrealpath).real hstart

theorem not_isAbsolute_of_valid (h : (validateRelativePath relPath).Ok) :
    ¬ isAbsolute relPath = true := by
  rw [isAbsolute, beq_iff_eq]
  exact (validateRelativePath_ok_iff.mp h).2.2.1

/-- The walk along a wire path begins at the root of the jail. -/
theorem walkStart_of_valid (h : (validateRelativePath relPath).Ok) :
    walkStart jail relPath = jail.root := if_neg (not_isAbsolute_of_valid h)

theorem startAnswers_of_valid (h : (validateRelativePath relPath).Ok) :
    StartAnswers lstatError relPath := fun habs => absurd habs (not_isAbsolute_of_valid h)

/-- A walk that passes stays at or below the root, and ends at a real location. -/
theorem Passes.real_below {root here dest : Location} {names : List Str}
    (h : Passes t root here names dest) (hreal : t.Real here) (hbelow : root <+: here) :
    t.Real dest ∧ root <+: dest := by
  induction h with
  | done => exact ⟨hreal, hbelow⟩
  | @go here there dest name names hname hthere hinside _ ih =>
    refine ih hthere.real ?_
    by_cases hlink : t.isSymlink (here ++ [name]) = true
    · exact hinside hlink
    · rw [Bool.not_eq_true] at hlink
      rw [Tree.Walks.end_unique hthere (resolves_of_not_symlink hreal hname hlink)]
      exact hbelow.trans (List.prefix_append _ _)

/-- Along names that lead through no link, the loop appends one after the other. -/
theorem resolveLoop_of_real (hsilent : Silent lstatError) (relPath : Str) {here : Location}
    {names : List Str} (h : t.Real (here ++ names)) (hsep : ∀ c ∈ names, sep ∉ c)
    (hfuel : (here ++ names).length ≤ fuel) :
    jail.resolveLoop t fuel lstatError relPath here names = some (.ok (here ++ names)) := by
  induction names generalizing here with
  | nil =>
    rw [List.append_nil]
    rfl
  | cons name names ih =>
    have hsplit : here ++ name :: names = here ++ [name] ++ names := by simp
    have hname : IsName name := h.names name (by simp)
    rw [hsplit] at h hfuel ⊢
    have hhere : t.Real here :=
      h.of_isPrefix ((List.prefix_append here [name]).trans (List.prefix_append _ _))
    have hshort : here.length ≤ fuel := by
      rw [List.length_append, List.length_append] at hfuel
      omega
    -- the directory that is looked into resolves to itself
    have hself : t.resolveLocation fuel here = some here :=
      Tree.resolveFrom_of_real (p := []) hhere hshort
    have hlink : isSymlink t fuel lstatError (here ++ [name]) = some (.ok false) := by
      rw [isSymlink, Tree.lstat]
      simp only [List.getLast?_concat, List.dropLast_concat, hself, Option.map_some]
      rw [answer_of_silent fun _ => hsilent _]
      exact congrArg (fun b => some (Except.ok b)) (h.noLink _ (List.prefix_append _ _))
    rw [resolveLoop_name hname (hsep name List.mem_cons_self), hlink]
    exact ih h (fun c hc => hsep c (List.mem_cons_of_mem _ hc)) hfuel

/-- A wire path that leads through no link is taken to where it says. -/
theorem resolve_of_real (hsilent : Silent lstatError) (hvalid : (validateRelativePath relPath).Ok)
    (h : t.Real (jail.root ++ components relPath))
    (hfuel : (jail.root ++ components relPath).length ≤ fuel) :
    jail.resolve t fuel lstatError relPath = some (.ok (jail.root ++ components relPath)) := by
  rw [resolve_eq_resolveLoop (startAnswers_of_valid hvalid), walkStart_of_valid hvalid]
  exact resolveLoop_of_real hsilent relPath h (fun c hc => (component_of_mem hc).2.2) hfuel

/-- With enough fuel, `resolve` returns where the path passes to. -/
theorem Passes.resolve (h : Passes t jail.root (walkStart jail relPath) (components relPath) p)
    (hsilent : Silent lstatError) (hroot : t.Real jail.root) :
    ∃ n, ∀ fuel ≥ n, jail.resolve t fuel lstatError relPath = some (.ok p) := by
  obtain ⟨n, hn⟩ := h.resolveLoop hsilent relPath (real_walkStart hroot)
    fun c hc => component_of_mem hc
  exact ⟨n, fun fuel hfuel => (resolve_eq_resolveLoop fun _ => hsilent _).trans (hn fuel hfuel)⟩

/-- The same for a wire path, whose walk begins at the root of the jail. -/
theorem Passes.resolve_of_valid (h : Passes t jail.root jail.root (components relPath) p)
    (hsilent : Silent lstatError) (hroot : t.Real jail.root)
    (hvalid : (validateRelativePath relPath).Ok) :
    ∃ n, ∀ fuel ≥ n, jail.resolve t fuel lstatError relPath = some (.ok p) := by
  refine Passes.resolve ?_ hsilent hroot
  rw [walkStart_of_valid hvalid]
  exact h

/-- **What `resolve` returns is where the path passes to.** -/
theorem passes_of_resolve (hroot : t.Real jail.root)
    (h : jail.resolve t fuel lstatError relPath = some (.ok p)) :
    Passes t jail.root (walkStart jail relPath) (components relPath) p := by
  rw [resolve_eq_resolveLoop (startAnswers_of_resolve h (by simp))] at h
  exact resolveLoop_ok (real_walkStart hroot) (fun c hc => component_of_mem hc) h

theorem passes_of_resolve_of_valid (hroot : t.Real jail.root)
    (hvalid : (validateRelativePath relPath).Ok)
    (h : jail.resolve t fuel lstatError relPath = some (.ok p)) :
    Passes t jail.root jail.root (components relPath) p := by
  have hpasses := passes_of_resolve hroot h
  rwa [walkStart_of_valid hvalid] at hpasses

/-- Where `lstat` always answers, **`resolve` returns where the path passes to**. -/
theorem resolve_eq_ok_iff (hsilent : Silent lstatError) (hroot : t.Real jail.root) :
    (∃ fuel, jail.resolve t fuel lstatError relPath = some (.ok p)) ↔
      Passes t jail.root (walkStart jail relPath) (components relPath) p := by
  constructor
  · rintro ⟨fuel, h⟩
    exact passes_of_resolve hroot h
  · intro h
    obtain ⟨n, hn⟩ := h.resolve hsilent hroot
    exact ⟨n, hn n le_rfl⟩

/-- **`resolve` raises `JailbreakError` where the path is stopped.** -/
theorem resolve_eq_error_iff (hroot : t.Real jail.root) :
    (∃ n, ∀ fuel ≥ n, ∃ err,
        jail.resolve t fuel lstatError relPath = some (.error (.jailbreak err))) ↔
      StartAnswers lstatError relPath ∧
        Stopped t lstatError jail.root (walkStart jail relPath) (components relPath) := by
  constructor
  · rintro ⟨n, hn⟩
    obtain ⟨err, herr⟩ := hn n le_rfl
    have hstart : StartAnswers lstatError relPath := startAnswers_of_resolve herr (by simp)
    rw [resolve_eq_resolveLoop hstart] at herr
    exact ⟨hstart,
      resolveLoop_error (real_walkStart hroot) (fun c hc => component_of_mem hc) herr⟩
  · rintro ⟨hstart, h⟩
    obtain ⟨n, hn⟩ := h.resolveLoop relPath (real_walkStart hroot)
      fun c hc => component_of_mem hc
    refine ⟨n, fun fuel hfuel => ?_⟩
    rw [resolve_eq_resolveLoop hstart]
    exact hn fuel hfuel

end Paths

/-! ### Paths that the wire validator refuses -/

/-- `_validate_relative_path` refuses the path for being absolute, or for a `..` component. -/
def Hostile (relPath : Str) : Prop :=
  validateRelativePath relPath = .error (lit "absolute path not allowed") ∨
    validateRelativePath relPath = .error (lit "path traversal component (..) not allowed")

/-- The jail refuses the path too. -/
def Refuses (jail : PathJail) (t : Tree) (lstatError : Location → Option Errno) (relPath : Str) :
    Prop :=
  ∃ n, ∀ fuel ≥ n, ∃ err,
    jail.resolve t fuel lstatError relPath = some (.error (.jailbreak err))

/-- **The jail is a second line of defence** against a path that the wire validator refuses as
hostile: it raises `JailbreakError`. -/
def DefendsAgainst (jail : PathJail) (t : Tree) (lstatError : Location → Option Errno)
    (relPath : Str) : Prop :=
  Hostile relPath → Refuses jail t lstatError relPath

/-- **Without symlink cycles, a `..` is always found**, if `lstat` always answers. -/
theorem stopped_of_dotdot_mem {t : Tree} (hc : t.NoSymlinkCycles)
    {lstatError : Location → Option Errno} (hsilent : Silent lstatError) (root : Location)
    {here : Location} {parts : List Str} (hparts : ∀ c ∈ parts, Component c)
    (hup : Posix.dotdot ∈ parts) : Stopped t lstatError root here parts := by
  induction parts generalizing here with
  | nil => cases hup
  | cons part parts ih =>
    by_cases hpart : part = Posix.dotdot
    · rw [hpart]
      exact .up
    have hname : IsName part := (hparts part List.mem_cons_self).isName hpart
    have hlater : Posix.dotdot ∈ parts := by
      rcases List.mem_cons.mp hup with heq | hmem
      · exact absurd heq.symm hpart
      · exact hmem
    obtain ⟨there, hthere⟩ := Tree.exists_walks_end hc ⟨[], here ++ [part]⟩
    have hrest : Stopped t lstatError root there parts :=
      ih (fun c hcm => hparts c (List.mem_cons_of_mem _ hcm)) hlater
    -- a link that leads out stops the walk before the `..` does
    by_cases hout : t.isSymlink (here ++ [part]) = true ∧ ¬ root <+: there
    · exact .out hname hout.1 hthere hout.2
    · rw [not_and_not_right] at hout
      exact .go hname (fun _ => hsilent _) hthere hout hrest

/-- **When the jail refuses what the wire validator refuses.** For every file system, every root
that a jail was made with and every path that is refused for being absolute or for a `..`
component: the jail raises `JailbreakError` exactly when the walk along the components, from `/` if
the path is absolute, comes to a `..` or to a link that leads out of the root, and `lstat` has
answered at every place before (at `/` too, if the path is absolute). -/
theorem hostile_rejected_iff (t : Tree) (lstatError : Location → Option Errno)
    (cwd : {p // t.Real p}) (root : Str) (fuel₀ : Nat) (jail : PathJail)
    (hjail : PathJail.init t fuel₀ cwd root = some jail) (relPath : Str) :
    DefendsAgainst jail t lstatError relPath ↔
      (Hostile relPath →
        (relPath.head? = some slash → lstatRefuses lstatError [] = none) ∧
        Stopped t lstatError jail.root
          (if relPath.head? = some slash then [] else jail.root) (components relPath)) := by
  have habs : relPath.head? = some slash ↔ isAbsolute relPath = true := by
    unfold isAbsolute
    rw [beq_iff_eq]
    rfl
  have hwalk : (if relPath.head? = some slash then [] else jail.root) = walkStart jail relPath := by
    unfold walkStart
    simp only [habs]
  rw [hwalk, habs]
  exact imp_congr_right fun _ => resolve_eq_error_iff (real_root_of_init hjail)

/-- A path with a `..`, in a jail with a link. -/
theorem dotdot_rejected :
    PathJail.init sampleTree 8 ⟨[], Tree.real_root⟩ (lit "/srv") = some ⟨[lit "srv"]⟩ ∧
      Hostile (lit "cur/../x") ∧
      DefendsAgainst ⟨[lit "srv"]⟩ sampleTree (fun _ => none) (lit "cur/../x") := by
  have hinit : PathJail.init sampleTree 8 ⟨[], Tree.real_root⟩ (lit "/srv") =
      some ⟨[lit "srv"]⟩ := by decide
  refine ⟨hinit, Or.inr (by decide), ?_⟩
  refine (hostile_rejected_iff sampleTree _ ⟨[], Tree.real_root⟩ (lit "/srv") 8 _ hinit _).mpr
    fun _ => ⟨fun _ => rfl, ?_⟩
  refine stopped_of_dotdot_mem sampleTree_noSymlinkCycles silent_none _
    (fun c hc => component_of_mem hc) ?_
  decide

/-- **An absolute path is let through**, and out of the root. -/
theorem absolute_path_let_through :
    Hostile (lit "/etc/passwd") ∧
      (∀ fuel, (PathJail.mk [lit "srv"]).resolve srvTree (fuel + 4) (fun _ => none)
        (lit "/etc/passwd") = some (.ok [lit "etc", lit "passwd"])) ∧
      ¬ [lit "srv"] <+: [lit "etc", lit "passwd"] ∧
      ¬ DefendsAgainst ⟨[lit "srv"]⟩ srvTree (fun _ => none) (lit "/etc/passwd") := by
  have hhostile : Hostile (lit "/etc/passwd") := Or.inl (by decide)
  have hok : ∀ fuel, (PathJail.mk [lit "srv"]).resolve srvTree (fuel + 4) (fun _ => none)
      (lit "/etc/passwd") = some (.ok [lit "etc", lit "passwd"]) := fun fuel => by rfl
  refine ⟨hhostile, hok, by decide, fun hdefends => ?_⟩
  obtain ⟨n, hn⟩ := hdefends hhostile
  obtain ⟨err, herr⟩ := hn (n + 4) (by omega)
  rw [hok n] at herr
  cases herr

end PathJail

end Chiralite
