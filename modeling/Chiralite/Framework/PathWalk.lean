import Mathlib.Logic.Relation
import Mathlib.Order.WellFoundedSet
import Chiralite.Framework.FileTree

/-!
# Walking paths through symbolic links

A path is a text; the walk that takes it to a location reads its components from left to right.
A `Cursor` is the location reached so far and the components still to come: an empty component or
`.` is skipped, `..` goes back to the parent, the name of a symbolic link puts the components of
its target in front of what is to come (and starts over at the root when the target is
absolute), and any other name, whether or not it exists, is entered. That is
`os.path.realpath(…, strict=False)`.

The walk is driven by fuel, because a link that leads back to itself would keep it going for ever.
`NoSymlinkCycles` says that no link does, and `exists_walks_end` proves from it that every walk
comes to its end; `resolveFrom_of_walks` then finds it for all large enough fuels.

A location is `Real` when no symbolic link lies on the way to it. Walks only stop at real
locations (`Walks.real`), and a real location is its own resolution (`walks_of_real`).
-/

namespace Posix

open Py Relation

/-- The path separator. -/
def sep : CodePoint := 0x2f

/-- The component `.`. -/
def dot : Str := [0x2e]

/-- The component `..`. -/
def dotdot : Str := [0x2e, 0x2e]

/-- A component that names an entry of a directory. -/
def IsName (c : Str) : Prop := c ≠ [] ∧ c ≠ dot ∧ c ≠ dotdot

instance (c : Str) : Decidable (IsName c) := inferInstanceAs (Decidable (_ ∧ _))

/-- The path starts at the root directory. -/
def isAbsolute (s : Str) : Bool := s.head? == some sep

/-! ### Paths as texts -/

/-- The components of a path as `pathlib` keeps them: no empty ones and no `.`. -/
def components (s : Str) : List Str := (s.splitOn sep).filter fun c => c ≠ [] ∧ c ≠ dot

/-- `p / part`, for an absolute path `p` given by its components: an absolute `part` discards
`p`. -/
def joinPath (p : Location) (part : Str) : Location :=
  if isAbsolute part then components part else p ++ components part

/-- The text of the absolute path with the given components. -/
def pathText (p : Location) : Str := sep :: [sep].intercalate p

theorem sep_notMem_of_mem_splitOn {s c : Str} (h : c ∈ s.splitOn sep) : sep ∉ c := by
  induction s generalizing c with
  | nil =>
    rw [List.splitOn_nil, List.mem_singleton] at h
    subst h
    exact List.not_mem_nil
  | cons x s ih =>
    rw [List.splitOn_cons_eq_if_modifyHead] at h
    split at h
    · rcases List.mem_cons.mp h with rfl | h
      · exact List.not_mem_nil
      · exact ih h
    · rename_i hx
      -- only the first component grows, by a character that is no separator
      obtain ⟨first, rest, hsplit⟩ := List.exists_cons_of_ne_nil (List.splitOn_ne_nil sep s)
      rw [hsplit, List.modifyHead_cons] at h
      rcases List.mem_cons.mp h with rfl | h
      · rw [List.mem_cons, not_or]
        refine ⟨fun e => hx (by simp [e]), ih ?_⟩
        rw [hsplit]
        exact List.mem_cons_self
      · refine ih ?_
        rw [hsplit]
        exact List.mem_cons_of_mem _ h

/-- Joining a single name appends it. -/
theorem joinPath_name {p : Location} {c : Str} (hc : IsName c) (hsep : sep ∉ c) :
    joinPath p c = p ++ [c] := by
  -- a name has no separator, so it is no absolute path and has one component
  have habs : isAbsolute c = false := by
    cases c with
    | nil => rfl
    | cons x c =>
      have hx : x ≠ sep := by
        rintro rfl
        exact hsep List.mem_cons_self
      simp [isAbsolute, hx]
  have hcomp : components c = [c] := by
    rw [components, List.splitOn_eq_singleton hsep]
    simp [hc.1, hc.2.1]
  rw [joinPath, habs, if_neg (by simp), hcomp]

/-! ### Cursors -/

/-- A walk under way. -/
structure Cursor where
  /-- The location reached. -/
  here : Location
  /-- The components still to come. -/
  todo : List Str
  deriving DecidableEq

/-- The cursor that starts on a path, seen from a directory, with components to come after it. -/
def Cursor.follow (here : Location) (path : Str) (todo : List Str) : Cursor :=
  ⟨if isAbsolute path then [] else here, path.splitOn sep ++ todo⟩

theorem Cursor.follow_append (here : Location) (path : Str) (xs ys : List Str) :
    Cursor.follow here path (xs ++ ys) =
      ⟨(Cursor.follow here path xs).here, (Cursor.follow here path xs).todo ++ ys⟩ := by
  simp [Cursor.follow]

namespace Tree

variable {t : Tree} {p q : Location}

/-- One component of a walk. -/
def step (t : Tree) : Cursor → Option Cursor
  | ⟨_, []⟩ => none
  | ⟨here, c :: todo⟩ =>
    if c = [] ∨ c = dot then some ⟨here, todo⟩
    else if c = dotdot then some ⟨here.dropLast, todo⟩
    else
      -- a link is replaced by its target; anything else is entered, also what is not there
      match t.node (here ++ [c]) with
      | some (.symlink target) => some (Cursor.follow here target todo)
      | _ => some ⟨here ++ [c], todo⟩

/-- The location a walk ends at. `none` when the fuel runs out before that. -/
def resolveFrom (t : Tree) : Nat → Cursor → Option Location
  | 0, c => if c.todo = [] then some c.here else none
  | fuel + 1, c =>
    match t.step c with
    | none => some c.here
    | some c' => resolveFrom t fuel c'

/-- `os.path.realpath` of a path, seen from the working directory `cwd`. -/
def realpath (t : Tree) (fuel : Nat) (cwd : Location) (path : Str) : Option Location :=
  t.resolveFrom fuel (Cursor.follow cwd path [])

/-- `os.path.realpath` of the absolute path that spells a location out. -/
def resolveLocation (t : Tree) (fuel : Nat) (p : Location) : Option Location :=
  t.resolveFrom fuel ⟨[], p⟩

/-- `lstat` of the absolute path that spells a location out: links in its directory part are
followed, a link at its end is not. -/
def lstat (t : Tree) (fuel : Nat) (p : Location) : Option (Option Node) :=
  match p.getLast? with
  | none => some (t.node [])
  | some name => (t.resolveLocation fuel p.dropLast).map fun d => t.node (d ++ [name])

/-- One cursor leads to another. -/
abbrev Walks (t : Tree) : Cursor → Cursor → Prop :=
  ReflTransGen fun c c' => t.step c = some c'

/-! ### One step -/

theorem step_skip {here : Location} {c : Str} {todo : List Str} (h : c = [] ∨ c = dot) :
    t.step ⟨here, c :: todo⟩ = some ⟨here, todo⟩ := by
  rw [step, if_pos h]

theorem step_dotdot {here : Location} {todo : List Str} :
    t.step ⟨here, dotdot :: todo⟩ = some ⟨here.dropLast, todo⟩ := by
  rw [step, if_neg (by decide), if_pos rfl]

theorem step_symlink {here : Location} {c target : Str} {todo : List Str} (hc : IsName c)
    (h : t.node (here ++ [c]) = some (.symlink target)) :
    t.step ⟨here, c :: todo⟩ = some (Cursor.follow here target todo) := by
  obtain ⟨hempty, hdot, hdotdot⟩ := hc
  rw [step, if_neg (by simp [hempty, hdot]), if_neg hdotdot]
  simp only [h]

theorem step_enter {here : Location} {c : Str} {todo : List Str} (hc : IsName c)
    (h : t.isSymlink (here ++ [c]) = false) :
    t.step ⟨here, c :: todo⟩ = some ⟨here ++ [c], todo⟩ := by
  obtain ⟨hempty, hdot, hdotdot⟩ := hc
  rw [step, if_neg (by simp [hempty, hdot]), if_neg hdotdot]
  unfold isSymlink at h
  split
  · simp_all
  · rfl

/-- The three kinds of component. -/
theorem component_cases (c : Str) : (c = [] ∨ c = dot) ∨ c = dotdot ∨ IsName c := by
  by_cases hskip : c = [] ∨ c = dot
  · exact Or.inl hskip
  by_cases hup : c = dotdot
  · exact Or.inr (Or.inl hup)
  · exact Or.inr (Or.inr ⟨fun e => hskip (Or.inl e), fun e => hskip (Or.inr e), hup⟩)

/-- **What a step can do.** Skip a component, go to the parent, follow a link, or enter a name
that is no link. -/
theorem step_cases {here : Location} {c : Str} {todo : List Str} {c' : Cursor}
    (h : t.step ⟨here, c :: todo⟩ = some c') :
    ((c = [] ∨ c = dot) ∧ c' = ⟨here, todo⟩) ∨ (c = dotdot ∧ c' = ⟨here.dropLast, todo⟩) ∨
      (∃ target, IsName c ∧ t.node (here ++ [c]) = some (.symlink target) ∧
        c' = Cursor.follow here target todo) ∨
      (IsName c ∧ t.isSymlink (here ++ [c]) = false ∧ c' = ⟨here ++ [c], todo⟩) := by
  rcases component_cases c with hskip | rfl | hc
  · rw [step_skip hskip] at h
    exact Or.inl ⟨hskip, (Option.some.inj h).symm⟩
  · rw [step_dotdot] at h
    exact Or.inr (Or.inl ⟨rfl, (Option.some.inj h).symm⟩)
  -- a name: what it leads to depends on whether a link stands there
  · by_cases hlink : t.isSymlink (here ++ [c]) = true
    · obtain ⟨target, htarget⟩ := isSymlink_iff.mp hlink
      rw [step_symlink hc htarget] at h
      exact Or.inr (Or.inr (Or.inl ⟨target, hc, htarget, (Option.some.inj h).symm⟩))
    · rw [Bool.not_eq_true] at hlink
      rw [step_enter hc hlink] at h
      exact Or.inr (Or.inr (Or.inr ⟨hc, hlink, (Option.some.inj h).symm⟩))

/-- A walk with components left goes on. -/
theorem exists_step (here : Location) (c : Str) (todo : List Str) :
    ∃ c', t.step ⟨here, c :: todo⟩ = some c' := by
  rcases component_cases c with hskip | rfl | hc
  · exact ⟨_, step_skip hskip⟩
  · exact ⟨_, step_dotdot⟩
  · by_cases hlink : t.isSymlink (here ++ [c]) = true
    · obtain ⟨target, htarget⟩ := isSymlink_iff.mp hlink
      exact ⟨_, step_symlink hc htarget⟩
    · exact ⟨_, step_enter hc (Bool.not_eq_true _ ▸ hlink)⟩

/-- Components after those a step reads do not matter to it. -/
theorem step_append {c c' : Cursor} (h : t.step c = some c') (ys : List Str) :
    t.step ⟨c.here, c.todo ++ ys⟩ = some ⟨c'.here, c'.todo ++ ys⟩ := by
  obtain ⟨here, todo⟩ := c
  cases todo with
  | nil => simp [step] at h
  | cons c todo =>
    rcases step_cases h with ⟨hskip, rfl⟩ | ⟨rfl, rfl⟩ | ⟨target, hc, hnode, rfl⟩ | ⟨hc, hno, rfl⟩
    · exact step_skip hskip
    · exact step_dotdot
    · exact (step_symlink hc hnode).trans (congrArg some (Cursor.follow_append here target todo ys))
    · exact step_enter hc hno

theorem Walks.append {c c' : Cursor} (h : t.Walks c c') (ys : List Str) :
    t.Walks ⟨c.here, c.todo ++ ys⟩ ⟨c'.here, c'.todo ++ ys⟩ := by
  induction h with
  | refl => exact ReflTransGen.refl
  | tail _ hstep ih => exact ih.tail (step_append hstep ys)

/-! ### Cycles -/

/-- On its way from a cursor, the walk comes to the symbolic link at `q`. -/
def Visits (t : Tree) (c : Cursor) (q : Location) : Prop :=
  ∃ here name todo, t.Walks c ⟨here, name :: todo⟩ ∧ IsName name ∧ q = here ++ [name] ∧
    t.isSymlink q = true

/-- Resolving the link at `p` leads through the link at `q`. -/
def Meets (t : Tree) (p q : Location) : Prop :=
  ∃ target, t.node p = some (.symlink target) ∧ t.Visits (Cursor.follow p.dropLast target []) q

/-- **No symlink cycles.** Resolving a link never leads to that link again. -/
def NoSymlinkCycles (t : Tree) : Prop := ∀ p, ¬ t.Meets p p

/-- A walk with nothing to come visits no link. -/
theorem not_visits_nil {here : Location} : ¬ t.Visits ⟨here, []⟩ q := by
  rintro ⟨here', name, todo, hwalk, -, -, -⟩
  rcases hwalk.cases_head with h | ⟨c', hstep, -⟩
  · simp at h
  · simp [step] at hstep

/-- A walk visits the link in front of it and what the next cursor visits. -/
theorem Visits.cases_head {here : Location} {name : Str} {todo : List Str} {c' : Cursor}
    (h : t.Visits ⟨here, name :: todo⟩ q) (hstep : t.step ⟨here, name :: todo⟩ = some c') :
    (q = here ++ [name] ∧ t.isSymlink q = true) ∨ t.Visits c' q := by
  obtain ⟨here', name', todo', hwalk, hname, hq, hlink⟩ := h
  rcases hwalk.cases_head with heq | ⟨c'', hstep', hrest⟩
  · cases heq
    exact Or.inl ⟨hq, hlink⟩
  · rw [hstep] at hstep'
    cases hstep'
    exact Or.inr ⟨here', name', todo', hrest, hname, hq, hlink⟩

theorem Meets.trans {r : Location} (hpq : t.Meets p q) (hqr : t.Meets q r) : t.Meets p r := by
  obtain ⟨target, hp, here, name, todo, hwalk, hname, rfl, -⟩ := hpq
  obtain ⟨target', hq, here', name', todo', hwalk', hname', rfl, hlink⟩ := hqr
  rw [List.dropLast_concat] at hwalk'
  -- the walk that follows the second link, with what the first one had still to come
  have hafter := hwalk'.append todo
  refine ⟨target, hp, here', name', todo' ++ todo, ?_, hname', rfl, hlink⟩
  have hstep : t.step ⟨here, name :: todo⟩ = some (Cursor.follow here target' todo) :=
    step_symlink hname hq
  have hfollow : Cursor.follow here target' todo =
      ⟨(Cursor.follow here target' []).here, (Cursor.follow here target' []).todo ++ todo⟩ :=
    Cursor.follow_append here target' [] todo
  rw [hfollow] at hstep
  exact (hwalk.tail hstep).trans hafter

/-- A link that a walk comes to can be followed to its end from there, if it can be followed to
its end at all, with what the walk has still to come kept. -/
theorem walks_through {here h' : Location} {name target : Str} {todo : List Str}
    (hname : IsName name) (hnode : t.node (here ++ [name]) = some (.symlink target))
    (hend : t.Walks (Cursor.follow here target []) ⟨h', []⟩) :
    t.Walks ⟨here, name :: todo⟩ ⟨h', todo⟩ := by
  have hfollow := Cursor.follow_append here target [] todo
  have hstep : t.step ⟨here, name :: todo⟩ = some (Cursor.follow here target todo) :=
    step_symlink hname hnode
  rw [List.nil_append] at hfollow
  rw [hfollow] at hstep
  exact ReflTransGen.head hstep (hend.append todo)

/-- A walk ends when every link that it comes to can be followed to its end. -/
theorem exists_walks_end_of_visits {c : Cursor}
    (h : ∀ here name target, t.Visits c (here ++ [name]) →
      t.node (here ++ [name]) = some (.symlink target) →
      ∃ h', t.Walks (Cursor.follow here target []) ⟨h', []⟩) :
    ∃ h', t.Walks c ⟨h', []⟩ := by
  -- by induction on the components to come, at every cursor that the walk reaches
  have hmain : ∀ todo here, t.Walks c ⟨here, todo⟩ → ∃ h', t.Walks ⟨here, todo⟩ ⟨h', []⟩ := by
    intro todo
    induction todo with
    | nil => exact fun here _ => ⟨here, ReflTransGen.refl⟩
    | cons name todo ih =>
      intro here hreach
      -- it is enough to get past the first component
      suffices hpast : ∃ h₁, t.Walks ⟨here, name :: todo⟩ ⟨h₁, todo⟩ by
        obtain ⟨h₁, hpast⟩ := hpast
        obtain ⟨h₂, hrest⟩ := ih h₁ (hreach.trans hpast)
        exact ⟨h₂, hpast.trans hrest⟩
      obtain ⟨c', hstep⟩ := t.exists_step here name todo
      rcases step_cases hstep with ⟨-, rfl⟩ | ⟨-, rfl⟩ | ⟨target, hname, hnode, -⟩ | ⟨-, -, rfl⟩
      · exact ⟨here, ReflTransGen.single hstep⟩
      · exact ⟨_, ReflTransGen.single hstep⟩
      · have hvisit : t.Visits c (here ++ [name]) :=
          ⟨here, name, todo, hreach, hname, rfl, isSymlink_iff.mpr ⟨target, hnode⟩⟩
        obtain ⟨h₁, hend⟩ := h here name target hvisit hnode
        exact ⟨h₁, walks_through hname hnode hend⟩
      · exact ⟨_, ReflTransGen.single hstep⟩
  exact hmain c.todo c.here ReflTransGen.refl

/-- Without cycles, every link can be followed to its end. -/
theorem exists_walks_link (hc : t.NoSymlinkCycles) {target : Str}
    (hp : t.node p = some (.symlink target)) :
    ∃ h', t.Walks (Cursor.follow p.dropLast target []) ⟨h', []⟩ := by
  -- there are finitely many links, so that following one into the next cannot go on for ever
  have hstrict : IsStrictOrder Location fun q p => t.Meets p q :=
    { irrefl := hc
      trans := fun _ _ _ hab hbc => hbc.trans hab }
  have hwf : {p | t.node p ≠ none}.WellFoundedOn fun q p => t.Meets p q := t.finite.wellFoundedOn
  have hmem : p ∈ {p | t.node p ≠ none} := by simp [hp]
  have hall : ∀ target, t.node p = some (.symlink target) →
      ∃ h', t.Walks (Cursor.follow p.dropLast target []) ⟨h', []⟩ := by
    refine hwf.induction (P := fun p => ∀ target, t.node p = some (.symlink target) →
      ∃ h', t.Walks (Cursor.follow p.dropLast target []) ⟨h', []⟩) hmem ?_
    intro p _ ih target hp
    refine exists_walks_end_of_visits ?_
    intro here name target' hvisit hnode
    have hmeets : t.Meets p (here ++ [name]) := ⟨target, hp, hvisit⟩
    have hend := ih (here ++ [name]) (by simp [hnode]) hmeets target' hnode
    rwa [List.dropLast_concat] at hend
  exact hall target hp

/-- **Every walk ends** in a tree without symlink cycles. -/
theorem exists_walks_end (hc : t.NoSymlinkCycles) (c : Cursor) : ∃ h', t.Walks c ⟨h', []⟩ := by
  refine exists_walks_end_of_visits ?_
  intro here name target _ hnode
  have hend := exists_walks_link hc hnode
  rwa [List.dropLast_concat] at hend

/-- A walk that ends is found with all large enough fuels. -/
theorem resolveFrom_of_walks {c : Cursor} {h' : Location} (h : t.Walks c ⟨h', []⟩) :
    ∃ n, ∀ fuel ≥ n, t.resolveFrom fuel c = some h' := by
  induction h using ReflTransGen.head_induction_on with
  | refl =>
    refine ⟨0, fun fuel _ => ?_⟩
    cases fuel <;> simp [resolveFrom, step]
  | head hstep _ ih =>
    obtain ⟨n, hn⟩ := ih
    refine ⟨n + 1, fun fuel hfuel => ?_⟩
    obtain ⟨fuel, rfl⟩ : ∃ k, fuel = k + 1 := ⟨fuel - 1, by omega⟩
    rw [resolveFrom]
    simp only [hstep]
    exact hn fuel (by omega)

/-- A walk that the fuel was enough for. -/
theorem walks_of_resolveFrom {fuel : Nat} {c : Cursor} {h' : Location}
    (h : t.resolveFrom fuel c = some h') : t.Walks c ⟨h', []⟩ := by
  induction fuel generalizing c with
  | zero =>
    obtain ⟨here, todo⟩ := c
    unfold resolveFrom at h
    split at h
    · rename_i htodo
      cases h
      dsimp only at htodo
      rw [htodo]
    · cases h
  | succ fuel ih =>
    obtain ⟨here, todo⟩ := c
    rw [resolveFrom] at h
    cases todo with
    | nil =>
      cases h
      exact ReflTransGen.refl
    | cons c todo =>
      obtain ⟨c', hstep⟩ := t.exists_step here c todo
      simp only [hstep] at h
      exact ReflTransGen.head hstep (ih h)

/-- **Walks are deterministic**: two that start together and come to an end end together. -/
theorem Walks.end_unique {c : Cursor} {h₁ h₂ : Location} (hw₁ : t.Walks c ⟨h₁, []⟩)
    (hw₂ : t.Walks c ⟨h₂, []⟩) : h₁ = h₂ := by
  obtain ⟨n₁, hn₁⟩ := resolveFrom_of_walks hw₁
  obtain ⟨n₂, hn₂⟩ := resolveFrom_of_walks hw₂
  have heq := (hn₁ (n₁ + n₂) (by omega)).symm.trans (hn₂ (n₁ + n₂) (by omega))
  exact Option.some.inj heq

/-! ### Real locations -/

/-- No symbolic link stands on the way to the location, nor at it. -/
structure Real (t : Tree) (p : Location) : Prop where
  names : ∀ c ∈ p, IsName c
  noLink : ∀ q, q <+: p → t.isSymlink q = false

theorem real_root : t.Real [] where
  names := by simp
  noLink q hq := by
    rw [List.prefix_nil.mp hq]
    exact isSymlink_root

theorem Real.of_isPrefix (h : t.Real p) (hq : q <+: p) : t.Real q where
  names c hc := h.names c (hq.subset hc)
  noLink r hr := h.noLink r (hr.trans hq)

theorem Real.concat {name : Str} (h : t.Real p) (hname : IsName name)
    (hlink : t.isSymlink (p ++ [name]) = false) : t.Real (p ++ [name]) where
  names c hc := by
    rcases List.mem_append.mp hc with hc | hc
    · exact h.names c hc
    · rw [List.mem_singleton.mp hc]
      exact hname
  noLink q hq := by
    rcases List.prefix_concat_iff.mp hq with rfl | hq
    · exact hlink
    · exact h.noLink q hq

/-- What a move replaces holds nothing, so a link is not inside it. -/
theorem Movable.not_above_link {src dst link : Location} (h : t.Movable src dst)
    (hdst : t.Real dst) (hlink : t.isSymlink link = true) : ¬ dst <+: link := by
  intro hpre
  obtain ⟨target, htarget⟩ := isSymlink_iff.mp hlink
  have heq : link = dst := by
    by_contra hother
    rw [h.holds_nothing link hpre hother] at htarget
    cases htarget
  rw [heq, hdst.noLink dst (List.prefix_refl _)] at hlink
  cases hlink

/-- A step from a real location leads to a real location. -/
theorem Real.step {c c' : Cursor} (h : t.Real c.here) (hstep : t.step c = some c') :
    t.Real c'.here := by
  obtain ⟨here, todo⟩ := c
  cases todo with
  | nil => simp [Tree.step] at hstep
  | cons name todo =>
    rcases step_cases hstep with ⟨-, rfl⟩ | ⟨-, rfl⟩ | ⟨target, -, -, rfl⟩ | ⟨hname, hlink, rfl⟩
    · exact h
    · exact h.of_isPrefix (List.dropLast_prefix here)
    · -- an absolute target starts over at the root
      unfold Cursor.follow
      dsimp only
      split
      · exact real_root
      · exact h
    · exact h.concat hname hlink

/-- **Walks stay real.** -/
theorem Walks.real {c c' : Cursor} (hwalk : t.Walks c c') (h : t.Real c.here) :
    t.Real c'.here := by
  induction hwalk with
  | refl => exact h
  | tail _ hstep ih => exact ih.step hstep

/-- The walk along a real location enters one name after another. -/
theorem walks_of_real {xs : List Str} (h : t.Real (p ++ xs)) : t.Walks ⟨p, xs⟩ ⟨p ++ xs, []⟩ := by
  induction xs generalizing p with
  | nil => rw [List.append_nil]
  | cons name xs ih =>
    have hsplit : p ++ name :: xs = p ++ [name] ++ xs := by simp
    have hname : IsName name := h.names name (by simp)
    have hlink : t.isSymlink (p ++ [name]) = false := h.noLink _ ⟨xs, hsplit.symm⟩
    rw [hsplit] at h ⊢
    exact ReflTransGen.head (step_enter hname hlink) (ih h)

/-- Fuel for one name each is enough along a real location. -/
theorem resolveFrom_of_real {fuel : Nat} {xs : List Str} (h : t.Real (p ++ xs))
    (hfuel : xs.length ≤ fuel) : t.resolveFrom fuel ⟨p, xs⟩ = some (p ++ xs) := by
  induction xs generalizing p fuel with
  | nil =>
    rw [List.append_nil]
    cases fuel <;> simp [resolveFrom, step]
  | cons name xs ih =>
    have hsplit : p ++ name :: xs = p ++ [name] ++ xs := by simp
    have hname : IsName name := h.names name (by simp)
    have hlink : t.isSymlink (p ++ [name]) = false := h.noLink _ ⟨xs, hsplit.symm⟩
    obtain ⟨fuel, rfl⟩ : ∃ k, fuel = k + 1 := ⟨fuel - 1, by rw [List.length_cons] at hfuel; omega⟩
    rw [List.length_cons, Nat.add_le_add_iff_right] at hfuel
    rw [hsplit] at h ⊢
    rw [resolveFrom]
    simp only [step_enter hname hlink]
    exact ih h hfuel

/-- **A real location is its own resolution.** -/
theorem resolveLocation_of_real (h : t.Real p) :
    ∃ n, ∀ fuel ≥ n, t.resolveLocation fuel p = some p :=
  resolveFrom_of_walks (walks_of_real (p := []) h)

/-- In a real directory, `lstat` finds what stands there. -/
theorem lstat_concat_of_real (h : t.Real p) (name : Str) :
    ∃ n, ∀ fuel ≥ n, t.lstat fuel (p ++ [name]) = some (t.node (p ++ [name])) := by
  obtain ⟨n, hn⟩ := resolveLocation_of_real h
  refine ⟨n, fun fuel hfuel => ?_⟩
  unfold lstat
  simp only [List.getLast?_concat, List.dropLast_concat, hn fuel hfuel, Option.map_some]

/-- **Paths resolve to real locations** in a tree without symlink cycles, seen from a real
directory. -/
theorem exists_realpath (hc : t.NoSymlinkCycles) {cwd : Location} (hcwd : t.Real cwd)
    (path : Str) :
    ∃ p, t.Real p ∧ ∃ n, ∀ fuel ≥ n, t.realpath fuel cwd path = some p := by
  obtain ⟨p, hwalk⟩ := exists_walks_end hc (Cursor.follow cwd path [])
  have hstart : t.Real (Cursor.follow cwd path []).here := by
    unfold Cursor.follow
    dsimp only
    split
    · exact real_root
    · exact hcwd
  exact ⟨p, hwalk.real hstart, resolveFrom_of_walks hwalk⟩

/-- The absolute path that spells a location out leads to another. -/
def Resolves (t : Tree) (p q : Location) : Prop := t.Walks ⟨[], p⟩ ⟨q, []⟩

theorem resolves_self (h : t.Real p) : t.Resolves p p := walks_of_real (p := []) h

theorem Resolves.real (h : t.Resolves p q) : t.Real q := Walks.real h real_root

end Tree

end Posix
