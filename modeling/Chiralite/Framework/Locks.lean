import Mathlib.Logic.Function.Basic
import Mathlib.Order.Preorder.Finite
import Chiralite.Framework.Run

/-!
# Threads that take locks

Threads ask for locks, get them while nobody holds them, and give all of them back at once when
they leave. A thread asks for one lock at a time and waits until it has it. Who of several waiting
threads gets a lock is left open.

Two facts carry every use of locks:

* no lock is ever held by two threads (`run_exclusive`), whatever the threads ask for;
* when every thread asks for its locks in ascending order, no set of threads waits for locks that
  only its own members hold (`run_not_deadlocked`). A thread that asks for a lock it holds already
  is such a set, so that the order has to be strict.
-/

namespace Locks

open Run

variable {Thread Lock : Type}

/-- What each thread holds, and which lock it waits for. -/
structure State (Thread Lock : Type) where
  held : Thread → List Lock
  wants : Thread → Option Lock

/-- Nobody holds anything. -/
def start : State Thread Lock := ⟨fun _ => [], fun _ => none⟩

/-- Nobody holds the lock. -/
def State.Free (s : State Thread Lock) (l : Lock) : Prop := ∀ t, l ∉ s.held t

inductive Act (Thread Lock : Type) where
  | request (t : Thread) (l : Lock)
  | grant (t : Thread)
  | leave (t : Thread)

section Step

variable [DecidableEq Thread]

open Classical in
/-- One step. A lock that is not free is not granted. -/
noncomputable def step (s : State Thread Lock) : Act Thread Lock → State Thread Lock
  | .request t l => { s with wants := Function.update s.wants t (some l) }
  | .grant t =>
    match s.wants t with
    | none => s
    | some l =>
      if s.Free l then
        ⟨Function.update s.held t (l :: s.held t), Function.update s.wants t none⟩
      else s
  | .leave t => ⟨Function.update s.held t [], Function.update s.wants t none⟩

end Step

/-! ### Mutual exclusion -/

/-- No lock is held by two threads. -/
def Exclusive (s : State Thread Lock) : Prop := ∀ t u l, l ∈ s.held t → l ∈ s.held u → t = u

section Steps

variable [DecidableEq Thread] {s : State Thread Lock}

/-- **What a grant does**: nothing, or it hands a free lock to the thread that waits for it. -/
theorem grant_cases (s : State Thread Lock) (t : Thread) :
    step s (.grant t) = s ∨ ∃ l, s.wants t = some l ∧ s.Free l ∧
      step s (.grant t) =
        ⟨Function.update s.held t (l :: s.held t), Function.update s.wants t none⟩ := by
  cases hwants : s.wants t with
  | none =>
    refine Or.inl ?_
    simp only [step, hwants]
  | some l =>
    by_cases hfree : s.Free l
    · refine Or.inr ⟨l, rfl, hfree, ?_⟩
      simp only [step, hwants, if_pos hfree]
    · refine Or.inl ?_
      simp only [step, hwants, if_neg hfree]

theorem grant_of_free {t : Thread} {l : Lock} (hwants : s.wants t = some l) (hfree : s.Free l) :
    step s (.grant t) =
      ⟨Function.update s.held t (l :: s.held t), Function.update s.wants t none⟩ := by
  simp only [step, hwants, if_pos hfree]

/-- **Step lemma.** Exclusion survives every step. -/
theorem Exclusive.step (h : Exclusive s) (a : Act Thread Lock) : Exclusive (Locks.step s a) := by
  cases a with
  | request t l => exact h
  | grant t =>
    rcases grant_cases s t with hsame | ⟨l, -, hfree, hnew⟩
    · rw [hsame]
      exact h
    · rw [hnew]
      intro u v k hu hv
      by_cases hut : u = t
      · by_cases hvt : v = t
        · rw [hut, hvt]
        · -- what the other thread holds is neither the new lock nor an old one of `t`
          subst hut
          simp only [Function.update_self, Function.update_of_ne hvt] at hu hv
          rcases List.mem_cons.mp hu with rfl | hu
          · exact absurd hv (hfree v)
          · exact h u v k hu hv
      · by_cases hvt : v = t
        · subst hvt
          simp only [Function.update_self, Function.update_of_ne hut] at hu hv
          rcases List.mem_cons.mp hv with rfl | hv
          · exact absurd hu (hfree u)
          · exact h u v k hu hv
        · simp only [Function.update_of_ne hut, Function.update_of_ne hvt] at hu hv
          exact h u v k hu hv
  | leave t =>
    intro u v k hu hv
    have hheld : ∀ w, k ∈ Function.update s.held t [] w → k ∈ s.held w := by
      intro w hw
      by_cases hwt : w = t
      · subst hwt
        rw [Function.update_self] at hw
        cases hw
      · rwa [Function.update_of_ne hwt] at hw
    exact h u v k (hheld u hu) (hheld v hv)

/-- **Mutual exclusion** along every run. -/
theorem run_exclusive (h : Exclusive s) (as : List (Act Thread Lock)) :
    Exclusive (run Locks.step s as) := by
  have hstep : ∀ (s : State Thread Lock) a, Exclusive s → True → Exclusive (Locks.step s a) :=
    fun s a hs _ => hs.step a
  exact run_invariant hstep h (guarded_of_forall fun _ _ => trivial)

end Steps

/-! ### Deadlocks -/

/-- **A deadlock**: threads each of which waits for a lock that one of them holds. -/
def Deadlocked (s : State Thread Lock) (T : Set Thread) : Prop :=
  T.Nonempty ∧ ∀ t ∈ T, ∃ l, s.wants t = some l ∧ ∃ u ∈ T, l ∈ s.held u

section Order

variable [DecidableEq Thread] [LinearOrder Lock] {s : State Thread Lock}

/-- A thread asks only for locks above those it holds. -/
def Ascending (s : State Thread Lock) : Act Thread Lock → Prop
  | .request t l => ∀ k ∈ s.held t, k < l
  | _ => True

/-- A thread waits only for locks above those it holds. -/
def Ordered (s : State Thread Lock) : Prop := ∀ t l, s.wants t = some l → ∀ k ∈ s.held t, k < l

theorem Ordered.step (h : Ordered s) (a : Act Thread Lock) (hasc : Ascending s a) :
    Ordered (Locks.step s a) := by
  -- a thread other than the one that acts waits and holds as before
  cases a with
  | request t l =>
    intro u k hwants
    by_cases hut : u = t
    · subst hut
      simp only [Locks.step, Function.update_self] at hwants
      cases hwants
      exact hasc
    · simp only [Locks.step, Function.update_of_ne hut] at hwants
      exact h u k hwants
  | grant t =>
    rcases grant_cases s t with hsame | ⟨l, -, -, hnew⟩
    · rw [hsame]
      exact h
    · rw [hnew]
      intro u k hwants
      by_cases hut : u = t
      · subst hut
        simp only [Function.update_self] at hwants
        cases hwants
      · simp only [Function.update_of_ne hut] at hwants ⊢
        exact h u k hwants
  | leave t =>
    intro u k hwants
    by_cases hut : u = t
    · subst hut
      simp only [Locks.step, Function.update_self] at hwants
      cases hwants
    · simp only [Locks.step, Function.update_of_ne hut] at hwants ⊢
      exact h u k hwants

omit [DecidableEq Thread] in
/-- In an ordered state a finite set of threads is no deadlock: whoever holds the greatest lock
that is waited for would have to wait for a greater one. -/
theorem Ordered.not_deadlocked (h : Ordered s) {T : Set Thread} (hfin : T.Finite) :
    ¬ Deadlocked s T := by
  rintro ⟨hne, hwaits⟩
  obtain ⟨t₀, ht₀⟩ := hne
  obtain ⟨l₀, -⟩ := hwaits t₀ ht₀
  have : Nonempty Thread := ⟨t₀⟩
  have : Nonempty Lock := ⟨l₀⟩
  choose! lock hlock holder hmem hholds using hwaits
  obtain ⟨t, ht, hmax⟩ := hfin.exists_maximalFor lock T ⟨t₀, ht₀⟩
  have hless : lock t < lock (holder t) :=
    h (holder t) (lock (holder t)) (hlock _ (hmem t ht)) (lock t) (hholds t ht)
  exact absurd (hmax (hmem t ht) hless.le) (not_le.mpr hless)

/-- **No deadlock** along a run in which all locks are asked for in ascending order. -/
theorem run_not_deadlocked (h : Ordered s) {as : List (Act Thread Lock)}
    (hasc : Guarded Locks.step Ascending s as) {T : Set Thread} (hfin : T.Finite) :
    ¬ Deadlocked (run Locks.step s as) T := by
  have hordered : Ordered (run Locks.step s as) :=
    run_invariant (fun s a hs ha => hs.step a ha) h hasc
  exact hordered.not_deadlocked hfin

end Order

end Locks
