import Mathlib.Data.List.Infix

/-!
# Runs of a deterministic system

A system is a state type, an action type and a total step function; an action that is not
possible in a state leaves it as it is. A run folds the step over a list of actions.

Two rules carry every result about runs. `run_invariant` lifts what one step preserves to a
whole run whose steps all meet a guard; the guard is read in the state in front of the step,
so that conditions on a history can be stated on the history (`run_iff_guarded` is the rule for a
guard that is also necessary). `run_simulates` lifts a
step-by-step simulation between two systems driven by the same actions.
-/

namespace Run

variable {State Abstract Act : Type*}

/-- The state after a list of actions. -/
def run (step : State → Act → State) (s : State) (as : List Act) : State := as.foldl step s

section Rules

variable {step : State → Act → State} {s : State}

@[simp] theorem run_nil : run step s [] = s := rfl

@[simp] theorem run_cons (a : Act) (as : List Act) :
    run step s (a :: as) = run step (step s a) as := rfl

theorem run_append (as bs : List Act) :
    run step s (as ++ bs) = run step (run step s as) bs := List.foldl_append

/-- Every action of the run meets the guard in the state it is taken in. -/
def Guarded (step : State → Act → State) (guard : State → Act → Prop) : State → List Act → Prop
  | _, [] => True
  | s, a :: as => guard s a ∧ Guarded step guard (step s a) as

theorem guarded_append {guard : State → Act → Prop} {as bs : List Act} :
    Guarded step guard s (as ++ bs) ↔
      Guarded step guard s as ∧ Guarded step guard (run step s as) bs := by
  induction as generalizing s with
  | nil => simp [Guarded]
  | cons a as ih =>
    rw [List.cons_append, Guarded, Guarded, ih, run_cons, and_assoc]

/-- A guard on the actions alone. -/
theorem guarded_of_forall {P : Act → Prop} {as : List Act} (h : ∀ a ∈ as, P a) :
    Guarded step (fun _ a => P a) s as := by
  induction as generalizing s with
  | nil => trivial
  | cons a as ih =>
    exact ⟨h a List.mem_cons_self, ih fun b hb => h b (List.mem_cons_of_mem _ hb)⟩

/-- **Invariant rule.** What every guarded step preserves holds after every guarded run. -/
theorem run_invariant {guard : State → Act → Prop} {Inv : State → Prop}
    (hstep : ∀ s a, Inv s → guard s a → Inv (step s a)) {as : List Act} (hs : Inv s)
    (hg : Guarded step guard s as) : Inv (run step s as) := by
  induction as generalizing s with
  | nil => exact hs
  | cons a as ih => exact ih (hstep s a hs hg.1) hg.2

/-- Along a guarded run that keeps an invariant, two guards that say the same in every state of
the invariant hold together or fail together. -/
theorem guarded_congr {guard g h : State → Act → Prop} {Inv : State → Prop}
    (hstep : ∀ s a, Inv s → guard s a → Inv (step s a))
    (hiff : ∀ s a, Inv s → guard s a → (g s a ↔ h s a)) {as : List Act} (hs : Inv s)
    (hguard : Guarded step guard s as) : Guarded step g s as ↔ Guarded step h s as := by
  induction as generalizing s with
  | nil => exact Iff.rfl
  | cons a as ih =>
    exact and_congr (hiff s a hs hguard.1) (ih (hstep s a hs hguard.1) hguard.2)

/-- A property that a step keeps exactly under a guard holds after exactly the guarded runs. -/
theorem run_iff_guarded {guard : State → Act → Prop} {Inv Good : State → Prop}
    (hinv : ∀ s a, Inv s → Inv (step s a))
    (hstep : ∀ s a, Inv s → (Good (step s a) ↔ Good s ∧ guard s a)) {as : List Act} (hs : Inv s) :
    Good (run step s as) ↔ Good s ∧ Guarded step guard s as := by
  induction as generalizing s with
  | nil => exact (and_iff_left trivial).symm
  | cons a as ih =>
    rw [run_cons, ih (hinv s a hs), hstep s a hs, and_assoc]
    rfl

end Rules

/-- **Simulation rule.** A relation that every pair of steps on the same action preserves holds
between the ends of the two runs. -/
theorem run_simulates {step : State → Act → State} {astep : Abstract → Act → Abstract}
    {Rel : State → Abstract → Prop} {P : Act → Prop}
    (hstep : ∀ s l a, Rel s l → P a → Rel (step s a) (astep l a)) {s : State} {l : Abstract}
    {as : List Act} (hs : Rel s l) (hP : ∀ a ∈ as, P a) :
    Rel (run step s as) (run astep l as) := by
  induction as generalizing s l with
  | nil => exact hs
  | cons a as ih =>
    refine ih (hstep s l a hs (hP a List.mem_cons_self)) ?_
    intro b hb
    exact hP b (List.mem_cons_of_mem _ hb)

end Run
