import Chiralite.Framework.Run

/-!
# A queue between two tasks

One task puts some items into a queue, one after the other; another takes from it. The two take
turns in any way whatsoever, and a `take` on an empty queue waits.

What has been taken is at each time the beginning of what is to be put (`taken_prefix`), and once
everything has been put, as many further takes as there are items take all of it
(`taken_of_finished`).
-/

namespace Fifo

variable {α : Type*}

/-- The queue, with what has yet to be put and what has been taken. -/
structure Channel (α : Type*) where
  todo : List α
  waiting : List α
  taken : List α

/-- Whose turn it is. -/
inductive Turn where
  | put
  | take
  deriving DecidableEq

namespace Channel

/-- Everything is yet to be put. -/
def start (items : List α) : Channel α := ⟨items, [], []⟩

def step (c : Channel α) : Turn → Channel α
  | .put =>
    match c.todo with
    | [] => c
    | x :: todo => { c with todo, waiting := c.waiting ++ [x] }
  | .take =>
    match c.waiting with
    | [] => c
    | x :: waiting => { c with waiting, taken := c.taken ++ [x] }

/-- All items, where they are. -/
def all (c : Channel α) : List α := c.taken ++ (c.waiting ++ c.todo)

/-- **A turn moves an item on**, and keeps the order. -/
theorem all_step (c : Channel α) (t : Turn) : (c.step t).all = c.all := by
  cases t with
  | put =>
    obtain ⟨todo, waiting, taken⟩ := c
    cases todo with
    | nil => rfl
    | cons x todo => simp only [step, all, List.append_assoc, List.singleton_append]
  | take =>
    obtain ⟨todo, waiting, taken⟩ := c
    cases waiting with
    | nil => rfl
    | cons x waiting =>
      simp only [step, all, List.append_assoc, List.cons_append, List.nil_append]

end Channel

/-- The queue after some turns. -/
def after (items : List α) (turns : List Turn) : Channel α :=
  Run.run Channel.step (.start items) turns

variable {items : List α}

/-- Every run. -/
theorem all_after (items : List α) (turns : List Turn) : (after items turns).all = items := by
  have hguard : Run.Guarded Channel.step (fun _ _ => True) (.start items) turns :=
    Run.guarded_of_forall fun _ _ => trivial
  have hstep : ∀ (c : Channel α) (t : Turn), c.all = items → True → (c.step t).all = items :=
    fun c t h _ => (c.all_step t).trans h
  exact Run.run_invariant hstep rfl hguard

/-- **What has been taken** is the beginning of what is to be put. -/
theorem taken_prefix (items : List α) (turns : List Turn) : (after items turns).taken <+: items :=
  ⟨_, all_after items turns⟩

/-- Takes alone, when nothing is left to be put. -/
theorem taken_replicate {c : Channel α} (htodo : c.todo = []) {n : Nat}
    (hn : c.waiting.length ≤ n) :
    (Run.run Channel.step c (List.replicate n .take)).taken = c.all := by
  induction n generalizing c with
  | zero =>
    have hwaiting : c.waiting = [] := List.eq_nil_of_length_eq_zero (Nat.le_zero.mp hn)
    rw [Channel.all, htodo, hwaiting]
    exact (List.append_nil _).symm
  | succ n ih =>
    obtain ⟨todo, waiting, taken⟩ := c
    rw [List.replicate_succ, Run.run_cons, ← Channel.all_step _ .take]
    cases waiting with
    | nil => exact ih htodo (Nat.zero_le _)
    | cons x waiting => exact ih htodo (Nat.le_of_succ_le_succ hn)

/-- **Nothing is lost**: when everything has been put, it is taken by as many takes. -/
theorem taken_of_finished {turns : List Turn} (h : (after items turns).todo = []) {n : Nat}
    (hn : items.length ≤ n) :
    (after items (turns ++ List.replicate n .take)).taken = items := by
  have hwaiting : (after items turns).waiting.length ≤ items.length := by
    have hlength := congrArg List.length (all_after items turns)
    simp only [Channel.all, List.length_append] at hlength
    omega
  unfold after
  rw [Run.run_append]
  exact (taken_replicate h (hwaiting.trans hn)).trans (all_after items turns)

end Fifo
