import Mathlib.Data.List.Basic

/-!
# Answering

A party that speaks only to answer: before each message that goes out, one more has come in than has
gone out (`Backed`). Who listens to such a party may know more of the conversation than the party
itself, which does not notice everything that comes in, and may not know that its last words went
out (`Overhears`). In what is overheard, it still holds that whenever something comes in, no more
has gone out before than has come in (`Backed.settled`).
-/

namespace Answering

/-- The direction of a message. -/
inductive Flow where
  | inward
  | outward
  deriving DecidableEq

/-- Whatever goes out answers something that has come in, with the numbers of both before. -/
def Backed : Nat → Nat → List Flow → Prop
  | _, _, [] => True
  | ins, outs, .inward :: fs => Backed (ins + 1) outs fs
  | ins, outs, .outward :: fs => outs < ins ∧ Backed ins (outs + 1) fs

/-- Whenever something comes in, no more has gone out than has come in. -/
def Settled : Nat → Nat → List Flow → Prop
  | _, _, [] => True
  | ins, outs, .inward :: fs => outs ≤ ins ∧ Settled (ins + 1) outs fs
  | ins, outs, .outward :: fs => Settled ins (outs + 1) fs

/-- What a party knows of its conversation, and what there is to it. -/
inductive Overhears : List Flow → List Flow → Prop
  | unsent (n : Nat) : Overhears [] (List.replicate n .outward)
  | both (f : Flow) {xs ys : List Flow} (h : Overhears xs ys) : Overhears (f :: xs) (f :: ys)
  | unread {xs ys : List Flow} (h : Overhears xs ys) : Overhears xs (.inward :: ys)

variable {ins ins' outs : Nat} {xs ys : List Flow}

theorem backed_append : Backed ins outs (xs ++ ys) ↔ Backed ins outs xs ∧
    Backed (ins + xs.count .inward) (outs + xs.count .outward) ys := by
  induction xs generalizing ins outs with
  | nil => simp [Backed]
  | cons f xs ih =>
    cases f with
    | inward =>
      have hins : (Flow.inward :: xs).count .inward = xs.count .inward + 1 := List.count_cons_self
      have houts : (Flow.inward :: xs).count .outward = xs.count .outward :=
        List.count_cons_of_ne (by decide)
      rw [List.cons_append, Backed, Backed, ih, hins, houts, Nat.add_right_comm, Nat.add_assoc]
    | outward =>
      have hins : (Flow.outward :: xs).count .inward = xs.count .inward :=
        List.count_cons_of_ne (by decide)
      have houts : (Flow.outward :: xs).count .outward = xs.count .outward + 1 :=
        List.count_cons_self
      rw [List.cons_append, Backed, Backed, ih, hins, houts, Nat.add_right_comm, Nat.add_assoc,
        and_assoc]

/-- More may have come in. -/
theorem Backed.mono (h : Backed ins outs xs) (hle : ins ≤ ins') : Backed ins' outs xs := by
  induction xs generalizing ins ins' outs with
  | nil => trivial
  | cons f xs ih =>
    cases f with
    | inward =>
      have htail : Backed (ins + 1) outs xs := h
      exact ih htail (Nat.succ_le_succ hle)
    | outward => exact ⟨Nat.lt_of_lt_of_le h.1 hle, ih h.2 hle⟩

/-- Enough has come in for all that goes out. -/
theorem backed_of_count (h : outs + xs.count .outward ≤ ins) : Backed ins outs xs := by
  induction xs generalizing ins outs with
  | nil => trivial
  | cons f xs ih =>
    cases f with
    | inward =>
      have houts : (Flow.inward :: xs).count .outward = xs.count .outward :=
        List.count_cons_of_ne (by decide)
      rw [houts] at h
      exact ih (Nat.le_succ_of_le h)
    | outward =>
      have houts : (Flow.outward :: xs).count .outward = xs.count .outward + 1 :=
        List.count_cons_self
      rw [houts] at h
      exact ⟨by omega, ih (by omega)⟩

theorem settled_replicate (n : Nat) : Settled ins outs (List.replicate n .outward) := by
  induction n generalizing outs with
  | zero => trivial
  | succ n ih => exact ih

/-- **What is overheard of a party that answers.** -/
theorem Backed.settled (h : Backed ins outs xs) (hle : outs ≤ ins) (hears : Overhears xs ys) :
    Settled ins outs ys := by
  induction hears generalizing ins outs with
  | unsent n => exact settled_replicate n
  | both f _ ih =>
    cases f with
    | inward => exact ⟨hle, ih h (Nat.le_succ_of_le hle)⟩
    | outward => exact ih h.2 h.1
  | unread _ ih => exact ⟨hle, ih (h.mono (Nat.le_succ ins)) (Nat.le_succ_of_le hle)⟩

end Answering
