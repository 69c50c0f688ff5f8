import Mathlib.Data.List.Nodup
import Mathlib.Logic.Function.Basic
import Chiralite.Framework.Run

/-!
# Tasks that share one connection

Some tasks run concurrently. Each has a list of frames to put on one shared stream, and then, if it
awaits a reply, takes one from a shared stream of replies. A schedule says whose turn it is, step
after step; a step puts one frame on the stream, or takes one reply. What a schedule comes to is
the stream, which decides what the other side does, and the order in which the tasks have taken
replies, which decides who has got which.

A schedule is orderly when nobody sends between the first and the last frame of another, and when
nobody takes a reply before those who began earlier. `orderly_stream` says what an orderly schedule
comes to, and `serial_stream` that the tasks one after another come to the same
(`orderly_eq_serial`).
-/

namespace Interleave

variable {M : Type}

/-- The tasks of a schedule, by their numbers. -/
structure Tasks (M : Type) where
  count : Nat
  frames : Nat → List M
  awaits : Nat → Bool
  /-- There are no others. -/
  outside : ∀ i, count ≤ i → frames i = []
  /-- A task that sends nothing takes no reply. -/
  silent : ∀ i, frames i = [] → awaits i = false

/-- The state of a schedule. -/
structure State (M : Type) where
  /-- What each task has still to send. -/
  unsent : Nat → List M
  /-- Which tasks have still to take a reply. -/
  awaiting : Nat → Bool
  /-- The tasks in the order of their first frames. -/
  order : List Nat
  stream : List M
  /-- The tasks that have taken a reply, in this order. -/
  receivers : List Nat

def start (T : Tasks M) : State M := ⟨T.frames, T.awaits, [], [], []⟩

/-- A task takes its next step. -/
def step (s : State M) (i : Nat) : State M :=
  match s.unsent i with
  | m :: rest =>
    { s with
      unsent := Function.update s.unsent i rest
      order := if i ∈ s.order then s.order else s.order ++ [i]
      stream := s.stream ++ [m] }
  | [] =>
    if s.awaiting i then
      { s with
        awaiting := Function.update s.awaiting i false
        receivers := s.receivers ++ [i] }
    else s

/-- Every task has come to its end. -/
def State.Done (s : State M) : Prop := ∀ i, s.unsent i = [] ∧ s.awaiting i = false

/-- The one began before the other. -/
def State.Before (s : State M) (i j : Nat) : Prop := [i, j].Sublist s.order

/-- **An orderly step.** Nobody else is between its first and its last frame when the task sends;
nobody that began earlier still awaits a reply when it takes one. -/
structure Orderly (s : State M) (i : Nat) : Prop where
  sends : s.unsent i ≠ [] → ∀ j ∈ s.order, j ≠ i → s.unsent j = []
  takes : s.unsent i = [] → s.awaiting i = true → ∀ j, s.Before j i → s.awaiting j = false

/-- The steps of a task, one after another. -/
def Tasks.turn (T : Tasks M) (i : Nat) : List Nat :=
  List.replicate (T.frames i).length i ++ if T.awaits i then [i] else []

/-- **The serial schedule**: the tasks one after another, in an order. -/
def Tasks.serial (T : Tasks M) (order : List Nat) : List Nat := order.flatMap T.turn

/-! ### Orderly schedules -/

/-- **The invariant of an orderly schedule.** What is on the stream, and what is left of the tasks
that have begun, are their frames in the order in which they began; only the last of them can have
something left. The replies have been taken in this order too. -/
structure Inv (T : Tasks M) (s : State M) : Prop where
  nodup : s.order.Nodup
  begun : ∀ i ∈ s.order, T.frames i ≠ []
  notBegun : ∀ i, i ∉ s.order → s.unsent i = T.frames i ∧ s.awaiting i = T.awaits i
  stream : s.stream ++ s.order.flatMap s.unsent = s.order.flatMap T.frames
  complete : ∀ i j, s.Before i j → s.unsent i = []
  awaited : ∀ i, s.awaiting i = true → T.awaits i = true
  receivers : s.receivers = s.order.filter fun i => T.awaits i && !s.awaiting i
  taken : ∀ i j, s.Before i j → s.awaiting i = true → s.awaiting j = T.awaits j

section Orderly

variable {T : Tasks M} {s : State M} {i : Nat}

theorem inv_start (T : Tasks M) : Inv T (start T) where
  nodup := List.nodup_nil
  begun _ hi := by cases hi
  notBegun _ _ := ⟨rfl, rfl⟩
  stream := rfl
  complete _ _ hbefore := by cases hbefore
  awaited _ hi := hi
  receivers := rfl
  taken _ _ hbefore := by cases hbefore

theorem before_concat {i j k : Nat} {order : List Nat} (h : [i, j].Sublist (order ++ [k])) :
    [i, j].Sublist order ∨ (i ∈ order ∧ j = k) := by
  obtain ⟨l, r, heq, hl, hr⟩ := List.sublist_append_iff.mp h
  rcases List.sublist_singleton.mp hr with rfl | rfl
  · rw [List.append_nil] at heq
    exact Or.inl (heq ▸ hl)
  · obtain ⟨rfl, hlast⟩ := List.append_inj' (show [i] ++ [j] = l ++ [k] from heq) rfl
    exact Or.inr ⟨List.singleton_sublist.mp hl, List.head_eq_of_cons_eq hlast⟩

theorem before_of_mem_left {i j : Nat} {pre post : List Nat} (h : j ∈ pre) :
    [j, i].Sublist (pre ++ i :: post) :=
  List.Sublist.append (List.singleton_sublist.mpr h) (List.singleton_sublist.mpr List.mem_cons_self)

theorem before_of_mem_right {i j : Nat} {pre post : List Nat} (h : j ∈ post) :
    [i, j].Sublist (pre ++ i :: post) :=
  ((List.singleton_sublist.mpr h).cons_cons i).trans (List.sublist_append_right _ _)

/-- A task that has begun sends: it is the last that has begun. -/
theorem Inv.send_again (h : Inv T s) {m : M} {rest : List M} (hi : i ∈ s.order)
    (hunsent : s.unsent i = m :: rest) :
    Inv T { s with unsent := Function.update s.unsent i rest, stream := s.stream ++ [m] } := by
  obtain ⟨pre, post, horder⟩ := List.append_of_mem hi
  -- whoever had begun after it would have found it complete
  have hpost : post = [] := by
    refine List.eq_nil_iff_forall_not_mem.mpr fun j hj => ?_
    have hnil := h.complete i j (by rw [State.Before, horder]; exact before_of_mem_right hj)
    rw [hunsent] at hnil
    cases hnil
  rw [hpost] at horder
  have hpre : ∀ j ∈ pre, s.unsent j = [] := fun j hj =>
    h.complete j i (by rw [State.Before, horder]; exact before_of_mem_left hj)
  have hnotMem : i ∉ pre := by
    have hnodup := h.nodup
    rw [horder] at hnodup
    intro hmem
    exact (List.nodup_append.mp hnodup).2.2 i hmem i List.mem_cons_self rfl
  refine ⟨h.nodup, h.begun, fun j hj => ?_, ?_, fun j k hbefore => ?_, h.awaited, h.receivers,
    h.taken⟩
  · have hne : j ≠ i := fun heq => hj (heq ▸ hi)
    dsimp only
    rw [Function.update_of_ne hne]
    exact h.notBegun j hj
  · -- the frame has gone from what is left to the stream
    have hold := h.stream
    rw [horder, List.flatMap_append, List.flatMap_eq_nil_iff.mpr hpre, List.flatMap_singleton,
      hunsent] at hold
    have hnew : pre.flatMap (Function.update s.unsent i rest) = [] := by
      refine List.flatMap_eq_nil_iff.mpr fun j hj => ?_
      have hne : j ≠ i := fun heq => hnotMem (heq ▸ hj)
      rw [Function.update_of_ne hne]
      exact hpre j hj
    dsimp only
    rw [horder, List.flatMap_append, hnew, List.flatMap_singleton, Function.update_self,
      List.append_assoc]
    exact hold
  · have hne : j ≠ i := by
      rintro rfl
      have hnil := h.complete j k hbefore
      rw [hunsent] at hnil
      cases hnil
    dsimp only
    rw [Function.update_of_ne hne]
    exact h.complete j k hbefore

/-- A task begins, when nobody has anything left. -/
theorem Inv.send_first (h : Inv T s) {m : M} {rest : List M} (hi : i ∉ s.order)
    (hunsent : s.unsent i = m :: rest) (hothers : ∀ j ∈ s.order, s.unsent j = []) :
    Inv T { s with
      unsent := Function.update s.unsent i rest
      order := s.order ++ [i]
      stream := s.stream ++ [m] } := by
  -- it has sent nothing, so what it has left are all its frames
  have hframes : T.frames i = m :: rest := (h.notBegun i hi).1.symm.trans hunsent
  have hothers' : ∀ j ∈ s.order, Function.update s.unsent i rest j = [] := by
    intro j hj
    have hne : j ≠ i := fun heq => hi (heq ▸ hj)
    rw [Function.update_of_ne hne]
    exact hothers j hj
  refine ⟨?_, fun j hj => ?_, fun j hj => ?_, ?_, fun j k hbefore => ?_, h.awaited, ?_,
    fun j k hbefore hj => ?_⟩
  · exact List.nodup_append.mpr ⟨h.nodup, List.nodup_singleton i, by
      rintro j hj k hk rfl
      exact hi (List.mem_singleton.mp hk ▸ hj)⟩
  · rcases List.mem_append.mp hj with hj | hj
    · exact h.begun j hj
    · rw [List.mem_singleton.mp hj, hframes]
      exact List.cons_ne_nil _ _
  · rw [List.mem_append, not_or, List.mem_singleton] at hj
    dsimp only
    rw [Function.update_of_ne hj.2]
    exact h.notBegun j hj.1
  · -- the stream so far is complete, and the new frames go behind it
    have hold := h.stream
    rw [List.flatMap_eq_nil_iff.mpr hothers, List.append_nil] at hold
    dsimp only
    rw [List.flatMap_append, List.flatMap_append, List.flatMap_eq_nil_iff.mpr hothers', ← hold,
      List.flatMap_singleton, List.flatMap_singleton, Function.update_self, hframes,
      List.nil_append, List.append_assoc, List.singleton_append]
  · rcases before_concat hbefore with hbefore | ⟨hj, -⟩
    · exact hothers' j (hbefore.subset List.mem_cons_self)
    · exact hothers' j hj
  · -- the new one has taken no reply
    have hnone : (T.awaits i && !s.awaiting i) = false := by
      rw [(h.notBegun i hi).2]
      exact Bool.and_not_self _
    dsimp only
    rw [List.filter_append, h.receivers, List.filter_singleton, hnone]
    exact (List.append_nil _).symm
  · rcases before_concat hbefore with hbefore | ⟨-, rfl⟩
    · exact h.taken j k hbefore hj
    · exact (h.notBegun k hi).2

/-- The tasks that await a reply and have it, when one more has: nobody behind it does yet. -/
theorem filter_update_awaiting {awaits awaiting : Nat → Bool} {pre post : List Nat}
    (hpre : i ∉ pre) (hpost : i ∉ post) (hawaits : awaits i = true) (hawaiting : awaiting i = true)
    (hnone : ∀ j ∈ post, (awaits j && !awaiting j) = false) :
    (pre ++ i :: post).filter (fun j => awaits j && !Function.update awaiting i false j) =
      (pre ++ i :: post).filter (fun j => awaits j && !awaiting j) ++ [i] := by
  have hother : ∀ j, j ≠ i → Function.update awaiting i false j = awaiting j :=
    fun j hne => Function.update_of_ne hne _ _
  -- those before it are counted as they were, those after it have taken none
  have hbefore : pre.filter (fun j => awaits j && !Function.update awaiting i false j) =
      pre.filter fun j => awaits j && !awaiting j := by
    refine List.filter_congr fun j hj => ?_
    rw [hother j fun heq => hpre (heq ▸ hj)]
  have hafter : post.filter (fun j => awaits j && !awaiting j) = [] := by
    refine List.filter_eq_nil_iff.mpr fun j hj => ?_
    rw [hnone j hj]
    exact Bool.false_ne_true
  have hafter' : post.filter (fun j => awaits j && !Function.update awaiting i false j) = [] := by
    refine List.filter_eq_nil_iff.mpr fun j hj => ?_
    rw [hother j fun heq => hpost (heq ▸ hj), hnone j hj]
    exact Bool.false_ne_true
  rw [List.filter_append, List.filter_append, hbefore,
    List.filter_cons_of_pos (by rw [Function.update_self, hawaits]; rfl), hafter',
    List.filter_cons_of_neg (by rw [hawaiting]; simp), hafter, List.append_nil]

/-- A task takes a reply, when all that began earlier have. -/
theorem Inv.take (h : Inv T s) (hunsent : s.unsent i = []) (hawaiting : s.awaiting i = true)
    (hearlier : ∀ j, s.Before j i → s.awaiting j = false) :
    Inv T { s with
      awaiting := Function.update s.awaiting i false
      receivers := s.receivers ++ [i] } := by
  -- a task without frames awaits no reply, so this one has begun
  have hi : i ∈ s.order := by
    by_contra hnot
    obtain ⟨hframes, hawaits⟩ := h.notBegun i hnot
    rw [T.silent i (hframes.symm.trans hunsent), hawaiting] at hawaits
    cases hawaits
  obtain ⟨pre, post, horder⟩ := List.append_of_mem hi
  have hnodup := h.nodup
  rw [horder, List.nodup_middle, List.nodup_cons, List.mem_append, not_or] at hnodup
  obtain ⟨⟨hpre, hpost⟩, -⟩ := hnodup
  have hother : ∀ j, j ≠ i → Function.update s.awaiting i false j = s.awaiting j :=
    fun j hne => Function.update_of_ne hne _ _
  refine ⟨h.nodup, h.begun, fun j hj => ?_, h.stream, h.complete, fun j hj => ?_, ?_,
    fun j k hbefore hj => ?_⟩
  · dsimp only
    rw [hother j fun heq => hj (heq ▸ hi)]
    exact h.notBegun j hj
  · by_cases heq : j = i
    · rw [heq]
      exact h.awaited i hawaiting
    · exact h.awaited j ((hother j heq).symm.trans hj)
  · -- those behind it wait, because this one does
    have hnone : ∀ j ∈ post, (T.awaits j && !s.awaiting j) = false := by
      intro j hj
      have hbefore : s.Before i j := by
        rw [State.Before, horder]
        exact before_of_mem_right hj
      rw [h.taken i j hbefore hawaiting]
      exact Bool.and_not_self _
    have hold := h.receivers
    rw [horder] at hold
    dsimp only
    rw [hold, horder,
      filter_update_awaiting hpre hpost (h.awaited i hawaiting) hawaiting hnone]
  · dsimp only at hj
    have hne : j ≠ i := by
      rintro rfl
      rw [Function.update_self] at hj
      cases hj
    rw [hother j hne] at hj
    -- a task that still waits began after the one that takes the reply
    by_cases heq : k = i
    · rw [heq] at hbefore
      rw [hearlier j hbefore] at hj
      cases hj
    · dsimp only
      rw [hother k heq]
      exact h.taken j k hbefore hj

/-- **Every orderly step keeps the invariant.** -/
theorem Inv.step (h : Inv T s) (horderly : Orderly s i) : Inv T (step s i) := by
  unfold Interleave.step
  cases hunsent : s.unsent i with
  | cons m rest =>
    have hsend : s.unsent i ≠ [] := by
      rw [hunsent]
      exact List.cons_ne_nil _ _
    by_cases hi : i ∈ s.order
    · simp only [if_pos hi]
      exact h.send_again hi hunsent
    · simp only [if_neg hi]
      refine h.send_first hi hunsent fun j hj => ?_
      exact horderly.sends hsend j hj fun heq => hi (heq ▸ hj)
  | nil =>
    by_cases hawaiting : s.awaiting i = true
    · simp only [if_pos hawaiting]
      exact h.take hunsent hawaiting (horderly.takes hunsent hawaiting)
    · simp only [if_neg hawaiting]
      exact h

/-- **What an orderly schedule comes to**: the frames of one task after another, and the replies
taken in the same order. -/
theorem orderly_stream {schedule : List Nat}
    (horderly : Run.Guarded step Orderly (start T) schedule)
    (hdone : (Run.run step (start T) schedule).Done) :
    ∃ order : List Nat, order.Nodup ∧ (∀ i, i ∈ order ↔ T.frames i ≠ []) ∧
      (Run.run step (start T) schedule).stream = order.flatMap T.frames ∧
      (Run.run step (start T) schedule).receivers = order.filter T.awaits := by
  have hinv : Inv T (Run.run step (start T) schedule) :=
    Run.run_invariant (fun s i h hi => h.step hi) (inv_start T) horderly
  refine ⟨_, hinv.nodup, fun i => ⟨hinv.begun i, fun hne => ?_⟩, ?_, ?_⟩
  · by_contra hnot
    exact hne ((hinv.notBegun i hnot).1.symm.trans (hdone i).1)
  · have hstream := hinv.stream
    rw [List.flatMap_eq_nil_iff.mpr fun i _ => (hdone i).1, List.append_nil] at hstream
    exact hstream
  · rw [hinv.receivers]
    refine List.filter_congr fun i _ => ?_
    rw [(hdone i).2]
    exact Bool.and_true _

end Orderly

/-! ### Serial schedules -/

section Serial

variable {T : Tasks M} {s : State M} {i : Nat}

/-- A task sends all it has left. -/
theorem run_sends (frames : List M) (s : State M) (h : s.unsent i = frames) :
    (Run.run step s (List.replicate frames.length i)).unsent = Function.update s.unsent i [] ∧
      (Run.run step s (List.replicate frames.length i)).awaiting = s.awaiting ∧
      (Run.run step s (List.replicate frames.length i)).stream = s.stream ++ frames ∧
      (Run.run step s (List.replicate frames.length i)).receivers = s.receivers := by
  induction frames generalizing s with
  | nil =>
    refine ⟨?_, rfl, (List.append_nil _).symm, rfl⟩
    show s.unsent = _
    rw [← h, Function.update_eq_self]
  | cons m rest ih =>
    have hstep : step s i = { s with
        unsent := Function.update s.unsent i rest
        order := if i ∈ s.order then s.order else s.order ++ [i]
        stream := s.stream ++ [m] } := by
      rw [step, h]
    -- one frame has gone, and the others go by the induction hypothesis
    have hleft : (step s i).unsent i = rest := by
      rw [hstep]
      exact Function.update_self _ _ _
    obtain ⟨hunsent, hawaiting, hstream, hreceivers⟩ := ih (step s i) hleft
    rw [List.length_cons, List.replicate_succ, Run.run_cons]
    refine ⟨?_, ?_, ?_, ?_⟩
    · rw [hunsent, hstep, Function.update_idem]
    · rw [hawaiting, hstep]
    · rw [hstream, hstep, List.append_assoc, List.singleton_append]
    · rw [hreceivers, hstep]

/-- A task that has not begun takes all its steps. -/
theorem run_turn (hunsent : s.unsent i = T.frames i) (hawaiting : s.awaiting i = T.awaits i) :
    (Run.run step s (T.turn i)).unsent = Function.update s.unsent i [] ∧
      (Run.run step s (T.turn i)).awaiting = Function.update s.awaiting i false ∧
      (Run.run step s (T.turn i)).stream = s.stream ++ T.frames i ∧
      (Run.run step s (T.turn i)).receivers = s.receivers ++ [i].filter T.awaits := by
  obtain ⟨hunsent', hawaiting', hstream, hreceivers⟩ := run_sends _ s hunsent
  unfold Tasks.turn
  rw [Run.run_append]
  cases hawaits : T.awaits i with
  | false =>
    rw [hawaits] at hawaiting
    have hnone : Function.update s.awaiting i false = s.awaiting := by
      rw [← hawaiting, Function.update_eq_self]
    refine ⟨hunsent', hawaiting'.trans hnone.symm, hstream, ?_⟩
    · rw [List.filter_cons_of_neg (by rw [hawaits]; exact Bool.false_ne_true), List.filter_nil,
        List.append_nil]
      exact hreceivers
  | true =>
    rw [hawaits] at hawaiting
    -- one more step, which takes the reply
    have hstep : Run.run step (Run.run step s (List.replicate (T.frames i).length i))
        (if true = true then [i] else []) =
        { Run.run step s (List.replicate (T.frames i).length i) with
          awaiting := Function.update s.awaiting i false
          receivers := s.receivers ++ [i] } := by
      rw [if_pos rfl, Run.run_cons, Run.run_nil, step, hunsent', Function.update_self]
      dsimp only
      rw [hawaiting', if_pos hawaiting, hreceivers, hunsent']
    rw [hstep, List.filter_cons_of_pos hawaits]
    exact ⟨hunsent', rfl, hstream, rfl⟩

/-- **What the tasks come to one after another.** -/
theorem run_serial (order : List Nat) (hnodup : order.Nodup) (s : State M)
    (hfresh : ∀ i ∈ order, s.unsent i = T.frames i ∧ s.awaiting i = T.awaits i) :
    (Run.run step s (T.serial order)).stream = s.stream ++ order.flatMap T.frames ∧
      (Run.run step s (T.serial order)).receivers = s.receivers ++ order.filter T.awaits ∧
      (∀ i ∈ order, (Run.run step s (T.serial order)).unsent i = [] ∧
        (Run.run step s (T.serial order)).awaiting i = false) ∧
      ∀ i ∉ order, (Run.run step s (T.serial order)).unsent i = s.unsent i ∧
        (Run.run step s (T.serial order)).awaiting i = s.awaiting i := by
  induction order generalizing s with
  | nil =>
    refine ⟨(List.append_nil _).symm, (List.append_nil _).symm, ?_, fun i _ => ⟨rfl, rfl⟩⟩
    intro i hi
    cases hi
  | cons i order ih =>
    obtain ⟨hi, hnodup⟩ := List.nodup_cons.mp hnodup
    obtain ⟨hunsent, hawaiting⟩ := hfresh i List.mem_cons_self
    -- the first has its turn, which leaves the others as they were
    obtain ⟨hunsent', hawaiting', hstream, hreceivers⟩ := run_turn hunsent hawaiting
    have hother : ∀ j, j ≠ i → (Run.run step s (T.turn i)).unsent j = s.unsent j ∧
        (Run.run step s (T.turn i)).awaiting j = s.awaiting j := by
      intro j hne
      rw [hunsent', hawaiting', Function.update_of_ne hne, Function.update_of_ne hne]
      exact ⟨rfl, rfl⟩
    have hserial : Run.run step s (T.serial (i :: order)) =
        Run.run step (Run.run step s (T.turn i)) (T.serial order) := by
      rw [← Run.run_append]
      rfl
    obtain ⟨ihstream, ihreceivers, ihdone, ihrest⟩ := ih hnodup (Run.run step s (T.turn i)) (by
      intro j hj
      obtain ⟨hsame, hsame'⟩ := hother j fun heq => hi (heq ▸ hj)
      rw [hsame, hsame']
      exact hfresh j (List.mem_cons_of_mem _ hj))
    rw [hserial]
    refine ⟨?_, ?_, fun j hj => ?_, fun j hj => ?_⟩
    · rw [ihstream, hstream, List.flatMap_cons, List.append_assoc]
    · rw [ihreceivers, hreceivers, List.append_assoc, ← List.filter_append,
        List.singleton_append]
    · rcases List.mem_cons.mp hj with rfl | hj
      · obtain ⟨hsame, hsame'⟩ := ihrest j hi
        rw [hsame, hsame', hunsent', hawaiting', Function.update_self, Function.update_self]
        exact ⟨rfl, rfl⟩
      · exact ihdone j hj
    · rw [List.mem_cons, not_or] at hj
      obtain ⟨hsame, hsame'⟩ := ihrest j hj.2
      rw [hsame, hsame']
      exact hother j hj.1

/-- **An orderly schedule comes to the same as a serial one**, in which every task has its turn. -/
theorem orderly_eq_serial {schedule : List Nat}
    (horderly : Run.Guarded step Orderly (start T) schedule)
    (hdone : (Run.run step (start T) schedule).Done) :
    ∃ order : List Nat, order.Perm (List.range T.count) ∧
      (Run.run step (start T) (T.serial order)).Done ∧
      (Run.run step (start T) schedule).stream =
        (Run.run step (start T) (T.serial order)).stream ∧
      (Run.run step (start T) schedule).receivers =
        (Run.run step (start T) (T.serial order)).receivers := by
  obtain ⟨order, hnodup, hmem, hstream, hreceivers⟩ := orderly_stream horderly hdone
  -- the tasks that have nothing to do come last
  have hrest : ∀ i ∈ (List.range T.count).filter (· ∉ order), T.frames i = [] := by
    intro i hi
    by_contra hne
    simpa [(hmem i).mpr hne] using (List.mem_filter.mp hi).2
  have hall : (order ++ (List.range T.count).filter (· ∉ order)).Nodup := by
    refine List.nodup_append.mpr ⟨hnodup, List.nodup_range.filter _, ?_⟩
    rintro i hi j hj rfl
    simpa [hi] using (List.mem_filter.mp hj).2
  have hperm : (order ++ (List.range T.count).filter (· ∉ order)).Perm (List.range T.count) := by
    refine (List.perm_ext_iff_of_nodup hall List.nodup_range).mpr fun i => ?_
    rw [List.mem_append, List.mem_filter, List.mem_range]
    constructor
    · rintro (hi | ⟨hi, -⟩)
      · by_contra hge
        exact (hmem i).mp hi (T.outside i (Nat.le_of_not_lt hge))
      · exact hi
    · intro hi
      by_cases hin : i ∈ order
      · exact Or.inl hin
      · exact Or.inr ⟨hi, by simpa using hin⟩
  obtain ⟨hserial, hserial', hends, hkeeps⟩ :=
    run_serial (T := T) _ hall (start T) fun i _ => ⟨rfl, rfl⟩
  refine ⟨order ++ (List.range T.count).filter (· ∉ order), hperm, fun i => ?_, ?_, ?_⟩
  · by_cases hi : i ∈ order ++ (List.range T.count).filter (· ∉ order)
    · exact hends i hi
    · -- there is no such task
      have hframes : T.frames i = [] := by
        refine T.outside i (Nat.le_of_not_lt fun hlt => hi ?_)
        exact hperm.mem_iff.mpr (List.mem_range.mpr hlt)
      obtain ⟨hsame, hsame'⟩ := hkeeps i hi
      exact ⟨hsame.trans hframes, hsame'.trans (T.silent i hframes)⟩
  · rw [hserial, List.flatMap_append, List.flatMap_eq_nil_iff.mpr hrest, List.append_nil]
    exact hstream
  · have hnone : ((List.range T.count).filter (· ∉ order)).filter T.awaits = [] := by
      refine List.filter_eq_nil_iff.mpr fun i hi => ?_
      rw [T.silent i (hrest i hi)]
      exact Bool.false_ne_true
    rw [hserial', List.filter_append, hnone, List.append_nil]
    exact hreceivers

end Serial

end Interleave
