import Chiralite.Client.Retry

/-!
# The silos of a client

`ChiraliteClient.run` of `client.py`: one task of `_run_silo_with_retry` for each silo, until `stop`
is called, and then the cancellation of them all. The tasks have the client in common, with its stop
event and with `_http_mode`, which any of them might set for the others.

None does: `connect_with_retry` has no bound on its tries, so that no task comes to the line which
sets the flag. `client_silo_alone` says what that means for a client of many silos, in any
interleaving of their tasks: each goes as if its silo were the only one, however the others fare and
by whatever exception they end. `client_returns` is about the end: `run` returns only after `stop`
and when every task has ended, and after `stop` it can always be brought to.
-/

namespace Chiralite

open Py Run

/-- What belongs to one task. -/
structure TaskState where
  /-- The attempts that have ended. -/
  attempts : Nat
  ended : Option SiloEnd

/-- `ChiraliteClient`, while `run` runs. -/
structure ClientRun where
  /-- `_stop_event`. -/
  stopSet : Bool
  /-- `_http_mode`. -/
  httpMode : Bool
  tasks : List TaskState
  /-- `run` has cancelled the tasks. -/
  cancelling : Bool
  returned : Bool

/-- The tasks are created. -/
def ClientRun.start (cfgs : List SiloClient) : ClientRun :=
  ⟨false, false, cfgs.map fun _ => ⟨0, none⟩, false, false⟩

inductive ClientAct where
  /-- The next round of the loop of a task. -/
  | attempt (i : Nat) (A : SiloAttempt)
  | stop
  /-- `run` goes on behind `self._stop_event.wait()`. -/
  | wake
  /-- The `CancelledError` comes to a task. -/
  | cancelled (i : Nat)
  /-- `run` goes on behind `asyncio.gather`. -/
  | gather

/-- A task, as it sees the client. -/
def ClientRun.view (s : ClientRun) (t : TaskState) : SiloTask :=
  ⟨s.stopSet, s.httpMode, t.attempts, t.ended⟩

/-- The task with a number. -/
def ClientRun.task (s : ClientRun) (i : Nat) : Option SiloTask := (s.tasks[i]?).map s.view

/-- A task goes on. -/
def ClientRun.onTask (cfgs : List SiloClient) (s : ClientRun) (i : Nat) (a : SiloAct) : ClientRun :=
  match cfgs[i]?, s.tasks[i]? with
  | some C, some t =>
    let t' := (s.view t).step C a
    { s with httpMode := t'.httpMode, tasks := s.tasks.set i ⟨t'.attempts, t'.ended⟩ }
  | _, _ => s

/-- `ChiraliteClient.run` and `ChiraliteClient.stop`, with the tasks. -/
def ClientRun.step (cfgs : List SiloClient) (s : ClientRun) : ClientAct → ClientRun
  | .attempt i A => s.onTask cfgs i (.attempt A)
  | .stop => { s with stopSet := true }
  | .wake => if s.stopSet then { s with cancelling := true } else s
  | .cancelled i => if s.cancelling then s.onTask cfgs i .cancel else s
  -- `return_exceptions=True`: it does not matter how the tasks have ended
  | .gather =>
    if s.cancelling ∧ ∀ t ∈ s.tasks, t.ended.isSome then { s with returned := true } else s

/-! ### One silo among others -/

section Alone

variable {C : SiloClient} {cfgs : List SiloClient} {s s' : ClientRun} {i : Nat}

/-- No step of a task sets the flag. -/
theorem SiloTask.step_websocket {s : SiloTask} (h : s.httpMode = false) (a : SiloAct) :
    (s.step C a).httpMode = false := by
  cases a with
  | stop => exact h
  | cancel =>
    simp only [SiloTask.step]
    split
    · exact h
    · exact h
  | attempt A =>
    simp only [SiloTask.step]
    split
    · exact h
    split
    · exact h
    rw [h, connectTransport_websocket]
    cases connectWithRetry C none 0 A.tries with
    | trying => rfl
    | lost text => rfl
    | connected => exact (SiloTask.after_fields _ _).1

/-- Whether `run` returns is all that `gather` decides. -/
theorem ClientRun.step_gather (cfgs : List SiloClient) (s : ClientRun) :
    s.step cfgs .gather = s ∨ s.step cfgs .gather = { s with returned := true } := by
  simp only [ClientRun.step]
  split
  · exact Or.inr rfl
  · exact Or.inl rfl

/-- What a client of one silo does, where a client of many does something. -/
def ClientAct.alone (i : Nat) : ClientAct → Option ClientAct
  | .attempt j A => if j = i then some (.attempt 0 A) else none
  | .cancelled j => if j = i then some (.cancelled 0) else none
  | a => some a

/-- The client, and one that has only the silo with a number. -/
structure ClientRun.Alone (C : SiloClient) (i : Nat) (s s' : ClientRun) : Prop where
  stopSet : s.stopSet = s'.stopSet
  websocket : s.httpMode = false
  websocket' : s'.httpMode = false
  cancelling : s.cancelling = s'.cancelling
  task : ∃ t, s.tasks[i]? = some t ∧ s'.tasks = [t]

/-- Another task goes on. -/
theorem ClientRun.Alone.onOther (h : Alone C i s s') {j : Nat} (hj : j ≠ i) (a : SiloAct) :
    Alone C i (s.onTask cfgs j a) s' := by
  unfold ClientRun.onTask
  split
  · rename_i C' t hC ht
    obtain ⟨t', ht', hs'⟩ := h.task
    refine ⟨h.stopSet, SiloTask.step_websocket h.websocket a, h.websocket', h.cancelling, t', ?_,
      hs'⟩
    rw [List.getElem?_set_ne hj]
    exact ht'
  · exact h

/-- The task of the silo goes on, in both. -/
theorem ClientRun.Alone.onSelf (hC : cfgs[i]? = some C) (h : Alone C i s s') (a : SiloAct) :
    Alone C i (s.onTask cfgs i a) (s'.onTask [C] 0 a) := by
  obtain ⟨t, ht, hs'⟩ := h.task
  -- a task sees no more of the client than the two flags
  have hview : s'.view t = s.view t := by
    unfold ClientRun.view
    rw [h.stopSet, h.websocket, h.websocket']
  have hleft : s.onTask cfgs i a = { s with
      httpMode := ((s.view t).step C a).httpMode
      tasks := s.tasks.set i ⟨((s.view t).step C a).attempts, ((s.view t).step C a).ended⟩ } := by
    unfold ClientRun.onTask
    rw [hC, ht]
  have hright : s'.onTask [C] 0 a = { s' with
      httpMode := ((s.view t).step C a).httpMode
      tasks := [⟨((s.view t).step C a).attempts, ((s.view t).step C a).ended⟩] } := by
    unfold ClientRun.onTask
    rw [hs', ← hview]
    rfl
  have hwebsocket : ((s.view t).step C a).httpMode = false :=
    SiloTask.step_websocket h.websocket a
  obtain ⟨hlt, -⟩ := List.getElem?_eq_some_iff.mp ht
  rw [hleft, hright]
  exact ⟨h.stopSet, hwebsocket, hwebsocket, h.cancelling, _, List.getElem?_set_self hlt, rfl⟩

/-- **Step lemma.** -/
theorem ClientRun.Alone.step (hC : cfgs[i]? = some C) (h : Alone C i s s') (a : ClientAct) :
    Alone C i (s.step cfgs a) (run (ClientRun.step [C]) s' (a.alone i).toList) := by
  cases a with
  | attempt j A =>
    by_cases hj : j = i
    · subst hj
      rw [ClientAct.alone, if_pos rfl]
      exact h.onSelf hC (.attempt A)
    · -- the client of one silo stays where it is
      rw [ClientAct.alone, if_neg hj]
      exact h.onOther hj (.attempt A)
  | stop => exact ⟨rfl, h.websocket, h.websocket', h.cancelling, h.task⟩
  | wake =>
    show Alone C i (if s.stopSet then { s with cancelling := true } else s)
      (if s'.stopSet then { s' with cancelling := true } else s')
    rw [h.stopSet]
    split
    · exact ⟨rfl, h.websocket, h.websocket', rfl, h.task⟩
    · exact h
  | cancelled j =>
    by_cases hj : j = i
    · subst hj
      rw [ClientAct.alone, if_pos rfl]
      show Alone C j (if s.cancelling then s.onTask cfgs j .cancel else s)
        (if s'.cancelling then s'.onTask [C] 0 .cancel else s')
      rw [h.cancelling]
      split
      · exact h.onSelf hC .cancel
      · exact h
    · rw [ClientAct.alone, if_neg hj]
      show Alone C i (if s.cancelling then s.onTask cfgs j .cancel else s) s'
      split
      · exact h.onOther hj .cancel
      · exact h
  | gather =>
    have hstep' : Run.run (ClientRun.step [C]) s' (ClientAct.gather.alone i).toList =
        s'.step [C] .gather := rfl
    rw [hstep']
    -- the one may return where the other waits for more tasks: no task sees that
    obtain hs | hs := s.step_gather cfgs <;> obtain hs' | hs' := s'.step_gather [C] <;>
      rw [hs, hs'] <;> exact ⟨h.stopSet, h.websocket, h.websocket', h.cancelling, h.task⟩

/-- **Run lemma.** -/
theorem ClientRun.Alone.run (hC : cfgs[i]? = some C) (h : Alone C i s s') (as : List ClientAct) :
    Alone C i (Run.run (ClientRun.step cfgs) s as)
      (Run.run (ClientRun.step [C]) s' (as.filterMap (ClientAct.alone i))) := by
  induction as generalizing s s' with
  | nil => exact h
  | cons a as ih =>
    have hfilter : (a :: as).filterMap (ClientAct.alone i) =
        (a.alone i).toList ++ as.filterMap (ClientAct.alone i) := by
      rw [List.filterMap_cons]
      split
      · rename_i hnone
        rw [hnone]
        rfl
      · rename_i b hsome
        rw [hsome]
        rfl
    rw [hfilter, run_append]
    exact ih (h.step hC a)

/-- **Each silo goes as if it were the only one.** In any interleaving of the tasks of a client, of
`stop` and of the cancellation, `_http_mode` is not set, and the task of a silo is at each point
where it would be in a client that has only that silo. -/
theorem client_silo_alone (cfgs : List SiloClient) {i : Nat} (hC : cfgs[i]? = some C)
    (as : List ClientAct) :
    (run (ClientRun.step cfgs) (ClientRun.start cfgs) as).httpMode = false ∧
      (run (ClientRun.step cfgs) (ClientRun.start cfgs) as).task i =
        (run (ClientRun.step [C]) (ClientRun.start [C])
          (as.filterMap (ClientAct.alone i))).task 0 := by
  have hstart : ClientRun.Alone C i (ClientRun.start cfgs) (ClientRun.start [C]) := by
    refine ⟨rfl, rfl, rfl, rfl, ⟨0, none⟩, ?_, rfl⟩
    show (cfgs.map _)[i]? = _
    rw [List.getElem?_map, hC]
    rfl
  have hrun := hstart.run hC as
  refine ⟨hrun.websocket, ?_⟩
  obtain ⟨t, ht, ht'⟩ := hrun.task
  unfold ClientRun.task
  rw [ht, ht']
  show some _ = some _
  unfold ClientRun.view
  rw [hrun.stopSet, hrun.websocket, hrun.websocket']

end Alone

namespace Sample

/-- The peer closes the connection of the first silo, and then the client is stopped. -/
def closedActs : List ClientAct := [.attempt 0 closedAttempt, .stop, .wake, .cancelled 1]

/-- The first task dies, and the second one goes its way to its cancellation. -/
theorem second_silo_alone :
    let s := run (ClientRun.step [siloClient, siloClient])
      (ClientRun.start [siloClient, siloClient]) closedActs
    (s.task 0).map SiloTask.ended = some (some (.escaped (.handshake (.net (.connectionClosed
        (lit "no close frame received or sent")))))) ∧
      (s.task 1).map SiloTask.ended = some (some .cancelled) ∧
      s.httpMode = false ∧
      s.task 1 = (run (ClientRun.step [siloClient]) (ClientRun.start [siloClient])
        (closedActs.filterMap (ClientAct.alone 1))).task 0 :=
  ⟨rfl, rfl, client_silo_alone [siloClient, siloClient] rfl closedActs⟩

end Sample

/-! ### The end of `run` -/

section Returning

variable {C : SiloClient} {cfgs : List SiloClient} {s : ClientRun}

/-- The end of a task is final. -/
theorem SiloTask.step_ended {s : SiloTask} (h : s.ended.isSome) (a : SiloAct) :
    (s.step C a).ended = s.ended ∧ (s.step C a).attempts = s.attempts := by
  have hne : s.ended ≠ none := Option.isSome_iff_ne_none.mp h
  cases a with
  | stop => exact ⟨rfl, rfl⟩
  | cancel =>
    simp only [SiloTask.step, if_neg hne]
    exact ⟨trivial, trivial⟩
  | attempt A =>
    simp only [SiloTask.step, if_pos hne]
    exact ⟨trivial, trivial⟩

/-- A task ends as stopped or cancelled only where it sees the flag or is cancelled. -/
theorem SiloTask.step_ends {s : SiloTask} (a : SiloAct) :
    ((s.step C a).ended = some .stopped → s.ended = some .stopped ∨ s.stopSet = true) ∧
      ((s.step C a).ended = some .cancelled → s.ended = some .cancelled ∨ a = .cancel) := by
  by_cases hended : s.ended.isSome
  · rw [(SiloTask.step_ended hended a).1]
    exact ⟨Or.inl, Or.inl⟩
  have hnone : s.ended = none := Option.not_isSome_iff_eq_none.mp hended
  cases a with
  | stop => exact ⟨Or.inl, Or.inl⟩
  | cancel =>
    have hends : (s.step C .cancel).ended = some .cancelled := by
      rw [SiloTask.step, if_pos hnone]
    rw [hends]
    exact ⟨fun h => (by cases h), fun _ => Or.inr rfl⟩
  | attempt A =>
    by_cases hstop : s.stopSet = true
    · have hends : (s.step C (.attempt A)).ended = some .stopped := by
        rw [SiloTask.step, if_neg (not_not.mpr hnone), if_pos hstop]
      rw [hends]
      exact ⟨fun _ => Or.inr hstop, fun h => by cases h⟩
    · -- an attempt goes on, or ends by an exception
      have hends : (s.step C (.attempt A)).ended = none ∨
          ∃ e, (s.step C (.attempt A)).ended = some (.escaped e) := by
        rw [SiloTask.step, if_neg (not_not.mpr hnone), if_neg hstop]
        split
        · exact Or.inl hnone
        · exact Or.inl hnone
        · exact (SiloTask.after_fields _ _).2.2.imp (fun hsame => hsame.trans hnone) id
      obtain hnone' | ⟨e, he⟩ := hends
      · rw [hnone']
        exact ⟨fun h => (by cases h), fun h => by cases h⟩
      · rw [he]
        exact ⟨fun h => (by cases h), fun h => by cases h⟩

/-- A task that goes on changes itself only. -/
theorem ClientRun.getElem?_onTask (cfgs : List SiloClient) (s : ClientRun) (i j : Nat)
    (a : SiloAct) :
    (s.onTask cfgs i a).tasks[j]? = s.tasks[j]? ∨
      (j = i ∧ ∃ C t, cfgs[i]? = some C ∧ s.tasks[i]? = some t ∧
        (s.onTask cfgs i a).tasks[j]? =
          some ⟨((s.view t).step C a).attempts, ((s.view t).step C a).ended⟩) := by
  unfold ClientRun.onTask
  split
  · rename_i C t hC ht
    by_cases hj : j = i
    · subst hj
      obtain ⟨hlt, -⟩ := List.getElem?_eq_some_iff.mp ht
      exact Or.inr ⟨rfl, C, t, hC, ht, List.getElem?_set_self hlt⟩
    · exact Or.inl (List.getElem?_set_ne (Ne.symm hj))
  · exact Or.inl rfl

theorem ClientRun.mem_onTask {i : Nat} {a : SiloAct} {t' : TaskState}
    (h : t' ∈ (s.onTask cfgs i a).tasks) :
    t' ∈ s.tasks ∨ ∃ C, ∃ t ∈ s.tasks,
      t' = ⟨((s.view t).step C a).attempts, ((s.view t).step C a).ended⟩ := by
  obtain ⟨j, hj⟩ := List.mem_iff_getElem?.mp h
  -- the tasks that did not go on are those of before
  obtain hsame | ⟨-, C, t, -, ht, hnew⟩ := s.getElem?_onTask cfgs i j a
  · rw [hsame] at hj
    exact Or.inl (List.mem_of_getElem? hj)
  · rw [hnew] at hj
    exact Or.inr ⟨C, t, List.mem_of_getElem? ht, (Option.some.inj hj).symm⟩

theorem ClientRun.onTask_client (cfgs : List SiloClient) (s : ClientRun) (i : Nat) (a : SiloAct) :
    (s.onTask cfgs i a).stopSet = s.stopSet ∧
      (s.onTask cfgs i a).cancelling = s.cancelling ∧
      (s.onTask cfgs i a).returned = s.returned ∧
      (s.onTask cfgs i a).tasks.length = s.tasks.length := by
  unfold ClientRun.onTask
  split
  · exact ⟨rfl, rfl, rfl, List.length_set⟩
  · exact ⟨rfl, rfl, rfl, rfl⟩

/-- What a step of the client can be: nothing, a step of one task, or one more flag. -/
theorem ClientRun.step_cases (cfgs : List SiloClient) (s : ClientRun) (a : ClientAct) :
    s.step cfgs a = s ∨
      (∃ i b, s.step cfgs a = s.onTask cfgs i b ∧ (b = .cancel → s.cancelling = true)) ∨
      (a = .stop ∧ s.step cfgs a = { s with stopSet := true }) ∨
      (s.stopSet = true ∧ s.step cfgs a = { s with cancelling := true }) ∨
      ((s.cancelling = true ∧ ∀ t ∈ s.tasks, t.ended.isSome) ∧
        s.step cfgs a = { s with returned := true }) := by
  cases a with
  | attempt i A => exact Or.inr (Or.inl ⟨i, .attempt A, rfl, nofun⟩)
  | stop => exact Or.inr (Or.inr (Or.inl ⟨rfl, rfl⟩))
  | wake =>
    by_cases hstop : s.stopSet = true
    · exact Or.inr (Or.inr (Or.inr (Or.inl ⟨hstop, if_pos hstop⟩)))
    · exact Or.inl (if_neg hstop)
  | cancelled i =>
    by_cases hcancelling : s.cancelling = true
    · exact Or.inr (Or.inl ⟨i, .cancel, if_pos hcancelling, fun _ => hcancelling⟩)
    · exact Or.inl (if_neg hcancelling)
  | gather =>
    by_cases hall : s.cancelling = true ∧ ∀ t ∈ s.tasks, t.ended.isSome
    · exact Or.inr (Or.inr (Or.inr (Or.inr ⟨hall, if_pos hall⟩)))
    · exact Or.inl (if_neg hall)

/-- What holds of the client on its way to the end. -/
structure ClientRun.Ending (s : ClientRun) : Prop where
  cancelling : s.cancelling = true → s.stopSet = true
  stopped : ∀ t ∈ s.tasks, t.ended = some .stopped → s.stopSet = true
  cancelled : ∀ t ∈ s.tasks, t.ended = some .cancelled → s.cancelling = true
  returned : s.returned = true → s.cancelling = true ∧ ∀ t ∈ s.tasks, t.ended.isSome

/-- A task goes on, and is not cancelled unless `run` has come to that. -/
theorem ClientRun.Ending.onTask (h : s.Ending) {i : Nat} {a : SiloAct}
    (ha : a = .cancel → s.cancelling = true) : (s.onTask cfgs i a).Ending := by
  obtain ⟨hstop, hcancelling, hreturned, -⟩ := s.onTask_client cfgs i a
  refine ⟨?_, fun t' ht' hended => ?_, fun t' ht' hended => ?_, fun hret => ⟨?_, fun t' ht' => ?_⟩⟩
  · rw [hstop, hcancelling]
    exact h.cancelling
  · rw [hstop]
    obtain hold | ⟨C, t, ht, rfl⟩ := mem_onTask ht'
    · exact h.stopped t' hold hended
    · exact ((SiloTask.step_ends a).1 hended).elim (h.stopped t ht) id
  · rw [hcancelling]
    obtain hold | ⟨C, t, ht, rfl⟩ := mem_onTask ht'
    · exact h.cancelled t' hold hended
    · exact ((SiloTask.step_ends a).2 hended).elim (h.cancelled t ht) ha
  · rw [hcancelling]
    rw [hreturned] at hret
    exact (h.returned hret).1
  · rw [hreturned] at hret
    obtain hold | ⟨C, t, ht, rfl⟩ := mem_onTask ht'
    · exact (h.returned hret).2 t' hold
    · have hsome := (h.returned hret).2 t ht
      show ((s.view t).step C a).ended.isSome
      rw [(SiloTask.step_ended (C := C) (s := s.view t) hsome a).1]
      exact hsome

/-- **Step lemma.** -/
theorem ClientRun.Ending.step (h : s.Ending) (a : ClientAct) : (s.step cfgs a).Ending := by
  obtain heq | ⟨i, b, heq, hcancel⟩ | ⟨-, heq⟩ | ⟨hstop, heq⟩ | ⟨hall, heq⟩ := s.step_cases cfgs a
  · rw [heq]
    exact h
  · rw [heq]
    exact h.onTask hcancel
  · rw [heq]
    exact ⟨fun _ => rfl, fun _ _ _ => rfl, h.cancelled, h.returned⟩
  · rw [heq]
    exact ⟨fun _ => hstop, h.stopped, fun _ _ _ => rfl, fun hret => ⟨rfl, (h.returned hret).2⟩⟩
  · rw [heq]
    exact ⟨h.cancelling, h.stopped, h.cancelled, fun _ => hall⟩

theorem ClientRun.ending_run (as : List ClientAct) :
    (run (ClientRun.step cfgs) (ClientRun.start cfgs) as).Ending := by
  have hstart : (ClientRun.start cfgs).Ending := by
    have hended : ∀ t ∈ (ClientRun.start cfgs).tasks, t.ended = none := by
      intro t ht
      obtain ⟨C, -, rfl⟩ := List.mem_map.mp ht
      rfl
    refine ⟨nofun, fun t ht hstopped => ?_, fun t ht hcancelled => ?_, nofun⟩
    · rw [hended t ht] at hstopped
      cases hstopped
    · rw [hended t ht] at hcancelled
      cases hcancelled
  have hguarded : Guarded (ClientRun.step cfgs) (fun _ _ => True) (ClientRun.start cfgs) as :=
    guarded_of_forall fun _ _ => trivial
  exact run_invariant (fun s a h _ => h.step a) hstart hguarded

/-- Only `stop` sets the event. -/
theorem ClientRun.stopSet_step (s : ClientRun) (a : ClientAct) :
    (s.step cfgs a).stopSet = true ↔ s.stopSet = true ∨ a = .stop := by
  by_cases hstop : a = .stop
  · subst hstop
    exact iff_of_true rfl (Or.inr rfl)
  rw [or_iff_left hstop]
  obtain heq | ⟨i, b, heq, -⟩ | ⟨ha, -⟩ | ⟨-, heq⟩ | ⟨-, heq⟩ := s.step_cases cfgs a
  · rw [heq]
  · rw [heq, (s.onTask_client cfgs i b).1]
  · exact absurd ha hstop
  · rw [heq]
  · rw [heq]

theorem ClientRun.stopSet_run (s : ClientRun) (as : List ClientAct) :
    (run (ClientRun.step cfgs) s as).stopSet = true ↔ s.stopSet = true ∨ .stop ∈ as := by
  induction as generalizing s with
  | nil => simp
  | cons a as ih => rw [run_cons, ih, stopSet_step, List.mem_cons, or_assoc, eq_comm (a := a)]

/-- When `run` has returned, no task does anything any more. -/
theorem ClientRun.step_returned (cfgs : List SiloClient) (h : s.Ending)
    (hreturned : s.returned = true) (a : ClientAct) :
    (s.step cfgs a).tasks = s.tasks ∧ (s.step cfgs a).returned = true := by
  have htask : ∀ i b, (s.onTask cfgs i b).tasks = s.tasks := by
    intro i b
    refine List.ext_getElem? fun j => ?_
    obtain hsame | ⟨rfl, C, t, -, ht, hnew⟩ := s.getElem?_onTask cfgs i j b
    · exact hsame
    · have hended := (h.returned hreturned).2 t (List.mem_of_getElem? ht)
      obtain ⟨hend, hattempts⟩ := SiloTask.step_ended (C := C) (s := s.view t) hended b
      rw [hnew, hend, hattempts, ht]
      rfl
  obtain heq | ⟨i, b, heq, -⟩ | ⟨-, heq⟩ | ⟨-, heq⟩ | ⟨-, heq⟩ := s.step_cases cfgs a
  · rw [heq]
    exact ⟨rfl, hreturned⟩
  · rw [heq]
    exact ⟨htask i b, (s.onTask_client cfgs i b).2.2.1.trans hreturned⟩
  · rw [heq]
    exact ⟨rfl, hreturned⟩
  · rw [heq]
    exact ⟨rfl, hreturned⟩
  · rw [heq]
    exact ⟨rfl, rfl⟩

theorem ClientRun.run_returned (h : s.Ending) (hreturned : s.returned = true)
    (as : List ClientAct) : (run (ClientRun.step cfgs) s as).tasks = s.tasks := by
  induction as generalizing s with
  | nil => rfl
  | cons a as ih =>
    obtain ⟨htasks, hstill⟩ := s.step_returned cfgs h hreturned a
    exact (ih (h.step a) hstill).trans htasks

theorem ClientRun.length_step (cfgs : List SiloClient) (s : ClientRun) (a : ClientAct) :
    (s.step cfgs a).tasks.length = s.tasks.length := by
  obtain heq | ⟨i, b, heq, -⟩ | ⟨-, heq⟩ | ⟨-, heq⟩ | ⟨-, heq⟩ := s.step_cases cfgs a
  · rw [heq]
  · rw [heq]
    exact (s.onTask_client cfgs i b).2.2.2
  · rw [heq]
  · rw [heq]
  · rw [heq]

theorem ClientRun.length_run (cfgs : List SiloClient) (s : ClientRun) (as : List ClientAct) :
    (run (ClientRun.step cfgs) s as).tasks.length = s.tasks.length := by
  induction as generalizing s with
  | nil => rfl
  | cons a as ih => exact (ih (s.step cfgs a)).trans (s.length_step cfgs a)

/-- The cancellation of a task ends it. -/
theorem SiloTask.step_cancel (s : SiloTask) : (s.step C .cancel).ended.isSome := by
  simp only [SiloTask.step]
  split
  · rfl
  · rename_i hne
    exact Option.isSome_iff_ne_none.mpr hne

theorem ClientRun.ended_cancelled (hlength : s.tasks.length = cfgs.length) {k : Nat} {t : TaskState}
    (ht : (s.onTask cfgs k .cancel).tasks[k]? = some t) : t.ended.isSome := by
  unfold ClientRun.onTask at ht
  split at ht
  · rename_i C t' hC ht'
    obtain ⟨hlt, -⟩ := List.getElem?_eq_some_iff.mp ht'
    rw [List.getElem?_set_self hlt] at ht
    cases ht
    exact SiloTask.step_cancel (s.view t')
  · -- every task has its silo
    rename_i hnone
    obtain ⟨hlt, -⟩ := List.getElem?_eq_some_iff.mp ht
    rw [hlength] at hlt
    exact (hnone _ _ (List.getElem?_eq_getElem hlt) ht).elim

/-- The cancellations, up to a task. -/
theorem ClientRun.cancel_upto (hlength : s.tasks.length = cfgs.length)
    (hcancelling : s.cancelling = true) (k : Nat) :
    (run (ClientRun.step cfgs) s ((List.range k).map .cancelled)).cancelling = true ∧
      ∀ j < k, ∀ t,
        (run (ClientRun.step cfgs) s ((List.range k).map .cancelled)).tasks[j]? = some t →
          t.ended.isSome := by
  induction k with
  | zero => exact ⟨hcancelling, fun j hj => absurd hj (Nat.not_lt_zero j)⟩
  | succ k ih =>
    obtain ⟨hstill, hended⟩ := ih
    have hlen := (s.length_run cfgs ((List.range k).map .cancelled)).trans hlength
    rw [List.range_succ, List.map_append, run_append]
    generalize run (ClientRun.step cfgs) s ((List.range k).map .cancelled) = r at *
    have hstep : run (ClientRun.step cfgs) r ([k].map .cancelled) = r.onTask cfgs k .cancel :=
      if_pos hstill
    rw [hstep]
    refine ⟨(r.onTask_client cfgs k _).2.1.trans hstill, fun j hj t ht => ?_⟩
    by_cases hjk : j = k
    · subst hjk
      exact ClientRun.ended_cancelled hlen ht
    · -- the others have been cancelled before
      obtain hsame | ⟨heq, -⟩ := r.getElem?_onTask cfgs k j .cancel
      · rw [hsame] at ht
        exact hended j (by omega) t ht
      · exact absurd heq hjk

/-- What leads to the end after `stop`: `run` wakes up, the tasks are cancelled, and `gather`
returns. -/
def finishActs (n : Nat) : List ClientAct :=
  .wake :: ((List.range n).map .cancelled ++ [.gather])

/-- **The end of a client.** Whatever has happened: `run` has returned only after `stop` and when
every task has ended, and then nothing is attempted any more; it does not return because tasks have
died. No task has ended as stopped or cancelled before `stop`. And after `stop` there is a way for
`run` to return, from wherever the tasks are. -/
theorem client_returns (cfgs : List SiloClient) (as : List ClientAct) :
    let s := run (ClientRun.step cfgs) (ClientRun.start cfgs) as
    (s.returned = true → .stop ∈ as ∧ (∀ t ∈ s.tasks, t.ended.isSome) ∧
      ∀ bs, (run (ClientRun.step cfgs) s bs).tasks = s.tasks) ∧
    (∀ t ∈ s.tasks, t.ended = some .stopped ∨ t.ended = some .cancelled → .stop ∈ as) ∧
    (.stop ∈ as → (run (ClientRun.step cfgs) s (finishActs cfgs.length)).returned = true) := by
  intro s
  have hending : s.Ending := ClientRun.ending_run as
  have hstop : s.stopSet = true ↔ .stop ∈ as := by
    rw [ClientRun.stopSet_run]
    exact or_iff_right Bool.false_ne_true
  refine ⟨fun hreturned => ⟨?_, (hending.returned hreturned).2,
      ClientRun.run_returned hending hreturned⟩,
    fun t ht hended => ?_, fun hmem => ?_⟩
  · exact hstop.mp (hending.cancelling (hending.returned hreturned).1)
  · obtain hended | hended := hended
    · exact hstop.mp (hending.stopped t ht hended)
    · exact hstop.mp (hending.cancelling (hending.cancelled t ht hended))
  · -- `run` wakes up, cancels one task after the other, and then `gather` has them all
    have hwake : s.step cfgs .wake = { s with cancelling := true } := if_pos (hstop.mpr hmem)
    have hlength : s.tasks.length = cfgs.length :=
      (ClientRun.length_run cfgs _ as).trans (List.length_map _)
    have hcancelled := ClientRun.cancel_upto (s := { s with cancelling := true }) hlength rfl
      cfgs.length
    have hlen := ClientRun.length_run cfgs { s with cancelling := true }
      ((List.range cfgs.length).map .cancelled)
    rw [finishActs, run_cons, hwake, run_append]
    generalize run (ClientRun.step cfgs) { s with cancelling := true }
      ((List.range cfgs.length).map .cancelled) = r at *
    have hall : ∀ t ∈ r.tasks, t.ended.isSome := by
      intro t ht
      obtain ⟨j, hj⟩ := List.mem_iff_getElem?.mp ht
      obtain ⟨hlt, -⟩ := List.getElem?_eq_some_iff.mp hj
      exact hcancelled.2 j (by rw [← hlength]; exact hlen ▸ hlt) t hj
    have hgather : r.step cfgs .gather = { r with returned := true } := if_pos ⟨hcancelled.1, hall⟩
    rw [run_cons, hgather]
    rfl

end Returning

end Chiralite
