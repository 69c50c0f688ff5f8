import Mathlib.Data.List.Basic

/-!
# Computations with state, observable events and exceptions

A computation reads and changes a state, emits events, and ends in a value or an exception. What
it did before an exception stays done: the state and the events of a computation that raises are
part of its outcome, as they are in an imperative language.

`Runs c s evs v s'` says that `c`, started in `s`, emitted `evs` and ended in `s'` with the value
or exception `v`. One inversion lemma for each way of building a computation takes a run apart
(`Runs.bind_inv`, `Runs.attempt_inv`, …), so that a proof about a program follows the program's
text; `Runs.bind` puts runs together. A `Frame` bounds what a computation may do, and the rules of
`Frame.Allows` prove such a bound along the program without looking at its runs; a `Conduct` does
the same for a relation between what was done and what was emitted.
-/

namespace Effect

/-- How a computation ended. -/
structure Outcome (σ ω ε α : Type) where
  value : Except ε α
  events : List ω
  state : σ

/-- A computation over states `σ` that emits events `ω` and may raise `ε`. -/
def Eff (σ ω ε α : Type) := σ → Outcome σ ω ε α

variable {σ τ ω υ ε δ α β : Type}

namespace Eff

/-- The value, with nothing done. -/
def ret (a : α) : Eff σ ω ε α := fun s => ⟨.ok a, [], s⟩

/-- One computation after another. -/
def andThen (c : Eff σ ω ε α) (f : α → Eff σ ω ε β) : Eff σ ω ε β := fun s =>
  match c s with
  | ⟨.error e, evs, s'⟩ => ⟨.error e, evs, s'⟩
  | ⟨.ok a, evs, s'⟩ => ⟨(f a s').value, evs ++ (f a s').events, (f a s').state⟩

instance : Monad (Eff σ ω ε) where
  pure := ret
  bind := andThen

/-- `raise`. -/
def raise (e : ε) : Eff σ ω ε α := fun s => ⟨.error e, [], s⟩

/-- The body of a `try`: an exception becomes a value for the `except` clauses to look at. -/
def attempt (c : Eff σ ω ε α) : Eff σ ω ε (Except ε α) := fun s =>
  ⟨.ok (c s).value, (c s).events, (c s).state⟩

/-- An event is emitted. -/
def emit (o : ω) : Eff σ ω ε Unit := fun s => ⟨.ok (), [o], s⟩

/-- The state, looked at. -/
def look : Eff σ ω ε σ := fun s => ⟨.ok s, [], s⟩

/-- The state, changed. -/
def change (g : σ → σ) : Eff σ ω ε Unit := fun s => ⟨.ok (), [], g s⟩

/-- A computation on a part of the state, with its events and exceptions as some among others. -/
def within (get : τ → σ) (put : σ → τ → τ) (event : ω → υ) (exn : ε → δ) (c : Eff σ ω ε α) :
    Eff τ υ δ α := fun t =>
  ⟨(c (get t)).value.mapError exn, (c (get t)).events.map event, put (c (get t)).state t⟩

end Eff

open Eff

/-- The computation `c`, started in `s`, emits `evs` and ends in `s'` with `v`. -/
def Runs (c : Eff σ ω ε α) (s : σ) (evs : List ω) (v : Except ε α) (s' : σ) : Prop :=
  c s = ⟨v, evs, s'⟩

variable {c : Eff σ ω ε α} {f : α → Eff σ ω ε β} {s s' : σ} {evs : List ω}

theorem runs_self (c : Eff σ ω ε α) (s : σ) :
    Runs c s (c s).events (c s).value (c s).state := rfl

/-! ### Taking a run apart -/

theorem Runs.pure_inv {a : α} {v : Except ε α} (h : Runs (pure a : Eff σ ω ε α) s evs v s') :
    v = .ok a ∧ evs = [] ∧ s' = s := by
  cases h
  exact ⟨rfl, rfl, rfl⟩

theorem Runs.raise_inv {e : ε} {v : Except ε α} (h : Runs (raise e : Eff σ ω ε α) s evs v s') :
    v = .error e ∧ evs = [] ∧ s' = s := by
  cases h
  exact ⟨rfl, rfl, rfl⟩

/-- **A sequence** either raised in its first part, or went on after it. -/
theorem Runs.bind_inv {v : Except ε β} (h : Runs (c >>= f) s evs v s') :
    (∃ e, Runs c s evs (.error e) s' ∧ v = .error e) ∨
      ∃ a s₁ evs₁ evs₂, Runs c s evs₁ (.ok a) s₁ ∧ Runs (f a) s₁ evs₂ v s' ∧
        evs = evs₁ ++ evs₂ := by
  have hrun : andThen c f s = ⟨v, evs, s'⟩ := h
  unfold andThen at hrun
  cases hc : c s with
  | mk value events state =>
    rw [hc] at hrun
    cases value with
    | error e =>
      cases hrun
      exact Or.inl ⟨e, hc, rfl⟩
    | ok a =>
      refine Or.inr ⟨a, state, events, (f a state).events, hc, ?_⟩
      cases hrun
      exact ⟨rfl, rfl⟩

/-- A sequence that did not raise did not raise in either part. -/
theorem Runs.bind_ok_inv {b : β} (h : Runs (c >>= f) s evs (.ok b) s') :
    ∃ a s₁ evs₁ evs₂, Runs c s evs₁ (.ok a) s₁ ∧ Runs (f a) s₁ evs₂ (.ok b) s' ∧
      evs = evs₁ ++ evs₂ := by
  rcases h.bind_inv with ⟨e, -, hv⟩ | hboth
  · cases hv
  · exact hboth

theorem Runs.attempt_inv {v : Except ε (Except ε α)} (h : Runs (attempt c) s evs v s') :
    ∃ r, Runs c s evs r s' ∧ v = .ok r := by
  cases h
  exact ⟨_, rfl, rfl⟩

/-- A `try` is always gone through. -/
theorem Runs.bind_attempt_inv {f : Except ε α → Eff σ ω ε β} {v : Except ε β}
    (h : Runs (attempt c >>= f) s evs v s') :
    ∃ r s₁ evs₁ evs₂, Runs c s evs₁ r s₁ ∧ Runs (f r) s₁ evs₂ v s' ∧ evs = evs₁ ++ evs₂ := by
  rcases h.bind_inv with ⟨e, hc, -⟩ | ⟨r, s₁, evs₁, evs₂, hc, hf, heq⟩
  · cases hc
  · obtain ⟨r', hr, hv⟩ := hc.attempt_inv
    cases hv
    exact ⟨r, s₁, evs₁, evs₂, hr, hf, heq⟩

theorem Runs.within_inv {get : τ → σ} {put : σ → τ → τ} {event : ω → υ} {exn : ε → δ} {t t' : τ}
    {evs : List υ} {v : Except δ α} (h : Runs (within get put event exn c) t evs v t') :
    ∃ evs₀ v₀ s₀, Runs c (get t) evs₀ v₀ s₀ ∧ evs = evs₀.map event ∧ v = v₀.mapError exn ∧
      t' = put s₀ t := by
  cases h
  exact ⟨_, _, _, rfl, rfl, rfl, rfl⟩

/-- An event, and then the rest. -/
theorem Runs.bind_emit_inv {o : ω} {f : Unit → Eff σ ω ε β} {v : Except ε β}
    (h : Runs (emit o >>= f) s evs v s') :
    ∃ evs₂, Runs (f ()) s evs₂ v s' ∧ evs = o :: evs₂ := by
  rcases h.bind_inv with ⟨e, hc, -⟩ | ⟨a, s₁, evs₁, evs₂, hc, hf, heq⟩
  · cases hc
  · cases hc
    exact ⟨evs₂, hf, heq⟩

/-- A look at the state, and then the rest. -/
theorem Runs.bind_look_inv {f : σ → Eff σ ω ε β} {v : Except ε β}
    (h : Runs (look >>= f) s evs v s') : Runs (f s) s evs v s' := by
  rcases h.bind_inv with ⟨e, hc, -⟩ | ⟨a, s₁, evs₁, evs₂, hc, hf, heq⟩
  · cases hc
  · cases hc
    rw [List.nil_append] at heq
    subst heq
    exact hf

/-- A change of state, and then the rest. -/
theorem Runs.bind_change_inv {g : σ → σ} {f : Unit → Eff σ ω ε β} {v : Except ε β}
    (h : Runs (change g >>= f) s evs v s') : Runs (f ()) (g s) evs v s' := by
  rcases h.bind_inv with ⟨e, hc, -⟩ | ⟨a, s₁, evs₁, evs₂, hc, hf, heq⟩
  · cases hc
  · cases hc
    rw [List.nil_append] at heq
    subst heq
    exact hf

/-! ### Putting runs together -/

theorem Runs.bind {a : α} {s₁ : σ} {evs₁ evs₂ : List ω} {v : Except ε β}
    (hc : Runs c s evs₁ (.ok a) s₁) (hf : Runs (f a) s₁ evs₂ v s') :
    Runs (c >>= f) s (evs₁ ++ evs₂) v s' := by
  show andThen c f s = _
  unfold andThen
  rw [show c s = ⟨.ok a, evs₁, s₁⟩ from hc]
  dsimp only
  rw [show f a s₁ = ⟨v, evs₂, s'⟩ from hf]

/-- A first part that raises is all there is. -/
theorem Runs.bind_error {e : ε} (hc : Runs c s evs (.error e) s') :
    Runs (c >>= f) s evs (.error e) s' := by
  show andThen c f s = _
  unfold andThen
  rw [show c s = ⟨.error e, evs, s'⟩ from hc]

theorem Runs.look_bind {f : σ → Eff σ ω ε β} {v : Except ε β} (h : Runs (f s) s evs v s') :
    Runs (look >>= f) s evs v s' :=
  by
  rw [← List.nil_append evs]
  exact Runs.bind rfl h

theorem Runs.change_bind {g : σ → σ} {f : Unit → Eff σ ω ε β} {v : Except ε β}
    (h : Runs (f ()) (g s) evs v s') : Runs (change g >>= f) s evs v s' :=
  by
  rw [← List.nil_append evs]
  exact Runs.bind rfl h

theorem Runs.emit_bind {o : ω} {f : Unit → Eff σ ω ε β} {v : Except ε β}
    (h : Runs (f ()) s evs v s') : Runs (emit o >>= f) s (o :: evs) v s' :=
  by
  rw [← List.singleton_append]
  exact Runs.bind rfl h

theorem Runs.attempt_bind {f : Except ε α → Eff σ ω ε β} {r : Except ε α} {s₁ : σ}
    {evs₁ evs₂ : List ω} {v : Except ε β} (hc : Runs c s evs₁ r s₁)
    (hf : Runs (f r) s₁ evs₂ v s') : Runs (Eff.attempt c >>= f) s (evs₁ ++ evs₂) v s' := by
  refine Runs.bind ?_ hf
  show Outcome.mk _ _ _ = _
  rw [show c s = ⟨r, evs₁, s₁⟩ from hc]

/-- The events of a sequence whose first part returns. -/
theorem Runs.events_bind {a : α} {s₁ : σ} (h : Runs c s evs (.ok a) s₁) :
    ((c >>= f) s).events = evs ++ (f a s₁).events :=
  congrArg Outcome.events (h.bind (runs_self (f a) s₁))

/-- The events of a sequence whose first part raises. -/
theorem Runs.events_bind_error {e : ε} (h : Runs c s evs (.error e) s') :
    ((c >>= f) s).events = evs :=
  congrArg Outcome.events (h.bind_error (f := f))

/-! ### Frames -/

/-- **What a computation may do at most**: how it may change the state, which events it may emit
and which exceptions it may raise. -/
structure Frame (σ ω ε : Type) where
  change : σ → σ → Prop
  refl : ∀ s, change s s
  trans : ∀ s₁ s₂ s₃, change s₁ s₂ → change s₂ s₃ → change s₁ s₃
  event : ω → Prop
  exception : ε → Prop

/-- Every run of the computation stays within the frame. -/
def Frame.Allows (F : Frame σ ω ε) (c : Eff σ ω ε α) : Prop :=
  ∀ s evs v s', Runs c s evs v s' →
    F.change s s' ∧ (∀ o ∈ evs, F.event o) ∧ ∀ e, v = .error e → F.exception e

namespace Frame

variable {F : Frame σ ω ε}

theorem allows_pure (a : α) : F.Allows (pure a : Eff σ ω ε α) := by
  intro s evs v s' h
  obtain ⟨rfl, rfl, rfl⟩ := h.pure_inv
  exact ⟨F.refl s', by simp, by simp⟩

theorem allows_raise {e : ε} (he : F.exception e) : F.Allows (raise e : Eff σ ω ε α) := by
  intro s evs v s' h
  obtain ⟨rfl, rfl, rfl⟩ := h.raise_inv
  refine ⟨F.refl s', by simp, ?_⟩
  rintro e' ⟨⟩
  exact he

/-- A look at the state is always allowed. -/
theorem Allows.look {f : σ → Eff σ ω ε β} (hf : ∀ s, F.Allows (f s)) :
    F.Allows (Eff.look >>= f) := by
  intro s evs v s' h
  exact hf s s evs v s' h.bind_look_inv

theorem Allows.bind (hc : F.Allows c) (hf : ∀ a, F.Allows (f a)) : F.Allows (c >>= f) := by
  intro s evs v s' h
  rcases h.bind_inv with ⟨e, hrun, rfl⟩ | ⟨a, s₁, evs₁, evs₂, hrun, hrest, rfl⟩
  · obtain ⟨hchange, hevs, hexc⟩ := hc _ _ _ _ hrun
    refine ⟨hchange, hevs, ?_⟩
    rintro e' ⟨⟩
    exact hexc e rfl
  · obtain ⟨hchange, hevs, -⟩ := hc _ _ _ _ hrun
    obtain ⟨hchange', hevs', hexc⟩ := hf a _ _ _ _ hrest
    refine ⟨F.trans s s₁ s' hchange hchange', ?_, hexc⟩
    intro o ho
    rcases List.mem_append.mp ho with ho | ho
    · exact hevs o ho
    · exact hevs' o ho

/-- A computation within a frame is within every wider one. -/
theorem Allows.mono {G : Frame σ ω ε} (h : F.Allows c)
    (hchange : ∀ s s', F.change s s' → G.change s s') (hevent : ∀ o, F.event o → G.event o)
    (hexc : ∀ e, F.exception e → G.exception e) : G.Allows c := by
  intro s evs v s' hrun
  obtain ⟨hc, ho, he⟩ := h s evs v s' hrun
  exact ⟨hchange s s' hc, fun o hmem => hevent o (ho o hmem), fun e hv => hexc e (he e hv)⟩

/-- In a `try`, the `except` clauses may count on an exception of the frame. -/
theorem Allows.bind_attempt {f : Except ε α → Eff σ ω ε β} (hc : F.Allows c)
    (hf : ∀ r, (∀ e, r = .error e → F.exception e) → F.Allows (f r)) :
    F.Allows (attempt c >>= f) := by
  intro s evs v s' h
  obtain ⟨r, s₁, evs₁, evs₂, hrun, hrest, rfl⟩ := h.bind_attempt_inv
  obtain ⟨hchange, hevs, hexc⟩ := hc _ _ _ _ hrun
  obtain ⟨hchange', hevs', hexc'⟩ := hf r hexc _ _ _ _ hrest
  refine ⟨F.trans s s₁ s' hchange hchange', ?_, hexc'⟩
  intro o ho
  rcases List.mem_append.mp ho with ho | ho
  · exact hevs o ho
  · exact hevs' o ho

end Frame

/-! ### Conducts -/

/-- **How a computation goes about**: a relation between the state at the start, the events and the
state at the end that sequences keep. A frame looks at states and events apart; a conduct ties the
events to what they did. -/
structure Conduct (σ ω : Type) where
  rel : σ → List ω → σ → Prop
  refl : ∀ s, rel s [] s
  trans : ∀ s₁ s₂ s₃ evs evs', rel s₁ evs s₂ → rel s₂ evs' s₃ → rel s₁ (evs ++ evs') s₃

/-- Every run of the computation goes about that way. -/
def Conduct.Allows (C : Conduct σ ω) (c : Eff σ ω ε α) : Prop :=
  ∀ s evs v s', Runs c s evs v s' → C.rel s evs s'

namespace Conduct

variable {C : Conduct σ ω}

theorem allows_pure (a : α) : C.Allows (pure a : Eff σ ω ε α) := by
  intro s evs v s' h
  obtain ⟨-, rfl, rfl⟩ := h.pure_inv
  exact C.refl s'

theorem allows_raise (e : ε) : C.Allows (raise e : Eff σ ω ε α) := by
  intro s evs v s' h
  obtain ⟨-, rfl, rfl⟩ := h.raise_inv
  exact C.refl s'

theorem Allows.look {f : σ → Eff σ ω ε β} (hf : ∀ s, C.Allows (f s)) :
    C.Allows (Eff.look >>= f) := by
  intro s evs v s' h
  exact hf s s evs v s' h.bind_look_inv

theorem Allows.bind (hc : C.Allows c) (hf : ∀ a, C.Allows (f a)) : C.Allows (c >>= f) := by
  intro s evs v s' h
  rcases h.bind_inv with ⟨e, hrun, -⟩ | ⟨a, s₁, evs₁, evs₂, hrun, hrest, rfl⟩
  · exact hc _ _ _ _ hrun
  · exact C.trans s s₁ s' evs₁ evs₂ (hc _ _ _ _ hrun) (hf a _ _ _ _ hrest)

theorem Allows.bind_attempt {f : Except ε α → Eff σ ω ε β} (hc : C.Allows c)
    (hf : ∀ r, C.Allows (f r)) : C.Allows (attempt c >>= f) := by
  intro s evs v s' h
  obtain ⟨r, s₁, evs₁, evs₂, hrun, hrest, rfl⟩ := h.bind_attempt_inv
  exact C.trans s s₁ s' evs₁ evs₂ (hc _ _ _ _ hrun) (hf r _ _ _ _ hrest)

end Conduct

end Effect
