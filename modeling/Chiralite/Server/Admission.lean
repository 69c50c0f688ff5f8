import Chiralite.Security.RateLimit
import Chiralite.Server.Connections

/-!
# Admission

`_authenticate` of `server.py` with its rate limiter, over any number of interleaved handlers, and
what the audit log says of the sessions.

An `Admission` is the server's connections beside its limiter. A handshake that returns asks the
limiter for the client's CN at the time it reads, and goes on with the answer; what the handlers do
is otherwise the step of `Connections`, and forgetting the limiter leaves a run of it
(`Admission.erases`).

Two results on whole runs. The limiter bounds the sessions and not only its own answers: every
session start in the log goes with an accepted call of `require` (`Admits`), so that no window of
time has more starts of a client than the limit (`admissions_bounded`). And the log is enough to
know who is connected: its starts and ends nest for each silo, and whom they leave logged in is whom
a handler serves (`sessions_logged`).
-/

namespace Chiralite

open Py Run

section Model

variable {T : Type} [AddCommGroup T] [LinearOrder T]

/-- The server's connections, with its rate limiter. -/
structure Admission (T : Type) [AddCommGroup T] [LinearOrder T] where
  connections : Connections
  rateLimiter : Option (RateLimiter T)

/-- What a handler does; `_authenticate` reads the time after the handshake. -/
inductive AdmissionAct (T : Type) where
  | accept (h : Nat)
  | authenticate (h : Nat) (now : T) (jail : Str → Option PathJail) (ended : HandshakeEnd)
  | disconnect (h : Nat)

/-- The time that is read. -/
def AdmissionAct.now? : AdmissionAct T → Option T
  | .authenticate _ now _ _ => some now
  | _ => none

/-- Whether the limiter lets the client through. Without one everybody is. -/
def withinLimit (rateLimiter : Option (RateLimiter T)) (clientCn : Str) (now : T) :
    Bool × Option (RateLimiter T) :=
  match rateLimiter with
  | none => (true, none)
  | some r =>
    match r.require clientCn now with
    | (.ok _, r) => (true, some r)
    | (.error _, r) => (false, some r)

namespace Admission

def start (rateLimiter : Option (RateLimiter T)) : Admission T := ⟨.start, rateLimiter⟩

/-- One step of `_handle_connection`. Only a handshake that returned comes to the limiter. -/
def step (C : AuthConfig) (s : Admission T) : AdmissionAct T → Admission T
  | .accept h => { s with connections := s.connections.step C (.accept h) }
  | .authenticate h now jail ended =>
    match s.connections.handlers h, ended with
    | .authenticating, .returned result =>
      let (within, rateLimiter) := withinLimit s.rateLimiter result.clientCn now
      { connections := s.connections.step C (.authenticate h ⟨within, jail⟩ (.returned result))
        rateLimiter := rateLimiter }
    | _, ended =>
      { s with connections := s.connections.step C (.authenticate h ⟨true, jail⟩ ended) }
  | .disconnect h => { s with connections := s.connections.step C (.disconnect h) }

/-- **Forgetting the limiter** leaves a run of the connections. -/
theorem erases (C : AuthConfig) (as : List (AdmissionAct T)) (s : Admission T) :
    ∃ bs, (run (step C) s as).connections = run (Connections.step C) s.connections bs := by
  induction as generalizing s with
  | nil => exact ⟨[], rfl⟩
  | cons a as ih =>
    have hstep : ∃ b, (s.step C a).connections = s.connections.step C b := by
      cases a with
      | accept h => exact ⟨.accept h, rfl⟩
      | authenticate h now jail ended =>
        simp only [step]
        split
        · exact ⟨.authenticate h ⟨_, jail⟩ (.returned _), rfl⟩
        · exact ⟨.authenticate h ⟨true, jail⟩ _, rfl⟩
      | disconnect h => exact ⟨.disconnect h, rfl⟩
    obtain ⟨b, hb⟩ := hstep
    obtain ⟨bs, hbs⟩ := ih (s.step C a)
    refine ⟨b :: bs, ?_⟩
    rw [run_cons, run_cons, hbs, hb]

end Admission

end Model

/-! ### What a step writes to the log -/

section Log

/-- The policy has an entry for the client in the silo, and the silo a root. -/
def Authorised (C : AuthConfig) (clientCn : Str) (siloId : Uuid) : Prop :=
  (∃ policy, C.siloPolicy.get? (clientCn, siloId) = some policy) ∧
    ∃ root, C.siloRoots.get? siloId = some root

variable {C : AuthConfig} {s : Connections}

/-- A session is for the client and the silo of the handshake, within the limit and authorised. -/
theorem authenticate_session {registry registry' : SiloRegistry} {id : Nat} {now : AuthInputs}
    {ended : HandshakeEnd} {obj : SessionObject}
    (h : authenticate C registry id now ended = (.session obj, registry')) :
    ∃ result, ended = .returned result ∧ now.withinLimit = true ∧
      obj.session.clientCn = result.clientCn ∧
      Authorised C obj.session.clientCn obj.session.siloId := by
  cases ended with
  | raised => cases h
  | handshakeError text => cases h
  | returned result =>
    simp only [authenticate] at h
    split at h
    · cases h
    rename_i hwithin
    split at h
    · cases h
    rename_i policy hlookup
    split at h
    · cases h
    rename_i root hroot
    split at h
    · cases h
    split at h
    · cases h
    · cases h
      refine ⟨result, rfl, by simpa using hwithin, rfl, ⟨policy, ?_⟩, root, hroot⟩
      -- the policy that was looked up is the entry
      unfold SiloPolicy.lookup at hlookup
      split at hlookup
      · cases hlookup
      · rename_i hget
        rw [hget, Except.ok.inj hlookup]

/-- **What a step writes**: refusals, with the registry left alone; or the start of a session that
it registers; or the end of one that it takes out. -/
theorem Connections.log_cases (C : AuthConfig) (s : Connections) (a : ConnectionAct) :
    (∃ fails, (∀ e ∈ fails, ∃ clientCn reason, e = .authFail clientCn reason) ∧
      (s.step C a).audit = s.audit ++ fails ∧ (s.step C a).registry = s.registry) ∨
    (∃ obj h now result, a = .authenticate h now (.returned result) ∧
      s.handlers h = .authenticating ∧ now.withinLimit = true ∧
      obj.session.clientCn = result.clientCn ∧
      Authorised C obj.session.clientCn obj.session.siloId ∧
      s.registry.get? obj.session.siloId = none ∧
      (s.step C a).audit = s.audit ++ [.authOk obj.session.clientCn obj.session.siloId,
        .sessionStart obj.session.clientCn obj.session.siloId] ∧
      (s.step C a).registry = s.registry.set obj.session.siloId obj) ∨
    ∃ obj h, a = .disconnect h ∧ s.serves h = some obj ∧
      (s.step C a).audit = s.audit ++ [.sessionEnd obj.session.clientCn obj.session.siloId] ∧
      (s.step C a).registry = s.registry.erase obj.session.siloId := by
  have hnone : ∀ s' : Connections, s'.audit = s.audit → s'.registry = s.registry →
      ∃ fails : List ConnectionAudit,
        (∀ e ∈ fails, ∃ clientCn reason, e = .authFail clientCn reason) ∧
          s'.audit = s.audit ++ fails ∧ s'.registry = s.registry := by
    intro s' haudit hregistry
    exact ⟨[], nofun, by rw [haudit, List.append_nil], hregistry⟩
  cases a with
  | accept h =>
    -- a connection is new, or its number is taken: nothing is written
    refine Or.inl (hnone _ ?_ ?_)
    · simp only [step]
      split <;> rfl
    · simp only [step]
      split <;> rfl
  | authenticate h now ended =>
    simp only [step]
    split
    · rename_i hhandler
      obtain ⟨obj, -, hfree, heq⟩ | ⟨clientCn, reason, heq⟩ | heq :=
        authenticate_cases C s.registry s.nextId now ended
      · -- a session, which only a handshake that returned within the limit comes to
        obtain ⟨result, rfl, hwithin, hcn, hauthorised⟩ := authenticate_session heq
        rw [heq]
        exact Or.inr (Or.inl ⟨obj, h, now, result, rfl, hhandler, hwithin, hcn, hauthorised,
          hfree, rfl, rfl⟩)
      · -- refused, with one record
        rw [heq]
        refine Or.inl ⟨[.authFail clientCn reason], ?_, rfl, rfl⟩
        intro e he
        exact ⟨clientCn, reason, List.mem_singleton.mp he⟩
      · -- an exception that leaves no record
        rw [heq]
        exact Or.inl (hnone _ rfl rfl)
    · exact Or.inl (hnone _ rfl rfl)
  | disconnect h =>
    simp only [step]
    split
    · -- only a handler that serves a session ends one
      rename_i obj hserving
      exact Or.inr (Or.inr ⟨obj, h, rfl, congrArg Handler.session? hserving, rfl, rfl⟩)
    · exact Or.inl (hnone _ rfl rfl)

/-! ### The log tells who is connected -/

/-- Who is logged in to each silo. -/
abbrev LoggedIn := Uuid → Option Str

/-- What a reader of the log makes of a record. -/
def LoggedIn.after (active : LoggedIn) : ConnectionAudit → LoggedIn
  | .sessionStart clientCn siloId => Function.update active siloId (some clientCn)
  | .sessionEnd _ siloId => Function.update active siloId none
  | _ => active

/-- A session starts where there is none, for a client that may have it, and it is the client that
is logged in whose session ends. -/
def LoggedIn.Fits (C : AuthConfig) (active : LoggedIn) : ConnectionAudit → Prop
  | .sessionStart clientCn siloId => active siloId = none ∧ Authorised C clientCn siloId
  | .sessionEnd clientCn siloId => active siloId = some clientCn
  | _ => True

/-- Nobody is logged in when the server starts. -/
def nobody : LoggedIn := fun _ => none

/-- Refusals change nothing. -/
theorem LoggedIn.after_fails {active : LoggedIn} {fails : List ConnectionAudit}
    (h : ∀ e ∈ fails, ∃ clientCn reason, e = .authFail clientCn reason) :
    run LoggedIn.after active fails = active ∧
      Guarded LoggedIn.after (LoggedIn.Fits C) active fails := by
  induction fails with
  | nil => exact ⟨rfl, trivial⟩
  | cons e fails ih =>
    obtain ⟨clientCn, reason, rfl⟩ := h _ List.mem_cons_self
    obtain ⟨hrun, hguarded⟩ := ih fun e he => h e (List.mem_cons_of_mem _ he)
    exact ⟨hrun, trivial, hguarded⟩

/-- **The invariant**: the log is in order, and it says of each silo whose session the registry
has. -/
structure Connections.Logged (C : AuthConfig) (s : Connections) : Prop where
  inv : s.Inv
  fits : Guarded LoggedIn.after (LoggedIn.Fits C) nobody s.audit
  tells : ∀ silo, run LoggedIn.after nobody s.audit silo =
    (s.registry.get? silo).map fun obj => obj.session.clientCn

/-- **Step lemma.** -/
theorem Connections.Logged.step (h : s.Logged C) (a : ConnectionAct) : (s.step C a).Logged C := by
  refine ⟨h.inv.step C a, ?_, ?_⟩
  · obtain ⟨fails, hfails, haudit, -⟩ |
      ⟨obj, k, now, result, -, -, -, -, hauthorised, hfree, haudit, -⟩ |
      ⟨obj, k, -, hserves, haudit, -⟩ := s.log_cases C a
    · rw [haudit, guarded_append]
      exact ⟨h.fits, (LoggedIn.after_fails hfails).2⟩
    · -- a start: the registry has no session of the silo, and so the log knows of none
      rw [haudit, guarded_append]
      refine ⟨h.fits, trivial, ⟨?_, hauthorised⟩, trivial⟩
      show run LoggedIn.after nobody s.audit obj.session.siloId = none
      rw [h.tells, hfree]
      rfl
    · -- an end: the handler's session is the one that the registry has
      rw [haudit, guarded_append]
      refine ⟨h.fits, ?_, trivial⟩
      show run LoggedIn.after nobody s.audit obj.session.siloId = some obj.session.clientCn
      rw [h.tells, h.inv.listed k obj hserves]
      rfl
  · intro silo
    obtain ⟨fails, hfails, haudit, hregistry⟩ |
      ⟨obj, k, now, result, -, -, -, -, -, -, haudit, hregistry⟩ |
      ⟨obj, k, -, -, haudit, hregistry⟩ := s.log_cases C a
    · rw [haudit, hregistry, run_append, (LoggedIn.after_fails (C := C) hfails).1]
      exact h.tells silo
    · rw [haudit, hregistry, run_append]
      show Function.update (run LoggedIn.after nobody s.audit) obj.session.siloId
        (some obj.session.clientCn) silo = _
      by_cases hsilo : silo = obj.session.siloId
      · rw [hsilo, Function.update_self, Dict.get?_set_self]
        rfl
      · rw [Function.update_of_ne hsilo, Dict.get?_set_of_ne _ _ hsilo]
        exact h.tells silo
    · rw [haudit, hregistry, run_append]
      show Function.update (run LoggedIn.after nobody s.audit) obj.session.siloId none silo = _
      by_cases hsilo : silo = obj.session.siloId
      · rw [hsilo, Function.update_self, Dict.get?_erase_self]
        rfl
      · rw [Function.update_of_ne hsilo, Dict.get?_erase_of_ne _ hsilo]
        exact h.tells silo

theorem Connections.handlers_of_serves {h : Nat} {obj : SessionObject}
    (hserves : s.serves h = some obj) : s.handlers h = .serving obj := by
  unfold Connections.serves at hserves
  cases hhandler : s.handlers h with
  | serving obj' =>
    rw [hhandler] at hserves
    cases hserves
    rfl
  | absent => simp [hhandler, Handler.session?] at hserves
  | authenticating => simp [hhandler, Handler.session?] at hserves
  | closed => simp [hhandler, Handler.session?] at hserves

/-- **Run lemma.** -/
theorem Connections.logged_run (C : AuthConfig) (as : List ConnectionAct) :
    (run (Connections.step C) .start as).Logged C := by
  have hstep : ∀ (s : Connections) a, s.Logged C → True → (s.step C a).Logged C :=
    fun s a h _ => h.step a
  refine run_invariant hstep ?_ (guarded_of_forall fun _ _ => trivial)
  exact ⟨Connections.inv_run C [], trivial, fun silo => rfl⟩

/-- **The log tells who is connected.** In every interleaving of connections, with a rate limiter or
without, cut off wherever: in the audit log a session starts only for a client that the policy and
the configured roots let into the silo, and only when the log has the silo free; a session ends only
when it is the one that the log has there; and at every point whom the log has logged in to a silo
is exactly whom a handler serves there. -/
theorem sessions_logged {T : Type} [AddCommGroup T] [LinearOrder T] (C : AuthConfig)
    (rateLimiter : Option (RateLimiter T)) (as : List (AdmissionAct T)) :
    let s := (run (Admission.step C) (.start rateLimiter) as).connections
    Guarded LoggedIn.after (LoggedIn.Fits C) nobody s.audit ∧
      ∀ silo clientCn, run LoggedIn.after nobody s.audit silo = some clientCn ↔
        ∃ h obj, s.handlers h = .serving obj ∧ obj.session.siloId = silo ∧
          obj.session.clientCn = clientCn := by
  intro s
  obtain ⟨bs, hbs⟩ := Admission.erases C as (.start rateLimiter)
  have hlogged : s.Logged C := by
    show (run (Admission.step C) (.start rateLimiter) as).connections.Logged C
    rw [hbs]
    exact Connections.logged_run C bs
  refine ⟨hlogged.fits, ?_⟩
  intro silo clientCn
  rw [hlogged.tells silo]
  constructor
  · intro htells
    obtain ⟨obj, hentry, hcn⟩ := Option.map_eq_some_iff.mp htells
    obtain ⟨hsilo, h, hserves⟩ := hlogged.inv.served silo obj hentry
    exact ⟨h, obj, Connections.handlers_of_serves hserves, hsilo, hcn⟩
  · rintro ⟨h, obj, hhandler, rfl, rfl⟩
    rw [hlogged.inv.listed h obj (congrArg Handler.session? hhandler)]
    rfl

end Log

/-! ### The limiter bounds the sessions -/

section Limit

variable {T : Type} [AddCommGroup T] [LinearOrder T]

deriving instance DecidableEq for ConnectionAudit

/-- A session of the client starts. -/
def ConnectionAudit.starts (clientCn : Str) : ConnectionAudit → Bool
  | .sessionStart cn _ => cn = clientCn
  | _ => false

/-- From a state with a limiter to a later one: the calls of the limiter that were made, all of them
`require` and at times that were read, and the records that were written, with no more starts of a
client than accepted calls for it. -/
structure Admits (r : RateLimiter T) (s s' : Admission T) (times : List T)
    (calls : List (RateCall T)) (records : List ConnectionAudit) : Prop where
  limiter : s'.rateLimiter = some (r.after calls)
  times_sublist : (calls.map RateCall.now).Sublist times
  only_require : ∀ c ∈ calls, c.op = .require
  audit : s'.connections.audit = s.connections.audit ++ records
  starts_le : ∀ clientCn,
    records.countP (ConnectionAudit.starts clientCn) ≤ (accepted clientCn (r.trace calls)).length

theorem RateLimiter.trace_append (r : RateLimiter T) (calls calls' : List (RateCall T)) :
    r.trace (calls ++ calls') = r.trace calls ++ (r.after calls).trace calls' := by
  induction calls generalizing r with
  | nil => rfl
  | cons c calls ih =>
    rw [List.cons_append, trace, ih, trace, List.cons_append]
    rfl

theorem RateLimiter.mem_of_mem_trace {r : RateLimiter T} {calls : List (RateCall T)}
    {e : RateEntry T} (h : e ∈ r.trace calls) : e.call ∈ calls := by
  induction calls generalizing r with
  | nil => cases h
  | cons c calls ih =>
    rw [trace] at h
    obtain rfl | h := List.mem_cons.mp h
    · exact List.mem_cons_self
    · exact List.mem_cons_of_mem _ (ih h)

theorem RateLimiter.after_append (r : RateLimiter T) (calls calls' : List (RateCall T)) :
    r.after (calls ++ calls') = (r.after calls).after calls' := run_append calls calls'

omit [AddCommGroup T] [LinearOrder T] in
theorem accepted_append (key : Str) (l l' : List (RateEntry T)) :
    accepted key (l ++ l') = accepted key l ++ accepted key l' := by
  unfold accepted
  rw [List.filter_append, List.map_append]

/-- One stretch after another. -/
theorem Admits.append {r : RateLimiter T} {s s₁ s₂ : Admission T} {times times' : List T}
    {calls calls' : List (RateCall T)} {records records' : List ConnectionAudit}
    (h : Admits r s s₁ times calls records)
    (h' : Admits (r.after calls) s₁ s₂ times' calls' records') :
    Admits r s s₂ (times ++ times') (calls ++ calls') (records ++ records') := by
  refine ⟨?_, ?_, ?_, ?_, ?_⟩
  · rw [h'.limiter, r.after_append]
  · rw [List.map_append]
    exact h.times_sublist.append h'.times_sublist
  · intro c hc
    exact (List.mem_append.mp hc).elim (h.only_require c) (h'.only_require c)
  · rw [h'.audit, h.audit, List.append_assoc]
  · intro clientCn
    rw [List.countP_append, r.trace_append, accepted_append, List.length_append]
    exact Nat.add_le_add (h.starts_le clientCn) (h'.starts_le clientCn)

/-- A step of the connections that starts no session: no handshake returned, or the limiter refused
the client. -/
theorem Connections.log_of_no_start {C : AuthConfig} {s : Connections} {a : ConnectionAct}
    (h : ∀ k now result, a = .authenticate k now (.returned result) →
      s.handlers k = .authenticating → now.withinLimit = false) :
    ∃ records, (s.step C a).audit = s.audit ++ records ∧
      ∀ clientCn, records.countP (ConnectionAudit.starts clientCn) = 0 := by
  obtain ⟨fails, hfails, haudit, -⟩ | ⟨obj, k, now, result, rfl, hhandler, hwithin, -⟩ |
    ⟨obj, k, -, -, haudit, -⟩ := s.log_cases C a
  · refine ⟨fails, haudit, ?_⟩
    intro clientCn
    refine List.countP_eq_zero.mpr ?_
    intro e he
    obtain ⟨cn, reason, rfl⟩ := hfails e he
    exact Bool.false_ne_true
  · rw [h k now result rfl hhandler] at hwithin
    cases hwithin
  · exact ⟨_, haudit, fun clientCn => rfl⟩

/-- Such a step, when it does not come to the limiter. -/
theorem admits_idle {C : AuthConfig} {r : RateLimiter T} {s : Admission T}
    (hr : s.rateLimiter = some r) {a : ConnectionAct}
    (h : ∀ k now result, a = .authenticate k now (.returned result) →
      s.connections.handlers k ≠ .authenticating) (times : List T) :
    ∃ calls records,
      Admits r s { s with connections := s.connections.step C a } times calls records := by
  obtain ⟨records, haudit, hstarts⟩ := Connections.log_of_no_start (C := C) (s := s.connections)
    (a := a) fun k now result ha hhandler => absurd hhandler (h k now result ha)
  refine ⟨[], records, hr, List.nil_sublist _, nofun, haudit, ?_⟩
  intro clientCn
  rw [hstarts]
  exact Nat.zero_le _

/-- A handshake that returned: it comes to the limiter, and starts at most one session, of the
client that the limiter let through. -/
theorem admits_require {C : AuthConfig} {r : RateLimiter T} {s : Admission T}
    (hr : s.rateLimiter = some r) {h : Nat} {now : T} {jail : Str → Option PathJail}
    {result : ServerHandshakeResult} {within : Bool} {rateLimiter : Option (RateLimiter T)}
    (hwithin : withinLimit s.rateLimiter result.clientCn now = (within, rateLimiter)) :
    ∃ records, Admits r s
      ⟨s.connections.step C (.authenticate h ⟨within, jail⟩ (.returned result)), rateLimiter⟩
      [now] [⟨.require, result.clientCn, now⟩] records := by
  have hsingle : ∀ c ∈ [(⟨.require, result.clientCn, now⟩ : RateCall T)], c.op = .require := by
    intro c hc
    obtain rfl := List.mem_singleton.mp hc
    rfl
  simp only [withinLimit, hr] at hwithin
  split at hwithin
  · -- let through: the call is accepted, and one start of this client is allowed
    rename_i r' hrequire
    cases hwithin
    have hstep : r.step ⟨.require, result.clientCn, now⟩ = (.none, r') := by
      simp only [RateLimiter.step, hrequire]
    have htrace : ∀ clientCn, (accepted clientCn
        (r.trace [⟨.require, result.clientCn, now⟩])).length =
          if result.clientCn = clientCn then 1 else 0 := by
      intro clientCn
      simp only [RateLimiter.trace, hstep, accepted]
      by_cases hcn : result.clientCn = clientCn
      · simp [RateEntry.accepts, hcn]
      · simp [RateEntry.accepts, hcn]
    obtain ⟨fails, hfails, haudit, -⟩ | ⟨obj, k, now', result', heq, -, -, hcn, -, -, haudit, -⟩ |
      ⟨obj, k, heq, -⟩ :=
        s.connections.log_cases C (.authenticate h ⟨true, jail⟩ (.returned result))
    · -- refused after all, by the authorisation or the registry: no start is logged
      refine ⟨fails, ?_, List.Sublist.refl _, hsingle, haudit, ?_⟩
      · show some r' = some (r.step ⟨.require, result.clientCn, now⟩).2
        rw [hstep]
      · intro clientCn
        rw [List.countP_eq_zero.mpr]
        · exact Nat.zero_le _
        · intro e he
          obtain ⟨cn, reason, rfl⟩ := hfails e he
          simp [ConnectionAudit.starts]
    · -- a session starts, and it is of the client whose call was accepted
      cases heq
      refine ⟨_, ?_, List.Sublist.refl _, hsingle, haudit, ?_⟩
      · show some r' = some (r.step ⟨.require, result.clientCn, now⟩).2
        rw [hstep]
      · intro clientCn
        rw [htrace, ← hcn]
        by_cases hclient : obj.session.clientCn = clientCn
        · simp [ConnectionAudit.starts, hclient]
        · simp [ConnectionAudit.starts, hclient]
    · cases heq
  · -- over the limit: the step logs no start, whatever the limiter does to itself
    rename_i e r' hrequire
    cases hwithin
    have hstep : (r.step ⟨.require, result.clientCn, now⟩).2 = r' := by
      simp only [RateLimiter.step, hrequire]
    obtain ⟨records, haudit, hstarts⟩ := Connections.log_of_no_start (C := C) (s := s.connections)
      (a := .authenticate h ⟨false, jail⟩ (.returned result)) (by
        rintro k now' result' ⟨⟩ -
        rfl)
    refine ⟨records, ?_, List.Sublist.refl _, hsingle, haudit, ?_⟩
    · show some r' = some (r.step ⟨.require, result.clientCn, now⟩).2
      rw [hstep]
    · intro clientCn
      rw [hstarts]
      exact Nat.zero_le _

/-- **Step lemma.** -/
theorem admits_step (C : AuthConfig) {r : RateLimiter T} {s : Admission T}
    (hr : s.rateLimiter = some r) (a : AdmissionAct T) :
    ∃ calls records, Admits r s (s.step C a) a.now?.toList calls records := by
  cases a with
  | accept h =>
    refine admits_idle hr ?_ _
    intro k now result heq
    cases heq
  | authenticate h now jail ended =>
    simp only [Admission.step]
    split
    · obtain ⟨records, hadmits⟩ := admits_require hr rfl
      exact ⟨_, records, hadmits⟩
    · -- the handler does not authenticate, or its handshake did not return
      rename_i hother
      refine admits_idle hr ?_ _
      rintro k now' result ⟨⟩ hhandler
      exact hother result hhandler rfl
  | disconnect h =>
    refine admits_idle hr ?_ _
    intro k now result heq
    cases heq

/-- **Run lemma.** -/
theorem admits_run (C : AuthConfig) (as : List (AdmissionAct T)) {r : RateLimiter T}
    {s : Admission T} (hr : s.rateLimiter = some r) :
    ∃ calls records, Admits r s (run (Admission.step C) s as) (as.filterMap AdmissionAct.now?)
      calls records := by
  induction as generalizing r s with
  | nil =>
    exact ⟨[], [], hr, List.Sublist.refl _, nofun, (List.append_nil _).symm, fun _ => Nat.le_refl _⟩
  | cons a as ih =>
    obtain ⟨calls, records, hstep⟩ := admits_step C hr a
    obtain ⟨calls', records', hrun⟩ := ih hstep.limiter
    have htimes : (a :: as).filterMap AdmissionAct.now? =
        a.now?.toList ++ as.filterMap AdmissionAct.now? := by
      cases hnow : a.now? with
      | none => rw [List.filterMap_cons_none hnow]; rfl
      | some now => rw [List.filterMap_cons_some hnow]; rfl
    rw [htimes]
    exact ⟨_, _, hstep.append hrun⟩

variable [IsOrderedAddMonoid T]

/-- **The limiter bounds the sessions.** In every interleaving of connections on a server with a
rate limiter, the times being read in their order: of the records that are written while the times
that are read lie in a window as long as the limiter's, no more than its limit start a session of
one client. -/
theorem admissions_bounded (C : AuthConfig) (limit : Int) (windowS : T) (hlimit : 1 ≤ limit)
    (hwindow : 0 < windowS) (before during : List (AdmissionAct T))
    (hsorted : ((before ++ during).filterMap AdmissionAct.now?).Pairwise (· ≤ ·)) (x : T)
    (hduring : ∀ t ∈ during.filterMap AdmissionAct.now?, x ≤ t ∧ t < x + windowS) :
    let s := run (Admission.step C) (.start (some (.fresh limit windowS hlimit hwindow))) before
    ∃ records,
      (run (Admission.step C) s during).connections.audit = s.connections.audit ++ records ∧
        ∀ clientCn, records.countP (ConnectionAudit.starts clientCn) ≤ limit := by
  intro s
  let r := RateLimiter.fresh limit windowS hlimit hwindow
  obtain ⟨calls, _, hbefore⟩ := admits_run C before (r := r) (s := .start (some r)) rfl
  obtain ⟨calls', records, hrun⟩ := admits_run C during hbefore.limiter
  refine ⟨records, hrun.audit, ?_⟩
  intro clientCn
  have htimes : ((calls ++ calls').map RateCall.now).Pairwise (· ≤ ·) := by
    rw [List.filterMap_append] at hsorted
    rw [List.map_append]
    exact hsorted.sublist (hbefore.times_sublist.append hrun.times_sublist)
  -- what is accepted meanwhile lies in the window
  have hin : ∀ t ∈ accepted clientCn ((r.after calls).trace calls'), x ≤ t ∧ t < x + windowS := by
    intro t ht
    obtain ⟨e, he, rfl⟩ := List.mem_map.mp ht
    have hcall := RateLimiter.mem_of_mem_trace (List.mem_filter.mp he).1
    exact hduring _ (hrun.times_sublist.subset (List.mem_map_of_mem hcall))
  have htrace : r.trace (calls ++ calls') =
      r.trace calls ++ (r.after calls).trace calls' ++ [] := by
    rw [r.trace_append, List.append_nil]
  have hresets : ∀ e ∈ (r.after calls).trace calls', e.resets clientCn = false := by
    intro e he
    simp [RateEntry.resets, hrun.only_require _ (RateLimiter.mem_of_mem_trace he)]
  have hle := countP_accepted_le (r := r) rfl htimes htrace hresets
    (p := fun t => x ≤ t ∧ t < x + windowS) (by
      intro a b ha hb _
      calc b - windowS < x := sub_lt_iff_lt_add.mpr (of_decide_eq_true hb).2
        _ ≤ a := (of_decide_eq_true ha).1)
  have hcount : (accepted clientCn ((r.after calls).trace calls')).countP
      (fun t => x ≤ t ∧ t < x + windowS) =
        (accepted clientCn ((r.after calls).trace calls')).length :=
    List.countP_eq_length.mpr fun t ht => decide_eq_true (hin t ht)
  rw [hcount] at hle
  exact (Int.ofNat_le.mpr (hrun.starts_le clientCn)).trans hle

namespace Sample

/-- `bob` may have the one silo. -/
def authConfig : AuthConfig where
  siloPolicy := Dict.empty.set (lit "bob", 7)
    ⟨[], ⟨Dict.empty, lit "nobody", []⟩, ⟨Dict.empty, lit "nogroup", []⟩⟩
  siloRoots := Dict.empty.set 7 (lit "/srv")
  reprStr := id

/-- A connection of `bob` whose handshake returns at a time. -/
def connects (h : Nat) (now : ℤ) : List (AdmissionAct ℤ) :=
  [.accept h, .authenticate h now (fun _ => some ⟨[]⟩)
    (.returned ⟨⟨[], [], 0, 0⟩, [], lit "bob", 7⟩)]

/-- With one session in ten, the second connection within the window is refused although the first
is closed again; the stretch has the one start that the limit allows. -/
theorem second_connection_refused :
    let s := run (Admission.step authConfig)
      (.start (some (.fresh 1 10 (by decide) (by decide))))
      (connects 0 0 ++ [.disconnect 0] ++ connects 1 5)
    s.connections.audit = [.authOk (lit "bob") 7, .sessionStart (lit "bob") 7,
      .sessionEnd (lit "bob") 7, .authFail (lit "bob") (lit "rate limit exceeded")] ∧
      ∃ records, s.connections.audit = [] ++ records ∧
        ∀ clientCn, records.countP (ConnectionAudit.starts clientCn) ≤ (1 : Int) :=
  ⟨by decide, admissions_bounded authConfig 1 10 (by decide) (by decide) []
    (connects 0 0 ++ [.disconnect 0] ++ connects 1 5) (by decide) 0 (by decide)⟩

end Sample

end Limit

end Chiralite
