import Chiralite.Crypto.Handshake
import Chiralite.Framework.Run
import Chiralite.Server.Transfer

/-!
# Connections and the registry of sessions

`silo/registry.py`, and `_handle_connection` and `_authenticate` of `server.py`: every connection
has a handler that authenticates the client, registers a session for its silo, serves it, and takes
the session out of the registry again in `finally`. Any number of handlers run interleaved, and each
may be cut off at any `await`.

What a handler does between two `await`s is one step. The handshake and the session are seen from
outside: a step says how they end, by whatever way. From the end of the handshake to the first
`await` of the session there is no other, so that the registration and the assignment of `session`
are one step; likewise `unregister` in `finally` comes in one step with what ended the session.
`_authenticate` writes to the audit log after the registration, which does not raise.

The registry forgets a session by its silo, not by the session. `session_exclusive` says that this
is the same: a silo has an entry exactly while one handler is between registration and cleanup, and
the entry is the session of that handler.
-/

namespace Chiralite

open Py Run

/-! ### `trust/policy.py` -/

/-- `ClientPolicy`, for its client and silo. -/
structure ClientPolicy where
  allowedOps : List OpType
  uidPolicy : IdPolicy
  gidPolicy : IdPolicy

/-- `SiloPolicy`. -/
abbrev SiloPolicy := Dict (Str × Uuid) ClientPolicy

/-- `SiloPolicy.lookup`, or the text of the `PolicyError`. -/
def SiloPolicy.lookup (reprStr : Str → Str) (policy : SiloPolicy) (cn : Str) (siloId : Uuid) :
    Except Str ClientPolicy :=
  match policy.get? (cn, siloId) with
  | none =>
    .error (lit "client " ++ reprStr cn ++ lit " is not authorised for silo " ++ uuidStr siloId)
  | some client => .ok client

/-! ### `silo/registry.py` -/

/-- A `SiloSession` object. Two sessions with the same fields are still two objects. -/
structure SessionObject where
  id : Nat
  session : SiloSession

/-- `SiloRegistry._sessions`. -/
abbrev SiloRegistry := Dict Uuid SessionObject

/-- `SiloRegistry.register`, or the text of the `RegistryError`. -/
def SiloRegistry.register (registry : SiloRegistry) (obj : SessionObject) :
    Except Str SiloRegistry :=
  match registry.get? obj.session.siloId with
  | some _ =>
    .error (lit "silo " ++ uuidStr obj.session.siloId ++ lit " already has an active session")
  | none => .ok (registry.set obj.session.siloId obj)

/-- `SiloRegistry.unregister`. -/
def SiloRegistry.unregister (registry : SiloRegistry) (siloId : Uuid) : SiloRegistry :=
  registry.erase siloId

/-! ### `server.py` -/

/-- What `_authenticate` knows of the configuration. -/
structure AuthConfig where
  siloPolicy : SiloPolicy
  siloRoots : Dict Uuid Str
  /-- `repr` of a string. -/
  reprStr : Str → Str

/-- How `perform_server_handshake` ends. -/
inductive HandshakeEnd where
  | returned (result : ServerHandshakeResult)
  | handshakeError (text : Str)
  /-- Any other exception, or the task is cancelled. -/
  | raised

/-- What `_authenticate` meets after the handshake: whether the rate limiter, if there is one, lets
the client through, and what `PathJail` makes of a root. -/
structure AuthInputs where
  withinLimit : Bool
  jail : Str → Option PathJail

/-- The audit records of a connection. -/
inductive ConnectionAudit where
  | authFail (clientCn reason : Str)
  | authOk (clientCn : Str) (siloId : Uuid)
  | sessionStart (clientCn : Str) (siloId : Uuid)
  | sessionEnd (clientCn : Str) (siloId : Uuid)

/-- How `_authenticate` ends. -/
inductive AuthEnd where
  | session (obj : SessionObject)
  /-- `None`, with the record of the audit log. -/
  | refused (clientCn reason : Str)
  | raised

/-- `_authenticate` from the end of the handshake on; a new session has the given identity. -/
def authenticate (C : AuthConfig) (registry : SiloRegistry) (id : Nat) (now : AuthInputs) :
    HandshakeEnd → AuthEnd × SiloRegistry
  | .raised => (.raised, registry)
  | .handshakeError text => (.refused (lit "(unknown)") text, registry)
  | .returned result =>
    if now.withinLimit = false then
      (.refused result.clientCn (lit "rate limit exceeded"), registry)
    else
      match C.siloPolicy.lookup C.reprStr result.clientCn result.siloId with
      | .error text => (.refused result.clientCn text, registry)
      | .ok policy =>
        match C.siloRoots.get? result.siloId with
        | none =>
          (.refused result.clientCn (lit "unknown silo " ++ uuidStr result.siloId), registry)
        | some root =>
          match now.jail root with
          | none => (.raised, registry)
          | some jail =>
            let obj : SessionObject := ⟨id, result.siloId, result.clientCn, jail,
              policy.allowedOps, policy.uidPolicy, policy.gidPolicy⟩
            match registry.register obj with
            | .error _ =>
              (.refused result.clientCn
                (lit "silo " ++ uuidStr result.siloId ++ lit " already active"), registry)
            | .ok registry' => (.session obj, registry')

/-- Where a handler stands. -/
inductive Handler where
  | absent
  | authenticating
  | serving (obj : SessionObject)
  | closed

/-- The server's connections. -/
structure Connections where
  registry : SiloRegistry
  handlers : Nat → Handler
  /-- The identity of the next session. -/
  nextId : Nat
  audit : List ConnectionAudit

inductive ConnectionAct where
  /-- `_handle_connection` is called. -/
  | accept (h : Nat)
  /-- The handshake ends, and `_authenticate` goes on to its end. -/
  | authenticate (h : Nat) (now : AuthInputs) (ended : HandshakeEnd)
  /-- The session ends, by an exception or because its task is cancelled. -/
  | disconnect (h : Nat)

/-- The handler that acts. -/
def ConnectionAct.handler : ConnectionAct → Nat
  | .accept h => h
  | .authenticate h _ _ => h
  | .disconnect h => h

namespace Connections

def start : Connections := ⟨Dict.empty, fun _ => .absent, 0, []⟩

/-- One step of `_handle_connection`. -/
def step (C : AuthConfig) (s : Connections) : ConnectionAct → Connections
  | .accept h =>
    match s.handlers h with
    | .absent => { s with handlers := Function.update s.handlers h .authenticating }
    | _ => s
  | .authenticate h now ended =>
    match s.handlers h with
    | .authenticating =>
      match Chiralite.authenticate C s.registry s.nextId now ended with
      | (.session obj, registry) =>
        { registry := registry
          handlers := Function.update s.handlers h (.serving obj)
          nextId := s.nextId + 1
          audit := s.audit ++ [.authOk obj.session.clientCn obj.session.siloId,
            .sessionStart obj.session.clientCn obj.session.siloId] }
      -- without a session `finally` has nothing to do
      | (.refused clientCn reason, registry) =>
        { s with
          registry := registry
          handlers := Function.update s.handlers h .closed
          audit := s.audit ++ [.authFail clientCn reason] }
      | (.raised, registry) =>
        { s with registry := registry, handlers := Function.update s.handlers h .closed }
    | _ => s
  | .disconnect h =>
    match s.handlers h with
    | .serving obj =>
      { s with
        registry := s.registry.unregister obj.session.siloId
        handlers := Function.update s.handlers h .closed
        audit := s.audit ++ [.sessionEnd obj.session.clientCn obj.session.siloId] }
    | _ => s

end Connections

/-! ### What a step does -/

section Steps

variable {C : AuthConfig} {s : Connections}

/-- `register` adds a session for a silo that has none. -/
theorem SiloRegistry.register_ok {registry registry' : SiloRegistry} {obj : SessionObject}
    (h : registry.register obj = .ok registry') :
    registry.get? obj.session.siloId = none ∧ registry' = registry.set obj.session.siloId obj := by
  unfold register at h
  split at h
  · cases h
  · rename_i hnone
    exact ⟨hnone, (Except.ok.inj h).symm⟩

/-- **`_authenticate` registers its session, or leaves the registry alone.** -/
theorem authenticate_cases (C : AuthConfig) (registry : SiloRegistry) (id : Nat)
    (now : AuthInputs) (ended : HandshakeEnd) :
    (∃ obj, obj.id = id ∧ registry.get? obj.session.siloId = none ∧
      authenticate C registry id now ended =
        (.session obj, registry.set obj.session.siloId obj)) ∨
    (∃ clientCn reason,
      authenticate C registry id now ended = (.refused clientCn reason, registry)) ∨
    authenticate C registry id now ended = (.raised, registry) := by
  cases ended with
  | raised => exact Or.inr (Or.inr rfl)
  | handshakeError text => exact Or.inr (Or.inl ⟨_, _, rfl⟩)
  | returned result =>
    simp only [authenticate]
    -- the rate, the policy and the silo may refuse the client, and the jail may not be made
    split
    · exact Or.inr (Or.inl ⟨_, _, rfl⟩)
    split
    · exact Or.inr (Or.inl ⟨_, _, rfl⟩)
    split
    · exact Or.inr (Or.inl ⟨_, _, rfl⟩)
    split
    · exact Or.inr (Or.inr rfl)
    split
    · exact Or.inr (Or.inl ⟨_, _, rfl⟩)
    · rename_i hregister
      obtain ⟨hnone, rfl⟩ := SiloRegistry.register_ok hregister
      exact Or.inl ⟨_, rfl, hnone, rfl⟩

/-- The session of a handler between its registration and its cleanup. -/
def Handler.session? : Handler → Option SessionObject
  | .serving obj => some obj
  | _ => none

def Connections.serves (s : Connections) (h : Nat) : Option SessionObject :=
  (s.handlers h).session?

/-- Who serves what when one handler has moved. -/
theorem serves_update (handlers : Nat → Handler) (h : Nat) (next : Handler) :
    (fun k => (Function.update handlers h next k).session?) =
      Function.update (fun k => (handlers k).session?) h next.session? := by
  funext k
  exact Function.apply_update (fun _ next => Handler.session? next) handlers h next k

/-- **What a step can do**: nothing to the registry and to who serves what; or a handler registers
a session for a silo without one; or a handler that serves a session cleans up. -/
theorem Connections.step_cases (C : AuthConfig) (s : Connections) (a : ConnectionAct) :
    ((s.step C a).registry = s.registry ∧ (s.step C a).serves = s.serves) ∨
    (∃ obj, s.registry.get? obj.session.siloId = none ∧ s.serves a.handler = none ∧
      (s.step C a).registry = s.registry.set obj.session.siloId obj ∧
      (s.step C a).serves = Function.update s.serves a.handler (some obj)) ∨
    ∃ obj, s.serves a.handler = some obj ∧
      (s.step C a).registry = s.registry.erase obj.session.siloId ∧
      (s.step C a).serves = Function.update s.serves a.handler none := by
  -- a handler without a session that goes on without one
  have hidle : ∀ h next, s.serves h = none → next.session? = none →
      (fun k => (Function.update s.handlers h next k).session?) = s.serves := by
    intro h next hnone hnext
    rw [serves_update, hnext]
    show Function.update s.serves h none = s.serves
    rw [← hnone, Function.update_eq_self]
  cases a with
  | accept h =>
    simp only [step, ConnectionAct.handler]
    split
    · rename_i habsent
      have hnone : s.serves h = none := congrArg Handler.session? habsent
      exact Or.inl ⟨rfl, hidle h _ hnone rfl⟩
    · exact Or.inl ⟨rfl, rfl⟩
  | authenticate h now ended =>
    simp only [step, ConnectionAct.handler]
    split
    · rename_i hauth
      have hnone : s.serves h = none := congrArg Handler.session? hauth
      obtain ⟨obj, -, hfree, heq⟩ | ⟨clientCn, reason, heq⟩ | heq :=
        authenticate_cases C s.registry s.nextId now ended
      · rw [heq]
        exact Or.inr (Or.inl ⟨obj, hfree, hnone, rfl, serves_update _ _ _⟩)
      · rw [heq]
        exact Or.inl ⟨rfl, hidle h _ hnone rfl⟩
      · rw [heq]
        exact Or.inl ⟨rfl, hidle h _ hnone rfl⟩
    · exact Or.inl ⟨rfl, rfl⟩
  | disconnect h =>
    simp only [step, ConnectionAct.handler]
    split
    · rename_i obj hserving
      have hsome : s.serves h = some obj := congrArg Handler.session? hserving
      exact Or.inr (Or.inr ⟨obj, hsome, rfl, serves_update _ _ _⟩)
    · exact Or.inl ⟨rfl, rfl⟩

/-! ### Exclusivity -/

/-- **The invariant**: the registry lists the sessions that are served, and a silo has one. -/
structure Connections.Inv (s : Connections) : Prop where
  listed : ∀ h obj, s.serves h = some obj → s.registry.get? obj.session.siloId = some obj
  served : ∀ silo obj, s.registry.get? silo = some obj →
    obj.session.siloId = silo ∧ ∃ h, s.serves h = some obj
  single : ∀ h k obj obj', s.serves h = some obj → s.serves k = some obj' →
    obj.session.siloId = obj'.session.siloId → h = k

/-- A session is registered for a silo without one. -/
theorem Connections.Inv.register {s s' : Connections} (hinv : s.Inv) {h : Nat}
    {obj : SessionObject} (hfree : s.registry.get? obj.session.siloId = none)
    (hnone : s.serves h = none) (hregistry : s'.registry = s.registry.set obj.session.siloId obj)
    (hserves : s'.serves = Function.update s.serves h (some obj)) : s'.Inv := by
  -- no session that was served is of this silo
  have hother : ∀ k obj', s.serves k = some obj' →
      obj'.session.siloId ≠ obj.session.siloId := by
    intro k obj' hk heq
    have hlisted := hinv.listed k obj' hk
    rw [heq, hfree] at hlisted
    cases hlisted
  have hcases : ∀ k obj', s'.serves k = some obj' →
      (k = h ∧ obj' = obj) ∨ (k ≠ h ∧ s.serves k = some obj') := by
    intro k obj' hk
    rw [hserves] at hk
    by_cases hkh : k = h
    · subst hkh
      rw [Function.update_self] at hk
      exact Or.inl ⟨rfl, (Option.some.inj hk).symm⟩
    · rw [Function.update_of_ne hkh] at hk
      exact Or.inr ⟨hkh, hk⟩
  refine ⟨?_, ?_, ?_⟩
  · -- what is served is listed
    intro k obj' hk
    rw [hregistry]
    obtain ⟨-, rfl⟩ | ⟨-, hk⟩ := hcases k obj' hk
    · exact Dict.get?_set_self _ _ _
    · rw [Dict.get?_set_of_ne _ _ (hother k obj' hk)]
      exact hinv.listed k obj' hk
  · -- what is listed is served
    intro silo obj' hentry
    rw [hregistry] at hentry
    by_cases hsilo : silo = obj.session.siloId
    · subst hsilo
      rw [Dict.get?_set_self] at hentry
      cases hentry
      exact ⟨rfl, h, by rw [hserves, Function.update_self]⟩
    · rw [Dict.get?_set_of_ne _ _ hsilo] at hentry
      obtain ⟨hid, k, hk⟩ := hinv.served silo obj' hentry
      have hkh : k ≠ h := by
        rintro rfl
        rw [hnone] at hk
        cases hk
      exact ⟨hid, k, by rw [hserves, Function.update_of_ne hkh, hk]⟩
  · intro k l obj₁ obj₂ hk hl heq
    obtain ⟨rfl, rfl⟩ | ⟨-, hk⟩ := hcases k obj₁ hk
    · obtain ⟨rfl, -⟩ | ⟨-, hl⟩ := hcases l obj₂ hl
      · rfl
      · exact absurd heq.symm (hother l obj₂ hl)
    · obtain ⟨-, rfl⟩ | ⟨-, hl⟩ := hcases l obj₂ hl
      · exact absurd heq (hother k obj₁ hk)
      · exact hinv.single k l obj₁ obj₂ hk hl heq

/-- The handler of a session cleans up. -/
theorem Connections.Inv.unregister {s s' : Connections} (hinv : s.Inv) {h : Nat}
    {obj : SessionObject} (hsome : s.serves h = some obj)
    (hregistry : s'.registry = s.registry.erase obj.session.siloId)
    (hserves : s'.serves = Function.update s.serves h none) : s'.Inv := by
  have hcases : ∀ k obj', s'.serves k = some obj' → k ≠ h ∧ s.serves k = some obj' := by
    intro k obj' hk
    rw [hserves] at hk
    by_cases hkh : k = h
    · subst hkh
      rw [Function.update_self] at hk
      cases hk
    · rw [Function.update_of_ne hkh] at hk
      exact ⟨hkh, hk⟩
  refine ⟨?_, ?_, ?_⟩
  · intro k obj' hk
    obtain ⟨hkh, hk⟩ := hcases k obj' hk
    -- the entry that is taken out is the handler's own, since no other serves this silo
    have hne : obj'.session.siloId ≠ obj.session.siloId :=
      fun heq => hkh (hinv.single k h obj' obj hk hsome heq)
    rw [hregistry, Dict.get?_erase_of_ne _ hne]
    exact hinv.listed k obj' hk
  · intro silo obj' hentry
    rw [hregistry] at hentry
    have hne : silo ≠ obj.session.siloId := by
      rintro rfl
      rw [Dict.get?_erase_self] at hentry
      cases hentry
    rw [Dict.get?_erase_of_ne _ hne] at hentry
    obtain ⟨hid, k, hk⟩ := hinv.served silo obj' hentry
    have hkh : k ≠ h := by
      rintro rfl
      rw [hsome] at hk
      cases hk
      exact hne hid.symm
    exact ⟨hid, k, by rw [hserves, Function.update_of_ne hkh, hk]⟩
  · intro k l obj₁ obj₂ hk hl heq
    exact hinv.single k l obj₁ obj₂ (hcases k obj₁ hk).2 (hcases l obj₂ hl).2 heq

/-- **Step lemma.** -/
theorem Connections.Inv.step (hinv : s.Inv) (C : AuthConfig) (a : ConnectionAct) :
    (s.step C a).Inv := by
  obtain ⟨hregistry, hserves⟩ | ⟨obj, hfree, hnone, hregistry, hserves⟩ |
    ⟨obj, hsome, hregistry, hserves⟩ := s.step_cases C a
  · refine ⟨?_, ?_, ?_⟩
    · rw [hserves, hregistry]
      exact hinv.listed
    · rw [hserves, hregistry]
      exact hinv.served
    · rw [hserves]
      exact hinv.single
  · exact hinv.register hfree hnone hregistry hserves
  · exact hinv.unregister hsome hregistry hserves

/-- **Run lemma.** -/
theorem Connections.inv_run (C : AuthConfig) (as : List ConnectionAct) :
    (run (Connections.step C) start as).Inv := by
  have hstep : ∀ (s : Connections) a, s.Inv → True → (s.step C a).Inv := fun s a h _ => h.step C a
  refine run_invariant hstep ⟨?_, ?_, ?_⟩ (guarded_of_forall fun _ _ => trivial)
  · intro h obj hserves
    cases hserves
  · intro silo obj hentry
    cases hentry
  · intro h k obj obj' hserves
    cases hserves

/-- **Session exclusivity.** At every point of every interleaving: a silo has an entry exactly when
one handler, and no second, is between its registration and its cleanup for that silo; the entry is
that handler's own session; and a handler that does not come to serve a session, refused or failed,
leaves the registry as it is. -/
theorem session_exclusive (C : AuthConfig) (as : List ConnectionAct) :
    (∀ silo, (∃ obj, (run (Connections.step C) .start as).registry.get? silo = some obj) ↔
      ∃! h, ∃ obj, (run (Connections.step C) .start as).handlers h = .serving obj ∧
        obj.session.siloId = silo) ∧
    (∀ h obj, (run (Connections.step C) .start as).handlers h = .serving obj →
      (run (Connections.step C) .start as).registry.get? obj.session.siloId = some obj) ∧
    ∀ a, (∀ obj, (run (Connections.step C) .start as).handlers a.handler ≠ .serving obj) →
      (∀ obj, ((run (Connections.step C) .start as).step C a).handlers a.handler ≠ .serving obj) →
      ((run (Connections.step C) .start as).step C a).registry =
        (run (Connections.step C) .start as).registry := by
  have hinv := Connections.inv_run C as
  generalize run (Connections.step C) .start as = s at hinv
  -- the invariant speaks of the session that a handler serves
  have hserving : ∀ (s : Connections) h obj, s.handlers h = .serving obj ↔
      s.serves h = some obj := by
    intro s h obj
    unfold Connections.serves
    cases s.handlers h with
    | serving obj' => simp [Handler.session?]
    | absent => simp [Handler.session?]
    | authenticating => simp [Handler.session?]
    | closed => simp [Handler.session?]
  simp only [hserving, ne_eq]
  refine ⟨?_, hinv.listed, ?_⟩
  · intro silo
    constructor
    · rintro ⟨obj, hentry⟩
      obtain ⟨hid, h, hserves⟩ := hinv.served silo obj hentry
      refine ⟨h, ⟨obj, hserves, hid⟩, ?_⟩
      rintro k ⟨obj', hk, hid'⟩
      exact hinv.single k h obj' obj hk hserves (hid'.trans hid.symm)
    · rintro ⟨h, ⟨obj, hserves, rfl⟩, -⟩
      exact ⟨obj, hinv.listed h obj hserves⟩
  · intro a hbefore hafter
    -- a step that changes the registry begins or ends the serving of a session
    obtain ⟨hregistry, -⟩ | ⟨obj, -, -, -, hserves⟩ | ⟨obj, hsome, -⟩ := s.step_cases C a
    · exact hregistry
    · exact absurd (by rw [hserves, Function.update_self]) (hafter obj)
    · exact absurd hsome (hbefore obj)

end Steps

end Chiralite
