import Chiralite.Server.Session
import Chiralite.Sync.Engine

/-!
# Operations a session may perform

The policy of a client names the operations it may perform, and its session carries them
(`SiloSession.allowed_ops`, `SiloSession.permits`). The handlers of `_serve_session` do not ask:
two sessions that differ in their operations alone are served alike (`serveTurn_withOps`).

A turn is `Permitted` when the operation of its message is allowed, or the regular files stay what
they were. Turns on messages without an operation always are (`permitted_of_no_op`). So a run whose
messages ask for allowed operations only is permitted from end to end, and a set of operations is
enforced on every run exactly when there is nothing to enforce (`permitted_iff`): for each of
write, delete and rename, a session without it has a turn that changes a file all the same.
-/

namespace Chiralite

open Py Posix Effect

/-- The operation that a message asks for. -/
def AnyMsg.op? : AnyMsg → Option OpType
  | .transferBegin _ => some .write
  | .fileDelete _ => some .delete
  | .fileRename _ => some .rename
  | _ => none

/-- **A permitted turn**: the operation of its message is allowed, or no file has changed. -/
def Turn.Permitted (S : Service) (turn : Turn) : Prop :=
  (∃ op, turn.taken.op? = some op ∧ S.session.permits op = true) ∨
    SameFiles turn.before turn.after

/-- The service of a session with other operations. -/
def Service.withOps (S : Service) (ops : List OpType) : Service :=
  { S with session := { S.session with allowedOps := ops } }

section Turns

variable {S : Service}

/-- **The operations are not asked for.** -/
theorem serveTurn_withOps (S : Service) (ops : List OpType) :
    serveTurn (S.withOps ops) = serveTurn S := rfl

theorem Turn.Ran.withOps {turn : Turn} (h : turn.Ran S) (ops : List OpType) :
    turn.Ran (S.withOps ops) := by
  unfold Turn.Ran
  rw [serveTurn_withOps]
  exact h

/-- A turn is the receipt of its message and a run of the handler. -/
theorem Turn.Ran.dispatched {turn : Turn} (h : turn.Ran S) :
    ∃ w₁ v evs, SameTree turn.before w₁ ∧ turn.events = .received turn.taken :: evs ∧
      turn.taken.Valid ∧ Runs (dispatch S turn.taken) w₁ evs v turn.after := by
  obtain ⟨⟨v, hrun⟩, rest, hevents⟩ := h
  rcases hrun.bind_inv with ⟨e, hrecv, -⟩ | ⟨m, w₁, evs₁, evs₂, hrecv, hrest, heq⟩
  · obtain ⟨-, ⟨text, -, hnil⟩ | ⟨m, hv, -⟩⟩ := recv_inv hrecv
    · rw [hnil] at hevents
      cases hevents
    · cases hv
  obtain ⟨htree, ⟨text, hv, -⟩ | ⟨m', hv, hvalid, rfl⟩⟩ := recv_inv hrecv
  · cases hv
  cases hv
  -- the message that was taken is the first event
  rw [heq] at hevents
  cases hevents
  exact ⟨w₁, v, evs₂, htree, heq, hvalid, hrest⟩

/-- A message without an operation is ignored. -/
theorem permitted_of_no_op {turn : Turn} (h : turn.Ran S) (hop : turn.taken.op? = none) :
    SameFiles turn.before turn.after := by
  obtain ⟨w₁, v, evs, htree, -, -, hrun⟩ := h.dispatched
  unfold dispatch at hrun
  split at hrun
  · rename_i heq
    rw [heq] at hop
    cases hop
  · rename_i heq
    rw [heq] at hop
    cases hop
  · rename_i heq
    rw [heq] at hop
    cases hop
  · obtain ⟨-, -, hw⟩ := hrun.pure_inv
    rw [← hw] at htree
    exact htree.sameFiles

/-- **A run that asks for allowed operations only** is permitted. -/
theorem permitted_of_allowed {w : World} {turns : List Turn} (h : TurnsFrom S w turns)
    (hops : ∀ turn ∈ turns, ∀ op, turn.taken.op? = some op → S.session.permits op = true) :
    ∀ turn ∈ turns, turn.Permitted S := by
  induction h with
  | nil w => simp
  | @cons turn turns hran hrest ih =>
    intro t ht
    rcases List.mem_cons.mp ht with rfl | ht
    · cases hop : t.taken.op? with
      | none => exact Or.inr (permitted_of_no_op hran hop)
      | some op => exact Or.inl ⟨op, hop, hops t List.mem_cons_self op hop⟩
    · exact ih (fun t' ht' => hops t' (List.mem_cons_of_mem _ ht')) t ht

/-- A message on the connection gives a turn. -/
theorem exists_turn (S : Service) {m : AnyMsg} (valid : m.Valid) (w : World)
    (rest : List Incoming) :
    ∃ turn : Turn, turn.Ran S ∧ turn.taken = m ∧
      turn.before = { w with inbox := .message m valid :: rest } ∧
      turn.after = (dispatch S m { w with inbox := rest }).state := by
  have hrun : Runs (serveTurn S) { w with inbox := .message m valid :: rest } _ _ _ :=
    (recv_runs rfl).bind (runs_self (dispatch S m) { w with inbox := rest })
  exact ⟨⟨m, _, _, _⟩, ⟨⟨_, hrun⟩, _, rfl⟩, rfl, rfl, rfl⟩

/-- A turn that changes a file and whose operation is not allowed ends all hope. -/
theorem permits_of_permitted {ops : List OpType} {op : OpType} {turn : Turn} (hran : turn.Ran S)
    (hop : turn.taken.op? = some op) (hchanged : ¬ SameFiles turn.before turn.after)
    (h : ∀ (S : Service) (w : World) (turns : List Turn), S.session.allowedOps = ops →
      TurnsFrom S w turns → ∀ turn ∈ turns, turn.Permitted S) : op ∈ ops := by
  have hpermitted := h (S.withOps ops) turn.before [turn] rfl (.cons (hran.withOps ops) (.nil _))
    turn List.mem_cons_self
  rcases hpermitted with ⟨op', hop', hmem⟩ | hsame
  · rw [hop] at hop'
    cases hop'
    exact of_decide_eq_true hmem
  · exact absurd hsame hchanged

end Turns

/-! ### One turn for each operation

The server of the sample, whose silo has the file `notes`. -/

namespace Sample

/-- The file is removed. -/
theorem exists_delete_turn : ∃ turn : Turn, turn.Ran service ∧
    turn.taken.op? = some .delete ∧ ¬ SameFiles turn.before turn.after := by
  obtain ⟨turn, hran, htaken, hbefore, hafter⟩ :=
    exists_turn service (m := .fileDelete ⟨lit "notes", 0⟩) ⟨by decide, by decide⟩ world []
  refine ⟨turn, hran, by rw [htaken]; rfl, fun hsame => ?_⟩
  have hfile := hsame [lit "srv", lit "notes"]
  rw [hbefore, hafter] at hfile
  cases hfile

/-- The file is moved away. -/
theorem exists_rename_turn : ∃ turn : Turn, turn.Ran service ∧
    turn.taken.op? = some .rename ∧ ¬ SameFiles turn.before turn.after := by
  obtain ⟨turn, hran, htaken, hbefore, hafter⟩ :=
    exists_turn service (m := .fileRename ⟨lit "notes", lit "old", 0⟩)
      ⟨by decide, by decide, by decide⟩ world []
  refine ⟨turn, hran, by rw [htaken]; rfl, fun hsame => ?_⟩
  have hfile := hsame [lit "srv", lit "notes"]
  rw [hbefore, hafter] at hfile
  cases hfile

/-- The file is replaced. -/
theorem exists_write_turn : ∃ turn : Turn, turn.Ran service ∧
    turn.taken.op? = some .write ∧ ¬ SameFiles turn.before turn.after := by
  have hwire : (entry.asDelta).Valid := entry_valid.asDelta rfl
  have hbegin := (wireBegin_beginMessage 1 hwire delta).valid
  obtain ⟨turn, hran, htaken, hbefore, hafter⟩ :=
    exists_turn service (m := .transferBegin (beginMessage 1 entry.asDelta delta)) hbegin world
      (deliver (restMessages 1 entry.asDelta delta) (valid_of_mem_restMessages hwire delta))
  refine ⟨turn, hran, by rw [htaken]; rfl, fun hsame => ?_⟩
  -- the transfer goes through
  obtain ⟨evs, w', f, hrun, -, hfile, hcontent⟩ := handleTransfer_of_messages
    (receives.of_preparePayload preparePayload_eq) hwire
    (reconstructed_of_preparePayload xdelta_lawful baseShared preparePayload_eq) 1
    (w := ⟨tree, deliver _ (valid_of_mem_restMessages hwire delta), 0⟩) rfl rfl
  have hstate : turn.after = w' := by
    rw [hafter]
    exact congrArg Outcome.state hrun
  have hbase : turn.before.fs.file [lit "srv", lit "notes"] =
      some ⟨base, 0o644, 1000, 100, 0⟩ := by
    rw [hbefore]
    rfl
  have heq := hsame [lit "srv", lit "notes"]
  rw [hstate, hfile, hbase] at heq
  cases heq
  revert hcontent
  decide

end Sample

/-- **Permissions are enforced only where there is nothing to enforce.** In every run whose
messages ask for allowed operations only, every turn is permitted; and every run of every session
with the operations `ops` is permitted if and only if `ops` has write, delete and rename. -/
theorem permitted_iff (ops : List OpType) :
    (∀ (S : Service) (w : World) (turns : List Turn), S.session.allowedOps = ops →
      TurnsFrom S w turns →
      (∀ turn ∈ turns, ∀ op, turn.taken.op? = some op → op ∈ ops) →
      ∀ turn ∈ turns, turn.Permitted S) ∧
    ((∀ (S : Service) (w : World) (turns : List Turn), S.session.allowedOps = ops →
      TurnsFrom S w turns → ∀ turn ∈ turns, turn.Permitted S) ↔
      OpType.write ∈ ops ∧ OpType.delete ∈ ops ∧ OpType.rename ∈ ops) := by
  have hrun : ∀ (S : Service) (w : World) (turns : List Turn), S.session.allowedOps = ops →
      TurnsFrom S w turns → (∀ turn ∈ turns, ∀ op, turn.taken.op? = some op → op ∈ ops) →
      ∀ turn ∈ turns, turn.Permitted S := by
    intro S w turns hops hturns hall
    refine permitted_of_allowed hturns fun turn hturn op hop => ?_
    have hmem : op ∈ S.session.allowedOps := hops ▸ hall turn hturn op hop
    exact decide_eq_true hmem
  refine ⟨hrun, fun h => ?_, fun ⟨hwrite, hdelete, hrename⟩ => ?_⟩
  · obtain ⟨_, hranWrite, hopWrite, hwrote⟩ := Sample.exists_write_turn
    obtain ⟨_, hranDelete, hopDelete, hdeleted⟩ := Sample.exists_delete_turn
    obtain ⟨_, hranRename, hopRename, hrenamed⟩ := Sample.exists_rename_turn
    exact ⟨permits_of_permitted hranWrite hopWrite hwrote h,
      permits_of_permitted hranDelete hopDelete hdeleted h,
      permits_of_permitted hranRename hopRename hrenamed h⟩
  · intro S w turns hops hturns
    refine hrun S w turns hops hturns fun turn _ op hop => ?_
    -- no message asks for a read
    unfold AnyMsg.op? at hop
    split at hop
    · cases hop
      exact hwrite
    · cases hop
      exact hdelete
    · cases hop
      exact hrename
    · cases hop

/-- A session that may only read has its client's `FILE_DELETE` carried out. -/
theorem delete_without_permission : ∃ (S : Service) (turn : Turn),
    S.session.allowedOps = [.read] ∧ TurnsFrom S turn.before [turn] ∧
    turn.taken = .fileDelete ⟨lit "notes", 0⟩ ∧
    turn.before.fs.file [lit "srv", lit "notes"] ≠ none ∧
    turn.after.fs.file [lit "srv", lit "notes"] = none ∧ ¬ turn.Permitted S := by
  obtain ⟨turn, hran, htaken, hbefore, hafter⟩ := exists_turn (Sample.service.withOps [.read])
    (m := .fileDelete ⟨lit "notes", 0⟩) ⟨by decide, by decide⟩ Sample.world []
  have hthere : turn.before.fs.file [lit "srv", lit "notes"] ≠ none := by
    rw [hbefore]
    exact nofun
  have hgone : turn.after.fs.file [lit "srv", lit "notes"] = none := by
    rw [hafter]
    rfl
  refine ⟨_, turn, rfl, .cons hran (.nil _), htaken, hthere, hgone, ?_⟩
  rintro (⟨op, hop, hpermits⟩ | hsame)
  · rw [htaken] at hop
    cases hop
    revert hpermits
    decide
  · exact hthere ((hsame _).symm.trans hgone)

end Chiralite
