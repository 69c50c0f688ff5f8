import Chiralite.Framework.Run
import Chiralite.Server.Permissions
import Chiralite.Sync.Reconcile

/-!
# The server's index and the silo's files

The server keeps one `SiloIndex` for each silo, shared by its connections (`_indexes`).
`_serve_session` takes the index of its silo, or makes an empty one, answers the sync request from
it and hands it to `_handle_transfer`, which looks bases up in it. Nothing writes to it: the
handlers change the file system, and the index is left to whoever owns it.

So the index of a silo is the same after any sessions as before (`run_takeIndex`), and so is the
state that the next session is sent. An index that agrees with the files goes on agreeing as long
as the hashes under the paths are what they were (`Agrees.iff_sameView`); a message that is refused
or ignored leaves them alone (`Turn.Ran.sameFiles_of_unserved`), and one that is carried out does
not.
-/

namespace Chiralite

open Py Posix Effect

/-! ### Sessions one after another -/

/-- `_indexes` of the server. -/
abbrev Indexes := Dict Uuid SiloIndex

/-- The first lines of `_serve_session`: the index of the silo, made if there is none. -/
def takeIndex (indexes : Indexes) (siloId : Uuid) : SiloIndex × Indexes :=
  match indexes.get? siloId with
  | some index => (index, indexes)
  | none =>
    let index := SiloIndex.init siloId (lit "server")
    (index, indexes.set siloId index)

/-- The server between two sessions. -/
structure SiloServer where
  world : World
  indexes : Indexes

/-- A session: who is served, in which environment, what the client sends, and how many rounds the
loop takes. -/
structure SessionRun where
  env : Env
  session : SiloSession
  inbox : List Incoming
  rounds : Nat

/-- `_serve_session` on the server's state. -/
def serve (server : SiloServer) (a : SessionRun) : SiloServer where
  world := (serveSession a.env a.session (server.indexes.get? a.session.siloId) a.rounds
    { server.world with inbox := a.inbox }).state
  indexes := (takeIndex server.indexes a.session.siloId).2

/-- The index that a session is served from is the one that is taken. -/
theorem serviceOf_index (E : Env) (session : SiloSession) (indexes : Indexes) :
    (serviceOf E session (indexes.get? session.siloId)).index =
      (takeIndex indexes session.siloId).1 := by
  unfold serviceOf takeIndex
  cases indexes.get? session.siloId with
  | none => rfl
  | some index => rfl

/-- Taking an index does not change the one that any silo gets. -/
theorem takeIndex_takeIndex (indexes : Indexes) (siloId siloId' : Uuid) :
    (takeIndex (takeIndex indexes siloId).2 siloId').1 = (takeIndex indexes siloId').1 := by
  cases h : indexes.get? siloId with
  | some index =>
    have hsame : (takeIndex indexes siloId).2 = indexes := by rw [takeIndex, h]
    rw [hsame]
  | none =>
    have hset : (takeIndex indexes siloId).2 =
        indexes.set siloId (SiloIndex.init siloId (lit "server")) := by rw [takeIndex, h]
    rw [hset]
    by_cases hid : siloId' = siloId
    · -- the index made now is the one that would be made later
      rw [hid, takeIndex, takeIndex, Dict.get?_set_self, h]
    · rw [takeIndex, takeIndex, Dict.get?_set_of_ne _ _ hid]
      cases indexes.get? siloId' with
      | none => rfl
      | some index => rfl

/-- **The index outlives every session unchanged**, whatever the clients send. -/
theorem run_takeIndex (server : SiloServer) (as : List SessionRun) (siloId : Uuid) :
    (takeIndex (Run.run serve server as).indexes siloId).1 =
      (takeIndex server.indexes siloId).1 := by
  induction as generalizing server with
  | nil => rfl
  | cons a as ih =>
    rw [Run.run_cons, ih (serve server a)]
    exact takeIndex_takeIndex _ _ _

/-! ### Agreement -/

/-- A relative path by its components, none of them empty. -/
def Components (comps : List Str) : Prop := comps ≠ [] ∧ ∀ c ∈ comps, c ≠ [] ∧ slash ∉ c

/-- The hash that the index has for a path. -/
def indexHash (rs : Records) (comps : List Str) : Option Int :=
  (live? rs ([slash].intercalate comps)).map FileRecord.rapidhash

/-- The hash of the file under a path of the silo. -/
def fileHash (root : Location) (t : Tree) (comps : List Str) : Option Int :=
  (t.file (root ++ comps)).map fun f => rapidhash f.content

/-- **Agreement**: a path is live with a hash exactly when there is a file with that hash. -/
def Agrees (rs : Records) (root : Location) (t : Tree) : Prop :=
  ∀ comps, Components comps → indexHash rs comps = fileHash root t comps

/-- The paths and hashes of the silo are the same. -/
def SameView (root : Location) (t t' : Tree) : Prop :=
  ∀ comps, Components comps → fileHash root t' comps = fileHash root t comps

theorem SameFiles.sameView {w w' : World} (h : SameFiles w w') (root : Location) :
    SameView root w.fs w'.fs := by
  intro comps _
  rw [fileHash, h, fileHash]

/-- **An index that agreed agrees again** exactly when paths and hashes are what they were. -/
theorem Agrees.iff_sameView {rs : Records} {root : Location} {t t' : Tree} (h : Agrees rs root t) :
    Agrees rs root t' ↔ SameView root t t' := by
  constructor
  · intro h' comps hcomps
    rw [← h comps hcomps, ← h' comps hcomps]
  · intro hview comps hcomps
    rw [hview comps hcomps, h comps hcomps]

/-- The message was refused, with no temporary name taken already, or it asks for nothing. -/
def Turn.Unserved (turn : Turn) : Prop :=
  (∃ nack, .transferNack nack ∈ sends turn.events ∧ FreshNames turn.events) ∨
    turn.taken.op? = none

/-- A turn that is refused or ignored changes no file. -/
theorem Turn.Ran.sameFiles_of_unserved {S : Service} {turn : Turn} (h : turn.Ran S)
    (hunserved : turn.Unserved) : SameFiles turn.before turn.after := by
  rcases hunserved with ⟨nack, hnack, hfresh⟩ | hop
  · obtain ⟨w₁, v, evs, htree, hevents, hvalid, hrun⟩ := h.dispatched
    rw [hevents] at hnack hfresh
    change _ ∈ sends evs at hnack
    -- only a transfer is answered, and the answer of an accepted one is no NACK
    by_cases hbegin : ∃ begin, turn.taken = .transferBegin begin
    · obtain ⟨begin, hbegin⟩ := hbegin
      rw [hbegin] at hrun hvalid
      rcases handleTransfer_inv hvalid hrun with hnone | ⟨reason, -, hfiles⟩ | hacc
      · rw [hnone] at hnack
        cases hnack
      · have hfresh' : FreshNames evs := fun p hp => hfresh p (List.mem_cons_of_mem _ hp)
        exact htree.sameFiles.trans (hfiles hfresh')
      · obtain ⟨text, hsends⟩ := hacc.sends_eq
        rw [hsends, List.mem_singleton] at hnack
        cases hnack
    · have hsilent := (silentFrame_dispatch (S := S) (fun b hb => hbegin ⟨b, hb⟩) _ _ _ _ hrun).2.1
      rw [sends_eq_nil hsilent] at hnack
      cases hnack
  · exact permitted_of_no_op h hop

theorem TurnsFrom.ran {S : Service} {w : World} {turns : List Turn} (h : TurnsFrom S w turns) :
    ∀ turn ∈ turns, turn.Ran S := by
  induction h with
  | nil w => simp
  | @cons turn turns hran hrest ih =>
    intro t ht
    rcases List.mem_cons.mp ht with rfl | ht
    · exact hran
    · exact ih t ht

/-- **The index does not follow the files.** Whatever the clients of any sessions send, the index
that a silo is served from is the one it had at the start, and so is the state that is sent to its
next session. An index that agreed with the files at the start agrees with them after the sessions
exactly when the paths and hashes of the silo are what they were; and so it is for each message of
a session, of which those that are refused or ignored keep the agreement. -/
theorem index_does_not_follow (server : SiloServer) (as : List SessionRun) (siloId : Uuid) :
    (takeIndex (Run.run serve server as).indexes siloId).1 =
      (takeIndex server.indexes siloId).1 ∧
    (∀ E session w evs v w', session.siloId = siloId →
      Runs (serverHandleSyncRequest
        (serviceOf E session ((Run.run serve server as).indexes.get? siloId))) w evs v w' →
      sends evs = [] ∨ sends evs = [.syncState (takeIndex server.indexes siloId).1.state]) ∧
    (∀ root, Agrees (takeIndex server.indexes siloId).1.records root server.world.fs →
      (Agrees (takeIndex server.indexes siloId).1.records root
        (Run.run serve server as).world.fs ↔
        SameView root server.world.fs (Run.run serve server as).world.fs)) ∧
    ∀ (S : Service) (w : World) (turns : List Turn), TurnsFrom S w turns → ∀ turn ∈ turns,
      Agrees S.index.records S.session.jail.root turn.before.fs →
      (Agrees S.index.records S.session.jail.root turn.after.fs ↔
        SameView S.session.jail.root turn.before.fs turn.after.fs) ∧
      (turn.Unserved → Agrees S.index.records S.session.jail.root turn.after.fs) := by
  have hindex := run_takeIndex server as siloId
  refine ⟨hindex, ?_, fun root h => h.iff_sameView, ?_⟩
  · rintro E session w evs v w' rfl hrun
    have hsends := serverHandleSyncRequest_sends hrun
    rw [serviceOf_index, hindex] at hsends
    exact hsends
  · -- within a session the index is the same before and after a turn
    intro S w turns hturns turn hturn hagrees
    refine ⟨hagrees.iff_sameView, fun hunserved => hagrees.iff_sameView.mpr ?_⟩
    exact ((hturns.ran turn hturn).sameFiles_of_unserved hunserved).sameView _

/-! ### A file that is deleted

The silo of the sample has one file and one live record, with its hash. -/

namespace Sample

theorem intercalate_eq_notes {comps : List Str} (hcomps : Components comps) :
    [slash].intercalate comps = lit "notes" ↔ comps = [lit "notes"] := by
  obtain ⟨hne, hnames⟩ := hcomps
  constructor
  · intro h
    match comps, hne with
    | [c], _ =>
      rw [List.intercalate_singleton] at h
      rw [h]
    | c :: d :: rest, _ =>
      -- two components leave a separator, and there is none
      have hslash : slash ∈ [slash].intercalate (c :: d :: rest) := by
        simp [List.intercalate]
      rw [h] at hslash
      exact absurd hslash (by decide)
  · rintro rfl
    exact List.intercalate_singleton

theorem agrees : Agrees service.index.records service.session.jail.root tree := by
  intro comps hcomps
  by_cases h : comps = [lit "notes"]
  · rw [h]
    rfl
  · have hindex : indexHash service.index.records comps = none := by
      have hkey : [slash].intercalate comps ≠ lit "notes" :=
        fun hkey => h ((intercalate_eq_notes hcomps).mp hkey)
      have hget : service.index.records.get? ([slash].intercalate comps) = none :=
        (Dict.get?_set_of_ne _ _ hkey).trans (Dict.get?_empty _)
      rw [indexHash, live?, hget]
      rfl
    have hfile : fileHash service.session.jail.root tree comps = none := by
      have hnode : tree.node ([lit "srv"] ++ comps) = none := by
        simp [tree, PathJail.srvTree, Tree.node_insert, Tree.empty, h, hcomps.1]
      change (Tree.file tree ([lit "srv"] ++ comps)).map _ = none
      rw [Tree.file, hnode]
      rfl
    rw [hindex, hfile]

/-- The client deletes the file: the index still has it. -/
theorem not_agrees_after_delete : ∃ turn : Turn, TurnsFrom service turn.before [turn] ∧
    turn.taken = .fileDelete ⟨lit "notes", 0⟩ ∧
    Agrees service.index.records service.session.jail.root turn.before.fs ∧
    ¬ Agrees service.index.records service.session.jail.root turn.after.fs := by
  obtain ⟨turn, hran, htaken, hbefore, hafter⟩ := exists_turn service
    (m := .fileDelete ⟨lit "notes", 0⟩) ⟨by decide, by decide⟩ world []
  refine ⟨turn, .cons hran (.nil _), htaken, ?_, fun h => ?_⟩
  · rw [hbefore]
    exact agrees
  · have hnotes := h [lit "notes"] ⟨by decide, by decide⟩
    rw [hafter] at hnotes
    cases hnotes

end Sample

end Chiralite
