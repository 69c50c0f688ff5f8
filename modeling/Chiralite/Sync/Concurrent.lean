import Chiralite.Framework.Interleave
import Chiralite.Server.Session
import Chiralite.Sync.Engine

/-!
# Concurrent calls of the engine

`send_write`, `send_delete` and `send_rename` of `sync/engine.py`, called concurrently on one
engine. The engine has a lock for each path and none for the connection: calls on different paths
send and receive as the event loop lets them. The server takes the messages of all of them for one
stream, in which a transfer has to be contiguous, and puts its answers on one stream too, from
which every `recv` takes the next.

A call is here the list of its messages and what it makes of the reply it takes; `sendWrite_alone`
says that this is what the program of `send_write` comes to. The interleavings are the schedules of
`Interleave`, at the granularity of single messages. A schedule may take a reply before the server
has sent it, so that the schedules of the engine are among these.

`serialisable_of_orderly` says which interleavings are as good as serial ones: those in which
nobody sends between the `TRANSFER_BEGIN` and the `TRANSFER_COMMIT` of another, and nobody takes a
reply ahead of a transfer that began earlier. The engine does not see to either.
-/

namespace Chiralite

open Py Posix Effect

/-- A call of the engine, with the values it draws: `uuid4` and `_now_ns`. -/
inductive EngineCall where
  | sendWrite (entry : FileEntry) (content : Bytes) (baseContent : Option Bytes) (tid : Uuid)
  | sendDelete (path : Str) (nowNs : Int)
  | sendRename (oldPath newPath : Str) (nowNs : Int)

namespace EngineCall

/-- The paths whose locks the call takes. -/
def paths : EngineCall → List Str
  | .sendWrite entry _ _ _ => [entry.path]
  | .sendDelete path _ => [path]
  | .sendRename oldPath newPath _ => [oldPath, newPath]

/-- The messages that the call sends. -/
def messages (X : XDelta) : EngineCall → List AnyMsg
  | .sendWrite entry content baseContent tid =>
    match preparePayload X entry content baseContent with
    | .error _ => []
    | .ok (wireEntry, payload) =>
      .transferBegin (beginMessage tid wireEntry payload) :: restMessages tid wireEntry payload
  | .sendDelete path nowNs => [.fileDelete ⟨path, nowNs⟩]
  | .sendRename oldPath newPath nowNs =>
    -- the lock of one path, taken twice, is never got
    if oldPath = newPath then [] else [.fileRename ⟨oldPath, newPath, nowNs⟩]

/-- The call takes a reply. -/
def awaits (X : XDelta) : EngineCall → Bool
  | .sendWrite entry content baseContent _ =>
    match preparePayload X entry content baseContent with
    | .error _ => false
    | .ok _ => true
  | _ => false

theorem awaits_of_messages {X : XDelta} {call : EngineCall} (h : call.messages X = []) :
    call.awaits X = false := by
  cases call with
  | sendWrite entry content baseContent tid =>
    simp only [messages] at h
    simp only [awaits]
    cases hprepare : preparePayload X entry content baseContent with
    | error text => rfl
    | ok prepared =>
      rw [hprepare] at h
      cases h
  | _ => rfl

end EngineCall

/-- How a call ends. -/
inductive Ending where
  | returned (scanResult : Option Str)
  | raised (e : Exc)
  /-- It waits for ever. -/
  | hung
  deriving DecidableEq

/-- What a transfer makes of the reply it takes; there is none when the connection is lost. -/
def judge (tid : Uuid) : Option AnyMsg → Except Exc Str
  | none => .error (.recvFailed (lit "connection lost"))
  | some (.transferAck m) =>
    if m.transferId ≠ tid then
      .error (.transfer (lit "ACK for unexpected transfer_id " ++ uuidStr m.transferId))
    else .ok m.scanResult
  | some (.transferNack m) =>
    if m.transferId ≠ tid then
      .error (.transfer (lit "NACK for unexpected transfer_id " ++ uuidStr m.transferId))
    else .error (.transfer (lit "transfer rejected: " ++ m.reason))
  | some m => .error (.transfer (lit "expected ACK/NACK, got " ++ m.typeName))

/-- The ending of a call that returns a text or raises. -/
def Ending.ofValue : Except Exc Str → Ending
  | .ok text => .returned (some text)
  | .error e => .raised e

/-- How the call ends, with the reply it takes. -/
def EngineCall.ending (X : XDelta) (reply : Option AnyMsg) : EngineCall → Ending
  | .sendWrite entry content baseContent tid =>
    match preparePayload X entry content baseContent with
    | .error text => .raised (.other text)
    | .ok _ => .ofValue (judge tid reply)
  | .sendDelete _ _ => .returned none
  | .sendRename oldPath newPath _ => if oldPath = newPath then .hung else .returned none

/-! ### A call that runs alone -/

section Alone

variable {E : Env} {w : World}

/-- The message that `recv` would find first. -/
def Finds (w : World) (reply : Option AnyMsg) : Prop :=
  (w.inbox = [] ∧ reply = none) ∨
    ∃ m valid rest, w.inbox = .message m valid :: rest ∧ reply = some m

theorem awaitAck_value {tid : Uuid} {reply : Option AnyMsg} (h : Finds w reply) :
    (awaitAck tid w).value = judge tid reply := by
  rcases h with ⟨hinbox, rfl⟩ | ⟨m, valid, rest, hinbox, rfl⟩
  · have hrecv : Runs recv w [] (.error (.recvFailed (lit "connection lost"))) w := by
      refine Runs.look_bind ?_
      rw [hinbox]
      rfl
    have hrun : Runs (awaitAck tid) w [] _ w := hrecv.bind_error
    rw [show awaitAck tid w = _ from hrun]
    rfl
  · have hrun : Runs (awaitAck tid) w _ _ _ := (recv_runs hinbox).bind (runs_self _ _)
    rw [show awaitAck tid w = _ from hrun]
    -- an answer is judged by its transfer, any other message is an error
    cases m with
    | transferAck m =>
      simp only [judge]
      split
      · rfl
      · rfl
    | transferNack m =>
      simp only [judge]
      split
      · rfl
      · rfl
    | _ => rfl

/-- **A `send_write` that runs alone** sends the messages of the call, whatever it is answered, and
ends as the call does with the reply that it finds. -/
theorem sendWrite_alone (hE : E.NoFaults) (entry : FileEntry) (content : Bytes)
    (baseContent : Option Bytes) {reply : Option AnyMsg} (h : Finds w reply) :
    sends (sendWrite E entry content baseContent w).events =
        (EngineCall.sendWrite entry content baseContent (E.uuid4 w.clock)).messages E.xdelta ∧
      Ending.ofValue (sendWrite E entry content baseContent w).value =
        (EngineCall.sendWrite entry content baseContent (E.uuid4 w.clock)).ending E.xdelta
          reply := by
  simp only [sendWrite, EngineCall.messages, EngineCall.ending]
  cases hprepare : preparePayload E.xdelta entry content baseContent with
  | error text => exact ⟨rfl, rfl⟩
  | ok prepared =>
    obtain ⟨wireEntry, payload⟩ := prepared
    obtain ⟨w₁, hinbox, hrun⟩ := doTransfer_runs hE wireEntry payload w
    have hawait := runs_self (awaitAck (E.uuid4 w.clock)) w₁
    have hquiet := (quietFrame_awaitAck _ _ _ _ _ hawait).2.1
    have hfinds : Finds w₁ reply := by
      unfold Finds
      rw [hinbox]
      exact h
    dsimp only
    rw [show doTransfer E wireEntry payload w = _ from hrun _ _ _ hawait]
    refine ⟨?_, congrArg Ending.ofValue (awaitAck_value hfinds)⟩
    rw [sends_append, sends_map_sent, sends_eq_nil hquiet, List.append_nil]

end Alone

/-! ### Interleavings -/

/-- Concurrent calls. Their messages are those that the constructors of the messages accept, and
no path belongs to two of them, so that none waits at a lock for another. -/
structure Calls (X : XDelta) where
  calls : List EngineCall
  valid : ∀ call ∈ calls, ∀ m ∈ call.messages X, m.Valid
  disjoint : calls.Pairwise fun call call' => call.paths.Disjoint call'.paths

variable {X : XDelta}

/-- What the call of a number puts on the stream. -/
def Calls.frames (K : Calls X) (i : Nat) : List Incoming :=
  match h : K.calls[i]? with
  | none => []
  | some call => deliver (call.messages X) (K.valid call (List.mem_of_getElem? h))

def Calls.awaits (K : Calls X) (i : Nat) : Bool :=
  match K.calls[i]? with
  | none => false
  | some call => call.awaits X

/-- The calls as tasks that share the connection. -/
def Calls.tasks (K : Calls X) : Interleave.Tasks Incoming where
  count := K.calls.length
  frames := K.frames
  awaits := K.awaits
  outside i hi := by
    unfold Calls.frames
    split
    · rfl
    · rename_i call hcall
      rw [List.getElem?_eq_none hi] at hcall
      cases hcall
  silent i hi := by
    unfold Calls.frames at hi
    unfold Calls.awaits
    split at hi
    · rename_i hnone
      rw [hnone]
    · rename_i call hcall
      rw [hcall]
      refine EngineCall.awaits_of_messages ?_
      exact List.pmap_eq_nil_iff.mp hi

/-- The state after a schedule of the calls. -/
def Calls.after (K : Calls X) (schedule : List Nat) : Interleave.State Incoming :=
  Run.run Interleave.step (Interleave.start K.tasks) schedule

/-- The reply that a call has taken, of those that the server has sent. -/
def replyTo (receivers : List Nat) (replies : List AnyMsg) (i : Nat) : Option AnyMsg :=
  if i ∈ receivers then replies[receivers.idxOf i]? else none

/-- What the calls come to: the files of the server, and how each of them ends. -/
structure Upshot where
  files : Location → Option FileData
  endings : List Ending

/-- What a schedule comes to, with a server that starts in `w` and goes through `n` rounds of its
loop. -/
def Calls.upshot (K : Calls X) (S : Service) (w : World) (n : Nat) (schedule : List Nat) :
    Upshot :=
  let s := K.after schedule
  let served := serveTurns S n { w with inbox := s.stream }
  { files := served.state.fs.file
    endings := K.calls.zipIdx.map fun call =>
      call.1.ending X (replyTo s.receivers (sends served.events) call.2) }

/-- **Orderly interleavings are serialisable.** For every server, every jail and every number of
rounds, and for all calls with disjoint paths: when every step of an interleaving is orderly, and
all calls come to their ends, the files of the server and the endings of all calls are those of
running the calls one after another, in some order. -/
theorem serialisable_of_orderly (K : Calls X) (S : Service) (w : World) (n : Nat)
    (schedule : List Nat)
    (horderly : Run.Guarded Interleave.step Interleave.Orderly (Interleave.start K.tasks) schedule)
    (hdone : (K.after schedule).Done) :
    ∃ order : List Nat, order.Perm (List.range K.calls.length) ∧
      (K.after (K.tasks.serial order)).Done ∧
      K.upshot S w n schedule = K.upshot S w n (K.tasks.serial order) := by
  obtain ⟨order, hperm, hdone', hstream, hreceivers⟩ :=
    Interleave.orderly_eq_serial horderly hdone
  refine ⟨order, hperm, hdone', ?_⟩
  -- the server sees the same stream, and the replies are taken in the same order
  simp only [Calls.upshot, Calls.after]
  rw [hstream, hreceivers]

/-! ### A write and a delete

The client sends an empty file `new` and deletes the file `notes` that the server has. -/

namespace Sample

def blank : FileEntry :=
  { entry.asFull with path := lit "new", size := 0, rapidhash := rapidhash [] }

theorem blank_valid : blank.Valid :=
  { entry_valid.asFull with
    path := by decide
    size := by decide
    rapidhash := rapidHashInt_rapidhash [] 0 }

def writeBlank : EngineCall := .sendWrite blank [] none 1

def deleteNotes : EngineCall := .sendDelete (lit "notes") 0

theorem messages_writeBlank : writeBlank.messages xdelta =
    .transferBegin (beginMessage 1 blank []) :: restMessages 1 blank [] := rfl

def pair : Calls xdelta where
  calls := [writeBlank, deleteNotes]
  valid := by
    intro call hcall m hm
    rcases List.mem_cons.mp hcall with rfl | hcall
    · rw [messages_writeBlank] at hm
      rcases List.mem_cons.mp hm with rfl | hm
      · exact (wireBegin_beginMessage 1 blank_valid []).valid
      · exact valid_of_mem_restMessages blank_valid [] m hm
    · rw [List.mem_singleton.mp hcall] at hm
      rw [List.mem_singleton.mp hm]
      exact ⟨by decide, by decide⟩
  disjoint := by
    rw [List.pairwise_pair]
    intro p hp hp'
    cases List.mem_singleton.mp hp
    exact absurd (List.mem_singleton.mp hp') (by decide)

/-- The delete goes out while the transfer waits for its reply: the two are as good as serial. -/
theorem pair_serialisable : (pair.after [0, 0, 0, 1, 0]).Done ∧
    ∃ order : List Nat, order.Perm (List.range 2) ∧
      (pair.after (pair.tasks.serial order)).Done ∧
      pair.upshot service world 4 [0, 0, 0, 1, 0] =
        pair.upshot service world 4 (pair.tasks.serial order) := by
  have hdone : (pair.after [0, 0, 0, 1, 0]).Done := by
    intro i
    match i with
    | 0 => exact ⟨rfl, rfl⟩
    | 1 => exact ⟨rfl, rfl⟩
    | n + 2 => exact ⟨rfl, rfl⟩
  have hothers : ∀ {P : Nat → Prop}, ∀ j ∈ [0], j ≠ 0 → P j :=
    fun j hj hne => absurd (List.mem_singleton.mp hj) hne
  refine ⟨hdone, serialisable_of_orderly pair service world 4 _ ?_ hdone⟩
  refine ⟨⟨fun _ j hj => ?_, fun h => ?_⟩, ⟨fun _ => hothers, fun h => ?_⟩,
    ⟨fun _ => hothers, fun h => ?_⟩, ⟨fun _ j hj _ => ?_, fun h => ?_⟩,
    ⟨fun h => ?_, fun _ _ j hbefore => ?_⟩, trivial⟩
  · cases hj
  · exact absurd h (List.cons_ne_nil _ _)
  · exact absurd h (List.cons_ne_nil _ _)
  · exact absurd h (List.cons_ne_nil _ _)
  · cases List.mem_singleton.mp hj
    rfl
  · exact absurd h (List.cons_ne_nil _ _)
  · exact absurd rfl h
  · -- nobody began before the transfer
    have hpair : [j, 0] = [0, 1] := List.Sublist.eq_of_length hbefore rfl
    cases hpair

/-- **The delete goes out between two frames of the transfer**: it is taken for a chunk, the
transfer is refused, and the file is not deleted. No serial run comes to that. -/
theorem pair_not_serialisable : (pair.after [0, 1, 0, 0, 0]).Done ∧
    ¬ ∃ order : List Nat, order.Perm (List.range 2) ∧
      pair.upshot service world 4 [0, 1, 0, 0, 0] =
        pair.upshot service world 4 (pair.tasks.serial order) := by
  have hkept : (pair.upshot service world 4 [0, 1, 0, 0, 0]).files [lit "srv", lit "notes"] ≠
      none := by decide +kernel
  have hwriteFirst : (pair.upshot service world 4 (pair.tasks.serial [0, 1])).files
      [lit "srv", lit "notes"] = none := by decide +kernel
  have hdeleteFirst : (pair.upshot service world 4 (pair.tasks.serial [1, 0])).files
      [lit "srv", lit "notes"] = none := by decide +kernel
  refine ⟨?_, ?_⟩
  · intro i
    match i with
    | 0 => exact ⟨rfl, rfl⟩
    | 1 => exact ⟨rfl, rfl⟩
    | n + 2 => exact ⟨rfl, rfl⟩
  · rintro ⟨order, hperm, heq⟩
    have hcases : order = [0, 1] ∨ order = [1, 0] := by
      obtain ⟨i, j, rfl⟩ := List.length_eq_two.mp hperm.length_eq
      have hne : i ≠ j := by simpa using hperm.nodup_iff.mpr List.nodup_range
      have hi : i < 2 := List.mem_range.mp (hperm.mem_iff.mp List.mem_cons_self)
      have hj : j < 2 := List.mem_range.mp (hperm.mem_iff.mp (by simp))
      simp only [List.cons.injEq, and_true]
      omega
    rw [heq] at hkept
    rcases hcases with rfl | rfl
    · exact hkept hwriteFirst
    · exact hkept hdeleteFirst

end Sample

end Chiralite
