import Chiralite.Framework.Effect
import Chiralite.Fs.Jail
import Chiralite.Trust.Policy

/-!
# What the server does to the world

The server's handlers are sequences of calls with a visible effect: they receive and send
messages, ask the virus scanner, write audit records and change the file system. Here is the
world those calls act on, the calls themselves, and for each call one lemma that says all a run of
it can have done.

The world holds the file tree, the messages that the client has put on the connection, and a
clock that counts the calls so far. What the world decides is an `Env`: which calls fail and how,
what the scanner answers, which ids `uuid4` draws. Each of these may depend on the clock, and so
on all that went before. The file system has ways of its own besides: places where it refuses
`lstat` or `mkdir`, and times that it does not keep as they are given. A message that does not
decrypt or does not validate is `malformed`; every other message has passed the validators of
`parse_json`. Every effect leaves an `Event`. The package `xdelta3` is a parameter too, with the
checks of `delta.py` around it.

The audit log is no part of the tree, and `AuditLogger.log` does not raise: `logging` handles the
errors of its handlers itself.
-/

namespace Chiralite

open Py Posix Effect

/-! ### The scanner and the audit log -/

/-- `ScanResult`. -/
structure ScanResult where
  isClean : Bool
  virusName : Option Str := none
  error : Option Str := none
  deriving DecidableEq

/-- `ScanResult.make_clean`. -/
def ScanResult.makeClean : ScanResult := { isClean := true }

/-- An optional text that is present and not empty. -/
def truthy (s : Option Str) : Option Str := s.filter fun t => t ≠ []

/-- `str(scan_result)`. -/
def ScanResult.text (r : ScanResult) : Str :=
  if r.isClean then lit "CLEAN"
  else
    match truthy r.virusName with
    | some virus => lit "INFECTED:" ++ virus
    | none => lit "ERROR:" ++ r.error.getD (lit "None")

/-- The audit records of a session, by the helper of `AuditLogger` that writes them. -/
inductive AuditEvent where
  | fileWrite (clientCn : Str) (siloId : Uuid) (path : Str) (rapidhashBefore : Option Int)
      (rapidhashAfter recvTsNs : Int) (delta : Bool) (sizeBytes : Nat)
  | fileDelete (clientCn : Str) (siloId : Uuid) (path : Str)
  | fileRename (clientCn : Str) (siloId : Uuid) (oldPath newPath : Str)
  | quarantine (clientCn : Str) (siloId : Uuid) (path virus : Str)
  | pathTraversal (clientCn : Str) (siloId : Uuid) (path : Str)
  | uidDenied (clientCn : Str) (siloId : Uuid) (name : Str)
  deriving DecidableEq

/-! ### Exceptions -/

/-- The exceptions that the handlers tell apart. -/
inductive Exc where
  /-- Whatever `framed.recv` raises. -/
  | recvFailed (text : Str)
  | jailbreak (err : JailbreakError)
  /-- `OSError`, with its text. -/
  | os (errno : Errno) (text : Str)
  /-- `PatchError`. -/
  | patch (text : Str)
  /-- `WriteError`. -/
  | write (text : Str)
  /-- `ReconcileError`. -/
  | reconcile (text : Str)
  /-- `TransferError`. -/
  | transfer (text : Str)
  /-- Any other exception. -/
  | other (text : Str)
  deriving DecidableEq

/-- A failure that comes from outside: of the operating system, or any other. -/
inductive Fault where
  | os (errno : Errno) (text : Str)
  | other (text : Str)
  deriving DecidableEq

/-- The exception a failure is seen as. -/
def Fault.exc : Fault → Exc
  | .os errno text => .os errno text
  | .other text => .other text

/-! ### Deltas -/

/-- What `xdelta3.encode` may raise. -/
inductive EncodeError where
  /-- The delta would be larger than the new content. -/
  | noDeltaFound
  /-- Any other exception. -/
  | failed (text : Str)
  deriving DecidableEq

/-- The `xdelta3` package. -/
structure XDelta where
  /-- `encode(old, new)`. -/
  encode : Bytes → Bytes → Except EncodeError Bytes
  /-- `decode(old, delta)`, or the text of its exception. -/
  decode : Bytes → Bytes → Except Str Bytes

/-- `VCDIFF_MAGIC`. -/
def vcdiffMagic : Bytes := [0xd6, 0xc3, 0xc4]

/-- `compute_delta`. -/
def computeDelta (X : XDelta) (old new : Bytes) : Except EncodeError Bytes := X.encode old new

/-- `apply_delta`, or the text of its `PatchError`. -/
def applyDelta (X : XDelta) (old delta : Bytes) : Except Str Bytes :=
  if delta = [] then .error (lit "empty delta")
  else if delta.take 3 ≠ vcdiffMagic then .error (lit "not a VCDIFF stream")
  else
    match X.decode old delta with
    | .error text => .error text
    | .ok result =>
      if result = [] then
        .error (lit "decode produced empty output — delta is likely truncated")
      else .ok result

/-! ### Events -/

/-- What a call did to a location. -/
inductive FsOp where
  | mkdir
  /-- `open` for writing made a new file. -/
  | create
  /-- `open` for writing came upon an entry of that name. -/
  | reopen
  | write
  | chown
  | chmod
  | utime
  | unlink
  | rename (dst : Location)
  deriving DecidableEq

/-- An effect that has happened. -/
inductive Event where
  | received (m : AnyMsg)
  | sent (m : AnyMsg)
  | scanned (content : Bytes) (result : ScanResult)
  | audited (record : AuditEvent)
  | touched (op : FsOp) (p : Location)
  deriving DecidableEq

/-- The message that an event sends. -/
def Event.sent? : Event → Option AnyMsg
  | .sent m => some m
  | _ => none

/-- The messages sent. -/
def sends (evs : List Event) : List AnyMsg := evs.filterMap Event.sent?

@[simp] theorem sends_nil : sends [] = [] := rfl

@[simp] theorem sends_append (evs evs' : List Event) :
    sends (evs ++ evs') = sends evs ++ sends evs' := List.filterMap_append

theorem sends_eq_nil {evs : List Event} (h : ∀ o ∈ evs, o.sent? = none) : sends evs = [] :=
  List.filterMap_eq_nil_iff.mpr h

/-- No temporary name was taken already: the names that `uuid4` drew were new. -/
def FreshNames (evs : List Event) : Prop := ∀ p, Event.touched .reopen p ∉ evs

theorem FreshNames.left {evs evs' : List Event} (h : FreshNames (evs ++ evs')) :
    FreshNames evs := fun p hp => h p (List.mem_append_left _ hp)

theorem FreshNames.right {evs evs' : List Event} (h : FreshNames (evs ++ evs')) :
    FreshNames evs' := fun p hp => h p (List.mem_append_right _ hp)

/-! ### The world -/

/-- What `framed.recv` finds. -/
inductive Incoming where
  /-- A message that `parse_json` returned. -/
  | message (m : AnyMsg) (valid : m.Valid)
  /-- A frame on which `recv` raises. -/
  | malformed (text : Str)

/-- The world. -/
structure World where
  fs : Tree
  inbox : List Incoming
  clock : Nat

/-- What the world decides. -/
structure Env where
  /-- How many components a resolution of links may take. -/
  fuel : Nat
  /-- `repr` of a string. -/
  reprStr : Str → Str
  /-- `str` of an `OSError` at a path. -/
  osText : Errno → Location → Str
  accounts : Accounts
  xdelta : XDelta
  /-- Where `lstat`, if there is no link, is refused, and with which error. -/
  lstatError : Location → Option Errno
  /-- Where the making of a directory is refused, though the tree has room for it, and with which
  error: no permission, no space, a name that is too long. -/
  mkdirError : Location → Option Errno
  /-- The time that the file system keeps when it is given one. It may round it, or hold the
  nearest that it can represent. -/
  storedNs : Int → Int
  /-- The failure of the call at a time, if it fails. -/
  fault : Nat → Option Fault
  /-- How many bytes the write that fails at a time leaves in the file. -/
  written : Nat → Nat
  /-- The id that `uuid4` draws at a time. -/
  uuid4 : Nat → Uuid
  /-- The attributes of a file that is created at a time. -/
  newFile : Nat → FileData
  /-- The scanner, if there is one. -/
  clamd : Option (Nat → Bytes → Except Fault ScanResult)

/-- A computation in the world. -/
abbrev Io (α : Type) := Eff World Event Exc α

/-- The file tree is not touched. -/
def SameTree (w w' : World) : Prop := w'.fs = w.fs

/-- The regular files of the two worlds are the same, with content and attributes. -/
def SameFiles (w w' : World) : Prop := ∀ p, w'.fs.file p = w.fs.file p

theorem SameTree.sameFiles {w w' : World} (h : SameTree w w') : SameFiles w w' := by
  intro p
  rw [show w'.fs = w.fs from h]

theorem SameFiles.trans {w w₁ w' : World} (h : SameFiles w w₁) (h' : SameFiles w₁ w') :
    SameFiles w w' := fun p => (h' p).trans (h p)

/-! ### Calls -/

section Calls

variable (E : Env)

/-- A call that may fail. -/
def tick : Io Unit := do
  let w ← Eff.look
  Eff.change fun w => { w with clock := w.clock + 1 }
  -- the clock advances whether or not the call fails
  match E.fault w.clock with
  | none => pure ()
  | some fault => Eff.raise fault.exc

/-- `framed.recv()`. -/
def recv : Io AnyMsg := do
  let w ← Eff.look
  match w.inbox with
  -- the client is gone
  | [] => Eff.raise (.recvFailed (lit "connection lost"))
  | .malformed text :: rest => do
    Eff.change fun w => { w with inbox := rest }
    Eff.raise (.recvFailed text)
  | .message m _ :: rest => do
    Eff.change fun w => { w with inbox := rest }
    Eff.emit (.received m)
    pure m

/-- `framed.send(msg)`. -/
def send (m : AnyMsg) : Io Unit := do
  tick E
  Eff.emit (.sent m)

/-- A call of `AuditLogger`. -/
def audit (record : AuditEvent) : Io Unit := Eff.emit (.audited record)

/-- `jail.resolve(rel_path)` on the tree as it is. A resolution that does not come to an end is
the `RuntimeError` of `Path.resolve`. -/
def jailResolve (jail : PathJail) (relPath : Str) : Io Location := do
  tick E
  let w ← Eff.look
  match jail.resolve w.fs E.fuel E.lstatError relPath with
  | none => Eff.raise (.other (lit "symlink loop"))
  | some (.error (.jailbreak err)) => Eff.raise (.jailbreak err)
  | some (.error (.os errno p)) => Eff.raise (.os errno (E.osText errno p))
  | some (.ok p) => pure p

/-- A system call that changes the tree. -/
def fsCall (op : FsOp) (p : Location) (call : Tree → Except Errno Tree) : Io Unit := do
  tick E
  let w ← Eff.look
  match call w.fs with
  | .error errno => Eff.raise (.os errno (E.osText errno p))
  | .ok t => do
    Eff.change fun w => { w with fs := t }
    Eff.emit (.touched op p)

/-- A name that can be passed to the system has no NUL, and no surrogate but the ones that stand for
a byte that is no UTF-8. -/
def FsName (name : Str) : Prop :=
  ∀ c ∈ name, c.val ≠ 0 ∧ (isSurrogate c = true → 0xdc80 ≤ c.val ∧ c.val ≤ 0xdcff)

instance (name : Str) : Decidable (FsName name) := List.decidableBAll _ _

/-- The names of a path can be passed to the system. -/
def FsEncodable (p : Location) : Prop := ∀ name ∈ p, FsName name

instance (p : Location) : Decidable (FsEncodable p) := List.decidableBAll _ _

/-- `path.read_bytes()`. No file has a name that the system cannot be given; asking for it is a
`ValueError`. -/
def readBytes (p : Location) : Io Bytes := do
  tick E
  let w ← Eff.look
  match w.fs.node p with
  | some (.file f) => pure f.content
  | some .dir => Eff.raise (.os .eisdir (E.osText .eisdir p))
  | some (.symlink _) => Eff.raise (.os .eloop (E.osText .eloop p))
  | none =>
    if FsEncodable p then Eff.raise (.os (w.fs.lookupError p) (E.osText (w.fs.lookupError p) p))
    else Eff.raise (.other (lit "embedded null byte"))

/-- `path.unlink(missing_ok=True)`. The system reports `ENOENT` only where there is nothing, so
that a failure from outside is not passed over. -/
def unlinkMissingOk (p : Location) : Io Unit := do
  tick E
  let w ← Eff.look
  match w.fs.unlink p with
  | .ok t => do
    Eff.change fun w => { w with fs := t }
    Eff.emit (.touched .unlink p)
  | .error .enoent => pure ()
  | .error errno => Eff.raise (.os errno (E.osText errno p))

/-- `path.is_dir()`. -/
def isDir (p : Location) : Io Bool := do
  let w ← Eff.look
  pure (w.fs.node p = some .dir)

/-- `os.mkdir(path)`. A place that is taken is reported before any refusal. -/
def Env.mkdir (t : Tree) (p : Location) : Except Errno Tree :=
  match t.mkdir p, E.mkdirError p with
  | .ok _, some errno => .error errno
  | r, _ => r

/-- `path.mkdir(parents=True, exist_ok=True)`, for the path with its last name first: a missing
parent is made, and the call is made again. -/
def mkdirParents : List Str → Io Unit
  | [] => pure ()
  | name :: up => do
    let p := up.reverse ++ [name]
    match ← Eff.attempt (fsCall E .mkdir p fun t => E.mkdir t p) with
    | .ok () => pure ()
    | .error (.os .enoent _) => do
      mkdirParents up
      match ← Eff.attempt (fsCall E .mkdir p fun t => E.mkdir t p) with
      | .ok () => pure ()
      -- the second call is made without `parents`
      | .error (.os .enoent text) => Eff.raise (.os .enoent text)
      | .error (.os errno text) => do
        if ← isDir p then pure () else Eff.raise (.os errno text)
      | .error e => Eff.raise e
    | .error (.os errno text) => do
      -- `exist_ok`: only a directory will do
      if ← isDir p then pure () else Eff.raise (.os errno text)
    | .error e => Eff.raise e

end Calls

/-- A directory that is made is made in the tree. -/
theorem Env.mkdir_ok {E : Env} {t t' : Tree} {p : Location} (h : E.mkdir t p = .ok t') :
    t.mkdir p = .ok t' := by
  unfold Env.mkdir at h
  split at h
  · cases h
  · exact h

/-! ### What a call has done -/

/-- An exception from outside: the calls below raise no other. -/
def Exc.External : Exc → Prop
  | .os _ _ => True
  | .other _ => True
  | _ => False

theorem Fault.external (fault : Fault) : fault.exc.External := by
  cases fault <;> trivial

section Inversion

variable {E : Env} {w w' : World} {evs : List Event}

theorem tick_inv {v : Except Exc Unit} (h : Runs (tick E) w evs v w') :
    evs = [] ∧ w' = { w with clock := w.clock + 1 } ∧
      ((v = .ok () ∧ E.fault w.clock = none) ∨
        ∃ fault, v = .error fault.exc ∧ E.fault w.clock = some fault) := by
  have hrest := h.bind_look_inv.bind_change_inv
  cases hfault : E.fault w.clock with
  | none =>
    simp only [hfault] at hrest
    obtain ⟨rfl, rfl, rfl⟩ := hrest.pure_inv
    exact ⟨rfl, rfl, Or.inl ⟨rfl, rfl⟩⟩
  | some fault =>
    simp only [hfault] at hrest
    obtain ⟨rfl, rfl, rfl⟩ := hrest.raise_inv
    exact ⟨rfl, rfl, Or.inr ⟨fault, rfl, rfl⟩⟩

/-- A call that may fail, and then the rest: the tree is as before when the rest begins, and only
an exception from outside can have come in between. -/
theorem bind_tick_inv {α : Type} {f : Unit → Io α} {v : Except Exc α}
    (h : Runs (tick E >>= f) w evs v w') :
    (∃ e, v = .error e ∧ e.External ∧ evs = [] ∧ SameTree w w') ∨
      ∃ w₁, SameTree w w₁ ∧ w₁.inbox = w.inbox ∧ Runs (f ()) w₁ evs v w' := by
  rcases h.bind_inv with ⟨e, htick, rfl⟩ | ⟨a, w₁, evs₁, evs₂, htick, hrest, rfl⟩
  · obtain ⟨rfl, rfl, ⟨hv, -⟩ | ⟨fault, hv, -⟩⟩ := tick_inv htick
    · cases hv
    · cases hv
      -- the call failed
      exact Or.inl ⟨_, rfl, fault.external, rfl, rfl⟩
  · obtain ⟨rfl, rfl, -⟩ := tick_inv htick
    exact Or.inr ⟨{ w with clock := w.clock + 1 }, rfl, rfl, hrest⟩

theorem recv_inv {v : Except Exc AnyMsg} (h : Runs recv w evs v w') :
    SameTree w w' ∧ ((∃ text, v = .error (.recvFailed text) ∧ evs = []) ∨
      ∃ m, v = .ok m ∧ m.Valid ∧ evs = [.received m]) := by
  have hrest := h.bind_look_inv
  split at hrest
  · obtain ⟨rfl, rfl, rfl⟩ := hrest.raise_inv
    exact ⟨rfl, Or.inl ⟨_, rfl, rfl⟩⟩
  · obtain ⟨rfl, rfl, rfl⟩ := hrest.bind_change_inv.raise_inv
    exact ⟨rfl, Or.inl ⟨_, rfl, rfl⟩⟩
  · rename_i m valid rest _
    obtain ⟨evs₂, hpure, rfl⟩ := hrest.bind_change_inv.bind_emit_inv
    obtain ⟨rfl, rfl, rfl⟩ := hpure.pure_inv
    exact ⟨rfl, Or.inr ⟨m, rfl, valid, rfl⟩⟩

theorem send_inv {m : AnyMsg} {v : Except Exc Unit} (h : Runs (send E m) w evs v w') :
    SameTree w w' ∧ ((∃ e, v = .error e ∧ evs = []) ∨ (v = .ok () ∧ evs = [.sent m])) := by
  rcases bind_tick_inv h with ⟨e, rfl, -, rfl, htree⟩ | ⟨w₁, htree, -, hemit⟩
  · exact ⟨htree, Or.inl ⟨e, rfl, rfl⟩⟩
  · cases hemit
    exact ⟨htree, Or.inr ⟨rfl, rfl⟩⟩

theorem jailResolve_inv {jail : PathJail} {relPath : Str} {v : Except Exc Location}
    (h : Runs (jailResolve E jail relPath) w evs v w') :
    SameTree w w' ∧ evs = [] ∧
      ((∃ p, v = .ok p ∧ jail.resolve w.fs E.fuel E.lstatError relPath = some (.ok p)) ∨
        (∃ err, v = .error (.jailbreak err) ∧
          jail.resolve w.fs E.fuel E.lstatError relPath = some (.error (.jailbreak err))) ∨
        ∃ e, v = .error e ∧ e.External) := by
  rcases bind_tick_inv h with ⟨e, rfl, hext, rfl, htree⟩ | ⟨w₁, htree, -, hrest⟩
  · exact ⟨htree, rfl, Or.inr (Or.inr ⟨e, rfl, hext⟩)⟩
  have hmatch := hrest.bind_look_inv
  rw [show w₁.fs = w.fs from htree] at hmatch
  split at hmatch
  · obtain ⟨rfl, rfl, rfl⟩ := hmatch.raise_inv
    exact ⟨htree, rfl, Or.inr (Or.inr ⟨_, rfl, trivial⟩)⟩
  · rename_i err heq
    obtain ⟨rfl, rfl, rfl⟩ := hmatch.raise_inv
    exact ⟨htree, rfl, Or.inr (Or.inl ⟨err, rfl, heq⟩)⟩
  · -- `lstat` was refused
    obtain ⟨rfl, rfl, rfl⟩ := hmatch.raise_inv
    exact ⟨htree, rfl, Or.inr (Or.inr ⟨_, rfl, trivial⟩)⟩
  · rename_i p heq
    obtain ⟨rfl, rfl, rfl⟩ := hmatch.pure_inv
    exact ⟨htree, rfl, Or.inl ⟨p, rfl, heq⟩⟩

/-- A system call fails and leaves the tree as it is, or has its effect and leaves its event. -/
theorem fsCall_inv {op : FsOp} {p : Location} {call : Tree → Except Errno Tree}
    {v : Except Exc Unit} (h : Runs (fsCall E op p call) w evs v w') :
    (∃ e, v = .error e ∧ e.External ∧ evs = [] ∧ SameTree w w') ∨
      (v = .ok () ∧ evs = [.touched op p] ∧ call w.fs = .ok w'.fs) := by
  rcases bind_tick_inv h with hfail | ⟨w₁, htree, -, hrest⟩
  · exact Or.inl hfail
  have hmatch := hrest.bind_look_inv
  rw [show w₁.fs = w.fs from htree] at hmatch
  split at hmatch
  · obtain ⟨rfl, rfl, rfl⟩ := hmatch.raise_inv
    exact Or.inl ⟨_, rfl, trivial, rfl, htree⟩
  · rename_i t hcall
    have hemit := hmatch.bind_change_inv
    cases hemit
    exact Or.inr ⟨rfl, rfl, hcall⟩

theorem readBytes_inv {p : Location} {v : Except Exc Bytes} (h : Runs (readBytes E p) w evs v w') :
    SameTree w w' ∧ evs = [] ∧
      ((∃ f, v = .ok f.content ∧ w.fs.node p = some (.file f)) ∨
        ∃ e, v = .error e ∧ e.External) := by
  rcases bind_tick_inv h with ⟨e, rfl, hext, rfl, htree⟩ | ⟨w₁, htree, -, hrest⟩
  · exact ⟨htree, rfl, Or.inr ⟨e, rfl, hext⟩⟩
  have hmatch := hrest.bind_look_inv
  rw [show w₁.fs = w.fs from htree] at hmatch
  split at hmatch
  · rename_i f hnode
    obtain ⟨rfl, rfl, rfl⟩ := hmatch.pure_inv
    exact ⟨htree, rfl, Or.inl ⟨f, rfl, hnode⟩⟩
  · obtain ⟨rfl, rfl, rfl⟩ := hmatch.raise_inv
    exact ⟨htree, rfl, Or.inr ⟨_, rfl, trivial⟩⟩
  · obtain ⟨rfl, rfl, rfl⟩ := hmatch.raise_inv
    exact ⟨htree, rfl, Or.inr ⟨_, rfl, trivial⟩⟩
  · -- nothing is there, or nothing can be
    split at hmatch
    · obtain ⟨rfl, rfl, rfl⟩ := hmatch.raise_inv
      exact ⟨htree, rfl, Or.inr ⟨_, rfl, trivial⟩⟩
    · obtain ⟨rfl, rfl, rfl⟩ := hmatch.raise_inv
      exact ⟨htree, rfl, Or.inr ⟨_, rfl, trivial⟩⟩

/-- Removing a file that may be missing: the call fails and leaves the tree as it is, or there is
nothing to remove, or the entry is removed. -/
theorem unlinkMissingOk_cases {p : Location} {v : Except Exc Unit}
    (h : Runs (unlinkMissingOk E p) w evs v w') :
    (∃ e, v = .error e ∧ e.External ∧ evs = [] ∧ SameTree w w') ∨
      (v = .ok () ∧ evs = [] ∧ w.fs.node p = none ∧ SameTree w w') ∨
      (v = .ok () ∧ evs = [.touched .unlink p] ∧ w.fs.unlink p = .ok w'.fs) := by
  rcases bind_tick_inv h with hfail | ⟨w₁, htree, -, hrest⟩
  · exact Or.inl hfail
  have hmatch := hrest.bind_look_inv
  rw [show w₁.fs = w.fs from htree] at hmatch
  split at hmatch
  · rename_i t hunlink
    have hemit := hmatch.bind_change_inv
    cases hemit
    exact Or.inr (Or.inr ⟨rfl, rfl, hunlink⟩)
  · rename_i hmissing
    obtain ⟨rfl, rfl, rfl⟩ := hmatch.pure_inv
    exact Or.inr (Or.inl ⟨rfl, rfl, Tree.node_of_unlink_enoent hmissing, htree⟩)
  · obtain ⟨rfl, rfl, rfl⟩ := hmatch.raise_inv
    exact Or.inl ⟨_, rfl, trivial, rfl, htree⟩

/-- On success nothing is there any more, and nothing else has changed. -/
theorem unlinkMissingOk_inv {p : Location} {v : Except Exc Unit}
    (h : Runs (unlinkMissingOk E p) w evs v w') :
    (∀ o ∈ evs, o = .touched .unlink p) ∧
      ((∃ e, v = .error e ∧ e.External) ∨
        (v = .ok () ∧ ∀ q, w'.fs.node q = if q = p then none else w.fs.node q)) := by
  rcases unlinkMissingOk_cases h with ⟨e, rfl, hext, rfl, -⟩ | ⟨rfl, rfl, hnone, htree⟩ |
    ⟨rfl, rfl, hunlink⟩
  · exact ⟨by simp, Or.inl ⟨e, rfl, hext⟩⟩
  · refine ⟨by simp, Or.inr ⟨rfl, fun q => ?_⟩⟩
    rw [show w'.fs = w.fs from htree]
    by_cases hq : q = p
    · rw [if_pos hq, hq]
      exact hnone
    · rw [if_neg hq]
  · exact ⟨by simp, Or.inr ⟨rfl, (Tree.unlink_ok hunlink).2.2⟩⟩

/-- Nothing changed in the tree but that directories were added. -/
def DirsAdded (w w' : World) : Prop :=
  ∀ q, w'.fs.node q = w.fs.node q ∨ (w.fs.node q = none ∧ w'.fs.node q = some .dir)

theorem SameTree.dirsAdded (h : SameTree w w') : DirsAdded w w' := by
  intro q
  rw [show w'.fs = w.fs from h]
  exact Or.inl rfl

theorem DirsAdded.trans {w₁ : World} (h : DirsAdded w w₁) (h' : DirsAdded w₁ w') :
    DirsAdded w w' := by
  intro q
  rcases h q with heq | ⟨hnone, hdir⟩
  · rw [← heq]
    exact h' q
  · -- a directory that was added stays
    rcases h' q with heq' | ⟨hnone', -⟩
    · exact Or.inr ⟨hnone, heq'.trans hdir⟩
    · rw [hdir] at hnone'
      cases hnone'

theorem DirsAdded.sameFiles (h : DirsAdded w w') : SameFiles w w' := by
  intro q
  rcases h q with heq | ⟨hnone, hdir⟩
  · rw [Tree.file, Tree.file, heq]
  · rw [Tree.file, Tree.file, hnone, hdir]

/-- A call that did not fail has had its effect. -/
theorem fsCall_ok {op : FsOp} {p : Location} {call : Tree → Except Errno Tree}
    (h : Runs (fsCall E op p call) w evs (.ok ()) w') :
    evs = [.touched op p] ∧ call w.fs = .ok w'.fs := by
  rcases fsCall_inv h with ⟨e, hv, -⟩ | ⟨-, hevs, hcall⟩
  · cases hv
  · exact ⟨hevs, hcall⟩

end Inversion

/-! ### Frames -/

/-- The frame of the calls that make directories. -/
def mkdirFrame : Frame World Event Exc where
  change := DirsAdded
  refl _ _ := Or.inl rfl
  trans _ _ _ := DirsAdded.trans
  event o := ∃ q, o = .touched .mkdir q
  exception := Exc.External

/-- The frame of the calls that work on the entry at `p`, an exception of the writer's own
included. -/
def entryFrame (p : Location) : Frame World Event Exc where
  change w w' := ∀ q, q ≠ p → w'.fs.node q = w.fs.node q
  refl _ _ _ := rfl
  trans _ _ _ h h' q hq := (h' q hq).trans (h q hq)
  event o := ∃ op, o = .touched op p
  exception e := e.External ∨ ∃ text, e = .write text

/-- The frame of whatever changes the file system and has no other effect. -/
def touchFrame : Frame World Event Exc where
  change _ _ := True
  refl _ := trivial
  trans _ _ _ _ _ := trivial
  event o := ∃ op p, o = .touched op p
  exception _ := True

section Frames

variable {E : Env}

/-- A system call is within a frame when its effect is. -/
theorem allows_fsCall {F : Frame World Event Exc} {op : FsOp} {p : Location}
    {call : Tree → Except Errno Tree} (hrefl : ∀ w w', SameTree w w' → F.change w w')
    (hexc : ∀ e, e.External → F.exception e) (hevent : F.event (.touched op p))
    (hcall : ∀ w w', call w.fs = .ok w'.fs → F.change w w') : F.Allows (fsCall E op p call) := by
  intro w evs v w' h
  -- a call that fails changes nothing
  rcases fsCall_inv h with ⟨e, rfl, hext, rfl, htree⟩ | ⟨rfl, rfl, hok⟩
  · refine ⟨hrefl w w' htree, by simp, ?_⟩
    rintro e' ⟨⟩
    exact hexc e hext
  · exact ⟨hcall w w' hok, by simpa using hevent, by simp⟩

theorem mkdirFrame_mkdir (p : Location) :
    mkdirFrame.Allows (fsCall E .mkdir p fun t => E.mkdir t p) := by
  refine allows_fsCall (fun w w' => SameTree.dirsAdded) (fun e he => he) ⟨p, rfl⟩ ?_
  intro w w' hmkdir q
  obtain ⟨hnone, hnode⟩ := Tree.mkdir_ok (Env.mkdir_ok hmkdir)
  rw [hnode q]
  by_cases hq : q = p
  · subst hq
    exact Or.inr ⟨hnone, if_pos rfl⟩
  · exact Or.inl (if_neg hq)

/-- `mkdir(parents=True, exist_ok=True)` is within a frame when each of its calls is. -/
theorem allows_mkdirParents {F : Frame World Event Exc} (hexc : ∀ e, e.External → F.exception e)
    (hmkdir : ∀ q, F.Allows (fsCall E .mkdir q fun t => E.mkdir t q)) (p : List Str) :
    F.Allows (mkdirParents E p) := by
  -- after a failed `mkdir`, a directory that is there already will do
  have hexistOk : ∀ q errno text, F.Allows
      (do if ← isDir q then pure () else Eff.raise (.os errno text) : Io Unit) := by
    intro q errno text
    refine Frame.Allows.bind (Frame.Allows.look fun _ => Frame.allows_pure _) fun b => ?_
    split
    · exact Frame.allows_pure ()
    · exact Frame.allows_raise (hexc _ trivial)
  induction p with
  | nil => exact Frame.allows_pure ()
  | cons name up ih =>
    unfold mkdirParents
    refine (hmkdir _).bind_attempt fun r hr => ?_
    split
    · exact Frame.allows_pure ()
    · -- the parent is missing: it is made, and the directory is tried again
      refine ih.bind fun _ => (hmkdir _).bind_attempt fun r' hr' => ?_
      split
      · exact Frame.allows_pure ()
      · exact Frame.allows_raise (hexc _ trivial)
      · exact hexistOk _ _ _
      · exact Frame.allows_raise (hr' _ rfl)
    · exact hexistOk _ _ _
    · exact Frame.allows_raise (hr _ rfl)

/-- `mkdir(parents=True, exist_ok=True)` adds directories and does nothing else. -/
theorem mkdirFrame_mkdirParents (p : List Str) : mkdirFrame.Allows (mkdirParents E p) :=
  allows_mkdirParents (fun _ he => he) mkdirFrame_mkdir p

theorem entryFrame_tick (p : Location) : (entryFrame p).Allows (tick E) := by
  intro w evs v w' h
  obtain ⟨rfl, rfl, hv⟩ := tick_inv h
  refine ⟨fun q _ => rfl, by simp, ?_⟩
  rintro e rfl
  rcases hv with ⟨hok, -⟩ | ⟨fault, hfault, -⟩
  · cases hok
  · cases hfault
    exact Or.inl fault.external

/-- A system call that changes the entry at `p` alone. -/
theorem entryFrame_fsCall {p : Location} {op : FsOp} {call : Tree → Except Errno Tree}
    (hcall : ∀ t t' : Tree, call t = .ok t' → ∀ q, q ≠ p → t'.node q = t.node q) :
    (entryFrame p).Allows (fsCall E op p call) := by
  refine allows_fsCall ?_ (fun e he => Or.inl he) ⟨op, rfl⟩ fun w w' hok => hcall _ _ hok
  intro w w' htree q _
  rw [show w'.fs = w.fs from htree]

theorem entryFrame_modify {p : Location} {op : FsOp} {g : FileData → FileData} :
    (entryFrame p).Allows (fsCall E op p fun t => t.modify p g) := by
  refine entryFrame_fsCall fun t t' hok q hq => ?_
  obtain ⟨f, -, hnode⟩ := Tree.modify_ok hok
  rw [hnode q, if_neg hq]

end Frames

end Chiralite
