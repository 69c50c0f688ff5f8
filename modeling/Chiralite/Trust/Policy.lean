import Chiralite.Framework.Dict
import Chiralite.Protocol.Messages

/-!
# Owners and modes

How the server turns the owner names and the mode bits of a wire entry into ids and bits of its
own: `resolve_uid` and `resolve_gid` of `trust/policy.py`, and `sanitize_mode`, `lookup_uid` and
`lookup_gid` of `fs/permissions.py`.

The user and the group functions of either file differ in a few words and in the database they
ask. `IdKind` holds the words; each function of the source is the common one at its own kind.
The two files keep apart here as they do in the source: `lookup_uid` asks the database for the
name it is given, with no policy in between.

A resolution checks the name that comes in against the deny lists, and not the account that the
policy sends it to (`resolveName_eq_ok_iff`); `deny_lists_hold_iff` says when that makes a
difference.
-/

namespace Chiralite

open Py

/-- The local account databases: `pwd.getpwnam(name).pw_uid` and `grp.getgrnam(name).gr_gid`,
`none` for `KeyError`. -/
structure Accounts where
  getpwnam : Str → Option Int
  getgrnam : Str → Option Int

/-- `OpType`. -/
inductive OpType where
  | read
  | write
  | delete
  | rename
  deriving DecidableEq

/-- What tells the user functions from the group functions. -/
structure IdKind where
  /-- The hardcoded deny list. -/
  denied : List Str
  /-- `uid` or `gid`. -/
  idWord : Str
  /-- `user` or `group`. -/
  accountWord : Str

/-- `_DENIED_UID_NAMES` and the texts of the user functions. -/
def uidKind : IdKind where
  denied := [lit "root", lit "daemon", lit "bin", lit "sys", lit "www-data", lit "sudo",
    lit "wheel", lit "shadow", lit "0"]
  idWord := lit "uid"
  accountWord := lit "user"

/-- `_DENIED_GID_NAMES` and the texts of the group functions. -/
def gidKind : IdKind where
  denied := [lit "root", lit "daemon", lit "bin", lit "sys", lit "www-data", lit "sudo",
    lit "wheel", lit "shadow", lit "0"]
  idWord := lit "gid"
  accountWord := lit "group"

/-- `UidPolicy` and `GidPolicy`. -/
structure IdPolicy where
  map : Dict Str Str := Dict.empty
  default : Str
  deny : List Str := []

/-! ### `trust/policy.py` -/

section Policy

variable (reprStr : Str → Str) (kind : IdKind)

/-- `_check_denied_uid`, `_check_denied_gid`: the text of the `SecurityError`, or nothing. -/
def checkDenied (name : Str) (extraDeny : List Str) : Except Str Unit :=
  if name ∈ kind.denied ∨ name ∈ extraDeny then
    .error (kind.idWord ++ lit " name denied: " ++ reprStr name)
  else .ok ()

/-- `_lookup_uid_safe`, `_lookup_gid_safe`. -/
def lookupSafe (database : Str → Option Int) (name : Str) : Except Str Int :=
  match database name with
  | none => .error (lit "unknown " ++ kind.accountWord ++ lit ": " ++ reprStr name)
  | some id =>
    if id = 0 then
      .error (lit "resolved " ++ kind.idWord ++ lit " 0 is forbidden (" ++ kind.accountWord ++
        lit " " ++ reprStr name ++ lit ")")
    else .ok id

/-- The common body of `resolve_uid` and `resolve_gid`. -/
def resolveName (database : Str → Option Int) (name : Str) (policy : IdPolicy) :
    Except Str Int :=
  match checkDenied reprStr kind name policy.deny with
  | .error text => .error text
  | .ok () =>
    let localName := (policy.map.get? name).getD policy.default
    lookupSafe reprStr kind database localName

end Policy

/-- `resolve_uid`. -/
def resolveUid (reprStr : Str → Str) (accounts : Accounts) (name : Str) (policy : IdPolicy) :
    Except Str Int :=
  resolveName reprStr uidKind accounts.getpwnam name policy

/-- `resolve_gid`. -/
def resolveGid (reprStr : Str → Str) (accounts : Accounts) (name : Str) (policy : IdPolicy) :
    Except Str Int :=
  resolveName reprStr gidKind accounts.getgrnam name policy

/-! ### The deny lists -/

section DenyLists

variable (kind : IdKind) (policy : IdPolicy)

/-- The local account that a name is resolved through: its map entry, else the default. -/
def IdPolicy.localName (name : Str) : Str := (policy.map.get? name).getD policy.default

/-- The name is in the hardcoded deny list or in that of the policy. -/
def Denied (name : Str) : Prop := name ∈ kind.denied ∨ name ∈ policy.deny

/-- **The deny lists hold** for a resolution: the id it returns is not 0, and neither the name that
came in nor the account it was resolved through is denied. -/
def DenyListsHold (name : Str) (r : Except Str Int) : Prop :=
  ∀ id, r = .ok id →
    id ≠ 0 ∧ ¬ Denied kind policy name ∧ ¬ Denied kind policy (policy.localName name)

end DenyLists

section DenyLists

variable {reprStr : Str → Str} {kind : IdKind} {database : Str → Option Int} {name : Str}
  {policy : IdPolicy}

theorem lookupSafe_eq_ok_iff {id : Int} :
    lookupSafe reprStr kind database name = .ok id ↔ database name = some id ∧ id ≠ 0 := by
  unfold lookupSafe
  cases hname : database name with
  | none => simp
  | some id' =>
    dsimp only
    split
    · rename_i hzero
      subst hzero
      simp only [reduceCtorEq, Option.some.injEq, ne_eq, false_iff, not_and, not_not]
      exact fun h => h.symm
    · rename_i hne
      simp only [Except.ok.injEq, Option.some.injEq]
      exact ⟨fun h => ⟨h, h ▸ hne⟩, fun h => h.1⟩

/-- **When a resolution returns.** The account that the name is resolved through is looked up, and
never checked. -/
theorem resolveName_eq_ok_iff {id : Int} :
    resolveName reprStr kind database name policy = .ok id ↔
      ¬ Denied kind policy name ∧ database (policy.localName name) = some id ∧ id ≠ 0 := by
  unfold resolveName checkDenied
  by_cases hdenied : Denied kind policy name
  · have hcheck : name ∈ kind.denied ∨ name ∈ policy.deny := hdenied
    simp [hcheck, hdenied]
  · have hcheck : ¬ (name ∈ kind.denied ∨ name ∈ policy.deny) := hdenied
    rw [if_neg hcheck]
    exact lookupSafe_eq_ok_iff.trans (and_iff_right hdenied).symm

/-- A resolution through a denied account is caught by another check: the name that came in is
denied as well, or the database does not have the account, or has it with id 0. -/
def CaughtOtherwise (kind : IdKind) (database : Str → Option Int) (policy : IdPolicy)
    (name : Str) : Prop :=
  Denied kind policy name ∨ database (policy.localName name) = none ∨
    database (policy.localName name) = some 0

theorem denyListsHold_resolveName_iff :
    DenyListsHold kind policy name (resolveName reprStr kind database name policy) ↔
      (Denied kind policy (policy.localName name) → CaughtOtherwise kind database policy name) := by
  constructor
  · intro hhold hlocal
    by_contra hcaught
    obtain ⟨hname, hsome, hzero⟩ : ¬ Denied kind policy name ∧
        database (policy.localName name) ≠ none ∧ database (policy.localName name) ≠ some 0 := by
      simpa only [CaughtOtherwise, not_or] using hcaught
    -- nothing else stands in the way, so that the id of the denied account is returned
    obtain ⟨id, hid⟩ := Option.ne_none_iff_exists'.mp hsome
    have hne : id ≠ 0 := fun h => hzero (h ▸ hid)
    have hok : resolveName reprStr kind database name policy = .ok id :=
      resolveName_eq_ok_iff.mpr ⟨hname, hid, hne⟩
    exact (hhold id hok).2.2 hlocal
  · intro hcaught id hok
    obtain ⟨hname, hid, hne⟩ := resolveName_eq_ok_iff.mp hok
    refine ⟨hne, hname, fun hlocal => ?_⟩
    rcases hcaught hlocal with hdenied | hnone | hzero
    · exact hname hdenied
    · rw [hid] at hnone
      cases hnone
    · rw [hid] at hzero
      exact hne (Option.some.inj hzero)

end DenyLists

/-- **When the deny lists hold.** For every account database, policy and incoming name: unless the
policy sends the name to a denied account, or another check catches that. -/
theorem deny_lists_hold_iff (reprStr : Str → Str) (accounts : Accounts) (policy : IdPolicy)
    (name : Str) :
    (DenyListsHold uidKind policy name (resolveUid reprStr accounts name policy) ↔
      (Denied uidKind policy (policy.localName name) →
        CaughtOtherwise uidKind accounts.getpwnam policy name)) ∧
    (DenyListsHold gidKind policy name (resolveGid reprStr accounts name policy) ↔
      (Denied gidKind policy (policy.localName name) →
        CaughtOtherwise gidKind accounts.getgrnam policy name)) :=
  ⟨denyListsHold_resolveName_iff, denyListsHold_resolveName_iff⟩

/-- A policy that maps `fm` to the account `daemon`. -/
def daemonPolicy : IdPolicy where
  map := Dict.empty.set (lit "fm") (lit "daemon")
  default := lit "nobody"

/-- A host on which `daemon` has id 1. -/
def daemonAccounts : Accounts where
  getpwnam name := if name = lit "daemon" then some 1 else none
  getgrnam name := if name = lit "daemon" then some 1 else none

/-- `resolve_uid` returns the id of `daemon`, which is in the hardcoded deny list. -/
theorem mapped_to_daemon :
    resolveUid id daemonAccounts (lit "fm") daemonPolicy = .ok 1 ∧
      daemonPolicy.localName (lit "fm") = lit "daemon" ∧ lit "daemon" ∈ uidKind.denied ∧
      ¬ DenyListsHold uidKind daemonPolicy (lit "fm")
        (resolveUid id daemonAccounts (lit "fm") daemonPolicy) := by
  have hok : resolveUid id daemonAccounts (lit "fm") daemonPolicy = .ok 1 := by decide
  have hlocal : daemonPolicy.localName (lit "fm") = lit "daemon" := by decide
  have hdenied : lit "daemon" ∈ uidKind.denied := by decide
  refine ⟨hok, hlocal, hdenied, fun hhold => (hhold 1 hok).2.2 ?_⟩
  rw [hlocal]
  exact Or.inl hdenied

/-! ### `fs/permissions.py` -/

/-- `FORBIDDEN_BITS`: setuid, setgid, sticky. -/
def forbiddenBits : BitVec 12 := 0o7000

/-- `MAX_FILE_MODE`. -/
def maxFileMode : BitVec 12 := 0o644

/-- `MAX_DIR_MODE`. -/
def maxDirMode : BitVec 12 := 0o755

/-- `SERVER_UMASK`. -/
def serverUmask : BitVec 12 := 0o022

/-- `sanitize_mode`. The ceilings have twelve bits, so that no higher bit of `raw` can come
through. -/
def sanitizeMode (raw : Int) (isDir : Bool) : Nat :=
  let mode := BitVec.ofInt 12 raw &&& ~~~forbiddenBits
  let ceiling := if isDir then maxDirMode else maxFileMode
  (mode &&& ceiling &&& ~~~serverUmask).toNat

/-- The common body of `lookup_uid` and `lookup_gid`: an id, or the text of the
`UnknownOwnerError`. -/
def lookupName (reprStr : Str → Str) (kind : IdKind) (database : Str → Option Int) (name : Str) :
    Except Str Int :=
  match database name with
  | none => .error (lit "unknown " ++ kind.accountWord ++ lit ": " ++ reprStr name)
  | some id => .ok id

/-- `lookup_uid`. -/
def lookupUid (reprStr : Str → Str) (accounts : Accounts) (name : Str) : Except Str Int :=
  lookupName reprStr uidKind accounts.getpwnam name

/-- `lookup_gid`. -/
def lookupGid (reprStr : Str → Str) (accounts : Accounts) (name : Str) : Except Str Int :=
  lookupName reprStr gidKind accounts.getgrnam name

end Chiralite
