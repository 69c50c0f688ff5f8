import Chiralite.Framework.Json

/-!
# Wire messages

The message models of `protocol/messages.py`: one structure a message type, their union
`AnyMsg`, and the validators that `parse_json` runs. A structure holds whatever its fields
hold; `Valid` is what the constrained field types and the `field_validator` and
`model_validator` methods check. The two are kept apart because `model_copy(update=…)`
builds entries without validating them, so an invalid entry does exist in the program; every
message that comes out of `parse_json` is valid.

Each validator answers with the text of the `ValueError` it raises.
-/

namespace Chiralite

open Py

/-- A byte string. -/
abbrev Bytes := List UInt8

/-- A UUID, by its 128 bits. -/
abbrev Uuid := Fin (2 ^ 128)

instance neZero_uuid : NeZero (2 ^ 128) := ⟨by decide⟩

instance lawfulBEq_uuid : LawfulBEq Uuid := inferInstance

/-- `str(uuid)`. -/
def uuidStr (u : Uuid) : Str :=
  let hex := (List.range 32).map fun i => Json.hexDigit (u.val / 16 ^ (31 - i) % 16)
  hex.take 8 ++ lit "-" ++ (hex.drop 8).take 4 ++ lit "-" ++ (hex.drop 12).take 4 ++ lit "-" ++
    (hex.drop 16).take 4 ++ lit "-" ++ hex.drop 20

/-- The outcome of a validator: `ValueError` with its text, or nothing. -/
abbrev Check := Except Str Unit

/-- A validator accepts. -/
def Check.Ok (c : Check) : Prop := c = .ok ()

instance (c : Check) : Decidable c.Ok :=
  match c with
  | .ok () => isTrue rfl
  | .error _ => isFalse (by simp [Check.Ok])

/-! ### Constrained field types -/

/-- `RapidHashInt`: `[0, 2^64 - 1]`. -/
def RapidHashInt (n : Int) : Prop := 0 ≤ n ∧ n ≤ 2 ^ 64 - 1

/-- `MtimeNsInt`: `[0, 999_999_999]`. -/
def MtimeNsInt (n : Int) : Prop := 0 ≤ n ∧ n ≤ 999999999

/-- `FileModeInt`: `[0, 0o7777]`. -/
def FileModeInt (n : Int) : Prop := 0 ≤ n ∧ n ≤ 0o7777

/-- `FileSizeInt`: non-negative. -/
def FileSizeInt (n : Int) : Prop := 0 ≤ n

instance (n : Int) : Decidable (RapidHashInt n) := inferInstanceAs (Decidable (_ ∧ _))
instance (n : Int) : Decidable (MtimeNsInt n) := inferInstanceAs (Decidable (_ ∧ _))
instance (n : Int) : Decidable (FileModeInt n) := inferInstanceAs (Decidable (_ ∧ _))
instance (n : Int) : Decidable (FileSizeInt n) := inferInstanceAs (Decidable (0 ≤ n))

/-- The path separator. -/
def slash : CodePoint := 0x2f

/-- The parent component `..`. -/
def dotdot : Str := [0x2e, 0x2e]

/-- `_validate_relative_path`. -/
def validateRelativePath (v : Str) : Check :=
  if v = [] then .error (lit "path must not be empty")
  else if (0 : CodePoint) ∈ v then .error (lit "null byte in path")
  else if v.head? = some slash then .error (lit "absolute path not allowed")
  else if dotdot ∈ v.splitOn slash then
    .error (lit "path traversal component (..) not allowed")
  else .ok ()

/-- **What a wire path is**: not empty, without a null byte, not absolute, and without a `..`
component. -/
theorem validateRelativePath_ok_iff {v : Str} : (validateRelativePath v).Ok ↔
    v ≠ [] ∧ (0 : CodePoint) ∉ v ∧ v.head? ≠ some slash ∧ dotdot ∉ v.splitOn slash := by
  unfold validateRelativePath Check.Ok
  by_cases h1 : v = []
  · simp [h1]
  rw [if_neg h1]
  by_cases h2 : (0 : CodePoint) ∈ v
  · simp [h2]
  rw [if_neg h2]
  by_cases h3 : v.head? = some slash
  · simp [h3]
  rw [if_neg h3]
  by_cases h4 : dotdot ∈ v.splitOn slash
  · simp [h4]
  rw [if_neg h4]
  simp [h1, h2, h3, h4]

/-! ### Shared sub-models -/

/-- `FileEntry`. -/
structure FileEntry where
  path : Str
  rapidhash : Int
  size : Int
  mode : Int
  uidName : Str
  gidName : Str
  mtimeS : Int
  mtimeNs : Int
  isSymlink : Bool := false
  symlinkTarget : Option Str := none
  isFull : Bool
  deltaBaseRapidhash : Option Int := none
  deriving DecidableEq

/-- `validate_name_no_null`. -/
def validateNameNoNull (v : Str) : Check :=
  if (0 : CodePoint) ∈ v then .error (lit "null byte in uid_name/gid_name")
  else if v = [] then .error (lit "uid_name/gid_name must not be empty")
  else .ok ()

/-- `validate_symlink_target`. -/
def validateSymlinkTarget : Option Str → Check
  | none => .ok ()
  | some v => validateRelativePath v

namespace FileEntry

/-- `validate_symlink_consistency`. -/
def validateSymlinkConsistency (e : FileEntry) : Check :=
  if e.isSymlink ∧ e.symlinkTarget = none then
    .error (lit "symlink_target is required when is_symlink=True")
  else if ¬ e.isSymlink ∧ e.symlinkTarget ≠ none then
    .error (lit "symlink_target must be None when is_symlink=False")
  else .ok ()

/-- `validate_delta_consistency`. -/
def validateDeltaConsistency (e : FileEntry) : Check :=
  if e.isFull ∧ e.deltaBaseRapidhash ≠ none then
    .error (lit "delta_base_rapidhash must be None for a full transfer")
  else if ¬ e.isFull ∧ e.deltaBaseRapidhash = none then
    .error (lit "delta_base_rapidhash is required for a delta transfer")
  else .ok ()

/-- The entry passes every validator of the model. -/
structure Valid (e : FileEntry) : Prop where
  path : (validateRelativePath e.path).Ok
  rapidhash : RapidHashInt e.rapidhash
  size : FileSizeInt e.size
  mode : FileModeInt e.mode
  uidName : (validateNameNoNull e.uidName).Ok
  gidName : (validateNameNoNull e.gidName).Ok
  mtimeNs : MtimeNsInt e.mtimeNs
  symlinkTarget : (validateSymlinkTarget e.symlinkTarget).Ok
  deltaBase : ∀ h, e.deltaBaseRapidhash = some h → RapidHashInt h
  symlinkConsistency : e.validateSymlinkConsistency.Ok
  deltaConsistency : e.validateDeltaConsistency.Ok

/-- The delta validator in one line: an entry is full exactly when it names no base. -/
theorem validateDeltaConsistency_ok_iff {e : FileEntry} :
    e.validateDeltaConsistency.Ok ↔ (e.isFull = true ↔ e.deltaBaseRapidhash = none) := by
  unfold validateDeltaConsistency Check.Ok
  cases e.isFull <;> cases e.deltaBaseRapidhash <;> simp

end FileEntry

/-- `FileEntrySnapshot`. -/
structure FileEntrySnapshot where
  rapidhash : Int
  size : Int
  mode : Int
  uidName : Str
  gidName : Str
  mtimeS : Int
  mtimeNs : Int
  recvTsNs : Int
  deleted : Bool := false
  deriving DecidableEq

/-- The snapshot passes the constraints of its fields. -/
structure FileEntrySnapshot.Valid (e : FileEntrySnapshot) : Prop where
  rapidhash : RapidHashInt e.rapidhash
  size : FileSizeInt e.size
  mode : FileModeInt e.mode
  mtimeNs : MtimeNsInt e.mtimeNs
  recvTsNs : 0 ≤ e.recvTsNs

/-! ### Handshake messages -/

structure HelloMsg where
  clientCertPem : Str
  nonceC : Bytes
  tsNs : Int
  siloId : Uuid
  deriving DecidableEq

structure ChallengeMsg where
  serverCertPem : Str
  nonceS : Bytes
  challenge : Bytes
  deriving DecidableEq

structure ResponseMsg where
  /-- `sign(challenge ‖ nonce_s, client_key)`. -/
  sigC : Bytes
  ecdhPubC : Bytes
  deriving DecidableEq

structure AcceptMsg where
  /-- `sign(challenge ‖ nonce_c, server_key)`. -/
  sigS : Bytes
  ecdhPubS : Bytes
  sessionToken : Bytes
  siloIdAck : Uuid
  deriving DecidableEq

structure AuthErrorMsg where
  reason : Str
  deriving DecidableEq

/-! ### Sync control, file events, transfers -/

structure SyncStateMsg where
  siloId : Uuid
  nodeId : Str
  records : List (Str × FileEntrySnapshot)
  deriving DecidableEq

structure FileWriteMsg where
  transferId : Uuid
  entry : FileEntry
  deriving DecidableEq

structure FileDeleteMsg where
  path : Str
  recvTsNs : Int
  deriving DecidableEq

structure FileRenameMsg where
  oldPath : Str
  newPath : Str
  recvTsNs : Int
  deriving DecidableEq

structure DirCreateMsg where
  path : Str
  mode : Int
  uidName : Str
  gidName : Str
  deriving DecidableEq

structure DirRenameMsg where
  oldPath : Str
  newPath : Str
  deriving DecidableEq

structure TransferBeginMsg where
  transferId : Uuid
  entry : FileEntry
  totalSize : Int
  chunkCount : Int
  deriving DecidableEq

structure TransferChunkMsg where
  transferId : Uuid
  seq : Int
  data : Bytes
  deriving DecidableEq

structure TransferCommitMsg where
  transferId : Uuid
  rapidhash : Int
  deriving DecidableEq

structure TransferAckMsg where
  transferId : Uuid
  scanResult : Str
  deriving DecidableEq

structure TransferNackMsg where
  transferId : Uuid
  reason : Str
  deriving DecidableEq

structure ConflictNotifyMsg where
  path : Str
  siloId : Uuid
  keptRapidhash : Int
  overwrittenRapidhash : Int
  recvTsNs : Int
  deriving DecidableEq

/-- `AnyMsg`, the discriminated union. -/
inductive AnyMsg where
  | hello (m : HelloMsg)
  | challenge (m : ChallengeMsg)
  | response (m : ResponseMsg)
  | accept (m : AcceptMsg)
  | authError (m : AuthErrorMsg)
  | syncRequest
  | syncState (m : SyncStateMsg)
  | blacklistSync (patterns : List Str)
  | fileWrite (m : FileWriteMsg)
  | fileDelete (m : FileDeleteMsg)
  | fileRename (m : FileRenameMsg)
  | dirCreate (m : DirCreateMsg)
  | dirDelete (path : Str)
  | dirRename (m : DirRenameMsg)
  | transferBegin (m : TransferBeginMsg)
  | transferChunk (m : TransferChunkMsg)
  | transferCommit (m : TransferCommitMsg)
  | transferAck (m : TransferAckMsg)
  | transferNack (m : TransferNackMsg)
  | conflictNotify (m : ConflictNotifyMsg)
  | ping (tsNs : Int)
  | pong (tsNs : Int)
  | sessionEnd (reason : Str)
  deriving DecidableEq

/-- `type(msg).__name__`. -/
def AnyMsg.typeName : AnyMsg → Str
  | .hello _ => lit "HelloMsg"
  | .challenge _ => lit "ChallengeMsg"
  | .response _ => lit "ResponseMsg"
  | .accept _ => lit "AcceptMsg"
  | .authError _ => lit "AuthErrorMsg"
  | .syncRequest => lit "SyncRequestMsg"
  | .syncState _ => lit "SyncStateMsg"
  | .blacklistSync _ => lit "BlacklistSyncMsg"
  | .fileWrite _ => lit "FileWriteMsg"
  | .fileDelete _ => lit "FileDeleteMsg"
  | .fileRename _ => lit "FileRenameMsg"
  | .dirCreate _ => lit "DirCreateMsg"
  | .dirDelete _ => lit "DirDeleteMsg"
  | .dirRename _ => lit "DirRenameMsg"
  | .transferBegin _ => lit "TransferBeginMsg"
  | .transferChunk _ => lit "TransferChunkMsg"
  | .transferCommit _ => lit "TransferCommitMsg"
  | .transferAck _ => lit "TransferAckMsg"
  | .transferNack _ => lit "TransferNackMsg"
  | .conflictNotify _ => lit "ConflictNotifyMsg"
  | .ping _ => lit "PingMsg"
  | .pong _ => lit "PongMsg"
  | .sessionEnd _ => lit "SessionEndMsg"

/-- `TransferBeginMsg` passes its validators. -/
structure TransferBeginMsg.Valid (m : TransferBeginMsg) : Prop where
  entry : m.entry.Valid
  totalSize : FileSizeInt m.totalSize
  chunkCount : 1 ≤ m.chunkCount

/-- What `parse_json` guarantees of a message it returns. -/
def AnyMsg.Valid : AnyMsg → Prop
  | .syncState m => ∀ kv ∈ m.records, kv.2.Valid
  | .fileWrite m => m.entry.Valid
  | .fileDelete m => (validateRelativePath m.path).Ok ∧ 0 ≤ m.recvTsNs
  | .fileRename m =>
    (validateRelativePath m.oldPath).Ok ∧ (validateRelativePath m.newPath).Ok ∧ 0 ≤ m.recvTsNs
  | .dirCreate m => (validateRelativePath m.path).Ok ∧ FileModeInt m.mode
  | .dirDelete path => (validateRelativePath path).Ok
  | .dirRename m => (validateRelativePath m.oldPath).Ok ∧ (validateRelativePath m.newPath).Ok
  | .transferBegin m => m.Valid
  | .transferChunk m => 0 ≤ m.seq
  | .transferCommit m => RapidHashInt m.rapidhash
  | .conflictNotify m =>
    (validateRelativePath m.path).Ok ∧ RapidHashInt m.keptRapidhash ∧
      RapidHashInt m.overwrittenRapidhash ∧ 0 ≤ m.recvTsNs
  | .ping tsNs => 0 ≤ tsNs
  | .pong tsNs => 0 ≤ tsNs
  | _ => True

end Chiralite
