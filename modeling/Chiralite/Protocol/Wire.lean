import Chiralite.Framework.Base64
import Chiralite.Framework.Schema
import Chiralite.Protocol.Messages

/-!
# The wire format

`model_dump_json` and `parse_json` of `protocol/messages.py`: every message model by its declared
fields, the union `AnyMsg` by its discriminator `type`, and the text of a message.

What pydantic does beyond the declarations is a parameter (`Pydantic`): how a document becomes a
text and is read again, and the conversions of JSON scalars to `int`, `bool` and `UUID`, which
accept more forms than the one that is written. `WireBytes` is the program's own, with the base64
of the standard library.

`wire_round_trip` says that a valid message is read back as it was; the other direction, that
whatever `parse_json` returns is valid, is `valid_of_parseJson`.
-/

namespace Chiralite

open Py Py.Json

/-! ### The validation library -/

/-- The parts of pydantic that the models do not spell out. -/
structure Pydantic where
  /-- The text of `model_dump_json`, for a document. -/
  render : Value → Str
  /-- The document that `validate_json` reads, `none` where the bytes are not JSON. -/
  read : Bytes → Option Value
  toInt : Value → Option Int
  toBool : Value → Option Bool
  toUuid : Value → Option Uuid
  render_scalar : ∀ {v}, Textual v → Scalar (render v)
  read_render : ∀ {v raw}, Textual v → encode (render v) = some raw → read raw = some v
  toInt_int : ∀ n, toInt (.int n) = some n
  toBool_bool : ∀ b, toBool (.bool b) = some b
  toUuid_str : ∀ u, toUuid (.str (uuidStr u)) = some u

/-! ### Field types -/

theorem isSurrogate_hexDigit (n : Nat) : isSurrogate (hexDigit (n % 16)) = false := by
  have hall : ∀ n, n < 16 → isSurrogate (hexDigit n) = false := by decide
  exact hall _ (Nat.mod_lt n (by decide))

theorem scalar_uuidStr (u : Uuid) : Scalar (uuidStr u) := by
  have hdash : Scalar (lit "-") := by decide
  intro c hc
  simp only [uuidStr, List.mem_append] at hc
  have hc' : c ∈ lit "-" ∨
      c ∈ (List.range 32).map fun i => hexDigit (u.val / 16 ^ (31 - i) % 16) := by
    obtain (((((((h | h) | h) | h) | h) | h) | h) | h) | h := hc
    · exact .inr (List.mem_of_mem_take h)
    · exact .inl h
    · exact .inr (List.mem_of_mem_drop (List.mem_of_mem_take h))
    · exact .inl h
    · exact .inr (List.mem_of_mem_drop (List.mem_of_mem_take h))
    · exact .inl h
    · exact .inr (List.mem_of_mem_drop (List.mem_of_mem_take h))
    · exact .inl h
    · exact .inr (List.mem_of_mem_drop h)
  obtain h | h := hc'
  · exact hdash c h
  · obtain ⟨i, -, rfl⟩ := List.mem_map.mp h
    exact isSurrogate_hexDigit _

/-- `_decode_wirebytes`, on a JSON value. -/
def decodeWirebytes : Value → Option Bytes
  | .str s => Base64.b64decode s
  | _ => none

/-- `WireBytes`. -/
def wireBytes : Codec Bytes where
  dump v := .str (Base64.b64encode v)
  load := decodeWirebytes
  Valid _ := True
  Text _ := True
  load_dump _ := Base64.b64decode_b64encode _
  load_valid _ := trivial
  textual_dump _ := .str (scalar_of_isAscii (Base64.isAscii_b64encode _))

/-- `str` with `_validate_relative_path`. -/
def relativePath : Codec Str := Codec.str.checked fun v => (validateRelativePath v).Ok

/-- `str` with `validate_name_no_null`. -/
def ownerName : Codec Str := Codec.str.checked fun v => (validateNameNoNull v).Ok

/-- `str | None` with `validate_symlink_target`. -/
def symlinkTarget : Codec (Option Str) :=
  (Codec.str.optional nofun).checked fun v => (validateSymlinkTarget v).Ok

namespace Pydantic

variable (Y : Pydantic)

def int : Codec Int where
  dump := .int
  load := Y.toInt
  Valid _ := True
  Text _ := True
  load_dump _ := Y.toInt_int _
  load_valid _ := trivial
  textual_dump _ := .int _

def bool : Codec Bool where
  dump := .bool
  load := Y.toBool
  Valid _ := True
  Text _ := True
  load_dump _ := Y.toBool_bool _
  load_valid _ := trivial
  textual_dump _ := .bool _

def uuid : Codec Uuid where
  dump u := .str (uuidStr u)
  load := Y.toUuid
  Valid _ := True
  Text _ := True
  load_dump _ := Y.toUuid_str _
  load_valid _ := trivial
  textual_dump _ := .str (scalar_uuidStr _)

def rapidHashInt : Codec Int := Y.int.checked RapidHashInt

def mtimeNsInt : Codec Int := Y.int.checked MtimeNsInt

def fileModeInt : Codec Int := Y.int.checked FileModeInt

def fileSizeInt : Codec Int := Y.int.checked FileSizeInt

/-- `int = Field(ge=n)`. -/
def intGe (n : Int) : Codec Int := Y.int.checked (n ≤ ·)

end Pydantic

section Projections

variable {Y : Pydantic}

@[simp] theorem valid_wireBytes {b : Bytes} : wireBytes.Valid b := trivial

@[simp] theorem Pydantic.valid_int {n : Int} : Y.int.Valid n := trivial

@[simp] theorem Pydantic.valid_uuid {u : Uuid} : Y.uuid.Valid u := trivial

@[simp] theorem valid_relativePath {v : Str} :
    relativePath.Valid v ↔ (validateRelativePath v).Ok := and_iff_right trivial

@[simp] theorem Pydantic.valid_rapidHashInt {n : Int} : Y.rapidHashInt.Valid n ↔ RapidHashInt n :=
  and_iff_right trivial

@[simp] theorem Pydantic.valid_fileModeInt {n : Int} : Y.fileModeInt.Valid n ↔ FileModeInt n :=
  and_iff_right trivial

@[simp] theorem Pydantic.valid_intGe {k n : Int} : (Y.intGe k).Valid n ↔ k ≤ n :=
  and_iff_right trivial

end Projections

/-! ### Shared sub-models -/

section Models

variable (Y : Pydantic)

/-- `FileEntry`. -/
def fileEntryFields : Members FileEntry :=
  Members.checked
    (Members.checked
      (Members.equiv
        (.and (.required "path" relativePath) <|
          .and (.required "rapidhash" Y.rapidHashInt) <|
          .and (.required "size" Y.fileSizeInt) <|
          .and (.required "mode" Y.fileModeInt) <|
          .and (.required "uid_name" ownerName) <|
          .and (.required "gid_name" ownerName) <|
          .and (.required "mtime_s" Y.int) <|
          .and (.required "mtime_ns" Y.mtimeNsInt) <|
          .and (.defaulted "is_symlink" Y.bool false trivial) <|
          .and (.defaulted "symlink_target" symlinkTarget none ⟨nofun, rfl⟩) <|
          .and (.required "is_full" Y.bool) <|
          .defaulted "delta_base_rapidhash" (Y.rapidHashInt.optional nofun) none nofun)
        ⟨fun (path, rapidhash, size, mode, uidName, gidName, mtimeS, mtimeNs, isSymlink,
            symlinkTarget, isFull, deltaBaseRapidhash) =>
              ⟨path, rapidhash, size, mode, uidName, gidName, mtimeS, mtimeNs, isSymlink,
                symlinkTarget, isFull, deltaBaseRapidhash⟩,
          fun e => (e.path, e.rapidhash, e.size, e.mode, e.uidName, e.gidName, e.mtimeS, e.mtimeNs,
            e.isSymlink, e.symlinkTarget, e.isFull, e.deltaBaseRapidhash),
          fun _ => rfl, fun _ => rfl⟩)
      fun e => e.validateSymlinkConsistency.Ok)
    fun e => e.validateDeltaConsistency.Ok

def fileEntry : Codec FileEntry :=
  (fileEntryFields Y).codec (of_decide_eq_true rfl) (of_decide_eq_true rfl)

/-- `FileEntrySnapshot`. -/
def fileEntrySnapshotFields : Members FileEntrySnapshot :=
  Members.equiv
    (.and (.required "rapidhash" Y.rapidHashInt) <|
      .and (.required "size" Y.fileSizeInt) <|
      .and (.required "mode" Y.fileModeInt) <|
      .and (.required "uid_name" .str) <|
      .and (.required "gid_name" .str) <|
      .and (.required "mtime_s" Y.int) <|
      .and (.required "mtime_ns" Y.mtimeNsInt) <|
      .and (.required "recv_ts_ns" (Y.intGe 0)) <|
      .defaulted "deleted" Y.bool false trivial)
    ⟨fun (rapidhash, size, mode, uidName, gidName, mtimeS, mtimeNs, recvTsNs, deleted) =>
        ⟨rapidhash, size, mode, uidName, gidName, mtimeS, mtimeNs, recvTsNs, deleted⟩,
      fun e => (e.rapidhash, e.size, e.mode, e.uidName, e.gidName, e.mtimeS, e.mtimeNs,
        e.recvTsNs, e.deleted), fun _ => rfl, fun _ => rfl⟩

def fileEntrySnapshot : Codec FileEntrySnapshot :=
  (fileEntrySnapshotFields Y).codec (of_decide_eq_true rfl) (of_decide_eq_true rfl)

/-! ### Message models -/

def helloMsg : Members HelloMsg :=
  Members.equiv
    (.and (.required "client_cert_pem" .str) <|
      .and (.required "nonce_c" wireBytes) <|
      .and (.required "ts_ns" Y.int) <|
      .required "silo_id" Y.uuid)
    ⟨fun (clientCertPem, nonceC, tsNs, siloId) => ⟨clientCertPem, nonceC, tsNs, siloId⟩,
      fun m => (m.clientCertPem, m.nonceC, m.tsNs, m.siloId), fun _ => rfl, fun _ => rfl⟩

def challengeMsg : Members ChallengeMsg :=
  Members.equiv
    (.and (.required "server_cert_pem" .str) <|
      .and (.required "nonce_s" wireBytes) <|
      .required "challenge" wireBytes)
    ⟨fun (serverCertPem, nonceS, challenge) => ⟨serverCertPem, nonceS, challenge⟩,
      fun m => (m.serverCertPem, m.nonceS, m.challenge), fun _ => rfl, fun _ => rfl⟩

def responseMsg : Members ResponseMsg :=
  Members.equiv
    (.and (.required "sig_c" wireBytes) <| .required "ecdh_pub_c" wireBytes)
    ⟨fun (sigC, ecdhPubC) => ⟨sigC, ecdhPubC⟩,
      fun m => (m.sigC, m.ecdhPubC), fun _ => rfl, fun _ => rfl⟩

def acceptMsg : Members AcceptMsg :=
  Members.equiv
    (.and (.required "sig_s" wireBytes) <|
      .and (.required "ecdh_pub_s" wireBytes) <|
      .and (.required "session_token" wireBytes) <|
      .required "silo_id_ack" Y.uuid)
    ⟨fun (sigS, ecdhPubS, sessionToken, siloIdAck) =>
        ⟨sigS, ecdhPubS, sessionToken, siloIdAck⟩,
      fun m => (m.sigS, m.ecdhPubS, m.sessionToken, m.siloIdAck), fun _ => rfl, fun _ => rfl⟩

def authErrorMsg : Members AuthErrorMsg :=
  Members.equiv (.required "reason" .str)
    ⟨fun reason => ⟨reason⟩,
      fun m => m.reason, fun _ => rfl, fun _ => rfl⟩

def syncRequestMsg : Members Unit := .empty

def syncStateMsg : Members SyncStateMsg :=
  Members.equiv
    (.and (.required "silo_id" Y.uuid) <|
      .and (.required "node_id" .str) <|
      .required "records" (fileEntrySnapshot Y).dict)
    ⟨fun (siloId, nodeId, records) => ⟨siloId, nodeId, records⟩,
      fun m => (m.siloId, m.nodeId, m.records), fun _ => rfl, fun _ => rfl⟩

def blacklistSyncMsg : Members (List Str) := .required "patterns" Codec.str.list

def fileWriteMsg : Members FileWriteMsg :=
  Members.equiv
    (.and (.required "transfer_id" Y.uuid) <| .required "entry" (fileEntry Y))
    ⟨fun (transferId, entry) => ⟨transferId, entry⟩,
      fun m => (m.transferId, m.entry), fun _ => rfl, fun _ => rfl⟩

def fileDeleteMsg : Members FileDeleteMsg :=
  Members.equiv
    (.and (.required "path" relativePath) <| .required "recv_ts_ns" (Y.intGe 0))
    ⟨fun (path, recvTsNs) => ⟨path, recvTsNs⟩,
      fun m => (m.path, m.recvTsNs), fun _ => rfl, fun _ => rfl⟩

def fileRenameMsg : Members FileRenameMsg :=
  Members.equiv
    (.and (.required "old_path" relativePath) <|
      .and (.required "new_path" relativePath) <|
      .required "recv_ts_ns" (Y.intGe 0))
    ⟨fun (oldPath, newPath, recvTsNs) => ⟨oldPath, newPath, recvTsNs⟩,
      fun m => (m.oldPath, m.newPath, m.recvTsNs), fun _ => rfl, fun _ => rfl⟩

def dirCreateMsg : Members DirCreateMsg :=
  Members.equiv
    (.and (.required "path" relativePath) <|
      .and (.required "mode" Y.fileModeInt) <|
      .and (.required "uid_name" .str) <|
      .required "gid_name" .str)
    ⟨fun (path, mode, uidName, gidName) => ⟨path, mode, uidName, gidName⟩,
      fun m => (m.path, m.mode, m.uidName, m.gidName), fun _ => rfl, fun _ => rfl⟩

def dirDeleteMsg : Members Str := .required "path" relativePath

def dirRenameMsg : Members DirRenameMsg :=
  Members.equiv
    (.and (.required "old_path" relativePath) <| .required "new_path" relativePath)
    ⟨fun (oldPath, newPath) => ⟨oldPath, newPath⟩,
      fun m => (m.oldPath, m.newPath), fun _ => rfl, fun _ => rfl⟩

def transferBeginMsg : Members TransferBeginMsg :=
  Members.equiv
    (.and (.required "transfer_id" Y.uuid) <|
      .and (.required "entry" (fileEntry Y)) <|
      .and (.required "total_size" Y.fileSizeInt) <|
      .required "chunk_count" (Y.intGe 1))
    ⟨fun (transferId, entry, totalSize, chunkCount) =>
        ⟨transferId, entry, totalSize, chunkCount⟩,
      fun m => (m.transferId, m.entry, m.totalSize, m.chunkCount), fun _ => rfl, fun _ => rfl⟩

def transferChunkMsg : Members TransferChunkMsg :=
  Members.equiv
    (.and (.required "transfer_id" Y.uuid) <|
      .and (.required "seq" (Y.intGe 0)) <|
      .required "data" wireBytes)
    ⟨fun (transferId, seq, data) => ⟨transferId, seq, data⟩,
      fun m => (m.transferId, m.seq, m.data), fun _ => rfl, fun _ => rfl⟩

def transferCommitMsg : Members TransferCommitMsg :=
  Members.equiv
    (.and (.required "transfer_id" Y.uuid) <| .required "rapidhash" Y.rapidHashInt)
    ⟨fun (transferId, rapidhash) => ⟨transferId, rapidhash⟩,
      fun m => (m.transferId, m.rapidhash), fun _ => rfl, fun _ => rfl⟩

def transferAckMsg : Members TransferAckMsg :=
  Members.equiv
    (.and (.required "transfer_id" Y.uuid) <| .required "scan_result" .str)
    ⟨fun (transferId, scanResult) => ⟨transferId, scanResult⟩,
      fun m => (m.transferId, m.scanResult), fun _ => rfl, fun _ => rfl⟩

def transferNackMsg : Members TransferNackMsg :=
  Members.equiv
    (.and (.required "transfer_id" Y.uuid) <| .required "reason" .str)
    ⟨fun (transferId, reason) => ⟨transferId, reason⟩,
      fun m => (m.transferId, m.reason), fun _ => rfl, fun _ => rfl⟩

def conflictNotifyMsg : Members ConflictNotifyMsg :=
  Members.equiv
    (.and (.required "path" relativePath) <|
      .and (.required "silo_id" Y.uuid) <|
      .and (.required "kept_rapidhash" Y.rapidHashInt) <|
      .and (.required "overwritten_rapidhash" Y.rapidHashInt) <|
      .required "recv_ts_ns" (Y.intGe 0))
    ⟨fun (path, siloId, keptRapidhash, overwrittenRapidhash, recvTsNs) =>
        ⟨path, siloId, keptRapidhash, overwrittenRapidhash, recvTsNs⟩,
      fun m => (m.path, m.siloId, m.keptRapidhash, m.overwrittenRapidhash, m.recvTsNs),
      fun _ => rfl, fun _ => rfl⟩

def pingMsg : Members Int := .required "ts_ns" (Y.intGe 0)

def pongMsg : Members Int := .required "ts_ns" (Y.intGe 0)

def sessionEndMsg : Members Str := .defaulted "reason" .str [] Codec.valid_str

end Models

/-! ### The union -/

/-- `MsgType`. -/
inductive MsgType where
  | hello
  | challenge
  | response
  | accept
  | authError
  | syncRequest
  | syncState
  | blacklistSync
  | fileWrite
  | fileDelete
  | fileRename
  | dirCreate
  | dirDelete
  | dirRename
  | transferBegin
  | transferChunk
  | transferCommit
  | transferAck
  | transferNack
  | conflictNotify
  | ping
  | pong
  | sessionEnd
  deriving DecidableEq

namespace MsgType

def value : MsgType → Str
  | hello => lit "hello"
  | challenge => lit "challenge"
  | response => lit "response"
  | accept => lit "accept"
  | authError => lit "auth_error"
  | syncRequest => lit "sync.request"
  | syncState => lit "sync.state"
  | blacklistSync => lit "blacklist.sync"
  | fileWrite => lit "file.write"
  | fileDelete => lit "file.delete"
  | fileRename => lit "file.rename"
  | dirCreate => lit "dir.create"
  | dirDelete => lit "dir.delete"
  | dirRename => lit "dir.rename"
  | transferBegin => lit "transfer.begin"
  | transferChunk => lit "transfer.chunk"
  | transferCommit => lit "transfer.commit"
  | transferAck => lit "transfer.ack"
  | transferNack => lit "transfer.nack"
  | conflictNotify => lit "conflict.notify"
  | ping => lit "ping"
  | pong => lit "pong"
  | sessionEnd => lit "session.end"

/-- The members of the enumeration. -/
def members : List MsgType :=
  [hello, challenge, response, accept, authError, syncRequest, syncState, blacklistSync, fileWrite,
    fileDelete, fileRename, dirCreate, dirDelete, dirRename, transferBegin, transferChunk,
    transferCommit, transferAck, transferNack, conflictNotify, ping, pong, sessionEnd]

theorem mem_members (t : MsgType) : t ∈ members := by cases t <;> decide

theorem value_injective : Function.Injective value := by
  have hnodup : (members.map value).Nodup := by decide
  intro s t h
  exact List.inj_on_of_nodup_map hnodup (mem_members s) (mem_members t) h

/-- The fields of the model with a given `type`, apart from `type` itself. -/
def Payload : MsgType → Type
  | hello => HelloMsg
  | challenge => ChallengeMsg
  | response => ResponseMsg
  | accept => AcceptMsg
  | authError => AuthErrorMsg
  | syncRequest => Unit
  | syncState => SyncStateMsg
  | blacklistSync => List Str
  | fileWrite => FileWriteMsg
  | fileDelete => FileDeleteMsg
  | fileRename => FileRenameMsg
  | dirCreate => DirCreateMsg
  | dirDelete => Str
  | dirRename => DirRenameMsg
  | transferBegin => TransferBeginMsg
  | transferChunk => TransferChunkMsg
  | transferCommit => TransferCommitMsg
  | transferAck => TransferAckMsg
  | transferNack => TransferNackMsg
  | conflictNotify => ConflictNotifyMsg
  | ping => Int
  | pong => Int
  | sessionEnd => Str

def fields (Y : Pydantic) : (t : MsgType) → Members t.Payload
  | hello => helloMsg Y
  | challenge => challengeMsg
  | response => responseMsg
  | accept => acceptMsg Y
  | authError => authErrorMsg
  | syncRequest => syncRequestMsg
  | syncState => syncStateMsg Y
  | blacklistSync => blacklistSyncMsg
  | fileWrite => fileWriteMsg Y
  | fileDelete => fileDeleteMsg Y
  | fileRename => fileRenameMsg Y
  | dirCreate => dirCreateMsg Y
  | dirDelete => dirDeleteMsg
  | dirRename => dirRenameMsg
  | transferBegin => transferBeginMsg Y
  | transferChunk => transferChunkMsg Y
  | transferCommit => transferCommitMsg Y
  | transferAck => transferAckMsg Y
  | transferNack => transferNackMsg Y
  | conflictNotify => conflictNotifyMsg Y
  | ping => pingMsg Y
  | pong => pongMsg Y
  | sessionEnd => sessionEndMsg

end MsgType

/-- A message is a `type` and the fields of its model. -/
def AnyMsg.equivSigma : AnyMsg ≃ Sigma MsgType.Payload where
  toFun
    | .hello m => ⟨.hello, m⟩
    | .challenge m => ⟨.challenge, m⟩
    | .response m => ⟨.response, m⟩
    | .accept m => ⟨.accept, m⟩
    | .authError m => ⟨.authError, m⟩
    | .syncRequest => ⟨.syncRequest, ()⟩
    | .syncState m => ⟨.syncState, m⟩
    | .blacklistSync patterns => ⟨.blacklistSync, patterns⟩
    | .fileWrite m => ⟨.fileWrite, m⟩
    | .fileDelete m => ⟨.fileDelete, m⟩
    | .fileRename m => ⟨.fileRename, m⟩
    | .dirCreate m => ⟨.dirCreate, m⟩
    | .dirDelete path => ⟨.dirDelete, path⟩
    | .dirRename m => ⟨.dirRename, m⟩
    | .transferBegin m => ⟨.transferBegin, m⟩
    | .transferChunk m => ⟨.transferChunk, m⟩
    | .transferCommit m => ⟨.transferCommit, m⟩
    | .transferAck m => ⟨.transferAck, m⟩
    | .transferNack m => ⟨.transferNack, m⟩
    | .conflictNotify m => ⟨.conflictNotify, m⟩
    | .ping tsNs => ⟨.ping, tsNs⟩
    | .pong tsNs => ⟨.pong, tsNs⟩
    | .sessionEnd reason => ⟨.sessionEnd, reason⟩
  invFun
    | ⟨.hello, m⟩ => .hello m
    | ⟨.challenge, m⟩ => .challenge m
    | ⟨.response, m⟩ => .response m
    | ⟨.accept, m⟩ => .accept m
    | ⟨.authError, m⟩ => .authError m
    | ⟨.syncRequest, _⟩ => .syncRequest
    | ⟨.syncState, m⟩ => .syncState m
    | ⟨.blacklistSync, patterns⟩ => .blacklistSync patterns
    | ⟨.fileWrite, m⟩ => .fileWrite m
    | ⟨.fileDelete, m⟩ => .fileDelete m
    | ⟨.fileRename, m⟩ => .fileRename m
    | ⟨.dirCreate, m⟩ => .dirCreate m
    | ⟨.dirDelete, path⟩ => .dirDelete path
    | ⟨.dirRename, m⟩ => .dirRename m
    | ⟨.transferBegin, m⟩ => .transferBegin m
    | ⟨.transferChunk, m⟩ => .transferChunk m
    | ⟨.transferCommit, m⟩ => .transferCommit m
    | ⟨.transferAck, m⟩ => .transferAck m
    | ⟨.transferNack, m⟩ => .transferNack m
    | ⟨.conflictNotify, m⟩ => .conflictNotify m
    | ⟨.ping, tsNs⟩ => .ping tsNs
    | ⟨.pong, tsNs⟩ => .pong tsNs
    | ⟨.sessionEnd, reason⟩ => .sessionEnd reason
  left_inv m := by cases m <;> rfl
  right_inv p := by
    obtain ⟨t, a⟩ := p
    cases t <;> rfl

/-- The models of `AnyMsg`, with `Field(discriminator="type")`. -/
def messageModels (Y : Pydantic) : Discriminated MsgType.Payload where
  discriminator := lit "type"
  value := MsgType.value
  tags := MsgType.members
  fields := MsgType.fields Y
  complete := MsgType.mem_members
  injective := MsgType.value_injective
  scalar t := by cases t <;> decide
  nodup t := by cases t <;> exact of_decide_eq_true rfl
  names_scalar t := by cases t <;> exact of_decide_eq_true rfl

/-- `AnyMsg`. -/
def anyMsg (Y : Pydantic) : Codec AnyMsg := (messageModels Y).codec.equiv AnyMsg.equivSigma.symm

/-! ### Validity and text -/

/-- The strings of an entry are Unicode text. -/
structure FileEntry.Scalar (e : FileEntry) : Prop where
  path : Py.Scalar e.path
  uidName : Py.Scalar e.uidName
  gidName : Py.Scalar e.gidName
  symlinkTarget : ∀ v, e.symlinkTarget = some v → Py.Scalar v

/-- Every string of the message holds Unicode scalar values. The records of SYNC_STATE are the
items of a `dict`, which has no key twice. -/
def AnyMsg.Scalar : AnyMsg → Prop
  | .hello m => Py.Scalar m.clientCertPem
  | .challenge m => Py.Scalar m.serverCertPem
  | .authError m => Py.Scalar m.reason
  | .syncState m => Py.Scalar m.nodeId ∧ (m.records.map Prod.fst).Nodup ∧
    ∀ kv ∈ m.records, Py.Scalar kv.1 ∧ Py.Scalar kv.2.uidName ∧ Py.Scalar kv.2.gidName
  | .blacklistSync patterns => ∀ p ∈ patterns, Py.Scalar p
  | .fileWrite m => m.entry.Scalar
  | .fileDelete m => Py.Scalar m.path
  | .fileRename m => Py.Scalar m.oldPath ∧ Py.Scalar m.newPath
  | .dirCreate m => Py.Scalar m.path ∧ Py.Scalar m.uidName ∧ Py.Scalar m.gidName
  | .dirDelete path => Py.Scalar path
  | .dirRename m => Py.Scalar m.oldPath ∧ Py.Scalar m.newPath
  | .transferBegin m => m.entry.Scalar
  | .transferAck m => Py.Scalar m.scanResult
  | .transferNack m => Py.Scalar m.reason
  | .conflictNotify m => Py.Scalar m.path
  | .sessionEnd reason => Py.Scalar reason
  | _ => True

section Validity

variable {Y : Pydantic}

@[simp] theorem valid_fileEntry {e : FileEntry} : (fileEntry Y).Valid e ↔ e.Valid := by
  constructor
  · rintro ⟨⟨⟨⟨-, hpath⟩, ⟨-, hrapidhash⟩, ⟨-, hsize⟩, ⟨-, hmode⟩, ⟨-, huid⟩, ⟨-, hgid⟩, -,
      ⟨-, hmtime⟩, -, ⟨-, htarget⟩, -, hbase⟩, hsymlink⟩, hdelta⟩
    exact ⟨hpath, hrapidhash, hsize, hmode, huid, hgid, hmtime, htarget,
      fun n hn => (hbase n hn).2, hsymlink, hdelta⟩
  · intro h
    exact ⟨⟨⟨⟨trivial, h.path⟩, ⟨trivial, h.rapidhash⟩, ⟨trivial, h.size⟩, ⟨trivial, h.mode⟩,
      ⟨trivial, h.uidName⟩, ⟨trivial, h.gidName⟩, trivial, ⟨trivial, h.mtimeNs⟩, trivial,
      ⟨fun _ _ => trivial, h.symlinkTarget⟩, trivial, fun n hn => ⟨trivial, h.deltaBase n hn⟩⟩,
      h.symlinkConsistency⟩, h.deltaConsistency⟩

theorem text_fileEntry {e : FileEntry} (h : e.Scalar) : (fileEntry Y).Text e :=
  ⟨h.path, trivial, trivial, trivial, h.uidName, h.gidName, trivial, trivial, trivial,
    h.symlinkTarget, trivial, fun _ _ => trivial⟩

@[simp] theorem valid_fileEntrySnapshot {e : FileEntrySnapshot} :
    (fileEntrySnapshot Y).Valid e ↔ e.Valid := by
  constructor
  · rintro ⟨⟨-, hrapidhash⟩, ⟨-, hsize⟩, ⟨-, hmode⟩, -, -, -, ⟨-, hmtime⟩, ⟨-, hrecv⟩, -⟩
    exact ⟨hrapidhash, hsize, hmode, hmtime, hrecv⟩
  · intro h
    exact ⟨⟨trivial, h.rapidhash⟩, ⟨trivial, h.size⟩, ⟨trivial, h.mode⟩, trivial, trivial, trivial,
      ⟨trivial, h.mtimeNs⟩, ⟨trivial, h.recvTsNs⟩, trivial⟩

theorem text_fileEntrySnapshot {e : FileEntrySnapshot} (huid : Scalar e.uidName)
    (hgid : Scalar e.gidName) : (fileEntrySnapshot Y).Text e :=
  ⟨trivial, trivial, trivial, huid, hgid, trivial, trivial, trivial, trivial⟩

/-- The validators of the models are those of `AnyMsg.Valid`. -/
theorem valid_anyMsg {m : AnyMsg} : (anyMsg Y).Valid m ↔ m.Valid := by
  show (MsgType.fields Y (AnyMsg.equivSigma m).1).Valid (AnyMsg.equivSigma m).2 ↔ m.Valid
  cases m with
  | transferBegin m =>
    constructor
    · rintro ⟨-, hentry, ⟨-, htotal⟩, ⟨-, hcount⟩⟩
      exact ⟨valid_fileEntry.mp hentry, htotal, hcount⟩
    · intro h
      exact ⟨trivial, valid_fileEntry.mpr h.entry, ⟨trivial, h.totalSize⟩, ⟨trivial, h.chunkCount⟩⟩
  | _ =>
    simp [AnyMsg.equivSigma, MsgType.fields, AnyMsg.Valid, helloMsg, challengeMsg, responseMsg,
      acceptMsg, authErrorMsg, syncRequestMsg, syncStateMsg, blacklistSyncMsg, fileWriteMsg,
      fileDeleteMsg, fileRenameMsg, dirCreateMsg, dirDeleteMsg, dirRenameMsg, transferChunkMsg,
      transferCommitMsg, transferAckMsg, transferNackMsg, conflictNotifyMsg, pingMsg, pongMsg,
      sessionEndMsg]

theorem text_anyMsg {m : AnyMsg} (h : m.Scalar) : (anyMsg Y).Text m := by
  show (MsgType.fields Y (AnyMsg.equivSigma m).1).Text (AnyMsg.equivSigma m).2
  cases m with
  | hello m => exact ⟨h, trivial, trivial, trivial⟩
  | challenge m => exact ⟨h, trivial, trivial⟩
  | response m => exact ⟨trivial, trivial⟩
  | accept m => exact ⟨trivial, trivial, trivial, trivial⟩
  | authError m => exact h
  | syncRequest => trivial
  | syncState m =>
    obtain ⟨hnode, hkeys, hrecords⟩ := h
    refine ⟨trivial, hnode, hkeys, fun kv hkv => ?_⟩
    obtain ⟨hkey, huid, hgid⟩ := hrecords kv hkv
    exact ⟨hkey, text_fileEntrySnapshot huid hgid⟩
  | blacklistSync patterns => exact h
  | fileWrite m => exact ⟨trivial, text_fileEntry h⟩
  | fileDelete m => exact ⟨h, trivial⟩
  | fileRename m => exact ⟨h.1, h.2, trivial⟩
  | dirCreate m => exact ⟨h.1, trivial, h.2.1, h.2.2⟩
  | dirDelete path => exact h
  | dirRename m => exact h
  | transferBegin m => exact ⟨trivial, text_fileEntry h, trivial, trivial⟩
  | transferChunk m => exact ⟨trivial, trivial, trivial⟩
  | transferCommit m => exact ⟨trivial, trivial⟩
  | transferAck m => exact ⟨trivial, h⟩
  | transferNack m => exact ⟨trivial, h⟩
  | conflictNotify m => exact ⟨h, trivial, trivial, trivial, trivial⟩
  | ping tsNs => trivial
  | pong tsNs => trivial
  | sessionEnd reason => exact h

end Validity

/-! ### Texts -/

/-- `msg.model_dump_json()`. -/
def modelDumpJson (Y : Pydantic) (m : AnyMsg) : Str := Y.render ((anyMsg Y).dump m)

/-- What `parse_json` takes: `str | bytes`. -/
inductive Raw where
  | str (s : Str)
  | bytes (b : Bytes)

/-- `parse_json`, `none` where it raises. -/
def parseJson (Y : Pydantic) : Raw → Option AnyMsg
  | .str s => (encode s).bind fun b => (Y.read b).bind (anyMsg Y).load
  | .bytes b => (Y.read b).bind (anyMsg Y).load

/-- **What is read is valid**, whatever the text. -/
theorem valid_of_parseJson {Y : Pydantic} {raw : Raw} {m : AnyMsg}
    (h : parseJson Y raw = some m) : m.Valid := by
  have hbytes : ∀ b, (Y.read b).bind (anyMsg Y).load = some m → m.Valid := by
    intro b hb
    obtain ⟨v, -, hload⟩ := Option.bind_eq_some_iff.mp hb
    exact valid_anyMsg.mp ((anyMsg Y).load_valid hload)
  cases raw with
  | str s =>
    obtain ⟨b, -, hb⟩ := Option.bind_eq_some_iff.mp h
    exact hbytes b hb
  | bytes b => exact hbytes b h

/-- The bytes of a message, and that they are read back. -/
theorem exists_encode_modelDumpJson (Y : Pydantic) {m : AnyMsg} (hvalid : m.Valid)
    (hscalar : m.Scalar) : ∃ raw, encode (modelDumpJson Y m) = some raw ∧
      parseJson Y (.bytes raw) = some m := by
  have htextual : Textual ((anyMsg Y).dump m) := (anyMsg Y).textual_dump (text_anyMsg hscalar)
  obtain ⟨raw, hraw⟩ := exists_encode (Y.render_scalar htextual)
  have hload : (anyMsg Y).load ((anyMsg Y).dump m) = some m :=
    (anyMsg Y).load_dump (valid_anyMsg.mpr hvalid)
  refine ⟨raw, hraw, ?_⟩
  rw [parseJson, Y.read_render htextual hraw, Option.bind_some, hload]

/-- **Wire round trip.** Every valid message of Unicode text is read back as it was, from the text
of `model_dump_json` as from its bytes. -/
theorem wire_round_trip (Y : Pydantic) {m : AnyMsg} (hvalid : m.Valid) (hscalar : m.Scalar) :
    parseJson Y (.str (modelDumpJson Y m)) = some m ∧
      ∃ raw, encode (modelDumpJson Y m) = some raw ∧ parseJson Y (.bytes raw) = some m := by
  obtain ⟨raw, hraw, hparse⟩ := exists_encode_modelDumpJson Y hvalid hscalar
  refine ⟨?_, raw, hraw, hparse⟩
  rw [parseJson, hraw, Option.bind_some]
  exact hparse

/-! ### A closed instance -/

section Instance

/-- The number of a list of hexadecimal digits, `none` where one of the characters is not one. -/
def hexNat : Nat → Str → Option Nat
  | acc, [] => some acc
  | acc, c :: cs => (hexVal c).bind fun d => hexNat (acc * 16 + d) cs

/-- A UUID from its text: the dashes are dropped, and 32 hexadecimal digits remain. -/
def uuidOf (s : Str) : Option Uuid :=
  let hex := s.filter (· ≠ 0x2d)
  if hex.length = 32 then (hexNat 0 hex).map (Fin.ofNat (2 ^ 128)) else none

theorem hexVal_hexDigit (n : Nat) : hexVal (hexDigit (n % 16)) = some (n % 16) := by
  have hall : ∀ n, n < 16 → hexVal (hexDigit n) = some n := by decide
  exact hall _ (Nat.mod_lt n (by decide))

theorem hexNat_append (acc : Nat) (s : Str) (n : Nat) : hexNat acc (s ++ [hexDigit (n % 16)]) =
    (hexNat acc s).map fun k => k * 16 + n % 16 := by
  induction s generalizing acc with
  | nil => simp [hexNat, hexVal_hexDigit]
  | cons c s ih =>
    rw [List.cons_append, hexNat, hexNat]
    cases hexVal c with
    | none => rfl
    | some d => exact ih _

/-- The digits of a number, from the highest on. -/
theorem hexNat_digits (k u : Nat) :
    hexNat 0 ((List.range k).map fun i => hexDigit (u / 16 ^ (k - 1 - i) % 16)) =
      some (u % 16 ^ k) := by
  induction k generalizing u with
  | zero => simp [hexNat, Nat.mod_one]
  | succ k ih =>
    -- the digits in front of the last are those of the quotient
    have hfront : (List.range k).map (fun i => hexDigit (u / 16 ^ (k + 1 - 1 - i) % 16)) =
        (List.range k).map fun i => hexDigit (u / 16 / 16 ^ (k - 1 - i) % 16) := by
      refine List.map_congr_left fun i hi => ?_
      have hlt := List.mem_range.mp hi
      rw [Nat.div_div_eq_div_mul, ← Nat.pow_succ', show (k - 1 - i).succ = k + 1 - 1 - i by omega]
    have hlast : u / 16 ^ (k + 1 - 1 - k) % 16 = u % 16 := by simp
    rw [List.range_succ, List.map_append, hfront, List.map_singleton, hlast, hexNat_append, ih,
      Option.map_some, Nat.pow_succ', Nat.mod_mul, Nat.add_comm, Nat.mul_comm 16]

/-- The five groups of a UUID make up its digits. -/
theorem groups_append {α : Type} (l : List α) :
    l.take 8 ++ ((l.drop 8).take 4 ++ ((l.drop 12).take 4 ++ ((l.drop 16).take 4 ++ l.drop 20))) =
      l := by
  have hdrop : ∀ n, (l.drop n).take 4 ++ l.drop (n + 4) = l.drop n := by
    intro n
    rw [← List.drop_drop, List.take_append_drop]
  rw [hdrop 16, hdrop 12, hdrop 8, List.take_append_drop]

theorem uuidOf_uuidStr (u : Uuid) : uuidOf (uuidStr u) = some u := by
  have hdigits := hexNat_digits 32 u.val
  generalize hhex : (List.range 32).map (fun i => hexDigit (u.val / 16 ^ (32 - 1 - i) % 16)) = hex
    at hdigits
  have hlength : hex.length = 32 := by rw [← hhex, List.length_map, List.length_range]
  -- no digit is a dash
  have hdigit : ∀ c ∈ hex, decide (c ≠ (0x2d : CodePoint)) = true := by
    have hall : ∀ n, n < 16 → decide (hexDigit n ≠ 0x2d) = true := by decide
    rw [← hhex]
    exact List.forall_mem_map.mpr fun i _ => hall _ (Nat.mod_lt _ (by decide))
  have hkeep : ∀ t : Str, (∀ c ∈ t, c ∈ hex) → t.filter (· ≠ 0x2d) = t := fun t ht =>
    List.filter_eq_self.mpr fun c hc => hdigit c (ht c hc)
  have hdash : (lit "-").filter (· ≠ 0x2d) = [] := by decide
  have hfilter : (uuidStr u).filter (· ≠ 0x2d) = hex := by
    have hstr : uuidStr u = hex.take 8 ++ lit "-" ++ (hex.drop 8).take 4 ++ lit "-" ++
        (hex.drop 12).take 4 ++ lit "-" ++ (hex.drop 16).take 4 ++ lit "-" ++ hex.drop 20 := by
      rw [← hhex]
      rfl
    rw [hstr]
    simp only [List.filter_append, hdash, List.append_nil]
    rw [hkeep _ fun c hc => List.mem_of_mem_take hc,
      hkeep _ fun c hc => List.mem_of_mem_drop (List.mem_of_mem_take hc),
      hkeep _ fun c hc => List.mem_of_mem_drop (List.mem_of_mem_take hc),
      hkeep _ fun c hc => List.mem_of_mem_drop (List.mem_of_mem_take hc),
      hkeep _ fun c hc => List.mem_of_mem_drop hc]
    simpa only [List.append_assoc] using groups_append hex
  have hval : u.val % 16 ^ 32 = u.val := Nat.mod_eq_of_lt u.isLt
  rw [uuidOf, hfilter, if_pos hlength, hdigits, hval, Option.map_some]
  exact congrArg some (Fin.ext hval)

/-- An ASCII text is put together from its bytes. -/
theorem map_ofNat_toNat {s : Str} (h : ∀ c ∈ s, isAscii c = true) :
    (s.map fun c => UInt8.ofNat c.val).map (fun x => Fin.ofNat 0x110000 x.toNat) = s := by
  rw [List.map_map]
  refine (List.map_congr_left fun c hc => ?_).trans (List.map_id s)
  have hlt : c.val < 0x80 := of_decide_eq_true (h c hc)
  refine Fin.ext ?_
  show (UInt8.ofNat c.val).toNat % 0x110000 = c.val
  rw [UInt8.toNat_ofNat_of_lt' (Nat.lt_of_lt_of_le hlt (by decide)), Nat.mod_eq_of_lt c.isLt]

theorem isAscii_dumps {v : Value} (h : Textual v) : ∀ c ∈ dumps v, isAscii c = true :=
  fun c hc => isAscii_of_isPrintable (dumps_printable v h.codable c hc)

/-- A library that writes ASCII, reads JSON, and converts nothing. -/
def plainPydantic : Pydantic where
  render := dumps
  read b := loads (b.map fun x => Fin.ofNat 0x110000 x.toNat)
  toInt
    | .int n => some n
    | _ => none
  toBool
    | .bool b => some b
    | _ => none
  toUuid
    | .str s => uuidOf s
    | _ => none
  render_scalar h := scalar_of_isAscii (isAscii_dumps h)
  read_render {v raw} h hraw := by
    rw [encode_of_isAscii (isAscii_dumps h)] at hraw
    obtain rfl := Option.some.inj hraw
    rw [map_ofNat_toNat (isAscii_dumps h), loads_dumps h.codable]
  toInt_int _ := rfl
  toBool_bool _ := rfl
  toUuid_str u := uuidOf_uuidStr u

/-- An entry for a file that is sent as a delta. -/
def sampleWireEntry : FileEntry where
  path := lit "a/b.txt"
  rapidhash := 2 ^ 64 - 1
  size := 5
  mode := 0o644
  uidName := lit "alice"
  gidName := lit "users"
  mtimeS := -1
  mtimeNs := 999999999
  isFull := false
  deltaBaseRapidhash := some 7

/-- The message that announces its transfer. -/
def sampleBegin : AnyMsg := .transferBegin ⟨5, sampleWireEntry, 5, 1⟩

theorem wire_round_trip_begin :
    parseJson plainPydantic (.str (modelDumpJson plainPydantic sampleBegin)) =
      some sampleBegin := by
  have hentry : sampleWireEntry.Valid := by
    constructor <;> decide
  have hvalid : sampleBegin.Valid := ⟨hentry, by decide, by decide⟩
  have hscalar : sampleWireEntry.Scalar := by
    constructor <;> decide
  exact (wire_round_trip plainPydantic hvalid hscalar).1

end Instance

end Chiralite
