import Chiralite.Server.Provenance

/-!
# The modes of files

`sanitize_mode` of `fs/permissions.py` takes the setuid, setgid and sticky bits off the mode that a
client sends, and leaves nothing above `0644`. It is called at one place, between `lchown` and
`rename` of a write, with calls before and behind it that may fail, and a rename carries a mode on
to another name. `modes_stay` says what comes of it on the tree: over any number of sessions, a file
with a bit that neither `0644` has nor the umask leaves to a new file has its mode from before.
-/

namespace Chiralite

open Py Posix Effect

/-- The environment gives new files, and the sanitizer any file, a mode that is granted. -/
structure GrantsModes (granted : Nat → Prop) (E : Env) : Prop where
  newFile : ∀ n, granted (E.newFile n).mode
  sanitized : ∀ raw, granted (sanitizeMode raw false)

section Write

variable {granted : Nat → Prop} {E : Env} {tmp : Location} {content : Bytes} {entry : FileEntry}

theorem modes_openWrite {t t' : Tree} {init : FileData} (hinit : granted init.mode)
    (h : t.openWrite tmp init = .ok t') : FilesFrom FileData.mode granted t t' := by
  obtain ⟨-, hnode⟩ | ⟨g, hg, hnode⟩ := Tree.openWrite_ok h
  · refine FilesFrom.of_node ?_ hnode
    exact Or.inl hinit
  · refine FilesFrom.of_node ?_ hnode
    exact Or.inr ⟨g, hg, rfl⟩

theorem modes_openTmp (hgrants : GrantsModes granted E) :
    (filesFrame FileData.mode granted).Allows (openTmp E tmp) := by
  refine Frame.Allows.look fun w => ?_
  have hopen : ∀ t t', t.openWrite tmp (E.newFile w.clock) = .ok t' →
      FilesFrom FileData.mode granted t t' := fun t t' => modes_openWrite (hgrants.newFile w.clock)
  split
  · exact filesFrame_fsCall hopen
  · refine Frame.Allows.bind ?_ fun _ => filesFrame_fsCall hopen
    refine filesFrame_of fun w evs v w' h => ?_
    cases h
    exact FilesFrom.refl _ granted w.fs

theorem modes_writeTmp :
    (filesFrame FileData.mode granted).Allows (writeTmp E tmp content) := by
  refine Frame.Allows.bind ?_ fun _ => filesFrame_modify fun f => Or.inr rfl
  -- the bytes of a write that fails
  refine filesFrame_of fun w evs v w' h => ?_
  cases h
  show FilesFrom FileData.mode granted w.fs (partlyWritten E tmp content w).fs
  unfold partlyWritten
  split
  · exact FilesFrom.refl _ granted w.fs
  · dsimp only
    split
    · exact FilesFrom.refl _ granted w.fs
    · rename_i hmodify
      obtain ⟨g, hg, hnode⟩ := Tree.modify_ok hmodify
      refine FilesFrom.of_node ?_ hnode
      exact Or.inr ⟨g, hg, rfl⟩

theorem modes_stage (hgrants : GrantsModes granted E) :
    (filesFrame FileData.mode granted).Allows (stage E tmp content entry) := by
  rw [stage_eq]
  refine (modes_openTmp hgrants).bind fun _ => modes_writeTmp.bind fun _ => ?_
  -- the one place where a mode is set
  refine filesFrame_setAttributes (fun _ _ _ => rfl) (fun f => ?_) fun _ _ => rfl
  exact Or.inl (hgrants.sanitized entry.mode)

end Write

section Modes

/-- The sanitizer lets no bit through that `0644` does not have. -/
theorem sanitizeMode_and {bits : Nat} (hbits : 0o644 &&& bits = 0) (raw : Int) :
    sanitizeMode raw false &&& bits = 0 := by
  have hceiling : sanitizeMode raw false =
      (BitVec.ofInt 12 raw &&& ~~~forbiddenBits).toNat &&& (~~~serverUmask).toNat &&& 0o644 := by
    unfold sanitizeMode
    rw [if_neg Bool.false_ne_true, BitVec.toNat_and, BitVec.toNat_and, Nat.and_assoc,
      Nat.and_assoc, Nat.and_comm (~~~serverUmask).toNat]
    rfl
  rw [hceiling, Nat.and_assoc, hbits, Nat.and_zero]

/-- **No file gets a bit that it must not have.** Whatever the clients of any number of sessions
send, and whichever calls fail: take some bits of which `0644` has none, and the umask leaves none
to a new file. A file that has one of them at the end has a mode that a file had at the start. -/
theorem modes_stay (server : SiloServer) (as : List SessionRun) {bits : Nat}
    (hbits : 0o644 &&& bits = 0) (hnew : ∀ a ∈ as, ∀ n, (a.env.newFile n).mode &&& bits = 0)
    {p : Location} {f : FileData}
    (hfile : (Run.run serve server as).world.fs.node p = some (.file f))
    (hset : f.mode &&& bits ≠ 0) :
    ∃ q g, server.world.fs.node q = some (.file g) ∧ g.mode = f.mode := by
  have hgrant : ∀ a ∈ as, StagesGrant FileData.mode (fun mode => mode &&& bits = 0) a.env :=
    fun a ha _ _ _ _ => modes_stage ⟨hnew a ha, sanitizeMode_and hbits⟩
  exact (run_files server as hgrant p f hfile).resolve_left hset

end Modes

namespace Sample

/-- A silo with a setuid program. -/
def toolTree : Tree :=
  tree.insert [lit "srv", lit "tool"] (.file ⟨[], 0o4755, 0, 0, 0⟩) (by decide) (by decide)
    (by decide)

/-- A session that renames the program. -/
def toolRun : SessionRun where
  env := env
  session := service.session
  inbox := [.message .syncRequest trivial,
    .message (.fileRename ⟨lit "tool", lit "old", 0⟩) ⟨by decide, by decide, by decide⟩]
  rounds := 1

/-- The mode of the program goes along with it, and comes from the start. -/
theorem tool_keeps_mode :
    (Run.run serve ⟨⟨toolTree, [], 0⟩, Dict.empty⟩ [toolRun]).world.fs.node
        [lit "srv", lit "old"] = some (.file ⟨[], 0o4755, 0, 0, 0⟩) ∧
      ∃ q g, toolTree.node q = some (.file g) ∧ g.mode = 0o4755 := by
  have hfile : (Run.run serve ⟨⟨toolTree, [], 0⟩, Dict.empty⟩ [toolRun]).world.fs.node
      [lit "srv", lit "old"] = some (.file ⟨[], 0o4755, 0, 0, 0⟩) := rfl
  have hbits : 0o644 &&& 0o7133 = 0 := by decide
  refine ⟨hfile, modes_stay ⟨⟨toolTree, [], 0⟩, Dict.empty⟩ [toolRun] hbits ?_ hfile (by decide)⟩
  intro a ha n
  rw [List.mem_singleton.mp ha]
  show 0o644 &&& 0o7133 = 0
  decide

end Sample

end Chiralite
