import Chiralite.Sandbox.Instream
import Chiralite.Server.Provenance
import Chiralite.Server.Totality

/-!
# What the scanner has seen

`_handle_transfer` scans a content before it writes it, and `ClamdClient._scan` sends it to the
daemon in chunks. Between the verdict and the file stand the protocol of the daemon, a write that
may fail at any of its steps, and renames that carry files on to other names.

`silo_scanned` leads from the one end to the other. Over any number of sessions a file has its
content from before, or the daemon has replied `stream: OK` to that very content; where a call
fails, it may be the first part of one.
-/

namespace Chiralite

open Py Posix Effect

/-- `ClamdClient.scan`, with what `_scan` writes to the daemon. -/
def ClamdClient.scanContent (client : ClamdClient) (reprStr : Str → Str)
    (daemon : Bytes → ClamdReply) (content : Bytes) : Except Fault ScanResult :=
  match Instream.scanWrites (content.length + 1) content with
  | .done writes => client.scan reprStr (daemon writes.flatten)
  | .raised => .error (.other (lit "'I' format requires 0 <= number <= 4294967295"))
  | .unfinished => client.scan reprStr .timedOut

/-- The verdict on a content is that it is clean. -/
def Approved (verdict : Nat → Bytes → ClamdReply) (content : Bytes) : Prop :=
  ∃ k response, verdict k content = .line response ∧ strip response = lit "stream: OK"

/-- A client clears what its daemon approves of. -/
theorem Approved.of_cleared {E : Env} {client : ClamdClient}
    {daemon verdict : Nat → Bytes → ClamdReply} {content : Bytes}
    (hdaemon : ∀ k, Instream.Follows (daemon k) (verdict k))
    (hclamd : E.clamd = some fun k => client.scanContent E.reprStr (daemon k))
    (h : Cleared E content) : Approved verdict content := by
  obtain ⟨k, result, hscan, hclean⟩ := h _ hclamd
  obtain ⟨writes, hdone, hiff⟩ :=
    @Instream.scan_approves_iff client E.reprStr _ _ (hdaemon k) content
  unfold ClamdClient.scanContent at hscan
  rw [hdone] at hscan
  exact ⟨k, hiff.mp ⟨result, hscan, hclean⟩⟩

/-! ### The stage -/

section Stage

variable {E : Env} {tmp : Location} {content : Bytes} {entry : FileEntry} {w w' : World}
  {evs : List Event} {v : Except Exc Unit}

/-- Some call fails. -/
def Env.Faulty (E : Env) : Prop := ∃ k fault, E.fault k = some fault

/-- The whole content; or a part of it, where some call fails. -/
def WrittenOf (content : Bytes) (faulty : Prop) (c : Bytes) : Prop :=
  c = content ∨ (c <+: content ∧ faulty)

theorem openTmp_error {e : Exc} (h : Runs (openTmp E tmp) w evs (.error e) w') : SameTree w w' := by
  have hrest := h.bind_look_inv
  have hfails : ∀ {op evs'}, Runs (fsCall E op tmp fun t => t.openWrite tmp (E.newFile w.clock)) w
      evs' (.error e) w' → SameTree w w' := by
    intro op evs' hcall
    obtain ⟨-, -, -, -, htree⟩ | ⟨hv, -⟩ := fsCall_inv hcall
    · exact htree
    · cases hv
  split at hrest
  · exact hfails hrest
  · obtain ⟨evs₂, hcall, -⟩ := hrest.bind_emit_inv
    exact hfails hcall

theorem partlyWritten_prefix {f : FileData} (hf : w.fs.node tmp = some (.file f))
    (hempty : f.content = []) :
    ∃ g, (partlyWritten E tmp content w).fs.node tmp = some (.file g) ∧ g.content <+: content := by
  unfold partlyWritten
  split
  · refine ⟨f, hf, ?_⟩
    rw [hempty]
    exact List.nil_prefix
  · obtain ⟨t, hmodify⟩ := Tree.modify_of_file
      (g := fun f => { f with content := f.content ++ content.take (E.written w.clock) }) hf
    obtain ⟨f', hf', hnode⟩ := Tree.modify_ok hmodify
    rw [hf] at hf'
    cases hf'
    dsimp only
    rw [hmodify]
    refine ⟨_, (hnode tmp).trans (if_pos rfl), ?_⟩
    show f.content ++ content.take _ <+: content
    rw [hempty, List.nil_append]
    exact List.take_prefix _ content

/-- A write to an empty file that is there leaves a part of the content, and less than all of it
only by a failure. -/
theorem writeTmp_written {f : FileData} (hf : w.fs.node tmp = some (.file f))
    (hempty : f.content = []) (h : Runs (writeTmp E tmp content) w evs v w') :
    ∃ g, w'.fs.node tmp = some (.file g) ∧ WrittenOf content E.Faulty g.content := by
  cases v with
  | ok _ =>
    refine ⟨_, writeTmp_ok hf h, Or.inl ?_⟩
    show f.content ++ content = content
    rw [hempty, List.nil_append]
  | error e =>
    have hcall := h.bind_change_inv
    -- what the call finds at the name
    obtain ⟨g, hg, hpre⟩ : ∃ g, (partlyWritten E tmp content w).fs.node tmp = some (.file g) ∧
        g.content <+: content := partlyWritten_prefix hf hempty
    obtain ⟨e', htick, -⟩ | ⟨_, w₁, evs₁, evs₂, htick, hrest, -⟩ := hcall.bind_inv
    · obtain ⟨-, rfl, ⟨hv, -⟩ | ⟨fault, -, hfault⟩⟩ := tick_inv htick
      · cases hv
      · exact ⟨g, hg, Or.inr ⟨hpre, _, fault, hfault⟩⟩
    · -- a file that is there can be written to
      obtain ⟨-, rfl, -⟩ := tick_inv htick
      obtain ⟨t, hmodify⟩ := Tree.modify_of_file
        (g := fun f => { f with content := f.content ++ content }) hg
      have hmatch := hrest.bind_look_inv
      simp only [hmodify] at hmatch
      cases hmatch.bind_change_inv

/-- **A stage** leaves a file of the content, or a part of it. -/
theorem written_stage (h : Runs (stage E tmp content entry) w evs v w') :
    FilesFrom FileData.content (WrittenOf content E.Faulty) w.fs w'.fs := by
  rw [stage_eq] at h
  obtain ⟨e, hopen, -⟩ | ⟨_, w₁, evs₁, evs₂, hopen, hrest, -⟩ := h.bind_inv
  · exact FilesFrom.of_sameTree (openTmp_error hopen)
  obtain ⟨f, hf, hempty⟩ := openTmp_ok hopen
  have hopened : ∀ q, q ≠ tmp → w₁.fs.node q = w.fs.node q := (entryFrame_openTmp _ _ _ _ hopen).1
  -- both calls change the temporary file only
  have hwritten : ∀ {w₂ evs₃ v'}, Runs (writeTmp E tmp content) w₁ evs₃ v' w₂ →
      FilesFrom FileData.content (WrittenOf content E.Faulty) w.fs w₂.fs := by
    intro w₂ evs₃ v' hwrite
    obtain ⟨g, hg, hof⟩ := writeTmp_written hf hempty hwrite
    refine FilesFrom.of_node (g := g) (p := tmp) (Or.inl hof) fun q => ?_
    by_cases hq : q = tmp
    · rw [if_pos hq, hq, hg]
    · rw [if_neg hq, (entryFrame_writeTmp _ _ _ _ hwrite).1 q hq, hopened q hq]
  obtain ⟨e, hwrite, -⟩ | ⟨_, w₂, evs₃, evs₄, hwrite, hfinish, -⟩ := hrest.bind_inv
  · exact hwritten hwrite
  · refine (hwritten hwrite).trans ?_
    exact (filesFrame_setAttributes (fun _ _ _ => rfl) (fun _ => Or.inr rfl) (fun _ _ => rfl)
      _ _ _ _ hfinish).1

end Stage

/-! ### The sessions -/

/-- **What is in the silo has been scanned.** The sessions scan with a client of a daemon that reads
its input as the one of the tests does and replies to the content by a verdict, which may be another
one at another time. Then, whatever the clients of any number of sessions send, a file at the end
has the content of a file from the start, or a content to which the daemon has replied `stream: OK`,
or, if some call fails, the first bytes of such a content. -/
theorem silo_scanned (server : SiloServer) (as : List SessionRun) {client : ClamdClient}
    {daemon verdict : Nat → Bytes → ClamdReply}
    (hdaemon : ∀ k, Instream.Follows (daemon k) (verdict k))
    (hclamd : ∀ a ∈ as, a.env.clamd = some fun k => client.scanContent a.env.reprStr (daemon k))
    {p : Location} {f : FileData}
    (hfile : (Run.run serve server as).world.fs.node p = some (.file f)) :
    (∃ content, Approved verdict content ∧
        WrittenOf content (∃ a ∈ as, a.env.Faulty) f.content) ∨
      ∃ q g, server.world.fs.node q = some (.file g) ∧ g.content = f.content := by
  have hgrant : ∀ a ∈ as, StagesGrant FileData.content (fun c => ∃ content,
      Approved verdict content ∧ WrittenOf content (∃ a ∈ as, a.env.Faulty) c) a.env := by
    intro a ha tmp content entry hcleared
    have happroved : Approved verdict content :=
      Approved.of_cleared hdaemon (hclamd a ha) hcleared
    refine filesFrame_of fun w evs v w' h q g hg => ?_
    refine (written_stage h q g hg).imp (fun hof => ⟨content, happroved, ?_⟩) id
    exact hof.imp id fun ⟨hpre, hfaulty⟩ => ⟨hpre, a, ha, hfaulty⟩
  exact run_files server as hgrant p f hfile

namespace Sample

/-- The daemon of the tests, which finds nothing. -/
def daemon (input : Bytes) : ClamdReply :=
  match Instream.FakeClamd.handle input with
  | .scanned _ _ => .line (lit "stream: OK\n")
  | _ => .timedOut

theorem daemon_follows : Instream.Follows daemon fun _ => .line (lit "stream: OK\n") := by
  intro input content h
  unfold daemon
  rw [h]

/-- A session with a scanner, in which the file is transferred. -/
def scannedRun : SessionRun where
  env := { env with clamd := some fun _ => client.scanContent env.reprStr daemon }
  session := service.session
  inbox := .message .syncRequest trivial ::
    .message (.transferBegin fullBegin) (announce_valid (by decide)
      (rapidHashInt_rapidhash content 0) (by decide) (by decide)) ::
    deliver _ fullMessages_valid
  rounds := 1

/-- The file is written, and its content is one that the daemon has approved of. -/
theorem notes_scanned :
    (Run.run serve ⟨⟨tree, [], 0⟩, Dict.empty⟩ [scannedRun]).world.fs.node
        [lit "srv", lit "notes"] =
      some (.file ⟨content, 0o644, 1000, 100, 1700000000000000000⟩) ∧
    ((∃ approved, Approved (fun _ _ => .line (lit "stream: OK\n")) approved ∧
        WrittenOf approved (∃ a ∈ [scannedRun], a.env.Faulty) content) ∨
      ∃ q g, tree.node q = some (.file g) ∧ g.content = content) := by
  have hfile : (Run.run serve ⟨⟨tree, [], 0⟩, Dict.empty⟩ [scannedRun]).world.fs.node
      [lit "srv", lit "notes"] =
        some (.file ⟨content, 0o644, 1000, 100, 1700000000000000000⟩) := by
    decide +kernel
  have hclamd : ∀ a ∈ [scannedRun],
      a.env.clamd = some fun _ => client.scanContent a.env.reprStr daemon := by
    intro a ha
    rw [List.mem_singleton.mp ha]
    rfl
  exact ⟨hfile, silo_scanned ⟨⟨tree, [], 0⟩, Dict.empty⟩ [scannedRun] (fun _ => daemon_follows)
    hclamd hfile⟩

end Sample

end Chiralite
