import Mathlib.Data.List.Perm.Basic
import Chiralite.Sync.Rows

/-!
# What the index shows

The live view of an index: the paths that are not deleted, each with what its record says of the
file. Timestamps and tombstones are not part of it.

Two results say what the view is worth.

* Events that come **in order** of `recv_ts_ns` act on the view as they would on a plain map from
  paths to files, in which a write sets, a delete removes and a rename moves
  (`liveView_applyAll_of_inOrder`). The invariant is that every record of the table, tombstones
  included, is older than the events still to come (`Older`).
* Writes and deletes that come **in any order** leave a path live with its newest write whenever
  that write is the newest event of the path (`rowAll_of_newest_write`). A delete gives no such
  guarantee: a delete of a path that is not there yet leaves nothing, and the tombstone of one
  that is accepts every write that comes after it, whatever its timestamp. A path whose newest
  event is a delete depends on the order (`live_order_dependence`).
-/

namespace Chiralite

open Py

/-! ### The view -/

/-- What the live view shows of a file. -/
structure FileView where
  rapidhash : Int
  size : Int
  mtimeS : Int
  mtimeNs : Int
  mode : Int
  uidName : Str
  gidName : Str
  deriving DecidableEq

/-- What a record says of its file. -/
def FileRecord.view (r : FileRecord) : FileView where
  rapidhash := r.rapidhash
  size := r.size
  mtimeS := r.mtimeS
  mtimeNs := r.mtimeNs
  mode := r.mode
  uidName := r.uidName
  gidName := r.gidName

/-- The timestamp of an event. -/
def SyncEvent.recvTsNs : SyncEvent → Int
  | .write e => e.recvTsNs
  | .delete e => e.recvTsNs
  | .rename e => e.recvTsNs

/-! ### The plain map -/

/-- A plain map from paths to files. -/
abbrev PathMap := Str → Option FileView

namespace PathMap

/-- No files. -/
def empty : PathMap := fun _ => none

/-- A write sets the path, a delete removes it, and a rename moves an existing source over the
target. -/
def applyEvent (m : PathMap) : SyncEvent → PathMap
  | .write e => Function.update m e.path (some e.record.view)
  | .delete e => Function.update m e.path none
  | .rename e =>
    match m e.oldPath with
    | none => m
    | some f => Function.update (Function.update m e.oldPath none) e.newPath (some f)

/-- The map after a list of events. -/
def applyAll (m : PathMap) (es : List SyncEvent) : PathMap := es.foldl applyEvent m

end PathMap

/-- The live view of a table. -/
def liveView (rs : Records) : PathMap := fun p => (live? rs p).map FileRecord.view

/-! ### Events in order -/

/-- Every record of the table, tombstones included, is older than `ts`. -/
def Older (rs : Records) (ts : Int) : Prop := ∀ p r, rs.get? p = some r → r.recvTsNs < ts

theorem older_empty (ts : Int) : Older Dict.empty ts := by
  intro p r h
  exact absurd h (by simp)

theorem Older.live {rs : Records} {ts : Int} (h : Older rs ts) {p : Str} {r : FileRecord}
    (hr : live? rs p = some r) : r.recvTsNs < ts :=
  h p r (live?_eq_some.mp hr).1

theorem Older.mono {rs : Records} {ts ts' : Int} (h : Older rs ts) (hts : ts ≤ ts') :
    Older rs ts' := by
  intro p r hr
  exact Int.lt_of_lt_of_le (h p r hr) hts

theorem Older.set {rs : Records} {ts : Int} (h : Older rs ts) (k : Str) {v : FileRecord}
    (hv : v.recvTsNs < ts) : Older (rs.set k v) ts := by
  intro p r hr
  by_cases hp : p = k
  · rw [hp, Dict.get?_set_self] at hr
    rw [← Option.some.inj hr]
    exact hv
  · rw [Dict.get?_set_of_ne _ _ hp] at hr
    exact h p r hr

theorem Older.erase {rs : Records} {ts : Int} (h : Older rs ts) (k : Str) :
    Older (rs.erase k) ts := by
  intro p r hr
  by_cases hp : p = k
  · rw [hp, Dict.get?_erase_self] at hr
    exact absurd hr (by simp)
  · rw [Dict.get?_erase_of_ne _ hp] at hr
    exact h p r hr

/-- A call reports no conflict, or one that the incoming event won. -/
def IncomingWins (c : Option ConflictInfo) : Prop := ∀ info, c = some info → info.winner = .incoming

theorem incomingWins_none : IncomingWins none := by
  intro info h
  exact absurd h (by simp)

theorem incomingWins_some {info : ConflictInfo} (h : info.winner = .incoming) :
    IncomingWins (some info) := by
  intro info' h'
  rw [← Option.some.inj h']
  exact h

/-- A write newer than every record sets its row. -/
theorem applyWrite_of_older {rs : Records} {e : WriteEvent} (h : Older rs e.recvTsNs) :
    (applyWrite rs e).1 = rs.set e.path e.record ∧ IncomingWins (applyWrite rs e).2 := by
  unfold applyWrite
  cases hr : live? rs e.path with
  | none => exact ⟨rfl, incomingWins_none⟩
  | some r =>
    simp only [if_pos (h.live hr : e.recvTsNs > r.recvTsNs)]
    exact ⟨trivial, incomingWins_some rfl⟩

/-- A delete newer than every record turns a live row into a tombstone. -/
theorem applyDelete_of_older {rs : Records} {e : DeleteEvent} (h : Older rs e.recvTsNs) :
    ((live? rs e.path = none ∧ (applyDelete rs e).1 = rs) ∨
      ∃ r, live? rs e.path = some r ∧ (applyDelete rs e).1 =
        rs.set e.path { r with deleted := true, recvTsNs := e.recvTsNs }) ∧
    IncomingWins (applyDelete rs e).2 := by
  unfold applyDelete
  cases hr : live? rs e.path with
  | none => exact ⟨Or.inl ⟨rfl, rfl⟩, incomingWins_none⟩
  | some r =>
    simp only [if_pos (Int.le_of_lt (h.live hr) : e.recvTsNs ≥ r.recvTsNs)]
    exact ⟨Or.inr ⟨r, rfl, rfl⟩, incomingWins_none⟩

/-- A rename newer than every record moves a live source over whatever the target is. -/
theorem applyRename_of_older {rs : Records} {e : RenameEvent} (h : Older rs e.recvTsNs) :
    ((live? rs e.oldPath = none ∧ (applyRename rs e).1 = rs) ∨
      ∃ r, live? rs e.oldPath = some r ∧ (applyRename rs e).1 =
        (rs.erase e.oldPath).set e.newPath { r with recvTsNs := e.recvTsNs }) ∧
    IncomingWins (applyRename rs e).2 := by
  unfold applyRename
  cases hr : live? rs e.oldPath with
  | none => exact ⟨Or.inl ⟨rfl, rfl⟩, incomingWins_none⟩
  | some r =>
    cases ht : live? (rs.erase e.oldPath) e.newPath with
    | none =>
      simp only [ht]
      exact ⟨Or.inr ⟨r, rfl, rfl⟩, incomingWins_none⟩
    | some t =>
      -- the target is a record of the table too, and yields
      have hge : e.recvTsNs ≥ t.recvTsNs := Int.le_of_lt ((h.erase e.oldPath).live ht)
      simp only [ht, if_pos hge]
      exact ⟨Or.inr ⟨r, rfl, rfl⟩, incomingWins_some rfl⟩

/-- **One event in order** does not lose a conflict. -/
theorem incomingWins_applyEvent {rs : Records} {e : SyncEvent} (h : Older rs e.recvTsNs) :
    IncomingWins (applyEvent rs e).2 := by
  cases e with
  | write e => exact (applyWrite_of_older h).2
  | delete e => exact (applyDelete_of_older h).2
  | rename e => exact (applyRename_of_older h).2

/-- **One event in order** leaves no record newer than itself. -/
theorem Older.apply {rs : Records} {e : SyncEvent} {ts : Int} (h : Older rs e.recvTsNs)
    (hts : e.recvTsNs < ts) : Older (apply rs e) ts := by
  have hold := h.mono (Int.le_of_lt hts)
  cases e with
  | write e =>
    change Older (applyWrite rs e).1 ts
    rw [(applyWrite_of_older h).1]
    exact hold.set _ hts
  | delete e =>
    change Older (applyDelete rs e).1 ts
    rcases (applyDelete_of_older h).1 with ⟨-, heq⟩ | ⟨r, -, heq⟩
    · rw [heq]
      exact hold
    · rw [heq]
      exact hold.set _ hts
  | rename e =>
    change Older (applyRename rs e).1 ts
    rcases (applyRename_of_older h).1 with ⟨-, heq⟩ | ⟨r, -, heq⟩
    · rw [heq]
      exact hold
    · rw [heq]
      exact (hold.erase _).set _ hts

/-- **One event in order** acts on the live view as on a plain map. -/
theorem liveView_apply {rs : Records} {e : SyncEvent} (h : Older rs e.recvTsNs) :
    liveView (apply rs e) = (liveView rs).applyEvent e := by
  funext p
  cases e with
  | write e =>
    change (live? (applyWrite rs e).1 p).map _ = Function.update (liveView rs) e.path _ p
    rw [(applyWrite_of_older h).1, live?_set, Function.update_apply]
    split
    · rfl
    · rfl
  | delete e =>
    change (live? (applyDelete rs e).1 p).map _ = Function.update (liveView rs) e.path _ p
    rw [Function.update_apply]
    rcases (applyDelete_of_older h).1 with ⟨hnone, heq⟩ | ⟨r, -, heq⟩
    · rw [heq]
      split
      · next hp => rw [hp, hnone]; rfl
      · rfl
    · rw [heq, live?_set]
      split
      · rfl
      · rfl
  | rename e =>
    change (live? (applyRename rs e).1 p).map _ = _
    rcases (applyRename_of_older h).1 with ⟨hnone, heq⟩ | ⟨r, hr, heq⟩
    · have hview : liveView rs e.oldPath = none := by unfold liveView; rw [hnone]; rfl
      simp only [PathMap.applyEvent, hview]
      rw [heq]
      rfl
    · have hview : liveView rs e.oldPath = some r.view := by unfold liveView; rw [hr]; rfl
      simp only [PathMap.applyEvent, hview]
      rw [heq, live?_set, live?_erase, Function.update_apply, Function.update_apply]
      -- a rename onto itself ends with the file back in its place
      split
      · have hlive : r.deleted = false := (live?_eq_some.mp hr).2
        simp only [hlive]
        rfl
      · split
        · rfl
        · rfl

/-- The timestamps of a list of events strictly increase. -/
def InOrder (es : List SyncEvent) : Prop := es.Pairwise fun e f => e.recvTsNs < f.recvTsNs

instance (es : List SyncEvent) : Decidable (InOrder es) := by unfold InOrder; infer_instance

/-- Events in order, all newer than the table, act on the live view as on a plain map. -/
theorem liveView_applyAll {es : List SyncEvent} (hes : InOrder es) {rs : Records}
    (h : ∀ e ∈ es, Older rs e.recvTsNs) :
    liveView (applyAll rs es) = (liveView rs).applyAll es := by
  induction es generalizing rs with
  | nil => rfl
  | cons e es ih =>
    obtain ⟨hlt, hes'⟩ := List.pairwise_cons.mp hes
    have hnow := h e List.mem_cons_self
    rw [applyAll_cons, ih hes' fun f hf => hnow.apply (hlt f hf), liveView_apply hnow]
    rfl

/-- The table stays behind the events still to come. -/
theorem older_applyAll {es : List SyncEvent} {ts : Int} (hes : InOrder es)
    (hts : ∀ e ∈ es, e.recvTsNs < ts) {rs : Records} (h : ∀ e ∈ es, Older rs e.recvTsNs)
    (hrs : Older rs ts) : Older (applyAll rs es) ts := by
  induction es generalizing rs with
  | nil => exact hrs
  | cons e es ih =>
    obtain ⟨hlt, hes'⟩ := List.pairwise_cons.mp hes
    have hnow := h e List.mem_cons_self
    rw [applyAll_cons]
    exact ih hes' (fun f hf => hts f (List.mem_cons_of_mem _ hf))
      (fun f hf => hnow.apply (hlt f hf)) (hnow.apply (hts e List.mem_cons_self))

/-- **Events in order refine a plain map.** Applied to an empty index, the events of a list with
strictly increasing timestamps leave the live view that a plain map of paths has after them, and
no call on the way reports a conflict that the table won. -/
theorem liveView_applyAll_of_inOrder (es : List SyncEvent) (hes : InOrder es) :
    liveView (applyAll Dict.empty es) = PathMap.empty.applyAll es ∧
    ∀ es₁ e es₂, es = es₁ ++ e :: es₂ →
      ∀ c, (applyEvent (applyAll Dict.empty es₁) e).2 = some c → c.winner ≠ .local := by
  constructor
  · exact liveView_applyAll hes fun e _ => older_empty _
  · rintro es₁ e es₂ rfl c hc
    obtain ⟨hes₁, -, hlt⟩ := List.pairwise_append.mp hes
    have hold : Older (applyAll Dict.empty es₁) e.recvTsNs :=
      older_applyAll hes₁ (fun f hf => hlt f hf e List.mem_cons_self)
        (fun f _ => older_empty _) (older_empty _)
    rw [incomingWins_applyEvent hold c hc]
    exact nofun

/-- A write, a rename over a live target, a rename onto itself and a delete, in order. -/
def inOrderSample : List SyncEvent :=
  [.write ⟨lit "a", 1, 3, 0, 0, 10, 420, lit "u", lit "g"⟩,
    .write ⟨lit "b", 2, 4, 0, 0, 20, 420, lit "u", lit "g"⟩,
    .rename ⟨lit "a", lit "b", 30⟩, .rename ⟨lit "b", lit "b", 40⟩, .delete ⟨lit "c", 50⟩]

theorem liveView_inOrderSample :
    InOrder inOrderSample ∧
    liveView (applyAll Dict.empty inOrderSample) = PathMap.empty.applyAll inOrderSample ∧
    ∀ es₁ e es₂, inOrderSample = es₁ ++ e :: es₂ →
      ∀ c, (applyEvent (applyAll Dict.empty es₁) e).2 = some c → c.winner ≠ .local := by
  have hes : InOrder inOrderSample := by decide
  exact ⟨hes, liveView_applyAll_of_inOrder inOrderSample hes⟩

/-! ### Writes and deletes in any order -/

/-- The list renames nothing. -/
def Unrenamed (es : List SyncEvent) : Prop := ∀ e, .rename e ∉ es

/-- The newest event of the list that names the path. -/
structure Newest (es : List SyncEvent) (p : Str) (e : SyncEvent) : Prop where
  mem : e ∈ es
  names : p ∈ e.names
  newest : ∀ f ∈ es, p ∈ f.names → f.recvTsNs ≤ e.recvTsNs

theorem Newest.perm {es fs : List SyncEvent} {p : Str} {e : SyncEvent} (h : Newest es p e)
    (hperm : fs.Perm es) : Newest fs p e where
  mem := hperm.mem_iff.mpr h.mem
  names := h.names
  newest f hf := h.newest f (hperm.mem_iff.mp hf)

theorem live?_applyAll_empty {es : List SyncEvent} (h : Unrenamed es) (p : Str) (r : FileRecord) :
    live? (applyAll Dict.empty es) p = some r ↔ Live (rowAll p none es) r := by
  rw [← live_iff, get?_applyAll_of_unmoved (fun e he => absurd he (h e)), Dict.get?_empty]

/-- Every live record of a row was there from the start or came with a write of the list. -/
theorem live_rowAll {p : Str} {es : List SyncEvent} {row : Option FileRecord} {r : FileRecord}
    (h : Live (rowAll p row es) r) :
    Live row r ∨ ∃ w, .write w ∈ es ∧ w.path = p ∧ w.record = r := by
  induction es generalizing row with
  | nil => exact Or.inl h
  | cons e es ih =>
    rw [rowAll_cons] at h
    rcases ih h with hstep | ⟨w, hw, hp, hr⟩
    · -- the record is there after the first event
      cases e with
      | write e =>
        simp only [rowStep] at hstep
        split at hstep
        · next hp =>
          -- the write has taken the row over, or has left it
          by_cases hacc : Accepts e row
          · rw [writeRow_of_accepts hacc] at hstep
            exact Or.inr ⟨e, List.mem_cons_self, hp.symm, Option.some.inj hstep.1⟩
          · obtain ⟨-, -, -, heq⟩ := writeRow_of_not_accepts hacc
            exact Or.inl (heq ▸ hstep)
        · exact Or.inl hstep
      | delete e =>
        simp only [rowStep] at hstep
        split at hstep
        · rcases deleteRow_cases e.recvTsNs row with ⟨s, -, -, heq⟩ | ⟨-, heq⟩
          · rw [heq] at hstep
            exact absurd hstep (not_live_tombstone rfl)
          · exact Or.inl (heq ▸ hstep)
        · exact Or.inl hstep
      | rename e => exact Or.inl hstep
    · exact Or.inr ⟨w, List.mem_cons_of_mem _ hw, hp, hr⟩

/-- From an empty row, every live record is that of a write of the list. -/
theorem live_rowAll_none {p : Str} {es : List SyncEvent} {r : FileRecord}
    (h : Live (rowAll p none es) r) : ∃ w, .write w ∈ es ∧ w.path = p ∧ w.record = r := by
  rcases live_rowAll h with hnone | hw
  · exact absurd hnone.1 (by simp)
  · exact hw

/-- **A write that is the newest event of its path wins**, wherever it stands in the list. -/
theorem rowAll_of_newest_write {es : List SyncEvent} {p : Str} {w : WriteEvent}
    (hnew : Newest es p (.write w)) (hts : (es.map SyncEvent.recvTsNs).Nodup) :
    rowAll p none es = some w.record := by
  have hp : p = w.path := by simpa [SyncEvent.names] using hnew.names
  obtain ⟨es₁, es₂, rfl⟩ := List.append_of_mem hnew.mem
  rw [List.map_append, List.map_cons] at hts
  obtain ⟨-, hts₂, hts₁⟩ := List.nodup_append.mp hts
  -- no other event of the path is as recent as the write
  have hlt₁ : ∀ f ∈ es₁, p ∈ f.names → f.recvTsNs < w.recvTsNs := by
    intro f hf hpf
    have hle := hnew.newest f (List.mem_append_left _ hf) hpf
    have hne := hts₁ _ (List.mem_map_of_mem hf) _ List.mem_cons_self
    exact Int.lt_iff_le_and_ne.mpr ⟨hle, hne⟩
  have hlt₂ : ∀ f ∈ es₂, p ∈ f.names → f.recvTsNs < w.recvTsNs := by
    intro f hf hpf
    have hle := hnew.newest f (List.mem_append_right _ (List.mem_cons_of_mem _ hf)) hpf
    have hne : f.recvTsNs ≠ (SyncEvent.write w).recvTsNs := by
      intro heq
      exact (List.nodup_cons.mp hts₂).1 (heq ▸ List.mem_map_of_mem hf)
    exact Int.lt_iff_le_and_ne.mpr ⟨hle, hne⟩
  -- what is live in front of the write is older
  have hacc : Accepts w (rowAll p none es₁) := by
    intro r hr
    obtain ⟨w', hw', hp', rfl⟩ := live_rowAll_none hr
    exact hlt₁ _ hw' (by simp [SyncEvent.names, hp'])
  rw [rowAll_append, rowAll_cons, rowStep, if_pos hp, writeRow_of_accepts hacc]
  refine rowAll_of_quiet ⟨?_, ?_⟩ rfl
  · intro f hf hpf
    exact Int.le_of_lt (hlt₂ _ hf (by simp [SyncEvent.names, hpf]))
  · intro f hf hpf
    exact hlt₂ _ hf (by simp [SyncEvent.names, hpf])

/-- **A delete that comes last** leaves its path dead, when it is also the newest event. -/
theorem not_live_of_last_delete {es : List SyncEvent} {d : DeleteEvent}
    (h : ∀ f ∈ es, d.path ∈ f.names → f.recvTsNs ≤ d.recvTsNs) (r : FileRecord) :
    ¬ Live (rowAll d.path none (es ++ [.delete d])) r := by
  rw [rowAll_append, rowAll_cons, rowStep, if_pos rfl]
  intro hr
  change Live (deleteRow _ _) r at hr
  rcases deleteRow_cases d.recvTsNs (rowAll d.path none es) with ⟨s, -, -, heq⟩ | ⟨hkeep, heq⟩
  · rw [heq] at hr
    exact not_live_tombstone rfl hr
  · -- a record that the delete would spare is newer than every write of the path
    rw [heq] at hr
    have hlt := hkeep r hr
    obtain ⟨w, hw, hp, rfl⟩ := live_rowAll_none hr
    have hle : w.recvTsNs ≤ d.recvTsNs := h _ hw (by simp [SyncEvent.names, hp])
    change d.recvTsNs < w.recvTsNs at hlt
    omega

/-- An event of the list may be moved to its end. -/
theorem perm_last {es : List SyncEvent} {e : SyncEvent} (h : e ∈ es) :
    (es.erase e ++ [e]).Perm es :=
  (List.perm_append_singleton _ _).trans (List.perm_cons_erase h).symm

/-- **The live view of writes and deletes in any order.** Of a list of writes and deletes with
distinct timestamps, and for each path:

* when the newest event of the path is a write, every order leaves the path live with that
  write's record;
* when nothing writes the path, no order makes it live;
* when the newest event of the path is a delete, the order decides: one order leaves the path
  dead, and each of its writes, the oldest included, is the live record after another. -/
theorem live_order_dependence (es : List SyncEvent) (hes : Unrenamed es)
    (hts : (es.map SyncEvent.recvTsNs).Nodup) (p : Str) :
    (∀ w, Newest es p (.write w) →
      ∀ fs : List SyncEvent, fs.Perm es → live? (applyAll Dict.empty fs) p = some w.record) ∧
    (Unwritten es p →
      ∀ fs : List SyncEvent, fs.Perm es → live? (applyAll Dict.empty fs) p = none) ∧
    (∀ d, Newest es p (.delete d) →
      (∃ fs : List SyncEvent, fs.Perm es ∧ live? (applyAll Dict.empty fs) p = none) ∧
      ∀ w, .write w ∈ es → w.path = p →
        ∃ fs : List SyncEvent, fs.Perm es ∧
          live? (applyAll Dict.empty fs) p = some w.record) := by
  have hren : ∀ fs : List SyncEvent, fs.Perm es → Unrenamed fs := fun fs hfs e he =>
    hes e (hfs.mem_iff.mp he)
  -- a path is dead when its row is not live
  have hdead : ∀ fs : List SyncEvent, Unrenamed fs → (∀ r, ¬ Live (rowAll p none fs) r) →
      live? (applyAll Dict.empty fs) p = none := by
    intro fs hfs h
    refine Option.eq_none_iff_forall_not_mem.mpr fun r hr => ?_
    exact h r ((live?_applyAll_empty hfs p r).mp hr)
  refine ⟨?_, ?_, ?_⟩
  · intro w hw fs hfs
    rw [live?_applyAll_empty (hren fs hfs)]
    have hts' : (fs.map SyncEvent.recvTsNs).Nodup := (hfs.map _).nodup_iff.mpr hts
    rw [rowAll_of_newest_write (hw.perm hfs) hts']
    exact live_record w
  · intro hun fs hfs
    refine hdead fs (hren fs hfs) fun r hr => ?_
    obtain ⟨w, hw, hp, -⟩ := live_rowAll_none hr
    exact hun w (hfs.mem_iff.mp hw) hp
  · intro d hd
    obtain rfl : p = d.path := by simpa [SyncEvent.names] using hd.names
    constructor
    · -- the delete comes last
      have hperm := perm_last hd.mem
      refine ⟨_, hperm, hdead _ (hren _ hperm) (not_live_of_last_delete ?_)⟩
      intro f hf
      exact hd.newest f (List.mem_of_mem_erase hf)
    · -- the delete comes last but one, and the write it covers after it
      intro w hw hp
      have hd' : SyncEvent.delete d ∈ es.erase (.write w) :=
        (List.mem_erase_of_ne (by simp)).mpr hd.mem
      have hperm := ((perm_last hd').append_right [.write w]).trans (perm_last hw)
      refine ⟨_, hperm, ?_⟩
      rw [live?_applyAll_empty (hren _ hperm), rowAll_append, rowAll_cons, rowStep, if_pos hp.symm]
      have hacc : Accepts w (rowAll d.path none
          ((es.erase (.write w)).erase (.delete d) ++ [.delete d])) := by
        intro r hr
        refine absurd hr (not_live_of_last_delete ?_ r)
        intro f hf
        exact hd.newest f (List.mem_of_mem_erase (List.mem_of_mem_erase hf))
      rw [writeRow_of_accepts hacc]
      exact live_record w

/-- A file is written and then deleted. -/
def deletedSample : List SyncEvent :=
  [.write ⟨lit "a", 1, 3, 0, 0, 10, 420, lit "u", lit "g"⟩, .delete ⟨lit "a", 20⟩]

theorem live_deletedSample :
    live? (applyAll Dict.empty deletedSample) (lit "a") = none ∧
    live? (applyAll Dict.empty deletedSample.reverse) (lit "a") ≠ none ∧
    deletedSample.reverse.Perm deletedSample ∧
    (deletedSample.map SyncEvent.recvTsNs).Nodup := by
  decide

theorem live_order_dependence_deletedSample :
    Unrenamed deletedSample ∧ (deletedSample.map SyncEvent.recvTsNs).Nodup ∧
    Newest deletedSample (lit "a") (.delete ⟨lit "a", 20⟩) ∧
    ∃ fs : List SyncEvent, fs.Perm deletedSample ∧
      live? (applyAll Dict.empty fs) (lit "a") = none := by
  have hren : Unrenamed deletedSample := by
    intro e he
    simp [deletedSample] at he
  have hts : (deletedSample.map SyncEvent.recvTsNs).Nodup := by decide
  have hnew : Newest deletedSample (lit "a") (.delete ⟨lit "a", 20⟩) := by
    refine ⟨by decide, by decide, ?_⟩
    intro f hf _
    rcases List.mem_pair.mp hf with rfl | rfl
    · decide
    · decide
  refine ⟨hren, hts, hnew, ?_⟩
  exact ((live_order_dependence deletedSample hren hts (lit "a")).2.2 _ hnew).1

end Chiralite
