import Chiralite.Sync.Index

/-!
# The index row by row

Writes and deletes act on the row of their own path, so a list of events that renames nothing
onto or away from a path acts on that row alone (`get?_applyAll_of_unmoved`). Two runs of the
same events over different rows are compared here.

* `Behind a b`: the second row is not live, or the first is live and at least as recent. Every
  write and delete preserves it (`Behind.rowAll`), and a write that takes effect in the first
  run takes effect in the second, after which the rows are equal (`rowAll_eq_of_accepts`).
* `Tracks x a b`: the second row is still the live record `x` it started from, or is behind the
  first (`Tracks.rowAll`).

The relations speak of timestamps only; the last writer wins, so the content follows.
-/

namespace Chiralite

open Py

/-! ### Rows under writes and deletes -/

/-- One event on the row of `p`, renames apart. -/
def rowStep (p : Str) (row : Option FileRecord) : SyncEvent → Option FileRecord
  | .write e => if p = e.path then writeRow e row else row
  | .delete e => if p = e.path then deleteRow e.recvTsNs row else row
  | .rename _ => row

/-- A list of events on the row of `p`, renames apart. -/
def rowAll (p : Str) (row : Option FileRecord) (es : List SyncEvent) : Option FileRecord :=
  es.foldl (rowStep p) row

theorem rowAll_cons (p : Str) (row : Option FileRecord) (e : SyncEvent) (es : List SyncEvent) :
    rowAll p row (e :: es) = rowAll p (rowStep p row e) es := rfl

theorem rowAll_append (p : Str) (row : Option FileRecord) (es fs : List SyncEvent) :
    rowAll p row (es ++ fs) = rowAll p (rowAll p row es) fs := List.foldl_append

/-- No rename of the list names the path. -/
def Unmoved (es : List SyncEvent) (p : Str) : Prop :=
  ∀ e, .rename e ∈ es → p ∉ (SyncEvent.rename e).names

/-- No write of the list names the path. -/
def Unwritten (es : List SyncEvent) (p : Str) : Prop := ∀ e, .write e ∈ es → e.path ≠ p

theorem Unmoved.tail {e : SyncEvent} {es : List SyncEvent} {p : Str} (h : Unmoved (e :: es) p) :
    Unmoved es p :=
  fun f hf => h f (List.mem_cons_of_mem _ hf)

theorem get?_apply_eq_rowStep (rs : Records) {e : SyncEvent} {p : Str}
    (h : ∀ f, e = .rename f → p ∉ e.names) :
    (apply rs e).get? p = rowStep p (rs.get? p) e := by
  cases e with
  | write e =>
    rw [get?_apply_write, rowStep]
    split
    · next hp => rw [hp]
    · rfl
  | delete e =>
    rw [get?_apply_delete, rowStep]
    split
    · next hp => rw [hp]
    · rfl
  | rename e => exact get?_apply_of_notMem rs _ (h e rfl)

/-- **Events act row by row**, off the paths that renames name. -/
theorem get?_applyAll_of_unmoved {es : List SyncEvent} {p : Str} (h : Unmoved es p)
    (rs : Records) : (applyAll rs es).get? p = rowAll p (rs.get? p) es := by
  induction es generalizing rs with
  | nil => rfl
  | cons e es ih =>
    have hstep := get?_apply_eq_rowStep rs (e := e) (p := p)
      (fun f hf => by rw [hf]; exact h f (by rw [hf]; exact List.mem_cons_self))
    rw [applyAll_cons, ih h.tail, hstep, rowAll_cons]

/-! ### Live rows -/

/-- The row holds the live record `r`. -/
def Live (row : Option FileRecord) (r : FileRecord) : Prop := row = some r ∧ r.deleted = false

theorem live_iff {rs : Records} {p : Str} {r : FileRecord} :
    Live (rs.get? p) r ↔ live? rs p = some r := live?_eq_some.symm

theorem Live.unique {row : Option FileRecord} {r s : FileRecord} (hr : Live row r)
    (hs : Live row s) : r = s := Option.some.inj (hr.1.symm.trans hs.1)

/-- A write takes effect on the row. -/
def Accepts (e : WriteEvent) (row : Option FileRecord) : Prop :=
  ∀ r, Live row r → r.recvTsNs < e.recvTsNs

theorem live_record (e : WriteEvent) : Live (some e.record) e.record := ⟨rfl, rfl⟩

theorem writeRow_of_accepts {e : WriteEvent} {row : Option FileRecord} (h : Accepts e row) :
    writeRow e row = some e.record := by
  cases row with
  | none => rfl
  | some r =>
    refine if_neg ?_
    rintro ⟨hlive, hle⟩
    have hlt := h r ⟨rfl, hlive⟩
    omega

/-- A write that does not take effect meets a live record at least as recent, and leaves it. -/
theorem writeRow_of_not_accepts {e : WriteEvent} {row : Option FileRecord} (h : ¬ Accepts e row) :
    ∃ r, Live row r ∧ e.recvTsNs ≤ r.recvTsNs ∧ writeRow e row = row := by
  -- some live record is not older than the write
  obtain ⟨r, himp⟩ := not_forall.mp h
  obtain ⟨hr, hnot⟩ := Classical.not_imp.mp himp
  have hle : e.recvTsNs ≤ r.recvTsNs := Int.not_lt.mp hnot
  obtain ⟨rfl, hlive⟩ := hr
  exact ⟨r, ⟨rfl, hlive⟩, hle, if_pos ⟨hlive, hle⟩⟩

/-- A delete takes effect on a live record that is not newer, and leaves every other row. -/
theorem deleteRow_cases (ts : Int) (row : Option FileRecord) :
    (∃ r, Live row r ∧ r.recvTsNs ≤ ts ∧
      deleteRow ts row = some { r with deleted := true, recvTsNs := ts }) ∨
    ((∀ r, Live row r → ts < r.recvTsNs) ∧ deleteRow ts row = row) := by
  cases row with
  | none =>
    refine Or.inr ⟨?_, rfl⟩
    intro r hr
    exact absurd hr.1 (by simp)
  | some r =>
    by_cases h : r.deleted = false ∧ r.recvTsNs ≤ ts
    · exact Or.inl ⟨r, ⟨rfl, h.1⟩, h.2, if_pos h⟩
    · refine Or.inr ⟨?_, if_neg h⟩
      intro s hs
      obtain rfl := Option.some.inj hs.1
      by_contra hle
      exact h ⟨hs.2, by omega⟩

theorem deleteRow_of_not_live {row : Option FileRecord} (h : ∀ r, ¬ Live row r) (ts : Int) :
    deleteRow ts row = row := by
  rcases deleteRow_cases ts row with ⟨r, hr, -, -⟩ | ⟨-, heq⟩
  · exact absurd hr (h r)
  · exact heq

/-- A tombstone is not live. -/
theorem not_live_tombstone {r s : FileRecord} (hr : r.deleted = true) : ¬ Live (some r) s := by
  rintro ⟨hrs, hlive⟩
  rw [← Option.some.inj hrs, hr] at hlive
  exact absurd hlive (by simp)

/-! ### Two runs over different rows -/

/-- **Two runs side by side.** A relation between two rows that every write and every delete keeps
holds along every list of events. -/
theorem rowAll_related {R : Option FileRecord → Option FileRecord → Prop}
    (hwrite : ∀ a b e, R a b → R (writeRow e a) (writeRow e b))
    (hdelete : ∀ a b ts, R a b → R (deleteRow ts a) (deleteRow ts b))
    {a b : Option FileRecord} (h : R a b) (p : Str) (es : List SyncEvent) :
    R (rowAll p a es) (rowAll p b es) := by
  induction es generalizing a b with
  | nil => exact h
  | cons e es ih =>
    rw [rowAll_cons, rowAll_cons]
    refine ih ?_
    -- an event of another path, and any rename, leaves both rows alone
    cases e with
    | write e =>
      simp only [rowStep]
      split
      · exact hwrite a b e h
      · exact h
    | delete e =>
      simp only [rowStep]
      split
      · exact hdelete a b e.recvTsNs h
      · exact h
    | rename e => exact h

/-- The second row is not live, or the first is live and at least as recent. -/
def Behind (a b : Option FileRecord) : Prop :=
  ∀ r, Live b r → ∃ s, Live a s ∧ r.recvTsNs ≤ s.recvTsNs

theorem Behind.refl (a : Option FileRecord) : Behind a a := fun r hr => ⟨r, hr, Int.le_refl _⟩

theorem behind_of_not_live {a b : Option FileRecord} (h : ∀ r, ¬ Live b r) : Behind a b :=
  fun r hr => absurd hr (h r)

theorem Behind.accepts {a b : Option FileRecord} (h : Behind a b) {e : WriteEvent}
    (ha : Accepts e a) : Accepts e b := by
  intro r hr
  obtain ⟨s, hs, hle⟩ := h r hr
  have hlt := ha s hs
  omega

/-- What a write leaves is at least as recent as the write. -/
theorem behind_record (e : WriteEvent) (a : Option FileRecord) :
    Behind (writeRow e a) (some e.record) := by
  by_cases ha : Accepts e a
  · rw [writeRow_of_accepts ha]
    exact Behind.refl _
  · obtain ⟨s, hs, hle, heq⟩ := writeRow_of_not_accepts ha
    rw [heq]
    intro r hr
    rw [hr.unique (live_record e)]
    exact ⟨s, hs, hle⟩

theorem Behind.write {a b : Option FileRecord} (h : Behind a b) (e : WriteEvent) :
    Behind (writeRow e a) (writeRow e b) := by
  by_cases hb : Accepts e b
  -- accepted in the second run: its record is no newer than what the first run holds
  · rw [writeRow_of_accepts hb]
    exact behind_record e a
  · -- refused in the second run, hence in the first
    have ha : ¬ Accepts e a := fun ha => hb (h.accepts ha)
    obtain ⟨-, -, -, hbeq⟩ := writeRow_of_not_accepts hb
    obtain ⟨-, -, -, haeq⟩ := writeRow_of_not_accepts ha
    rw [haeq, hbeq]
    exact h

theorem Behind.delete {a b : Option FileRecord} (h : Behind a b) (ts : Int) :
    Behind (deleteRow ts a) (deleteRow ts b) := by
  rcases deleteRow_cases ts b with ⟨r, -, -, hb⟩ | ⟨hkeep, hb⟩
  · rw [hb]
    exact behind_of_not_live fun s => not_live_tombstone rfl
  · rcases deleteRow_cases ts a with ⟨s, hs, hle, -⟩ | ⟨-, ha⟩
    · -- effective in the first run: a live second row would be older still
      rw [hb]
      refine behind_of_not_live fun r hr => ?_
      obtain ⟨s', hs', hle'⟩ := h r hr
      have hts := hkeep r hr
      rw [hs'.unique hs] at hle'
      omega
    · rw [ha, hb]
      exact h

theorem Behind.rowAll {a b : Option FileRecord} (h : Behind a b) (p : Str) (es : List SyncEvent) :
    Behind (rowAll p a es) (rowAll p b es) :=
  rowAll_related (fun _ _ e h => h.write e) (fun _ _ ts h => h.delete ts) h p es

/-- **An accepted write ends every difference**: once a write has taken effect in the first run,
a run that was behind it has the same row. -/
theorem rowAll_eq_of_accepts {a b : Option FileRecord} (h : Behind a b) {p : Str}
    {es₁ es₂ : List SyncEvent} {w : WriteEvent} (hw : w.path = p)
    (hacc : Accepts w (rowAll p a es₁)) :
    rowAll p a (es₁ ++ .write w :: es₂) = rowAll p b (es₁ ++ .write w :: es₂) := by
  -- an accepted write leaves its own record, whatever was there
  have hrow : ∀ row, Accepts w row → rowStep p row (.write w) = some w.record := by
    intro row hr
    exact (if_pos hw.symm).trans (writeRow_of_accepts hr)
  rw [rowAll_append, rowAll_append, rowAll_cons, rowAll_cons, hrow _ hacc,
    hrow _ ((h.rowAll p es₁).accepts hacc)]

/-- The second row is still the record it started from, or is behind the first. -/
def Tracks (x : FileRecord) (a b : Option FileRecord) : Prop := b = some x ∨ Behind a b

theorem Tracks.write {x : FileRecord} {a b : Option FileRecord} (h : Tracks x a b)
    (e : WriteEvent) : Tracks x (writeRow e a) (writeRow e b) := by
  rcases h with rfl | h
  · by_cases hx : Accepts e (some x)
    · rw [writeRow_of_accepts hx]
      exact Or.inr (behind_record e a)
    -- refused: the record is still there
    · obtain ⟨-, -, -, heq⟩ := writeRow_of_not_accepts hx
      exact Or.inl heq
  · exact Or.inr (h.write e)

theorem Tracks.delete {x : FileRecord} {a b : Option FileRecord} (h : Tracks x a b) (ts : Int) :
    Tracks x (deleteRow ts a) (deleteRow ts b) := by
  rcases h with rfl | h
  · rcases deleteRow_cases ts (some x) with ⟨r, -, -, heq⟩ | ⟨-, heq⟩
    · rw [heq]
      exact Or.inr (behind_of_not_live fun s => not_live_tombstone rfl)
    · exact Or.inl heq
  · exact Or.inr (h.delete ts)

theorem Tracks.rowAll {x : FileRecord} {a b : Option FileRecord} (h : Tracks x a b) (p : Str)
    (es : List SyncEvent) : Tracks x (rowAll p a es) (rowAll p b es) :=
  rowAll_related (fun _ _ e h => h.write e) (fun _ _ ts h => h.delete ts) h p es

/-- The two rows agree, or the second is still `x` with the first behind it, or neither is
live. -/
def Leads (x : FileRecord) (a b : Option FileRecord) : Prop :=
  a = b ∨ (b = some x ∧ Behind b a) ∨ ((∀ r, ¬ Live a r) ∧ ∀ r, ¬ Live b r)

/-- From an accepted write on, a row that tracked `x` either agrees with the first run or is
still `x`, with the first run behind. -/
theorem Tracks.leads {x : FileRecord} {a b : Option FileRecord} (h : Tracks x a b)
    {e : WriteEvent} (ha : Accepts e a) : Leads x (writeRow e a) (writeRow e b) := by
  rw [writeRow_of_accepts ha]
  rcases h with rfl | h
  · by_cases hx : Accepts e (some x)
    · exact Or.inl (writeRow_of_accepts hx).symm
    · obtain ⟨s, hs, hle, heq⟩ := writeRow_of_not_accepts hx
      -- the second run keeps `x`, which is at least as recent as the write
      refine Or.inr (Or.inl ⟨heq, ?_⟩)
      intro r hr
      rw [heq, hr.unique (live_record e)]
      exact ⟨s, hs, hle⟩
  · exact Or.inl (writeRow_of_accepts (h.accepts ha)).symm

theorem Leads.write {x : FileRecord} {a b : Option FileRecord} (h : Leads x a b)
    (e : WriteEvent) : Leads x (writeRow e a) (writeRow e b) := by
  rcases h with rfl | ⟨rfl, h⟩ | ⟨ha, hb⟩
  · exact Or.inl rfl
  · by_cases hx : Accepts e (some x)
    · exact Or.inl (by rw [writeRow_of_accepts hx, writeRow_of_accepts (h.accepts hx)])
    · obtain ⟨-, -, -, heq⟩ := writeRow_of_not_accepts hx
      exact Or.inr (Or.inl ⟨heq, h.write e⟩)
  -- neither is live, so that both accept the write
  · have hacc : ∀ row, (∀ r, ¬ Live row r) → Accepts e row := fun row hrow r hr =>
      absurd hr (hrow r)
    exact Or.inl (by rw [writeRow_of_accepts (hacc a ha), writeRow_of_accepts (hacc b hb)])

theorem Leads.delete {x : FileRecord} {a b : Option FileRecord} (h : Leads x a b) (ts : Int) :
    Leads x (deleteRow ts a) (deleteRow ts b) := by
  rcases h with rfl | ⟨rfl, h⟩ | ⟨ha, hb⟩
  · exact Or.inl rfl
  · rcases deleteRow_cases ts (some x) with ⟨r, -, -, heq⟩ | ⟨-, heq⟩
    · -- effective on `x`, hence on whatever is behind it
      have hb : ∀ r, ¬ Live (deleteRow ts (some x)) r := by
        intro s
        rw [heq]
        exact not_live_tombstone rfl
      refine Or.inr (Or.inr ⟨?_, hb⟩)
      intro r hr
      obtain ⟨s, hs, -⟩ := h.delete ts r hr
      exact hb s hs
    · exact Or.inr (Or.inl ⟨heq, h.delete ts⟩)
  · rw [deleteRow_of_not_live ha, deleteRow_of_not_live hb]
    exact Or.inr (Or.inr ⟨ha, hb⟩)

theorem Leads.rowAll {x : FileRecord} {a b : Option FileRecord} (h : Leads x a b) (p : Str)
    (es : List SyncEvent) : Leads x (rowAll p a es) (rowAll p b es) :=
  rowAll_related (fun _ _ e h => h.write e) (fun _ _ ts h => h.delete ts) h p es

/-! ### Rows nothing happens to -/

/-- A row that no event of the list changes stays what it is. -/
theorem rowAll_eq_self {es : List SyncEvent} {p : Str} {row : Option FileRecord}
    (h : ∀ e ∈ es, rowStep p row e = row) : rowAll p row es = row := by
  induction es with
  | nil => rfl
  | cons e es ih =>
    rw [rowAll_cons, h e List.mem_cons_self]
    exact ih fun f hf => h f (List.mem_cons_of_mem _ hf)

/-- Without writes, a row that is not live stays what it is. -/
theorem rowAll_of_unwritten {es : List SyncEvent} {p : Str} (h : Unwritten es p)
    {row : Option FileRecord} (hrow : ∀ r, ¬ Live row r) : rowAll p row es = row := by
  refine rowAll_eq_self fun e he => ?_
  cases e with
  | write e => exact if_neg fun hp => h e he hp.symm
  | delete e =>
    simp only [rowStep]
    split
    · exact deleteRow_of_not_live hrow _
    · rfl
  | rename e => rfl

/-- No write or delete of the path in the list can take effect on a record with timestamp
`ts`. -/
def Quiet (es : List SyncEvent) (p : Str) (ts : Int) : Prop :=
  (∀ e, .write e ∈ es → e.path = p → e.recvTsNs ≤ ts) ∧
    (∀ e, .delete e ∈ es → e.path = p → e.recvTsNs < ts)

/-- A live record stays what it is under a list that is quiet about it. -/
theorem rowAll_of_quiet {es : List SyncEvent} {p : Str} {r : FileRecord}
    (h : Quiet es p r.recvTsNs) (hr : r.deleted = false) : rowAll p (some r) es = some r := by
  refine rowAll_eq_self fun e he => ?_
  cases e with
  | write e =>
    simp only [rowStep]
    split
    · next hp => exact if_pos ⟨hr, h.1 e he hp.symm⟩
    · rfl
  | delete e =>
    simp only [rowStep]
    split
    · next hp =>
      -- a delete takes effect from the record's own timestamp on, and this one is older
      have hlt := h.2 e he hp.symm
      exact if_neg fun hle => by omega
    · rfl
  | rename e => rfl

end Chiralite
