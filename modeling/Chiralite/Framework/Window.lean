import Mathlib.Data.List.Basic
import Mathlib.Data.List.Induction
import Mathlib.Order.Lattice

/-!
# Sequences in the order of time

What a program needs that keeps a sequence of timed entries, appends at the end and forgets the
entries that have become too old.

* `exists_split_of_sorted`: in a sequence that is sorted by time, the entries that are too old come
  first, so that forgetting them leaves an end of the sequence.
* `Spaced`: each entry came when fewer than `limit` entries lay in the window that ends with it.
  Then no window holds more than `limit` entries, wherever it lies (`Spaced.countP_le`).
-/

namespace Window

section Expiry

variable {α T : Type*} [LinearOrder T] {f : α → T} {cutoff : T} {l : List α}

/-- From the first entry on that is recent, everything is. -/
theorem filter_eq_self_of_sorted {a : α} (hl : (a :: l).Pairwise fun a b => f a ≤ f b)
    (ha : cutoff < f a) : (a :: l).filter (fun b => cutoff < f b) = a :: l := by
  refine List.filter_eq_self.mpr fun b hb => ?_
  obtain rfl | hb := List.mem_cons.mp hb
  · simpa using ha
  · simpa using lt_of_lt_of_le ha ((List.pairwise_cons.mp hl).1 b hb)

/-- **Expiry.** The entries up to a time come first. -/
theorem exists_split_of_sorted (cutoff : T) (hl : l.Pairwise fun a b => f a ≤ f b) :
    ∃ old recent, l = old ++ recent ∧ (∀ a ∈ old, f a ≤ cutoff) ∧
      l.filter (fun a => cutoff < f a) = recent := by
  induction l with
  | nil => exact ⟨[], [], rfl, nofun, rfl⟩
  | cons a l ih =>
    by_cases hcut : f a ≤ cutoff
    · obtain ⟨old, recent, rfl, hold, hrecent⟩ := ih (List.pairwise_cons.mp hl).2
      refine ⟨a :: old, recent, rfl, ?_, ?_⟩
      · intro b hb
        obtain rfl | hb := List.mem_cons.mp hb
        · exact hcut
        · exact hold b hb
      · rw [List.filter_cons_of_neg (by simpa using hcut)]
        exact hrecent
    · exact ⟨[], a :: l, rfl, nofun, filter_eq_self_of_sorted hl (lt_of_not_ge hcut)⟩

/-- Dropping from the front, as long as the entries are too old. -/
theorem dropWhile_eq_filter (cutoff : T) (hl : l.Pairwise fun a b => f a ≤ f b) :
    l.dropWhile (fun a => f a ≤ cutoff) = l.filter fun a => cutoff < f a := by
  induction l with
  | nil => rfl
  | cons a l ih =>
    by_cases hcut : f a ≤ cutoff
    · rw [List.dropWhile_cons_of_pos (by simpa using hcut),
        List.filter_cons_of_neg (by simpa using hcut), ih (List.pairwise_cons.mp hl).2]
    · rw [List.dropWhile_cons_of_neg (by simpa using hcut),
        filter_eq_self_of_sorted hl (lt_of_not_ge hcut)]

/-- Dropping up to a time, and then up to a later one. -/
theorem dropWhile_dropWhile {cutoff' : T} (hcut : cutoff ≤ cutoff') (l : List α) :
    (l.dropWhile fun a => f a ≤ cutoff).dropWhile (fun a => f a ≤ cutoff') =
      l.dropWhile fun a => f a ≤ cutoff' := by
  induction l with
  | nil => rfl
  | cons a l ih =>
    by_cases ha : f a ≤ cutoff
    · rw [List.dropWhile_cons_of_pos (by simpa using ha), ih,
        List.dropWhile_cons_of_pos (by simpa using ha.trans hcut)]
    · rw [List.dropWhile_cons_of_neg (by simpa using ha)]

end Expiry

section Spacing

variable {T : Type*} [Sub T] [LinearOrder T]

/-- Each entry came when fewer than `limit` of the entries before it were more recent than
`width` ago. -/
def Spaced (limit : ℕ) (width : T) (l : List T) : Prop :=
  ∀ before t after, l = before ++ t :: after →
    before.countP (fun a => t - width < a) < limit

variable {limit : ℕ} {width : T} {l : List T}

theorem spaced_nil : Spaced limit width ([] : List T) := by
  intro before t after h
  exact absurd h (by simp)

theorem Spaced.concat (h : Spaced limit width l) {t : T}
    (ht : l.countP (fun a => t - width < a) < limit) : Spaced limit width (l ++ [t]) := by
  intro before s after hl
  obtain rfl | ⟨after, u, rfl⟩ := List.eq_nil_or_concat after
  · obtain ⟨rfl, hs⟩ := List.append_inj' hl rfl
    cases hs
    exact ht
  · rw [List.concat_eq_append, ← List.cons_append, ← List.append_assoc] at hl
    obtain ⟨rfl, -⟩ := List.append_inj' hl rfl
    exact h before s after rfl

theorem Spaced.left {l' : List T} (h : Spaced limit width (l ++ l')) : Spaced limit width l := by
  rintro before t after rfl
  exact h before t (after ++ l') (by simp)

/-- **No window holds too many.** Entries that lie less than `width` apart from each other are at
most `limit`. -/
theorem Spaced.countP_le (h : Spaced limit width l) (hl : l.Pairwise (· ≤ ·)) {p : T → Bool}
    (hp : ∀ a b, p a = true → p b = true → a ≤ b → b - width < a) : l.countP p ≤ limit := by
  -- by the last entry: those of the window before it lie in the window that ends with it
  induction l using List.reverseRecOn with
  | nil => exact Nat.zero_le _
  | append_singleton l t ih =>
    obtain ⟨hl, -, hle⟩ := List.pairwise_append.mp hl
    rw [List.countP_append]
    by_cases ht : p t = true
    · rw [List.countP_cons_of_pos ht, List.countP_nil]
      calc l.countP p + (0 + 1)
          ≤ (l.countP fun a => t - width < a) + 1 := by
            refine Nat.add_le_add_right (List.countP_mono_left fun a ha hpa => ?_) 1
            simpa using hp a t hpa ht (hle a ha t List.mem_cons_self)
        _ ≤ limit := h l t [] rfl
    · rw [List.countP_cons_of_neg ht, List.countP_nil]
      exact ih h.left hl

end Spacing

end Window
