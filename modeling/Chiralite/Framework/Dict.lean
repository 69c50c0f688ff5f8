import Mathlib.Data.List.Basic
import Mathlib.Data.List.Nodup

/-!
# Insertion-ordered dictionaries

A Python `dict` is a finite map that remembers the order in which its keys were first
inserted: assigning to a present key keeps its position, assigning to an absent key
appends, and deleting a key forgets its position. `Dict K V` is the list of its items
together with the proof that no key occurs twice, so that a lookup is unambiguous and the
item list is determined by the sequence of operations.

The rules every user needs are the four `get?` equations (`get?_set_self`,
`get?_set_of_ne`, `get?_erase_self`, `get?_erase_of_ne`), `mem_items_iff` relating lookups
to the item list, and `ofList_of_nodup`: a dictionary rebuilt from its own items, in order,
is the same dictionary.
-/

namespace Py

variable {K V : Type} [DecidableEq K]

/-! ### Association lists -/

/-- The value under `k`, if any. -/
def lookupL (k : K) : List (K × V) → Option V
  | [] => none
  | (k', v) :: l => if k' = k then some v else lookupL k l

/-- `d[k] = v` on the item list: in place when `k` is present, at the end otherwise. -/
def setL (k : K) (v : V) : List (K × V) → List (K × V)
  | [] => [(k, v)]
  | (k', v') :: l => if k' = k then (k', v) :: l else (k', v') :: setL k v l

/-- `del d[k]` on the item list. -/
def eraseL (k : K) (l : List (K × V)) : List (K × V) := l.filter fun kv => kv.1 ≠ k

theorem mem_keys_setL {k x : K} {v : V} {l : List (K × V)} :
    x ∈ (setL k v l).map Prod.fst ↔ x = k ∨ x ∈ l.map Prod.fst := by
  induction l with
  | nil => simp [setL]
  | cons kv l ih =>
    obtain ⟨k', v'⟩ := kv
    by_cases h : k' = k
    · subst h
      rw [setL, if_pos rfl]
      simp
    · rw [setL, if_neg h, List.map_cons, List.mem_cons, ih, List.map_cons, List.mem_cons]
      tauto

theorem nodup_setL {k : K} {v : V} {l : List (K × V)} (h : (l.map Prod.fst).Nodup) :
    ((setL k v l).map Prod.fst).Nodup := by
  induction l with
  | nil => simp [setL]
  | cons kv l ih =>
    obtain ⟨k', v'⟩ := kv
    obtain ⟨hk, hl⟩ := List.nodup_cons.mp h
    by_cases hkk : k' = k
    · rw [setL, if_pos hkk]
      exact h
    · rw [setL, if_neg hkk]
      refine List.nodup_cons.mpr ⟨?_, ih hl⟩
      -- the key in front is not the one that is set, and not among the others
      rw [mem_keys_setL]
      rintro (rfl | hmem)
      · exact hkk rfl
      · exact hk hmem

theorem nodup_eraseL {k : K} {l : List (K × V)} (h : (l.map Prod.fst).Nodup) :
    ((eraseL k l).map Prod.fst).Nodup :=
  List.Nodup.sublist (List.filter_sublist.map Prod.fst) h

theorem lookupL_setL (k x : K) (v : V) (l : List (K × V)) :
    lookupL x (setL k v l) = if x = k then some v else lookupL x l := by
  induction l with
  | nil =>
    by_cases h : k = x
    · subst h; simp [setL, lookupL]
    · simp [setL, lookupL, h, Ne.symm h]
  | cons kv l ih =>
    obtain ⟨k', v'⟩ := kv
    -- the key is found here and its value replaced, or the assignment is further back
    by_cases hk : k' = k
    · subst hk
      rw [setL, if_pos rfl, lookupL, lookupL]
      by_cases hx : k' = x
      · subst hx; simp
      · rw [if_neg hx, if_neg hx, if_neg (Ne.symm hx)]
    · rw [setL, if_neg hk, lookupL, lookupL, ih]
      by_cases hx : k' = x
      · subst hx; simp [hk]
      · rw [if_neg hx, if_neg hx]

theorem lookupL_eraseL (k x : K) (l : List (K × V)) :
    lookupL x (eraseL k l) = if x = k then none else lookupL x l := by
  induction l with
  | nil => simp [eraseL, lookupL]
  | cons kv l ih =>
    obtain ⟨k', v'⟩ := kv
    unfold eraseL at ih ⊢
    -- the entry in front goes or stays
    by_cases hk : k' = k
    · subst hk
      rw [List.filter_cons_of_neg (by simp), ih, lookupL]
      by_cases hx : x = k'
      · rw [if_pos hx, if_pos hx]
      · rw [if_neg hx, if_neg hx, if_neg (Ne.symm hx)]
    · rw [List.filter_cons_of_pos (by simpa using hk), lookupL, lookupL, ih]
      by_cases hx : k' = x
      · subst hx; simp [hk]
      · rw [if_neg hx, if_neg hx]

theorem lookupL_eq_some_iff {k : K} {v : V} {l : List (K × V)}
    (h : (l.map Prod.fst).Nodup) : lookupL k l = some v ↔ (k, v) ∈ l := by
  induction l with
  | nil => simp [lookupL]
  | cons kv l ih =>
    obtain ⟨k', v'⟩ := kv
    obtain ⟨hk, hl⟩ := List.nodup_cons.mp h
    rw [lookupL]
    by_cases hkk : k' = k
    · subst hkk
      -- the key occurs here, and by distinctness nowhere else
      rw [if_pos rfl, List.mem_cons]
      constructor
      · intro hv
        exact Or.inl (by rw [Option.some.inj hv])
      · rintro (heq | hmem)
        · rw [(Prod.mk.inj heq).2]
        · exact absurd (List.mem_map_of_mem hmem) hk
    · rw [if_neg hkk, ih hl, List.mem_cons]
      constructor
      · exact Or.inr
      · rintro (heq | hmem)
        · exact absurd (Prod.mk.inj heq).1.symm hkk
        · exact hmem

/-- A key is looked up in the first list, and then in the second. -/
theorem lookupL_append (k : K) (l m : List (K × V)) :
    lookupL k (l ++ m) = (lookupL k l).or (lookupL k m) := by
  induction l with
  | nil => rfl
  | cons kv l ih =>
    obtain ⟨k', v⟩ := kv
    rw [List.cons_append, lookupL, lookupL]
    split
    · rfl
    · exact ih

theorem lookupL_map_snd {W : Type} (f : V → W) (k : K) (l : List (K × V)) :
    lookupL k (l.map fun kv => (kv.1, f kv.2)) = (lookupL k l).map f := by
  induction l with
  | nil => rfl
  | cons kv l ih =>
    rw [List.map_cons, lookupL, lookupL, ih]
    split
    · rfl
    · rfl

/-- Assigning to an absent key appends. -/
theorem setL_of_notMem {k : K} {v : V} {l : List (K × V)} (h : k ∉ l.map Prod.fst) :
    setL k v l = l ++ [(k, v)] := by
  induction l with
  | nil => rfl
  | cons kv l ih =>
    obtain ⟨k', v'⟩ := kv
    rw [List.map_cons, List.mem_cons, not_or] at h
    rw [setL, if_neg (Ne.symm h.1), ih h.2, List.cons_append]

theorem map_setL {W : Type} (f : V → W) (k : K) (v : V) (l : List (K × V)) :
    ((setL k v l).map fun kv => (kv.1, f kv.2)) =
      setL k (f v) (l.map fun kv => (kv.1, f kv.2)) := by
  induction l with
  | nil => rfl
  | cons kv l ih =>
    obtain ⟨k', v'⟩ := kv
    rw [List.map_cons, setL, setL]
    by_cases h : k' = k
    · rw [if_pos h, if_pos h, List.map_cons]
    · rw [if_neg h, if_neg h, List.map_cons, ih]

theorem mem_setL {k : K} {v : V} {l : List (K × V)} {kv : K × V}
    (h : kv ∈ setL k v l) : kv = (k, v) ∨ kv ∈ l := by
  induction l with
  | nil => exact .inl (List.mem_singleton.mp h)
  | cons kv' l ih =>
    obtain ⟨k', v'⟩ := kv'
    by_cases hk : k' = k
    · rw [setL, if_pos hk, hk] at h
      rcases List.mem_cons.mp h with rfl | hmem
      · exact .inl rfl
      · exact .inr (List.mem_cons_of_mem _ hmem)
    · rw [setL, if_neg hk] at h
      rcases List.mem_cons.mp h with rfl | hmem
      · exact .inr List.mem_cons_self
      · exact (ih hmem).imp id (List.mem_cons_of_mem _)

/-- What is assigned to a key is forgotten with the key. -/
theorem eraseL_setL (k : K) (v : V) (l : List (K × V)) : eraseL k (setL k v l) = eraseL k l := by
  induction l with
  | nil => simp [setL, eraseL]
  | cons kv l ih =>
    obtain ⟨k', v'⟩ := kv
    unfold eraseL at ih ⊢
    by_cases hk : k' = k
    · rw [setL, if_pos hk, List.filter_cons_of_neg (by simpa using hk),
        List.filter_cons_of_neg (by simpa using hk)]
    · rw [setL, if_neg hk, List.filter_cons_of_pos (by simpa using hk),
        List.filter_cons_of_pos (by simpa using hk), ih]

/-! ### Dictionaries -/

/-- A Python `dict`: its items in insertion order, no key twice. -/
structure Dict (K V : Type) where
  /-- The items in insertion order. -/
  items : List (K × V)
  /-- No key occurs twice. -/
  nodup : (items.map Prod.fst).Nodup
  deriving DecidableEq

namespace Dict

omit [DecidableEq K] in
theorem ext {d e : Dict K V} (h : d.items = e.items) : d = e := by
  obtain ⟨l, hl⟩ := d
  obtain ⟨m, hm⟩ := e
  obtain rfl : l = m := h
  rfl

/-- `{}`. -/
def empty : Dict K V := ⟨[], List.nodup_nil⟩

/-- `d.get(k)`. -/
def get? (d : Dict K V) (k : K) : Option V := lookupL k d.items

/-- `d[k] = v`. -/
def set (d : Dict K V) (k : K) (v : V) : Dict K V := ⟨setL k v d.items, nodup_setL d.nodup⟩

/-- `del d[k]`. -/
def erase (d : Dict K V) (k : K) : Dict K V := ⟨eraseL k d.items, nodup_eraseL d.nodup⟩

/-- `d.popitem(last=False)` of an `OrderedDict`: the oldest item goes. -/
def popFirst (d : Dict K V) : Dict K V where
  items := d.items.tail
  nodup := by
    rw [List.map_tail]
    exact d.nodup.sublist (List.tail_sublist _)

/-- The dictionary built by assigning the pairs of a list one after the other. -/
def ofList (l : List (K × V)) : Dict K V := l.foldl (fun d kv => d.set kv.1 kv.2) empty

@[simp] theorem get?_empty (k : K) : (empty : Dict K V).get? k = none := rfl

@[simp] theorem get?_set_self (d : Dict K V) (k : K) (v : V) : (d.set k v).get? k = some v := by
  unfold get? set
  rw [lookupL_setL, if_pos rfl]

theorem get?_set_of_ne (d : Dict K V) {k x : K} (v : V) (h : x ≠ k) :
    (d.set k v).get? x = d.get? x := by
  unfold get? set
  rw [lookupL_setL, if_neg h]

@[simp] theorem get?_erase_self (d : Dict K V) (k : K) : (d.erase k).get? k = none := by
  unfold get? erase
  rw [lookupL_eraseL, if_pos rfl]

theorem get?_erase_of_ne (d : Dict K V) {k x : K} (h : x ≠ k) :
    (d.erase k).get? x = d.get? x := by
  unfold get? erase
  rw [lookupL_eraseL, if_neg h]

theorem erase_set_self (d : Dict K V) (k : K) (v : V) : (d.set k v).erase k = d.erase k :=
  ext (eraseL_setL k v d.items)

theorem erase_erase_self (d : Dict K V) (k : K) : (d.erase k).erase k = d.erase k := by
  refine ext ?_
  show eraseL k (eraseL k d.items) = eraseL k d.items
  unfold eraseL
  rw [List.filter_filter]
  simp

/-- An absent key goes to the end. -/
theorem items_set_of_get?_eq_none {d : Dict K V} {k : K} (h : d.get? k = none) (v : V) :
    (d.set k v).items = d.items ++ [(k, v)] := by
  refine setL_of_notMem fun hmem => ?_
  obtain ⟨⟨k', v'⟩, hkv, rfl⟩ := List.mem_map.mp hmem
  rw [get?, (lookupL_eq_some_iff d.nodup).mpr hkv] at h
  cases h

/-- Several keys are deleted. -/
theorem items_foldl_erase (ks : List K) (d : Dict K V) :
    (ks.foldl erase d).items = d.items.filter fun kv => kv.1 ∉ ks := by
  induction ks generalizing d with
  | nil => simp
  | cons k ks ih =>
    rw [List.foldl_cons, ih]
    show (eraseL k d.items).filter _ = _
    unfold eraseL
    rw [List.filter_filter]
    simp [Bool.and_comm]

theorem mem_items_iff (d : Dict K V) {k : K} {v : V} :
    (k, v) ∈ d.items ↔ d.get? k = some v :=
  (lookupL_eq_some_iff d.nodup).symm

/-- Deleting an absent key changes nothing. -/
theorem erase_of_get?_eq_none {d : Dict K V} {k : K} (h : d.get? k = none) : d.erase k = d := by
  refine ext (List.filter_eq_self.mpr ?_)
  rintro ⟨k', v⟩ hkv
  refine decide_eq_true ?_
  rintro rfl
  rw [(d.mem_items_iff).mp hkv] at h
  cases h

theorem length_items_erase_le (d : Dict K V) (k : K) :
    (d.erase k).items.length ≤ d.items.length := List.length_filter_le _ _

/-- What is found after a deletion was there before it, under another key. -/
theorem get?_erase_eq_some_iff (d : Dict K V) {k x : K} {v : V} :
    (d.erase k).get? x = some v ↔ x ≠ k ∧ d.get? x = some v := by
  by_cases hx : x = k
  · rw [hx, get?_erase_self]
    simp
  · rw [get?_erase_of_ne d hx]
    simp [hx]

/-- Without its oldest item, a dictionary has no other keys than before. -/
theorem get?_popFirst_eq_none {d : Dict K V} {k : K} (h : d.get? k = none) :
    d.popFirst.get? k = none := by
  cases hget : d.popFirst.get? k with
  | none => rfl
  | some v =>
    have hmem : (k, v) ∈ d.items := List.mem_of_mem_tail ((mem_items_iff d.popFirst).mpr hget)
    rw [(mem_items_iff d).mp hmem] at h
    cases h

/-- The items of a dictionary built from a list whose keys are new and distinct. -/
theorem items_foldl_set (l : List (K × V)) (d : Dict K V)
    (h : ((d.items ++ l).map Prod.fst).Nodup) :
    (l.foldl (fun d kv => d.set kv.1 kv.2) d).items = d.items ++ l := by
  induction l generalizing d with
  | nil => rw [List.foldl_nil, List.append_nil]
  | cons kv l ih =>
    -- each key is new when its turn comes, so that its item goes to the end
    have hnot : kv.1 ∉ d.items.map Prod.fst := by
      intro hmem
      rw [List.map_append, List.map_cons] at h
      exact (List.nodup_append.mp h).2.2 _ hmem _ List.mem_cons_self rfl
    have hset : (d.set kv.1 kv.2).items = d.items ++ [kv] := setL_of_notMem hnot
    rw [List.foldl_cons, ih, hset, List.append_assoc, List.singleton_append]
    rw [hset, List.append_assoc, List.singleton_append]
    exact h

/-- **Rebuilding a dictionary from its items**, in order, gives the same dictionary. -/
theorem ofList_of_nodup (d : Dict K V) : ofList d.items = d := by
  refine ext ?_
  exact items_foldl_set d.items (empty : Dict K V) d.nodup

/-- Each value replaced. -/
def map {W : Type} (f : V → W) (d : Dict K V) : Dict K W where
  items := d.items.map fun kv => (kv.1, f kv.2)
  nodup := by
    rw [List.map_map]
    exact d.nodup

theorem get?_map {W : Type} (f : V → W) (d : Dict K V) (k : K) :
    (d.map f).get? k = (d.get? k).map f :=
  lookupL_map_snd f k d.items

theorem map_set {W : Type} (f : V → W) (d : Dict K V) (k : K) (v : V) :
    (d.set k v).map f = (d.map f).set k (f v) :=
  ext (map_setL f k v d.items)

theorem map_erase {W : Type} (f : V → W) (d : Dict K V) (k : K) :
    (d.erase k).map f = (d.map f).erase k := by
  refine ext ?_
  show (eraseL k d.items).map _ = eraseL k (d.items.map _)
  unfold eraseL
  rw [List.filter_map]
  rfl

/-- The items of a dictionary built from a list come from the list. -/
theorem mem_items_ofList {l : List (K × V)} {kv : K × V}
    (h : kv ∈ (ofList l : Dict K V).items) : kv ∈ l := by
  have hfold : ∀ d : Dict K V, kv ∈ (l.foldl (fun d kv => d.set kv.1 kv.2) d).items →
      kv ∈ d.items ∨ kv ∈ l := by
    clear h
    induction l with
    | nil => exact fun d h => .inl h
    | cons kv' l ih =>
      intro d h
      rcases ih _ h with hset | hmem
      · rcases mem_setL hset with rfl | hmem
        · exact .inr List.mem_cons_self
        · exact .inl hmem
      · exact .inr (List.mem_cons_of_mem _ hmem)
  exact (hfold empty h).resolve_left List.not_mem_nil

/-- A dictionary rebuilt from its items with each value replaced. -/
theorem get?_ofList_map {W : Type} (d : Dict K V) (f : V → W) (k : K) :
    (ofList (d.items.map fun kv => (kv.1, f kv.2))).get? k = (d.get? k).map f := by
  have hkeys : ((d.items.map fun kv => (kv.1, f kv.2)).map Prod.fst).Nodup := by
    rw [List.map_map]
    exact d.nodup
  have hitems : (ofList (d.items.map fun kv => (kv.1, f kv.2))).items =
      d.items.map fun kv => (kv.1, f kv.2) := items_foldl_set _ (empty : Dict K W) hkeys
  rw [get?, hitems, lookupL_map_snd, get?]

end Dict

end Py
