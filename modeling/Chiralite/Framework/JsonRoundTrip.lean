import Mathlib.Data.Fintype.Basic
import Chiralite.Framework.Json

/-!
# The JSON round trip

`loads (dumps v) = some v` for every `Codable` value (`loads_dumps`): keys hold Unicode
scalar values, strings have no surrogate pair written as two characters, no object repeats a
key, and numbers are integers. The value is read back to the letter, members in order.

The proof follows the printer. A printed character is read back as its own items
(`scanUnits_escape`), and items of scalar characters join to the characters they came from
(`joinUnits_escapeUnits`); a string with a pair written as two characters prints as its merged
form does (`dumpStr_mergeSurrogates`). A printed number is read up to the first character that
cannot continue it (`Stop`), which after a value is always a separator or a closing bracket. The
induction over the value carries the fuel bound `size`, and `size_le_length` says that the length
of the text is enough.

Printed text is printable ASCII (`dumps_printable`), so that it never contains a line
boundary, and an object is printed between its braces (`dumps_obj_shape`).
-/

namespace Py
namespace Json

/-! ### Strings -/

theorem hexVal_hexDigit : ∀ n, n < 16 → hexVal (hexDigit n) = some n := by decide

/-- A printed `\uXXXX` is read back as its unit. -/
theorem scanUnits_uEscape {n : Nat} (h : n < 0x10000) (t : Str) :
    scanUnits .plain (uEscape n ++ t) =
      (scanUnits .plain t).map fun p => (.esc n :: p.1, p.2) := by
  have hu : lit "\\u" = [0x5c, 0x75] := by decide
  have hn : (((0 * 16 + n / 0x1000 % 16) * 16 + n / 0x100 % 16) * 16 + n / 0x10 % 16) * 16 +
      n % 16 = n := by omega
  unfold uEscape
  rw [hu]
  simp only [List.cons_append, List.nil_append]
  rw [scanUnits, if_neg (by decide), if_pos (by decide), scanUnits, if_pos (by decide)]
  -- the four digits, most significant first
  rw [scanUnits, hexVal_hexDigit _ (by omega)]
  simp only [show (4 : Nat) ≠ 1 by decide, if_false, show 4 - 1 = 3 from rfl]
  rw [scanUnits, hexVal_hexDigit _ (by omega)]
  simp only [show (3 : Nat) ≠ 1 by decide, if_false, show 3 - 1 = 2 from rfl]
  rw [scanUnits, hexVal_hexDigit _ (by omega)]
  simp only [show (2 : Nat) ≠ 1 by decide, if_false, show 2 - 1 = 1 from rfl]
  rw [scanUnits, hexVal_hexDigit _ (by omega)]
  simp only [if_true, hn]

/-- The items a printed character is read back as. -/
def escapeUnits (c : CodePoint) : List Unit16 :=
  if c.val = 0x22 ∨ c.val = 0x5c ∨ c.val = 0x0a ∨ c.val = 0x0d ∨ c.val = 0x09 ∨ c.val = 0x0c ∨
      c.val = 0x08 ∨ isPrintable c = true then [.char c]
  else if c.val < 0x10000 then [.esc c.val]
  else [.esc (0xd800 + (c.val - 0x10000) / 0x400), .esc (0xdc00 + (c.val - 0x10000) % 0x400)]

/-- A two-character escape is read back as its character. -/
theorem scanUnits_simple {e x : CodePoint} (hu : e.val ≠ 0x75) (he : simpleEscape e = some x)
    (t : Str) :
    scanUnits .plain (0x5c :: e :: t) =
      (scanUnits .plain t).map fun p => (.char x :: p.1, p.2) := by
  rw [scanUnits, if_neg (by decide), if_pos (by decide), scanUnits, if_neg hu, he]

/-- A character above the control range that is neither quote nor backslash is read back as
itself. -/
theorem scanUnits_plain {c : CodePoint} (hq : c.val ≠ 0x22) (hb : c.val ≠ 0x5c)
    (hc : 0x20 ≤ c.val) (t : Str) :
    scanUnits .plain (c :: t) = (scanUnits .plain t).map fun p => (.char c :: p.1, p.2) := by
  rw [scanUnits, if_neg hq, if_neg hb, if_neg (by omega)]

theorem scanUnits_escape (c : CodePoint) (t : Str) :
    scanUnits .plain (escape c ++ t) =
      (scanUnits .plain t).map fun p => (escapeUnits c ++ p.1, p.2) := by
  have hval : ∀ {k : Nat} (hk : k < 0x110000), c.val = k → c = ⟨k, hk⟩ :=
    fun _ h => Fin.ext h
  unfold escape escapeUnits
  -- the seven characters with a short escape, in the order in which `escape` tests them
  by_cases h1 : c.val = 0x22
  · obtain rfl := hval (by decide) h1
    exact scanUnits_simple (e := 0x22) (by decide) (by decide) t
  rw [if_neg h1]
  by_cases h2 : c.val = 0x5c
  · obtain rfl := hval (by decide) h2
    exact scanUnits_simple (e := 0x5c) (by decide) (by decide) t
  rw [if_neg h2]
  by_cases h3 : c.val = 0x0a
  · obtain rfl := hval (by decide) h3
    exact scanUnits_simple (e := 0x6e) (by decide) (by decide) t
  rw [if_neg h3]
  by_cases h4 : c.val = 0x0d
  · obtain rfl := hval (by decide) h4
    exact scanUnits_simple (e := 0x72) (by decide) (by decide) t
  rw [if_neg h4]
  by_cases h5 : c.val = 0x09
  · obtain rfl := hval (by decide) h5
    exact scanUnits_simple (e := 0x74) (by decide) (by decide) t
  rw [if_neg h5]
  by_cases h6 : c.val = 0x0c
  · obtain rfl := hval (by decide) h6
    exact scanUnits_simple (e := 0x66) (by decide) (by decide) t
  rw [if_neg h6]
  by_cases h7 : c.val = 0x08
  · obtain rfl := hval (by decide) h7
    exact scanUnits_simple (e := 0x62) (by decide) (by decide) t
  rw [if_neg h7]
  -- a printable character stands for itself, everything else is a `\u` escape
  by_cases h8 : isPrintable c = true
  · rw [if_pos h8, if_pos (by tauto)]
    simp only [isPrintable, Bool.and_eq_true, decide_eq_true_eq] at h8
    exact scanUnits_plain h1 h2 h8.1 t
  have hspecial : ¬ (c.val = 0x22 ∨ c.val = 0x5c ∨ c.val = 0x0a ∨ c.val = 0x0d ∨ c.val = 0x09 ∨
      c.val = 0x0c ∨ c.val = 0x08 ∨ isPrintable c = true) := by tauto
  rw [if_neg h8, if_neg hspecial]
  by_cases h9 : c.val < 0x10000
  · rw [if_pos h9, if_pos h9]
    exact scanUnits_uEscape h9 t
  · -- beyond the basic plane: the two halves of the pair are read one after the other
    rw [if_neg h9, if_neg h9, List.append_assoc, scanUnits_uEscape (by omega),
      scanUnits_uEscape (by omega), Option.map_map]
    rfl

/-- **The surrogate rule on printed characters.** The items of a scalar character join to that
character, whatever items follow: a unit below `0x10000` is not a surrogate, and the two
halves of a pair meet each other first. -/
theorem joinUnits_escapeUnits {c : CodePoint} (hc : isSurrogate c = false) (us : List Unit16) :
    joinUnits (escapeUnits c ++ us) = c :: joinUnits us := by
  have hlt := c.isLt
  unfold escapeUnits
  split
  · rw [List.singleton_append, joinUnits]
  · split
    · -- one unit, not a surrogate
      have hn : ¬ (0xd800 ≤ c.val ∧ c.val ≤ 0xdbff) := by
        simp only [isSurrogate, Bool.and_eq_false_iff, decide_eq_false_iff_not] at hc
        omega
      have hchar : unitChar c.val = c := Fin.ext (Nat.mod_eq_of_lt hlt)
      rw [List.singleton_append]
      -- what comes next is looked at only after a high surrogate
      cases us with
      | nil => rw [joinUnits, joinUnits, hchar]
      | cons u us =>
        cases u with
        | char d => rw [joinUnits, joinUnits, hchar]
        | esc m => rw [joinUnits, if_neg (fun h => hn h.1), hchar]
    · -- a pair
      have hpair : 0x10000 + (0xd800 + (c.val - 0x10000) / 0x400 - 0xd800) * 0x400 +
          (0xdc00 + (c.val - 0x10000) % 0x400 - 0xdc00) = c.val := by omega
      have hchar : unitChar c.val = c := Fin.ext (Nat.mod_eq_of_lt hlt)
      rw [List.cons_append, List.singleton_append, joinUnits, if_pos (by omega), hpair, hchar]

theorem scanUnits_flatMap (s : Str) (t : Str) :
    scanUnits .plain (s.flatMap escape ++ 0x22 :: t) = some (s.flatMap escapeUnits, t) := by
  induction s with
  | nil => rfl
  | cons c s ih =>
    rw [List.flatMap_cons, List.flatMap_cons, List.append_assoc, scanUnits_escape, ih]
    rfl

/-- A string that printing and reading back leaves alone: no high surrogate stands in front of
a low one. -/
def Stable (s : Str) : Prop := joinUnits (s.flatMap escapeUnits) = s

theorem stable_of_scalar {s : Str} (hs : Scalar s) : Stable s := by
  unfold Stable
  induction s with
  | nil => rfl
  | cons c s ih =>
    rw [List.flatMap_cons, joinUnits_escapeUnits (hs c List.mem_cons_self),
      ih (fun d hd => hs d (List.mem_cons_of_mem _ hd))]

/-- **String literals round-trip.** -/
theorem scanStr_dumpStr {s : Str} (hs : Stable s) (t : Str) :
    scanStr (s.flatMap escape ++ 0x22 :: t) = some (s, t) := by
  unfold scanStr
  rw [scanUnits_flatMap, Option.map_some, hs]

/-- A printed string literal, followed by more text, starts with its quote. -/
theorem dumpStr_append (s t : Str) :
    dumpStr s ++ t = 0x22 :: (s.flatMap escape ++ 0x22 :: t) := by
  have hq : lit "\"" = [0x22] := by decide
  unfold dumpStr
  rw [hq, List.append_assoc, List.append_assoc, List.singleton_append, List.singleton_append]

/-! ### Strings with surrogates

A string that is not stable is printed as its merged form is, so that reading it back gives
the merged form. -/

/-- An item as a printed character is read back. -/
def Canonical : Unit16 → Prop
  | .char c => escapeUnits c = [.char c]
  | .esc n => n < 0x10000 ∧ escapeUnits (unitChar n) = [.esc n]

/-- The items of a surrogate pair, from the character it stands for. -/
theorem escapeUnits_pair {n m : Nat} (hn : 0xd800 ≤ n ∧ n ≤ 0xdbff)
    (hm : 0xdc00 ≤ m ∧ m ≤ 0xdfff) :
    escapeUnits (unitChar (0x10000 + (n - 0xd800) * 0x400 + (m - 0xdc00))) =
      [.esc n, .esc m] := by
  have hval : (unitChar (0x10000 + (n - 0xd800) * 0x400 + (m - 0xdc00))).val =
      0x10000 + (n - 0xd800) * 0x400 + (m - 0xdc00) := Nat.mod_eq_of_lt (by omega)
  have hhigh : 0xd800 + (0x10000 + (n - 0xd800) * 0x400 + (m - 0xdc00) - 0x10000) / 0x400 = n := by
    omega
  have hlow : 0xdc00 + (0x10000 + (n - 0xd800) * 0x400 + (m - 0xdc00) - 0x10000) % 0x400 = m := by
    omega
  unfold escapeUnits
  rw [hval, if_neg, if_neg (by omega), hhigh, hlow]
  simp only [isPrintable, hval, Bool.and_eq_true, decide_eq_true_eq]
  omega

theorem canonical_escapeUnits (c : CodePoint) : ∀ u ∈ escapeUnits c, Canonical u := by
  have hlt := c.isLt
  -- an escape from 0x100 on is printed as itself: it is no special and no printable character
  have hunit : ∀ n, 0x100 ≤ n → n < 0x10000 → Canonical (.esc n) := by
    intro n h1 h2
    have hval : (unitChar n).val = n := Nat.mod_eq_of_lt (by omega)
    refine ⟨h2, ?_⟩
    unfold escapeUnits
    rw [hval, if_neg, if_pos h2]
    simp only [isPrintable, hval, Bool.and_eq_true, decide_eq_true_eq]
    omega
  intro u hu
  by_cases hspecial : c.val = 0x22 ∨ c.val = 0x5c ∨ c.val = 0x0a ∨ c.val = 0x0d ∨ c.val = 0x09 ∨
      c.val = 0x0c ∨ c.val = 0x08 ∨ isPrintable c = true
  · have hself : escapeUnits c = [.char c] := if_pos hspecial
    rw [hself, List.mem_singleton] at hu
    rw [hu]
    exact hself
  · by_cases hbmp : c.val < 0x10000
    -- in the basic plane one escape, beyond it the two halves of a pair
    · have hself : escapeUnits c = [.esc c.val] := by
        unfold escapeUnits
        rw [if_neg hspecial, if_pos hbmp]
      have hchar : unitChar c.val = c := Fin.ext (Nat.mod_eq_of_lt hlt)
      rw [hself, List.mem_singleton] at hu
      rw [hu]
      exact ⟨hbmp, by rw [hchar, hself]⟩
    · unfold escapeUnits at hu
      rw [if_neg hspecial, if_neg hbmp] at hu
      rcases List.mem_cons.mp hu with rfl | hu
      · exact hunit _ (by omega) (by omega)
      · rw [List.mem_singleton.mp hu]
        exact hunit _ (by omega) (by omega)

/-- Joining canonical items loses nothing: the characters print as the items they came from. -/
theorem flatMap_joinUnits : ∀ {us : List Unit16}, (∀ u ∈ us, Canonical u) →
    (joinUnits us).flatMap escapeUnits = us
  | [], _ => rfl
  | .char c :: us, h => by
    have hc : escapeUnits c = [.char c] := h _ List.mem_cons_self
    rw [joinUnits, List.flatMap_cons, hc,
      flatMap_joinUnits (fun u hu => h u (List.mem_cons_of_mem _ hu))]
    rfl
  | [.esc n], h => by
    have hn : escapeUnits (unitChar n) = [.esc n] := (h _ List.mem_cons_self).2
    rw [joinUnits, List.flatMap_cons, hn]
    rfl
  | .esc n :: .char c :: us, h => by
    have hn : escapeUnits (unitChar n) = [.esc n] := (h _ List.mem_cons_self).2
    have hc : escapeUnits c = [.char c] := h (.char c) (by simp)
    rw [joinUnits, List.flatMap_cons, List.flatMap_cons, hn, hc,
      flatMap_joinUnits (fun u hu => h u (by simp [hu]))]
    rfl
  | .esc n :: .esc m :: us, h => by
    have hn : escapeUnits (unitChar n) = [.esc n] := (h _ List.mem_cons_self).2
    -- two escapes: a pair becomes one character, which prints as the pair again
    rw [joinUnits]
    split
    · next hpair =>
      rw [List.flatMap_cons, escapeUnits_pair hpair.1 hpair.2,
        flatMap_joinUnits (fun u hu => h u (by simp [hu]))]
      rfl
    · rw [List.flatMap_cons, hn,
        flatMap_joinUnits (fun u hu => h u (List.mem_cons_of_mem _ hu))]
      rfl

/-- A string with every surrogate pair replaced by the character it stands for. -/
def mergeSurrogates (s : Str) : Str := joinUnits (s.flatMap escapeUnits)

theorem flatMap_mergeSurrogates (s : Str) :
    (mergeSurrogates s).flatMap escapeUnits = s.flatMap escapeUnits := by
  refine flatMap_joinUnits fun u hu => ?_
  obtain ⟨c, -, hc⟩ := List.mem_flatMap.mp hu
  exact canonical_escapeUnits c u hc

theorem stable_mergeSurrogates (s : Str) : Stable (mergeSurrogates s) := by
  unfold Stable
  rw [flatMap_mergeSurrogates]
  rfl

/-- The text of an item. -/
def unitText : Unit16 → Str
  | .char c => escape c
  | .esc n => uEscape n

theorem escape_eq_unitText (c : CodePoint) : escape c = (escapeUnits c).flatMap unitText := by
  by_cases hspecial : c.val = 0x22 ∨ c.val = 0x5c ∨ c.val = 0x0a ∨ c.val = 0x0d ∨ c.val = 0x09 ∨
      c.val = 0x0c ∨ c.val = 0x08 ∨ isPrintable c = true
  · have hself : escapeUnits c = [.char c] := if_pos hspecial
    rw [hself, List.flatMap_cons, List.flatMap_nil, List.append_nil]
    rfl
  · have hu : escapeUnits c = if c.val < 0x10000 then [.esc c.val] else
        [.esc (0xd800 + (c.val - 0x10000) / 0x400), .esc (0xdc00 + (c.val - 0x10000) % 0x400)] :=
      if_neg hspecial
    simp only [not_or] at hspecial
    obtain ⟨h1, h2, h3, h4, h5, h6, h7, h8⟩ := hspecial
    unfold escape
    rw [hu, if_neg h1, if_neg h2, if_neg h3, if_neg h4, if_neg h5, if_neg h6, if_neg h7,
      if_neg h8]
    split
    · rw [List.flatMap_cons, List.flatMap_nil, List.append_nil]
      rfl
    · rw [List.flatMap_cons, List.flatMap_cons, List.flatMap_nil, List.append_nil]
      rfl

/-- A string and its merged form print alike. -/
theorem dumpStr_mergeSurrogates (s : Str) : dumpStr (mergeSurrogates s) = dumpStr s := by
  have htext : ∀ t : Str, t.flatMap escape = (t.flatMap escapeUnits).flatMap unitText := by
    intro t
    rw [List.flatMap_assoc]
    exact List.flatMap_congr fun c _ => escape_eq_unitText c
  unfold dumpStr
  rw [htext, flatMap_mergeSurrogates, ← htext]

/-! ### Values the codec carries -/

mutual

/-- The values `dumps` and `loads` carry faithfully. -/
def Codable : Value → Prop
  | .null => True
  | .bool _ => True
  | .int _ => True
  | .float _ => False
  | .str s => Stable s
  | .arr vs => CodableElems vs
  | .obj kvs => (kvs.map Prod.fst).Nodup ∧ CodableMembers kvs

/-- Every element is codable. -/
def CodableElems : List Value → Prop
  | [] => True
  | v :: vs => Codable v ∧ CodableElems vs

/-- Every key is scalar and every value codable. -/
def CodableMembers : List (Str × Value) → Prop
  | [] => True
  | (k, v) :: kvs => Scalar k ∧ Codable v ∧ CodableMembers kvs

end

theorem codableMembers_iff {kvs : List (Str × Value)} :
    CodableMembers kvs ↔ ∀ kv ∈ kvs, Scalar kv.1 ∧ Codable kv.2 := by
  induction kvs with
  | nil => simp [CodableMembers]
  | cons kv kvs ih =>
    obtain ⟨k, v⟩ := kv
    rw [CodableMembers, ih]
    simp only [List.forall_mem_cons]
    tauto

/-- A dictionary with fixed keys is encodable when its values are. -/
theorem codable_obj {kvs : List (Str × Value)} {keys : List Str}
    (hkeys : kvs.map Prod.fst = keys) (hnodup : keys.Nodup) (hscalar : ∀ k ∈ keys, Scalar k)
    (hvalues : ∀ v ∈ kvs.map Prod.snd, Codable v) : Codable (.obj kvs) := by
  subst hkeys
  refine ⟨hnodup, codableMembers_iff.mpr fun kv hkv => ⟨?_, ?_⟩⟩
  · exact hscalar _ (List.mem_map_of_mem hkv)
  · exact hvalues _ (List.mem_map_of_mem hkv)

/-! ### Numbers -/

/-- A continuation that cannot extend a number. -/
def Stop (r : Str) : Prop :=
  ∀ c t, r = c :: t → isDigit c = false ∧ c.val ≠ 0x2e ∧ c.val ≠ 0x65 ∧ c.val ≠ 0x45

theorem stop_nil : Stop [] := fun _ _ h => absurd h (by simp)

theorem stop_cons {c : CodePoint} {t : Str} (h : isDigit c = false ∧ c.val ≠ 0x2e ∧
    c.val ≠ 0x65 ∧ c.val ≠ 0x45) : Stop (c :: t) := by
  intro d u hd
  obtain ⟨rfl, rfl⟩ := List.cons.inj hd
  exact h

theorem spanDigits_append {ds r : Str} (hd : ∀ c ∈ ds, isDigit c = true)
    (hr : ∀ c t, r = c :: t → isDigit c = false) : spanDigits (ds ++ r) = (ds, r) := by
  induction ds with
  | nil =>
    cases r with
    | nil => rfl
    | cons c t => rw [List.nil_append, spanDigits, if_neg (by rw [hr c t rfl]; simp)]
  | cons c ds ih =>
    rw [List.cons_append, spanDigits, if_pos (hd c List.mem_cons_self),
      ih (fun d hm => hd d (List.mem_cons_of_mem _ hm))]

theorem scanFrac_of_stop {r : Str} (hr : Stop r) : scanFrac r = ([], r) := by
  cases r with
  | nil => rfl
  | cons c t => rw [scanFrac, if_neg (fun h => (hr c t rfl).2.1 h.1)]

theorem scanExp_of_stop {r : Str} (hr : Stop r) : scanExp r = ([], r) := by
  cases r with
  | nil => rfl
  | cons c t =>
    obtain ⟨-, -, he, hE⟩ := hr c t rfl
    rw [scanExp, if_neg (fun h => h.1.elim he hE)]

theorem isDigit_digitChar : ∀ n, n < 10 → isDigit (ofChar n.digitChar) = true ∧
    (ofChar n.digitChar).val - 0x30 = n ∧ ((ofChar n.digitChar).val = 0x30 ↔ n = 0) := by
  decide

theorem dumpNat_of_lt {n : Nat} (h : n < 10) : dumpNat n = [ofChar n.digitChar] := by
  unfold dumpNat
  rw [Nat.toDigits_of_lt_base h]
  rfl

theorem dumpNat_of_ge {n : Nat} (h : 10 ≤ n) :
    dumpNat n = dumpNat (n / 10) ++ [ofChar (n % 10).digitChar] := by
  unfold dumpNat
  rw [Nat.toDigits_of_base_le (by decide) h, List.map_append]
  rfl

theorem dumpNat_digits (n : Nat) : ∀ c ∈ dumpNat n, isDigit c = true := by
  induction n using Nat.strongRecOn with
  | _ n ih =>
    -- the last digit is split off, as `Nat.toDigits` does it
    by_cases h : n < 10
    · rw [dumpNat_of_lt h]
      intro c hc
      rw [List.mem_singleton.mp hc]
      exact (isDigit_digitChar n h).1
    · rw [dumpNat_of_ge (by omega)]
      intro c hc
      rcases List.mem_append.mp hc with hc | hc
      · exact ih (n / 10) (by omega) c hc
      · rw [List.mem_singleton.mp hc]
        exact (isDigit_digitChar (n % 10) (by omega)).1

theorem ofDigits_dumpNat (n : Nat) : ofDigits (dumpNat n) = n := by
  induction n using Nat.strongRecOn with
  | _ n ih =>
    by_cases h : n < 10
    · rw [dumpNat_of_lt h]
      change 0 * 10 + ((ofChar n.digitChar).val - 0x30) = n
      rw [(isDigit_digitChar n h).2.1]
      omega
    · have hrec := ih (n / 10) (by omega)
      unfold ofDigits at hrec ⊢
      rw [dumpNat_of_ge (by omega), List.foldl_append, hrec, List.foldl_cons, List.foldl_nil,
        (isDigit_digitChar (n % 10) (by omega)).2.1]
      omega

/-- A printed natural number is `0`, or starts with a non-zero digit. -/
theorem dumpNat_shape (n : Nat) :
    (n = 0 ∧ dumpNat n = [0x30]) ∨
      ∃ c ds, dumpNat n = c :: ds ∧ isDigit c = true ∧ c.val ≠ 0x30 := by
  induction n using Nat.strongRecOn with
  | _ n ih =>
    by_cases h : n < 10
    · rw [dumpNat_of_lt h]
      -- a single digit: only zero is printed as `0`
      by_cases h0 : n = 0
      · subst h0
        exact Or.inl ⟨rfl, by decide⟩
      · have hd := isDigit_digitChar n h
        exact Or.inr ⟨_, [], rfl, hd.1, fun hz => h0 (hd.2.2.mp hz)⟩
    · rw [dumpNat_of_ge (by omega)]
      -- more digits: the first one is that of `n / 10`, which is not zero
      rcases ih (n / 10) (by omega) with ⟨h0, -⟩ | ⟨c, ds, hds, hc, hz⟩
      · omega
      · exact Or.inr ⟨c, ds ++ [ofChar (n % 10).digitChar], by rw [hds]; rfl, hc, hz⟩

theorem scanIntPart_dumpNat (n : Nat) {r : Str} (hr : Stop r) :
    scanIntPart (dumpNat n ++ r) = some (dumpNat n, r) := by
  rcases dumpNat_shape n with ⟨-, h⟩ | ⟨c, ds, hds, hc, hz⟩
  · rw [h]
    rfl
  · have hall : ∀ d ∈ ds, isDigit d = true := fun d hd =>
      dumpNat_digits n d (by rw [hds]; exact List.mem_cons_of_mem _ hd)
    rw [hds, List.cons_append, scanIntPart, if_neg hz, if_pos hc,
      spanDigits_append hall (fun c t h => (hr c t h).1)]

theorem scanMagnitude_dumpNat (neg : Bool) (n : Nat) {r : Str} (hr : Stop r) :
    scanMagnitude neg (dumpNat n ++ r) =
      some (.int (if neg then -(n : Int) else n), r) := by
  unfold scanMagnitude
  rw [scanIntPart_dumpNat n hr]
  simp only [scanFrac_of_stop hr, scanExp_of_stop hr, and_self, if_true, ofDigits_dumpNat]

/-- A digit is none of the characters that select another kind of value. -/
theorem digit_val {c : CodePoint} (h : isDigit c = true) : 0x30 ≤ c.val ∧ c.val ≤ 0x39 := by
  simpa [isDigit] using h

/-- **Integers round-trip**, up to the first character that cannot extend the number. -/
theorem scanAtom_dumpInt (n : Int) {r : Str} (hr : Stop r) :
    scanAtom (dumpInt n ++ r) = some (.int n, r) := by
  have hminus : lit "-" = [0x2d] := by decide
  unfold dumpInt
  -- the sign is read first; without one a digit stands in front
  by_cases hn : n < 0
  · have hz : -(n.natAbs : Int) = n := by omega
    have hval : (0x2d : CodePoint).val = 0x2d := by decide
    rw [if_pos hn, hminus, List.append_assoc, List.singleton_append, scanAtom]
    rw [if_neg (by rw [hval]; decide), if_neg (by rw [hval]; decide),
      if_neg (by rw [hval]; decide), if_neg (by rw [hval]; decide),
      if_neg (by rw [hval]; decide), if_pos hval, scanMagnitude_dumpNat true _ hr]
    simp only [if_true, hz]
  · have hz : ((n.natAbs : Nat) : Int) = n := by omega
    rw [if_neg hn]
    have hscan := scanMagnitude_dumpNat false n.natAbs hr
    obtain ⟨c, ds, hds, hc⟩ : ∃ c ds, dumpNat n.natAbs = c :: ds ∧ isDigit c = true := by
      rcases dumpNat_shape n.natAbs with ⟨-, h⟩ | ⟨c, ds, hds, hc, -⟩
      · exact ⟨_, [], h, by decide⟩
      · exact ⟨c, ds, hds, hc⟩
    have hv := digit_val hc
    rw [hds, List.cons_append] at hscan ⊢
    rw [scanAtom, if_neg (by omega), if_neg (by omega), if_neg (by omega), if_neg (by omega),
      if_neg (by omega), if_neg (by omega), hscan]
    simp only [Bool.false_eq_true, if_false, hz]

/-! ### Values -/

mutual

/-- The fuel one printed value needs. -/
def size : Value → Nat
  | .arr [] => 1
  | .arr (v :: vs) => 2 + size v + sizeElems vs
  | .obj [] => 1
  | .obj ((_, v) :: kvs) => 2 + size v + sizeMembers kvs
  | _ => 1

/-- The fuel the elements after the first need. -/
def sizeElems : List Value → Nat
  | [] => 0
  | v :: vs => 1 + size v + sizeElems vs

/-- The fuel the members after the first need. -/
def sizeMembers : List (Str × Value) → Nat
  | [] => 0
  | (_, v) :: kvs => 1 + size v + sizeMembers kvs

end

theorem skipWs_cons {c : CodePoint} (h : isWs c = false) (t : Str) : skipWs (c :: t) = c :: t := by
  rw [skipWs, if_neg (by rw [h]; simp)]

theorem dumpInt_head (n : Int) :
    ∃ c t, dumpInt n = c :: t ∧ (c.val = 0x2d ∨ isDigit c = true) := by
  unfold dumpInt
  by_cases hn : n < 0
  · rw [if_pos hn]
    exact ⟨_, dumpNat n.natAbs, rfl, Or.inl (by decide)⟩
  · rw [if_neg hn]
    rcases dumpNat_shape n.natAbs with ⟨-, h⟩ | ⟨c, ds, hds, hc, -⟩
    · exact ⟨_, [], h, Or.inr (by decide)⟩
    · exact ⟨c, ds, hds, Or.inr hc⟩

/-- A printed value starts with a character that is neither whitespace nor a closing
bracket. -/
theorem dumps_head {v : Value} (hv : Codable v) :
    ∃ c t, dumps v = c :: t ∧ isWs c = false ∧ c.val ≠ 0x5d ∧ c.val ≠ 0x7d := by
  cases v with
  | null => exact ⟨_, _, rfl, by decide, by decide, by decide⟩
  | bool b => cases b <;> exact ⟨_, _, rfl, by decide, by decide, by decide⟩
  | int n =>
    obtain ⟨c, t, h, hc⟩ := dumpInt_head n
    refine ⟨c, t, h, ?_⟩
    rcases hc with hc | hc
    · simp [isWs, hc]
    · have hd := digit_val hc
      simp only [isWs, Bool.or_eq_false_iff, beq_eq_false_iff_ne]
      omega
  | float t => exact hv.elim
  | str s => exact ⟨_, _, rfl, by decide, by decide, by decide⟩
  | arr vs => cases vs <;> exact ⟨_, _, rfl, by decide, by decide, by decide⟩
  | obj kvs =>
    cases kvs with
    | nil => exact ⟨_, _, rfl, by decide, by decide, by decide⟩
    | cons kv kvs => exact ⟨_, _, rfl, by decide, by decide, by decide⟩

/-- What follows an array element stops a number. -/
theorem stop_dumpElems (vs : List Value) (r : Str) : Stop (dumpElems vs ++ r) := by
  cases vs <;> exact stop_cons (by decide)

/-- What follows an object member stops a number. -/
theorem stop_dumpMembers (kvs : List (Str × Value)) (r : Str) : Stop (dumpMembers kvs ++ r) := by
  cases kvs <;> exact stop_cons (by decide)

theorem lit_lbracket : lit "[" = [0x5b] := by decide

theorem lit_rbracket : lit "]" = [0x5d] := by decide

theorem lit_lbrace : lit "\x7b" = [0x7b] := by decide

theorem lit_rbrace : lit "\x7d" = [0x7d] := by decide

theorem lit_comma : lit "," = [0x2c] := by decide

theorem lit_colon : lit ":" = [0x3a] := by decide

/-- One array element and what follows it. -/
theorem parseElems_step {fuel : Nat} {t r t₂ : Str} {v : Value} {d : CodePoint}
    (hv : parseValue fuel t = some (v, d :: r)) (hd : isWs d = false) (ht : t₂ = r) :
    parseElems (fuel + 1) t =
      if d.val = 0x5d then some ([v], t₂)
      else if d.val = 0x2c then (parseElems fuel (skipWs t₂)).map fun p => (v :: p.1, p.2)
      else none := by
  subst ht
  rw [parseElems, hv]
  simp only [skipWs_cons hd]

/-- One object member and what follows it. -/
theorem parseMembers_step {fuel : Nat} {t r u : Str} {k : Str} {v : Value} {d : CodePoint}
    (hk : scanStr t = some (k, 0x3a :: u)) (hv : parseValue fuel (skipWs u) = some (v, d :: r))
    (hd : isWs d = false) :
    parseMembers (fuel + 1) (0x22 :: t) =
      if d.val = 0x7d then some ([(k, v)], r)
      else if d.val = 0x2c then
        (parseMembers fuel (skipWs r)).map fun p => ((k, v) :: p.1, p.2)
      else none := by
  rw [parseMembers, if_pos (by decide), hk]
  simp only [skipWs_cons (show isWs 0x3a = false by decide)]
  rw [if_pos (by decide), hv]
  simp only [skipWs_cons hd]

mutual

/-- **A printed value is read back**, leaving the text that follows it. -/
theorem parseValue_dumps : ∀ (v : Value) (fuel : Nat) (r : Str), Codable v → size v ≤ fuel →
    Stop r → parseValue fuel (dumps v ++ r) = some (v, r)
  | v, 0, _, _, hf, _ => by
    -- every value needs some fuel
    exfalso
    cases v with
    | arr vs => cases vs <;> simp [size] at hf
    | obj kvs =>
      cases kvs with
      | nil => simp [size] at hf
      | cons kv kvs => simp [size] at hf
    | null => simp [size] at hf
    | bool b => simp [size] at hf
    | int n => simp [size] at hf
    | float t => simp [size] at hf
    | str s => simp [size] at hf
  | .null, _ + 1, _, _, _, _ => rfl
  | .bool true, _ + 1, _, _, _, _ => rfl
  | .bool false, _ + 1, _, _, _, _ => rfl
  | .float _, _ + 1, _, hc, _, _ => hc.elim
  | .int n, fuel + 1, r, _, _, hr => by
    have hscan := scanAtom_dumpInt n hr
    obtain ⟨c, t, h, hc⟩ := dumpInt_head n
    -- a sign or a digit begins neither a string nor an array nor an object
    have hne : c.val ≠ 0x22 ∧ c.val ≠ 0x5b ∧ c.val ≠ 0x7b := by
      rcases hc with hc | hc
      · omega
      · have hd := digit_val hc
        omega
    rw [dumps]
    rw [h, List.cons_append] at hscan ⊢
    rw [parseValue, if_neg hne.1, if_neg hne.2.1, if_neg hne.2.2, hscan]
  | .str s, fuel + 1, r, hc, _, _ => by
    rw [dumps, dumpStr_append, parseValue, if_pos (by decide), scanStr_dumpStr hc]
    rfl
  | .arr [], _ + 1, _, _, _, _ => rfl
  | .arr (v :: vs), fuel + 1, r, hc, hf, _ => by
    obtain ⟨c, t, h, hws, hbr, -⟩ := dumps_head hc.1
    rw [size] at hf
    have helems : parseElems fuel (dumps v ++ (dumpElems vs ++ r)) = some (v :: vs, r) :=
      parseElems_dumps v vs fuel r hc.1 hc.2 (by omega)
    rw [dumps, lit_lbracket, List.append_assoc, List.append_assoc, List.singleton_append,
      parseValue, if_neg (by decide), if_pos (by decide)]
    rw [h, List.cons_append] at helems ⊢
    simp only [skipWs_cons hws]
    rw [if_neg hbr, helems]
    rfl
  | .obj [], _ + 1, _, _, _, _ => rfl
  | .obj ((k, v) :: kvs), fuel + 1, r, hc, hf, _ => by
    obtain ⟨hnodup, hk, hv, hkvs⟩ := hc
    rw [size] at hf
    have hmem := parseMembers_dumps k v kvs fuel r hk hv hkvs (by omega)
    -- the keys are distinct, so that the dictionary keeps all the members in order
    have hdict : (Dict.ofList ((k, v) :: kvs)).items = (k, v) :: kvs :=
      congrArg Dict.items (Dict.ofList_of_nodup ⟨(k, v) :: kvs, hnodup⟩)
    rw [dumps, lit_lbrace, List.append_assoc, List.append_assoc, List.append_assoc,
      List.append_assoc, List.singleton_append, parseValue, if_neg (by decide),
      if_neg (by decide), if_pos (by decide)]
    rw [dumpStr_append] at hmem ⊢
    simp only [skipWs_cons (show isWs 0x22 = false by decide)]
    rw [if_neg (by decide), hmem, Option.map_some, hdict]

/-- The elements of a printed array. -/
theorem parseElems_dumps : ∀ (v : Value) (vs : List Value) (fuel : Nat) (r : Str), Codable v →
    CodableElems vs → size v + sizeElems vs < fuel →
    parseElems fuel (dumps v ++ (dumpElems vs ++ r)) = some (v :: vs, r)
  | _, _, 0, _, _, _, hf => absurd hf (Nat.not_lt_zero _)
  | v, [], fuel + 1, r, hv, _, hf => by
    have hval := parseValue_dumps v fuel (dumpElems [] ++ r) hv
      (by rw [sizeElems] at hf; omega) (stop_dumpElems [] r)
    rw [dumpElems, lit_rbracket, List.singleton_append] at hval ⊢
    rw [parseElems_step hval (by decide) rfl, if_pos (by decide)]
  | v, w :: vs, fuel + 1, r, hv, hvs, hf => by
    rw [sizeElems] at hf
    have hval := parseValue_dumps v fuel (dumpElems (w :: vs) ++ r) hv (by omega)
      (stop_dumpElems _ r)
    -- a separator, and then the elements that are left
    have hrest := parseElems_dumps w vs fuel r hvs.1 hvs.2 (by omega)
    obtain ⟨c, t, h, hws, -⟩ := dumps_head hvs.1
    rw [dumpElems, lit_comma, List.append_assoc, List.append_assoc, List.singleton_append]
      at hval ⊢
    rw [parseElems_step hval (by decide) rfl, if_neg (by decide), if_pos (by decide)]
    rw [h, List.cons_append] at hrest ⊢
    rw [skipWs_cons hws, hrest]
    rfl

/-- The members of a printed object. -/
theorem parseMembers_dumps : ∀ (k : Str) (v : Value) (kvs : List (Str × Value)) (fuel : Nat)
    (r : Str), Scalar k → Codable v → CodableMembers kvs → size v + sizeMembers kvs < fuel →
    parseMembers fuel (dumpStr k ++ (lit ":" ++ (dumps v ++ (dumpMembers kvs ++ r)))) =
      some ((k, v) :: kvs, r)
  | _, _, _, 0, _, _, _, _, hf => absurd hf (Nat.not_lt_zero _)
  | k, v, [], fuel + 1, r, hk, hv, _, hf => by
    have hval := parseValue_dumps v fuel (dumpMembers [] ++ r) hv
      (by rw [sizeMembers] at hf; omega) (stop_dumpMembers [] r)
    obtain ⟨c, t, h, hws, -⟩ := dumps_head hv
    rw [dumpMembers, lit_rbrace, List.singleton_append] at hval ⊢
    rw [lit_colon, List.singleton_append, dumpStr_append]
    have hskip : parseValue fuel (skipWs (dumps v ++ 0x7d :: r)) = some (v, 0x7d :: r) := by
      rw [h, List.cons_append] at hval ⊢
      rw [skipWs_cons hws, hval]
    rw [parseMembers_step (scanStr_dumpStr (stable_of_scalar hk) _) hskip (by decide),
      if_pos (by decide)]
  | k, v, (k', v') :: kvs, fuel + 1, r, hk, hv, hkvs, hf => by
    obtain ⟨hk', hv', hkvs'⟩ := hkvs
    rw [sizeMembers] at hf
    have hval := parseValue_dumps v fuel (dumpMembers ((k', v') :: kvs) ++ r) hv (by omega)
      (stop_dumpMembers _ r)
    have hrest := parseMembers_dumps k' v' kvs fuel r hk' hv' hkvs' (by omega)
    obtain ⟨c, t, h, hws, -⟩ := dumps_head hv
    rw [dumpMembers, lit_comma, List.append_assoc, List.append_assoc, List.append_assoc,
      List.append_assoc, List.singleton_append] at hval ⊢
    -- no whitespace is printed, so that there is none to skip
    have hskip : ∀ u, parseValue fuel (dumps v ++ 0x2c :: u) = some (v, 0x2c :: u) →
        parseValue fuel (skipWs (dumps v ++ 0x2c :: u)) = some (v, 0x2c :: u) := by
      intro u hu
      rw [h, List.cons_append] at hu ⊢
      rw [skipWs_cons hws, hu]
    have hcolon : lit ":" ++ (dumps v ++ 0x2c :: (dumpStr k' ++ (lit ":" ++ (dumps v' ++
        (dumpMembers kvs ++ r))))) = 0x3a :: (dumps v ++ 0x2c :: (dumpStr k' ++ (lit ":" ++
        (dumps v' ++ (dumpMembers kvs ++ r))))) := by rw [lit_colon, List.singleton_append]
    rw [hcolon, dumpStr_append k]
    rw [parseMembers_step (scanStr_dumpStr (stable_of_scalar hk) _) (hskip _ hval) (by decide),
      if_neg (by decide), if_pos (by decide)]
    rw [dumpStr_append k'] at hrest ⊢
    rw [skipWs_cons (show isWs 0x22 = false by decide), hrest]
    rfl

end

/-! ### Fuel -/

mutual

theorem size_le_length : ∀ v : Value, Codable v → size v ≤ (dumps v).length
  | .null, _ => by decide
  | .bool true, _ => by decide
  | .bool false, _ => by decide
  | .float _, hc => hc.elim
  | .int n, _ => by
    obtain ⟨c, t, h, -⟩ := dumpInt_head n
    rw [dumps, h]
    simp [size]
  | .str s, _ => by
    have h := dumpStr_append s []
    rw [List.append_nil] at h
    rw [dumps, h]
    simp [size]
  | .arr [], _ => by decide
  | .arr (v :: vs), hc => by
    have h1 := size_le_length v hc.1
    have h2 := sizeElems_lt_length vs hc.2
    rw [dumps, size, lit_lbracket]
    simp only [List.length_append, List.length_singleton]
    omega
  | .obj [], _ => by decide
  | .obj ((k, v) :: kvs), hc => by
    have h1 := size_le_length v hc.2.2.1
    have h2 := sizeMembers_lt_length kvs hc.2.2.2
    rw [dumps, size, lit_lbrace, lit_colon]
    simp only [List.length_append, List.length_singleton]
    omega

theorem sizeElems_lt_length : ∀ vs : List Value, CodableElems vs →
    sizeElems vs < (dumpElems vs).length
  | [], _ => by decide
  | v :: vs, hc => by
    have h1 := size_le_length v hc.1
    have h2 := sizeElems_lt_length vs hc.2
    rw [dumpElems, sizeElems, lit_comma]
    simp only [List.length_append, List.length_singleton]
    omega

theorem sizeMembers_lt_length : ∀ kvs : List (Str × Value), CodableMembers kvs →
    sizeMembers kvs < (dumpMembers kvs).length
  | [], _ => by decide
  | (k, v) :: kvs, hc => by
    have h1 := size_le_length v hc.2.1
    have h2 := sizeMembers_lt_length kvs hc.2.2
    rw [dumpMembers, sizeMembers, lit_comma, lit_colon]
    simp only [List.length_append, List.length_singleton]
    omega

end

/-- **The JSON round trip.** -/
theorem loads_dumps {v : Value} (hv : Codable v) : loads (dumps v) = some v := by
  obtain ⟨c, t, h, hws, -⟩ := dumps_head hv
  have hskip : skipWs (dumps v) = dumps v := by rw [h, skipWs_cons hws]
  have hfuel : size v ≤ (dumps v).length + 1 := Nat.le_succ_of_le (size_le_length v hv)
  have hparse := parseValue_dumps v _ [] hv hfuel stop_nil
  rw [List.append_nil] at hparse
  unfold loads
  rw [hskip, hparse]
  rfl

/-! ### The printed text -/

theorem printable_of_isDigit {c : CodePoint} (h : isDigit c = true) : isPrintable c = true := by
  have hd := digit_val h
  simp only [isPrintable, Bool.and_eq_true, decide_eq_true_eq]
  omega

theorem isPrintable_hexDigit : ∀ n, n < 16 → isPrintable (hexDigit n) = true := by decide

theorem uEscape_printable (n : Nat) : Printable (uEscape n) := by
  unfold uEscape
  refine Printable.append (by decide) ?_
  refine Printable.cons (isPrintable_hexDigit _ (by omega)) ?_
  refine Printable.cons (isPrintable_hexDigit _ (by omega)) ?_
  refine Printable.cons (isPrintable_hexDigit _ (by omega)) ?_
  exact Printable.cons (isPrintable_hexDigit _ (by omega)) (fun _ h => absurd h (by simp))

theorem printable_ite {p : Prop} [Decidable p] {s t : Str} (hs : p → Printable s)
    (ht : Printable t) : Printable (if p then s else t) := by
  by_cases hp : p
  · rw [if_pos hp]
    exact hs hp
  · rw [if_neg hp]
    exact ht

theorem escape_printable (c : CodePoint) : Printable (escape c) := by
  unfold escape
  -- the seven escapes that are written out
  refine printable_ite (fun _ => by decide) ?_
  refine printable_ite (fun _ => by decide) ?_
  refine printable_ite (fun _ => by decide) ?_
  refine printable_ite (fun _ => by decide) ?_
  refine printable_ite (fun _ => by decide) ?_
  refine printable_ite (fun _ => by decide) ?_
  refine printable_ite (fun _ => by decide) ?_
  -- a character that stands for itself, and one or two units by their numbers
  refine printable_ite (fun h => Printable.cons h fun _ h => absurd h (by simp)) ?_
  refine printable_ite (fun _ => uEscape_printable _) ?_
  exact Printable.append (uEscape_printable _) (uEscape_printable _)

theorem dumpStr_printable (s : Str) : Printable (dumpStr s) := by
  unfold dumpStr
  refine Printable.append (Printable.append (by decide) ?_) (by decide)
  intro c hc
  obtain ⟨d, -, hcd⟩ := List.mem_flatMap.mp hc
  exact escape_printable d c hcd

theorem dumpInt_printable (n : Int) : Printable (dumpInt n) := by
  have hnat : Printable (dumpNat n.natAbs) := fun c hc =>
    printable_of_isDigit (dumpNat_digits _ c hc)
  unfold dumpInt
  split
  · exact Printable.append (by decide) hnat
  · exact hnat

mutual

/-- **Printed text is printable ASCII** (`ensure_ascii`). -/
theorem dumps_printable : ∀ v : Value, Codable v → Printable (dumps v)
  | .null, _ => by decide
  | .bool true, _ => by decide
  | .bool false, _ => by decide
  | .float _, hc => hc.elim
  | .int n, _ => dumpInt_printable n
  | .str s, _ => dumpStr_printable s
  | .arr [], _ => by decide
  | .arr (v :: vs), hc => by
    rw [dumps]
    exact Printable.append (by decide)
      (Printable.append (dumps_printable v hc.1) (dumpElems_printable vs hc.2))
  | .obj [], _ => by decide
  | .obj ((k, v) :: kvs), hc => by
    rw [dumps]
    exact Printable.append (by decide) (Printable.append (dumpStr_printable k)
      (Printable.append (by decide) (Printable.append (dumps_printable v hc.2.2.1)
        (dumpMembers_printable kvs hc.2.2.2))))

theorem dumpElems_printable : ∀ vs : List Value, CodableElems vs → Printable (dumpElems vs)
  | [], _ => by decide
  | v :: vs, hc => by
    rw [dumpElems]
    exact Printable.append (by decide)
      (Printable.append (dumps_printable v hc.1) (dumpElems_printable vs hc.2))

theorem dumpMembers_printable : ∀ kvs : List (Str × Value), CodableMembers kvs →
    Printable (dumpMembers kvs)
  | [], _ => by decide
  | (k, v) :: kvs, hc => by
    rw [dumpMembers]
    exact Printable.append (by decide) (Printable.append (dumpStr_printable k)
      (Printable.append (by decide) (Printable.append (dumps_printable v hc.2.1)
        (dumpMembers_printable kvs hc.2.2))))

end

/-- An object is printable when its values are, whatever its keys. -/
theorem dumps_obj_printable {kvs : List (Str × Value)} (h : ∀ kv ∈ kvs, Printable (dumps kv.2)) :
    Printable (dumps (.obj kvs)) := by
  have hmembers : ∀ kvs : List (Str × Value), (∀ kv ∈ kvs, Printable (dumps kv.2)) →
      Printable (dumpMembers kvs) := by
    intro kvs h
    induction kvs with
    | nil => decide
    | cons kv kvs ih =>
      rw [dumpMembers]
      exact Printable.append (by decide) (Printable.append (dumpStr_printable kv.1)
        (Printable.append (by decide) (Printable.append (h kv List.mem_cons_self)
          (ih fun kv hkv => h kv (List.mem_cons_of_mem _ hkv)))))
  cases kvs with
  | nil => decide
  | cons kv kvs =>
    rw [dumps]
    exact Printable.append (by decide) (Printable.append (dumpStr_printable kv.1)
      (Printable.append (by decide) (Printable.append (h kv List.mem_cons_self)
        (hmembers kvs fun kv hkv => h kv (List.mem_cons_of_mem _ hkv)))))

theorem dumpMembers_last : ∀ kvs : List (Str × Value), ∃ s, dumpMembers kvs = s ++ [0x7d]
  | [] => ⟨[], by rw [dumpMembers, lit_rbrace]; rfl⟩
  | (k, v) :: kvs => by
    obtain ⟨s, hs⟩ := dumpMembers_last kvs
    refine ⟨lit "," ++ (dumpStr k ++ (lit ":" ++ (dumps v ++ s))), ?_⟩
    rw [dumpMembers, hs]
    simp only [List.append_assoc]

/-- An object is printed between its braces. -/
theorem dumps_obj_shape (kvs : List (Str × Value)) :
    ∃ s, dumps (.obj kvs) = 0x7b :: (s ++ [0x7d]) := by
  cases kvs with
  | nil => exact ⟨[], by rw [dumps]; decide⟩
  | cons kv kvs =>
    obtain ⟨k, v⟩ := kv
    obtain ⟨s, hs⟩ := dumpMembers_last kvs
    refine ⟨dumpStr k ++ (lit ":" ++ (dumps v ++ s)), ?_⟩
    rw [dumps, hs, lit_lbrace, List.singleton_append]
    simp only [List.append_assoc]

end Json
end Py
