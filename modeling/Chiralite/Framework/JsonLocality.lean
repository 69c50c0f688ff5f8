import Chiralite.Framework.JsonRoundTrip

/-!
# Locality of the JSON scanner

A successful scan depends only on the characters it consumed: more text after them changes
nothing but the rest (`extends_of_le`). The one exception is a number at the very
end of the text, which more digits would extend; `Delim` names the continuations that rule
this out, and inside an array or an object the separator or the closing bracket provides
one.

Two consequences concern a log of objects, one a line. A proper prefix of a printed object
is not a document (`loads_torn`), so a torn write is always detected; and text
after a printed object makes the whole line invalid (`loads_obj_append`), so two objects
run together on one line are not a document either.
-/

namespace Py
namespace Json

variable {t r x : Str}

/-! ### Characters, whitespace, string literals -/

theorem skipWs_append {d : CodePoint} (h : skipWs t = d :: r) :
    skipWs (t ++ x) = d :: (r ++ x) := by
  induction t with
  | nil => exact absurd h (by simp [skipWs])
  | cons c t ih =>
    rw [skipWs] at h
    rw [List.cons_append, skipWs]
    by_cases hc : isWs c = true
    · rw [if_pos hc] at h ⊢
      exact ih h
    · rw [if_neg hc] at h ⊢
      obtain ⟨rfl, rfl⟩ := List.cons.inj h
      rfl

theorem scanUnits_append {st : StrState} {us : List Unit16} (h : scanUnits st t = some (us, r)) :
    scanUnits st (t ++ x) = some (us, r ++ x) := by
  induction t generalizing st us with
  | nil => exact absurd h (by simp [scanUnits])
  | cons c t ih =>
    -- every branch that goes on consumes `c` and prepends at most one item
    have hmap : ∀ {u : Unit16} {st' : StrState},
        (scanUnits st' t).map (fun p => (u :: p.1, p.2)) = some (us, r) →
        (scanUnits st' (t ++ x)).map (fun p => (u :: p.1, p.2)) = some (us, r ++ x) := by
      intro u st' hm
      obtain ⟨⟨vs, r'⟩, hscan, heq⟩ := Option.map_eq_some_iff.mp hm
      obtain ⟨rfl, rfl⟩ := Prod.mk.inj heq
      rw [ih hscan]
      rfl
    cases st with
    | plain =>
      rw [scanUnits] at h
      rw [List.cons_append, scanUnits]
      by_cases h1 : c.val = 0x22
      · rw [if_pos h1] at h ⊢
        obtain ⟨rfl, rfl⟩ := Prod.mk.inj (Option.some.inj h)
        rfl
      rw [if_neg h1] at h ⊢
      by_cases h2 : c.val = 0x5c
      · rw [if_pos h2] at h ⊢
        exact ih h
      rw [if_neg h2] at h ⊢
      by_cases h3 : c.val < 0x20
      · rw [if_pos h3] at h
        exact absurd h (by simp)
      rw [if_neg h3] at h ⊢
      exact hmap h
    | escaped =>
      rw [scanUnits] at h
      rw [List.cons_append, scanUnits]
      by_cases h1 : c.val = 0x75
      · rw [if_pos h1] at h ⊢
        exact ih h
      rw [if_neg h1] at h ⊢
      cases hs : simpleEscape c with
      | none => rw [hs] at h; exact absurd h (by simp)
      | some e => rw [hs] at h; exact hmap h
    | hex acc due =>
      rw [scanUnits] at h
      rw [List.cons_append, scanUnits]
      cases hv : hexVal c with
      | none => rw [hv] at h; exact absurd h (by simp)
      | some d =>
        rw [hv] at h
        simp only at h ⊢
        by_cases h1 : due = 1
        · rw [if_pos h1] at h ⊢
          exact hmap h
        · rw [if_neg h1] at h ⊢
          exact ih h

theorem scanStr_append {s : Str} (h : scanStr t = some (s, r)) :
    scanStr (t ++ x) = some (s, r ++ x) := by
  unfold scanStr at h ⊢
  obtain ⟨⟨us, r'⟩, hscan, heq⟩ := Option.map_eq_some_iff.mp h
  obtain ⟨rfl, rfl⟩ := Prod.mk.inj heq
  rw [scanUnits_append hscan]
  rfl

theorem expect_append {k : Str} (h : expect k t = some r) : expect k (t ++ x) = some (r ++ x) := by
  induction k generalizing t with
  | nil => rw [expect] at h ⊢; rw [Option.some.inj h]
  | cons a k ih =>
    cases t with
    | nil => exact absurd h (by simp [expect])
    | cons c t =>
      rw [expect] at h
      rw [List.cons_append, expect]
      -- the word is compared character by character, and ends inside `t`
      by_cases hac : a = c
      · rw [if_pos hac] at h ⊢
        exact ih h
      · rw [if_neg hac] at h
        exact absurd h (by simp)

/-! ### Numbers -/

/-- A continuation that is there and cannot extend a number. -/
def Delim (r : Str) : Prop :=
  ∃ c r', r = c :: r' ∧ isDigit c = false ∧ c.val ≠ 0x2e ∧ c.val ≠ 0x65 ∧ c.val ≠ 0x45

theorem Delim.ne_nil (h : Delim r) : r ≠ [] := by
  obtain ⟨c, r', rfl, -⟩ := h
  simp

theorem spanDigits_append_of_ne_nil (h : (spanDigits t).2 ≠ []) :
    spanDigits (t ++ x) = ((spanDigits t).1, (spanDigits t).2 ++ x) := by
  induction t with
  | nil => exact absurd rfl h
  | cons c t ih =>
    rw [spanDigits] at h
    rw [List.cons_append, spanDigits, spanDigits]
    -- the digits end inside `t`, because something is left of it
    by_cases hc : isDigit c = true
    · rw [if_pos hc] at h
      rw [if_pos hc, if_pos hc, ih h]
    · rw [if_neg hc, if_neg hc]
      rfl

theorem scanSign_append (h : t ≠ []) :
    scanSign (t ++ x) = ((scanSign t).1, (scanSign t).2 ++ x) := by
  cases t with
  | nil => exact absurd rfl h
  | cons c t =>
    rw [List.cons_append, scanSign, scanSign]
    split <;> rfl

/-- The exponent is local when the text after it is `Delim`: an `e` without digits is left in
the text, where `Delim` excludes it. -/
theorem scanExp_append (h : Delim (scanExp t).2) :
    scanExp (t ++ x) = ((scanExp t).1, (scanExp t).2 ++ x) := by
  cases t with
  | nil => exact absurd rfl h.ne_nil
  | cons c t =>
    rw [scanExp] at h
    rw [List.cons_append, scanExp, scanExp]
    by_cases hc : (c.val = 0x65 ∨ c.val = 0x45) ∧ (spanDigits (scanSign t).2).1 ≠ []
    · rw [if_pos hc] at h
      -- an exponent was read: its digits end inside `t`
      have ht : t ≠ [] := by
        rintro rfl
        exact hc.2 rfl
      have hspan := spanDigits_append_of_ne_nil (x := x) h.ne_nil
      rw [if_pos hc, scanSign_append ht, hspan, if_pos hc]
    · rw [if_neg hc] at h
      obtain ⟨d, r', hd, -, -, he, hE⟩ := h
      obtain ⟨rfl, rfl⟩ := List.cons.inj hd
      rw [if_neg hc, if_neg (fun hh => hh.1.elim he hE)]
      rfl

theorem scanFrac_append (h : Delim (scanExp (scanFrac t).2).2) :
    scanFrac (t ++ x) = ((scanFrac t).1, (scanFrac t).2 ++ x) := by
  cases t with
  | nil => exact absurd rfl h.ne_nil
  | cons c t =>
    rw [scanFrac] at h
    rw [List.cons_append, scanFrac, scanFrac]
    by_cases hc : c.val = 0x2e ∧ (spanDigits t).1 ≠ []
    · rw [if_pos hc] at h
      -- the digits of the fraction end inside `t`, since `Delim` text follows them
      have hne : (spanDigits t).2 ≠ [] := by
        intro hnil
        simp only [hnil] at h
        exact h.ne_nil rfl
      rw [if_pos hc, spanDigits_append_of_ne_nil hne, if_pos hc]
    · rw [if_neg hc] at h
      by_cases hdot : c.val = 0x2e
      · -- a `.` without digits stays in the text, where `Delim` excludes it
        have hexp : scanExp (c :: t) = ([], c :: t) := by
          rw [scanExp, if_neg (by omega)]
        rw [hexp] at h
        obtain ⟨d, r', hd, -, hd', -⟩ := h
        obtain ⟨rfl, rfl⟩ := List.cons.inj hd
        exact absurd hdot hd'
      · rw [if_neg hc, if_neg (fun hh => hdot hh.1)]
        rfl

theorem scanIntPart_append {ds : Str} (h : scanIntPart t = some (ds, r)) (hr : r ≠ []) :
    scanIntPart (t ++ x) = some (ds, r ++ x) := by
  cases t with
  | nil => exact absurd h (by simp [scanIntPart])
  | cons c t =>
    rw [scanIntPart] at h
    rw [List.cons_append, scanIntPart]
    -- a leading zero stands alone; otherwise the digits end inside `t`
    by_cases h0 : c.val = 0x30
    · rw [if_pos h0] at h ⊢
      obtain ⟨rfl, rfl⟩ := Prod.mk.inj (Option.some.inj h)
      rfl
    rw [if_neg h0] at h ⊢
    by_cases hd : isDigit c = true
    · rw [if_pos hd] at h ⊢
      obtain ⟨rfl, rfl⟩ := Prod.mk.inj (Option.some.inj h)
      rw [spanDigits_append_of_ne_nil hr]
    · rw [if_neg hd] at h
      exact absurd h (by simp)

theorem scanMagnitude_append {neg : Bool} {v : Value} (h : scanMagnitude neg t = some (v, r))
    (hr : Delim r) : scanMagnitude neg (t ++ x) = some (v, r ++ x) := by
  unfold scanMagnitude at h ⊢
  cases hi : scanIntPart t with
  | none => rw [hi] at h; exact absurd h (by simp)
  | some p =>
    obtain ⟨ds, t₁⟩ := p
    rw [hi] at h
    simp only at h
    -- integer part, fraction and exponent are each local, and the last one leaves `r`
    have hrest : (scanExp (scanFrac t₁).2).2 = r := by
      split at h <;> exact (Prod.mk.inj (Option.some.inj h)).2
    subst hrest
    have hfrac := scanFrac_append (x := x) hr
    have hexp := scanExp_append (x := x) hr
    have ht₁ : t₁ ≠ [] := by
      rintro rfl
      exact hr.ne_nil rfl
    rw [scanIntPart_append hi ht₁]
    simp only [hfrac, hexp]
    split at h
    · next hc =>
      rw [if_pos hc, (Prod.mk.inj (Option.some.inj h)).1]
    · next hc =>
      rw [if_neg hc, (Prod.mk.inj (Option.some.inj h)).1]

theorem scanAtom_append {v : Value} (h : scanAtom t = some (v, r)) (hr : Delim r) :
    scanAtom (t ++ x) = some (v, r ++ x) := by
  cases t with
  | nil => exact absurd h (by simp [scanAtom])
  | cons c t =>
    have hword : ∀ {k : Str} {w : Value},
        (expect k t).map (fun q => (w, q)) = some (v, r) →
        (expect k (t ++ x)).map (fun q => (w, q)) = some (v, r ++ x) := by
      intro k w hm
      obtain ⟨q, hq, heq⟩ := Option.map_eq_some_iff.mp hm
      obtain ⟨rfl, rfl⟩ := Prod.mk.inj heq
      rw [expect_append hq]
      rfl
    rw [scanAtom] at h
    rw [List.cons_append, scanAtom]
    by_cases h1 : c.val = 0x6e
    · rw [if_pos h1] at h ⊢; exact hword h
    rw [if_neg h1] at h ⊢
    by_cases h2 : c.val = 0x74
    · rw [if_pos h2] at h ⊢; exact hword h
    rw [if_neg h2] at h ⊢
    by_cases h3 : c.val = 0x66
    · rw [if_pos h3] at h ⊢; exact hword h
    rw [if_neg h3] at h ⊢
    by_cases h4 : c.val = 0x4e
    · rw [if_pos h4] at h ⊢; exact hword h
    rw [if_neg h4] at h ⊢
    by_cases h5 : c.val = 0x49
    · rw [if_pos h5] at h ⊢; exact hword h
    rw [if_neg h5] at h ⊢
    by_cases h6 : c.val = 0x2d
    · rw [if_pos h6] at h ⊢
      cases hm : scanMagnitude true t with
      | some p =>
        rw [hm] at h
        obtain rfl := Option.some.inj h
        rw [scanMagnitude_append hm hr]
      | none =>
        -- `-Infinity`: the text starts with `I`, which no number does
        rw [hm] at h
        obtain ⟨q, hq, -⟩ := Option.map_eq_some_iff.mp h
        have hI : ∃ t', t = 0x49 :: t' := by
          cases t with
          | nil => exact absurd hq (by simp [lit, expect])
          | cons d t' =>
            change expect (0x49 :: lit "nfinity") (d :: t') = some q at hq
            rw [expect] at hq
            by_cases hd : (0x49 : CodePoint) = d
            · exact ⟨t', by rw [hd]⟩
            · rw [if_neg hd] at hq
              exact absurd hq (by simp)
        obtain ⟨t', rfl⟩ := hI
        have hnone : scanMagnitude true (0x49 :: t' ++ x) = none := rfl
        rw [hnone]
        exact hword h
    rw [if_neg h6] at h ⊢
    rw [← List.cons_append]
    exact scanMagnitude_append h hr

/-! ### Values -/

/-- After a value, a separator or a closing bracket (behind whitespace or not) is `Delim`. -/
theorem delim_of_skipWs {d : CodePoint} (h : skipWs t = d :: r)
    (hd : d.val = 0x2c ∨ d.val = 0x5d ∨ d.val = 0x7d) : Delim t := by
  cases t with
  | nil => exact absurd h (by simp [skipWs])
  | cons c t =>
    refine ⟨c, t, rfl, ?_⟩
    rw [skipWs] at h
    by_cases hc : isWs c = true
    · simp only [isWs, Bool.or_eq_true, beq_iff_eq] at hc
      simp only [isDigit, Bool.and_eq_false_iff, decide_eq_false_iff_not]
      omega
    · rw [if_neg hc] at h
      obtain ⟨rfl, -⟩ := List.cons.inj h
      simp only [isDigit, Bool.and_eq_false_iff, decide_eq_false_iff_not]
      omega

/-- What the three parsers do on `t` with fuel `fuel` they do on `t ++ x` with fuel `fuel'`,
leaving `x` behind what they left. A value must not end in a number that `x` could extend. -/
structure Extends (x : Str) (fuel fuel' : Nat) : Prop where
  value : ∀ {t r : Str} {v : Value}, parseValue fuel t = some (v, r) → x = [] ∨ Delim r →
    parseValue fuel' (t ++ x) = some (v, r ++ x)
  elems : ∀ {t r : Str} {vs : List Value}, parseElems fuel t = some (vs, r) →
    parseElems fuel' (t ++ x) = some (vs, r ++ x)
  members : ∀ {t r : Str} {kvs : List (Str × Value)}, parseMembers fuel t = some (kvs, r) →
    parseMembers fuel' (t ++ x) = some (kvs, r ++ x)

variable {fuel fuel' : Nat}

/-- No parser succeeds on the empty text. -/
theorem parseElems_nil (fuel : Nat) : parseElems fuel [] = none := by
  cases fuel with
  | zero => rfl
  | succ f => cases f <;> simp [parseElems, parseValue]

theorem parseValue_nil (fuel : Nat) : parseValue fuel [] = none := by
  cases fuel <;> rfl

theorem parseMembers_nil (fuel : Nat) : parseMembers fuel [] = none := by
  cases fuel <;> rfl

theorem skipWs_append_of_ne_nil (h : skipWs t ≠ []) : skipWs (t ++ x) = skipWs t ++ x := by
  cases hs : skipWs t with
  | nil => exact absurd hs h
  | cons d r => exact skipWs_append hs

theorem Extends.value_succ (ih : Extends x fuel fuel') {v : Value}
    (h : parseValue (fuel + 1) t = some (v, r)) (hr : x = [] ∨ Delim r) :
    parseValue (fuel' + 1) (t ++ x) = some (v, r ++ x) := by
  cases t with
  | nil => exact absurd h (by simp [parseValue])
  | cons c t =>
    rw [parseValue] at h
    rw [List.cons_append, parseValue]
    -- the first character decides, and it is the same in both texts: a string
    by_cases h1 : c.val = 0x22
    · rw [if_pos h1] at h ⊢
      obtain ⟨⟨s, q⟩, hs, heq⟩ := Option.map_eq_some_iff.mp h
      obtain ⟨rfl, rfl⟩ := Prod.mk.inj heq
      rw [scanStr_append hs]
      rfl
    rw [if_neg h1] at h ⊢
    -- an array, by the hypothesis for the smaller fuel
    by_cases h2 : c.val = 0x5b
    · rw [if_pos h2] at h ⊢
      cases hs : skipWs t with
      | nil => rw [hs] at h; exact absurd h (by simp)
      | cons d t' =>
        rw [hs] at h
        rw [skipWs_append hs]
        simp only at h ⊢
        by_cases hd : d.val = 0x5d
        · rw [if_pos hd] at h ⊢
          obtain ⟨rfl, rfl⟩ := Prod.mk.inj (Option.some.inj h)
          rfl
        · rw [if_neg hd] at h ⊢
          obtain ⟨⟨vs, q⟩, he, heq⟩ := Option.map_eq_some_iff.mp h
          obtain ⟨rfl, rfl⟩ := Prod.mk.inj heq
          rw [← List.cons_append, ih.elems he]
          rfl
    rw [if_neg h2] at h ⊢
    -- an object, likewise
    by_cases h3 : c.val = 0x7b
    · rw [if_pos h3] at h ⊢
      cases hs : skipWs t with
      | nil => rw [hs] at h; exact absurd h (by simp)
      | cons d t' =>
        rw [hs] at h
        rw [skipWs_append hs]
        simp only at h ⊢
        by_cases hd : d.val = 0x7d
        · rw [if_pos hd] at h ⊢
          obtain ⟨rfl, rfl⟩ := Prod.mk.inj (Option.some.inj h)
          rfl
        · rw [if_neg hd] at h ⊢
          obtain ⟨⟨kvs, q⟩, he, heq⟩ := Option.map_eq_some_iff.mp h
          obtain ⟨rfl, rfl⟩ := Prod.mk.inj heq
          rw [← List.cons_append, ih.members he]
          rfl
    rw [if_neg h3] at h ⊢
    rw [← List.cons_append]
    -- a word or a number; only here does it matter what comes next
    rcases hr with rfl | hr
    · rw [List.append_nil, List.append_nil]
      exact h
    · exact scanAtom_append h hr

theorem Extends.elems_succ (ih : Extends x fuel fuel') {vs : List Value}
    (h : parseElems (fuel + 1) t = some (vs, r)) :
    parseElems (fuel' + 1) (t ++ x) = some (vs, r ++ x) := by
  rw [parseElems] at h ⊢
  cases hv : parseValue fuel t with
  | none => rw [hv] at h; exact absurd h (by simp)
  | some p =>
    obtain ⟨v, t₁⟩ := p
    rw [hv] at h
    simp only at h
    -- a separator or the bracket follows each element, which makes the rest `Delim`
    cases hs : skipWs t₁ with
    | nil => rw [hs] at h; exact absurd h (by simp)
    | cons d t₂ =>
      rw [hs] at h
      simp only at h
      by_cases h1 : d.val = 0x5d
      · -- the last element
        rw [if_pos h1] at h
        obtain ⟨rfl, rfl⟩ := Prod.mk.inj (Option.some.inj h)
        rw [ih.value hv (Or.inr (delim_of_skipWs hs (by omega)))]
        simp only [skipWs_append hs]
        rw [if_pos h1]
      rw [if_neg h1] at h
      by_cases h2 : d.val = 0x2c
      · -- a separator, then more elements
        rw [if_pos h2] at h
        obtain ⟨⟨ws, q⟩, he, heq⟩ := Option.map_eq_some_iff.mp h
        obtain ⟨rfl, rfl⟩ := Prod.mk.inj heq
        have hne : skipWs t₂ ≠ [] := by
          intro hnil
          rw [hnil, parseElems_nil] at he
          exact absurd he (by simp)
        rw [ih.value hv (Or.inr (delim_of_skipWs hs (by omega)))]
        simp only [skipWs_append hs]
        rw [if_neg h1, if_pos h2, skipWs_append_of_ne_nil hne, ih.elems he]
        rfl
      · rw [if_neg h2] at h
        exact absurd h (by simp)

theorem Extends.members_succ (ih : Extends x fuel fuel') {kvs : List (Str × Value)}
    (h : parseMembers (fuel + 1) t = some (kvs, r)) :
    parseMembers (fuel' + 1) (t ++ x) = some (kvs, r ++ x) := by
  cases t with
  | nil => exact absurd h (by simp [parseMembers])
  | cons q t =>
    rw [parseMembers] at h
    rw [List.cons_append, parseMembers]
    -- a key, a colon, a value, and then a separator or the brace
    by_cases h1 : q.val = 0x22
    swap
    · rw [if_neg h1] at h
      exact absurd h (by simp)
    rw [if_pos h1] at h ⊢
    cases hk : scanStr t with
    | none => rw [hk] at h; exact absurd h (by simp)
    | some p =>
      obtain ⟨k, t₁⟩ := p
      rw [hk] at h
      rw [scanStr_append hk]
      simp only at h ⊢
      cases hs : skipWs t₁ with
      | nil => rw [hs] at h; exact absurd h (by simp)
      | cons d t₂ =>
        rw [hs] at h
        rw [skipWs_append hs]
        simp only at h ⊢
        by_cases h2 : d.val = 0x3a
        swap
        · rw [if_neg h2] at h
          exact absurd h (by simp)
        rw [if_pos h2] at h ⊢
        cases hv : parseValue fuel (skipWs t₂) with
        | none => rw [hv] at h; exact absurd h (by simp)
        | some p₂ =>
          obtain ⟨v, t₃⟩ := p₂
          rw [hv] at h
          simp only at h
          -- the value is not read from nothing, so the whitespace ends inside `t`
          have hne : skipWs t₂ ≠ [] := by
            intro hnil
            rw [hnil, parseValue_nil] at hv
            exact absurd hv (by simp)
          rw [skipWs_append_of_ne_nil hne]
          cases hs₃ : skipWs t₃ with
          | nil => rw [hs₃] at h; exact absurd h (by simp)
          | cons e t₄ =>
            rw [hs₃] at h
            simp only at h
            by_cases h3 : e.val = 0x7d
            · -- the last member
              rw [if_pos h3] at h
              obtain ⟨rfl, rfl⟩ := Prod.mk.inj (Option.some.inj h)
              rw [ih.value hv (Or.inr (delim_of_skipWs hs₃ (by omega)))]
              simp only [skipWs_append hs₃]
              rw [if_pos h3]
            rw [if_neg h3] at h
            by_cases h4 : e.val = 0x2c
            · -- a separator, then more members
              rw [if_pos h4] at h
              obtain ⟨⟨ms, q'⟩, hm, heq⟩ := Option.map_eq_some_iff.mp h
              obtain ⟨rfl, rfl⟩ := Prod.mk.inj heq
              have hne₄ : skipWs t₄ ≠ [] := by
                intro hnil
                rw [hnil, parseMembers_nil] at hm
                exact absurd hm (by simp)
              rw [ih.value hv (Or.inr (delim_of_skipWs hs₃ (by omega)))]
              simp only [skipWs_append hs₃]
              rw [if_neg h3, if_pos h4, skipWs_append_of_ne_nil hne₄, ih.members hm]
              rfl
            · rw [if_neg h4] at h
              exact absurd h (by simp)

/-- **Locality of the parsers**, and their independence of surplus fuel: by induction on the
fuel of the shorter run. -/
theorem extends_of_le (x : Str) (h : fuel ≤ fuel') : Extends x fuel fuel' := by
  induction fuel generalizing fuel' with
  | zero =>
    refine ⟨fun hp _ => ?_, fun hp => ?_, fun hp => ?_⟩
    · exact absurd hp (by simp [parseValue])
    · exact absurd hp (by simp [parseElems])
    · exact absurd hp (by simp [parseMembers])
  | succ fuel ih =>
    obtain ⟨f, rfl⟩ : ∃ f, fuel' = f + 1 := ⟨fuel' - 1, by omega⟩
    have ihf : Extends x fuel f := ih (by omega)
    exact ⟨ihf.value_succ, ihf.elems_succ, ihf.members_succ⟩

/-- An object is closed by its brace, so its parse is local without any condition on what
follows. -/
theorem parseValue_obj_append {v : Value} (h : parseValue fuel (0x7b :: t) = some (v, r))
    (hf : fuel ≤ fuel') : parseValue fuel' (0x7b :: t ++ x) = some (v, r ++ x) := by
  cases fuel with
  | zero => exact absurd h (by simp [parseValue])
  | succ fuel =>
    obtain ⟨f, rfl⟩ : ∃ f, fuel' = f + 1 := ⟨fuel' - 1, by omega⟩
    -- one step of the parser, which is then inside the braces
    have hext : Extends x fuel f := extends_of_le x (by omega)
    rw [parseValue, if_neg (by decide), if_neg (by decide), if_pos (by decide)] at h
    rw [List.cons_append, parseValue, if_neg (by decide), if_neg (by decide),
      if_pos (by decide)]
    cases hs : skipWs t with
    | nil => rw [hs] at h; exact absurd h (by simp)
    | cons d t' =>
      rw [hs] at h
      rw [skipWs_append hs]
      simp only at h ⊢
      by_cases hd : d.val = 0x7d
      · rw [if_pos hd] at h ⊢
        obtain ⟨rfl, rfl⟩ := Prod.mk.inj (Option.some.inj h)
        rfl
      · rw [if_neg hd] at h ⊢
        obtain ⟨⟨kvs, q⟩, he, heq⟩ := Option.map_eq_some_iff.mp h
        obtain ⟨rfl, rfl⟩ := Prod.mk.inj heq
        rw [← List.cons_append, hext.members he]
        rfl

/-! ### Torn and concatenated documents -/

theorem parseValue_dumps_obj {kvs : List (Str × Value)} (hc : Codable (.obj kvs)) :
    parseValue ((dumps (.obj kvs)).length + 1) (dumps (.obj kvs)) = some (.obj kvs, []) := by
  have h := parseValue_dumps (.obj kvs) _ [] hc (Nat.le_succ_of_le (size_le_length _ hc)) stop_nil
  rwa [List.append_nil] at h

/-- **A proper prefix of a printed object is not a document.** -/
theorem loads_torn {kvs : List (Str × Value)} (hc : Codable (.obj kvs)) {p : Str}
    (hp : p ++ x = dumps (.obj kvs)) (hx : x ≠ []) : loads p = none := by
  obtain ⟨s, hs⟩ := dumps_obj_shape kvs
  cases p with
  | nil => rfl
  | cons c p =>
    have hc0 : c = 0x7b := by
      rw [hs, List.cons_append] at hp
      exact (List.cons.inj hp).1
    subst hc0
    unfold loads
    rw [skipWs_cons (by decide)]
    cases hparse : parseValue ((0x7b :: p : Str).length + 1) (0x7b :: p) with
    | none => rfl
    | some q =>
      -- the parse would extend to the whole text and leave `x` behind
      obtain ⟨v, r⟩ := q
      have hlen : (0x7b :: p : Str).length + 1 ≤ (dumps (.obj kvs)).length + 1 := by
        rw [← hp, List.length_append]
        omega
      have hext := parseValue_obj_append (x := x) hparse hlen
      rw [hp, parseValue_dumps_obj hc] at hext
      have hnil : r ++ x = [] := (Prod.mk.inj (Option.some.inj hext)).2.symm
      exact absurd (List.append_eq_nil_iff.mp hnil).2 hx

/-- **Text after a printed object**: the line is a document exactly when that text is
whitespace. -/
theorem loads_obj_append {kvs : List (Str × Value)} (hc : Codable (.obj kvs)) (x : Str) :
    loads (dumps (.obj kvs) ++ x) = if skipWs x = [] then some (.obj kvs) else none := by
  obtain ⟨s, hs⟩ := dumps_obj_shape kvs
  have hparse := parseValue_dumps_obj hc
  have hlen : (dumps (.obj kvs)).length + 1 ≤ (dumps (.obj kvs) ++ x).length + 1 := by
    rw [List.length_append]
    omega
  -- the parse of the object alone extends, and leaves `x`
  have hext : parseValue ((dumps (.obj kvs) ++ x).length + 1) (dumps (.obj kvs) ++ x) =
      some (.obj kvs, x) := by
    rw [hs] at hparse hlen ⊢
    exact parseValue_obj_append (x := x) hparse hlen
  have hskip : skipWs (dumps (.obj kvs) ++ x) = dumps (.obj kvs) ++ x := by
    rw [hs, List.cons_append, skipWs_cons (by decide)]
  unfold loads
  rw [hskip, hext]

end Json
end Py
