import Chiralite.Framework.Json

/-!
# The limits of an interpreter

`loads` of `Framework/Json.lean` takes every document. An interpreter does not: it converts no text
of more digits than `sys.get_int_max_str_digits()` into an `int` (`ValueError`), and its scanner
goes no deeper into arrays and objects than the recursion limit leaves room for (`RecursionError`).
Neither is a `JSONDecodeError`. Here is the parser with these limits as parameters. They are
checked where the scanner stands, so that of a text with several faults the first one is raised.

It ends as the parser without limits does, or one of the limits is exceeded (`Ends`).
-/

namespace Py
namespace Json

/-- The limits: the digits of an `int`, if they are limited, and the arrays and objects that the
scanner may be inside of. -/
structure Limits where
  digits : Option Nat
  depth : Nat

/-- What `json.loads` raises. -/
inductive LoadsError where
  /-- `JSONDecodeError`. -/
  | decode
  /-- `ValueError`, of `int`. -/
  | digits
  /-- `RecursionError`. -/
  | depth
  deriving DecidableEq

/-! ### The parser -/

/-- A scanner finds no value, or returns one. -/
def found {α : Type} : Option α → Except LoadsError α
  | none => .error .decode
  | some a => .ok a

section Parser

variable (lim : Limits)

/-- The digits of an `int` are within the limit; the sign is none of them. -/
def Limits.allows : Value → Bool
  | .int n => lim.digits.all fun most => (dumpNat n.natAbs).length ≤ most
  | _ => true

/-- A keyword or number. -/
def atomWithin (t : Str) : Except LoadsError (Value × Str) :=
  match scanAtom t with
  | none => .error .decode
  | some p => if lim.allows p.1 then .ok p else .error .digits

mutual

/-- One value, with room for so many arrays and objects inside each other. -/
def valueWithin : Nat → Nat → Str → Except LoadsError (Value × Str)
  | 0, _, _ => .error .decode
  | _ + 1, _, [] => .error .decode
  | fuel + 1, room, c :: t =>
    if c.val = 0x22 then found ((scanStr t).map fun p => (.str p.1, p.2))
    -- the depth is counted before anything is read of what is inside
    else if c.val = 0x5b then
      if room = 0 then .error .depth
      else
        match skipWs t with
        | [] => .error .decode
        | d :: t' =>
          if d.val = 0x5d then .ok (.arr [], t')
          else (elemsWithin fuel (room - 1) (d :: t')).map fun p => (.arr p.1, p.2)
    else if c.val = 0x7b then
      if room = 0 then .error .depth
      else
        match skipWs t with
        | [] => .error .decode
        | d :: t' =>
          if d.val = 0x7d then .ok (.obj [], t')
          else
            (membersWithin fuel (room - 1) (d :: t')).map fun p =>
              (.obj (Dict.ofList p.1).items, p.2)
    else atomWithin lim (c :: t)

/-- The elements of an array, from the first character of one of them. -/
def elemsWithin : Nat → Nat → Str → Except LoadsError (List Value × Str)
  | 0, _, _ => .error .decode
  | fuel + 1, room, t =>
    match valueWithin fuel room t with
    | .error e => .error e
    | .ok (v, t₁) =>
      match skipWs t₁ with
      | [] => .error .decode
      | d :: t₂ =>
        if d.val = 0x5d then .ok ([v], t₂)
        else if d.val = 0x2c then
          (elemsWithin fuel room (skipWs t₂)).map fun p => (v :: p.1, p.2)
        else .error .decode

/-- The members of an object, from the opening quote of a key. -/
def membersWithin : Nat → Nat → Str → Except LoadsError (List (Str × Value) × Str)
  | 0, _, _ => .error .decode
  | _ + 1, _, [] => .error .decode
  | fuel + 1, room, q :: t =>
    if q.val = 0x22 then
      match scanStr t with
      | none => .error .decode
      | some (k, t₁) =>
        match skipWs t₁ with
        | [] => .error .decode
        | d :: t₂ =>
          if d.val = 0x3a then
            match valueWithin fuel room (skipWs t₂) with
            | .error e => .error e
            | .ok (v, t₃) =>
              match skipWs t₃ with
              | [] => .error .decode
              | e :: t₄ =>
                if e.val = 0x7d then .ok ([(k, v)], t₄)
                else if e.val = 0x2c then
                  (membersWithin fuel room (skipWs t₄)).map fun p => ((k, v) :: p.1, p.2)
                else .error .decode
          else .error .decode
    else .error .decode

end

/-- `json.loads`. -/
def loadsWithin (t : Str) : Except LoadsError Value :=
  match valueWithin lim (t.length + 1) lim.depth (skipWs t) with
  | .error e => .error e
  | .ok (v, r) => if skipWs r = [] then .ok v else .error .decode

end Parser

/-! ### The two parsers -/

/-- **How a parser with limits ends**, against what the one without them returns: the same, or
digits are limited, or the room is less than the fuel. -/
def Ends {α : Type} (lim : Limits) (fuel room : Nat) (o : Option α) : Except LoadsError α → Prop
  | .ok a => o = some a
  | .error .decode => o = none
  | .error .digits => lim.digits.isSome
  | .error .depth => room < fuel

section Ends

variable {α β : Type} {lim : Limits} {fuel room : Nat} {o : Option α} {r : Except LoadsError α}

theorem ends_found : Ends lim fuel room o (found o) := by
  cases o with
  | none => exact rfl
  | some a => exact rfl

theorem Ends.map (h : Ends lim fuel room o r) (f : α → β) :
    Ends lim fuel room (o.map f) (r.map f) := by
  cases r with
  | ok a =>
    obtain rfl : o = some a := h
    exact rfl
  | error e =>
    cases e with
    | decode =>
      obtain rfl : o = none := h
      exact rfl
    | digits => exact h
    | depth => exact h

/-- A parser inside another one has less fuel, and room in proportion. -/
theorem Ends.mono {fuel' room' : Nat} (h : Ends lim fuel room o r)
    (hroom : room < fuel → room' < fuel') : Ends lim fuel' room' o r := by
  cases r with
  | ok a => exact h
  | error e =>
    cases e with
    | decode => exact h
    | digits => exact h
    | depth => exact hroom h

/-- A value that is read, or an error in which all ends. -/
theorem Ends.ok_or_error (h : Ends lim fuel room o r) :
    (∃ a, r = .ok a ∧ o = some a) ∨
      ∃ e, r = .error e ∧ ∀ o' : Option β, (o = none → o' = none) →
        Ends lim fuel room o' (.error e : Except LoadsError β) := by
  cases r with
  | ok a => exact .inl ⟨a, rfl, h⟩
  | error e =>
    refine .inr ⟨e, rfl, fun o' ho' => ?_⟩
    cases e with
    | decode => exact ho' h
    | digits => exact h
    | depth => exact h

end Ends

section Agreement

variable (lim : Limits) (fuel room : Nat)

theorem ends_atom (t : Str) : Ends lim fuel room (scanAtom t) (atomWithin lim t) := by
  unfold atomWithin
  cases scanAtom t with
  | none => exact rfl
  | some p =>
    dsimp only
    split
    · exact rfl
    · next hnot =>
      -- only an `int` is refused, and only by a limit
      show lim.digits.isSome = true
      unfold Limits.allows at hnot
      cases hdigits : lim.digits with
      | none =>
        rw [hdigits] at hnot
        refine absurd ?_ hnot
        split <;> rfl
      | some most => rfl

/-- What follows an opening bracket: the closing one, or what stands between them. -/
theorem ends_inside {α : Type} (close : Nat) (empty : Value) (f : α → Value)
    {P : Str → Option (α × Str)} {Q : Str → Except LoadsError (α × Str)}
    (hinside : ∀ t, Ends lim fuel (room - 1) (P t) (Q t)) (t : Str) :
    Ends lim (fuel + 1) room
      (match skipWs t with
      | [] => none
      | d :: t' =>
        if d.val = close then some (empty, t') else (P (d :: t')).map fun p => (f p.1, p.2))
      (if room = 0 then .error .depth
      else
        match skipWs t with
        | [] => .error .decode
        | d :: t' =>
          if d.val = close then .ok (empty, t') else (Q (d :: t')).map fun p => (f p.1, p.2)) := by
  by_cases hroom : room = 0
  · rw [if_pos hroom, hroom]
    exact Nat.succ_pos fuel
  · rw [if_neg hroom]
    cases skipWs t with
    | nil => exact rfl
    | cons d t' =>
      dsimp only
      split
      · exact rfl
      · exact ((hinside (d :: t')).map _).mono (by omega)

/-- The value parser, when the other two end so on the fuel that is left. -/
theorem ends_value_succ
    (helems : ∀ room t, Ends lim fuel room (parseElems fuel t) (elemsWithin lim fuel room t))
    (hmembers : ∀ room t,
      Ends lim fuel room (parseMembers fuel t) (membersWithin lim fuel room t))
    (t : Str) :
    Ends lim (fuel + 1) room (parseValue (fuel + 1) t) (valueWithin lim (fuel + 1) room t) := by
  cases t with
  | nil => exact rfl
  | cons c t =>
    rw [parseValue, valueWithin]
    split
    · exact ends_found
    · split
      · exact ends_inside lim fuel room 0x5d (.arr []) Value.arr (helems (room - 1)) t
      · split
        · exact ends_inside lim fuel room 0x7d (.obj []) (fun kvs => .obj (Dict.ofList kvs).items)
            (hmembers (room - 1)) t
        · exact ends_atom lim (fuel + 1) room (c :: t)

/-- The elements, when a value and the rest of them end so. -/
theorem ends_elems_succ
    (hvalue : ∀ room t, Ends lim fuel room (parseValue fuel t) (valueWithin lim fuel room t))
    (helems : ∀ room t, Ends lim fuel room (parseElems fuel t) (elemsWithin lim fuel room t))
    (t : Str) :
    Ends lim (fuel + 1) room (parseElems (fuel + 1) t) (elemsWithin lim (fuel + 1) room t) := by
  rw [parseElems, elemsWithin]
  rcases (hvalue room t).ok_or_error with ⟨p, hr, ho⟩ | ⟨e, hr, hends⟩
  · rw [hr, ho]
    dsimp only
    cases skipWs p.2 with
    | nil => exact rfl
    | cons d t₂ =>
      dsimp only
      split
      · exact rfl
      · split
        · exact ((helems room (skipWs t₂)).map _).mono Nat.lt_succ_of_lt
        · exact rfl
  · -- the error of an element is that of the array
    rw [hr]
    refine (hends _ fun ho => ?_).mono Nat.lt_succ_of_lt
    rw [ho]

/-- The members, when a value and the rest of them end so. -/
theorem ends_members_succ
    (hvalue : ∀ room t, Ends lim fuel room (parseValue fuel t) (valueWithin lim fuel room t))
    (hmembers : ∀ room t,
      Ends lim fuel room (parseMembers fuel t) (membersWithin lim fuel room t))
    (t : Str) :
    Ends lim (fuel + 1) room (parseMembers (fuel + 1) t)
      (membersWithin lim (fuel + 1) room t) := by
  cases t with
  | nil => exact rfl
  | cons q t =>
    rw [parseMembers, membersWithin]
    split
    · cases scanStr t with
      | none => exact rfl
      | some key =>
        dsimp only
        cases skipWs key.2 with
        | nil => exact rfl
        | cons d t₂ =>
          dsimp only
          split
          · -- behind the colon stands a value, and then another member or the end
            rcases (hvalue room (skipWs t₂)).ok_or_error with ⟨p, hr, ho⟩ | ⟨e, hr, hends⟩
            · rw [hr, ho]
              dsimp only
              cases skipWs p.2 with
              | nil => exact rfl
              | cons e t₄ =>
                dsimp only
                split
                · exact rfl
                · split
                  · exact ((hmembers room (skipWs t₄)).map _).mono Nat.lt_succ_of_lt
                  · exact rfl
            · rw [hr]
              refine (hends _ fun ho => ?_).mono Nat.lt_succ_of_lt
              rw [ho]
          · exact rfl
    · exact rfl

/-- **The three parsers end as those without limits**, by induction on the fuel. -/
theorem ends_parsers :
    (∀ room t, Ends lim fuel room (parseValue fuel t) (valueWithin lim fuel room t)) ∧
    (∀ room t, Ends lim fuel room (parseElems fuel t) (elemsWithin lim fuel room t)) ∧
    (∀ room t, Ends lim fuel room (parseMembers fuel t) (membersWithin lim fuel room t)) := by
  induction fuel with
  | zero => exact ⟨fun _ _ => rfl, fun _ _ => rfl, fun _ _ => rfl⟩
  | succ fuel ih =>
    obtain ⟨hvalue, helems, hmembers⟩ := ih
    exact ⟨fun room t => ends_value_succ lim fuel room helems hmembers t,
      fun room t => ends_elems_succ lim fuel room hvalue helems t,
      fun room t => ends_members_succ lim fuel room hvalue hmembers t⟩

/-- **`json.loads` with limits** ends as the one without them, or a limit is exceeded. -/
theorem ends_loads (t : Str) :
    Ends lim (t.length + 1) lim.depth (loads t) (loadsWithin lim t) := by
  unfold loads loadsWithin
  rcases ((ends_parsers lim (t.length + 1)).1 lim.depth (skipWs t)).ok_or_error with
    ⟨p, hr, ho⟩ | ⟨e, hr, hends⟩
  · rw [hr, ho]
    dsimp only
    split
    · exact rfl
    · exact rfl
  · rw [hr]
    refine hends _ fun ho => ?_
    rw [ho]

variable {lim} {t : Str}

theorem loads_of_within {v : Value} (h : loadsWithin lim t = .ok v) : loads t = some v := by
  have hends := ends_loads lim t
  rw [h] at hends
  exact hends

theorem loads_of_decode (h : loadsWithin lim t = .error .decode) : loads t = none := by
  have hends := ends_loads lim t
  rw [h] at hends
  exact hends

/-- Where no limit can be exceeded, it is `loads`. -/
theorem loadsWithin_of_unlimited (hdigits : lim.digits = none) (hdepth : t.length < lim.depth) :
    loadsWithin lim t = found (loads t) := by
  have hends := ends_loads lim t
  cases hr : loadsWithin lim t with
  | ok v => rw [loads_of_within hr, found]
  | error e =>
    rw [hr] at hends
    cases e with
    | decode => rw [loads_of_decode hr, found]
    | digits =>
      have hlimited : lim.digits.isSome = true := hends
      rw [hdigits] at hlimited
      cases hlimited
    | depth =>
      have hroom : lim.depth < t.length + 1 := hends
      omega

end Agreement

end Json
end Py
