import Chiralite.Framework.Dict
import Chiralite.Framework.Text

/-!
# The JSON codec

`json.dumps` and `json.loads` of the Python standard library, on the values JSON can
carry. The printer is the one of `dumps(…, separators=(",", ":"))` with the default
`ensure_ascii=True`: every character outside printable ASCII leaves as a `\uXXXX` escape,
characters beyond the basic plane as a surrogate pair.

The parser is the scanner of `json.loads`: whitespace is space, tab, `\n`, `\r`; control
characters are refused inside strings; a `\uXXXX` high surrogate followed by a `\uXXXX`
low surrogate is one character, and any other surrogate escape stands for itself; a number
without fraction and exponent is an `int`, any other number keeps its lexeme; the last of
several members with one key wins, at the position of the first. A recursion runs on fuel,
which `loads` sets to the length of the text: every recursive call consumes a character.

`loads` answers `none` where Python raises `JSONDecodeError`. It has no limit of digits and none of
depth; with them it is `loadsWithin` of `Framework/JsonLimits.lean`. In the values it returns no
object has a key twice (`Parsed.obj`).
-/

namespace Py
namespace Json

/-- A JSON document as Python holds it. -/
inductive Value where
  | null
  | bool (b : Bool)
  | int (n : Int)
  | float (lexeme : Str)
  | str (s : Str)
  | arr (vs : List Value)
  | obj (kvs : List (Str × Value))

/-! ### Printing -/

/-- One lowercase hexadecimal digit. -/
def hexDigit (n : Nat) : CodePoint := Fin.ofNat 0x110000 (if n < 10 then 0x30 + n else 0x57 + n)

/-- `\uXXXX` for a 16-bit unit. -/
def uEscape (n : Nat) : Str :=
  lit "\\u" ++ [hexDigit (n / 0x1000 % 16), hexDigit (n / 0x100 % 16), hexDigit (n / 0x10 % 16),
    hexDigit (n % 16)]

/-- One character inside a string literal. -/
def escape (c : CodePoint) : Str :=
  if c.val = 0x22 then lit "\\\""
  else if c.val = 0x5c then lit "\\\\"
  else if c.val = 0x0a then lit "\\n"
  else if c.val = 0x0d then lit "\\r"
  else if c.val = 0x09 then lit "\\t"
  else if c.val = 0x0c then lit "\\f"
  else if c.val = 0x08 then lit "\\b"
  else if isPrintable c then [c]
  else if c.val < 0x10000 then uEscape c.val
  else uEscape (0xd800 + (c.val - 0x10000) / 0x400) ++ uEscape (0xdc00 + (c.val - 0x10000) % 0x400)

/-- A string literal. -/
def dumpStr (s : Str) : Str := lit "\"" ++ s.flatMap escape ++ lit "\""

/-- The decimal digits of a natural number. -/
def dumpNat (n : Nat) : Str := (Nat.toDigits 10 n).map ofChar

/-- `repr` of an `int`. -/
def dumpInt (n : Int) : Str := if n < 0 then lit "-" ++ dumpNat n.natAbs else dumpNat n.natAbs

mutual

/-- `json.dumps(v, separators=(",", ":"))`. -/
def dumps : Value → Str
  | .null => lit "null"
  | .bool true => lit "true"
  | .bool false => lit "false"
  | .int n => dumpInt n
  | .float t => t
  | .str s => dumpStr s
  | .arr [] => lit "[]"
  | .arr (v :: vs) => lit "[" ++ (dumps v ++ dumpElems vs)
  | .obj [] => lit "\x7b\x7d"
  | .obj ((k, v) :: kvs) => lit "\x7b" ++ (dumpStr k ++ (lit ":" ++ (dumps v ++ dumpMembers kvs)))

/-- The elements of an array after the first, and the closing bracket. -/
def dumpElems : List Value → Str
  | [] => lit "]"
  | v :: vs => lit "," ++ (dumps v ++ dumpElems vs)

/-- The members of an object after the first, and the closing brace. -/
def dumpMembers : List (Str × Value) → Str
  | [] => lit "\x7d"
  | (k, v) :: kvs => lit "," ++ (dumpStr k ++ (lit ":" ++ (dumps v ++ dumpMembers kvs)))

end

/-! ### Scanning -/

/-- JSON whitespace. -/
def isWs (c : CodePoint) : Bool := c.val == 0x20 || c.val == 0x09 || c.val == 0x0a || c.val == 0x0d

/-- Skip leading whitespace. -/
def skipWs : Str → Str
  | [] => []
  | c :: t => if isWs c then skipWs t else c :: t

/-- The value of a hexadecimal digit, either case. -/
def hexVal (c : CodePoint) : Option Nat :=
  if 0x30 ≤ c.val ∧ c.val ≤ 0x39 then some (c.val - 0x30)
  else if 0x61 ≤ c.val ∧ c.val ≤ 0x66 then some (c.val - 0x57)
  else if 0x41 ≤ c.val ∧ c.val ≤ 0x46 then some (c.val - 0x37)
  else none

/-- The character of a two-character escape `\e`. -/
def simpleEscape (e : CodePoint) : Option CodePoint :=
  if e.val = 0x22 then some 0x22
  else if e.val = 0x5c then some 0x5c
  else if e.val = 0x2f then some 0x2f
  else if e.val = 0x62 then some 0x08
  else if e.val = 0x66 then some 0x0c
  else if e.val = 0x6e then some 0x0a
  else if e.val = 0x72 then some 0x0d
  else if e.val = 0x74 then some 0x09
  else none

/-- One item of a string literal: a character, or the unit of a `\uXXXX` escape. -/
inductive Unit16 where
  | char (c : CodePoint)
  | esc (n : Nat)

/-- Where the scanner stands inside a string literal: between characters, after a
backslash, or inside a `\uXXXX` with the value read so far and the digits still due. -/
inductive StrState where
  | plain
  | escaped
  | hex (acc : Nat) (due : Nat)

/-- The items of a string literal up to its closing quote, and the text after it. -/
def scanUnits : StrState → Str → Option (List Unit16 × Str)
  | _, [] => none
  | .plain, c :: t =>
    if c.val = 0x22 then some ([], t)
    else if c.val = 0x5c then scanUnits .escaped t
    else if c.val < 0x20 then none
    else (scanUnits .plain t).map fun p => (.char c :: p.1, p.2)
  | .escaped, e :: t =>
    if e.val = 0x75 then scanUnits (.hex 0 4) t
    else
      match simpleEscape e with
      | some x => (scanUnits .plain t).map fun p => (.char x :: p.1, p.2)
      | none => none
  | .hex acc due, h :: t =>
    match hexVal h with
    | none => none
    | some d =>
      if due = 1 then (scanUnits .plain t).map fun p => (.esc (acc * 16 + d) :: p.1, p.2)
      else scanUnits (.hex (acc * 16 + d) (due - 1)) t

/-- A unit as a character of its own. -/
def unitChar (n : Nat) : CodePoint := Fin.ofNat 0x110000 n

/-- The characters of a string literal: two consecutive escapes that form a surrogate pair
are one character, every other item is its own. -/
def joinUnits : List Unit16 → Str
  | [] => []
  | .char c :: us => c :: joinUnits us
  | [.esc n] => [unitChar n]
  | .esc n :: .char c :: us => unitChar n :: c :: joinUnits us
  | .esc n :: .esc m :: us =>
    if (0xd800 ≤ n ∧ n ≤ 0xdbff) ∧ 0xdc00 ≤ m ∧ m ≤ 0xdfff then
      unitChar (0x10000 + (n - 0xd800) * 0x400 + (m - 0xdc00)) :: joinUnits us
    else unitChar n :: joinUnits (.esc m :: us)

/-- A string literal after its opening quote. -/
def scanStr (t : Str) : Option (Str × Str) :=
  (scanUnits .plain t).map fun p => (joinUnits p.1, p.2)

/-- A decimal digit. -/
def isDigit (c : CodePoint) : Bool := 0x30 ≤ c.val && c.val ≤ 0x39

/-- The longest run of digits, and the rest. -/
def spanDigits : Str → Str × Str
  | [] => ([], [])
  | c :: t => if isDigit c then (c :: (spanDigits t).1, (spanDigits t).2) else ([], c :: t)

/-- The number a run of digits denotes. -/
def ofDigits (ds : Str) : Nat := ds.foldl (fun n c => n * 10 + (c.val - 0x30)) 0

/-- `0|[1-9][0-9]*`. -/
def scanIntPart : Str → Option (Str × Str)
  | [] => none
  | c :: t =>
    if c.val = 0x30 then some ([c], t)
    else if isDigit c then some (c :: (spanDigits t).1, (spanDigits t).2)
    else none

/-- `(\.[0-9]+)?`. -/
def scanFrac : Str → Str × Str
  | [] => ([], [])
  | c :: t =>
    if c.val = 0x2e ∧ (spanDigits t).1 ≠ [] then (c :: (spanDigits t).1, (spanDigits t).2)
    else ([], c :: t)

/-- `[-+]?` in front of an exponent. -/
def scanSign : Str → Str × Str
  | [] => ([], [])
  | c :: t => if c.val = 0x2b ∨ c.val = 0x2d then ([c], t) else ([], c :: t)

/-- `([eE][-+]?[0-9]+)?`. -/
def scanExp : Str → Str × Str
  | [] => ([], [])
  | c :: t =>
    if (c.val = 0x65 ∨ c.val = 0x45) ∧ (spanDigits (scanSign t).2).1 ≠ [] then
      (c :: ((scanSign t).1 ++ (spanDigits (scanSign t).2).1), (spanDigits (scanSign t).2).2)
    else ([], c :: t)

/-- A number with its sign already read. -/
def scanMagnitude (neg : Bool) (t : Str) : Option (Value × Str) :=
  match scanIntPart t with
  | none => none
  | some (ds, t₁) =>
    let frac := scanFrac t₁
    let exp := scanExp frac.2
    if frac.1 = [] ∧ exp.1 = [] then
      some (.int (if neg then -(ofDigits ds : Int) else ofDigits ds), exp.2)
    else some (.float ((if neg then lit "-" else []) ++ ds ++ frac.1 ++ exp.1), exp.2)

/-- The text after a given literal, if it starts with it. -/
def expect : Str → Str → Option Str
  | [], t => some t
  | _ :: _, [] => none
  | a :: as, c :: t => if a = c then expect as t else none

/-- A keyword or number, chosen by its first character. -/
def scanAtom (t : Str) : Option (Value × Str) :=
  match t with
  | [] => none
  | c :: t' =>
    if c.val = 0x6e then (expect (lit "ull") t').map fun r => (.null, r)
    else if c.val = 0x74 then (expect (lit "rue") t').map fun r => (.bool true, r)
    else if c.val = 0x66 then (expect (lit "alse") t').map fun r => (.bool false, r)
    else if c.val = 0x4e then (expect (lit "aN") t').map fun r => (.float (lit "NaN"), r)
    else if c.val = 0x49 then (expect (lit "nfinity") t').map fun r => (.float (lit "Infinity"), r)
    else if c.val = 0x2d then
      match scanMagnitude true t' with
      | some p => some p
      | none => (expect (lit "Infinity") t').map fun r => (.float (lit "-Infinity"), r)
    else scanMagnitude false (c :: t')

mutual

/-- One value. -/
def parseValue : Nat → Str → Option (Value × Str)
  | 0, _ => none
  | _ + 1, [] => none
  | fuel + 1, c :: t =>
    if c.val = 0x22 then (scanStr t).map fun p => (.str p.1, p.2)
    else if c.val = 0x5b then
      match skipWs t with
      | [] => none
      | d :: t' =>
        if d.val = 0x5d then some (.arr [], t')
        else (parseElems fuel (d :: t')).map fun p => (.arr p.1, p.2)
    else if c.val = 0x7b then
      match skipWs t with
      | [] => none
      | d :: t' =>
        if d.val = 0x7d then some (.obj [], t')
        else (parseMembers fuel (d :: t')).map fun p => (.obj (Dict.ofList p.1).items, p.2)
    else scanAtom (c :: t)

/-- The elements of an array, from the first character of one of them. -/
def parseElems : Nat → Str → Option (List Value × Str)
  | 0, _ => none
  | fuel + 1, t =>
    match parseValue fuel t with
    | none => none
    | some (v, t₁) =>
      match skipWs t₁ with
      | [] => none
      | d :: t₂ =>
        if d.val = 0x5d then some ([v], t₂)
        else if d.val = 0x2c then (parseElems fuel (skipWs t₂)).map fun p => (v :: p.1, p.2)
        else none

/-- The members of an object, from the opening quote of a key. -/
def parseMembers : Nat → Str → Option (List (Str × Value) × Str)
  | 0, _ => none
  | _ + 1, [] => none
  | fuel + 1, q :: t =>
    if q.val = 0x22 then
      match scanStr t with
      | none => none
      | some (k, t₁) =>
        match skipWs t₁ with
        | [] => none
        | d :: t₂ =>
          if d.val = 0x3a then
            match parseValue fuel (skipWs t₂) with
            | none => none
            | some (v, t₃) =>
              match skipWs t₃ with
              | [] => none
              | e :: t₄ =>
                if e.val = 0x7d then some ([(k, v)], t₄)
                else if e.val = 0x2c then
                  (parseMembers fuel (skipWs t₄)).map fun p => ((k, v) :: p.1, p.2)
                else none
          else none
    else none

end

/-- `json.loads`. A byte order mark is refused, and so is anything after the value. -/
def loads (t : Str) : Option Value :=
  match parseValue (t.length + 1) (skipWs t) with
  | some (v, r) => if skipWs r = [] then some v else none
  | none => none

/-! ### What the parser returns -/

/-- A value that the parser returns. -/
def Parsed (v : Value) : Prop := ∃ fuel t r, parseValue fuel t = some (v, r)

theorem parseMembers_cases {fuel : Nat} {t r : Str} {kvs : List (Str × Value)}
    (h : parseMembers (fuel + 1) t = some (kvs, r)) :
    ∃ k v, Parsed v ∧ (kvs = [(k, v)] ∨
      ∃ t' rest, parseMembers fuel t' = some (rest, r) ∧ kvs = (k, v) :: rest) := by
  cases t with
  | nil => cases h
  | cons q t =>
    rw [parseMembers] at h
    split at h
    · split at h
      · cases h
      · next k t₁ _ =>
        split at h
        · cases h
        · split at h
          · split at h
            · cases h
            · next v t₃ hv =>
              split at h
              · cases h
              · split at h
                · -- a closing brace, or else a comma
                  obtain ⟨rfl, rfl⟩ := Prod.mk.inj (Option.some.inj h)
                  exact ⟨k, v, ⟨_, _, _, hv⟩, .inl rfl⟩
                · split at h
                  · obtain ⟨p, hp, heq⟩ := Option.map_eq_some_iff.mp h
                    obtain ⟨rfl, rfl⟩ := Prod.mk.inj heq
                    exact ⟨k, v, ⟨_, _, _, hv⟩, .inr ⟨_, _, hp, rfl⟩⟩
                  · cases h
          · cases h
    · cases h

theorem parsed_of_parseMembers {fuel : Nat} {t r : Str} {kvs : List (Str × Value)}
    (h : parseMembers fuel t = some (kvs, r)) : ∀ kv ∈ kvs, Parsed kv.2 := by
  induction fuel generalizing t r kvs with
  | zero =>
    rw [parseMembers] at h
    cases h
  | succ fuel ih =>
    obtain ⟨k, v, hv, rfl | ⟨t', rest, hrest, rfl⟩⟩ := parseMembers_cases h
    · intro kv hkv
      rw [List.mem_singleton.mp hkv]
      exact hv
    · intro kv hkv
      rcases List.mem_cons.mp hkv with rfl | hmem
      · exact hv
      · exact ih hrest kv hmem

theorem scanMagnitude_ne_obj {neg : Bool} {t r : Str} {kvs : List (Str × Value)} :
    scanMagnitude neg t ≠ some (.obj kvs, r) := by
  intro h
  unfold scanMagnitude at h
  split at h
  · cases h
  · dsimp only at h
    split at h
    · cases h
    · cases h

theorem scanAtom_ne_obj {t r : Str} {kvs : List (Str × Value)} :
    scanAtom t ≠ some (.obj kvs, r) := by
  have hmap : ∀ {v : Value} {o : Option Str}, (∀ kvs, v ≠ .obj kvs) →
      (o.map fun r => (v, r)) ≠ some (.obj kvs, r) := by
    intro v o hv h
    obtain ⟨_, -, heq⟩ := Option.map_eq_some_iff.mp h
    exact hv kvs (Prod.mk.inj heq).1
  unfold scanAtom
  split
  · exact Option.some_ne_none _ |>.symm
  · split
    · exact hmap fun _ h => Value.noConfusion h
    · split
      · exact hmap fun _ h => Value.noConfusion h
      · split
        · exact hmap fun _ h => Value.noConfusion h
        · split
          · exact hmap fun _ h => Value.noConfusion h
          · split
            · exact hmap fun _ h => Value.noConfusion h
            · split
              · split
                · next p hp =>
                  rw [← hp]
                  exact scanMagnitude_ne_obj
                · exact hmap fun _ h => Value.noConfusion h
              · exact scanMagnitude_ne_obj

theorem Parsed.obj {kvs : List (Str × Value)} (h : Parsed (.obj kvs)) :
    (kvs.map Prod.fst).Nodup ∧ ∀ kv ∈ kvs, Parsed kv.2 := by
  obtain ⟨fuel, t, r, h⟩ := h
  cases fuel with
  | zero =>
    rw [parseValue] at h
    cases h
  | succ fuel =>
    cases t with
    | nil => cases h
    | cons c t =>
      rw [parseValue] at h
      split at h
      · obtain ⟨p, -, heq⟩ := Option.map_eq_some_iff.mp h
        cases heq
      · split at h
        · split at h
          · cases h
          · split at h
            · cases h
            · obtain ⟨p, -, heq⟩ := Option.map_eq_some_iff.mp h
              cases heq
        · split at h
          · split at h
            · cases h
            · split at h
              · cases h
                exact ⟨List.nodup_nil, List.forall_mem_nil _⟩
              · -- the members are put in a dictionary, where the last of a key wins
                obtain ⟨p, hp, heq⟩ := Option.map_eq_some_iff.mp h
                cases heq
                exact ⟨(Dict.ofList p.1).nodup, fun kv hkv =>
                  parsed_of_parseMembers hp kv (Dict.mem_items_ofList hkv)⟩
          · exact absurd h scanAtom_ne_obj

theorem parsed_of_loads {t : Str} {v : Value} (h : loads t = some v) : Parsed v := by
  unfold loads at h
  split at h
  · next w r hparse =>
    split at h
    · rw [← Option.some.inj h]
      exact ⟨_, _, _, hparse⟩
    · cases h
  · cases h

end Json
end Py
