import Mathlib.Algebra.Group.Int.Defs
import Mathlib.Algebra.Group.Nat.Defs
import Mathlib.Algebra.GroupWithZero.Nat
import Mathlib.Data.List.Basic
import Mathlib.Data.List.Infix
import Mathlib.Data.List.DropRight
import Mathlib.Tactic.SplitIfs

/-!
# Python text

A Python `str` is a sequence of code points, lone surrogates included. `Str` is that
sequence. The module holds the `str` methods that a line-oriented log and a wire protocol use:

* `splitlines`, which cuts at every line boundary of `str.splitlines` (not only `\n`);
* `strip`, which drops leading and trailing `str.isspace` characters;
* `lit`, the embedding of source literals;
* `encode`, the UTF-8 bytes of a text.

The two results a log needs are `splitlines_line`, reading back a text that was
written line by line, and `strip_eq_self`, which holds of any line whose first and last
characters are not spaces. A text is `Printable` when all its characters lie in the
printable ASCII range; such a text contains no line boundary whatsoever.
-/

namespace Py

/-- A Unicode code point. Surrogates are included, as they are in a Python `str`. -/
abbrev CodePoint := Fin 0x110000

instance neZero_codePoint : NeZero 0x110000 := ⟨by decide⟩

instance lawfulBEq_codePoint : LawfulBEq CodePoint := inferInstance

/-- A Python `str`. -/
abbrev Str := List CodePoint

instance lawfulBEq_str : LawfulBEq Str := inferInstance

/-- The code point of a Lean character. -/
def ofChar (c : Char) : CodePoint := Fin.ofNat 0x110000 c.toNat

/-- A string literal of the source. -/
def lit (s : String) : Str := s.toList.map ofChar

/-- A surrogate code point: in a `str`, but not a Unicode scalar value. -/
def isSurrogate (c : CodePoint) : Bool := 0xd800 ≤ c.val && c.val ≤ 0xdfff

/-- All characters are Unicode scalar values. -/
def Scalar (s : Str) : Prop := ∀ c ∈ s, isSurrogate c = false

instance (s : Str) : Decidable (Scalar s) :=
  List.decidableBAll (fun c => isSurrogate c = false) s

/-- Printable ASCII: the range `json.dumps` leaves unescaped. -/
def isPrintable (c : CodePoint) : Bool := 0x20 ≤ c.val && c.val ≤ 0x7e

/-- All characters are printable ASCII. -/
def Printable (s : Str) : Prop := ∀ c ∈ s, isPrintable c = true

instance (s : Str) : Decidable (Printable s) :=
  List.decidableBAll (fun c => isPrintable c = true) s

theorem Printable.append {s t : Str} (hs : Printable s) (ht : Printable t) :
    Printable (s ++ t) := by
  intro c hc
  rcases List.mem_append.mp hc with h | h
  · exact hs c h
  · exact ht c h

theorem Printable.cons {c : CodePoint} {s : Str} (hc : isPrintable c = true)
    (hs : Printable s) : Printable (c :: s) := by
  intro d hd
  rcases List.mem_cons.mp hd with rfl | h
  · exact hc
  · exact hs d h

/-- An ASCII character. -/
def isAscii (c : CodePoint) : Bool := c.val < 0x80

theorem isAscii_of_isPrintable {c : CodePoint} (h : isPrintable c = true) : isAscii c = true := by
  simp only [isPrintable, Bool.and_eq_true, decide_eq_true_eq] at h
  simp only [isAscii, decide_eq_true_eq]
  omega

theorem scalar_of_isAscii {s : Str} (h : ∀ c ∈ s, isAscii c = true) : Scalar s := by
  intro c hc
  have hascii := h c hc
  simp only [isAscii, decide_eq_true_eq] at hascii
  simp only [isSurrogate, Bool.and_eq_false_iff, decide_eq_false_iff_not]
  omega

/-! ### Bytes -/

/-- The UTF-8 bytes of one character; a surrogate has none. -/
def encodeChar (c : CodePoint) : Option (List UInt8) :=
  if isSurrogate c then none
  else if c.val < 0x80 then some [UInt8.ofNat c.val]
  else if c.val < 0x800 then
    some [UInt8.ofNat (0xc0 + c.val / 0x40), UInt8.ofNat (0x80 + c.val % 0x40)]
  else if c.val < 0x10000 then
    some [UInt8.ofNat (0xe0 + c.val / 0x1000), UInt8.ofNat (0x80 + c.val / 0x40 % 0x40),
      UInt8.ofNat (0x80 + c.val % 0x40)]
  else
    some [UInt8.ofNat (0xf0 + c.val / 0x40000), UInt8.ofNat (0x80 + c.val / 0x1000 % 0x40),
      UInt8.ofNat (0x80 + c.val / 0x40 % 0x40), UInt8.ofNat (0x80 + c.val % 0x40)]

/-- `str.encode()`, `none` where it raises `UnicodeEncodeError`. -/
def encode : Str → Option (List UInt8)
  | [] => some []
  | c :: s => (encodeChar c).bind fun bs => (encode s).map (bs ++ ·)

/-- A text of scalar values has its bytes. -/
theorem exists_encode {s : Str} (h : Scalar s) : ∃ raw, encode s = some raw := by
  induction s with
  | nil => exact ⟨[], rfl⟩
  | cons c s ih =>
    obtain ⟨hc, hs⟩ := List.forall_mem_cons.mp h
    obtain ⟨raw, hraw⟩ := ih hs
    have hchar : ∃ bs, encodeChar c = some bs := by
      unfold encodeChar
      rw [if_neg (by simp [hc])]
      split_ifs <;> exact ⟨_, rfl⟩
    obtain ⟨bs, hbs⟩ := hchar
    exact ⟨bs ++ raw, by rw [encode, hbs, hraw]; rfl⟩

/-- The bytes of an ASCII text are its characters. -/
theorem encode_of_isAscii {s : Str} (h : ∀ c ∈ s, isAscii c = true) :
    encode s = some (s.map fun c => UInt8.ofNat c.val) := by
  induction s with
  | nil => rfl
  | cons c s ih =>
    obtain ⟨hc, hs⟩ := List.forall_mem_cons.mp h
    have hsurrogate : ¬ isSurrogate c = true := by
      simp [scalar_of_isAscii h c List.mem_cons_self]
    have hchar : encodeChar c = some [UInt8.ofNat c.val] := by
      rw [encodeChar, if_neg hsurrogate, if_pos (of_decide_eq_true hc)]
    rw [encode, hchar, ih hs]
    rfl

/-! ### Whitespace -/

/-- `str.isspace` on one character. -/
def isSpace (c : CodePoint) : Bool :=
  (0x09 ≤ c.val && c.val ≤ 0x0d) || (0x1c ≤ c.val && c.val ≤ 0x20) || c.val == 0x85 ||
    c.val == 0xa0 || c.val == 0x1680 || (0x2000 ≤ c.val && c.val ≤ 0x200a) ||
    c.val == 0x2028 || c.val == 0x2029 || c.val == 0x202f || c.val == 0x205f ||
    c.val == 0x3000

/-- `str.strip()`. -/
def strip (s : Str) : Str := (s.dropWhile isSpace).rdropWhile isSpace

/-- A text that starts and ends with a non-space is its own `strip`. -/
theorem strip_eq_self {a b : CodePoint} {s : Str} (ha : isSpace a = false)
    (hb : isSpace b = false) : strip (a :: (s ++ [b])) = a :: (s ++ [b]) := by
  have hleft : (a :: (s ++ [b])).dropWhile isSpace = a :: (s ++ [b]) := by
    rw [List.dropWhile_cons_of_neg (by rw [ha]; simp)]
  unfold strip
  rw [hleft, ← List.cons_append]
  exact List.rdropWhile_concat_neg _ _ _ (by rw [hb]; simp)

/-- A text without spaces is its own `strip`. -/
theorem strip_of_forall {s : Str} (h : ∀ c ∈ s, isSpace c = false) : strip s = s := by
  have hleft : s.dropWhile isSpace = s := by
    cases s with
    | nil => rfl
    | cons c s => exact List.dropWhile_cons_of_neg (by simp [h c List.mem_cons_self])
  unfold strip
  rw [hleft, List.rdropWhile_eq_self_iff]
  intro hne
  simp [h _ (List.getLast_mem hne)]

/-- A space in front is stripped. -/
theorem strip_cons_space {c : CodePoint} (hc : isSpace c = true) (s : Str) :
    strip (c :: s) = strip s := by
  unfold strip
  rw [List.dropWhile_cons_of_pos hc]

/-- A space at the end is stripped. -/
theorem strip_concat_space {c : CodePoint} (hc : isSpace c = true) (s : Str) :
    strip (s ++ [c]) = strip s := by
  unfold strip
  rw [List.dropWhile_append]
  split
  · next hempty =>
    rw [List.dropWhile_cons_of_pos hc, List.isEmpty_iff.mp hempty]
    rfl
  · exact List.rdropWhile_concat_pos _ _ _ hc

/-! ### Lines -/

/-- The newline `\n`. -/
def newline : CodePoint := 0x0a

/-- A line boundary of `str.splitlines`. -/
def isLineBreak (c : CodePoint) : Bool :=
  (0x0a ≤ c.val && c.val ≤ 0x0d) || (0x1c ≤ c.val && c.val ≤ 0x1e) || c.val == 0x85 ||
    c.val == 0x2028 || c.val == 0x2029

/-- The lines of a text, with the characters `cur` of the line read so far; `cr` records
that the last character was a `\r`, whose `\n` belongs to the same boundary. A boundary at
the very end of the text opens no further line. -/
def splitlinesAux : Bool → Str → Str → List Str
  | _, cur, [] => if cur = [] then [] else [cur]
  | cr, cur, c :: rest =>
    if cr && c == newline then splitlinesAux false cur rest
    else if isLineBreak c then cur :: splitlinesAux (c.val == 0x0d) [] rest
    else splitlinesAux false (cur ++ [c]) rest

/-- `str.splitlines()`. -/
def splitlines (s : Str) : List Str := splitlinesAux false [] s

theorem isLineBreak_of_isPrintable {c : CodePoint} (h : isPrintable c = true) :
    isLineBreak c = false := by
  simp only [isPrintable, Bool.and_eq_true, decide_eq_true_eq] at h
  simp only [isLineBreak, Bool.or_eq_false_iff, Bool.and_eq_false_iff, decide_eq_false_iff_not,
    beq_eq_false_iff_ne, ne_eq]
  omega

/-- Printable text is carried over to the current line unchanged. -/
theorem splitlinesAux_printable {s : Str} (hs : Printable s) (cur rest : Str) :
    splitlinesAux false cur (s ++ rest) = splitlinesAux false (cur ++ s) rest := by
  induction s generalizing cur with
  | nil => rw [List.nil_append, List.append_nil]
  | cons c s ih =>
    have hc : isLineBreak c = false :=
      isLineBreak_of_isPrintable (hs c List.mem_cons_self)
    rw [List.cons_append, splitlinesAux, if_neg (by simp), if_neg (by rw [hc]; simp),
      ih (fun d hd => hs d (List.mem_cons_of_mem _ hd)), List.append_assoc,
      List.singleton_append]

/-- A `\n` closes the current line. -/
theorem splitlinesAux_newline (cur rest : Str) :
    splitlinesAux false cur (newline :: rest) = cur :: splitlines rest := by
  have hb : isLineBreak newline = true := by decide
  have hcr : (newline.val == 0x0d) = false := by decide
  rw [splitlinesAux, if_neg (by simp), if_pos hb, hcr]
  rfl

/-- **Reading back one written line.** A printable line followed by `\n` is exactly the
first line of the text, whatever follows. -/
theorem splitlines_line {s : Str} (hs : Printable s) (rest : Str) :
    splitlines (s ++ newline :: rest) = s :: splitlines rest := by
  change splitlinesAux false [] (s ++ newline :: rest) = _
  rw [splitlinesAux_printable hs, splitlinesAux_newline, List.nil_append]

/-- A printable text without a `\n` is a single line, or no line when it is empty. -/
theorem splitlines_printable {s : Str} (hs : Printable s) :
    splitlines s = if s = [] then [] else [s] := by
  have h := splitlinesAux_printable hs [] []
  rw [List.append_nil, List.nil_append] at h
  exact h

/-- A text written line by line. -/
def unlines (ls : List Str) : Str := (ls.map fun l => l ++ [newline]).flatten

@[simp] theorem unlines_nil : unlines [] = [] := rfl

theorem unlines_cons (l : Str) (ls : List Str) :
    unlines (l :: ls) = l ++ newline :: unlines ls := by
  simp [unlines]

theorem unlines_append (ls ms : List Str) : unlines (ls ++ ms) = unlines ls ++ unlines ms := by
  simp [unlines]

/-- Lines written with `\n` after each, followed by a last text `tail` still open, are
read back as those lines followed by the lines of `tail`. -/
theorem splitlines_unlines_append {ls : List Str} (h : ∀ l ∈ ls, Printable l) (tail : Str) :
    splitlines (unlines ls ++ tail) = ls ++ splitlines tail := by
  induction ls with
  | nil => rfl
  | cons l ls ih =>
    rw [unlines_cons, List.append_assoc, List.cons_append,
      splitlines_line (h l List.mem_cons_self),
      ih (fun m hm => h m (List.mem_cons_of_mem _ hm)), List.cons_append]

end Py
