import Chiralite.Framework.Text

/-!
# Base64

`base64.b64encode` and `base64.b64decode` of the Python standard library. The decoder is the one
of `binascii.a2b_base64` without `strict_mode`: characters outside the alphabet are skipped, a
padding that completes a group ends the text, and whatever comes after it is not read.

What was encoded is decoded to itself (`b64decode_b64encode`). The proof follows the encoder, three
bytes at a time.
-/

namespace Py
namespace Base64

/-! ### The alphabet -/

/-- The character of a value below 64. -/
def digit (n : Nat) : CodePoint :=
  Fin.ofNat 0x110000 (if n < 26 then 0x41 + n else if n < 52 then 0x61 + (n - 26)
    else if n < 62 then 0x30 + (n - 52) else if n = 62 then 0x2b else 0x2f)

/-- The value of a character of the alphabet. -/
def value? (c : CodePoint) : Option Nat :=
  if 0x41 ≤ c.val ∧ c.val ≤ 0x5a then some (c.val - 0x41)
  else if 0x61 ≤ c.val ∧ c.val ≤ 0x7a then some (c.val - 0x61 + 26)
  else if 0x30 ≤ c.val ∧ c.val ≤ 0x39 then some (c.val - 0x30 + 52)
  else if c.val = 0x2b then some 62
  else if c.val = 0x2f then some 63
  else none

/-- The padding character `=`. -/
def pad : CodePoint := 0x3d

/-! ### Encoding and decoding -/

/-- `base64.b64encode(v).decode()`. -/
def b64encode : List UInt8 → Str
  | [] => []
  | [a] => [digit (a.toNat / 4), digit (a.toNat % 4 * 16), pad, pad]
  | [a, b] =>
    [digit (a.toNat / 4), digit (a.toNat % 4 * 16 + b.toNat / 16), digit (b.toNat % 16 * 4), pad]
  | a :: b :: c :: rest =>
    digit (a.toNat / 4) :: digit (a.toNat % 4 * 16 + b.toNat / 16) ::
      digit (b.toNat % 16 * 4 + c.toNat / 64) :: digit (c.toNat % 64) :: b64encode rest

/-- `binascii.a2b_base64`, from the position `quadPos` in a group of four on, with the bits
`leftchar` that have not been written and the padding seen there. `none` where it raises
`binascii.Error`. -/
def a2b (quadPos leftchar pads : Nat) : Str → Option (List UInt8)
  | [] => if quadPos = 0 then some [] else none
  | c :: cs =>
    if c = pad then
      if 2 ≤ quadPos ∧ 4 ≤ quadPos + (pads + 1) then some []
      else a2b quadPos leftchar (if 2 ≤ quadPos then pads + 1 else pads) cs
    else
      match value? c with
      | none => a2b quadPos leftchar pads cs
      | some v =>
        match quadPos with
        | 0 => a2b 1 v 0 cs
        | 1 => (a2b 2 (v % 16) 0 cs).map (UInt8.ofNat (leftchar * 4 + v / 16) :: ·)
        | 2 => (a2b 3 (v % 4) 0 cs).map (UInt8.ofNat (leftchar * 16 + v / 4) :: ·)
        | _ => (a2b 0 0 0 cs).map (UInt8.ofNat (leftchar * 64 + v) :: ·)

/-- `base64.b64decode` on a `str`, which must be ASCII. -/
def b64decode (s : Str) : Option (List UInt8) := if s.all isAscii then a2b 0 0 0 s else none

/-! ### The round trip -/

theorem value?_digit : ∀ n, n < 64 → value? (digit n) = some n := by decide

theorem digit_ne_pad : ∀ n, n < 64 → digit n ≠ pad := by decide

theorem isPrintable_digit : ∀ n, n < 64 → isPrintable (digit n) = true := by decide

section Steps

variable {n : Nat} (hn : n < 64) (left pads : Nat) (cs : Str)
include hn

/-- A character of the alphabet is read by its value. -/
theorem a2b_digit_zero : a2b 0 left pads (digit n :: cs) = a2b 1 n 0 cs := by
  rw [a2b, if_neg (digit_ne_pad n hn), value?_digit n hn]
  rfl

theorem a2b_digit_one : a2b 1 left pads (digit n :: cs) =
    (a2b 2 (n % 16) 0 cs).map (UInt8.ofNat (left * 4 + n / 16) :: ·) := by
  rw [a2b, if_neg (digit_ne_pad n hn), value?_digit n hn]
  rfl

theorem a2b_digit_two : a2b 2 left pads (digit n :: cs) =
    (a2b 3 (n % 4) 0 cs).map (UInt8.ofNat (left * 16 + n / 4) :: ·) := by
  rw [a2b, if_neg (digit_ne_pad n hn), value?_digit n hn]
  rfl

theorem a2b_digit_three : a2b 3 left pads (digit n :: cs) =
    (a2b 0 0 0 cs).map (UInt8.ofNat (left * 64 + n) :: ·) := by
  rw [a2b, if_neg (digit_ne_pad n hn), value?_digit n hn]
  rfl

end Steps

/-- A byte put together again. -/
theorem ofNat_eq {a : UInt8} {n : Nat} (h : n = a.toNat) : UInt8.ofNat n = a := by
  rw [h, UInt8.ofNat_toNat]

theorem a2b_b64encode (bs : List UInt8) : a2b 0 0 0 (b64encode bs) = some bs := by
  -- the groups of the encoder: none, one, two, or three bytes and a rest
  induction bs using b64encode.induct with
  | case1 => rfl
  | case2 a =>
    have ha := a.toNat_lt
    rw [b64encode, a2b_digit_zero (by omega), a2b_digit_one (by omega),
      ofNat_eq (a := a) (by omega)]
    rfl
  | case3 a b =>
    have ha := a.toNat_lt
    have hb := b.toNat_lt
    rw [b64encode, a2b_digit_zero (by omega), a2b_digit_one (by omega), a2b_digit_two (by omega),
      ofNat_eq (a := a) (by omega), ofNat_eq (a := b) (by omega)]
    rfl
  | case4 a b c rest ih =>
    have ha := a.toNat_lt
    have hb := b.toNat_lt
    have hc := c.toNat_lt
    rw [b64encode, a2b_digit_zero (by omega), a2b_digit_one (by omega), a2b_digit_two (by omega),
      a2b_digit_three (by omega), ih, ofNat_eq (a := a) (by omega), ofNat_eq (a := b) (by omega),
      ofNat_eq (a := c) (by omega)]
    rfl

/-- The characters of an encoded text. -/
theorem mem_b64encode {bs : List UInt8} {c : CodePoint} (hc : c ∈ b64encode bs) :
    c = pad ∨ ∃ n, n < 64 ∧ c = digit n := by
  induction bs using b64encode.induct with
  | case1 => cases hc
  | case2 a =>
    have ha := a.toNat_lt
    simp only [b64encode, List.mem_cons, List.not_mem_nil, or_false] at hc
    obtain rfl | rfl | rfl | rfl := hc
    · exact .inr ⟨_, by omega, rfl⟩
    · exact .inr ⟨_, by omega, rfl⟩
    · exact .inl rfl
    · exact .inl rfl
  | case3 a b =>
    have ha := a.toNat_lt
    have hb := b.toNat_lt
    simp only [b64encode, List.mem_cons, List.not_mem_nil, or_false] at hc
    obtain rfl | rfl | rfl | rfl := hc
    · exact .inr ⟨_, by omega, rfl⟩
    · exact .inr ⟨_, by omega, rfl⟩
    · exact .inr ⟨_, by omega, rfl⟩
    · exact .inl rfl
  | case4 a b d rest ih =>
    have ha := a.toNat_lt
    have hb := b.toNat_lt
    have hd := d.toNat_lt
    simp only [b64encode, List.mem_cons] at hc
    obtain rfl | rfl | rfl | rfl | hrest := hc
    · exact .inr ⟨_, by omega, rfl⟩
    · exact .inr ⟨_, by omega, rfl⟩
    · exact .inr ⟨_, by omega, rfl⟩
    · exact .inr ⟨_, by omega, rfl⟩
    · exact ih hrest

/-- What holds of the padding and the alphabet holds of an encoded text. -/
theorem forall_b64encode {P : CodePoint → Prop} (hpad : P pad) (hdigit : ∀ n, n < 64 → P (digit n))
    (bs : List UInt8) : ∀ c ∈ b64encode bs, P c := by
  intro c hc
  obtain rfl | ⟨n, hn, rfl⟩ := mem_b64encode hc
  · exact hpad
  · exact hdigit n hn

theorem printable_b64encode (bs : List UInt8) : Printable (b64encode bs) :=
  forall_b64encode (by decide) isPrintable_digit bs

theorem isAscii_b64encode (bs : List UInt8) : ∀ c ∈ b64encode bs, isAscii c = true :=
  fun c hc => isAscii_of_isPrintable (printable_b64encode bs c hc)

/-- An encoded text has no spaces in it. -/
theorem isSpace_b64encode (bs : List UInt8) : ∀ c ∈ b64encode bs, isSpace c = false :=
  forall_b64encode (by decide) (by decide) bs

/-- Three bytes make four characters, and so does a rest. -/
theorem length_b64encode (bs : List UInt8) :
    (b64encode bs).length = 4 * ((bs.length + 2) / 3) := by
  induction bs using b64encode.induct with
  | case1 => rfl
  | case2 a => simp [b64encode]
  | case3 a b => simp [b64encode]
  | case4 a b c rest ih =>
    simp only [b64encode, List.length_cons, ih]
    omega

/-- **What was encoded is decoded to itself.** -/
theorem b64decode_b64encode (bs : List UInt8) : b64decode (b64encode bs) = some bs := by
  rw [b64decode, if_pos (List.all_eq_true.mpr (isAscii_b64encode bs)), a2b_b64encode]

example : b64encode [0x66, 0x6f, 0x6f, 0x62] = lit "Zm9vYg==" := by decide

end Base64
end Py
