import Chiralite.Framework.Text

/-!
# Reading UTF-8

`bytes.decode()` of Python, which is strict: a byte that begins no character, a missing or
superfluous continuation byte, a character written longer than necessary, a surrogate and a number
beyond the last code point are refused. It reads back what `encode` writes (`decode_encode`).
-/

namespace Py
namespace Utf8

/-- Where the reading of a character stands. -/
structure Partial where
  /-- The continuation bytes that are to come. -/
  need : Nat
  /-- The bits that have been read. -/
  acc : Nat
  /-- The least number that is written with so many bytes. -/
  low : Nat

/-- The first byte of a character. -/
def lead (b : Nat) : Option Partial :=
  if b < 0x80 then some ⟨0, b, 0⟩
  else if b < 0xc0 then none
  else if b < 0xe0 then some ⟨1, b - 0xc0, 0x80⟩
  else if b < 0xf0 then some ⟨2, b - 0xe0, 0x800⟩
  else if b < 0xf8 then some ⟨3, b - 0xf0, 0x10000⟩
  else none

/-- A continuation byte. -/
def continuation (p : Partial) (b : Nat) : Option Partial :=
  if 0x80 ≤ b ∧ b < 0xc0 then some ⟨p.need - 1, p.acc * 0x40 + (b - 0x80), p.low⟩ else none

/-- The character that has been read. -/
def finish (p : Partial) : Option CodePoint :=
  if h : p.low ≤ p.acc ∧ p.acc < 0x110000 then
    if isSurrogate ⟨p.acc, h.2⟩ then none else some ⟨p.acc, h.2⟩
  else none

/-- The text of some bytes, from the inside of a character on. -/
def decodeFrom (p : Partial) : List UInt8 → Option Str
  | [] => if p.need = 0 then some [] else none
  | b :: bs =>
    match if p.need = 0 then lead b.toNat else continuation p b.toNat with
    | none => none
    | some q =>
      if q.need = 0 then (finish q).bind fun c => (decodeFrom ⟨0, 0, 0⟩ bs).map (c :: ·)
      else decodeFrom q bs

/-- `bytes.decode()`, `none` where it raises `UnicodeDecodeError`. -/
def decode (raw : List UInt8) : Option Str := decodeFrom ⟨0, 0, 0⟩ raw

theorem toNat_ofNat {n : Nat} (h : n < 0x100) : (UInt8.ofNat n).toNat = n :=
  UInt8.toNat_ofNat_of_lt' h

section Steps

variable {need acc low n : Nat} {c : CodePoint} {bs : List UInt8}

/-- A character of one byte. -/
theorem decode_single (hn : n < 0x80) (hc : finish ⟨0, n, 0⟩ = some c) :
    decode (UInt8.ofNat n :: bs) = (decode bs).map (c :: ·) := by
  have hbyte : (UInt8.ofNat n).toNat = n := toNat_ofNat (by omega)
  simp only [decode, decodeFrom, hbyte, lead, if_pos hn, if_true, hc]
  rfl

/-- The first byte of a longer character. -/
theorem decode_lead {q : Partial} (hn : n < 0x100) (hlead : lead n = some q) (hq : q.need ≠ 0) :
    decode (UInt8.ofNat n :: bs) = decodeFrom q bs := by
  have hbyte : (UInt8.ofNat n).toNat = n := toNat_ofNat (by omega)
  simp only [decode, decodeFrom, hbyte, if_true, hlead, if_neg hq]

/-- A continuation byte with others to come. -/
theorem decodeFrom_continuation (hn : n < 0x40) :
    decodeFrom ⟨need + 2, acc, low⟩ (UInt8.ofNat (0x80 + n) :: bs) =
      decodeFrom ⟨need + 1, acc * 0x40 + n, low⟩ bs := by
  have hbyte : (UInt8.ofNat (0x80 + n)).toNat = 0x80 + n := toNat_ofNat (by omega)
  have hrange : 0x80 ≤ 0x80 + n ∧ 0x80 + n < 0xc0 := by omega
  simp only [decodeFrom, hbyte, continuation, if_pos hrange, Nat.add_sub_cancel_left]
  rfl

/-- The last byte of a character. -/
theorem decodeFrom_last (hn : n < 0x40) (hc : finish ⟨0, acc * 0x40 + n, low⟩ = some c) :
    decodeFrom ⟨1, acc, low⟩ (UInt8.ofNat (0x80 + n) :: bs) = (decode bs).map (c :: ·) := by
  have hbyte : (UInt8.ofNat (0x80 + n)).toNat = 0x80 + n := toNat_ofNat (by omega)
  have hrange : 0x80 ≤ 0x80 + n ∧ 0x80 + n < 0xc0 := by omega
  simp only [decodeFrom, hbyte, continuation, if_pos hrange, Nat.add_sub_cancel_left, Nat.sub_self,
    Nat.one_ne_zero, if_false, if_true, hc]
  rfl

/-- The bits of a character make the character. -/
theorem finish_eq (hacc : acc = c.val) (hlow : low ≤ c.val) (hc : isSurrogate c = false) :
    finish ⟨need, acc, low⟩ = some c := by
  subst hacc
  rw [finish, dif_pos ⟨hlow, c.isLt⟩, if_neg (by simp [hc])]

end Steps

/-- The bytes of one character are read as that character. -/
theorem decode_encodeChar {c : CodePoint} {raw : List UInt8} (h : encodeChar c = some raw)
    (rest : List UInt8) : decode (raw ++ rest) = (decode rest).map (c :: ·) := by
  have hlt : c.val < 0x110000 := c.isLt
  unfold encodeChar at h
  split at h
  · cases h
  next hsurrogate =>
  have hc : isSurrogate c = false := by simpa using hsurrogate
  -- one, two, three or four bytes
  split at h
  · next h1 =>
    cases h
    exact decode_single h1 (finish_eq rfl (Nat.zero_le _) hc)
  split at h
  · next h1 h2 =>
    cases h
    have hlead : lead (0xc0 + c.val / 0x40) = some ⟨1, c.val / 0x40, 0x80⟩ := by
      rw [lead, if_neg (by omega), if_neg (by omega), if_pos (by omega), Nat.add_sub_cancel_left]
    rw [List.cons_append, decode_lead (by omega) hlead (Nat.succ_ne_zero _)]
    exact decodeFrom_last (by omega) (finish_eq (by omega) (by omega) hc)
  split at h
  · next h1 h2 h3 =>
    cases h
    have hlead : lead (0xe0 + c.val / 0x1000) = some ⟨2, c.val / 0x1000, 0x800⟩ := by
      rw [lead, if_neg (by omega), if_neg (by omega), if_neg (by omega), if_pos (by omega),
        Nat.add_sub_cancel_left]
    rw [List.cons_append, decode_lead (by omega) hlead (Nat.succ_ne_zero _)]
    rw [List.cons_append, decodeFrom_continuation (by omega)]
    exact decodeFrom_last (by omega) (finish_eq (by omega) (by omega) hc)
  · next h1 h2 h3 =>
    cases h
    have hlead : lead (0xf0 + c.val / 0x40000) = some ⟨3, c.val / 0x40000, 0x10000⟩ := by
      rw [lead, if_neg (by omega), if_neg (by omega), if_neg (by omega), if_neg (by omega),
        if_pos (by omega), Nat.add_sub_cancel_left]
    rw [List.cons_append, decode_lead (by omega) hlead (Nat.succ_ne_zero _)]
    rw [List.cons_append, decodeFrom_continuation (by omega)]
    rw [List.cons_append, decodeFrom_continuation (by omega)]
    exact decodeFrom_last (by omega) (finish_eq (by omega) (by omega) hc)

/-- **Reading inverts writing.** -/
theorem decode_encode {s : Str} {raw : List UInt8} (h : encode s = some raw) :
    decode raw = some s := by
  induction s generalizing raw with
  | nil =>
    cases h
    rfl
  | cons c s ih =>
    rw [encode, Option.bind_eq_some_iff] at h
    obtain ⟨first, hfirst, h⟩ := h
    obtain ⟨others, hothers, rfl⟩ := Option.map_eq_some_iff.mp h
    rw [decode_encodeChar hfirst, ih hothers]
    rfl

end Utf8
end Py
