import Chiralite.Framework.BigEndian
import Mathlib.Algebra.BigOperators.Group.List.Basic

/-!
# Length-prefixed chunks

A stream of chunks, each behind its length in a fixed number of bytes, most significant first. The
first length zero ends the stream, so that an empty chunk cannot be sent.

`Reads` is the grammar. It says nothing of a reader; `read` is the loop of one, and `read_eq_iff`
says that it reads exactly what the grammar allows. So a stream has one reading at most
(`Reads.unique`), whatever bytes its chunks hold: a zero word inside a chunk is never looked at.
`encode` writes chunks, and `reads_encode` reads them back, with whatever comes after.
-/

namespace Chunked

open BigEndian

/-! ### The grammar -/

/-- Read from the left, the bytes are these chunks, the end of the stream, and a rest. -/
inductive Reads (width : Nat) : List UInt8 → List (List UInt8) → List UInt8 → Prop where
  | finish {size : List UInt8} (rest : List UInt8) (hsize : size.length = width)
      (hzero : ofBytes size = 0) : Reads width (size ++ rest) [] rest
  | chunk {size chunk stream rest : List UInt8} {chunks : List (List UInt8)}
      (hsize : size.length = width) (hlength : ofBytes size = chunk.length) (hchunk : chunk ≠ [])
      (h : Reads width stream chunks rest) :
      Reads width (size ++ (chunk ++ stream)) (chunk :: chunks) rest

/-- There are not more chunks than bytes in them. -/
theorem length_le_length_flatten {chunks : List (List UInt8)} (h : ∀ c ∈ chunks, c ≠ []) :
    chunks.length ≤ chunks.flatten.length := by
  have hpos : ∀ n ∈ chunks.map List.length, 1 ≤ n := by
    intro n hn
    obtain ⟨c, hc, rfl⟩ := List.mem_map.mp hn
    exact List.length_pos_of_ne_nil (h c hc)
  calc chunks.length = (chunks.map List.length).length := (List.length_map _).symm
    _ ≤ (chunks.map List.length).sum := List.length_le_sum_of_one_le _ hpos
    _ = chunks.flatten.length := List.length_flatten.symm

/-- A chunk behind its length. -/
def frame (width : Nat) (chunk : List UInt8) : List UInt8 := toBytes width chunk.length ++ chunk

/-- Chunks, and the end of the stream. -/
def encode (width : Nat) (chunks : List (List UInt8)) : List UInt8 :=
  chunks.flatMap (frame width) ++ toBytes width 0

/-- **What was written is read back**, when the chunks are not empty and their lengths fit. -/
theorem reads_encode {width : Nat} {chunks : List (List UInt8)}
    (h : ∀ c ∈ chunks, c ≠ [] ∧ c.length < 256 ^ width) (rest : List UInt8) :
    Reads width (encode width chunks ++ rest) chunks rest := by
  induction chunks with
  | nil =>
    have hzero : ofBytes (toBytes width 0) = 0 := ofBytes_toBytes (Nat.pow_pos (by decide))
    exact .finish rest (length_toBytes width 0) hzero
  | cons c chunks ih =>
    obtain ⟨⟨hne, hlt⟩, hrest⟩ := List.forall_mem_cons.mp h
    have hcons : encode width (c :: chunks) ++ rest =
        toBytes width c.length ++ (c ++ (encode width chunks ++ rest)) := by
      simp only [encode, frame, List.flatMap_cons, List.append_assoc]
    rw [hcons]
    exact .chunk (length_toBytes width _) (ofBytes_toBytes hlt) hne (ih hrest)

/-! ### A reader -/

/-- `readexactly(n)`: these bytes and the rest, `none` where the stream ends before. -/
def readExactly (n : Nat) (stream : List UInt8) : Option (List UInt8 × List UInt8) :=
  if n ≤ stream.length then some (stream.take n, stream.drop n) else none

theorem readExactly_append (s t : List UInt8) : readExactly s.length (s ++ t) = some (s, t) := by
  rw [readExactly, if_pos (by simp), List.take_left, List.drop_left]

theorem readExactly_eq_some_iff {n : Nat} {stream s t : List UInt8} :
    readExactly n stream = some (s, t) ↔ s.length = n ∧ stream = s ++ t := by
  constructor
  · intro h
    unfold readExactly at h
    split at h
    · next hn =>
      cases h
      exact ⟨List.length_take_of_le hn, (List.take_append_drop n stream).symm⟩
    · cases h
  · rintro ⟨rfl, rfl⟩
    exact readExactly_append s t

/-- The loop that reads a length and, unless it is zero, as many bytes. -/
def read (width : Nat) : Nat → List UInt8 → Option (List (List UInt8) × List UInt8)
  | 0, _ => none
  | fuel + 1, stream =>
    match readExactly width stream with
    | none => none
    | some (size, stream) =>
      if ofBytes size = 0 then some ([], stream)
      else
        match readExactly (ofBytes size) stream with
        | none => none
        | some (chunk, stream) =>
          (read width fuel stream).map fun (chunks, rest) => (chunk :: chunks, rest)

section Reader

variable {width : Nat} {stream rest : List UInt8} {chunks : List (List UInt8)}

/-- The chunks are not longer than the stream they are read from. -/
theorem Reads.length_flatten_le (h : Reads width stream chunks rest) :
    chunks.flatten.length ≤ stream.length := by
  induction h with
  | finish rest _ _ => exact Nat.zero_le _
  | chunk _ _ _ _ ih =>
    simp only [List.flatten_cons, List.length_append]
    omega

theorem Reads.ne_nil (h : Reads width stream chunks rest) : ∀ c ∈ chunks, c ≠ [] := by
  induction h with
  | finish rest _ _ => exact List.forall_mem_nil _
  | chunk _ _ hchunk _ ih => exact List.forall_mem_cons.mpr ⟨hchunk, ih⟩

/-- A stream that the grammar allows is read, with one round of the loop for each chunk and one for
the end. -/
theorem Reads.read_eq (h : Reads width stream chunks rest) {fuel : Nat}
    (hfuel : chunks.length < fuel) : read width fuel stream = some (chunks, rest) := by
  induction h generalizing fuel with
  | finish rest hsize hzero =>
    obtain ⟨fuel, rfl⟩ := Nat.exists_eq_add_one_of_ne_zero (Nat.ne_zero_of_lt hfuel)
    subst hsize
    rw [read, readExactly_append]
    exact if_pos hzero
  | @chunk size chunk stream rest chunks hsize hlength hchunk _ ih =>
    obtain ⟨fuel, rfl⟩ := Nat.exists_eq_add_one_of_ne_zero (Nat.ne_zero_of_lt hfuel)
    have hzero : ofBytes size ≠ 0 := by
      rw [hlength]
      exact fun h => hchunk (List.eq_nil_of_length_eq_zero h)
    have hbody : readExactly (ofBytes size) (chunk ++ stream) = some (chunk, stream) := by
      rw [hlength]
      exact readExactly_append chunk stream
    have hrest : read width fuel stream = some (chunks, rest) := ih (Nat.lt_of_succ_lt_succ hfuel)
    subst hsize
    rw [read, readExactly_append]
    simp only [if_neg hzero, hbody, hrest]
    rfl

/-- What is read, the grammar allows. -/
theorem reads_of_read {fuel : Nat} (h : read width fuel stream = some (chunks, rest)) :
    Reads width stream chunks rest := by
  induction fuel generalizing stream chunks with
  | zero => cases h
  | succ fuel ih =>
    rw [read] at h
    cases hsize : readExactly width stream with
    | none => simp [hsize] at h
    | some p =>
      obtain ⟨size, body⟩ := p
      obtain ⟨hwidth, rfl⟩ := readExactly_eq_some_iff.mp hsize
      simp only [hsize] at h
      split at h
      · next hzero =>
        cases h
        exact .finish _ hwidth hzero
      · -- a length other than zero: its bytes are there, or nothing is read
        next hzero =>
        cases hchunk : readExactly (ofBytes size) body with
        | none => simp [hchunk] at h
        | some q =>
          obtain ⟨chunk, body'⟩ := q
          obtain ⟨hlength, rfl⟩ := readExactly_eq_some_iff.mp hchunk
          simp only [hchunk, Option.map_eq_some_iff] at h
          obtain ⟨⟨chunks', rest'⟩, hread, heq⟩ := h
          cases heq
          refine .chunk hwidth hlength.symm ?_ (ih hread)
          rintro rfl
          exact hzero hlength.symm

theorem Reads.length_le (h : Reads width stream chunks rest) : chunks.length ≤ stream.length :=
  Nat.le_trans (length_le_length_flatten h.ne_nil) h.length_flatten_le

/-- **The reader reads exactly what the grammar allows**, with a round for each byte there is. -/
theorem read_eq_iff : read width (stream.length + 1) stream = some (chunks, rest) ↔
    Reads width stream chunks rest :=
  ⟨reads_of_read, fun h => h.read_eq (Nat.lt_succ_of_le h.length_le)⟩

/-- A stream is read in one way only. -/
theorem Reads.unique {rest' : List UInt8} {chunks' : List (List UInt8)}
    (h : Reads width stream chunks rest) (h' : Reads width stream chunks' rest') :
    chunks' = chunks ∧ rest' = rest := by
  have heq := (read_eq_iff.mpr h').symm.trans (read_eq_iff.mpr h)
  simpa using heq

end Reader

end Chunked
