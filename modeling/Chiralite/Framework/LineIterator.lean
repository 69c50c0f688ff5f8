import Mathlib.Data.List.Basic

/-!
# The lines of a stream of bytes

An iterator over a stream gives its lines, each with the newline that ends it, until the stream ends
or breaks off. It may refuse lines beyond a limit. `Iterator` says that and no more; what it
makes of a last line without a newline is left open. `untilNewline` is an iterator.
-/

namespace Lines

/-- How a stream, or the iteration over it, comes to its end. -/
inductive Ending where
  | clean
  /-- An exception. -/
  | raised
  deriving DecidableEq

/-- Bytes that end with a newline and hold no other. -/
def IsLine (line : List UInt8) : Prop := ∃ body, line = body ++ [0x0a] ∧ (0x0a : UInt8) ∉ body

/-- An iterator over the lines of a stream. -/
structure Iterator where
  /-- The longest line that is given, its newline counted. -/
  limit : Nat
  /-- Lines of up to 64 KiB are given. -/
  le_limit : 65536 ≤ limit
  /-- What is given when these bytes are read and the stream then ends in this way, and how the
  iteration ends. -/
  lines : List UInt8 → Ending → List (List UInt8) × Ending
  /-- Lines within the limit are given one after the other, and then the stream ends. -/
  lines_flatten : ∀ ls ending, (∀ l ∈ ls, IsLine l ∧ l.length ≤ limit) →
    lines ls.flatten ending = (ls, ending)
  /-- At a longer line an exception is raised. -/
  lines_long : ∀ ls l rest ending, (∀ l ∈ ls, IsLine l ∧ l.length ≤ limit) → IsLine l →
    limit < l.length → lines (ls.flatten ++ (l ++ rest)) ending = (ls, .raised)

/-! ### An iterator -/

/-- Reads on from a line that has been begun. -/
def untilNewline (limit : Nat) (cur : List UInt8) : List UInt8 → Ending →
    List (List UInt8) × Ending
  | [], .clean => (if cur = [] then [] else [cur], .clean)
  | [], .raised => ([], .raised)
  | b :: bs, ending =>
    if limit < cur.length + 1 then ([], .raised)
    else if b = 0x0a then
      let (ls, ending) := untilNewline limit [] bs ending
      ((cur ++ [b]) :: ls, ending)
    else untilNewline limit (cur ++ [b]) bs ending

section UntilNewline

variable {limit : Nat} {body : List UInt8}

/-- A line within the limit. -/
theorem untilNewline_line (hbody : (0x0a : UInt8) ∉ body) {cur : List UInt8}
    (hlimit : cur.length + body.length + 1 ≤ limit) (rest : List UInt8) (ending : Ending) :
    untilNewline limit cur (body ++ 0x0a :: rest) ending =
      ((cur ++ body ++ [0x0a]) :: (untilNewline limit [] rest ending).1,
        (untilNewline limit [] rest ending).2) := by
  induction body generalizing cur with
  | nil =>
    rw [List.nil_append, untilNewline, if_neg (by simp at hlimit; omega), if_pos rfl,
      List.append_nil]
  | cons b body ih =>
    obtain ⟨hb, hbody⟩ := not_or.mp (mt List.mem_cons.mpr hbody)
    rw [List.length_cons] at hlimit
    rw [List.cons_append, untilNewline, if_neg (by omega), if_neg (Ne.symm hb),
      ih hbody (by rw [List.length_append, List.length_singleton]; omega)]
    simp only [List.append_assoc, List.singleton_append]

/-- A line beyond the limit. -/
theorem untilNewline_long (hbody : (0x0a : UInt8) ∉ body) {cur : List UInt8}
    (hlimit : limit < cur.length + body.length + 1) (rest : List UInt8) (ending : Ending) :
    untilNewline limit cur (body ++ 0x0a :: rest) ending = ([], .raised) := by
  induction body generalizing cur with
  | nil => rw [List.nil_append, untilNewline, if_pos (by simpa using hlimit)]
  | cons b body ih =>
    obtain ⟨hb, hbody⟩ := not_or.mp (mt List.mem_cons.mpr hbody)
    rw [List.length_cons] at hlimit
    rw [List.cons_append, untilNewline]
    split
    · rfl
    · rw [if_neg (Ne.symm hb),
        ih hbody (by rw [List.length_append, List.length_singleton]; omega)]

/-- Lines within the limit in front of something else. -/
theorem untilNewline_lines {ls : List (List UInt8)}
    (h : ∀ l ∈ ls, IsLine l ∧ l.length ≤ limit) (rest : List UInt8) (ending : Ending) :
    untilNewline limit [] (ls.flatten ++ rest) ending =
      (ls ++ (untilNewline limit [] rest ending).1, (untilNewline limit [] rest ending).2) := by
  induction ls with
  | nil => rfl
  | cons l ls ih =>
    obtain ⟨⟨⟨body, rfl, hbody⟩, hlength⟩, hls⟩ := List.forall_mem_cons.mp h
    rw [List.length_append, List.length_singleton] at hlength
    have hassoc : ((body ++ [0x0a]) :: ls).flatten ++ rest =
        body ++ 0x0a :: (ls.flatten ++ rest) := by
      simp only [List.flatten_cons, List.append_assoc, List.cons_append, List.nil_append]
    rw [hassoc, untilNewline_line hbody (by simpa using hlength), ih hls]
    rfl

/-- An iterator with this limit. -/
def Iterator.ofLimit (limit : Nat) (h : 65536 ≤ limit) : Iterator where
  limit
  le_limit := h
  lines := untilNewline limit []
  lines_flatten ls ending h := by
    have hlines := untilNewline_lines h [] ending
    rw [List.append_nil] at hlines
    rw [hlines]
    cases ending with
    | clean => exact congrArg (·, Ending.clean) (List.append_nil ls)
    | raised => exact congrArg (·, Ending.raised) (List.append_nil ls)
  lines_long ls l rest ending h hl hlong := by
    obtain ⟨body, rfl, hbody⟩ := hl
    rw [List.length_append, List.length_singleton] at hlong
    rw [untilNewline_lines h, List.append_assoc, List.singleton_append,
      untilNewline_long hbody (by simpa using hlong), List.append_nil]

end UntilNewline

end Lines
