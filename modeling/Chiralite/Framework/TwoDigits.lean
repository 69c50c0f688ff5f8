import Mathlib.Tactic.Ring

/-!
# Numbers of two digits

Multiplication with the digits of a base, when every sum is cut off at the square of the base: the
product of two numbers of two digits each is put together from the four products of their digits,
the low half with two sums that may run over, and the high half with what they carry
(`mul_eq_low_add_high`). A sum has run over exactly if it is less than what was added to
(`add_eq_mod_add_carry`).
-/

namespace TwoDigits

/-- What a sum carries that was cut off and is less than a summand. -/
def carry (sum x : Nat) : Nat := if sum < x then 1 else 0

/-- **A sum is what is left of it and its carry.** -/
theorem add_eq_mod_add_carry {m x y : Nat} (hx : x < m) (hy : y < m) :
    x + y = (x + y) % m + m * carry ((x + y) % m) x := by
  unfold carry
  by_cases hover : m ≤ x + y
  · have hmod : (x + y) % m = x + y - m := by
      rw [Nat.mod_eq_sub_mod hover, Nat.mod_eq_of_lt (by omega)]
    rw [hmod, if_pos (by omega)]
    omega
  · have hmod : (x + y) % m = x + y := Nat.mod_eq_of_lt (by omega)
    rw [hmod, if_neg (by omega)]
    omega

section Product

variable {b a₀ a₁ b₀ b₁ : Nat}

/-- The low digit of a product of digits, moved up by one, is less than the square. -/
theorem mod_mul_lt (hb : 0 < b) (n : Nat) : n % b * b < b * b :=
  Nat.mul_lt_mul_of_pos_right (Nat.mod_lt n hb) hb

/-- **The product of two numbers of two digits**, in the base `b`: the low half, and what is left
over for the high half. -/
theorem mul_eq_low_add_high (ha₀ : a₀ < b) (hb₀ : b₀ < b) :
    let t := (a₀ * b₀ + a₁ * b₀ % b * b) % (b * b)
    let low := (t + b₁ * a₀ % b * b) % (b * b)
    (a₀ + b * a₁) * (b₀ + b * b₁) =
      low + b * b * (a₁ * b₁ + a₁ * b₀ / b + b₁ * a₀ / b + (carry t (a₀ * b₀) + carry low t)) := by
  intro t low
  have hpos : 0 < b := Nat.lt_of_le_of_lt (Nat.zero_le a₀) ha₀
  -- the two sums of the low half
  have hfirst : a₀ * b₀ + a₁ * b₀ % b * b = t + b * b * carry t (a₀ * b₀) :=
    add_eq_mod_add_carry (Nat.mul_lt_mul'' ha₀ hb₀) (mod_mul_lt hpos _)
  have hsecond : t + b₁ * a₀ % b * b = low + b * b * carry low t :=
    add_eq_mod_add_carry (Nat.mod_lt _ (Nat.mul_pos hpos hpos)) (mod_mul_lt hpos _)
  -- the two products in the middle, by their digits
  have hmiddle : ∀ n, b * n = n % b * b + b * b * (n / b) := by
    intro n
    calc b * n = b * (n % b + b * (n / b)) := by rw [Nat.mod_add_div]
      _ = n % b * b + b * b * (n / b) := by ring
  calc (a₀ + b * a₁) * (b₀ + b * b₁)
      = a₀ * b₀ + b * (a₁ * b₀) + b * (b₁ * a₀) + b * b * (a₁ * b₁) := by ring
    _ = (a₀ * b₀ + a₁ * b₀ % b * b) + b₁ * a₀ % b * b +
          b * b * (a₁ * b₁ + a₁ * b₀ / b + b₁ * a₀ / b) := by
        rw [hmiddle (a₁ * b₀), hmiddle (b₁ * a₀)]
        ring
    _ = (t + b₁ * a₀ % b * b) +
          b * b * (a₁ * b₁ + a₁ * b₀ / b + b₁ * a₀ / b + carry t (a₀ * b₀)) := by
        rw [hfirst]
        ring
    _ = low + b * b *
          (a₁ * b₁ + a₁ * b₀ / b + b₁ * a₀ / b + (carry t (a₀ * b₀) + carry low t)) := by
        rw [hsecond]
        ring

end Product

end TwoDigits
