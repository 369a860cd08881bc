import Mathlib.Data.Nat.Basic
import Mathlib.Tactic.Conv

namespace MixedRadix

/-- Counting up either moves the lowest digit or carries into the digits above it. -/
theorem succ_digit (n b : Nat) (positive : 0 < b) :
    (n % b + 1 < b ∧ (n + 1) % b = n % b + 1 ∧ (n + 1) / b = n / b) ∨
      (n % b + 1 = b ∧ (n + 1) % b = 0 ∧ (n + 1) / b = n / b + 1) := by
  have bound := Nat.mod_lt n positive
  have whole := Nat.div_add_mod n b
  rcases Nat.lt_or_ge (n % b + 1) b with small | carry
  · refine .inl ⟨small, ?_, ?_⟩
    · conv_lhs => rw [← whole, Nat.add_assoc, Nat.mul_add_mod, Nat.mod_eq_of_lt small]
    · conv_lhs => rw [← whole, Nat.add_assoc, Nat.mul_add_div positive, Nat.div_eq_of_lt small]
      rfl
  · have full : n % b + 1 = b := by omega
    refine .inr ⟨full, ?_, ?_⟩
    · conv_lhs => rw [← whole, Nat.add_assoc, full, Nat.mul_add_mod, Nat.mod_self]
    · conv_lhs => rw [← whole, Nat.add_assoc, full, Nat.mul_add_div positive, Nat.div_self positive]

/-- Truncating the top digit is reducing the whole number. -/
theorem mod_top_digit {low b top limit : Nat} (small : low < b) :
    low + b * (top % limit) = (low + b * top) % (b * limit) := by
  rw [Nat.mod_mul, Nat.add_mul_mod_self_left, Nat.mod_eq_of_lt small,
    Nat.add_mul_div_left _ _ (Nat.zero_lt_of_lt small), Nat.div_eq_of_lt small, Nat.zero_add]

/-- Numbers are compared by the digits above the lowest, and by that one where these are equal. -/
theorem digits_le_iff {low low' b high high' : Nat} (small : low < b) (small' : low' < b) :
    low + b * high ≤ low' + b * high' ↔ high < high' ∨ high' = high ∧ low ≤ low' := by
  rcases Nat.lt_trichotomy high high' with below | same | above
  · have next : b * (high + 1) ≤ b * high' := Nat.mul_le_mul_left b below
    rw [Nat.mul_succ] at next
    omega
  · subst same
    omega
  · have next : b * (high' + 1) ≤ b * high := Nat.mul_le_mul_left b above
    rw [Nat.mul_succ] at next
    omega

theorem digits_lt_iff {low low' b high high' : Nat} (small : low < b) (small' : low' < b) :
    low + b * high < low' + b * high' ↔ high < high' ∨ high' = high ∧ low < low' := by
  rw [← Nat.not_le, digits_le_iff small' small]
  omega

theorem digits_eq_iff {low low' b high high' : Nat} (small : low < b) (small' : low' < b) :
    low + b * high = low' + b * high' ↔ high = high' ∧ low = low' := by
  rw [Nat.eq_iff_le_and_ge, digits_le_iff small small', digits_le_iff small' small]
  omega

/-- Factors cut to one digit each have the same product only if they have no more than that. -/
theorem lt_of_mul_mod {a b limit : Nat} (positive : 0 < a * b) (same : a % limit * (b % limit) = a * b)
    (nonzero : 0 < limit) : a < limit ∧ b < limit := by
  have first : 0 < a := Nat.pos_of_mul_pos_right positive
  have second : 0 < b := Nat.pos_of_mul_pos_left positive
  constructor
  · by_contra large
    have cut : a % limit < a := Nat.lt_of_lt_of_le (Nat.mod_lt a nonzero) (Nat.le_of_not_lt large)
    have fewer := Nat.mul_lt_mul_of_lt_of_le cut (Nat.mod_le b limit) second
    omega
  · by_contra large
    have cut : b % limit < b := Nat.lt_of_lt_of_le (Nat.mod_lt b nonzero) (Nat.le_of_not_lt large)
    have fewer := Nat.mul_lt_mul_of_le_of_lt (Nat.mod_le a limit) cut first
    omega

theorem mul_mod_eq_iff {a b limit : Nat} (nonzero : 0 < limit) :
    a % limit * (b % limit) = a * b ↔ a * b = 0 ∨ a < limit ∧ b < limit := by
  constructor
  · intro same
    rcases Nat.eq_zero_or_pos (a * b) with empty | positive
    · exact .inl empty
    · exact .inr (lt_of_mul_mod positive same nonzero)
  · intro fits
    rcases fits with empty | ⟨first, second⟩
    · rcases Nat.mul_eq_zero.mp empty with rfl | rfl
      · rw [Nat.zero_mod, Nat.zero_mul, Nat.zero_mul]
      · rw [Nat.zero_mod, Nat.mul_zero, Nat.mul_zero]
    · rw [Nat.mod_eq_of_lt first, Nat.mod_eq_of_lt second]

end MixedRadix
