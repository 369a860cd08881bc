import Mathlib.Algebra.Order.Ring.Nat

namespace Accumulator

/-- Adds to what is held and gives one pulse for a full `modulus`. -/
def feed (modulus held amount : Nat) : Nat × Bool :=
  if modulus ≤ held + amount then (held + amount - modulus, true) else (held + amount, false)

def feedAll (modulus : Nat) : Nat → List Nat → Nat × List Bool
  | held, [] => (held, [])
  | held, amount :: amounts =>
    let first := feed modulus held amount
    let rest := feedAll modulus first.1 amounts
    (rest.1, first.2 :: rest.2)

variable {modulus : Nat}

theorem feed_of_le {held amount : Nat} (full : modulus ≤ held + amount) :
    feed modulus held amount = (held + amount - modulus, true) := if_pos full

theorem feed_of_lt {held amount : Nat} (under : held + amount < modulus) :
    feed modulus held amount = (held + amount, false) := if_neg (Nat.not_le_of_lt under)

theorem feed_conserves {held amount : Nat} (below : held < modulus) (small : amount ≤ modulus) :
    (feed modulus held amount).1 < modulus ∧
      modulus * [(feed modulus held amount).2].count true + (feed modulus held amount).1 = held + amount := by
  by_cases full : modulus ≤ held + amount
  · rw [feed_of_le full]
    refine ⟨by omega, ?_⟩
    show modulus * 1 + (held + amount - modulus) = held + amount
    omega
  · rw [feed_of_lt (by omega)]
    refine ⟨by omega, ?_⟩
    show modulus * 0 + (held + amount) = held + amount
    omega

theorem feedAll_conserves {held : Nat} {amounts : List Nat} (below : held < modulus)
    (small : ∀ amount ∈ amounts, amount ≤ modulus) :
    (feedAll modulus held amounts).1 < modulus ∧
      modulus * (feedAll modulus held amounts).2.count true + (feedAll modulus held amounts).1 =
        held + amounts.sum := by
  induction amounts generalizing held with
  | nil => exact ⟨below, by simp [feedAll]⟩
  | cons amount amounts ih =>
    obtain ⟨kept, balance⟩ := feed_conserves below (small amount (by simp))
    obtain ⟨final, total⟩ := ih kept fun later member => small later (by simp [member])
    refine ⟨final, ?_⟩
    have outputs : (feedAll modulus held (amount :: amounts)).2 =
        [(feed modulus held amount).2] ++ (feedAll modulus (feed modulus held amount).1 amounts).2 := rfl
    rw [outputs, List.count_append, Nat.mul_add, List.sum_cons]
    show _ + (feedAll modulus (feed modulus held amount).1 amounts).1 = _
    omega

theorem count_feedAll {held : Nat} {amounts : List Nat} (below : held < modulus)
    (small : ∀ amount ∈ amounts, amount ≤ modulus) :
    (feedAll modulus held amounts).2.count true = (held + amounts.sum) / modulus := by
  obtain ⟨kept, balance⟩ := feedAll_conserves below small
  rw [← balance, Nat.mul_add_div (by omega), Nat.div_eq_of_lt kept, Nat.add_zero]

/-- However much is held at the start, equal amounts give the rounded down or the rounded up number of pulses. -/
theorem count_feedAll_replicate {held amount k : Nat} (below : held < modulus)
    (small : ∀ a ∈ List.replicate k amount, a ≤ modulus) :
    (feedAll modulus held (List.replicate k amount)).2.count true = k * amount / modulus ∨
      (feedAll modulus held (List.replicate k amount)).2.count true = (k * amount + (modulus - 1)) / modulus := by
  rw [count_feedAll below small, List.sum_replicate_nat]
  have low : k * amount / modulus ≤ (held + k * amount) / modulus := Nat.div_le_div_right (by omega)
  have high : (held + k * amount) / modulus ≤ (k * amount + (modulus - 1)) / modulus :=
    Nat.div_le_div_right (by omega)
  have gap : (k * amount + (modulus - 1)) / modulus ≤ k * amount / modulus + 1 := by
    rw [← Nat.add_div_right _ (by omega)]
    exact Nat.div_le_div_right (by omega)
  omega

end Accumulator
