import Mathlib.Algebra.CharP.Two
import Mathlib.Algebra.Field.ZMod
import Mathlib.Algebra.Polynomial.RingDivision
import Mathlib.RingTheory.Coprime.Lemmas
import Mathlib.Tactic.LinearCombination

namespace CyclicCode

open Polynomial

def bitValue (bit : Bool) : ZMod 2 := if bit then 1 else 0

theorem bitValue_xor (left right : Bool) : bitValue (left ^^ right) = bitValue left + bitValue right := by
  cases left <;> cases right <;> decide

theorem bitValue_eq_zero {bit : Bool} : bitValue bit = 0 ↔ bit = false := by
  cases bit <;> decide

theorem bitValue_injective : Function.Injective bitValue := by decide

/-- The first bit of the string stands at the highest power. -/
noncomputable def poly : List Bool → (ZMod 2)[X]
  | [] => 0
  | bit :: bits => C (bitValue bit) * X ^ bits.length + poly bits

def exor (left right : List Bool) : List Bool := List.zipWith (· ^^ ·) left right

theorem length_exor {left right : List Bool} (same : left.length = right.length) :
    (exor left right).length = right.length := by
  simp [exor, same]

theorem poly_append (left right : List Bool) : poly (left ++ right) = poly left * X ^ right.length + poly right := by
  induction left with
  | nil => simp [poly]
  | cons bit left ih =>
    rw [List.cons_append, poly, poly, ih, List.length_append, pow_add]
    ring

theorem poly_exor {left right : List Bool} (same : left.length = right.length) :
    poly (exor left right) = poly left + poly right := by
  induction left generalizing right with
  | nil =>
    have empty : right = [] := List.eq_nil_of_length_eq_zero same.symm
    simp [empty, exor, poly]
  | cons bit left ih =>
    cases right with
    | nil => simp at same
    | cons other right =>
      rw [List.length_cons, List.length_cons, Nat.add_right_cancel_iff] at same
      have rest := ih same
      have size := length_exor same
      rw [exor] at rest size
      rw [exor, List.zipWith_cons_cons, poly, poly, poly, rest, size, same, bitValue_xor, C_add]
      ring

theorem poly_replicate_false (n : Nat) : poly (List.replicate n false) = 0 := by
  induction n with
  | zero => rfl
  | succ n ih => rw [List.replicate_succ, poly, ih, bitValue_eq_zero.mpr rfl, C_0, zero_mul, zero_add]

theorem degree_poly_lt (bits : List Bool) : (poly bits).degree < bits.length := by
  induction bits with
  | nil => simp [poly]
  | cons bit bits ih =>
    rw [poly, List.length_cons]
    refine lt_of_le_of_lt (degree_add_le _ _) (max_lt ?_ ?_)
    · refine lt_of_le_of_lt (degree_C_mul_X_pow_le _ _) ?_
      exact_mod_cast Nat.lt_succ_self _
    · refine lt_trans ih ?_
      exact_mod_cast Nat.lt_succ_self _

theorem coeff_poly (bits : List Bool) (i : Nat) (inside : i < bits.length) :
    (poly bits).coeff (bits.length - 1 - i) = bitValue bits[i] := by
  induction bits generalizing i with
  | nil => simp at inside
  | cons bit bits ih =>
    rw [poly, coeff_add, coeff_C_mul, coeff_X_pow, List.length_cons]
    cases i with
    | zero =>
      have high : (poly bits).coeff bits.length = 0 := coeff_eq_zero_of_degree_lt (degree_poly_lt bits)
      simp [high]
    | succ i =>
      have below : i < bits.length := by simpa using inside
      have position : bits.length + 1 - 1 - (i + 1) = bits.length - 1 - i := by omega
      rw [position, if_neg (by omega), mul_zero, zero_add, ih i below, List.getElem_cons_succ]

theorem poly_injective {left right : List Bool} (same : left.length = right.length) (equal : poly left = poly right) :
    left = right := by
  apply List.ext_getElem same
  intro i insideLeft insideRight
  apply bitValue_injective
  rw [← coeff_poly left i insideLeft, ← coeff_poly right i insideRight, same, equal]

theorem eval_one_poly (bits : List Bool) : (poly bits).eval 1 = (bits.count true : ZMod 2) := by
  induction bits with
  | nil => simp [poly]
  | cons bit bits ih =>
    rw [poly, eval_add, eval_mul, eval_C, eval_pow, eval_X, one_pow, mul_one, ih, List.count_cons, Nat.cast_add]
    cases bit with
    | false => simp [bitValue]
    | true => simp [bitValue, add_comm]

section Code

variable (taps : List Bool)

/-- The monic polynomial whose lower coefficients are `taps`. -/
noncomputable def generator : (ZMod 2)[X] := X ^ taps.length + poly taps

/-- One step of the shift register that divides by the generator; its head is the top coefficient. -/
def shift : List Bool → Bool → List Bool
  | [], _ => []
  | top :: rest, bit => if top ^^ bit then exor (rest ++ [false]) taps else rest ++ [false]

def register (bits : List Bool) : List Bool := bits.foldl (shift taps) (List.replicate taps.length false)

theorem generator_monic : (generator taps).Monic := monic_X_pow_add (degree_poly_lt taps)

theorem degree_generator : (generator taps).degree = taps.length := by
  rw [generator, degree_add_eq_left_of_degree_lt]
  · exact degree_X_pow _
  · rw [degree_X_pow]
    exact degree_poly_lt taps

variable {taps}

theorem length_shift {held : List Bool} (whole : held.length = taps.length) (bit : Bool) :
    (shift taps held bit).length = taps.length := by
  cases held with
  | nil => exact whole
  | cons top rest =>
    have size : (rest ++ [false]).length = taps.length := by simpa using whole
    rw [shift]
    split
    · exact length_exor size
    · exact size

/-- The register takes the next coefficient in and gives up a multiple of the generator. -/
theorem poly_shift {held : List Bool} (whole : held.length = taps.length) (bit : Bool) :
    generator taps ∣ poly (shift taps held bit) - (X * poly held + C (bitValue bit) * X ^ taps.length) := by
  cases held with
  | nil =>
    have empty : taps = [] := List.eq_nil_of_length_eq_zero whole.symm
    simp [empty, generator, poly]
  | cons top rest =>
    have size : (rest ++ [false]).length = taps.length := by simpa using whole
    have power : taps.length = rest.length + 1 := by simpa using whole.symm
    have moved : poly (rest ++ [false]) = X * poly rest := by
      simp [poly_append, poly, bitValue, mul_comm]
    have value : X * poly (top :: rest) + C (bitValue bit) * X ^ taps.length =
        X * poly rest + C (bitValue (top ^^ bit)) * X ^ taps.length := by
      rw [poly, power, bitValue_xor, C_add]
      ring
    rw [value, shift]
    cases top ^^ bit with
    | false => simp [moved, bitValue]
    | true =>
      have one : C (bitValue true) * X ^ taps.length = (X ^ taps.length : (ZMod 2)[X]) := by simp [bitValue]
      rw [if_pos rfl, poly_exor size, moved, one, add_sub_add_left_eq_sub, CharTwo.sub_eq_add, add_comm]
      exact dvd_refl _

theorem length_foldl_shift {held : List Bool} (whole : held.length = taps.length) (bits : List Bool) :
    (bits.foldl (shift taps) held).length = taps.length := by
  induction bits generalizing held with
  | nil => exact whole
  | cons bit bits ih => exact ih (length_shift whole bit)

theorem length_register (bits : List Bool) : (register taps bits).length = taps.length :=
  length_foldl_shift (by simp) bits

theorem poly_foldl_shift {held : List Bool} (whole : held.length = taps.length) (bits : List Bool) :
    generator taps ∣ poly (bits.foldl (shift taps) held) -
      (poly held * X ^ bits.length + poly bits * X ^ taps.length) := by
  induction bits generalizing held with
  | nil => simp [poly]
  | cons bit bits ih =>
    have rest := ih (length_shift whole bit)
    have first := (poly_shift whole bit).mul_right (X ^ bits.length)
    rw [List.foldl_cons]
    convert dvd_add rest first using 1
    rw [poly, List.length_cons, pow_succ]
    ring

/-- The register holds the remainder of the message moved up by the length of the check string. -/
theorem poly_register (bits : List Bool) :
    poly (register taps bits) = (poly bits * X ^ taps.length) %ₘ generator taps := by
  have congruent : generator taps ∣ poly (register taps bits) - poly bits * X ^ taps.length := by
    have start : (List.replicate taps.length false).length = taps.length := List.length_replicate
    have run := poly_foldl_shift start bits
    rwa [poly_replicate_false, zero_mul, zero_add] at run
  have small : (poly (register taps bits)).degree < (generator taps).degree := by
    have size : (register taps bits).length = taps.length := length_register bits
    rw [degree_generator, ← size]
    exact degree_poly_lt _
  rw [← modByMonic_eq_of_dvd_sub (generator_monic taps) congruent,
    (modByMonic_eq_self_iff (generator_monic taps)).mpr small]

theorem register_exor {left right : List Bool} (same : left.length = right.length) :
    register taps (exor left right) = exor (register taps left) (register taps right) := by
  have sizes : (register taps left).length = (register taps right).length := by
    rw [length_register, length_register]
  apply poly_injective
  · rw [length_exor sizes, length_register, length_register]
  · rw [poly_exor sizes, poly_register, poly_register, poly_register, poly_exor same, add_mul, add_modByMonic]

theorem generator_dvd_frame_iff {bits check : List Bool} (whole : check.length = taps.length) :
    generator taps ∣ poly (bits ++ check) ↔ check = register taps bits := by
  have sizes : check.length = (register taps bits).length := by rw [whole, length_register]
  have small : (poly check).degree < (generator taps).degree := by
    rw [degree_generator, ← whole]
    exact degree_poly_lt _
  have sum : poly (bits ++ check) = poly check - poly bits * X ^ taps.length := by
    rw [poly_append, whole, CharTwo.sub_eq_add, add_comm]
  rw [sum]
  constructor
  · intro divides
    apply poly_injective sizes
    rw [poly_register, ← modByMonic_eq_of_dvd_sub (generator_monic taps) divides,
      (modByMonic_eq_self_iff (generator_monic taps)).mpr small]
  · intro equal
    rw [equal, poly_register, modByMonic_eq_sub_mul_div, sub_sub_cancel_left]
    exact (Dvd.intro _ rfl).neg_right

theorem register_append_register (bits : List Bool) :
    register taps (bits ++ register taps bits) = List.replicate taps.length false := by
  apply poly_injective
  · rw [length_register, List.length_replicate]
  · rw [poly_register, poly_replicate_false, modByMonic_eq_zero_iff_dvd (generator_monic taps)]
    exact ((generator_dvd_frame_iff (length_register bits)).mpr rfl).mul_right _

/-- A received string passes the check exactly if its difference from a string that passes is divisible
    by the generator. -/
theorem passes_iff_dvd {bits bits' check : List Bool} (sameBits : bits.length = bits'.length)
    (whole : check.length = taps.length) :
    check = register taps bits' ↔ generator taps ∣ poly (exor (bits ++ register taps bits) (bits' ++ check)) := by
  have same : (bits ++ register taps bits).length = (bits' ++ check).length := by
    rw [List.length_append, List.length_append, length_register, whole, sameBits]
  have sent : generator taps ∣ poly (bits ++ register taps bits) :=
    (generator_dvd_frame_iff (length_register bits)).mpr rfl
  rw [← generator_dvd_frame_iff whole, poly_exor same, dvd_add_right sent]

theorem not_dvd_of_odd (root : (generator taps).eval 1 = 0) {error : List Bool} (odd : Odd (error.count true)) :
    ¬ generator taps ∣ poly error := by
  intro divides
  obtain ⟨quotient, product⟩ := divides
  have value := eval_one_poly error
  rw [product, eval_mul, root, zero_mul] at value
  exact (ZMod.natCast_ne_zero_iff_odd.mpr odd) value.symm

def Burst (width : Nat) (error : List Bool) : Prop :=
  true ∈ error ∧ ∃ start, ∀ i (inside : i < error.length), error[i] = true → start ≤ i ∧ i < start + width

theorem coeff_poly_of_burst {error : List Bool} {start width : Nat}
    (confined : ∀ i (inside : i < error.length), error[i] = true → start ≤ i ∧ i < start + width) (j : Nat)
    (outside : j < error.length - (start + width) ∨ error.length - start ≤ j) : (poly error).coeff j = 0 := by
  by_cases inside : j < error.length
  · have position : j = error.length - 1 - (error.length - 1 - j) := by omega
    rw [position, coeff_poly error _ (by omega), bitValue_eq_zero, ← Bool.not_eq_true]
    intro set
    have here := confined (error.length - 1 - j) (by omega) set
    omega
  · apply coeff_eq_zero_of_degree_lt
    refine lt_of_lt_of_le (degree_poly_lt error) ?_
    exact_mod_cast Nat.le_of_not_lt inside

theorem generator_coprime_X (constant : (generator taps).coeff 0 = 1) (k : Nat) :
    IsCoprime (generator taps) (X ^ k) := by
  apply IsCoprime.pow_right
  refine ⟨1, -divX (generator taps), ?_⟩
  have split := divX_mul_X_add (generator taps)
  rw [constant, C_1] at split
  linear_combination -split

theorem not_dvd_of_burst (constant : (generator taps).coeff 0 = 1) {error : List Bool}
    (burst : Burst taps.length error) : ¬ generator taps ∣ poly error := by
  intro divides
  obtain ⟨some, start, confined⟩ := burst
  obtain ⟨pattern, shifted⟩ : X ^ (error.length - (start + taps.length)) ∣ poly error := by
    rw [X_pow_dvd_iff]
    exact fun j below => coeff_poly_of_burst confined j (.inl below)
  have short : pattern.degree < (generator taps).degree := by
    rw [degree_generator, degree_lt_iff_coeff_zero]
    intro j above
    have outside := coeff_poly_of_burst confined (j + (error.length - (start + taps.length))) (.inr (by omega))
    rwa [shifted, coeff_X_pow_mul] at outside
  have zero : pattern = 0 := by
    rw [shifted] at divides
    have factor := (generator_coprime_X constant _).dvd_of_dvd_mul_left divides
    by_contra nonzero
    exact not_le_of_gt short (degree_le_of_dvd factor nonzero)
  have none : error = List.replicate error.length false := by
    apply poly_injective (by simp)
    rw [poly_replicate_false, shifted, zero, mul_zero]
  rw [none] at some
  exact absurd some (by simp)

end Code

end CyclicCode
