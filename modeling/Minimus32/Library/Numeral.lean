import Mathlib.Data.Rat.Defs
import Mathlib.Data.UInt
import Mathlib.Tactic.Ring

namespace Numeral

-- The characters of decimal numerals, in ASCII.
def blank : UInt8 := 32

def point : UInt8 := 46

def zero : UInt8 := 48

def nine : UInt8 := 57

def IsDigit (c : UInt8) : Prop := zero ≤ c ∧ c ≤ nine

instance (c : UInt8) : Decidable (IsDigit c) := inferInstanceAs (Decidable (_ ∧ _))

def digit (c : UInt8) : Nat := c.toNat - 48

def character (digit : Nat) : UInt8 := UInt8.ofNat (digit + 48)

/-- The number that digits spell, the most significant one first. -/
def value (digits : List UInt8) : Nat := digits.foldl (fun n c => 10 * n + digit c) 0

/-- The lowest digits of a number, in the order in which they are written. -/
def lowDigits : Nat → Nat → List UInt8
  | 0, _ => []
  | n + 1, number => lowDigits n (number / 10) ++ [character (number % 10)]

theorem foldl_value (digits : List UInt8) (n : Nat) :
    digits.foldl (fun n c => 10 * n + digit c) n = n * 10 ^ digits.length + value digits := by
  induction digits generalizing n with
  | nil => simp [value]
  | cons c digits ih =>
    rw [value, List.foldl_cons, List.foldl_cons, ih, ih (10 * 0 + digit c), List.length_cons, pow_succ]
    ring

theorem value_append (left right : List UInt8) :
    value (left ++ right) = value left * 10 ^ right.length + value right := by
  rw [value, List.foldl_append, foldl_value right]
  rfl

theorem value_singleton (c : UInt8) : value [c] = digit c := Nat.zero_add _

theorem value_replicate_zero (k : Nat) : value (List.replicate k zero) = 0 := by
  induction k with
  | zero => rfl
  | succ k ih =>
    rw [List.replicate_succ', value_append, ih]
    rfl

theorem value_zeros_append (k : Nat) (digits : List UInt8) :
    value (List.replicate k zero ++ digits) = value digits := by
  rw [value_append, value_replicate_zero, Nat.zero_mul, Nat.zero_add]

theorem IsDigit.digit_lt {c : UInt8} (isDigit : IsDigit c) : digit c < 10 := by
  have last : c.toNat ≤ 57 := UInt8.le_iff_toNat_le.mp isDigit.2
  rw [digit]
  omega

theorem value_lt {digits : List UInt8} (all : ∀ c ∈ digits, IsDigit c) : value digits < 10 ^ digits.length := by
  induction digits with
  | nil => exact Nat.zero_lt_one
  | cons c digits ih =>
    have rest := ih fun d member => all d (List.mem_cons_of_mem c member)
    have first := (all c (by simp)).digit_lt
    rw [← List.singleton_append, value_append, value_singleton, List.length_append, List.length_singleton, pow_add,
      pow_one]
    calc digit c * 10 ^ digits.length + value digits
        < digit c * 10 ^ digits.length + 10 ^ digits.length := Nat.add_lt_add_left rest _
      _ = (digit c + 1) * 10 ^ digits.length := by ring
      _ ≤ 10 * 10 ^ digits.length := Nat.mul_le_mul_right _ first

theorem isDigit_character {d : Nat} (small : d < 10) : IsDigit (character d) := by
  have every : ∀ d < 10, IsDigit (character d) := by decide
  exact every d small

theorem isDigit_character_mod (n : Nat) : IsDigit (character (n % 10)) := isDigit_character (Nat.mod_lt n (by decide))

theorem digit_character {d : Nat} (small : d < 10) : digit (character d) = d := by
  have every : ∀ d < 10, digit (character d) = d := by decide
  exact every d small

theorem length_lowDigits (n number : Nat) : (lowDigits n number).length = n := by
  induction n generalizing number with
  | zero => rfl
  | succ n ih => rw [lowDigits, List.length_append, ih, List.length_singleton]

theorem isDigit_of_mem_lowDigits {n number : Nat} : ∀ c ∈ lowDigits n number, IsDigit c := by
  induction n generalizing number with
  | zero => simp [lowDigits]
  | succ n ih =>
    intro c member
    rcases List.mem_append.mp member with higher | last
    · exact ih c higher
    · rw [List.mem_singleton.mp last]
      exact isDigit_character_mod number

theorem value_lowDigits (n number : Nat) : value (lowDigits n number) = number % 10 ^ n := by
  induction n generalizing number with
  | zero =>
    rw [pow_zero, Nat.mod_one]
    rfl
  | succ n ih =>
    rw [lowDigits, value_append, ih, value_singleton, digit_character (Nat.mod_lt _ (by decide)),
      List.length_singleton, pow_one, pow_succ', Nat.mod_mul, Nat.mul_comm, Nat.add_comm]

theorem lowDigits_append (n m number : Nat) :
    lowDigits n (number / 10 ^ m) ++ lowDigits m number = lowDigits (n + m) number := by
  induction m generalizing number with
  | zero => simp [lowDigits]
  | succ m ih =>
    rw [← Nat.add_assoc, lowDigits, lowDigits, ← List.append_assoc, ← ih, Nat.div_div_eq_div_mul, pow_succ']

def StartsDigit : List UInt8 → Prop
  | [] => False
  | c :: _ => IsDigit c

instance (text : List UInt8) : Decidable (StartsDigit text) :=
  match text with
  | [] => inferInstanceAs (Decidable False)
  | c :: _ => inferInstanceAs (Decidable (IsDigit c))

/-- The number in front of a text, blanks aside, if there is one, and what follows it. -/
def shown (text : List UInt8) : Option Nat × List UInt8 :=
  let text := text.dropWhile (· = blank)
  let digits := text.takeWhile (IsDigit ·)
  (if digits = [] then none else some (value digits), text.dropWhile (IsDigit ·))

/-- The text is a decimal fraction with a point, blanks in front of it aside. -/
def Reads (text : List UInt8) (number : ℚ) : Prop :=
  ∃ fraction, (shown text).2 = point :: fraction ∧ (∀ c ∈ fraction, IsDigit c) ∧
    number = (((shown text).1.getD 0 * 10 ^ fraction.length + value fraction : Nat) : ℚ) / 10 ^ fraction.length

theorem IsDigit.ne_blank {c : UInt8} (digit : IsDigit c) : c ≠ blank := by
  rintro rfl
  exact absurd digit (by decide)

theorem IsDigit.ne_point {c : UInt8} (digit : IsDigit c) : c ≠ point := by
  rintro rfl
  exact absurd digit (by decide)

theorem IsDigit.ne_nul {c : UInt8} (digit : IsDigit c) : c ≠ 0 := by
  rintro rfl
  exact absurd digit (by decide)

theorem not_startsDigit_point (fraction : List UInt8) : ¬ StartsDigit (point :: fraction) :=
  show ¬ IsDigit point by decide

theorem isDigit_of_mem_zeros {k : Nat} : ∀ c ∈ List.replicate k zero, IsDigit c := by
  intro c member
  rw [List.eq_of_mem_replicate member]
  decide

theorem shown_blanks (k : Nat) (text : List UInt8) : shown (List.replicate k blank ++ text) = shown text := by
  have dropped : (List.replicate k blank ++ text).dropWhile (· = blank) = text.dropWhile (· = blank) :=
    List.dropWhile_append_of_pos (by simp)
  rw [shown, dropped]
  rfl

theorem takeWhile_dropWhile_append {p : UInt8 → Bool} {front rest : List UInt8} (inside : ∀ c ∈ front, p c = true)
    (stop : ∀ c ∈ rest.head?, p c = false) :
    (front ++ rest).takeWhile p = front ∧ (front ++ rest).dropWhile p = rest := by
  rw [List.takeWhile_append_of_pos inside, List.dropWhile_append_of_pos inside]
  cases rest with
  | nil => exact ⟨List.append_nil front, rfl⟩
  | cons c rest =>
    have other : ¬ p c = true := by simpa using stop c rfl
    rw [List.takeWhile_cons_of_neg other, List.dropWhile_cons_of_neg other, List.append_nil]
    exact ⟨rfl, rfl⟩

theorem shown_digits {digits rest : List UInt8} (some : digits ≠ []) (all : ∀ c ∈ digits, IsDigit c)
    (ended : ¬ StartsDigit rest) : shown (digits ++ rest) = (.some (value digits), rest) := by
  have trimmed : (digits ++ rest).dropWhile (· = blank) = digits ++ rest := by
    obtain ⟨c, later, rfl⟩ := List.exists_cons_of_ne_nil some
    exact List.dropWhile_cons_of_neg (by simpa using (all c (by simp)).ne_blank)
  have stop : ∀ c ∈ rest.head?, decide (IsDigit c) = false := by
    intro c first
    cases rest with
    | nil => cases first
    | cons d rest =>
      cases first
      exact decide_eq_false ended
  have digit : ∀ c ∈ digits, decide (IsDigit c) = true := fun c member => decide_eq_true (all c member)
  obtain ⟨taken, dropped⟩ := takeWhile_dropWhile_append digit stop
  rw [shown, trimmed, taken, dropped, if_neg some]

/-- Every text is the digits in front of it and a rest without. -/
theorem exists_digits (text : List UInt8) :
    ∃ digits rest, text = digits ++ rest ∧ (∀ c ∈ digits, IsDigit c) ∧ ¬ StartsDigit rest := by
  induction text with
  | nil => exact ⟨[], [], rfl, by simp, id⟩
  | cons c text ih =>
    by_cases first : IsDigit c
    · obtain ⟨digits, rest, rfl, all, ended⟩ := ih
      refine ⟨c :: digits, rest, rfl, ?_, ended⟩
      intro d member
      rcases List.mem_cons.mp member with rfl | later
      · exact first
      · exact all d later
    · exact ⟨[], c :: text, rfl, by simp, first⟩

theorem exists_zeros (text : List UInt8) :
    ∃ k rest, text = List.replicate k zero ++ rest ∧ rest.head? ≠ some zero := by
  induction text with
  | nil => exact ⟨0, [], rfl, by simp⟩
  | cons c text ih =>
    by_cases first : c = zero
    · obtain ⟨k, rest, rfl, other⟩ := ih
      exact ⟨k + 1, rest, by rw [first, List.replicate_succ, List.cons_append], other⟩
    · exact ⟨0, c :: text, rfl, by simpa using first⟩

theorem shown_zeros {rest : List UInt8} (starts : StartsDigit rest) (k : Nat) :
    shown (List.replicate k zero ++ rest) = shown rest := by
  obtain ⟨digits, tail, rfl, all, ended⟩ := exists_digits rest
  have some : digits ≠ [] := by
    rintro rfl
    exact ended starts
  have both : ∀ c ∈ List.replicate k zero ++ digits, IsDigit c := by
    intro c member
    rcases List.mem_append.mp member with padding | later
    · exact isDigit_of_mem_zeros c padding
    · exact all c later
  rw [shown_digits some all ended, ← List.append_assoc, shown_digits (by simp [some]) both ended, value_zeros_append]

/-- The text without the zeros in front of its number, of which the last one stays if no other digit does. -/
def trimmed (k : Nat) (rest : List UInt8) : List UInt8 :=
  if StartsDigit rest ∨ k = 0 then List.replicate k blank ++ rest
  else List.replicate (k - 1) blank ++ zero :: rest

theorem shown_trimmed (k : Nat) (rest : List UInt8) :
    shown (trimmed k rest) = shown (List.replicate k zero ++ rest) := by
  rw [trimmed]
  split
  · rename_i case
    rw [shown_blanks]
    rcases case with starts | rfl
    · exact (shown_zeros starts k).symm
    · rfl
  · rename_i other
    obtain ⟨ended, some⟩ := not_or.mp other
    obtain ⟨k, rfl⟩ := Nat.exists_eq_succ_of_ne_zero some
    have last : shown ([zero] ++ rest) = (.some (value [zero]), rest) :=
      shown_digits (by simp) (isDigit_of_mem_zeros (k := 1)) ended
    rw [shown_blanks, shown_digits (by simp) isDigit_of_mem_zeros ended, value_replicate_zero]
    exact last

def unpadded (text : List UInt8) : List UInt8 :=
  trimmed (text.takeWhile (· = zero)).length (text.dropWhile (· = zero))

theorem takeWhile_dropWhile_zeros {rest : List UInt8} (other : rest.head? ≠ some zero) (k : Nat) :
    (List.replicate k zero ++ rest).takeWhile (· = zero) = List.replicate k zero ∧
      (List.replicate k zero ++ rest).dropWhile (· = zero) = rest := by
  apply takeWhile_dropWhile_append
  · intro c member
    exact decide_eq_true (List.eq_of_mem_replicate member)
  · intro c first
    apply decide_eq_false
    rintro rfl
    exact other first

theorem unpadded_zeros {rest : List UInt8} (other : rest.head? ≠ some zero) (k : Nat) :
    unpadded (List.replicate k zero ++ rest) = trimmed k rest := by
  obtain ⟨front, behind⟩ := takeWhile_dropWhile_zeros other k
  rw [unpadded, front, behind, List.length_replicate]

theorem shown_unpadded (text : List UInt8) : shown (unpadded text) = shown text := by
  obtain ⟨k, rest, rfl, other⟩ := exists_zeros text
  rw [unpadded_zeros other, shown_trimmed]

theorem Reads.of_shown {text other : List UInt8} {number : ℚ} (reads : Reads other number)
    (same : shown text = shown other) : Reads text number := by
  rw [Reads, same]
  exact reads

theorem reads_digits {whole fraction : List UInt8} (left : ∀ c ∈ whole, IsDigit c)
    (right : ∀ c ∈ fraction, IsDigit c) :
    Reads (whole ++ point :: fraction) ((value (whole ++ fraction) : ℚ) / 10 ^ fraction.length) := by
  by_cases none : whole = []
  · subst none
    refine ⟨fraction, rfl, right, ?_⟩
    show (value fraction : ℚ) / _ = ((0 * 10 ^ fraction.length + value fraction : Nat) : ℚ) / _
    rw [Nat.zero_mul, Nat.zero_add]
  · have front := shown_digits none left (not_startsDigit_point fraction)
    refine ⟨fraction, ?_, right, ?_⟩
    · rw [front]
    · rw [front, value_append]
      rfl

end Numeral
