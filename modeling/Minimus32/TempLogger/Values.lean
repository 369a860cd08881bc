import Mathlib.Tactic.IntervalCases
import Minimus32.Library.Numeral
import Minimus32.TempLogger.Failsafe
import Minimus32.TempLogger.Interval

namespace Minimus32.TempLogger

open Numeral

/-- The variables that a command sets in tenths. -/
inductive Variable where
  | c
  | d
  | t
  | w
deriving DecidableEq

def Variable.letter : Variable → UInt8
  | .c => ascii 'C'
  | .d => ascii 'D'
  | .t => ascii 'T'
  | .w => ascii 'W'

theorem Variable.letter_ne_interval (x : Variable) : x.letter ≠ ascii 'L' := by cases x <;> decide

def Status.program (s : Status) : Variable → Int16
  | .c => s.programC
  | .d => s.programD
  | .t => s.programT
  | .w => s.programW

def Status.assign (s : Status) (value : Int16) : Variable → Status
  | .c => { s with programC := value }
  | .d => { s with programD := value }
  | .t => { s with programT := value }
  | .w => { s with programW := value }

def Logger.program (l : Logger) (x : Variable) : Int16 := l.status.program x

theorem Status.command_letter (s : Status) (x : Variable) (deciTemp : UInt16) :
    s.command x.letter deciTemp = s.change (s.program x) deciTemp fun s value => s.assign value x := by
  cases x <;> rfl

theorem Status.program_setRelay (s : Status) (x : Variable) : s.setRelay.program x = s.program x := by
  unfold Status.setRelay
  dsimp only
  split
  · cases x <;> rfl
  · split
    · split
      · cases x <;> rfl
      · cases x <;> rfl
    · rfl

theorem Status.program_assign (s : Status) (value : Int16) (x y : Variable) :
    (s.assign value x).program y = if y = x then value else s.program y := by
  cases x <;> cases y <;> rfl

theorem Status.program_command_letter (s : Status) (x y : Variable) (deciTemp : UInt16) :
    (s.command x.letter deciTemp).program y = if y = x then deciTemp.toInt16 else s.program y := by
  rw [Status.command_letter, Status.change]
  split
  · rw [Status.program_setRelay, Status.program_assign]
  · rename_i same
    split
    · rename_i set
      rw [set, ← not_not.mp same]
      rfl
    · rfl

/-- A decimal number as it is typed, with or without a point. -/
structure Decimal where
  whole : List UInt8
  fraction : Option (List UInt8)
  wholeDigits : ∀ c ∈ whole, IsDigit c
  fractionDigits : ∀ c ∈ fraction.getD [], IsDigit c

namespace Decimal

def text (v : Decimal) : List UInt8 :=
  match v.fraction with
  | none => v.whole
  | some fraction => v.whole ++ point :: fraction

def digits (v : Decimal) : List UInt8 := v.whole ++ v.fraction.getD []

def places (v : Decimal) : Nat := (v.fraction.getD []).length

/-- The value in tenths, rounded down. -/
def tenths (v : Decimal) : Nat := 10 * value v.digits / 10 ^ v.places

/-- What the program takes the text for. -/
def taken (v : Decimal) : Nat := if v.fraction = none then 10 * value v.digits else value v.digits

end Decimal

theorem extended_digit {c : UInt8} (digit : IsDigit c) :
    c.toInt8.toInt16.toUInt16 = UInt16.ofNat (Numeral.digit c) + (ascii '0').toUInt16 := by
  have every : ∀ bits : BitVec 8, IsDigit ⟨bits⟩ →
      (⟨bits⟩ : UInt8).toInt8.toInt16.toUInt16 = UInt16.ofNat (Numeral.digit ⟨bits⟩) + (ascii '0').toUInt16 := by
    decide +kernel
  exact every c.toBitVec digit

theorem addDigit_digit {c : UInt8} (digit : IsDigit c) (n : Nat) :
    addDigit (UInt16.ofNat n) c = UInt16.ofNat (10 * n + Numeral.digit c) := by
  rw [addDigit, if_pos (show c ≠ ascii '.' from digit.ne_point), extended_digit digit, UInt16.ofNat_add,
    UInt16.ofNat_mul, ← UInt16.add_assoc, UInt16.add_sub_cancel, UInt16.mul_comm]
  rfl

theorem foldl_addDigit_digits {digits : List UInt8} (all : ∀ c ∈ digits, IsDigit c) (n : Nat) :
    digits.foldl addDigit (UInt16.ofNat n) =
      UInt16.ofNat (digits.foldl (fun n c => 10 * n + Numeral.digit c) n) := by
  induction digits generalizing n with
  | nil => rfl
  | cons c digits ih =>
    rw [List.foldl_cons, List.foldl_cons, addDigit_digit (all c (by simp)),
      ih fun d member => all d (List.mem_cons_of_mem c member)]

namespace Decimal

variable (v : Decimal)

theorem isDigit_of_fraction {fraction : List UInt8} (some : v.fraction = .some fraction) :
    ∀ c ∈ fraction, IsDigit c := by
  have digits := v.fractionDigits
  rwa [some, Option.getD_some] at digits

theorem foldl_addDigit : v.text.foldl addDigit 0 = UInt16.ofNat (value v.digits) := by
  unfold Decimal.text Decimal.digits
  have front := foldl_addDigit_digits v.wholeDigits 0
  split
  · rename_i none
    rw [none, Option.getD_none, List.append_nil]
    exact front
  · rename_i fraction some
    rw [some, Option.getD_some, List.foldl_append, List.foldl_cons, value, List.foldl_append,
      ← foldl_addDigit_digits (v.isDigit_of_fraction some), ← front]
    rfl

theorem count_point : v.text.count (ascii '.') = if v.fraction = none then 0 else 1 := by
  have none_of : ∀ digits : List UInt8, (∀ c ∈ digits, IsDigit c) → digits.count (ascii '.') = 0 := by
    intro digits all
    refine List.count_eq_zero.mpr fun member => ?_
    exact absurd (all _ member) (by decide)
  unfold Decimal.text
  split
  · rename_i none
    rw [if_pos none]
    exact none_of _ v.wholeDigits
  · rename_i fraction some
    rw [some, if_neg (by simp), List.count_append, none_of _ v.wholeDigits, List.count_cons,
      none_of _ (v.isDigit_of_fraction some)]
    rfl

theorem ne_nul : ∀ c ∈ v.text, c ≠ 0 := by
  unfold Decimal.text
  intro c member
  split at member
  · exact (v.wholeDigits c member).ne_nul
  · rename_i fraction some
    rcases List.mem_append.mp member with front | later
    · exact (v.wholeDigits c front).ne_nul
    · rcases List.mem_cons.mp later with rfl | last
      · decide
      · exact (v.isDigit_of_fraction some c last).ne_nul

/-- The command that sets a variable to this number. -/
def command (x : Variable) : List UInt8 := x.letter :: ascii ':' :: v.text ++ [0]

theorem body_command (x : Variable) : body (v.command x) = v.text := by
  show (v.text ++ [0]).takeWhile (· ≠ 0) = v.text
  rw [List.takeWhile_append_of_pos (by simpa using v.ne_nul)]
  exact List.append_nil _

theorem dots_command (x : Variable) : dots (v.command x) = if v.fraction = none then 0 else 1 := by
  rw [dots, body_command, count_point]

theorem valueOf_command (x : Variable) : valueOf (v.command x) = UInt16.ofNat v.taken := by
  have scaled : (v.command x).getD 0 0 ≠ ascii 'L' := x.letter_ne_interval
  rw [valueOf, body_command, foldl_addDigit, dots_command, Decimal.taken]
  by_cases whole : v.fraction = none
  · rw [if_pos whole, if_pos whole, if_pos ⟨rfl, scaled⟩, UInt16.ofNat_mul, UInt16.mul_comm]
    rfl
  · rw [if_neg whole, if_neg whole, if_neg fun both => absurd both.1 (by decide)]

theorem accepted_command (x : Variable) : Accepted (v.command x) := by
  refine ⟨.inr rfl, ?_⟩
  rw [dots_command]
  split <;> decide

theorem handle_command (x : Variable) (s : Status) :
    s.handle (v.command x) = s.command x.letter (UInt16.ofNat v.taken) := by
  rw [Status.handle, if_pos (v.accepted_command x), valueOf_command]
  rfl

end Decimal

/-- What is in the buffer behind the end of the command is not read. -/
theorem scanValue_stale (text stale : List UInt8) (deciTemp : UInt16) (dotFound : UInt8) :
    scanValue (text ++ 0 :: stale) deciTemp dotFound = scanValue (text ++ [0]) deciTemp dotFound := by
  induction text generalizing deciTemp dotFound with
  | nil => rfl
  | cons c text ih =>
    simp only [List.cons_append, scanValue, ih]

theorem Logger.setProgramVariable_stale (l : Logger) (type colon : UInt8) {text : List UInt8}
    (short : text.length < 256) (stale : List UInt8) :
    l.setProgramVariable (type :: colon :: text ++ 0 :: stale) =
      l.setProgramVariable (type :: colon :: text ++ [0]) := by
  have taken : ∀ rest : List UInt8, (text ++ 0 :: rest).take 256 = text ++ 0 :: rest.take (255 - text.length) := by
    intro rest
    rw [List.take_append, List.take_of_length_le (by omega), show 256 - text.length = 255 - text.length + 1 by omega,
      List.take_succ_cons]
  have scanned : scanValue ((text ++ 0 :: stale).take 256) 0 0 = scanValue ((text ++ [0]).take 256) 0 0 := by
    rw [taken, taken, List.take_nil, scanValue_stale]
  unfold Logger.setProgramVariable
  simp only [List.cons_append, List.drop_succ_cons, List.drop_zero, List.getD_cons_zero, List.getD_cons_succ]
  rw [scanned]

theorem Logger.setProgramVariable_command {l : Logger} {m : Mode} (real : l.Realizes m) (x : Variable) (v : Decimal)
    (short : v.text.length ≤ 5) (stale : List UInt8) :
    ∃ after seen, l.setProgramVariable (x.letter :: ascii ':' :: v.text ++ 0 :: stale) = some (after, seen) ∧
      (∀ y, after.program y = if y = x then (UInt16.ofNat v.taken).toInt16 else l.program y) ∧
      after.programLog = l.programLog := by
  have length : (v.command x).length ≤ 256 := by
    rw [Decimal.command, List.length_append, List.length_cons, List.length_cons, List.length_singleton]
    omega
  have terminated : Terminated (v.command x) := by
    show 0 ∈ (v.text ++ [0]).take 256
    rw [List.take_of_length_le (by rw [List.length_append, List.length_singleton]; omega)]
    exact List.mem_append_right _ (List.mem_singleton_self 0)
  obtain ⟨after, seen, -, done, -⟩ := real.setProgramVariable terminated
  have leaves := Logger.leaves_of_setProgramVariable length terminated done
  have status := leaves.status
  rw [v.handle_command] at status
  refine ⟨after, seen, ?_, ?_, ?_⟩
  · rw [l.setProgramVariable_stale _ _ (by omega)]
    exact done
  · intro y
    rw [Logger.program, status, Status.program_command_letter]
    rfl
  · have kept := congrArg Status.programLog status
    rw [Status.programLog_command, if_neg x.letter_ne_interval] at kept
    exact kept

theorem toInt16_eq_iff (n : Nat) {expected : Nat} (small : expected ≤ 32767) :
    (UInt16.ofNat n).toInt16 = Int16.ofNat expected ↔ n % 65536 = expected := by
  have wrapped : UInt16.ofNat n = UInt16.ofNat expected ↔ n % 65536 = expected := by
    rw [← UInt16.toNat_inj, UInt16.toNat_ofNat', UInt16.toNat_ofNat', Nat.mod_eq_of_lt (a := expected) (by omega)]
  rw [← wrapped]
  exact ⟨fun same => congrArg Int16.toUInt16 same, fun same => congrArg UInt16.toInt16 same⟩

namespace Decimal

variable (v : Decimal)

theorem value_lt : value v.digits < 10 ^ v.digits.length := by
  apply Numeral.value_lt
  intro c member
  rcases List.mem_append.mp member with front | behind
  · exact v.wholeDigits c front
  · exact v.fractionDigits c behind

theorem length_text : v.text.length = v.digits.length + if v.fraction = none then 0 else 1 := by
  unfold Decimal.text Decimal.digits
  split
  · rename_i none
    rw [none, Option.getD_none, List.append_nil, if_pos rfl, Nat.add_zero]
  · rename_i fraction some
    rw [some, Option.getD_some, if_neg (by simp), List.length_append, List.length_append, List.length_cons]
    rfl

theorem taken_eq_tenths_iff (short : v.text.length ≤ 5) (fits : v.tenths ≤ 32767) :
    v.taken % 65536 = v.tenths ↔ v.fraction = none ∨ v.places = 1 ∨ value v.digits = 0 := by
  rw [length_text] at short
  unfold Decimal.taken
  unfold Decimal.tenths at fits ⊢
  by_cases whole : v.fraction = none
  · have none : v.places = 0 := by rw [Decimal.places, whole, Option.getD_none, List.length_nil]
    rw [none, pow_zero, Nat.div_one] at fits ⊢
    rw [if_pos whole]
    exact iff_of_true (Nat.mod_eq_of_lt (by omega)) (.inl whole)
  · rw [if_neg whole] at short ⊢
    have few : v.places ≤ 4 := by
      rw [Decimal.digits, List.length_append] at short
      rw [Decimal.places]
      omega
    have small : value v.digits < 10 ^ 4 :=
      Nat.lt_of_lt_of_le v.value_lt (Nat.pow_le_pow_right (by decide) (Nat.le_of_succ_le_succ short))
    rw [Nat.mod_eq_of_lt (by omega), or_iff_right whole]
    -- At most four digits are left beside the point, so the number itself never wraps.
    generalize v.places = p at few fits ⊢
    interval_cases p
    all_goals omega

end Decimal

theorem setProgramVariable_tenths_iff {l : Logger} {m : Mode} (real : l.Realizes m) (x : Variable) (v : Decimal)
    (short : v.text.length ≤ 5) (stale : List UInt8) :
    (∃ after seen, l.setProgramVariable (x.letter :: ascii ':' :: v.text ++ 0 :: stale) = some (after, seen) ∧
      after.program x = (if v.tenths ≤ 32767 then Int16.ofNat v.tenths else l.program x) ∧
      (∀ y ≠ x, after.program y = l.program y) ∧ after.programLog = l.programLog) ↔
    if v.tenths ≤ 32767 then v.fraction = none ∨ v.places = 1 ∨ value v.digits = 0
    else l.program x = (UInt16.ofNat v.taken).toInt16 := by
  obtain ⟨after, seen, done, programs, log⟩ := Logger.setProgramVariable_command real x v short stale
  have stored : after.program x = (UInt16.ofNat v.taken).toInt16 := (programs x).trans (if_pos rfl)
  have others : ∀ y ≠ x, after.program y = l.program y := fun y other => (programs y).trans (if_neg other)
  have only : (∃ after seen, l.setProgramVariable (x.letter :: ascii ':' :: v.text ++ 0 :: stale) = some (after, seen) ∧
      after.program x = (if v.tenths ≤ 32767 then Int16.ofNat v.tenths else l.program x) ∧
      (∀ y ≠ x, after.program y = l.program y) ∧ after.programLog = l.programLog) ↔
      (UInt16.ofNat v.taken).toInt16 = if v.tenths ≤ 32767 then Int16.ofNat v.tenths else l.program x := by
    constructor
    · rintro ⟨other, seen, run, right, -⟩
      cases done.symm.trans run
      rw [← stored, right]
    · intro right
      exact ⟨after, seen, done, stored.trans right, others, log⟩
  rw [only]
  split
  · rename_i fits
    rw [toInt16_eq_iff _ fits, v.taken_eq_tenths_iff short fits]
  · exact eq_comm

theorem setProgramVariable_tenths_warm :
    ((Logger.reset blankClock 0).setProgramVariable ("C:21.5".toList.map ascii ++ [0])).map (·.1.programC) =
      some 215 := by
  have real := Logger.reset_realizes blankClock 0
  obtain ⟨after, seen, done, stored, -⟩ := (setProgramVariable_tenths_iff real .c
    ⟨[50, 49], some [53], by decide +kernel, by decide +kernel⟩ (by decide) []).mpr (by decide)
  exact (congrArg (Option.map (·.1.programC)) done).trans (congrArg some stored)

/-- A second digit behind the point counts like the first, and a number beyond the variable's range is stored. -/
theorem setProgramVariable_misreads :
    ((Logger.reset blankClock 0).setProgramVariable ("C:1.25".toList.map ascii ++ [0])).map (·.1.programC) =
        some 125 ∧
      ((Logger.reset blankClock 0).setProgramVariable ("C:9999".toList.map ascii ++ [0])).map (·.1.programC) =
        some (-31082) := by
  decide

end Minimus32.TempLogger
