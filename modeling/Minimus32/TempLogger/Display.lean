import Mathlib.Data.List.GetD
import Minimus32.Library.Numeral
import Minimus32.TempLogger.Program

namespace Minimus32.TempLogger

open Numeral

def strlen (text : List UInt8) : Nat := (text.takeWhile (· ≠ 0)).length

/-- What `removeLeadingZeros` writes in a character's place. -/
def replaceZero (fixMap c : UInt8) : UInt8 :=
  if c = ascii '0' then if fixMap ≠ 0 then space else ascii ' ' else c

/-- The loop of `removeLeadingZeros` from index `i` on. -/
def removeLoop (fixMap : UInt8) : Nat → UInt8 → List UInt8 → Option (List UInt8)
  | 0, _, _ => none
  | fuel + 1, i, buffer =>
    if i.toNat < strlen buffer then
      if buffer.getD (i.toNat + 1) 0 = ascii '.' ∨ buffer.getD (i.toNat + 1) 0 = dot then some buffer
      else removeLoop fixMap fuel (i + 1) (buffer.set i.toNat (replaceZero fixMap (buffer.getD i.toNat 0)))
    else some buffer

/-- `removeLeadingZeros`, which the program calls with one buffer for both of its strings. -/
def removeLeadingZeros (fuel : Nat) (buffer : List UInt8) (fixMap : UInt8) : Option (List UInt8) :=
  removeLoop fixMap fuel 0 buffer

def deciDigit (value : UInt16) : UInt8 := (value % 10).toUInt8 + ascii '0'

/-- The loop of `prepareDeciPrint`, from the index before the first argument down. -/
def prepareLoop : Nat → UInt16 → List UInt8 → List UInt8
  | 0, _, str => str
  | 4, value, str => prepareLoop 2 (value / 10) ((str.set 3 (ascii '.')).set 2 (deciDigit value))
  | i + 1, value, str => prepareLoop i (value / 10) (str.set i (deciDigit value))

def prepareDeciPrint (str : List UInt8) (value : UInt16) : List UInt8 := prepareLoop 5 value (str.set 5 0)

/-- A character that does not end the loop. -/
def Plain (c : UInt8) : Prop := c ≠ 0 ∧ c ≠ ascii '.' ∧ c ≠ dot

theorem plain_of_isDigit {c : UInt8} (digit : IsDigit c) : Plain c := by
  refine ⟨digit.ne_nul, digit.ne_point, ?_⟩
  rintro rfl
  exact absurd digit (by decide)

theorem plain_replaceZero {c : UInt8} (plain : Plain c) (fixMap : UInt8) : Plain (replaceZero fixMap c) := by
  unfold replaceZero
  split
  · split
    · exact ⟨by decide, by decide, by decide⟩
    · exact ⟨by decide, by decide, by decide⟩
  · exact plain

theorem strlen_append {front : List UInt8} (plain : ∀ c ∈ front, Plain c) (rest : List UInt8) :
    strlen (front ++ rest) = front.length + strlen rest := by
  rw [strlen, List.takeWhile_append_of_pos (fun c member => by simpa using (plain c member).1), List.length_append]
  rfl

/-- The loop replaces every zero before the last digit in front of the point. -/
theorem removeLoop_eq {front init rest : List UInt8} {last fixMap i : UInt8} (place : i.toNat = front.length)
    (short : front.length + init.length < 256) (before : ∀ c ∈ front, Plain c) (plain : ∀ c ∈ init, Plain c)
    (end_plain : Plain last) (fuel : Nat) :
    removeLoop fixMap fuel i (front ++ (init ++ last :: ascii '.' :: rest)) =
      if init.length < fuel then some (front ++ (init.map (replaceZero fixMap) ++ last :: ascii '.' :: rest))
      else none := by
  induction fuel generalizing front init i with
  | zero => rfl
  | succ fuel ih =>
    have inside : i.toNat < strlen (front ++ (init ++ last :: ascii '.' :: rest)) := by
      have whole : ∀ c ∈ init ++ [last], Plain c := by
        intro c member
        rcases List.mem_append.mp member with first | final
        · exact plain c first
        · rwa [List.mem_singleton.mp final]
      have size := strlen_append whole (ascii '.' :: rest)
      rw [List.length_append, List.length_singleton] at size
      rw [strlen_append before, place, List.append_cons init, size]
      omega
    have next : (front ++ (init ++ last :: ascii '.' :: rest)).getD (i.toNat + 1) 0 =
        (init ++ last :: ascii '.' :: rest).getD 1 0 := by
      rw [List.getD_append_right _ _ _ _ (by omega), place, Nat.add_sub_cancel_left]
    rw [removeLoop, if_pos inside, next]
    cases init with
    | nil => simp
    | cons c init =>
      have second : Plain ((c :: init ++ last :: ascii '.' :: rest).getD 1 0) := by
        cases init with
        | nil => exact end_plain
        | cons d init => exact plain d (by simp)
      have here : (front ++ (c :: init ++ last :: ascii '.' :: rest)).getD i.toNat 0 = c := by
        rw [List.getD_append_right _ _ _ _ place.ge, place, Nat.sub_self]
        rfl
      have set : (front ++ (c :: init ++ last :: ascii '.' :: rest)).set i.toNat (replaceZero fixMap c) =
          front ++ [replaceZero fixMap c] ++ (init ++ last :: ascii '.' :: rest) := by
        rw [List.set_append_right _ _ place.ge, place, Nat.sub_self]
        simp
      have counted : (i + 1).toNat = (front ++ [replaceZero fixMap c]).length := by
        rw [List.length_cons] at short
        rw [UInt8.toNat_add, place, List.length_append, List.length_singleton]
        exact Nat.mod_eq_of_lt (show front.length + 1 < 256 by omega)
      rw [if_neg (not_or.mpr second.2), here, set, ih counted]
      · simp
      · rw [List.length_append, List.length_singleton]
        rw [List.length_cons] at short
        omega
      · intro d member
        rcases List.mem_append.mp member with old | new
        · exact before d old
        · rw [List.mem_singleton.mp new]
          exact plain_replaceZero (plain c (by simp)) fixMap
      · intro d member
        exact plain d (List.mem_cons_of_mem c member)

/-- The index wraps before it comes to the point, for ever. -/
theorem removeLoop_eq_none {front : List UInt8} (long : 256 < front.length) (plain : ∀ c ∈ front, Plain c)
    (fixMap i : UInt8) (fuel : Nat) (rest : List UInt8) : removeLoop fixMap fuel i (front ++ rest) = none := by
  induction fuel generalizing front i with
  | zero => rfl
  | succ fuel ih =>
    have bound := i.toNat_lt
    have inside : i.toNat < strlen (front ++ rest) := by
      rw [strlen_append plain]
      omega
    have next : Plain ((front ++ rest).getD (i.toNat + 1) 0) := by
      rw [List.getD_append _ _ _ _ (by omega), List.getD_eq_getElem _ _ (by omega)]
      exact plain _ (List.getElem_mem _)
    have here : Plain ((front ++ rest).getD i.toNat 0) := by
      rw [List.getD_append _ _ _ _ (by omega), List.getD_eq_getElem _ _ (by omega)]
      exact plain _ (List.getElem_mem _)
    rw [removeLoop, if_pos inside, if_neg (not_or.mpr next.2), List.set_append_left _ _ (by omega)]
    apply ih
    · rw [List.length_set]
      exact long
    · intro c member
      rcases List.mem_or_eq_of_mem_set member with old | rfl
      · exact plain c old
      · exact plain_replaceZero here fixMap

theorem replaceZero_of_ne {c : UInt8} (other : c ≠ zero) (fixMap : UInt8) : replaceZero fixMap c = c := if_neg other

theorem map_replaceZero_eq_iff (text : List UInt8) : text.map (replaceZero 0) = text ↔ zero ∉ text := by
  induction text with
  | nil => simp
  | cons c text ih =>
    rw [List.map_cons, List.cons.injEq, ih, List.mem_cons, not_or]
    refine and_congr_left fun _ => ?_
    by_cases same : c = zero
    · rw [same]
      decide
    · exact iff_of_true (replaceZero_of_ne same 0) (Ne.symm same)

theorem map_replaceZero_zeros (k : Nat) :
    (List.replicate k zero).map (replaceZero 0) = List.replicate k blank := by
  rw [List.map_replicate]
  rfl

/-- The zeros that are replaced are the leading ones if no other is before the last digit. -/
theorem replaced_eq_unpadded_iff {init : List UInt8} {last : UInt8} (digits : ∀ c ∈ init, IsDigit c)
    (end_digit : IsDigit last) (rest : List UInt8) :
    init.map (replaceZero 0) ++ last :: point :: rest = unpadded (init ++ last :: point :: rest) ↔
      zero ∉ init.dropWhile (· = zero) := by
  obtain ⟨k, tail, rfl, other⟩ := exists_zeros init
  rw [(takeWhile_dropWhile_zeros other k).2, List.map_append, map_replaceZero_zeros, List.append_assoc,
    List.append_assoc]
  cases tail with
  | nil =>
    refine iff_of_true ?_ (by simp)
    rw [List.map_nil, List.nil_append]
    by_cases null : last = zero
    · have all : List.replicate k zero ++ last :: point :: rest = List.replicate (k + 1) zero ++ point :: rest := by
        rw [null, List.replicate_succ', List.append_assoc]
        rfl
      have ended : ¬ (StartsDigit (point :: rest) ∨ k + 1 = 0) :=
        not_or.mpr ⟨not_startsDigit_point rest, Nat.succ_ne_zero k⟩
      have next : (point :: rest).head? ≠ some zero := show some point ≠ some zero by decide
      rw [all, unpadded_zeros next, trimmed, if_neg ended, null]
      rfl
    · rw [unpadded_zeros (by simpa using null), trimmed, if_pos (.inl end_digit)]
  | cons c tail =>
    have starts : StartsDigit (c :: tail ++ last :: point :: rest) := digits c (by simp)
    rw [unpadded_zeros (by simpa using other), trimmed, if_pos (.inl starts), List.append_cancel_left_eq,
      List.append_cancel_right_eq, map_replaceZero_eq_iff]

theorem removeLeadingZeros_some_iff {init rest after : List UInt8} {last : UInt8} (short : init.length < 256)
    (digits : ∀ c ∈ init, IsDigit c) (end_digit : IsDigit last) :
    (∃ fuel, removeLeadingZeros fuel (init ++ last :: point :: rest) 0 = some after) ↔
      init.map (replaceZero 0) ++ last :: point :: rest = after := by
  have start : ([] : List UInt8).length + init.length < 256 := (Nat.zero_add init.length).symm ▸ short
  have run : ∀ fuel, removeLoop 0 fuel 0 ([] ++ (init ++ last :: point :: rest)) = _ :=
    removeLoop_eq rfl start (by simp) (fun c member => plain_of_isDigit (digits c member))
      (plain_of_isDigit end_digit)
  constructor
  · rintro ⟨fuel, done⟩
    have same := (run fuel).symm.trans done
    split at same
    · exact Option.some.inj same
    · cases same
  · rintro rfl
    exact ⟨init.length + 1, (run _).trans (if_pos (Nat.lt_succ_self _))⟩

theorem deciDigit_eq (value : UInt16) : deciDigit value = character (value.toNat % 10) := by
  rw [deciDigit, character, ← UInt8.toNat_inj]
  have bound : value.toNat % 10 < 10 := Nat.mod_lt _ (by decide)
  rw [UInt8.toNat_add, UInt16.toNat_toUInt8, UInt16.toNat_mod, UInt8.toNat_ofNat']
  change (value.toNat % 10 % 256 + 48) % 256 = (value.toNat % 10 + 48) % 256
  omega

theorem prepareDeciPrint_eq (buffer : Vector UInt8 6) (value : UInt16) :
    prepareDeciPrint buffer.toList value =
      [character (value.toNat / 1000 % 10), character (value.toNat / 100 % 10)] ++
        character (value.toNat / 10 % 10) :: point :: [character (value.toNat % 10), 0] := by
  obtain ⟨⟨cells⟩, size⟩ := buffer
  match cells, size with
  | [_, _, _, _, _, _], _ =>
    have tens : ∀ value : UInt16, (value / 10).toNat = value.toNat / 10 := fun value => UInt16.toNat_div value 10
    show [deciDigit (value / 10 / 10 / 10), deciDigit (value / 10 / 10), deciDigit (value / 10), point,
      deciDigit value, 0] = _
    simp only [deciDigit_eq, tens, Nat.div_div_eq_div_mul]
    rfl

theorem character_eq_zero_iff {d : Nat} (small : d < 10) : character d = zero ↔ d = 0 := by
  have every : ∀ d < 10, character d = zero ↔ d = 0 := by decide
  exact every d small

theorem not_reads_gap {first : UInt8} (digit : IsDigit first) (rest : List UInt8) (number : ℚ) :
    ¬ Reads (first :: blank :: rest) number := by
  have front : shown ([first] ++ blank :: rest) = (some (value [first]), blank :: rest) :=
    shown_digits (by simp) (by simpa using digit) (show ¬ IsDigit blank by decide)
  rintro ⟨fraction, behind, -⟩
  rw [show first :: blank :: rest = [first] ++ blank :: rest from rfl, front] at behind
  exact absurd (List.cons.inj behind).1 (by decide)

/-- The text in which a value is displayed. -/
def displayed (v : Nat) : List UInt8 :=
  [character (v / 1000 % 10), character (v / 100 % 10)].map (replaceZero 0) ++
    character (v / 10 % 10) :: point :: [character (v % 10)]

theorem isDigit_of_mem_pair (m n : Nat) : ∀ c ∈ [character (m % 10), character (n % 10)], IsDigit c := by
  intro c member
  rcases List.mem_pair.mp member with rfl | rfl
  · exact isDigit_character_mod m
  · exact isDigit_character_mod n

theorem removeLeadingZeros_prepareDeciPrint_iff (buffer : Vector UInt8 6) (value : UInt16) (after : List UInt8) :
    (∃ fuel, removeLeadingZeros fuel (prepareDeciPrint buffer.toList value) 0 = some after) ↔
      displayed value.toNat ++ [0] = after := by
  rw [prepareDeciPrint_eq]
  exact removeLeadingZeros_some_iff (show 2 < 256 by decide) (isDigit_of_mem_pair _ _) (isDigit_character_mod _)

theorem zero_not_mem_dropWhile_pair (a b : UInt8) : zero ∉ [a, b].dropWhile (· = zero) ↔ a = zero ∨ b ≠ zero := by
  by_cases first : a = zero
  · rw [List.dropWhile_cons_of_pos (by simpa using first)]
    refine iff_of_true ?_ (.inl first)
    by_cases second : b = zero
    · rw [List.dropWhile_cons_of_pos (by simpa using second)]
      exact List.not_mem_nil
    · rw [List.dropWhile_cons_of_neg (by simpa using second)]
      simpa using Ne.symm second
  · rw [List.dropWhile_cons_of_neg (by simpa using first), or_iff_right first, List.mem_pair, not_or,
      and_iff_right (Ne.symm first), ne_comm]

theorem reads_prepared {v : Nat} (small : v ≤ 9999) :
    Reads ([character (v / 1000 % 10), character (v / 100 % 10)] ++
      character (v / 10 % 10) :: point :: [character (v % 10)]) ((v : ℚ) / 10) := by
  have whole : ∀ c ∈ lowDigits 3 (v / 10), IsDigit c := isDigit_of_mem_lowDigits
  have last : ∀ c ∈ lowDigits 1 v, IsDigit c := isDigit_of_mem_lowDigits
  have reads := reads_digits whole last
  have four : lowDigits 3 (v / 10) ++ lowDigits 1 v = lowDigits 4 v := lowDigits_append 3 1 v
  rw [four, value_lowDigits, Nat.mod_eq_of_lt (show v < 10 ^ 4 by omega), length_lowDigits, pow_one] at reads
  simp only [lowDigits, Nat.div_div_eq_div_mul] at reads
  exact reads

theorem reads_displayed_iff {v : Nat} (small : v ≤ 9999) :
    Reads (displayed v) ((v : ℚ) / 10) ↔ v < 1000 ∨ v / 100 % 10 ≠ 0 := by
  have thousands : character (v / 1000 % 10) = zero ↔ v < 1000 := by
    rw [character_eq_zero_iff (Nat.mod_lt _ (by decide))]
    omega
  have hundreds : character (v / 100 % 10) = zero ↔ v / 100 % 10 = 0 :=
    character_eq_zero_iff (Nat.mod_lt _ (by decide))
  have leading := zero_not_mem_dropWhile_pair (character (v / 1000 % 10)) (character (v / 100 % 10))
  rw [thousands, hundreds.ne] at leading
  unfold displayed
  constructor
  · intro reads
    by_contra wrong
    obtain ⟨large, gap⟩ := not_or.mp wrong
    rw [hundreds.mpr (not_not.mp gap), List.map_cons, replaceZero_of_ne (thousands.not.mpr large)] at reads
    exact not_reads_gap (isDigit_character_mod _) _ _ reads
  · intro right
    rw [(replaced_eq_unpadded_iff (isDigit_of_mem_pair _ _) (isDigit_character_mod _) _).mpr (leading.mpr right)]
    exact (reads_prepared small).of_shown (shown_unpadded _)

theorem removeLeadingZeros_unpadded_iff {whole fraction : List UInt8} (some : whole ≠ [])
    (digits : ∀ c ∈ whole ++ fraction, IsDigit c) (stale : List UInt8) :
    (∃ fuel, removeLeadingZeros fuel (whole ++ point :: fraction ++ 0 :: stale) 0 =
        .some (unpadded (whole ++ point :: fraction) ++ 0 :: stale)) ↔
      whole.length ≤ 256 ∧ zero ∉ whole.dropLast.dropWhile (· = zero) := by
  obtain ⟨init, last, rfl⟩ := (List.eq_nil_or_concat' whole).resolve_left some
  have inits : ∀ c ∈ init, IsDigit c := fun c member => digits c (by simp [member])
  have ends : IsDigit last := digits last (by simp)
  have text : init ++ [last] ++ point :: fraction = init ++ last :: point :: fraction := by simp
  rw [List.length_append, List.length_singleton, List.dropLast_concat, text,
    ← replaced_eq_unpadded_iff inits ends fraction]
  by_cases short : init.length < 256
  · have split : init ++ last :: point :: fraction ++ 0 :: stale =
        init ++ last :: point :: (fraction ++ 0 :: stale) := by simp
    rw [and_iff_right (Nat.succ_le_of_lt short), split, removeLeadingZeros_some_iff short inits ends,
      ← List.append_cancel_right_eq _ (0 :: stale) (unpadded _)]
    simp
  · refine iff_of_false ?_ fun right => short (Nat.lt_of_succ_le right.1)
    rintro ⟨fuel, done⟩
    have plain : ∀ c ∈ init ++ [last], Plain c := fun c member =>
      plain_of_isDigit (digits c (List.mem_append_left _ member))
    have long : 256 < (init ++ [last]).length := by
      rw [List.length_append, List.length_singleton]
      omega
    have run := removeLoop_eq_none long plain 0 0 fuel (point :: fraction ++ 0 :: stale)
    rw [← List.append_assoc, text] at run
    cases run.symm.trans done

theorem removeLeadingZeros_display_iff (whole fraction stale : List UInt8) (buffer : Vector UInt8 6) (v : UInt16) :
    (whole ≠ [] → (∀ c ∈ whole ++ fraction, IsDigit c) →
      ((∃ fuel, removeLeadingZeros fuel (whole ++ point :: fraction ++ 0 :: stale) 0 =
          some (unpadded (whole ++ point :: fraction) ++ 0 :: stale)) ↔
        whole.length ≤ 256 ∧ zero ∉ whole.dropLast.dropWhile (· = zero))) ∧
    (v.toNat ≤ 9999 →
      ((∃ fuel text, removeLeadingZeros fuel (prepareDeciPrint buffer.toList v) 0 = some (text ++ [0]) ∧
          Reads text ((v.toNat : ℚ) / 10)) ↔
        v.toNat < 1000 ∨ v.toNat / 100 % 10 ≠ 0)) := by
  constructor
  · intro some digits
    exact removeLeadingZeros_unpadded_iff some digits stale
  · intro small
    rw [← reads_displayed_iff small]
    constructor
    · rintro ⟨fuel, text, done, reads⟩
      have same := (removeLeadingZeros_prepareDeciPrint_iff buffer v _).mp ⟨fuel, done⟩
      rwa [List.append_cancel_right same]
    · intro reads
      obtain ⟨fuel, done⟩ := (removeLeadingZeros_prepareDeciPrint_iff buffer v _).mpr rfl
      exact ⟨fuel, _, done, reads⟩

/-- 100.5 is displayed with a blank among its digits. -/
theorem display_gap :
    prepareDeciPrint (Vector.replicate 6 0).toList 1005 = [49, 48, 48, point, 53, 0] ∧
      removeLeadingZeros 8 [49, 48, 48, point, 53, 0] 0 = some [49, blank, 48, point, 53, 0] ∧
      unpadded [49, 48, 48, point, 53] = [49, 48, 48, point, 53] := by
  decide

end Minimus32.TempLogger
