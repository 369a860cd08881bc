import Mathlib.Tactic.Ring
import Minimus32.Library.MixedRadix
import Minimus32.Timer1.Clock

namespace Minimus32.Timer1

open MixedRadix

/-- Milliseconds after which the 16-bit day counter starts again. -/
def WallTime.dayLimit : Nat := 65536 * 86400000

def WallTime.total (t : WallTime) : Nat :=
  t.msec.toNat + 1000 * (t.sec.toNat + 60 * (t.min.toNat + 60 * (t.hour.toNat + 24 * t.day.toNat)))

structure WallTime.Normal (t : WallTime) : Prop where
  msec : t.msec.toNat < 1000
  sec : t.sec.toNat < 60
  min : t.min.toNat < 60
  hour : t.hour.toNat < 24

def WallTime.ofTicks (n : Nat) : WallTime where
  msec := .ofNat (n % 1000)
  sec := .ofNat (n / 1000 % 60)
  min := .ofNat (n / 1000 / 60 % 60)
  hour := .ofNat (n / 1000 / 60 / 60 % 24)
  day := .ofNat (n / 1000 / 60 / 60 / 24)
  freerunningSec := .ofNat (n / 1000)

theorem WallTime.ofTicks_zero : WallTime.ofTicks 0 = .zero := by decide

theorem WallTime.ofTicks_normal (n : Nat) : (WallTime.ofTicks n).Normal := by
  constructor <;> simp only [WallTime.ofTicks, UInt16.toNat_ofNat', UInt8.toNat_ofNat'] <;> omega

theorem WallTime.ofTicks_total (n : Nat) : (WallTime.ofTicks n).total = n % dayLimit := by
  simp only [WallTime.ofTicks, WallTime.total, dayLimit, UInt16.toNat_ofNat', UInt8.toNat_ofNat']
  omega

theorem WallTime.ofTicks_total_of_lt {n : Nat} (early : n < dayLimit) : (WallTime.ofTicks n).total = n := by
  rw [ofTicks_total, Nat.mod_eq_of_lt early]

theorem ofNat16_add_one (n : Nat) : UInt16.ofNat n + 1 = UInt16.ofNat (n + 1) := by
  simp [UInt16.ofNat_add]

theorem ofNat8_add_one (n : Nat) : UInt8.ofNat n + 1 = UInt8.ofNat (n + 1) := by
  simp [UInt8.ofNat_add]

theorem WallTime.advance_ofTicks (n : Nat) : (WallTime.ofTicks n).advance = .ofTicks (n + 1) := by
  have msec := succ_digit n 1000 (by decide)
  have sec := succ_digit (n / 1000) 60 (by decide)
  have min := succ_digit (n / 1000 / 60) 60 (by decide)
  have hour := succ_digit (n / 1000 / 60 / 60) 24 (by decide)
  simp only [WallTime.advance, WallTime.ofTicks, ge_iff_le, UInt16.le_iff_toNat_le, UInt8.le_iff_toNat_le,
    ofNat16_add_one, ofNat8_add_one, UInt16.toNat_ofNat', UInt8.toNat_ofNat', UInt16.toNat_ofNat,
    UInt8.toNat_ofNat]
  -- One case for each digit the carry can stop at.
  rcases msec with ⟨under, digit, rest⟩ | ⟨full, digit, rest⟩
  · rw [if_neg (by omega), digit, rest]
  · rw [if_pos (by omega), digit, rest]
    rcases sec with ⟨under, digit, rest⟩ | ⟨full, digit, rest⟩
    · rw [if_neg (by omega), digit, rest]
      rfl
    · rw [if_pos (by omega), digit, rest]
      rcases min with ⟨under, digit, rest⟩ | ⟨full, digit, rest⟩
      · rw [if_neg (by omega), digit, rest]
        rfl
      · rw [if_pos (by omega), digit, rest]
        rcases hour with ⟨under, digit, rest⟩ | ⟨full, digit, rest⟩
        · rw [if_neg (by omega), digit, rest]
          rfl
        · rw [if_pos (by omega), digit, rest]
          rfl

theorem WallTime.expired_iff {now time : WallTime} (normalNow : now.Normal) (normalTime : time.Normal) :
    now.Expired time ↔ time.total ≤ now.total := by
  unfold WallTime.total
  rw [digits_le_iff normalTime.msec normalNow.msec, digits_lt_iff normalTime.sec normalNow.sec,
    digits_eq_iff normalNow.sec normalTime.sec, digits_lt_iff normalTime.min normalNow.min,
    digits_eq_iff normalNow.min normalTime.min, digits_lt_iff normalTime.hour normalNow.hour,
    digits_eq_iff normalNow.hour normalTime.hour]
  simp only [WallTime.Expired, gt_iff_lt, ge_iff_le, UInt16.lt_iff_toNat_lt, UInt8.lt_iff_toNat_lt,
    UInt16.le_iff_toNat_le, ← UInt16.toNat_inj, ← UInt8.toNat_inj, or_assoc, and_assoc]

/-- The seconds survive the carry out of the milliseconds. -/
def WallTime.CarryFits (now : WallTime) (sec msec : UInt16) : Prop :=
  sec.toNat ≤ 65534 ∨ now.msec.toNat + msec.toNat < 1000

/-- A digit in base `base` and the carry out of it make up `sum`. -/
structure Carried (base sum digit : Nat) (carry : UInt16) : Prop where
  sum : digit + base * carry.toNat = sum
  digit : digit < base
  carry : carry.toNat ≤ 1

theorem reduced_carried (limit : UInt16) (base : Nat) {tmp : UInt16} {sum : Nat} (size : limit.toNat = base)
    (value : tmp.toNat = sum) (small : sum < 2 * base) :
    Carried base sum (reduced limit tmp).toNat (carryOf limit tmp) := by
  subst base sum
  unfold reduced carryOf
  split
  · rename_i full
    have bound : limit.toNat ≤ tmp.toNat := UInt16.le_iff_toNat_le.mp full
    rw [UInt16.toNat_sub_of_le _ _ full]
    refine ⟨?_, by omega, Nat.le_refl _⟩
    show tmp.toNat - limit.toNat + limit.toNat * 1 = tmp.toNat
    omega
  · rename_i under
    exact ⟨by simp, UInt16.lt_iff_toNat_lt.mp (UInt16.not_le.mp under), Nat.zero_le _⟩

theorem Carried.toUInt8 {base sum : Nat} {digit carry : UInt16} (carried : Carried base sum digit.toNat carry)
    (byte : base ≤ 256) : Carried base sum digit.toUInt8.toNat carry := by
  have small := carried.digit
  rw [UInt16.toNat_toUInt8, Nat.mod_eq_of_lt (by omega)]
  exact carried

/-- The digits of the deadline, lowest first; the seconds asked for take the carry out of the milliseconds
    and are then shared out over the digits above. -/
theorem WallTime.deadline_carried {now : WallTime} (normal : now.Normal) {sec msec : UInt16}
    (range : msec.toNat ≤ 999) (fits : now.CarryFits sec msec) :
    ∃ carry0 carry1 carry2 carry3 : UInt16,
      Carried 1000 (now.msec.toNat + msec.toNat) (now.deadline sec msec).msec.toNat carry0 ∧
      Carried 60 (now.sec.toNat + (sec.toNat + carry0.toNat) % 60) (now.deadline sec msec).sec.toNat carry1 ∧
      Carried 60 (now.min.toNat + (sec.toNat + carry0.toNat) / 60 % 60 + carry1.toNat)
        (now.deadline sec msec).min.toNat carry2 ∧
      Carried 24 (now.hour.toNat + (sec.toNat + carry0.toNat) / 60 / 60 + carry2.toNat)
        (now.deadline sec msec).hour.toNat carry3 ∧
      (now.deadline sec msec).day = carry3 + now.day := by
  obtain ⟨msecNow, secNow, minNow, hourNow⟩ := normal
  have secBound := sec.toNat_lt
  have tmp0 : (now.msec + msec).toNat = now.msec.toNat + msec.toNat := by
    rw [UInt16.toNat_add]
    omega
  have digit0 := reduced_carried 1000 1000 rfl tmp0 (by omega)
  have sec0 : (sec + carryOf 1000 (now.msec + msec)).toNat = sec.toNat + (carryOf 1000 (now.msec + msec)).toNat := by
    obtain ⟨sum, digit, carry⟩ := digit0
    unfold CarryFits at fits
    rw [UInt16.toNat_add]
    omega
  simp only [WallTime.deadline]
  generalize carryOf 1000 (now.msec + msec) = carry0 at digit0 sec0 ⊢
  generalize sec + carry0 = whole at sec0 ⊢
  have one0 := digit0.carry
  have tmp1 : (now.sec.toUInt16 + whole % 60).toNat = now.sec.toNat + (sec.toNat + carry0.toNat) % 60 := by
    rw [UInt16.toNat_add, UInt16.toNat_mod, UInt8.toNat_toUInt16, sec0]
    change (_ + _ % 60) % _ = _
    omega
  have digit1 := reduced_carried 60 60 rfl tmp1 (by omega)
  generalize carryOf 60 (now.sec.toUInt16 + whole % 60) = carry1 at digit1 ⊢
  have one1 := digit1.carry
  have tmp2 : (now.min.toUInt16 + whole / 60 % 60 + carry1).toNat =
      now.min.toNat + (sec.toNat + carry0.toNat) / 60 % 60 + carry1.toNat := by
    rw [UInt16.toNat_add, UInt16.toNat_add, UInt16.toNat_mod, UInt16.toNat_div, UInt8.toNat_toUInt16, sec0]
    change ((_ + _ / 60 % 60) % _ + _) % _ = _
    omega
  have digit2 := reduced_carried 60 60 rfl tmp2 (by omega)
  generalize carryOf 60 (now.min.toUInt16 + whole / 60 % 60 + carry1) = carry2 at digit2 ⊢
  have one2 := digit2.carry
  have tmp3 : (now.hour.toUInt16 + whole / 60 / 60 + carry2).toNat =
      now.hour.toNat + (sec.toNat + carry0.toNat) / 60 / 60 + carry2.toNat := by
    rw [UInt16.toNat_add, UInt16.toNat_add, UInt16.toNat_div, UInt16.toNat_div, UInt8.toNat_toUInt16, sec0]
    change ((_ + _ / 60 / 60) % _ + _) % _ = _
    omega
  have digit3 := reduced_carried 24 24 rfl tmp3 (by omega)
  exact ⟨carry0, carry1, carry2, _, digit0, digit1.toUInt8 (by decide), digit2.toUInt8 (by decide),
    digit3.toUInt8 (by decide), rfl⟩

theorem WallTime.deadline_normal {now : WallTime} (normal : now.Normal) {sec msec : UInt16}
    (range : msec.toNat ≤ 999) (fits : now.CarryFits sec msec) :
    (now.deadline sec msec).Normal ∧
      (now.deadline sec msec).total = (now.total + (1000 * sec.toNat + msec.toNat)) % dayLimit := by
  obtain ⟨carry0, carry1, carry2, carry3, msecs, secs, mins, hours, day⟩ := deadline_carried normal range fits
  refine ⟨⟨msecs.digit, secs.digit, mins.digit, hours.digit⟩, ?_⟩
  have exactSum : (now.deadline sec msec).msec.toNat + 1000 * ((now.deadline sec msec).sec.toNat +
      60 * ((now.deadline sec msec).min.toNat + 60 * (now.deadline sec msec).hour.toNat)) +
      86400000 * (carry3.toNat + now.day.toNat) = now.total + (1000 * sec.toNat + msec.toNat) := by
    have sum0 := msecs.sum
    have sum1 := secs.sum
    have sum2 := mins.sum
    have sum3 := hours.sum
    unfold WallTime.total
    omega
  have low : (now.deadline sec msec).msec.toNat + 1000 * ((now.deadline sec msec).sec.toNat +
      60 * ((now.deadline sec msec).min.toNat + 60 * (now.deadline sec msec).hour.toNat)) < 86400000 := by
    have digit0 := msecs.digit
    have digit1 := secs.digit
    have digit2 := mins.digit
    have digit3 := hours.digit
    omega
  rw [← exactSum, dayLimit, Nat.mul_comm 65536, ← mod_top_digit low, WallTime.total, day, UInt16.toNat_add]
  ring

end Minimus32.Timer1
