import Mathlib.Data.UInt

namespace Register

def bit (register : UInt8) (i : Nat) : Bool := register.toBitVec.getLsbD i

@[simp]
theorem bit_or (left right : UInt8) (i : Nat) : bit (left ||| right) i = (bit left i || bit right i) := by
  simp [bit]

@[simp]
theorem bit_and (left right : UInt8) (i : Nat) : bit (left &&& right) i = (bit left i && bit right i) := by
  simp [bit]

@[simp]
theorem bit_xor (left right : UInt8) (i : Nat) : bit (left ^^^ right) i = (bit left i ^^ bit right i) := by
  simp [bit]

theorem bit_complement (register : UInt8) {i : Nat} (small : i < 8) : bit (~~~register) i = !bit register i := by
  simp [bit, small]

theorem bit_ofNat (n : Nat) {i : Nat} (small : i < 8) : bit (UInt8.ofNat n) i = n.testBit i := by
  show (BitVec.ofNat 8 n).getLsbD i = n.testBit i
  rw [BitVec.getLsbD_ofNat]
  simp [small]

theorem bit_field (pattern shift i : Nat) (small : shift + i < 8) :
    bit (UInt8.ofNat (pattern <<< shift)) (shift + i) = pattern.testBit i := by
  rw [bit_ofNat _ small, Nat.testBit_shiftLeft]
  simp

theorem bit_shiftLeft (register shift : UInt8) {i : Nat} (inside : i < 8) (above : shift.toNat ≤ i) :
    bit (register <<< shift) i = bit register (i - shift.toNat) := by
  have reduced : shift.toNat % 8 = shift.toNat := Nat.mod_eq_of_lt (by omega)
  have notBelow : ¬ i < shift.toNat := by omega
  simp [bit, reduced, inside, notBelow, BitVec.getLsbD_eq_getElem (show i - shift.toNat < 8 by omega)]

theorem and_ne_zero {i : Nat} (small : i < 8) (register : UInt8) :
    register &&& UInt8.ofNat (2 ^ i) ≠ 0 ↔ bit register i = true := by
  have every : ∀ i < 8, ∀ bits : BitVec 8, (⟨bits⟩ : UInt8) &&& UInt8.ofNat (2 ^ i) ≠ 0 ↔ bit ⟨bits⟩ i = true := by
    decide +kernel
  exact every i small register.toBitVec

/-- A sixteen bit register and its two halves. -/
def word (high low : UInt8) : UInt16 := UInt16.ofNat (256 * high.toNat + low.toNat)

def high (value : UInt16) : UInt8 := (value >>> 8).toUInt8

def low (value : UInt16) : UInt8 := value.toUInt8

theorem toNat_word (high low : UInt8) : (word high low).toNat = 256 * high.toNat + low.toNat := by
  have highBound := high.toNat_lt
  have lowBound := low.toNat_lt
  rw [word, UInt16.toNat_ofNat']
  omega

theorem toNat_high (value : UInt16) : (high value).toNat = value.toNat / 256 := by
  have bound := value.toNat_lt
  have shifted : (value >>> 8).toNat = value.toNat / 256 := by simp [Nat.shiftRight_eq_div_pow]
  rw [high, UInt16.toNat_toUInt8, shifted]
  omega

theorem toNat_low (value : UInt16) : (low value).toNat = value.toNat % 256 := UInt16.toNat_toUInt8 value

theorem word_bytes (value : UInt16) : word (value >>> 8).toUInt8 (value &&& 0xff).toUInt8 = value := by
  have masked : (value &&& 0xff).toNat = value.toNat % 256 := by
    rw [UInt16.toNat_and]
    exact Nat.and_two_pow_sub_one_eq_mod _ 8
  have upper := toNat_high value
  rw [high] at upper
  rw [← UInt16.toNat_inj, toNat_word, UInt16.toNat_toUInt8 (value &&& 0xff), masked, upper]
  omega

theorem bytes_word (high low : UInt8) :
    (word high low >>> 8).toUInt8 = high ∧ (word high low &&& 0xff).toUInt8 = low := by
  have value := toNat_word high low
  have highBound := high.toNat_lt
  have lowBound := low.toNat_lt
  have upper := toNat_high (word high low)
  rw [Register.high] at upper
  have masked : (word high low &&& 0xff).toNat = (word high low).toNat % 256 := by
    rw [UInt16.toNat_and]
    exact Nat.and_two_pow_sub_one_eq_mod _ 8
  constructor
  · rw [← UInt8.toNat_inj, upper]
    omega
  · rw [← UInt8.toNat_inj, UInt16.toNat_toUInt8, masked]
    omega

theorem toUInt16_ofNat {n : Nat} (small : n < 256) : (UInt8.ofNat n).toUInt16 = UInt16.ofNat n := by
  rw [← UInt16.toNat_inj, UInt8.toNat_toUInt16, UInt8.toNat_ofNat', UInt16.toNat_ofNat']
  omega

theorem ofNat_sub {n m : Nat} (bound : m ≤ n) : UInt16.ofNat n - UInt16.ofNat m = UInt16.ofNat (n - m) := by
  obtain ⟨k, rfl⟩ := Nat.exists_eq_add_of_le bound
  rw [Nat.add_sub_cancel_left, UInt16.ofNat_add, UInt16.add_comm, UInt16.add_sub_cancel]

theorem add_bytes (sum value : UInt16) :
    sum + (low value).toUInt16 + (high value).toUInt16 <<< 8 = sum + value := by
  have bound := value.toNat_lt
  have shifted : ((high value).toUInt16 <<< 8).toNat = value.toNat / 256 * 256 := by
    have small : value.toNat / 256 * 256 < 65536 := by omega
    simp [Nat.shiftLeft_eq, toNat_high, Nat.mod_eq_of_lt small]
  rw [← UInt16.toNat_inj, UInt16.toNat_add, UInt16.toNat_add, UInt16.toNat_add, UInt8.toNat_toUInt16, toNat_low,
    shifted]
  omega

end Register
