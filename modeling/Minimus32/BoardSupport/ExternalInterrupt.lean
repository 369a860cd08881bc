import Minimus32.Library.Register

namespace Minimus32.ExternalInterrupt

open Register

inductive InterruptEdge where
  | lowlevel
  | any
  | falling
  | rising
deriving DecidableEq, Repr

def InterruptEdge.code : InterruptEdge → Nat
  | .lowlevel => 0b00
  | .any => 0b01
  | .falling => 0b10
  | .rising => 0b11

structure Registers where
  eimsk : UInt8
  eicra : UInt8
  eicrb : UInt8
deriving DecidableEq

def disableExternalInterruptInput (id : UInt8) (r : Registers) : Registers :=
  { r with eimsk := r.eimsk &&& ~~~(UInt8.ofNat (1 <<< id.toNat)) }

/-- `control &= ~(0b11<<shift); control |= edge<<shift` -/
def setSense (shift : Nat) (edge : InterruptEdge) (control : UInt8) : UInt8 :=
  control &&& ~~~(UInt8.ofNat (0b11 <<< shift)) ||| UInt8.ofNat (edge.code <<< shift)

def enableExternalInterruptInput (id : UInt8) (edge : InterruptEdge) (r : Registers) : Registers :=
  let r := disableExternalInterruptInput id r
  let r :=
    if id < 4 then { r with eicra := setSense (id.toNat * 2) edge r.eicra }
    else { r with eicrb := setSense ((id.toNat - 4) * 2) edge r.eicrb }
  { r with eimsk := r.eimsk ||| UInt8.ofNat (1 <<< id.toNat) }

inductive PinEdge where
  | fall
  | rise
deriving DecidableEq, Repr

def senseAt (shift : Nat) (control : UInt8) : Bool × Bool := (bit control (shift + 1), bit control (shift + 0))

def Registers.sense (r : Registers) (id : UInt8) : Bool × Bool :=
  if id < 4 then senseAt (id.toNat * 2) r.eicra else senseAt ((id.toNat - 4) * 2) r.eicrb

def Registers.enabled (r : Registers) (id : UInt8) : Bool := bit r.eimsk id.toNat

def triggers : Bool × Bool → PinEdge → Bool
  | (false, false), _ => false
  | (false, true), _ => true
  | (true, false), change => change = .fall
  | (true, true), change => change = .rise

/-- Whether the hardware raises interrupt `id` at this change of its pin. -/
def Registers.raises (r : Registers) (id : UInt8) (change : PinEdge) : Bool :=
  r.enabled id && triggers (r.sense id) change

theorem senseAt_setSense {shift : Nat} (small : shift + 1 < 8) (edge : InterruptEdge) (control : UInt8) :
    senseAt shift (setSense shift edge control) = (edge.code.testBit 1, edge.code.testBit 0) := by
  have cleared : ∀ i, i ≤ 1 → bit (~~~(UInt8.ofNat (0b11 <<< shift))) (shift + i) = false := by
    intro i low
    rw [bit_complement _ (by omega), bit_field _ _ _ (by omega)]
    rcases (by omega : i = 0 ∨ i = 1) with rfl | rfl <;> rfl
  simp only [senseAt, setSense, bit_or, bit_and, cleared 0 (by omega), cleared 1 (by omega), Bool.and_false,
    Bool.false_or, bit_field edge.code shift 1 small, bit_field edge.code shift 0 (by omega)]

theorem enable_sense {id : UInt8} (valid : id.toNat < 8) (edge : InterruptEdge) (r : Registers) :
    (enableExternalInterruptInput id edge r).sense id = (edge.code.testBit 1, edge.code.testBit 0) := by
  unfold enableExternalInterruptInput Registers.sense
  by_cases low : id < 4
  · have bound : id.toNat < 4 := UInt8.lt_iff_toNat_lt.mp low
    simp only [if_pos low]
    exact senseAt_setSense (by omega) edge _
  · simp only [if_neg low]
    exact senseAt_setSense (by omega) edge _

theorem enable_enabled {id : UInt8} (valid : id.toNat < 8) (edge : InterruptEdge) (r : Registers) :
    (enableExternalInterruptInput id edge r).enabled id = true := by
  have set : bit (UInt8.ofNat (1 <<< id.toNat)) id.toNat = true := bit_field 1 id.toNat 0 valid
  simp only [enableExternalInterruptInput, Registers.enabled, bit_or, set, Bool.or_true]

theorem disable_enabled {id : UInt8} (valid : id.toNat < 8) (r : Registers) :
    (disableExternalInterruptInput id r).enabled id = false := by
  have set : bit (UInt8.ofNat (1 <<< id.toNat)) id.toNat = true := bit_field 1 id.toNat 0 valid
  simp only [disableExternalInterruptInput, Registers.enabled, bit_and, bit_complement _ valid, set, Bool.not_true,
    Bool.and_false]

theorem enable_falling_raises {id : UInt8} (valid : id.toNat < 8) (r : Registers) (change : PinEdge) :
    (enableExternalInterruptInput id .falling r).raises id change = decide (change = .fall) := by
  rw [Registers.raises, enable_enabled valid, enable_sense valid, Bool.true_and]
  rfl

theorem enable_rising_raises {id : UInt8} (valid : id.toNat < 8) (r : Registers) (change : PinEdge) :
    (enableExternalInterruptInput id .rising r).raises id change = decide (change = .rise) := by
  rw [Registers.raises, enable_enabled valid, enable_sense valid, Bool.true_and]
  rfl

end Minimus32.ExternalInterrupt
