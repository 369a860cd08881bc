import Minimus32.Library.Register

namespace Minimus32.Spi

inductive SpiSpeed where
  | divider4
  | divider16
  | divider64
  | divider128
  | divider2
  | divider8
  | divider32
  | divider64X2
deriving DecidableEq

/-- The value of the constant in the enumeration. -/
def SpiSpeed.value : SpiSpeed → UInt8
  | .divider4 => 0
  | .divider16 => 1
  | .divider64 => 2
  | .divider128 => 3
  | .divider2 => 4
  | .divider8 => 5
  | .divider32 => 6
  | .divider64X2 => 7

def SpiSpeed.nominal : SpiSpeed → Nat
  | .divider4 => 4
  | .divider16 => 16
  | .divider64 => 64
  | .divider128 => 128
  | .divider2 => 2
  | .divider8 => 8
  | .divider32 => 32
  | .divider64X2 => 64

/-- `SPIE`, `SPE`, `DORD`, `MSTR`, `CPOL` and `CPHA` of `SPCR`, and `SPIF` and `WCOL` of `SPSR`. -/
def spie : UInt8 := 7

def spe : UInt8 := 6

def dord : UInt8 := 5

def mstr : UInt8 := 4

def cpol : UInt8 := 3

def cpha : UInt8 := 2

def spif : UInt8 := 7

def wcol : UInt8 := 6

structure Registers where
  spcr : UInt8
  spsr : UInt8
deriving DecidableEq

/-- Software writes only `SPI2X`. -/
def Registers.writeSpsr (r : Registers) (value : UInt8) : Registers :=
  { r with spsr := r.spsr &&& (1 <<< spif ||| 1 <<< wcol) ||| value &&& 1 }

/-- An access to `SPDR` behind a read of `SPSR` that has seen the flags. -/
def Registers.clearFlags (r : Registers) : Registers := { r with spsr := r.spsr &&& ~~~(1 <<< spif ||| 1 <<< wcol) }

/-- `spi_setup` -/
def Registers.setup (r : Registers) (speed : SpiSpeed) (flags : UInt8) : Registers :=
  let flags := flags ^^^ (1 <<< spe ||| 1 <<< mstr)
  let flags := flags ||| speed.value &&& 3
  let r := { r with spcr := flags &&& ~~~(1 <<< spe) }
  let r := if r.spsr &&& (1 <<< spif ||| 1 <<< wcol) ≠ 0 then r.clearFlags else r
  let r := if speed.value &&& ((1 : UInt8) <<< 3) ≠ 0 then r.writeSpsr 1 else r.writeSpsr 0
  { r with spcr := flags }

/-- The clock divider that `SPI2X`, `SPR1` and `SPR0` select. -/
def Registers.divider (r : Registers) : Nat :=
  match Register.bit r.spsr 0, Register.bit r.spcr 1, Register.bit r.spcr 0 with
  | false, false, false => 4
  | false, false, true => 16
  | false, true, false => 64
  | false, true, true => 128
  | true, false, false => 2
  | true, false, true => 8
  | true, true, false => 32
  | true, true, true => 64

/-- Mode, bit order and clock mode are those of the flags; the flags for slave mode and for a disabled unit are the
    inverse of the register's bits. -/
structure Registers.Encodes (r : Registers) (flags : UInt8) : Prop where
  interrupt : Register.bit r.spcr spie.toNat = Register.bit flags spie.toNat
  master : Register.bit r.spcr mstr.toNat = !Register.bit flags mstr.toNat
  enabled : Register.bit r.spcr spe.toNat = !Register.bit flags spe.toNat
  order : Register.bit r.spcr dord.toNat = Register.bit flags dord.toNat
  polarity : Register.bit r.spcr cpol.toNat = Register.bit flags cpol.toNat
  phase : Register.bit r.spcr cpha.toNat = Register.bit flags cpha.toNat

theorem spcr_setup (r : Registers) (speed : SpiSpeed) (flags : UInt8) :
    (r.setup speed flags).spcr = flags ^^^ (1 <<< spe ||| 1 <<< mstr) ||| speed.value &&& 3 := rfl

/-- The test for double speed is on a bit that no constant has. -/
theorem spi2x_setup (r : Registers) (speed : SpiSpeed) (flags : UInt8) :
    Register.bit (r.setup speed flags).spsr 0 = false := by
  have single : ¬ speed.value &&& ((1 : UInt8) <<< 3) ≠ 0 := by cases speed <;> decide
  have cleared (status : UInt8) :
      Register.bit (status &&& (1 <<< spif ||| 1 <<< wcol) ||| 0 &&& 1) 0 = false := by
    have outside : Register.bit (1 <<< spif ||| 1 <<< wcol) 0 = false := by decide
    have zero : Register.bit (0 &&& 1) 0 = false := by decide
    rw [Register.bit_or, Register.bit_and, outside, zero, Bool.and_false, Bool.or_false]
  simp only [Registers.setup, if_neg single]
  exact cleared _

theorem setup_encodes (r : Registers) (speed : SpiSpeed) (flags : UInt8) : (r.setup speed flags).Encodes flags := by
  have bits (i : Nat) (above : Register.bit (speed.value &&& 3) i = false) :
      Register.bit (r.setup speed flags).spcr i =
        (Register.bit flags i ^^ Register.bit (1 <<< spe ||| 1 <<< mstr) i) := by
    rw [spcr_setup, Register.bit_or, Register.bit_xor, above, Bool.or_false]
  refine ⟨?_, ?_, ?_, ?_, ?_, ?_⟩
  all_goals
    rw [bits _ (by cases speed <;> decide)]
  · simp [show Register.bit (1 <<< spe ||| 1 <<< mstr) spie.toNat = false by decide]
  · simp [show Register.bit (1 <<< spe ||| 1 <<< mstr) mstr.toNat = true by decide]
  · simp [show Register.bit (1 <<< spe ||| 1 <<< mstr) spe.toNat = true by decide]
  · simp [show Register.bit (1 <<< spe ||| 1 <<< mstr) dord.toNat = false by decide]
  · simp [show Register.bit (1 <<< spe ||| 1 <<< mstr) cpol.toNat = false by decide]
  · simp [show Register.bit (1 <<< spe ||| 1 <<< mstr) cpha.toNat = false by decide]

/-- The divider is the nominal one only for the constants without double speed. -/
theorem divider_setup_iff (r : Registers) (speed : SpiSpeed) {flags : UInt8} (clear : flags &&& 3 = 0) :
    (r.setup speed flags).divider = speed.nominal ↔ speed.value < 4 := by
  have low (i : Nat) (small : Register.bit 3 i = true)
      (outside : Register.bit (1 <<< spe ||| 1 <<< mstr) i = false) :
      Register.bit (r.setup speed flags).spcr i = Register.bit (speed.value &&& 3) i := by
    have zero : Register.bit (flags &&& 3) i = false := by
      rw [clear]
      simp [Register.bit]
    rw [Register.bit_and, small, Bool.and_true] at zero
    rw [spcr_setup, Register.bit_or, Register.bit_xor, zero, outside]
    rfl
  rw [Registers.divider, spi2x_setup, low 0 (by decide) (by decide), low 1 (by decide) (by decide)]
  cases speed <;> decide

end Minimus32.Spi
