import Mathlib.Data.List.GetD
import Minimus32.Library.CyclicCode
import Minimus32.Library.Register
import Minimus32.Library.RowMajor

namespace Minimus32.OneWire

open CyclicCode Polynomial

/-- The body of the inner loop of `onewire_calculate_crc`, on `crc` and `tmp`. -/
def crcBit (crc tmp : UInt8) : UInt8 × UInt8 :=
  let inputBit := (crc ^^^ tmp) &&& 1
  let crc := if inputBit ≠ 0 then crc ^^^ 0x18 else crc
  let crc := crc >>> 1
  let tmp := tmp >>> 1
  (crc ||| inputBit <<< 7, tmp)

def crcBits : Nat → UInt8 → UInt8 → UInt8
  | 0, crc, _ => crc
  | rounds + 1, crc, tmp => crcBits rounds (crcBit crc tmp).1 (crcBit crc tmp).2

theorem toNat_succ {i length : UInt8} (more : i < length) : (i + 1).toNat = i.toNat + 1 := by
  have below := UInt8.lt_iff_toNat_lt.mp more
  have bound := length.toNat_lt
  rw [UInt8.toNat_add]
  exact Nat.mod_eq_of_lt (show i.toNat + 1 < 256 by omega)

def crcLoop (buffer : List UInt8) (length i crc : UInt8) : UInt8 :=
  if i < length then crcLoop buffer length (i + 1) (crcBits 8 crc (buffer.getD i.toNat 0)) else crc
termination_by length.toNat - i.toNat
decreasing_by
  rename_i more
  have next := toNat_succ more
  have below := UInt8.lt_iff_toNat_lt.mp more
  omega

def calculateCrc (buffer : List UInt8) (length : UInt8) : UInt8 := crcLoop buffer length 0 0

/-- The bits of a byte in the order in which they are sent. -/
def lsbFirst (byte : UInt8) : List Bool := (List.range 8).map (Register.bit byte)

def wireBits (bytes : List UInt8) : List Bool := bytes.flatMap lsbFirst

/-- `x^5 + x^4 + 1`, from `x^7` down. -/
def taps : List Bool := [false, false, true, true, false, false, false, true]

theorem length_lsbFirst (byte : UInt8) : (lsbFirst byte).length = 8 := by simp [lsbFirst]

theorem wireBits_cons (byte : UInt8) (bytes : List UInt8) :
    wireBits (byte :: bytes) = lsbFirst byte ++ wireBits bytes := List.flatMap_cons

theorem wireBits_append (left right : List UInt8) : wireBits (left ++ right) = wireBits left ++ wireBits right :=
  List.flatMap_append

theorem lsbFirst_injective {left right : UInt8} (same : lsbFirst left = lsbFirst right) : left = right := by
  rw [lsbFirst, lsbFirst, List.map_inj_left] at same
  apply UInt8.toBitVec_inj.mp
  apply BitVec.eq_of_getLsbD_eq
  intro i inside
  exact same i (List.mem_range.mpr inside)

theorem lsbFirst_xor (left right : UInt8) : lsbFirst (left ^^^ right) = exor (lsbFirst left) (lsbFirst right) := by
  simp [lsbFirst, exor, List.range_succ]

theorem and_one (register : UInt8) : register &&& 1 = if Register.bit register 0 then 1 else 0 := by
  have every : ∀ bits : BitVec 8, (⟨bits⟩ : UInt8) &&& 1 = if Register.bit ⟨bits⟩ 0 then 1 else 0 := by
    decide +kernel
  exact every register.toBitVec

/-- The feedback of the loop is a step of the shift register on the reflected byte. -/
theorem lsbFirst_crcBit (crc tmp : UInt8) :
    lsbFirst (crcBit crc tmp).1 = shift taps (lsbFirst crc) (Register.bit tmp 0) := by
  have top : lsbFirst crc = Register.bit crc 0 :: (List.range 7).map (Register.bit crc ∘ Nat.succ) := by
    rw [lsbFirst, List.range_succ_eq_map, List.map_cons, List.map_map]
  rw [crcBit, and_one, Register.bit_xor, top, shift]
  by_cases feedback : Register.bit crc 0 ^^ Register.bit tmp 0
  · rw [if_pos feedback, if_pos feedback]
    simp [lsbFirst, taps, exor, List.range_succ, Register.bit]
  · rw [if_neg feedback, if_neg feedback]
    simp [lsbFirst, List.range_succ, Register.bit]

theorem bit_crcBit (crc tmp : UInt8) (i : Nat) : Register.bit (crcBit crc tmp).2 i = Register.bit tmp (i + 1) := by
  simp [crcBit, Register.bit, add_comm]

theorem lsbFirst_crcBits (rounds : Nat) (crc tmp : UInt8) :
    lsbFirst (crcBits rounds crc tmp) =
      ((List.range rounds).map (Register.bit tmp)).foldl (shift taps) (lsbFirst crc) := by
  induction rounds generalizing crc tmp with
  | zero => rfl
  | succ rounds ih =>
    have later : (List.range rounds).map (Register.bit (crcBit crc tmp).2) =
        (List.range rounds).map (Register.bit tmp ∘ Nat.succ) :=
      List.map_congr_left fun i _ => bit_crcBit crc tmp i
    rw [crcBits, ih, later, lsbFirst_crcBit, List.range_succ_eq_map, List.map_cons, List.map_map, List.foldl_cons]

theorem lsbFirst_crcLoop {buffer : List UInt8} {length : UInt8} (size : length.toNat ≤ buffer.length) (i crc : UInt8) :
    lsbFirst (crcLoop buffer length i crc) =
      (wireBits ((buffer.take length.toNat).drop i.toNat)).foldl (shift taps) (lsbFirst crc) := by
  induction i, crc using crcLoop.induct buffer length with
  | case1 i crc more ih =>
    have below := UInt8.lt_iff_toNat_lt.mp more
    have inside : i.toNat < (buffer.take length.toNat).length := by
      rw [List.length_take]
      omega
    have byte : (buffer.take length.toNat)[i.toNat] = buffer.getD i.toNat 0 := by
      rw [List.getElem_take, List.getD_eq_getElem _ _ (by omega)]
    rw [crcLoop, if_pos more, ih, toNat_succ more, List.drop_eq_getElem_cons inside, byte,
      wireBits_cons, List.foldl_append, lsbFirst_crcBits]
    rfl
  | case2 i crc done =>
    have above := UInt8.le_iff_toNat_le.mp (UInt8.not_lt.mp done)
    rw [crcLoop, if_neg done, List.drop_eq_nil_of_le (by rw [List.length_take]; omega)]
    rfl

/-- Both loops together are the shift register run on the bits as they were sent. -/
theorem lsbFirst_calculateCrc {buffer : List UInt8} {length : UInt8} (size : length.toNat ≤ buffer.length) :
    lsbFirst (calculateCrc buffer length) = register taps (wireBits (buffer.take length.toNat)) :=
  lsbFirst_crcLoop size 0 0

theorem length_wireBits (bytes : List UInt8) : (wireBits bytes).length = 8 * bytes.length :=
  RowMajor.length_flatMap fun byte _ => length_lsbFirst byte

theorem wireBits_xor {left right : List UInt8} (same : left.length = right.length) :
    wireBits (List.zipWith (· ^^^ ·) left right) = exor (wireBits left) (wireBits right) := by
  induction left generalizing right with
  | nil => rfl
  | cons byte left ih =>
    cases right with
    | nil => simp at same
    | cons other right =>
      have rest := ih (by simpa using same)
      have sizes : (lsbFirst byte).length = (lsbFirst other).length := by rw [length_lsbFirst, length_lsbFirst]
      rw [List.zipWith_cons_cons, wireBits_cons, wireBits_cons, wireBits_cons, lsbFirst_xor, rest, exor, exor, exor,
        List.zipWith_append sizes]

theorem generator_taps : generator taps = X ^ 8 + X ^ 5 + X ^ 4 + 1 := by
  simp [generator, taps, poly, bitValue]
  ring

theorem lsbFirst_calculateCrc_whole {buffer : List UInt8} {length : UInt8} (size : buffer.length = length.toNat) :
    lsbFirst (calculateCrc buffer length) = register taps (wireBits buffer) := by
  rw [lsbFirst_calculateCrc size.ge, ← size, List.take_length]

theorem calculateCrc_xor {left right : List UInt8} {length : UInt8} (sizeLeft : left.length = length.toNat)
    (sizeRight : right.length = length.toNat) :
    calculateCrc (List.zipWith (· ^^^ ·) left right) length =
      calculateCrc left length ^^^ calculateCrc right length := by
  have same : left.length = right.length := by omega
  have bits : (wireBits left).length = (wireBits right).length := by rw [length_wireBits, length_wireBits, same]
  have size : (List.zipWith (· ^^^ ·) left right).length = length.toNat := by
    rw [List.length_zipWith]
    omega
  apply lsbFirst_injective
  rw [lsbFirst_xor, lsbFirst_calculateCrc_whole size, lsbFirst_calculateCrc_whole sizeLeft,
    lsbFirst_calculateCrc_whole sizeRight, wireBits_xor same, register_exor bits]

theorem calculateCrc_zero (buffer : List UInt8) : calculateCrc buffer 0 = 0 := by
  rw [calculateCrc, crcLoop, if_neg (by decide)]

theorem calculateCrc_self {buffer : List UInt8} {length : UInt8} (size : buffer.length = length.toNat) :
    calculateCrc (buffer ++ [calculateCrc buffer length]) (length + 1) = 0 := by
  by_cases full : length = 255
  -- One more than 255 bytes is no byte for the 8-bit length.
  · rw [full]
    exact calculateCrc_zero _
  · have below : length < 255 := by
      have bound := length.toNat_lt
      have top : length.toNat ≠ 255 := fun top => full (UInt8.toNat_inj.mp top)
      rw [UInt8.lt_iff_toNat_lt]
      show length.toNat < 255
      omega
    have whole : (buffer ++ [calculateCrc buffer length]).length = (length + 1).toNat := by
      rw [List.length_append, List.length_singleton, size, toNat_succ below]
    apply lsbFirst_injective
    rw [lsbFirst_calculateCrc_whole whole, wireBits_append, wireBits_cons, lsbFirst_calculateCrc_whole size]
    show register taps (wireBits buffer ++ (register taps (wireBits buffer) ++ [])) = _
    rw [List.append_nil, register_append_register]
    rfl

theorem coeff_lsbFirst (byte : UInt8) {i : Nat} (inside : i < 8) :
    (poly (lsbFirst byte)).coeff (7 - i) = bitValue (Register.bit byte i) := by
  have here : (poly (lsbFirst byte)).coeff (7 - i) = bitValue (lsbFirst byte)[i] := coeff_poly (lsbFirst byte) i inside
  rw [here]
  simp only [lsbFirst, List.getElem_map, List.getElem_range]

theorem generator_root : (generator taps).eval 1 = 0 := by
  rw [generator_taps]
  simp only [eval_add, eval_pow, eval_X, eval_one, one_pow]
  decide

theorem generator_constant : (generator taps).coeff 0 = 1 := by
  rw [generator_taps]
  simp

def changedBits (sent received : List UInt8) : List Bool := exor (wireBits sent) (wireBits received)

theorem generator_dvd_of_accepted {message received : List UInt8} {length : UInt8}
    (size : message.length = length.toNat) (whole : received.length = length.toNat + 1)
    (accepted : calculateCrc received length = received.getD length.toNat 0) :
    generator taps ∣ poly (changedBits (message ++ [calculateCrc message length]) received) := by
  have split : received = received.take length.toNat ++ [received.getD length.toNat 0] := by
    rw [List.getD_eq_getElem _ _ (by omega), List.take_append_getElem, List.take_of_length_le (by omega)]
  have bits : (wireBits message).length = (wireBits (received.take length.toNat)).length := by
    rw [length_wireBits, length_wireBits, List.length_take]
    omega
  have check := lsbFirst_calculateCrc (show length.toNat ≤ received.length by omega)
  rw [accepted] at check
  have divides := (passes_iff_dvd bits (length_lsbFirst _)).mp check
  rw [changedBits, split, wireBits_append, wireBits_append, wireBits_cons, wireBits_cons,
    lsbFirst_calculateCrc_whole size]
  show generator taps ∣ poly (exor (wireBits message ++ (_ ++ [])) (_ ++ (_ ++ [])))
  rw [List.append_nil, List.append_nil]
  exact divides

/-- The remainder of the message, its first bit at the highest power, times `x^8`. -/
noncomputable def remainder (message : List UInt8) : (ZMod 2)[X] :=
  (poly (wireBits message) * X ^ 8) %ₘ (X ^ 8 + X ^ 5 + X ^ 4 + 1)

theorem remainder_eq {buffer : List UInt8} {length : UInt8} (size : buffer.length = length.toNat) :
    remainder buffer = poly (lsbFirst (calculateCrc buffer length)) := by
  rw [lsbFirst_calculateCrc_whole size, poly_register, generator_taps]
  rfl

/-- `onewire_calculate_crc` is division by `x^8 + x^5 + x^4 + 1`: bit `i` of the result is the coefficient of
    `x^(7-i)` of the remainder. -/
theorem calculateCrc_remainder (buffer : List UInt8) (length : UInt8) (size : buffer.length = length.toNat) :
    ((remainder buffer).degree < 8 ∧
      ∀ i < 8, (remainder buffer).coeff (7 - i) = bitValue (Register.bit (calculateCrc buffer length) i)) ∧
    (∀ other : List UInt8, other.length = length.toNat →
      calculateCrc (List.zipWith (· ^^^ ·) buffer other) length =
        calculateCrc buffer length ^^^ calculateCrc other length) ∧
    calculateCrc (buffer ++ [calculateCrc buffer length]) (length + 1) = 0 := by
  rw [remainder_eq size]
  refine ⟨⟨degree_poly_lt _, ?_⟩, ?_, calculateCrc_self size⟩
  · intro i inside
    exact coeff_lsbFirst _ inside
  · intro other sizeOther
    exact calculateCrc_xor size sizeOther

theorem calculateCrc_remainder_two_bytes :
    (remainder [0x28, 0x81]).coeff 7 = bitValue (Register.bit (calculateCrc [0x28, 0x81] 2) 0) ∧
      calculateCrc [0x28, 0x81, calculateCrc [0x28, 0x81] 2] 3 = 0 :=
  have whole := calculateCrc_remainder [0x28, 0x81] 2 rfl
  ⟨whole.1.2 0 (by decide), whole.2.2⟩

/-- A string that differs from the one sent by an odd number of bits or within eight of them fails the
    comparison of `onewire_calculate_crc` with the check byte received. -/
theorem crc_detects_errors (message received : List UInt8) (length : UInt8) (size : message.length = length.toNat)
    (whole : received.length = length.toNat + 1)
    (error : Odd ((changedBits (message ++ [calculateCrc message length]) received).count true) ∨
      Burst 8 (changedBits (message ++ [calculateCrc message length]) received)) :
    calculateCrc received length ≠ received.getD length.toNat 0 := by
  intro accepted
  have divides := generator_dvd_of_accepted size whole accepted
  rcases error with odd | burst
  · exact not_dvd_of_odd generator_root odd divides
  · exact not_dvd_of_burst generator_constant burst divides

theorem crc_detects_errors_border :
    changedBits ([0x28, 0x81] ++ [calculateCrc [0x28, 0x81] 2]) [0x28, 0x01, 0x64] =
        List.replicate 15 false ++ [true, true] ++ List.replicate 7 false ∧
      calculateCrc [0x28, 0x01, 0x64] 2 ≠ 0x64 :=
  have changed : changedBits ([0x28, 0x81] ++ [calculateCrc [0x28, 0x81] 2]) [0x28, 0x01, 0x64] =
      List.replicate 15 false ++ [true, true] ++ List.replicate 7 false := by decide +kernel
  ⟨changed, crc_detects_errors [0x28, 0x81] [0x28, 0x01, 0x64] 2 rfl rfl (.inr (changed ▸ ⟨by decide, 15, by decide⟩))⟩

end Minimus32.OneWire
