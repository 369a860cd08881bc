import Minimus32.Library.Register

namespace BitFrame

def shiftIn (byte : UInt8) (bit : Bool) : UInt8 := byte <<< 1 ||| if bit then 1 else 0

/-- The byte a run of bits makes, most significant bit first. -/
def byteOf (bits : List Bool) : UInt8 := bits.foldl shiftIn 0

def bitsOf (byte : UInt8) : List Bool := [7, 6, 5, 4, 3, 2, 1, 0].map (Register.bit byte)

/-- The bits of byte `j` among those that have arrived. -/
def chunk (j : Nat) (bits : List Bool) : List Bool := (bits.drop (8 * j)).take 8

theorem byteOf_append (bits : List Bool) (bit : Bool) : byteOf (bits ++ [bit]) = shiftIn (byteOf bits) bit := by
  simp [byteOf]

theorem byteOf_bitsOf (byte : UInt8) : byteOf (bitsOf byte) = byte := by
  have every : ∀ bits : BitVec 8, byteOf (bitsOf ⟨bits⟩) = ⟨bits⟩ := by decide +kernel
  exact every byte.toBitVec

theorem chunk_append {bits : List Bool} {j : Nat} (bit : Bool) (here : j = bits.length / 8) :
    chunk j (bits ++ [bit]) = chunk j bits ++ [bit] := by
  have few : (bits.drop (8 * j)).length + 1 ≤ 8 := by
    rw [List.length_drop]
    omega
  rw [chunk, chunk, List.drop_append_of_le_length (by omega), List.take_of_length_le (by simpa using few),
    List.take_of_length_le (by omega)]

theorem chunk_append_of_ne {bits : List Bool} {j : Nat} (bit : Bool) (other : j ≠ bits.length / 8) :
    chunk j (bits ++ [bit]) = chunk j bits := by
  rcases Nat.lt_or_gt_of_ne other with earlier | later
  · rw [chunk, chunk, List.drop_append_of_le_length (by omega), List.take_append_of_le_length]
    rw [List.length_drop]
    omega
  · rw [chunk, chunk, List.drop_eq_nil_of_le (by simp; omega), List.drop_eq_nil_of_le (by omega)]

theorem chunk_flatMap (bytes : List UInt8) {j : Nat} (inside : j < bytes.length) :
    chunk j (bytes.flatMap bitsOf) = bitsOf bytes[j] := by
  induction bytes generalizing j with
  | nil => simp at inside
  | cons byte bytes ih =>
    cases j with
    | zero => rfl
    | succ j =>
      have rest := ih (j := j) (by simpa using inside)
      exact rest

end BitFrame
