import Mathlib.Data.Nat.Bitwise
import Mathlib.Data.List.GetD

namespace BitPacking

/-- The byte whose first `n` bits are those of `bits`, in the order of their places. -/
def byte (place : Nat → Nat) (bits : Nat → Bool) : Nat → Nat
  | 0 => 0
  | n + 1 => byte place bits n ||| if bits n then 2 ^ place n else 0

/-- No two bits of a byte have the same place. -/
def Distinct (place : Nat → Nat) : Prop := ∀ i j, i < 8 → j < 8 → place i = place j → i = j

/-- The most significant bit first. -/
def high (j : Nat) : Nat := 7 - j

theorem high_distinct : Distinct high := by
  intro i j first second same
  unfold high at same
  omega

theorem id_distinct : Distinct id := fun _ _ _ _ same => same

theorem testBit_byte {place : Nat → Nat} (distinct : Distinct place) (bits : Nat → Bool) {n j : Nat} (bound : n ≤ 8)
    (inside : j < 8) : (byte place bits n).testBit (place j) = (decide (j < n) && bits j) := by
  induction n with
  | zero => simp [byte]
  | succ n ih =>
    rw [byte, Nat.testBit_or, ih (by omega)]
    by_cases here : j = n
    · rw [here]
      cases bits n with
      | false => simp
      | true => simp [Nat.testBit_two_pow_self]
    · have apart : place n ≠ place j := fun same => here (distinct j n inside (by omega) same.symm)
      have unset : (if bits n then 2 ^ place n else 0).testBit (place j) = false := by
        split
        · exact Nat.testBit_two_pow_of_ne apart
        · exact Nat.zero_testBit _
      have same : (j < n + 1) = (j < n) := by
        apply propext
        omega
      rw [unset, Bool.or_false]
      simp [same]

/-- The bytes completed so far, and how many bits the next one has already. -/
structure Packer where
  bytes : List Nat
  count : Nat
  byte : Nat

def Packer.push (place : Nat → Nat) (p : Packer) (bit : Bool) : Packer :=
  if p.count + 1 = 8 then ⟨p.bytes ++ [p.byte ||| if bit then 2 ^ place p.count else 0], 0, 0⟩
  else ⟨p.bytes, p.count + 1, p.byte ||| if bit then 2 ^ place p.count else 0⟩

theorem Packer.count_push (place : Nat → Nat) (p : Packer) (bit : Bool) (small : p.count < 8) :
    (p.push place bit).count < 8 := by
  unfold Packer.push
  split
  · exact Nat.zero_lt_succ 7
  · show p.count + 1 < 8
    omega

/-- The bytes of the bits before `len`, from byte `done` on; the last is filled up with zeros. -/
def chunk (place : Nat → Nat) (bits : Nat → Bool) (done len : Nat) : List Nat :=
  ((List.range' done (len / 8 - done)).map fun k => byte place (fun j => bits (8 * k + j)) 8) ++
    if len % 8 ≠ 0 then [byte place (fun j => bits (8 * (len / 8) + j)) (len % 8)] else []

section

variable {place : Nat → Nat} {bits : Nat → Bool} {done len : Nat}

variable (place bits done len) in
/-- The packer has taken the bits before `len`, and its bytes before `done` are gone. -/
structure Packer.Holds (p : Packer) : Prop where
  count : p.count = len % 8
  byte : p.byte = BitPacking.byte place (fun j => bits (8 * (len / 8) + j)) (len % 8)
  bytes : p.bytes = (List.range' done (len / 8 - done)).map fun k => BitPacking.byte place (fun j => bits (8 * k + j)) 8
  bound : done ≤ len / 8

theorem Packer.Holds.push {p : Packer} (holds : p.Holds place bits done len) :
    (p.push place (bits len)).Holds place bits done (len + 1) := by
  have bound := holds.bound
  have whole : 8 * (len / 8) + len % 8 = len := Nat.div_add_mod len 8
  have next : p.byte ||| (if bits len then 2 ^ place p.count else 0) =
      BitPacking.byte place (fun j => bits (8 * (len / 8) + j)) (len % 8 + 1) := by
    rw [BitPacking.byte, whole, holds.byte, holds.count]
  unfold Packer.push
  rw [next, holds.count]
  split
  · rename_i full
    have later : (len + 1) / 8 - done = len / 8 - done + 1 := by omega
    constructor
    · show 0 = (len + 1) % 8
      omega
    · rw [show (len + 1) % 8 = 0 by omega]
      rfl
    · rw [later, List.range'_1_concat, List.map_append, ← holds.bytes, full,
        show done + (len / 8 - done) = len / 8 by omega]
      rfl
    · omega
  · rename_i more
    have same : (len + 1) / 8 = len / 8 := by omega
    have counted : (len + 1) % 8 = len % 8 + 1 := by omega
    constructor
    · exact counted.symm
    · rw [same, counted]
    · rw [same]
      exact holds.bytes
    · rw [same]
      exact bound

theorem Packer.Holds.pushAll {p : Packer} (holds : p.Holds place bits done len) (n : Nat) :
    (((List.range' len n).map bits).foldl (Packer.push place) p).Holds place bits done (len + n) := by
  induction n generalizing p len with
  | zero => exact holds
  | succ n ih =>
    rw [List.range'_succ, List.map_cons, List.foldl_cons, show len + (n + 1) = len + 1 + n by omega]
    exact ih holds.push

theorem Packer.Holds.chunk {p : Packer} (holds : p.Holds place bits done len) :
    (p.bytes ++ if p.count ≠ 0 then [p.byte] else []) = BitPacking.chunk place bits done len := by
  rw [holds.bytes, holds.count, holds.byte]
  rfl

theorem Packer.Holds.taken {p : Packer} (holds : p.Holds place bits done len) :
    Packer.Holds place bits (len / 8) len ⟨[], p.count, p.byte⟩ where
  count := holds.count
  byte := holds.byte
  bytes := by
    rw [Nat.sub_self]
    rfl
  bound := Nat.le_refl _

variable (place bits) in
theorem length_chunk (bound : done ≤ len / 8) : (chunk place bits done len).length = (len + 7) / 8 - done := by
  rw [chunk, List.length_append, List.length_map, List.length_range']
  split
  · rw [List.length_singleton]
    omega
  · rw [List.length_nil]
    omega

variable (bits done len) in
/-- Bit `q` of them all, by its byte and its place in it. -/
theorem bit_chunk (distinct : Distinct place) {q : Nat} (first : 8 * done ≤ q) (last : q < len) :
    ∃ value, (chunk place bits done len)[q / 8 - done]? = some value ∧
      value.testBit (place (q % 8)) = bits q := by
  have inside : q % 8 < 8 := Nat.mod_lt q (by decide)
  have whole : 8 * (q / 8) + q % 8 = q := Nat.div_add_mod q 8
  unfold chunk
  by_cases complete : q / 8 < len / 8
  · refine ⟨byte place (fun j => bits (8 * (q / 8) + j)) 8, ?_, ?_⟩
    · rw [List.getElem?_append_left (by simp; omega), List.getElem?_map, List.getElem?_range' (by omega), Nat.one_mul,
        show done + (q / 8 - done) = q / 8 by omega]
      rfl
    · rw [testBit_byte distinct _ (Nat.le_refl 8) inside, whole]
      simp [inside]
  · have same : q / 8 = len / 8 := by omega
    refine ⟨byte place (fun j => bits (8 * (len / 8) + j)) (len % 8), ?_, ?_⟩
    · rw [if_pos (by omega), same, List.getElem?_append_right (by simp)]
      simp
    · rw [testBit_byte distinct _ (by omega) inside, ← same, whole]
      simp
      omega

end

section

variable (rows : Nat → List Bool) {size : Nat}

variable (size) in
/-- Rows of one size, one after another. -/
def stream (k : Nat) : Bool := (rows (k / size)).getD (k % size) false

theorem stream_add (i : Nat) {p : Nat} (inside : p < size) :
    stream rows size (i * size + p) = (rows i).getD p false := by
  have positive : 0 < size := Nat.zero_lt_of_lt inside
  rw [stream, Nat.mul_comm, Nat.mul_add_div positive, Nat.div_eq_of_lt inside, Nat.add_zero, Nat.mul_add_mod,
    Nat.mod_eq_of_lt inside]

variable {rows} in
theorem map_stream {i : Nat} (length : (rows i).length = size) :
    (List.range' (i * size) size).map (stream rows size) = rows i := by
  apply List.ext_getElem
  · rw [List.length_map, List.length_range', length]
  · intro p inside within
    rw [List.getElem_map, List.getElem_range', Nat.one_mul, stream_add rows i (by rwa [← length]),
      List.getD_eq_getElem _ _ within]

end

end BitPacking
