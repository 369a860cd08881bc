import Minimus32.Library.Numeral
import Minimus32.Library.Store

namespace Minimus32.IntPrint

open Numeral Store

/-- A loop that writes digits, the lowest one first and each in front of the one before, and what it leaves of the
    value. -/
def printDown : Nat → Nat → Int → Memory UInt8 → Nat × Memory UInt8
  | 0, value, _, m => (value, m)
  | n + 1, value, buffer, m => printDown n (value / 10) (buffer - 1) (m.write buffer (character (value % 10)))

def uint8Print (value length : UInt8) (buffer : Int) (m : Memory UInt8) : Memory UInt8 :=
  let m := m.write (buffer + length.toNat) 0
  (printDown length.toNat value.toNat (buffer + ((length.toNat : Int) - 1)) m).2

def uint16PrintDecimal (value : UInt16) (decimals : UInt8) (buffer : Int) (m : Memory UInt8) : Memory UInt8 :=
  let decimals := if decimals > 5 then 5 else decimals
  let digets := 5 - decimals
  let (value, m) := printDown decimals.toNat value.toNat (buffer + 5) m
  let m := m.write (buffer + (5 - (decimals.toNat : Int))) point
  (printDown digets.toNat value (buffer + (5 - (decimals.toNat : Int) - 1)) m).2

def cross : UInt8 := 88

def uint16PrintDecimalNull (value : UInt16) (decimals : UInt8) (buffer : Int) (m : Memory UInt8) : Memory UInt8 :=
  let m := (((((m.write buffer cross).write (buffer + 1) cross).write (buffer + 2) cross).write
    (buffer + 3) cross).write (buffer + 4) cross).write (buffer + 5) cross
  (uint16PrintDecimal value decimals buffer m).write (buffer + 6) 0

/-- The `while` loop of `replaceLeadingZerosN`, with the pointer and the count it leaves. -/
def blankLoop (n : UInt8) : Nat → Int → UInt8 → Memory UInt8 → Option (Int × UInt8 × Memory UInt8)
  | 0, _, _, _ => none
  | fuel + 1, buffer, count, m =>
    let m := m.read buffer
    if m.cell buffer = zero then
      let m := m.write buffer blank
      let buffer := buffer + 1
      let count := count + 1
      if n ≠ 0 ∧ count ≥ n then some (buffer, count, m) else blankLoop n fuel buffer count m
    else some (buffer, count, m)

def replaceLeadingZerosN (fuel : Nat) (buffer : Int) (n : UInt8) (m : Memory UInt8) : Option (Memory UInt8) :=
  (blankLoop n fuel buffer 0 m).map fun (buffer, count, m) =>
    if n ≠ 0 ∧ count ≥ n then m.write (buffer - 1) zero
    else
      let m := m.read buffer
      if (m.cell buffer > nine ∨ m.cell buffer < zero) ∧ count > 0 then m.write (buffer - 1) zero else m

def replaceLeadingZeros (fuel : Nat) (buffer : Int) (m : Memory UInt8) : Option (Memory UInt8) :=
  replaceLeadingZerosN fuel buffer 0 m

theorem printDown_fst (n value : Nat) (buffer : Int) (m : Memory UInt8) :
    (printDown n value buffer m).1 = value / 10 ^ n := by
  induction n generalizing value buffer m with
  | zero =>
    rw [pow_zero, Nat.div_one]
    rfl
  | succ n ih => rw [printDown, ih, Nat.div_div_eq_div_mul, pow_succ']

theorem printDown_stored (n value : Nat) (buffer : Int) (m : Memory UInt8) :
    m.Stored (buffer + 1 - n) (lowDigits n value) (printDown n value buffer m).2 := by
  induction n generalizing value buffer m with
  | zero => exact m.stored_nil _
  | succ n ih =>
    have last := m.stored_write buffer (character (value % 10))
    have higher := ih (value / 10) (buffer - 1) (m.write buffer (character (value % 10)))
    have place : buffer - 1 + 1 - n = buffer + 1 - (n + 1 : Nat) := by omega
    rw [place] at higher
    refine Memory.Stored.before ?_ higher
    rw [length_lowDigits, show buffer + 1 - ((n + 1 : Nat) : Int) + n = buffer by omega]
    exact last

/-- The digits of a value, with a point before the last `decimals` of them. -/
def decimalText (value decimals : Nat) : List UInt8 :=
  lowDigits (5 - decimals) (value / 10 ^ decimals) ++ point :: lowDigits decimals value

theorem clamped (decimals : UInt8) : (if decimals > 5 then 5 else decimals).toNat = min decimals.toNat 5 := by
  by_cases above : decimals > 5
  · have more : 5 < decimals.toNat := UInt8.lt_iff_toNat_lt.mp above
    rw [if_pos above]
    show 5 = _
    omega
  · have less : decimals.toNat ≤ 5 := UInt8.le_iff_toNat_le.mp (UInt8.not_lt.mp above)
    rw [if_neg above]
    omega

theorem length_decimalText (value : Nat) {decimals : Nat} (small : decimals ≤ 5) :
    (decimalText value decimals).length = 6 := by
  rw [decimalText, List.length_append, List.length_cons, length_lowDigits, length_lowDigits]
  omega

theorem uint16PrintDecimal_stored (value : UInt16) (decimals : UInt8) (buffer : Int) (m : Memory UInt8) :
    m.Stored buffer (decimalText value.toNat (min decimals.toNat 5)) (uint16PrintDecimal value decimals buffer m) := by
  have places := clamped decimals
  have left : (5 - if decimals > 5 then 5 else decimals).toNat = 5 - min decimals.toNat 5 := by
    rw [UInt8.toNat_sub_of_le _ _ (UInt8.le_iff_toNat_le.mpr (by rw [places]; exact Nat.min_le_right _ _)), places]
    rfl
  unfold uint16PrintDecimal
  dsimp only
  rw [left, places, printDown_fst]
  generalize count : min decimals.toNat 5 = d
  have small : d ≤ 5 := by omega
  have fraction := printDown_stored d value.toNat (buffer + 5) m
  rw [show buffer + 5 + 1 - (d : Int) = buffer + (5 - (d : Int)) + (1 : Nat) by omega] at fraction
  have pointed : m.Stored (buffer + (5 - (d : Int))) ([point] ++ lowDigits d value.toNat) _ :=
    Memory.Stored.before fraction (Memory.stored_write _ _ _)
  have whole := printDown_stored (5 - d) (value.toNat / 10 ^ d) (buffer + (5 - (d : Int) - 1))
    ((printDown d value.toNat (buffer + 5) m).2.write (buffer + (5 - (d : Int))) point)
  rw [show buffer + (5 - (d : Int) - 1) + 1 - (5 - d : Nat) = buffer by omega] at whole
  refine Memory.Stored.before ?_ whole
  rw [length_lowDigits, show buffer + ((5 - d : Nat) : Int) = buffer + (5 - (d : Int)) by omega]
  exact pointed

theorem uint16PrintDecimalNull_stored (value : UInt16) (decimals : UInt8) (buffer : Int) (m : Memory UInt8) :
    m.Stored buffer (decimalText value.toNat (min decimals.toNat 5) ++ [0])
      (uint16PrintDecimalNull value decimals buffer m) := by
  have size := length_decimalText value.toNat (Nat.min_le_right decimals.toNat 5)
  have crosses := (((((m.stored_write buffer cross).behind (Memory.stored_write _ (buffer + 1) cross)).behind
    (Memory.stored_write _ (buffer + 2) cross)).behind (Memory.stored_write _ (buffer + 3) cross)).behind
    (Memory.stored_write _ (buffer + 4) cross)).behind (Memory.stored_write _ (buffer + 5) cross)
  have covered := crosses.cover (uint16PrintDecimal_stored value decimals buffer _) size.symm
  refine Memory.Stored.behind covered ?_
  rw [size]
  exact Memory.stored_write _ _ _

theorem uint8Print_stored (value length : UInt8) (buffer : Int) (m : Memory UInt8) :
    m.Stored buffer (lowDigits length.toNat value.toNat ++ [0]) (uint8Print value length buffer m) := by
  have digits := printDown_stored length.toNat value.toNat (buffer + ((length.toNat : Int) - 1))
    (m.write (buffer + length.toNat) 0)
  rw [show buffer + ((length.toNat : Int) - 1) + 1 - length.toNat = buffer by omega] at digits
  refine Memory.Stored.before ?_ digits
  rw [length_lowDigits]
  exact m.stored_write _ _

/-- What the loop does to `k` zeros: it blanks them, and has read nothing but them and what is up to `limit`. -/
structure Blanked (m : Memory UInt8) (buffer : Int) (k limit : Nat) (after : Memory UInt8) : Prop where
  stored : m.Stored buffer (List.replicate k blank) after
  reads : ∀ i ∈ after.reads, i ∈ m.reads ∨ buffer ≤ i ∧ i < buffer + limit

theorem Blanked.cons {m after : Memory UInt8} {buffer : Int} {k limit : Nat}
    (later : Blanked ((m.read buffer).write buffer blank) (buffer + 1) k limit after) :
    Blanked m buffer (k + 1) (limit + 1) after := by
  constructor
  · exact ((m.read buffer).stored_write buffer blank).behind later.stored |>.of_read
  · intro i member
    rcases later.reads i member with earlier | inside
    · rcases List.mem_append.mp earlier with old | new
      · exact .inl old
      · rw [List.mem_singleton.mp new]
        omega
    · omega

section

variable {n : UInt8} {k : Nat}

theorem zeros_cons {m : Memory UInt8} {buffer : Int} (zeros : ∀ i < k + 1, m.cell (buffer + (i : Nat)) = zero) :
    (m.read buffer).cell buffer = zero ∧
      ∀ i < k, ((m.read buffer).write buffer blank).cell (buffer + 1 + (i : Nat)) = zero := by
  constructor
  · have first := zeros 0 (by omega)
    rwa [Int.natCast_zero, Int.add_zero] at first
  · intro i inside
    have next := zeros (i + 1) (by omega)
    rw [Int.natCast_succ, Int.add_comm (i : Int), ← Int.add_assoc] at next
    rw [← next]
    exact Function.update_of_ne (by omega) _ _

theorem add_ofNat_succ (k : Nat) (count : UInt8) :
    count + 1 + UInt8.ofNat k = count + UInt8.ofNat (k + 1) := by
  rw [Nat.add_comm k, UInt8.ofNat_add, UInt8.add_assoc]
  rfl

theorem toNat_succ {count : UInt8} (below : count.toNat + 1 < 256) : (count + 1).toNat = count.toNat + 1 := by
  rw [UInt8.toNat_add, show (1 : UInt8).toNat = 1 from rfl, Nat.mod_eq_of_lt below]

theorem not_limit {count : UInt8} (room : n = 0 ∨ count.toNat + 1 < n.toNat) : ¬ (n ≠ 0 ∧ count + 1 ≥ n) := by
  rintro ⟨limited, reached⟩
  have inside := room.resolve_left limited
  have small := n.toNat_lt
  have sum := UInt8.le_iff_toNat_le.mp reached
  rw [toNat_succ (by omega)] at sum
  omega

/-- The loop comes to another character before the limit. -/
theorem blankLoop_stop {m : Memory UInt8} {buffer : Int} {count : UInt8} {fuel : Nat}
    (zeros : ∀ i < k, m.cell (buffer + (i : Nat)) = zero) (stop : m.cell (buffer + k) ≠ zero)
    (room : n = 0 ∨ count.toNat + k < n.toNat) (enough : k < fuel) :
    ∃ after, blankLoop n fuel buffer count m = some (buffer + k, count + UInt8.ofNat k, after) ∧
      Blanked m buffer k (k + 1) after := by
  induction k generalizing m buffer count fuel with
  | zero =>
    obtain ⟨fuel, rfl⟩ := Nat.exists_eq_add_of_lt enough
    rw [Int.natCast_zero, Int.add_zero] at stop
    refine ⟨m.read buffer, ?_, (m.stored_nil buffer).read buffer, ?_⟩
    · rw [blankLoop]
      simp [Memory.read, stop]
    · intro i member
      rcases List.mem_append.mp member with old | new
      · exact .inl old
      · rw [List.mem_singleton.mp new]
        omega
  | succ k ih =>
    obtain ⟨fuel, rfl⟩ : ∃ less, fuel = less + 1 := ⟨fuel - 1, by omega⟩
    obtain ⟨first, later⟩ := zeros_cons zeros
    have more : ¬ (n ≠ 0 ∧ count + 1 ≥ n) := not_limit (room.imp_right fun room => by omega)
    have small := n.toNat_lt
    have counted : n = 0 ∨ (count + 1).toNat + k < n.toNat := by
      apply room.imp_right
      intro room
      rw [toNat_succ (by omega)]
      omega
    have place : buffer + ((k + 1 : Nat) : Int) = buffer + 1 + k := by omega
    rw [place] at stop ⊢
    have other : ((m.read buffer).write buffer blank).cell (buffer + 1 + k) ≠ zero := by
      intro same
      exact stop ((Function.update_of_ne (by omega) _ _).symm.trans same)
    obtain ⟨after, done, blanked⟩ := ih later other counted (Nat.lt_of_succ_lt_succ enough)
    refine ⟨after, ?_, blanked.cons⟩
    rw [blankLoop]
    dsimp only
    rw [if_pos first, if_neg more, done, add_ofNat_succ]

/-- The loop comes to the limit. -/
theorem blankLoop_full {m : Memory UInt8} {buffer : Int} {count : UInt8} {fuel : Nat}
    (zeros : ∀ i < k + 1, m.cell (buffer + (i : Nat)) = zero) (limit : count.toNat + (k + 1) = n.toNat)
    (enough : k < fuel) :
    ∃ after, blankLoop n fuel buffer count m = some (buffer + (k + 1 : Nat), n, after) ∧
      Blanked m buffer (k + 1) (k + 1) after := by
  induction k generalizing m buffer count fuel with
  | zero =>
    obtain ⟨fuel, rfl⟩ := Nat.exists_eq_add_of_lt enough
    obtain ⟨first, -⟩ := zeros_cons zeros
    have limited : n ≠ 0 := by
      rintro rfl
      exact absurd limit (Nat.succ_ne_zero _)
    have last : count + 1 = n := by
      have bound := n.toNat_lt
      rw [← UInt8.toNat_inj, toNat_succ (by omega)]
      omega
    refine ⟨(m.read buffer).write buffer blank, ?_, Blanked.cons ⟨Memory.stored_nil _ _, fun i member => .inl member⟩⟩
    rw [blankLoop]
    dsimp only
    rw [if_pos first, last, if_pos ⟨limited, UInt8.le_refl n⟩]
    rfl
  | succ k ih =>
    obtain ⟨fuel, rfl⟩ : ∃ less, fuel = less + 1 := ⟨fuel - 1, by omega⟩
    obtain ⟨first, later⟩ := zeros_cons zeros
    have bound := n.toNat_lt
    have more : ¬ (n ≠ 0 ∧ count + 1 ≥ n) := not_limit (.inr (by omega))
    have counted : (count + 1).toNat + (k + 1) = n.toNat := by
      rw [toNat_succ (by omega)]
      omega
    obtain ⟨after, done, blanked⟩ := ih later counted (Nat.lt_of_succ_lt_succ enough)
    refine ⟨after, ?_, blanked.cons⟩
    rw [blankLoop]
    dsimp only
    rw [if_pos first, if_neg more, done, show buffer + ((k + 1 + 1 : Nat) : Int) = buffer + 1 + (k + 1 : Nat) by omega]

end

/-- The buffer holds `k` zeros and another text, up to a NUL character or to its length. -/
structure Padded (m : Memory UInt8) (buffer : Int) (k : Nat) (rest : List UInt8) (n : UInt8) : Prop where
  held : m.text buffer (k + rest.length) = List.replicate k zero ++ rest
  starts : rest.head? ≠ some zero
  ended : if n = 0 then 0 ∉ rest ∧ m.cell (buffer + (k + rest.length : Nat)) = 0 else n.toNat = k + rest.length

/-- The size of the buffer, with the NUL character if there is one. -/
def extent (k : Nat) (rest : List UInt8) (n : UInt8) : Nat := k + rest.length + if n = 0 then 1 else 0

namespace Padded

variable {m : Memory UInt8} {buffer : Int} {k : Nat} {rest : List UInt8} {n : UInt8}

theorem zeros (padded : Padded m buffer k rest n) : ∀ i < k, m.cell (buffer + (i : Nat)) = zero := by
  intro i inside
  have found := m.getElem?_text buffer (show i < k + rest.length by omega)
  rw [padded.held, List.getElem?_append_left (by rw [List.length_replicate]; exact inside),
    List.getElem?_replicate_of_lt inside] at found
  exact (Option.some.inj found).symm

theorem behind (padded : Padded m buffer k rest n) (room : n = 0 ∨ k < n.toNat) :
    m.cell (buffer + k) ≠ zero ∧ (IsDigit (m.cell (buffer + k)) ↔ StartsDigit rest) := by
  have ended := padded.ended
  cases rest with
  | nil =>
    split at ended
    · have last : m.cell (buffer + k) = 0 := ended.2
      rw [last]
      exact ⟨by decide, by decide⟩
    · rename_i limited
      have below := room.resolve_left limited
      rw [List.length_nil] at ended
      omega
  | cons c rest =>
    have found := m.getElem?_text buffer (show k < k + (c :: rest).length by rw [List.length_cons]; omega)
    rw [padded.held, List.getElem?_append_right (by rw [List.length_replicate]), List.length_replicate,
      Nat.sub_self] at found
    rw [← Option.some.inj found]
    refine ⟨?_, Iff.rfl⟩
    rintro rfl
    exact padded.starts rfl

theorem full_or_room (padded : Padded m buffer k rest n) :
    n ≠ 0 ∧ k = n.toNat ∧ rest = [] ∨ (n = 0 ∨ k < n.toNat) ∧ k < extent k rest n := by
  have ended := padded.ended
  rw [extent]
  split at ended
  · rename_i unlimited
    rw [if_pos unlimited]
    exact .inr ⟨.inl unlimited, by omega⟩
  · rename_i limited
    rw [if_neg limited]
    by_cases empty : rest = []
    · subst empty
      exact .inl ⟨limited, ended.symm, rfl⟩
    · have some := List.length_pos_iff.mpr empty
      exact .inr ⟨.inr (by omega), by omega⟩

end Padded

theorem not_isDigit_iff (c : UInt8) : ¬ IsDigit c ↔ c > nine ∨ c < zero := by
  rw [IsDigit, Classical.not_and_iff_not_or_not, UInt8.not_le, UInt8.not_le, or_comm]

theorem ofNat_pos_iff (k : Nat) : UInt8.ofNat k > 0 ↔ k % 256 ≠ 0 := by
  show 0 < UInt8.ofNat k ↔ _
  rw [UInt8.lt_iff_toNat_lt, UInt8.toNat_ofNat']
  exact Nat.pos_iff_ne_zero

/-- Whether the last of the zeros is put back. -/
def Restored (k : Nat) (rest : List UInt8) (n : UInt8) : Prop :=
  ¬ StartsDigit rest ∧ k ≠ 0 ∧ (n = 0 → k % 256 ≠ 0)

instance (k : Nat) (rest : List UInt8) (n : UInt8) : Decidable (Restored k rest n) :=
  inferInstanceAs (Decidable (_ ∧ _))

/-- What the zeros have become. -/
def leading (k : Nat) (restored : Prop) [Decidable restored] : List UInt8 :=
  if restored then List.replicate (k - 1) blank ++ [zero] else List.replicate k blank

theorem length_leading {k : Nat} {restored : Prop} [Decidable restored] (some : restored → k ≠ 0) :
    (leading k restored).length = k := by
  rw [leading]
  split
  · rename_i yes
    have positive := some yes
    rw [List.length_append, List.length_replicate, List.length_singleton]
    omega
  · exact List.length_replicate

theorem stored_restore {m after : Memory UInt8} {buffer : Int} {k : Nat} (some : k ≠ 0)
    (stored : m.Stored buffer (List.replicate k blank) after) :
    m.Stored buffer (List.replicate (k - 1) blank ++ [zero]) (after.write (buffer + k - 1) zero) := by
  obtain ⟨k, rfl⟩ := Nat.exists_eq_succ_of_ne_zero some
  rw [List.replicate_succ'] at stored
  refine stored.onto ?_ rfl
  rw [List.length_replicate, show buffer + ((k + 1 : Nat) : Int) - 1 = buffer + k by omega]
  exact Memory.stored_write _ _ _

section

variable {m : Memory UInt8} {buffer : Int} {k : Nat} {rest : List UInt8} {n : UInt8} {fuel : Nat}

/-- The buffer has nothing but zeros up to its length. -/
theorem replaceLeadingZerosN_full (zeros : ∀ i < k, m.cell (buffer + (i : Nat)) = zero) (limited : n ≠ 0)
    (all : k = n.toNat) (enough : k < fuel) :
    ∃ after, replaceLeadingZerosN fuel buffer n m = some after ∧
      m.Stored buffer (List.replicate (k - 1) blank ++ [zero]) after ∧
      ∀ i ∈ after.reads, i ∈ m.reads ∨ buffer ≤ i ∧ i < buffer + k := by
  obtain ⟨k, rfl⟩ : ∃ less, k = less + 1 := by
    refine Nat.exists_eq_succ_of_ne_zero fun none => limited ?_
    rw [← UInt8.toNat_inj, ← all, none]
    rfl
  obtain ⟨after, done, blanked⟩ := blankLoop_full zeros
    (show (0 : UInt8).toNat + _ = _ by rw [← all]; exact Nat.zero_add _) (Nat.lt_of_succ_lt enough)
  refine ⟨after.write (buffer + (k + 1 : Nat) - 1) zero, ?_, ?_, blanked.reads⟩
  · rw [replaceLeadingZerosN, done, Option.map_some]
    dsimp only
    rw [if_pos ⟨limited, UInt8.le_refl n⟩]
  · exact stored_restore (Nat.succ_ne_zero k) blanked.stored

/-- The condition behind the loop, when that has come to another character. -/
theorem Padded.restores_iff (padded : Padded m buffer k rest n) (room : n = 0 ∨ k < n.toNat) :
    (m.cell (buffer + k) > nine ∨ m.cell (buffer + k) < zero) ∧ UInt8.ofNat k > 0 ↔ Restored k rest n := by
  have bound := n.toNat_lt
  rw [← not_isDigit_iff, (padded.behind room).2, ofNat_pos_iff, Restored]
  apply and_congr_right
  intro ended
  rcases room with unlimited | small
  · constructor
    · intro left
      refine ⟨?_, fun _ => left⟩
      rintro rfl
      exact left rfl
    · intro both
      exact both.2 unlimited
  · rw [Nat.mod_eq_of_lt (by omega)]
    exact ⟨fun left => ⟨left, fun _ => left⟩, And.left⟩

theorem replaceLeadingZerosN_room (padded : Padded m buffer k rest n) (room : n = 0 ∨ k < n.toNat)
    (enough : k < fuel) :
    ∃ after, replaceLeadingZerosN fuel buffer n m = some after ∧
      m.Stored buffer (leading k (Restored k rest n)) after ∧
      ∀ i ∈ after.reads, i ∈ m.reads ∨ buffer ≤ i ∧ i < buffer + (k + 1 : Nat) := by
  have bound := n.toNat_lt
  obtain ⟨after, done, blanked⟩ := blankLoop_stop padded.zeros (padded.behind room).1
    (room.imp_right fun room => show (0 : UInt8).toNat + k < n.toNat from (Nat.zero_add k).symm ▸ room) enough
  rw [UInt8.zero_add] at done
  have below : ¬ (n ≠ 0 ∧ UInt8.ofNat k ≥ n) := by
    rintro ⟨limited, reached⟩
    have small := room.resolve_left limited
    have sum := UInt8.le_iff_toNat_le.mp reached
    rw [UInt8.toNat_ofNat', Nat.mod_eq_of_lt (by omega)] at sum
    omega
  have next : (after.read (buffer + k)).cell (buffer + k) = m.cell (buffer + k) :=
    blanked.stored.outside _ (.inr (by rw [List.length_replicate]))
  have restores := padded.restores_iff room
  have reads : ∀ i ∈ (after.read (buffer + k)).reads, i ∈ m.reads ∨ buffer ≤ i ∧ i < buffer + (k + 1 : Nat) := by
    intro i member
    rcases List.mem_append.mp member with earlier | new
    · exact blanked.reads i earlier
    · rw [List.mem_singleton.mp new]
      exact .inr (by omega)
  by_cases kept : Restored k rest n
  · refine ⟨(after.read (buffer + k)).write (buffer + k - 1) zero, ?_, ?_, reads⟩
    · rw [replaceLeadingZerosN, done, Option.map_some]
      dsimp only
      rw [if_neg below, next, if_pos (restores.mpr kept)]
    · rw [leading, if_pos kept]
      exact stored_restore kept.2.1 (blanked.stored.read _)
  · refine ⟨after.read (buffer + k), ?_, ?_, reads⟩
    · rw [replaceLeadingZerosN, done, Option.map_some]
      dsimp only
      rw [if_neg below, next, if_neg (restores.not.mpr kept)]
    · rw [leading, if_neg kept]
      exact blanked.stored.read _

theorem replaceLeadingZerosN_stored (padded : Padded m buffer k rest n) (enough : k < fuel) :
    ∃ after, replaceLeadingZerosN fuel buffer n m = some after ∧
      m.Stored buffer (leading k (Restored k rest n)) after ∧
      ∀ i ∈ after.reads, i ∈ m.reads ∨ buffer ≤ i ∧ i < buffer + extent k rest n := by
  rcases padded.full_or_room with ⟨limited, all, rfl⟩ | ⟨room, within⟩
  · have kept : Restored k [] n := by
      refine ⟨id, ?_, fun unlimited => absurd unlimited limited⟩
      rintro rfl
      exact limited (UInt8.toNat_inj.mp all.symm)
    rw [leading, if_pos kept, extent, if_neg limited]
    exact replaceLeadingZerosN_full padded.zeros limited all enough
  · obtain ⟨after, done, stored, reads⟩ := replaceLeadingZerosN_room padded room enough
    refine ⟨after, done, stored, ?_⟩
    intro i member
    apply (reads i member).imp_right
    omega

end

theorem text_of_stored {m after : Memory UInt8} {buffer : Int} {k : Nat} {rest : List UInt8} {n : UInt8}
    (padded : Padded m buffer k rest n) (stored : m.Stored buffer (leading k (Restored k rest n)) after) :
    after.text buffer (k + rest.length) = leading k (Restored k rest n) ++ rest := by
  obtain ⟨front, -, outside⟩ := stored.of_length (length_leading fun kept => kept.2.1)
  have held := padded.held
  rw [Memory.text_add] at held
  have kept : after.text (buffer + k) rest.length = m.text (buffer + k) rest.length :=
    Memory.text_congr fun i above _ => outside i (.inr above)
  rw [Memory.text_add, front, kept, (List.append_inj held (by simp [Memory.length_text])).2]

theorem leading_append_eq_trimmed_iff (k : Nat) (rest : List UInt8) (n : UInt8) :
    leading k (Restored k rest n) ++ rest = trimmed k rest ↔
      ¬ (n = 0 ∧ k ≠ 0 ∧ k % 256 = 0 ∧ ¬ StartsDigit rest) := by
  by_cases starts : StartsDigit rest ∨ k = 0
  · have not_kept : ¬ Restored k rest n := fun kept => starts.elim kept.1 kept.2.1
    rw [leading, if_neg not_kept, trimmed, if_pos starts]
    exact iff_of_true rfl fun wrong => starts.elim wrong.2.2.2 wrong.2.1
  · obtain ⟨ended, some⟩ := not_or.mp starts
    rw [leading, trimmed, if_neg starts]
    by_cases wraps : n = 0 ∧ k % 256 = 0
    · have not_kept : ¬ Restored k rest n := fun kept => kept.2.2 wraps.1 wraps.2
      rw [if_neg not_kept]
      refine iff_of_false ?_ fun right => right ⟨wraps.1, some, wraps.2, ended⟩
      obtain ⟨k, rfl⟩ := Nat.exists_eq_succ_of_ne_zero some
      rw [List.replicate_succ', List.append_assoc]
      intro same
      have last := List.append_cancel_left same
      exact absurd (List.cons.inj last).1 (by decide)
    · have kept : Restored k rest n := ⟨ended, some, fun unlimited zero => wraps ⟨unlimited, zero⟩⟩
      rw [if_pos kept, List.append_assoc]
      exact iff_of_true rfl fun wrong => wraps ⟨wrong.1, wrong.2.2.1⟩

def onlyZeros (k : Nat) : Memory UInt8 := ⟨fun i => if 0 ≤ i ∧ i < k then zero else 0, [], []⟩

theorem text_onlyZeros (k : Nat) : (onlyZeros k).text 0 k = List.replicate k zero := by
  apply List.eq_replicate_iff.mpr
  refine ⟨Memory.length_text _ _ _, ?_⟩
  intro c member
  obtain ⟨i, inside, rfl⟩ := List.mem_map.mp member
  have below := List.mem_range.mp inside
  exact if_pos ⟨by omega, by omega⟩

theorem padded_onlyZeros (k : Nat) : Padded (onlyZeros k) 0 k [] 0 := by
  refine ⟨?_, by simp, ?_⟩
  · rw [List.append_nil]
    exact text_onlyZeros k
  · rw [if_pos rfl]
    exact ⟨by simp, if_neg (by simp)⟩

/-- The count wraps at 256 zeros, and the last of them is not put back. -/
theorem replaceLeadingZeros_forgets {k : Nat} (some : k ≠ 0) (wraps : k % 256 = 0) :
    shown ((onlyZeros k).text 0 k) = (.some 0, []) ∧
      ∃ after, replaceLeadingZeros (k + 1) 0 (onlyZeros k) = .some after ∧
        after.text 0 k = List.replicate k blank ∧ shown (after.text 0 k) = (none, []) := by
  obtain ⟨after, done, stored, -⟩ := replaceLeadingZerosN_stored (padded_onlyZeros k) (Nat.lt_succ_self k)
  have all := text_of_stored (padded_onlyZeros k) stored
  have not_kept : ¬ Restored k [] 0 := fun kept => kept.2.2 rfl wraps
  rw [leading, if_neg not_kept, List.append_nil] at all
  have digits : shown (List.replicate k zero ++ []) = (.some (value (List.replicate k zero)), []) :=
    shown_digits (by simpa using some) isDigit_of_mem_zeros id
  have blanks := shown_blanks k []
  rw [List.append_nil, value_replicate_zero] at digits
  rw [List.append_nil] at blanks
  refine ⟨?_, after, done, all, (congrArg shown all).trans blanks⟩
  rw [text_onlyZeros, digits]

theorem replaceLeadingZerosN_trims_iff {m : Memory UInt8} {buffer : Int} {k : Nat} {rest : List UInt8} {n : UInt8}
    {fuel : Nat} (padded : Padded m buffer k rest n) (enough : k < fuel) :
    ∃ after, replaceLeadingZerosN fuel buffer n m = some after ∧
      (∀ i, i < buffer ∨ buffer + k ≤ i → after.cell i = m.cell i) ∧
      (∀ i ∈ after.writes, i ∈ m.writes ∨ buffer ≤ i ∧ i < buffer + k) ∧
      (∀ i ∈ after.reads, i ∈ m.reads ∨ buffer ≤ i ∧ i < buffer + extent k rest n) ∧
      (after.text buffer (k + rest.length) = trimmed k rest ∧
        shown (after.text buffer (k + rest.length)) = shown (m.text buffer (k + rest.length)) ↔
          ¬ (n = 0 ∧ k ≠ 0 ∧ k % 256 = 0 ∧ ¬ StartsDigit rest)) := by
  obtain ⟨after, done, stored, reads⟩ := replaceLeadingZerosN_stored padded enough
  obtain ⟨-, writes, outside⟩ := stored.of_length (length_leading fun kept => kept.2.1)
  refine ⟨after, done, outside, fun i => (writes i).mp, reads, ?_⟩
  rw [text_of_stored padded stored, padded.held, ← leading_append_eq_trimmed_iff]
  constructor
  · intro both
    exact both.1
  · intro same
    rw [same, shown_trimmed]
    exact ⟨rfl, rfl⟩

theorem replaceLeadingZerosN_trims_seven :
    ∃ m, Padded m 0 2 [55] 3 ∧
      ∃ after, replaceLeadingZerosN 3 0 3 m = some after ∧ after.text 0 3 = [blank, blank, 55] := by
  have padded : Padded ⟨fun i => if i = 2 then 55 else zero, [], []⟩ 0 2 [55] 3 := ⟨by decide, by decide, by decide⟩
  obtain ⟨after, done, -, -, -, trims⟩ := replaceLeadingZerosN_trims_iff padded (show 2 < 3 by decide)
  exact ⟨_, padded, after, done, (trims.mpr (by decide)).1⟩

theorem replaceLeadingZeros_blanks_all :
    Padded (onlyZeros 256) 0 256 [] 0 ∧ trimmed 256 [] = List.replicate 255 blank ++ [zero] ∧
      shown ((onlyZeros 256).text 0 256) = (some 0, []) ∧
      ∃ after, replaceLeadingZeros 257 0 (onlyZeros 256) = some after ∧
        after.text 0 256 = List.replicate 256 blank ∧ shown (after.text 0 256) = (none, []) :=
  ⟨padded_onlyZeros 256, if_neg (by decide), replaceLeadingZeros_forgets (by decide) (by decide)⟩

theorem decimalText_reads (v : UInt16) {d : Nat} (small : d ≤ 5) :
    Reads (decimalText v.toNat d) ((v.toNat : ℚ) / 10 ^ d) := by
  have reads : Reads (lowDigits (5 - d) (v.toNat / 10 ^ d) ++ point :: lowDigits d v.toNat) _ :=
    reads_digits isDigit_of_mem_lowDigits isDigit_of_mem_lowDigits
  have bound := v.toNat_lt
  rwa [lowDigits_append, Nat.sub_add_cancel small, value_lowDigits, length_lowDigits,
    Nat.mod_eq_of_lt (by omega)] at reads

theorem ne_nul_of_mem_decimalText {v d : Nat} : ∀ c ∈ decimalText v d, c ≠ 0 := by
  intro c member
  rcases List.mem_append.mp member with whole | later
  · exact (isDigit_of_mem_lowDigits c whole).ne_nul
  · rcases List.mem_cons.mp later with rfl | fraction
    · decide
    · exact (isDigit_of_mem_lowDigits c fraction).ne_nul

theorem replaceLeadingZeros_shown {m : Memory UInt8} {buffer : Int} {v d fuel : Nat} (small : d ≤ 5)
    (held : m.text buffer 6 = decimalText v d) (ended : m.cell (buffer + 6) = 0) (enough : 6 < fuel) :
    ∃ after, replaceLeadingZeros fuel buffer m = some after ∧
      shown (after.text buffer 6) = shown (m.text buffer 6) ∧ after.cell (buffer + 6) = 0 := by
  obtain ⟨k, rest, split, other⟩ := exists_zeros (decimalText v d)
  have size : k + rest.length = 6 := by
    rw [← length_decimalText v small, split, List.length_append, List.length_replicate]
  have padded : Padded m buffer k rest 0 := by
    refine ⟨by rw [size, held, split], other, ?_⟩
    rw [if_pos rfl, size]
    refine ⟨fun member => ?_, ended⟩
    have inside : 0 ∈ decimalText v d := split ▸ List.mem_append_right _ member
    exact ne_nul_of_mem_decimalText 0 inside rfl
  obtain ⟨after, done, stored, -⟩ := replaceLeadingZerosN_stored padded (show k < fuel by omega)
  have trims := (leading_append_eq_trimmed_iff k rest 0).mpr fun wrong => by
    obtain ⟨-, some, wraps, -⟩ := wrong
    omega
  have text := text_of_stored padded stored
  rw [size, trims] at text
  refine ⟨after, done, ?_, ?_⟩
  · rw [text, shown_trimmed, held, split]
  · obtain ⟨-, -, outside⟩ := stored.of_length (length_leading fun kept => kept.2.1)
    rw [← ended, outside _ (.inr (by omega))]

theorem print_fixed_point :
    (∀ (v : UInt16) (decimals : UInt8) (buffer : Int) (m : Memory UInt8),
      ∃ after, uint16PrintDecimalNull v decimals buffer m = after ∧
      (∀ i, i ∈ after.writes ↔ i ∈ m.writes ∨ buffer ≤ i ∧ i < buffer + 7) ∧
      (∀ i, i < buffer ∨ buffer + 7 ≤ i → after.cell i = m.cell i) ∧
      (∃ whole fraction, after.text buffer 7 = whole ++ point :: fraction ++ [0] ∧
        (∀ c ∈ whole ++ fraction, IsDigit c) ∧ whole.length + fraction.length = 5 ∧
        fraction.length = min decimals.toNat 5) ∧
      Reads (after.text buffer 6) ((v.toNat : ℚ) / 10 ^ min decimals.toNat 5) ∧
      ∀ fuel > 6, ∃ trimmed, replaceLeadingZeros fuel buffer after = some trimmed ∧
        Reads (trimmed.text buffer 6) ((v.toNat : ℚ) / 10 ^ min decimals.toNat 5) ∧ trimmed.cell (buffer + 6) = 0) ∧
    ∀ (v length : UInt8) (buffer : Int) (m : Memory UInt8),
      ∃ after, uint8Print v length buffer m = after ∧
      (∀ i, i ∈ after.writes ↔ i ∈ m.writes ∨ buffer ≤ i ∧ i < buffer + (length.toNat + 1 : Nat)) ∧
      (∀ i, i < buffer ∨ buffer + (length.toNat + 1 : Nat) ≤ i → after.cell i = m.cell i) ∧
      ∃ digits, after.text buffer (length.toNat + 1) = digits ++ [0] ∧ digits.length = length.toNat ∧
        (∀ c ∈ digits, IsDigit c) ∧ value digits = v.toNat % 10 ^ length.toNat := by
  constructor
  · intro v decimals buffer m
    have small := Nat.min_le_right decimals.toNat 5
    have stored := uint16PrintDecimalNull_stored v decimals buffer m
    generalize uint16PrintDecimalNull v decimals buffer m = after at stored
    have size : (decimalText v.toNat (min decimals.toNat 5) ++ [0]).length = 7 := by
      rw [List.length_append, length_decimalText v.toNat small, List.length_singleton]
    obtain ⟨text, writes, outside⟩ := stored.of_length size
    obtain ⟨held, ended⟩ := Memory.text_concat text (length_decimalText v.toNat small)
    have reads := decimalText_reads v small
    rw [← held] at reads
    refine ⟨after, rfl, writes, outside, ⟨lowDigits (5 - min decimals.toNat 5) (v.toNat / 10 ^ min decimals.toNat 5),
      lowDigits (min decimals.toNat 5) v.toNat, text, ?_, ?_, length_lowDigits _ _⟩, reads, ?_⟩
    · rw [lowDigits_append]
      exact isDigit_of_mem_lowDigits
    · rw [length_lowDigits, length_lowDigits, Nat.sub_add_cancel small]
    · intro fuel enough
      obtain ⟨trimmed, done, same, kept⟩ := replaceLeadingZeros_shown small held ended enough
      exact ⟨trimmed, done, reads.of_shown same, kept⟩
  · intro v length buffer m
    have stored := uint8Print_stored v length buffer m
    have size : (lowDigits length.toNat v.toNat ++ [0]).length = length.toNat + 1 := by
      rw [List.length_append, length_lowDigits, List.length_singleton]
    obtain ⟨text, writes, outside⟩ := stored.of_length size
    exact ⟨_, rfl, writes, outside, lowDigits length.toNat v.toNat, text, length_lowDigits _ _,
      isDigit_of_mem_lowDigits, value_lowDigits _ _⟩

end Minimus32.IntPrint
