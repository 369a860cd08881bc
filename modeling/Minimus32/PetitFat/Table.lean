import Mathlib.Data.List.Basic
import Minimus32.Library.RowMajor
import Minimus32.PetitFat.Disk

namespace Minimus32.PetitFat

open Interaction

inductive FsType where
  | fat12
  | fat16
  deriving DecidableEq, Repr

/-- The part of FATFS that pf_mount sets. It keeps apart the types by the number of entries and takes no zero
for the sectors of a cluster. -/
structure Volume where
  fsType : FsType
  csize : Nat
  nRootdir : Nat
  nFatent : Nat
  fatbase : Nat
  dirbase : Nat
  database : Nat
  csize_pos : 0 < csize
  csize_lt : csize < 256
  nFatent_lt : nFatent < 0xFFF7
  fat12_lt : fsType = .fat12 → nFatent < 0xFF7
  deriving DecidableEq

/-- The two bytes of an entry of a FAT12, the second one perhaps in the next sector. -/
def readPair (sector ofs : Nat) : Disk (Option (List UInt8)) :=
  if ofs ≠ 511 then diskReadp sector ofs 2
  else do
    let low ← diskReadp sector 511 1
    match low with
    | none => pure none
    | some low => do
      let high ← diskReadp (dword (sector + 1)) 0 1
      pure (high.map (low ++ ·))

def getFat (v : Volume) (clst : Nat) : Disk Nat :=
  if clst < 2 ∨ v.nFatent ≤ clst then pure 1
  else match v.fsType with
    | .fat12 => do
      let bc := word (clst + clst / 2)
      let buf ← readPair (dword (v.fatbase + bc / 512)) (bc % 512)
      pure (buf.elim 1 fun buf => if clst % 2 = 1 then ldWord buf 0 >>> 4 else ldWord buf 0 &&& 0xFFF)
    | .fat16 => do
      let buf ← diskReadp (dword (v.fatbase + clst / 256)) (word (clst % 256 * 2)) 2
      pure (buf.elim 1 fun buf => ldWord buf 0)

/-- Zero for a cluster number out of range. -/
def clust2sect (v : Volume) (clst : Nat) : Nat :=
  if word (v.nFatent + 65534) ≤ word (clst + 65534) then 0
  else dword (word (clst + 65534) * v.csize + v.database)

/-- The layout of a FAT12: three bytes for two entries. -/
def pack12 : List Nat → List UInt8
  | a :: b :: entries => .ofNat a :: .ofNat (a / 256 + 16 * (b % 16)) :: .ofNat (b / 16) :: pack12 entries
  | [a] => [.ofNat a, .ofNat (a / 256)]
  | [] => []

/-- The layout of a FAT16. -/
def pack16 (entries : List Nat) : List UInt8 := entries.flatMap fun e => [.ofNat e, .ofNat (e / 256)]

def pack : FsType → List Nat → List UInt8
  | .fat12 => pack12
  | .fat16 => pack16

def FsType.entryLimit : FsType → Nat
  | .fat12 => 4096
  | .fat16 => 65536

/-- Byte `i` of an area that starts at a sector. -/
def byteFrom (medium : Medium) (base i : Nat) : UInt8 := (medium.bytes (base + i / 512)).getD (i % 512) 0

/-- A volume as formatting leaves it: its parts lie one behind the other and its FAT holds these entries. -/
structure Volume.Formatted (v : Volume) (medium : Medium) (entries : List Nat) : Prop where
  power : v.csize.isPowerOfTwo
  boot : 0 < v.fatbase
  reserved : 2 ≤ v.nFatent
  length : entries.length = v.nFatent
  small : ∀ e ∈ entries, e < v.fsType.entryLimit
  stored : ∀ i, i < (pack v.fsType entries).length →
    byteFrom medium v.fatbase i = (pack v.fsType entries).getD i 0
  aligned : 16 ∣ v.nRootdir
  fat_room : v.fatbase * 512 + (pack v.fsType entries).length ≤ v.dirbase * 512
  root_room : v.dirbase + v.nRootdir / 16 ≤ v.database
  data_room : v.database + (v.nFatent - 2) * v.csize ≤ 4294967296

/-- The sectors from the start of the FAT to the end of the last cluster. -/
def Volume.area (v : Volume) (sector : Nat) : Prop :=
  v.fatbase ≤ sector ∧ sector < v.database + (v.nFatent - 2) * v.csize

theorem length_pack12 (entries : List Nat) : (pack12 entries).length = (3 * entries.length + 1) / 2 := by
  induction entries using pack12.induct with
  | case1 a b entries ih =>
    simp only [pack12, List.length_cons, ih]
    omega
  | case2 a => simp [pack12]
  | case3 => rfl

/-- An entry of a FAT12 from the word that starts at its first byte. -/
theorem entry_pack12 {entries : List Nat} (small : ∀ e ∈ entries, e < 4096) {i w : Nat} (inside : i < entries.length)
    (pair : w = 256 * ((pack12 entries).getD (i + i / 2 + 1) 0).toNat + ((pack12 entries).getD (i + i / 2) 0).toNat) :
    (if i % 2 = 1 then w / 16 else w % 4096) = entries[i] := by
  induction entries using pack12.induct generalizing i with
  | case1 a b entries ih =>
    have first := small a (by simp)
    have second := small b (by simp)
    match i with
    | 0 =>
      simp [pack12, UInt8.toNat_ofNat'] at pair ⊢
      omega
    | 1 =>
      simp [pack12, UInt8.toNat_ofNat'] at pair ⊢
      omega
    | i + 2 =>
      have place : i + 2 + (i + 2) / 2 = i + i / 2 + 3 := by omega
      rw [place] at pair
      have later := ih (fun e member => small e (by simp [member])) (by simpa using inside) pair
      rw [← Nat.add_mod_right i 2] at later
      simpa using later
  | case2 a =>
    have first := small a (by simp)
    obtain rfl : i = 0 := by simpa using inside
    simp [pack12, UInt8.toNat_ofNat'] at pair ⊢
    omega
  | case3 => simp at inside

theorem length_pack16 (entries : List Nat) : (pack16 entries).length = 2 * entries.length :=
  RowMajor.length_flatMap fun _ _ => rfl

theorem entry_pack16 {entries : List Nat} (small : ∀ e ∈ entries, e < 65536) {i : Nat} (inside : i < entries.length) :
    256 * ((pack16 entries).getD (2 * i + 1) 0).toNat + ((pack16 entries).getD (2 * i) 0).toNat = entries[i] := by
  have even : ∀ e ∈ entries, ([.ofNat e, .ofNat (e / 256)] : List UInt8).length = 2 := fun _ _ => rfl
  have low := RowMajor.getElem?_flatMap even i (show 0 < 2 by decide)
  have high := RowMajor.getElem?_flatMap even i (show 1 < 2 by decide)
  have bound := small entries[i] (List.getElem_mem inside)
  simp only [Nat.add_zero, List.getElem?_eq_getElem inside, Option.bind_some] at low high
  rw [List.getD_eq_getElem?_getD, List.getD_eq_getElem?_getD, pack16, low, high]
  simp [UInt8.toNat_ofNat']
  omega

variable {medium : Medium} {faulty : Prop} {area : Nat → Prop} {v : Volume} {entries : List Nat}

/-- Two bytes in a row of an area, read in one piece or, across the end of a sector, in two. -/
theorem readPair_under {base i : Nat} (fits : base + (i + 1) / 512 < 4294967296) (first : area (base + i / 512))
    (second : area (base + (i + 1) / 512)) :
    (readPair (dword (base + i / 512)) (i % 512)).Under (service medium faulty area) fun buf =>
      (∃ bytes, buf = some bytes ∧
        ldWord bytes 0 = 256 * (byteFrom medium base (i + 1)).toNat + (byteFrom medium base i).toNat) ∨
      faulty ∧ buf = none := by
  rw [dword_of_lt (by omega), readPair]
  split
  · rename_i inner
    apply (diskReadp_under first (by omega)).mono
    intro buf read
    rcases read with rfl | failed
    · left
      refine ⟨_, rfl, ?_⟩
      rw [ldWord_eq, medium.getD_piece _ _ (by decide), medium.getD_piece _ _ (by decide), byteFrom,
        byteFrom, show (i + 1) / 512 = i / 512 by omega, show (i + 1) % 512 = i % 512 + 1 by omega]
      rfl
    · exact .inr failed
  · rename_i last
    have edge : i % 512 = 511 := by omega
    have behind : (i + 1) / 512 = i / 512 + 1 := by omega
    rw [behind, ← Nat.add_assoc] at second
    apply under_diskReadp first (by decide)
    · rw [dword_of_lt (by omega)]
      apply under_diskReadp second (by decide)
      · left
        refine ⟨_, rfl, ?_⟩
        rw [ldWord_eq, medium.piece_one _ (by decide), medium.piece_one _ (by decide), byteFrom, byteFrom,
          edge, behind, show (i + 1) % 512 = 0 by omega]
        rfl
      · intro fault
        exact .inr ⟨fault, rfl⟩
    · intro fault
      exact .inr ⟨fault, rfl⟩

namespace Volume.Formatted

theorem entry12 (formatted : v.Formatted medium entries) (type : v.fsType = .fat12) {clst w : Nat}
    (high : clst < v.nFatent)
    (pair : w = 256 * (byteFrom medium v.fatbase (clst + clst / 2 + 1)).toNat +
      (byteFrom medium v.fatbase (clst + clst / 2)).toNat) :
    entries[clst]? = some (if clst % 2 = 1 then w >>> 4 else w &&& 0xFFF) := by
  have inside : clst < entries.length := by rw [formatted.length]; exact high
  have stored := formatted.stored
  have small := formatted.small
  rw [type] at stored small
  have length := length_pack12 entries
  rw [stored _ (by rw [pack, length]; omega), stored _ (by rw [pack, length]; omega)] at pair
  rw [List.getElem?_eq_getElem inside, ← entry_pack12 small inside pair, Nat.shiftRight_eq_div_pow]
  congr 2
  exact (Nat.and_two_pow_sub_one_eq_mod w 12).symm

theorem entry16 (formatted : v.Formatted medium entries) (type : v.fsType = .fat16) {clst : Nat}
    (high : clst < v.nFatent) :
    entries[clst]? = some (256 * (byteFrom medium v.fatbase (2 * clst + 1)).toNat +
      (byteFrom medium v.fatbase (2 * clst)).toNat) := by
  have inside : clst < entries.length := by rw [formatted.length]; exact high
  have stored := formatted.stored
  have small := formatted.small
  rw [type] at stored small
  have length := length_pack16 entries
  rw [stored _ (by rw [pack, length]; omega), stored _ (by rw [pack, length]; omega),
    List.getElem?_eq_getElem inside, ← entry_pack16 small inside]
  rfl

theorem area_of_fat (formatted : v.Formatted medium entries) {i : Nat} (inside : i < (pack v.fsType entries).length) :
    v.area (v.fatbase + i / 512) := by
  have fat := formatted.fat_room
  have root := formatted.root_room
  constructor <;> omega

theorem lt_of_area (formatted : v.Formatted medium entries) {sector : Nat} (there : v.area sector) :
    sector < 4294967296 := Nat.lt_of_lt_of_le there.2 formatted.data_room

end Volume.Formatted

/-- The FAT read back: an entry of either layout, in every place it can have in its sector. -/
theorem getFat_under (formatted : v.Formatted medium entries) {clst : Nat} (low : 2 ≤ clst) (high : clst < v.nFatent) :
    (getFat v clst).Under (service medium faulty v.area) fun next =>
      entries[clst]? = some next ∨ faulty ∧ next = 1 := by
  have limit := v.nFatent_lt
  have inside : clst < entries.length := by rw [formatted.length]; exact high
  rw [getFat, if_neg (by omega)]
  split
  · rename_i type
    have short := v.fat12_lt type
    have length : (pack v.fsType entries).length = (3 * entries.length + 1) / 2 := by rw [type, pack, length_pack12]
    have first := formatted.area_of_fat (show clst + clst / 2 < _ by rw [length]; omega)
    have second := formatted.area_of_fat (show clst + clst / 2 + 1 < _ by rw [length]; omega)
    rw [word_of_lt (by omega)]
    apply (readPair_under (formatted.lt_of_area second) first second).bind
    intro buf read
    rcases read with ⟨bytes, rfl, pair⟩ | ⟨fault, rfl⟩
    · exact .inl (formatted.entry12 type high pair)
    · exact .inr ⟨fault, rfl⟩
  · rename_i type
    have length : (pack v.fsType entries).length = 2 * entries.length := by rw [type, pack, length_pack16]
    have there := formatted.area_of_fat (show 2 * clst < _ by rw [length]; omega)
    have place : 2 * clst / 512 = clst / 256 := by omega
    rw [place] at there
    rw [dword_of_lt (formatted.lt_of_area there), word_of_lt (by omega)]
    apply under_diskReadp there (by omega)
    · left
      rw [formatted.entry16 type high, byteFrom, byteFrom,
        show (2 * clst + 1) / 512 = clst / 256 by omega, place, show (2 * clst + 1) % 512 = clst % 256 * 2 + 1 by omega,
        show 2 * clst % 512 = clst % 256 * 2 by omega, Option.elim_some, ldWord_eq, medium.getD_piece _ _ (by decide),
        medium.getD_piece _ _ (by decide)]
      rfl
    · intro fault
      exact .inr ⟨fault, rfl⟩

theorem Volume.Formatted.clust2sect_eq (formatted : v.Formatted medium entries) {clst : Nat} (low : 2 ≤ clst)
    (high : clst < v.nFatent) : clust2sect v clst = v.database + (clst - 2) * v.csize := by
  have limit := v.nFatent_lt
  have data := formatted.data_room
  have within : (clst - 2) * v.csize < (v.nFatent - 2) * v.csize :=
    Nat.mul_lt_mul_of_pos_right (by omega) v.csize_pos
  have number : word (clst + 65534) = clst - 2 := by
    rw [word]
    omega
  have count : word (v.nFatent + 65534) = v.nFatent - 2 := by
    rw [word]
    omega
  rw [clust2sect, number, count, if_neg (by omega), dword_of_lt (by omega), Nat.add_comm]

end Minimus32.PetitFat
