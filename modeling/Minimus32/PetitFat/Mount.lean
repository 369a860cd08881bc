import Minimus32.PetitFat.File

namespace Minimus32.PetitFat

open Interaction

/-- The results 0 to 3 of check_fs. -/
inductive BootRecord where
  | fat
  | other
  | absent
  | error
  deriving DecidableEq, Repr

def checkFs (sect : Nat) : Disk BootRecord := do
  let signature ← diskReadp sect 510 2
  match signature with
  | none => pure .error
  | some buf =>
    if ldWord buf 0 ≠ 0xAA55 then pure .absent
    else do
      let type ← diskReadp sect 54 2
      match type with
      | none => pure .other
      | some buf => pure (if ldWord buf 0 = 0x4146 then .fat else .other)

/-- The search for a FAT volume: its first sector and what stands there. -/
def findVolume : Disk (Nat × BootRecord) := do
  let fmt ← checkFs 0
  match fmt with
  | .other => do
    let table ← diskReadp 0 446 16
    match table with
    | none => pure (0, .error)
    | some buf =>
      if buf.getD 4 0 = 0 then pure (0, .other)
      else do
        let fmt ← checkFs (ldDword buf 8)
        pure (ldDword buf 8, fmt)
  | fmt => pure (0, fmt)

/-- The numbers of the boot record from offset 13 on; no result where there is a division by zero. -/
def volumeAt (bsect : Nat) (buf : List UInt8) : Option (Except FResult Volume) :=
  let fsize := dword ((if ldWord buf 9 = 0 then ldDword buf 23 else ldWord buf 9) * (buf.getD 3 0).toNat)
  let fatbase := dword (bsect + ldWord buf 1)
  let csize := (buf.getD 0 0).toNat
  let nRootdir := ldWord buf 4
  let tsect := if ldWord buf 6 = 0 then ldDword buf 19 else ldWord buf 6
  let data := dword (tsect + 3 * 4294967296 - ldWord buf 1 - fsize - nRootdir / 16)
  let mclst := dword (data / csize + 2)
  if positive : csize = 0 then none
  else if few : 0xFFF7 ≤ mclst then some (.error .noFilesystem)
  else some (.ok {
    fsType := if mclst < 0xFF7 then .fat12 else .fat16
    csize := csize
    nRootdir := nRootdir
    nFatent := mclst
    fatbase := fatbase
    dirbase := dword (fatbase + fsize)
    database := dword (fatbase + fsize + nRootdir / 16)
    csize_pos := Nat.pos_of_ne_zero positive
    csize_lt := (buf.getD 0 0).toNat_lt
    nFatent_lt := Nat.lt_of_not_le few
    fat12_lt := fun type => by
      by_contra many
      rw [if_neg many] at type
      cases type })

/-- The object with another volume, and no file open. -/
def Fatfs.mount (fs : Fatfs) (v : Volume) : Fatfs := { fs with toVolume := v, flag := false }

/-- `noinit` is the bit STA_NOINIT of disk_initialize, `fs` the object of the caller with what it held before. -/
def pfMount (noinit : Bool) (fs : Option Fatfs) : Disk (Option (FResult × Option Fatfs)) :=
  match fs with
  | none => pure (some (.ok, none))
  | some fs =>
    if noinit then pure (some (.notReady, none))
    else do
      let found ← findVolume
      match found.2 with
      | .error => pure (some (.diskErr, none))
      | .fat => do
        let header ← diskReadp found.1 13 36
        match header with
        | none => pure (some (.diskErr, none))
        | some buf => pure ((volumeAt found.1 buf).map fun
          | .error res => (res, none)
          | .ok v => (.ok, some (fs.mount v)))
      | _ => pure (some (.noFilesystem, none))

/-- The numbers a volume is formatted with, in sectors, entries and sectors per cluster. -/
structure Layout where
  csize : Nat
  reserved : Nat
  numFats : Nat
  fatSize : Nat
  rootEntries : Nat
  total : Nat
  csize_pos : 0 < csize
  csize_lt : csize < 256
  fatSize_pos : 0 < fatSize
  total_lt : total < 4294967296
  room : reserved + numFats * fatSize + rootEntries / 16 ≤ total
  few : (total - (reserved + numFats * fatSize + rootEntries / 16)) / csize + 2 < 0xFFF7

namespace Layout

variable (l : Layout)

def system : Nat := l.reserved + l.numFats * l.fatSize + l.rootEntries / 16

def nFatent : Nat := (l.total - l.system) / l.csize + 2

/-- The volume with this layout from a sector on. -/
def volume (start : Nat) : Volume where
  fsType := if l.nFatent < 0xFF7 then .fat12 else .fat16
  csize := l.csize
  nRootdir := l.rootEntries
  nFatent := l.nFatent
  fatbase := start + l.reserved
  dirbase := start + l.reserved + l.numFats * l.fatSize
  database := start + l.system
  csize_pos := l.csize_pos
  csize_lt := l.csize_lt
  nFatent_lt := l.few
  fat12_lt := fun type => by
    by_contra many
    rw [if_neg many] at type
    cases type

/-- The boot record says so; the number of sectors stands in the first of two places that is not zero. -/
structure WrittenAt (l : Layout) (medium : Medium) (sect : Nat) : Prop where
  signature : ldWord (medium.bytes sect) 510 = 0xAA55
  type : ldWord (medium.bytes sect) 54 = 0x4146
  csize : ((medium.bytes sect).getD 13 0).toNat = l.csize
  reserved : ldWord (medium.bytes sect) 14 = l.reserved
  numFats : ((medium.bytes sect).getD 16 0).toNat = l.numFats
  rootEntries : ldWord (medium.bytes sect) 17 = l.rootEntries
  total : (if ldWord (medium.bytes sect) 19 = 0 then ldDword (medium.bytes sect) 32
    else ldWord (medium.bytes sect) 19) = l.total
  fatSize : ldWord (medium.bytes sect) 22 = l.fatSize

end Layout

/-- The volume starts at the first sector of the medium, or at the first partition. -/
def StartsAt (medium : Medium) (sect : Nat) : Prop :=
  sect = 0 ∨
    ldWord (medium.bytes 0) 510 = 0xAA55 ∧ ldWord (medium.bytes 0) 54 ≠ 0x4146 ∧
      (medium.bytes 0).getD 450 0 ≠ 0 ∧ ldDword (medium.bytes 0) 454 = sect

theorem ldWord_piece (medium : Medium) (sector ofs : Nat) {count i : Nat} (inside : i + 1 < count) :
    ldWord (medium.piece sector ofs count) i = ldWord (medium.bytes sector) (ofs + i) := by
  rw [ldWord, ldWord, medium.getD_piece sector ofs inside, medium.getD_piece sector ofs (by omega), Nat.add_assoc]

theorem ldDword_piece (medium : Medium) (sector ofs : Nat) {count i : Nat} (inside : i + 3 < count) :
    ldDword (medium.piece sector ofs count) i = ldDword (medium.bytes sector) (ofs + i) := by
  rw [ldDword, ldDword, medium.getD_piece sector ofs inside, medium.getD_piece sector ofs (by omega),
    medium.getD_piece sector ofs (by omega), medium.getD_piece sector ofs (by omega), Nat.add_assoc, Nat.add_assoc,
    Nat.add_assoc]

variable {medium : Medium} {area : Nat → Prop}

theorem checkFs_under {sect : Nat} (there : area sect) :
    (checkFs sect).Under (service medium False area) fun fmt =>
      fmt = if ldWord (medium.bytes sect) 510 ≠ 0xAA55 then .absent
        else if ldWord (medium.bytes sect) 54 = 0x4146 then .fat else .other := by
  rw [checkFs]
  apply under_diskReadp there (by decide)
  · simp only [ldWord_piece medium sect 510 (show 0 + 1 < 2 by decide)]
    split
    · exact rfl
    · apply under_diskReadp there (by decide)
      · simp only [ldWord_piece medium sect 54 (show 0 + 1 < 2 by decide)]
        exact rfl
      · exact False.elim
  · exact False.elim

/-- A volume is found at the start of the medium and in its first partition. -/
theorem findVolume_under {sect : Nat} (first : area 0) (there : area sect) (starts : StartsAt medium sect)
    (signature : ldWord (medium.bytes sect) 510 = 0xAA55) (type : ldWord (medium.bytes sect) 54 = 0x4146) :
    findVolume.Under (service medium False area) fun found => found = (sect, .fat) := by
  rw [findVolume]
  apply (checkFs_under first).bind
  intro fmt checked
  rcases starts with rfl | ⟨boot, noFat, partition, start⟩
  · rw [if_neg (by simp [signature]), if_pos type] at checked
    rw [checked]
    exact rfl
  · rw [if_neg (by simp [boot]), if_neg noFat] at checked
    rw [checked]
    apply under_diskReadp first (by decide)
    · simp only [medium.getD_piece 0 446 (show 4 < 16 by decide),
        ldDword_piece medium 0 446 (show 8 + 3 < 16 by decide)]
      rw [if_neg partition, start]
      apply (checkFs_under there).bind
      intro fmt checked
      rw [if_neg (by simp [signature]), if_pos type] at checked
      rw [checked]
      exact rfl
    · exact False.elim

theorem volumeAt_piece {l : Layout} {sect : Nat} (written : l.WrittenAt medium sect)
    (inside : sect + l.total < 4294967296) :
    volumeAt sect (medium.piece sect 13 36) = some (.ok (l.volume sect)) := by
  have room := l.room
  have few : l.nFatent < 0xFFF7 := l.few
  have total := l.total_lt
  have positive := l.csize_pos
  have size := l.fatSize_pos
  have system : l.system = l.reserved + l.numFats * l.fatSize + l.rootEntries / 16 := rfl
  have fats : dword (l.fatSize * l.numFats) = l.numFats * l.fatSize := by
    rw [Nat.mul_comm]
    exact dword_of_lt (by omega)
  have data : dword (l.total + 3 * 4294967296 - l.reserved - l.numFats * l.fatSize - l.rootEntries / 16) =
      l.total - l.system := by
    rw [dword]
    omega
  have mclst : dword ((l.total - l.system) / l.csize + 2) = l.nFatent := dword_of_lt (by rw [← Layout.nFatent]; omega)
  have nonzero : l.fatSize ≠ 0 := Nat.ne_of_gt size
  have fat : dword (sect + l.reserved) = sect + l.reserved := dword_of_lt (by omega)
  have root : dword (sect + l.reserved + l.numFats * l.fatSize) = sect + l.reserved + l.numFats * l.fatSize :=
    dword_of_lt (by omega)
  have clusters : dword (sect + l.reserved + l.numFats * l.fatSize + l.rootEntries / 16) = sect + l.system := by
    rw [dword_of_lt (by omega)]
    omega
  simp only [volumeAt, medium.getD_piece sect 13 (show 0 < 36 by decide),
    medium.getD_piece sect 13 (show 3 < 36 by decide),
    ldWord_piece medium sect 13 (show 1 + 1 < 36 by decide), ldWord_piece medium sect 13 (show 4 + 1 < 36 by decide),
    ldWord_piece medium sect 13 (show 6 + 1 < 36 by decide), ldWord_piece medium sect 13 (show 9 + 1 < 36 by decide),
    ldDword_piece medium sect 13 (show 19 + 3 < 36 by decide), Nat.reduceAdd, written.csize, written.reserved,
    written.numFats, written.rootEntries, written.total, written.fatSize, nonzero, if_false, fats, data, mclst, fat,
    root, clusters]
  rw [dif_neg (by omega), dif_neg (by omega)]
  rfl

/-- Every sector that is read later lies in the volume. -/
theorem Layout.lt_of_area (l : Layout) {sect sector : Nat} (there : (l.volume sect).area sector) :
    sect + l.reserved ≤ sector ∧ sector < sect + l.total := by
  have room : l.system ≤ l.total := l.room
  have data : (l.total - l.system) / l.csize * l.csize ≤ l.total - l.system := Nat.div_mul_le_self _ _
  have last : sector < sect + l.system + (l.nFatent - 2) * l.csize := there.2
  rw [Layout.nFatent, Nat.add_sub_cancel] at last
  exact ⟨there.1, by omega⟩

theorem pfMount_under {l : Layout} {sect : Nat} (starts : StartsAt medium sect) (written : l.WrittenAt medium sect)
    (inside : sect + l.total < 4294967296) (fs : Fatfs) :
    (pfMount false (some fs)).Under (service medium False fun sector => sector = 0 ∨ sector = sect) fun out =>
      out = some (.ok, some (fs.mount (l.volume sect))) := by
  rw [pfMount, if_neg (by decide)]
  apply (findVolume_under (.inl rfl) (.inr rfl) starts written.signature written.type).bind
  intro found volume
  rw [volume]
  apply under_diskReadp (.inr rfl) (by decide)
  · simp only [volumeAt_piece written inside]
    exact rfl
  · exact False.elim

/-- Mounting a medium gives the volume as it was formatted, and reads only the two sectors where it can be said. What
is read later lies behind the boot record and in the volume. -/
theorem pfMount_volume {l : Layout} {sect : Nat} (starts : StartsAt medium sect) (written : l.WrittenAt medium sect)
    (inside : sect + l.total < 4294967296) (fs : Fatfs) :
    ((pfMount false (some fs)).Under (service medium False fun sector => sector = 0 ∨ sector = sect) fun out =>
      out = some (.ok, some (fs.mount (l.volume sect)))) ∧
    ∀ sector, (l.volume sect).area sector → sect + l.reserved ≤ sector ∧ sector < sect + l.total :=
  ⟨pfMount_under starts written inside fs, fun _ there => l.lt_of_area there⟩

/-- A volume of five sectors: the boot record, a FAT, a root directory and two clusters. -/
def tinyLayout : Layout :=
  ⟨1, 1, 1, 1, 16, 5, by decide, by decide, by decide, by decide, by decide, by decide⟩

def tinyBoot : List UInt8 :=
  List.replicate 13 0 ++ [1, 1, 0, 1, 16, 0, 5, 0, 0xf8, 1, 0] ++ List.replicate 30 0 ++ [0x46, 0x41] ++
    List.replicate 454 0 ++ [0x55, 0xaa]

/-- One file of 600 bytes on the two clusters. -/
def tinyFile : List UInt8 :=
  "HELLO   TXT".toList.map Char.toUInt8 ++ [0x20] ++ List.replicate 14 0 ++ [2, 0, 0x58, 2, 0, 0]

def tinyEntries : List Nat := [0xff8, 0xfff, 3, 0xfff]

def tinyMedium : Medium :=
  .ofSectors [tinyBoot, pack12 tinyEntries, tinyFile, List.replicate 512 'a'.toUInt8, List.replicate 512 'b'.toUInt8]

theorem tinyLayout_writtenAt : tinyLayout.WrittenAt tinyMedium 0 := by
  constructor <;> decide +kernel

def tinyFatfs : Fatfs := ⟨tinyLayout.volume 7, true, 3, 4, 5, 6, 7⟩

theorem pfMount_volume_tiny :
    ((pfMount false (some tinyFatfs)).Under (service tinyMedium False fun sector => sector = 0 ∨ sector = 0) fun out =>
      out = some (.ok, some (tinyFatfs.mount (tinyLayout.volume 0)))) ∧
    ∀ sector, (tinyLayout.volume 0).area sector → 0 + tinyLayout.reserved ≤ sector ∧ sector < 0 + tinyLayout.total :=
  pfMount_volume (.inl rfl) tinyLayout_writtenAt (by decide) tinyFatfs

end Minimus32.PetitFat
