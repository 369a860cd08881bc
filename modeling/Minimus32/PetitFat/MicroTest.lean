import Minimus32.PetitFat.Diskio

namespace Minimus32.PetitFat

open Interaction Program SdCard

/-- What goes to the serial port, by calls of async_serial_write_string and of async_serial_write_byte. -/
inductive Written where
  | text (string : String)
  | byte (data : UInt8)
deriving DecidableEq

/-- The loop of the test over the bytes of the file; it ends at the first call that gives no byte. -/
def printLoop : Nat → Option Fatfs → Disk (Option (List UInt8))
  | 0, _ => pure none
  | passes + 1, FatFs => do
    let out ← pfRead FatFs 1
    let bytesRead := if out.1 ≠ .ok then 0 else out.2.1
    if bytesRead = 1 then
      let later ← printLoop passes out.2.2.2
      pure (later.map (out.2.2.1 ++ ·))
    else pure (some [])

/-- The output up to the registration. -/
def greeting : List Written :=
  [.text "\x1b[?25l", .text "\x1b[2J", .text "=== Welcome to the SD-card FAT FS test ===\r\n"]

/-- The part of main behind the registration, with the output up to the endless loop at its end or in die; none if the
loop over the file has not ended after so many passes, or after a division by zero. -/
def readHello (passes : Nat) (fs : Fatfs) (dj : Dir) (dir : List UInt8) : Code (Option (List Written)) := do
  let result ← onCard (pfMount false (some fs))
  match result with
  | none => pure none
  | some (result, FatFs) =>
    if result ≠ .ok then pure (some (greeting ++ [.text "FAT FS Mount FAILED!!!\r\n"]))
    else do
      let out ← onCard (pfOpen FatFs dj dir ("hello.txt".toList.map Char.toUInt8))
      if out.1 ≠ .ok then
        pure (some (greeting ++ [.text "FAT FS Mount OK\r\n", .text "Open of hello.txt FAILED\r\n"]))
      else do
        let bytes ← onCard (printLoop passes out.2)
        pure (bytes.map fun bytes =>
          greeting ++ [.text "FAT FS Mount OK\r\n", .text "Reading hello.txt\r\n"] ++ bytes.map .byte)

def microTest (passes : Nat) (fs : Fatfs) (dj : Dir) (dir : List UInt8) (response : UInt8) :
    Code (Option (List Written)) := do
  let (_, status) ← sdRegister ⟨true, true, true, false⟩ response
  if status ≠ .ok then pure (some (greeting ++ [.text "SD-card register failed!!!"]))
  else readHello passes fs dj dir

/-- The output that a file system asks for. -/
def screen (disk : FileSystem) : List Written :=
  match disk.named [helloTxt] with
  | .ok bytes => greeting ++ [.text "FAT FS Mount OK\r\n", .text "Reading hello.txt\r\n"] ++ bytes.map .byte
  | .error _ => greeting ++ [.text "FAT FS Mount OK\r\n", .text "Open of hello.txt FAILED\r\n"]

theorem printLoop_under {disk : FileSystem} {fs : Fatfs} {left : List UInt8} {passes : Nat}
    (stands : fs.Stands disk (some left)) (enough : left.length < passes) :
    (printLoop passes (some fs)).Under (service disk.medium False disk.v.area) fun out => out = some left := by
  induction passes generalizing fs left with
  | zero => omega
  | succ passes ih =>
    obtain ⟨clusters, opened⟩ := stands
    apply (pfRead_under opened (by decide)).bind
    rintro out ⟨r, ⟨count, outcome⟩, rfl⟩
    obtain ⟨ok, data, rest⟩ := outcome.resolve_right fun failed => failed.1
    simp only [ok, ne_eq, not_true_eq_false, if_false, count, data]
    cases left with
    | nil => exact Program.under_pure rfl
    | cons byte left =>
      simp only [List.length_cons] at enough
      rw [if_pos (show ((byte :: left).take 1).length = 1 from rfl)]
      apply Under.bind (ih ⟨clusters, rest⟩ (by simpa using enough))
      rintro later rfl
      exact Program.under_pure rfl

/-- A card with this file system on it that answers at the one time at which the program listens. -/
structure Holds (card : Card) (disk : FileSystem) (l : Layout) (sect : Nat) : Prop where
  rested : card.busy ≤ 10
  second : ∀ n, card.timing.response n = 1
  soon : ∀ n, card.timing.token n ≤ 510
  quick : card.slow < 0xfffe
  medium : card.medium = disk.medium
  volume : disk.v = l.volume sect
  starts : StartsAt disk.medium sect
  written : l.WrittenAt disk.medium sect
  inside : sect + l.total ≤ card.sectors
  small : card.sectors ≤ 8388608

variable {card : Card} {disk : FileSystem} {l : Layout} {sect : Nat}

theorem Holds.sect_lt (holds : Holds card disk l sect) : sect < card.sectors := by
  have some : 0 < disk.v.nRootdir := (disk.directories.valid 0 .root disk.directories.root).2
  have aligned := disk.formatted.aligned
  have inside := holds.inside
  have room := l.room
  rw [holds.volume] at some aligned
  have directory : 1 ≤ l.rootEntries / 16 := Nat.div_pos (Nat.le_of_dvd some aligned) (by decide)
  omega

theorem Holds.not_late (holds : Holds card disk l sect) :
    ¬ ∃ n, 511 < card.timing.response n + card.timing.token n := by
  rintro ⟨n, late⟩
  have second := holds.second n
  have soon := holds.soon n
  omega

/-- A program for a reliable drive runs on the card. -/
theorem Holds.ends_onCard {α : Type} {program : Disk α} {post : α → Prop} {area : Nat → Prop} {now : Card}
    (holds : Holds card disk l sect) (within : ∀ sector, area sector → sector < card.sectors)
    (under : program.Under (service disk.medium False area) post) (held : now.isReady = true ∧ card.SameDisk now) :
    Ends Card.respond (onCard program) now fun a after => post a ∧ after.isReady = true ∧ card.SameDisk after := by
  have reliable : (∃ n, 511 < card.timing.response n + card.timing.token n) = False := eq_false holds.not_late
  have bound : ∀ sector, area sector → sector < card.sectors ∧ sector < 8388608 := by
    intro sector there
    have inside := within sector there
    have small := holds.small
    exact ⟨inside, by omega⟩
  apply PetitFat.ends_onCard (fun n => (holds.second n).ge) bound ?_ held
  rw [reliable, holds.medium]
  exact under

theorem ends_readHello (holds : Holds card disk l sect) {passes : Nat}
    (enough : ∀ bytes, disk.named [helloTxt] = .ok bytes → bytes.length < passes) (fs : Fatfs) (dj : Dir)
    (dir : List UInt8) {now : Card} (held : now.isReady = true ∧ card.SameDisk now) :
    Ends Card.respond (readHello passes fs dj dir) now fun out after =>
      out = some (screen disk) ∧ after.medium = card.medium := by
  have first := holds.sect_lt
  have inside := holds.inside
  have small := holds.small
  have volume : ∀ sector, disk.v.area sector → sector < card.sectors := by
    intro sector there
    rw [holds.volume] at there
    have place := l.lt_of_area there
    omega
  rw [readHello, screen]
  apply (holds.ends_onCard ?_ (pfMount_under holds.starts holds.written (by omega) fs) held).bind
  · rintro result after ⟨rfl, held⟩
    simp only [ne_eq, not_true_eq_false, if_false]
    have mounted : (fs.mount (l.volume sect)).toVolume = disk.v := holds.volume.symm
    apply (holds.ends_onCard volume (pfOpen_pathOf mounted (List.cons_ne_nil helloTxt []) 0 (.inl rfl) dj dir)
      held).bind
    rintro out after ⟨opened, held⟩
    cases found : disk.named [helloTxt] with
    | error res =>
      rw [found] at opened
      obtain rfl := opened
      rw [if_pos (disk.ne_ok_of_named found)]
      exact ends_pure ⟨rfl, held.2.medium⟩
    | ok bytes =>
      rw [found] at opened
      obtain ⟨ok, file, same, stands⟩ := opened
      rw [if_neg (not_not_intro ok), same]
      apply (holds.ends_onCard volume (printLoop_under stands (enough bytes found)) held).bind
      rintro printed after ⟨rfl, held⟩
      exact ends_pure ⟨rfl, held.2.medium⟩
  · intro sector there
    omega

/-- The test shows the file that has its name on the card, byte for byte, or that there is none. -/
theorem microTest_screen (holds : Holds card disk l sect) {passes : Nat}
    (enough : ∀ bytes, disk.named [helloTxt] = .ok bytes → bytes.length < passes) (fs : Fatfs) (dj : Dir)
    (dir : List UInt8) (response : UInt8) :
    Ends Card.respond (microTest passes fs dj dir response) card fun out after =>
      out = some (screen disk) ∧ after.medium = card.medium := by
  have accepted : startup 1 card.slow = .ok := by
    rw [startup, if_neg (by decide), if_pos holds.quick]
  apply (ends_register rfl response holds.rested holds.second).bind
  rintro started after ⟨rfl, same, ready⟩
  simp only [accepted, ne_eq, not_true_eq_false, if_false]
  exact ends_readHello holds enough fs dj dir ⟨ready accepted, same⟩

def tinyCard : Card where
  medium := tinyMedium
  sectors := 5
  csd := []
  timing := ⟨fun _ => 1, fun n => n % 4, fun _ => 9⟩
  accepts _ := true
  checksum _ := [0, 0]
  slow := 7
  idle := none
  app := false
  served := 0
  selected := false
  receiver := .command []
  out := []
  busy := 0

theorem tinyCard_holds : Holds tinyCard tinyDisk tinyLayout 0 where
  rested := by decide
  second _ := rfl
  soon n := (Nat.mod_lt n (by decide)).le.trans (by decide)
  quick := by decide
  medium := rfl
  volume := rfl
  starts := .inl rfl
  written := tinyLayout_writtenAt
  inside := by decide
  small := by decide

theorem tinyDisk_named :
    tinyDisk.named [helloTxt] = .ok (List.replicate 512 'a'.toUInt8 ++ List.replicate 88 'b'.toUInt8) := by
  decide +kernel

theorem microTest_screen_tiny :
    Ends Card.respond (microTest 601 tinyFatfs ⟨0, [], false, 0, 0, 0⟩ [] 0) tinyCard fun out after =>
      out = some (screen tinyDisk) ∧ after.medium = tinyCard.medium := by
  apply microTest_screen tinyCard_holds
  intro bytes found
  rw [tinyDisk_named] at found
  cases found
  rw [List.length_append, List.length_replicate, List.length_replicate]
  decide

end Minimus32.PetitFat
