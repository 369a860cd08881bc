import Minimus32.Hd44780.Driver

namespace Minimus32.Hd44780

open Interaction Program Register

variable {α : Type} {bench : Bench} {polls : Nat}

theorem setPort_idle (bench : Bench) {value : UInt8} (low : bit bench.port 6 = false) :
    bench.setPort value = { bench with port := value } := by
  rw [Bench.setPort, low]
  rfl

theorem setPort_rise {value : UInt8} (high : bit value 6 = true) :
    bench.setPort value = { bench with port := value } := by
  rw [Bench.setPort, high, Bool.not_true, Bool.and_false]
  rfl

/-- The end of a read that the bench is in. -/
theorem setPort_read (bench : Bench) {value : UInt8} {rs : Bool} (high : bit bench.port 6 = true)
    (reading : bit bench.port 5 = true) (select : bit bench.port 4 = rs) (low : bit value 6 = false) :
    bench.setPort value = { bench with port := value, lcd := (bench.lcd.pass 1).read rs } := by
  rw [Bench.setPort, high, reading, low, select]
  rfl

theorem setPort_write (bench : Bench) {value : UInt8} {rs : Bool} (high : bit bench.port 6 = true)
    (writing : bit bench.port 5 = false) (select : bit bench.port 4 = rs) (low : bit value 6 = false) :
    bench.setPort value = { bench with port := value, lcd := (bench.lcd.pass 1).write rs bench.driven } := by
  rw [Bench.setPort, high, writing, low, select]
  rfl

theorem ends_setPort {rest : Code α} {value : UInt8} {next : Bench} {post : α → Bench → Prop}
    (sets : bench.setPort value = next) (later : Ends Bench.respond rest next post) :
    Ends Bench.respond (setPort value >>= fun _ => rest) bench post :=
  ends_call (congrArg (fun next => some ((), next)) sets) later

/-- The value of the port for a nibble, with E low. -/
def nibblePort (rs : Bool) (nibble : UInt8) : UInt8 := (if rs then lcdData else lcdCmd) ||| (nibble &&& 0x0f)

theorem bits_nibblePort (rs : Bool) (nibble : UInt8) :
    bit (nibblePort rs nibble) 6 = false ∧ bit (nibblePort rs nibble) 5 = false ∧
    bit (nibblePort rs nibble) 4 = rs ∧ nibblePort rs nibble &&& 0xf = nibble &&& 0xf := by
  have every : ∀ (rs : Bool) (nibble : BitVec 8), bit (nibblePort rs ⟨nibble⟩) 6 = false ∧
      bit (nibblePort rs ⟨nibble⟩) 5 = false ∧ bit (nibblePort rs ⟨nibble⟩) 4 = rs ∧
      nibblePort rs ⟨nibble⟩ &&& 0xf = ⟨nibble⟩ &&& 0xf := by decide +kernel
  exact every rs nibble.toBitVec

theorem driven_out {ddr : UInt8} (out : ddr &&& 0xf = 0xf) (port floating : UInt8) :
    (port ||| (floating &&& ~~~ddr)) &&& 0xf = port &&& 0xf := by
  have inverse : ~~~ddr &&& 0xf = 0 := by
    have every : ∀ ddr : BitVec 8, (⟨ddr⟩ : UInt8) &&& 0xf = 0xf → ~~~(⟨ddr⟩ : UInt8) &&& 0xf = 0 := by decide +kernel
    exact every ddr.toBitVec out
  have masked : floating &&& ~~~ddr &&& 0xf = 0 := by rw [UInt8.and_assoc, inverse, UInt8.and_zero]
  have split : (port ||| (floating &&& ~~~ddr)) &&& 0xf = (port &&& 0xf) ||| (floating &&& ~~~ddr &&& 0xf) :=
    UInt8.toBitVec_inj.mp BitVec.and_or_distrib_right
  rw [split, masked, UInt8.or_zero]

theorem ends_writeNibble {port ddr floating : UInt8} {pace : Nat → Nat} {lcd : Lcd} (low : bit port 6 = false)
    (out : ddr &&& 0xf = 0xf) (rs : Bool) (data : UInt8) {rest : Code α} {post : α → Bench → Prop}
    (later : Ends Bench.respond rest
      ⟨nibblePort rs data, ddr, floating, pace, (lcd.pass 1).write rs (data &&& 0xf)⟩ post) :
    Ends Bench.respond (writeNibble data (if rs then lcdData else lcdCmd) >>= fun _ => rest)
      ⟨port, ddr, floating, pace, lcd⟩ post := by
  have bits := bits_nibblePort rs data
  have raised : lcdBitE ||| (if rs then lcdData else lcdCmd) ||| (data &&& 0x0f) = lcdBitE ||| nibblePort rs data :=
    UInt8.or_assoc ..
  have high : bit (lcdBitE ||| nibblePort rs data) 6 = true := by
    rw [bit_or]
    rfl
  have writing : bit (lcdBitE ||| nibblePort rs data) 5 = false := by
    rw [bit_or, bits.2.1]
    rfl
  have select : bit (lcdBitE ||| nibblePort rs data) 4 = rs := by
    rw [bit_or, bits.2.2.1]
    rfl
  have nibble : (lcdBitE ||| nibblePort rs data) &&& 0xf = data &&& 0xf := by
    have split : (lcdBitE ||| nibblePort rs data) &&& 0xf = (lcdBitE &&& 0xf) ||| (nibblePort rs data &&& 0xf) :=
      UInt8.toBitVec_inj.mp BitVec.and_or_distrib_right
    rw [split, bits.2.2.2]
    exact UInt8.zero_or
  have shape : (writeNibble data (if rs then lcdData else lcdCmd) >>= fun _ => rest) =
      (do
        setPort (nibblePort rs data)
        setPort (lcdBitE ||| nibblePort rs data)
        setPort (nibblePort rs data)
        rest) := by
    rw [← raised]
    rfl
  rw [shape]
  apply ends_setPort (setPort_idle ⟨port, ddr, floating, pace, lcd⟩ low)
  apply ends_setPort (setPort_rise high)
  apply ends_setPort (setPort_write ⟨lcdBitE ||| nibblePort rs data, ddr, floating, pace, lcd⟩ high writing select
    bits.1)
  rw [Bench.driven, driven_out out, nibble]
  exact later

theorem low_lcdBitRw : bit lcdBitRw 6 = false := by decide

theorem bits_reading : bit 0x60 6 = true ∧ bit 0x60 5 = true ∧ bit 0x60 4 = false := by decide

theorem pin_reading (bench : Bench) :
    ({ bench with port := 0x60 } : Bench).pin = 0x60 &&& 0xf0 ||| (bench.lcd.output false &&& 0xf) := by
  show (if bit 0x60 6 && bit 0x60 5 then _ ||| (bench.lcd.output (bit 0x60 4) &&& 0xf) else _) = _
  rw [bits_reading.1, bits_reading.2.1, bits_reading.2.2]
  rfl

theorem ends_readNibble (bench : Bench) (low : bit bench.port 6 = false) {rest : UInt8 → Code α}
    {post : α → Bench → Prop}
    (later : Ends Bench.respond (rest (bench.lcd.output false &&& 0xf))
      { bench with port := lcdBitRw, lcd := (bench.lcd.pass 1).read false } post) :
    Ends Bench.respond (readNibble lcdCmd >>= rest) bench post := by
  have seen : ∀ output : BitVec 8,
      ((0x60 &&& 0xf0 ||| ((⟨output⟩ : UInt8) &&& 0xf)) &&& 0b1111 : UInt8) = ⟨output⟩ &&& 0xf := by decide +kernel
  show Ends _ (setPort lcdBitRw >>= fun _ => setPort 0x60 >>= fun _ => getPin >>= fun pin =>
    setPort lcdBitRw >>= fun _ => rest (pin &&& 0b1111)) _ _
  apply ends_setPort (setPort_idle bench low)
  apply ends_setPort (setPort_rise bits_reading.1)
  apply ends_call (show Bench.respond { bench with port := 0x60 } .getPin =
    some (0x60 &&& 0xf0 ||| (bench.lcd.output false &&& 0xf), { bench with port := 0x60 }) from
    congrArg (fun pin => some (pin, _)) (pin_reading bench))
  apply ends_setPort (setPort_read { bench with port := 0x60 } bits_reading.1 bits_reading.2.1 bits_reading.2.2
    low_lcdBitRw)
  rw [show (0x60 &&& 0xf0 ||| (bench.lcd.output false &&& 0xf)) &&& 0b1111 = bench.lcd.output false &&& 0xf from
    seen (bench.lcd.output false).toBitVec]
  exact later

namespace Lcd

variable {lcd : Lcd}

/-- A display that takes bytes in two halves and has none of the next. -/
structure Aligned (lcd : Lcd) : Prop where
  fourBit : lcd.eightBit = false
  whole : lcd.half = none

/-- The display when it has finished. -/
def rested (lcd : Lcd) : Lcd := { lcd with busy := 0 }

theorem Aligned.output (aligned : lcd.Aligned) : (lcd.output false &&& 0xf) &&& 0b1000 ≠ 0 ↔ 0 < lcd.busy := by
  have every : ∀ address : BitVec 8,
      ((((0x80 ||| ((⟨address⟩ : UInt8) &&& 0x7f)) >>> 4) &&& 0xf) &&& 0b1000 ≠ 0) ∧
      ((((0 ||| ((⟨address⟩ : UInt8) &&& 0x7f)) >>> 4) &&& 0xf) &&& 0b1000 = 0) := by decide +kernel
  have cases := every (UInt8.ofNat lcd.registers.address).toBitVec
  rw [Lcd.output, aligned.fourBit, aligned.whole]
  by_cases busy : 0 < lcd.busy
  · rw [if_pos busy]
    exact iff_of_true cases.1 busy
  · rw [if_neg busy]
    exact iff_of_false (not_not_intro cases.2) busy

/-- Both halves of the status. -/
theorem Aligned.poll (aligned : lcd.Aligned) : (((lcd.pass 1).read false).pass 1).read false = lcd.pass 2 := by
  rcases lcd with ⟨registers, eightBit, half, busy, log, duration, unconnected⟩
  obtain rfl : eightBit = false := aligned.fourBit
  obtain rfl : half = none := aligned.whole
  rfl

end Lcd

theorem ends_busyLoop (low : bit bench.port 6 = false) (aligned : bench.lcd.Aligned) (enough : bench.lcd.busy < polls) :
    Ends Bench.respond (busyLoop polls) bench fun _ after =>
      after = { bench with port := lcdBitRw, lcd := bench.lcd.rested } := by
  induction polls generalizing bench with
  | zero => omega
  | succ polls ih =>
    apply ends_readNibble bench low
    apply ends_readNibble { bench with port := lcdBitRw, lcd := (bench.lcd.pass 1).read false } low_lcdBitRw
    rw [aligned.poll]
    by_cases busy : 0 < bench.lcd.busy
    · rw [if_pos (aligned.output.mpr busy)]
      have fewer : bench.lcd.busy - 2 < polls := by omega
      exact @ih { bench with port := lcdBitRw, lcd := bench.lcd.pass 2 } low_lcdBitRw ⟨aligned.1, aligned.2⟩ fewer
    · rw [if_neg (mt aligned.output.mp busy)]
      apply ends_pure
      have passed : bench.lcd.pass 2 = bench.lcd.rested := by
        rw [Lcd.pass, Lcd.rested, Nat.eq_zero_of_not_pos busy]
      rw [passed]

theorem ddr_out (ddr : UInt8) : ((ddr &&& 0b11110000) ||| 0b00001111) &&& 0xf = 0xf := by
  have every : ∀ ddr : BitVec 8, (((⟨ddr⟩ : UInt8) &&& 0b11110000) ||| 0b00001111) &&& 0xf = 0xf := by decide +kernel
  exact every ddr.toBitVec

/-- The bench when the display has been waited for. -/
def Bench.waited (bench : Bench) : Bench :=
  { bench with port := lcdBitRw, ddr := (bench.ddr &&& 0b11110000) ||| 0b00001111, lcd := bench.lcd.rested }

theorem ends_waitForDisplay (low : bit bench.port 6 = false) (aligned : bench.lcd.Aligned)
    (enough : bench.lcd.busy < polls) :
    Ends Bench.respond (waitForDisplay polls) bench fun _ after => after = bench.waited := by
  apply ends_call (show Bench.respond bench .getDdr = some (bench.ddr, bench) from rfl)
  apply ends_call (show Bench.respond bench (.setDdr (bench.ddr &&& 0b11110000)) = some ((), _) from rfl)
  apply Ends.bind (@ends_busyLoop { bench with ddr := bench.ddr &&& 0b11110000 } polls low aligned enough)
  rintro _ idle rfl
  apply ends_call (show Bench.respond _ .getDdr = some (bench.ddr &&& 0b11110000, _) from rfl)
  apply ends_call rfl
  exact ends_pure rfl

namespace Lcd

variable {lcd : Lcd}

theorem nibbles_byte (byte : UInt8) : ((byte >>> 4) &&& 0xf) <<< 4 ||| (byte &&& 0x0f &&& 0xf) = byte := by
  have every : ∀ byte : BitVec 8,
      (((⟨byte⟩ : UInt8) >>> 4) &&& 0xf) <<< 4 ||| ((⟨byte⟩ : UInt8) &&& 0x0f &&& 0xf) = ⟨byte⟩ := by decide +kernel
  exact every byte.toBitVec

theorem pass_free (free : lcd.busy = 0) (time : Nat) : lcd.pass time = lcd := by
  rw [pass, free, Nat.zero_sub, ← free]

theorem write_eight (free : lcd.busy = 0) (eight : lcd.eightBit = true) (rs : Bool) (nibble : UInt8) :
    lcd.write rs nibble = lcd.execute rs (nibble <<< 4 ||| (lcd.unconnected lcd.log.length &&& 0xf)) := by
  have idle : ¬ 0 < lcd.busy := by omega
  rw [write, if_neg idle, if_pos eight]

theorem write_first (free : lcd.busy = 0) (aligned : lcd.Aligned) (rs : Bool) (nibble : UInt8) :
    lcd.write rs nibble = { lcd with half := some nibble } := by
  have idle : ¬ 0 < lcd.busy := by omega
  rw [write, if_neg idle, aligned.fourBit, aligned.whole]
  rfl

theorem write_second {high : UInt8} (free : lcd.busy = 0) (fourBit : lcd.eightBit = false) (half : lcd.half = some high)
    (rs : Bool) (nibble : UInt8) : lcd.write rs nibble = lcd.execute rs (high <<< 4 ||| nibble) := by
  have idle : ¬ 0 < lcd.busy := by omega
  rw [write, if_neg idle, fourBit, half]
  rfl

/-- Both halves of a byte, with any time between them. -/
theorem Aligned.write (aligned : lcd.Aligned) (free : lcd.busy = 0) (rs : Bool) (byte : UInt8) (time : Nat) :
    (((((lcd.pass 1).write rs ((byte >>> 4) &&& 0xf)).pass time).pass 1).write rs (byte &&& 0x0f &&& 0xf)) =
      lcd.execute rs byte := by
  rw [pass_free free, write_first free aligned]
  have still : ({ lcd with half := some ((byte >>> 4) &&& 0xf) } : Lcd).busy = 0 := free
  rw [pass_free still, pass_free still, write_second still aligned.fourBit rfl, nibbles_byte]
  rfl

end Lcd

/-- The bench when a byte has been written. -/
def Bench.wrote (bench : Bench) (rs : Bool) (byte : UInt8) : Bench :=
  { bench with
    port := nibblePort rs (byte &&& 0x0f)
    ddr := (bench.ddr &&& 0b11110000) ||| 0b00001111
    lcd := bench.lcd.rested.execute rs byte }

theorem ends_writeByte (low : bit bench.port 6 = false) (aligned : bench.lcd.Aligned) (enough : bench.lcd.busy < polls)
    (byte : UInt8) (isCommand : Bool) :
    Ends Bench.respond (writeByte polls byte isCommand) bench fun _ after => after = bench.wrote (!isCommand) byte := by
  have type : (if isCommand then lcdCmd else lcdData) = if !isCommand then lcdData else lcdCmd := by
    cases isCommand <;> rfl
  have rested : bench.lcd.rested.Aligned := ⟨aligned.1, aligned.2⟩
  have both := rested.write rfl (!isCommand) byte (bench.pace 50)
  rw [writeByte, type]
  apply (ends_waitForDisplay low aligned enough).bind
  rintro _ waited rfl
  apply ends_writeNibble low_lcdBitRw (ddr_out bench.ddr)
  apply ends_call rfl
  have last : (writeNibble (byte &&& 0x0f) (if !isCommand then lcdData else lcdCmd)) =
      (writeNibble (byte &&& 0x0f) (if !isCommand then lcdData else lcdCmd) >>= fun _ => pure ()) := rfl
  rw [last]
  apply ends_writeNibble (bits_nibblePort _ _).1 (ddr_out bench.ddr)
  apply ends_pure
  show Bench.mk _ _ _ _ _ = _
  rw [Bench.wrote, ← both]

end Minimus32.Hd44780
