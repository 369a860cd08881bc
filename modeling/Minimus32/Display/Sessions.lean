import Minimus32.BoardSupport.SpiSetup
import Minimus32.Library.TracedRun
import Minimus32.Pcd8544.Driver

namespace Minimus32.Display

open Pcd8544 Spi

structure SpiBus where
  spiBusLock : UInt8
  registers : Registers
deriving DecidableEq

/-- A byte a driver clocks: what its obtain returned and what it passed to `spi_setup`, with the lock and the registers
    at that time. -/
structure Clocked where
  byte : UInt8
  obtained : UInt8
  speed : SpiSpeed
  flags : UInt8
  bus : SpiBus
deriving DecidableEq

def initBytes (contrast : UInt8) : List UInt8 :=
  [functionSet ||| bitExtended, extVop ||| contrast, extTempC ||| 0, extBias ||| 4, functionSet ||| bitVertical,
    displayControlNormal]

def fillScreenBytes (pattern : UInt8) : List UInt8 :=
  cmdSetY :: cmdSetX :: (List.replicate 250 pattern ++ List.replicate 254 pattern)

def columnActions (flash : Flash) : Nat → UInt16 → List Action
  | 0, _ => []
  | n + 1, bytes => .data (flash bytes) :: columnActions flash n (bytes + 1)

def charActions (flash : Flash) (yIndex height : UInt8) : Nat → UInt8 → UInt16 → List Action
  | 0, _, _ => []
  | n + 1, x, bytes =>
    .command yIndex :: .command x :: (columnActions flash height.toNat bytes ++
      charActions flash yIndex height n (x + 1) (bytes + UInt16.ofNat height.toNat))

/-- What the loop of `pcd8544_print` sends; `none` when no zero ends the string. -/
def printActions (font : VerticalByteFont) (yIndex : UInt8) : List UInt8 → UInt8 → Option (List Action)
  | [], _ => none
  | data :: string, x =>
    if data = 0 then some []
    else
      let bytes := (data.toUInt16 - font.start.toUInt16) * (font.width.toUInt16 * font.height.toUInt16)
      (printActions font yIndex string (x + UInt8.ofNat font.width.toNat)).map
        (charActions font.bytes yIndex font.height font.width.toNat x bytes ++ ·)

/-- The display takes what the action sends. -/
def act (b : Board) : Action → Board
  | .command byte => { { b with command := true }.spiIo byte with command := false }
  | .data byte => b.spiIo byte
  | .fetch _ => b

/-- The byte of an action that goes over the bus. -/
def Action.clocked : Action → Option UInt8
  | .command byte => some byte
  | .data byte => some byte
  | .fetch _ => none

inductive Session where
  | init (contrast : UInt8)
  | fillScreen (pattern : UInt8)
  | print (x yIndex : UInt8) (string : List UInt8) (font : VerticalByteFont)
  | ili9341 (blocking : UInt8) (drawing : List Action)

def clock (obtained : UInt8) (speed : SpiSpeed) (flags : UInt8) (bus : SpiBus) (bytes : List UInt8) : List Clocked :=
  bytes.map fun byte => ⟨byte, obtained, speed, flags, bus⟩

/-- The functions of `pcd8544.c` wait for the bus and do not look at the result. -/
def SpiBus.pcd8544 (bus : SpiBus) (rounds : List Bool) (bytes : List UInt8) : Option (SpiBus × List Clocked) :=
  (obtainBus 1 rounds bus.spiBusLock).map fun obtained =>
    let bus : SpiBus := ⟨obtained.2, bus.registers.setup .divider4 0⟩
    ({ bus with spiBusLock := releaseBus }, clock obtained.1 .divider4 0 bus bytes)

/-- `lcd_ili9341_obtainBus`, and the drawing and `lcd_ili9341_releaseBus` of a caller that got the bus. -/
def SpiBus.ili9341 (bus : SpiBus) (rounds : List Bool) (blocking : UInt8) (bytes : List UInt8) :
    Option (SpiBus × List Clocked) :=
  (obtainBus blocking rounds bus.spiBusLock).map fun obtained =>
    if obtained.1 ≠ 0 then
      let bus : SpiBus := ⟨obtained.2, bus.registers.setup .divider2 0⟩
      ({ bus with spiBusLock := releaseBus }, clock obtained.1 .divider2 0 bus bytes)
    else ({ bus with spiBusLock := obtained.2 }, [])

/-- A session of a driver; the rounds are those of its wait for the bus. -/
def SpiBus.perform (bus : SpiBus) : List Bool × Session → Option (SpiBus × List Clocked)
  | (rounds, .init contrast) => bus.pcd8544 rounds (initBytes contrast)
  | (rounds, .fillScreen pattern) => bus.pcd8544 rounds (fillScreenBytes pattern)
  | (rounds, .print x yIndex string font) =>
    (printActions font (yIndex + cmdSetY) string (x + cmdSetX)).bind fun actions =>
      bus.pcd8544 rounds (actions.filterMap Action.clocked)
  | (rounds, .ili9341 blocking drawing) => bus.ili9341 rounds blocking (drawing.filterMap Action.clocked)

/-- The driver holds the bus, and the registers are as it set them up, but for the clock rate. -/
structure Clocked.Configured (c : Clocked) : Prop where
  obtained : c.obtained = 1
  locked : c.bus.spiBusLock = 1
  encodes : c.bus.registers.Encodes c.flags

/-- The session is one of the ILI9341 that gets the bus and clocks a byte. -/
def SpiBus.DrawsIli9341 (bus : SpiBus) : List Bool × Session → Prop
  | (rounds, .ili9341 blocking drawing) =>
    obtainBus blocking rounds bus.spiBusLock = some (1, 1) ∧ drawing.filterMap Action.clocked ≠ []
  | (_, .init _) | (_, .fillScreen _) | (_, .print ..) => False

theorem spiIo_eq (b : Board) (byte : UInt8) :
    b.spiIo byte = { b with controller := (b.spiIo byte).controller } := by
  unfold Board.spiIo
  split <;> rfl

theorem sendBytes_eq_act (flash : Flash) (n : Nat) (bytes : UInt16) (b : Board) :
    sendBytes flash n bytes b = ((columnActions flash n bytes).foldl act b, bytes + UInt16.ofNat n) := by
  induction n generalizing bytes b with
  | zero => simp [sendBytes, columnActions]
  | succ n ih =>
    rw [sendBytes, ih, columnActions, List.foldl_cons, UInt16.ofNat_add, UInt16.add_assoc, UInt16.add_comm 1]
    rfl

theorem printColumn_eq_act (flash : Flash) (yIndex height x : UInt8) (bytes : UInt16) (b : Board) :
    printColumn flash yIndex height x bytes b =
      ((columnActions flash height.toNat bytes).foldl act (act (act b (.command yIndex)) (.command x)),
        bytes + UInt16.ofNat height.toNat) := by
  have both : act (act b (.command yIndex)) (.command x) =
      { ({ b with command := true }.spiIo yIndex).spiIo x with command := false } := by
    simp only [act]
    rw [spiIo_eq { b with command := true } yIndex]
  rw [printColumn, sendBytes_eq_act, both]

theorem printColumns_eq_act (flash : Flash) (yIndex height : UInt8) (n : Nat) (x : UInt8) (bytes : UInt16)
    (b : Board) :
    printColumns flash yIndex height n x bytes b =
      ((charActions flash yIndex height n x bytes).foldl act b, x + UInt8.ofNat n) := by
  induction n generalizing x bytes b with
  | zero => simp [printColumns, charActions]
  | succ n ih =>
    simp only [printColumns, printColumn_eq_act, ih, charActions, List.foldl_cons, List.foldl_append]
    rw [UInt8.ofNat_add, UInt8.add_assoc, UInt8.add_comm 1]
    rfl

/-- The bytes of the session are those the display takes in `pcd8544_print`. -/
theorem printString_eq_act (font : VerticalByteFont) (yIndex : UInt8) (string : List UInt8) (x : UInt8) (b : Board) :
    printString font yIndex string x b =
      (printActions font yIndex string x).map fun actions => actions.foldl act b := by
  induction string generalizing x b with
  | nil => rfl
  | cons data string ih =>
    rw [printString, printActions]
    split
    · rfl
    · simp only [printColumns_eq_act, ih, Option.map_map]
      congr 1
      funext actions
      exact List.foldl_append.symm

theorem clock_configured {obtained : UInt8 × UInt8} (got : obtained.1 = 1) (locked : obtained.2 = 1) (speed : SpiSpeed)
    (flags : UInt8) (r : Registers) (bytes : List UInt8) :
    ∀ c ∈ clock obtained.1 speed flags ⟨obtained.2, r.setup speed flags⟩ bytes, c.Configured := by
  intro c member
  obtain ⟨byte, _, rfl⟩ := List.mem_map.mp member
  exact ⟨got, locked, setup_encodes r speed flags⟩

theorem clock_divider {obtained : UInt8 × UInt8} (speed : SpiSpeed) (r : Registers) (bytes : List UInt8) :
    (∀ c ∈ clock obtained.1 speed 0 ⟨obtained.2, r.setup speed 0⟩ bytes, c.bus.registers.divider = c.speed.nominal) ↔
      speed.value < 4 ∨ bytes = [] := by
  have nominal := divider_setup_iff r speed (show (0 : UInt8) &&& 3 = 0 by decide)
  cases bytes with
  | nil => simp [clock]
  | cons byte bytes =>
    simp only [clock, List.forall_mem_map, nominal, reduceCtorEq, or_false]
    exact ⟨fun every => every byte (by simp), fun single _ _ => single⟩

theorem pcd8544_clocks {bus after : SpiBus} {rounds : List Bool} {bytes : List UInt8} {seen : List Clocked}
    (performed : bus.pcd8544 rounds bytes = some (after, seen)) :
    (∀ c ∈ seen, c.Configured) ∧ ∀ c ∈ seen, c.bus.registers.divider = c.speed.nominal := by
  obtain ⟨obtained, returned, same⟩ := Option.map_eq_some_iff.mp performed
  obtain ⟨locked, got⟩ := obtainBus_some returned
  cases same
  refine ⟨clock_configured (got.resolve_right (by simp)) locked _ _ _ _, ?_⟩
  exact (clock_divider _ _ _).mpr (.inl (by decide))

theorem ili9341_clocks {bus after : SpiBus} {rounds : List Bool} {blocking : UInt8} {drawing : List Action}
    {seen : List Clocked}
    (performed : bus.ili9341 rounds blocking (drawing.filterMap Action.clocked) = some (after, seen)) :
    (∀ c ∈ seen, c.Configured) ∧ ((∀ c ∈ seen, c.bus.registers.divider = c.speed.nominal) ↔
      ¬ bus.DrawsIli9341 (rounds, .ili9341 blocking drawing)) := by
  obtain ⟨obtained, returned, same⟩ := Option.map_eq_some_iff.mp performed
  obtain ⟨locked, got⟩ := obtainBus_some returned
  rcases got with one | ⟨zero, _⟩
  · rw [if_pos (by rw [one]; decide)] at same
    cases same
    have whole : obtained = (1, 1) := Prod.ext one locked
    refine ⟨clock_configured one locked _ _ _ _, (clock_divider _ _ _).trans ?_⟩
    have fast : ¬ SpiSpeed.divider2.value < 4 := by decide
    simp [SpiBus.DrawsIli9341, returned, whole, fast]
  · rw [if_neg (by rw [zero]; decide)] at same
    cases same
    have failed : obtained ≠ (1, 1) := fun whole => absurd (zero.symm.trans (congrArg Prod.fst whole)) (by decide)
    simp [SpiBus.DrawsIli9341, returned, failed]

theorem perform_clocks {bus after : SpiBus} {e : List Bool × Session} {seen : List Clocked}
    (performed : bus.perform e = some (after, seen)) :
    (∀ c ∈ seen, c.Configured) ∧ ((∀ c ∈ seen, c.bus.registers.divider = c.speed.nominal) ↔ ¬ bus.DrawsIli9341 e) := by
  obtain ⟨rounds, session⟩ := e
  cases session with
  | init contrast =>
    obtain ⟨configured, nominal⟩ := pcd8544_clocks performed
    exact ⟨configured, iff_of_true nominal id⟩
  | fillScreen pattern =>
    obtain ⟨configured, nominal⟩ := pcd8544_clocks performed
    exact ⟨configured, iff_of_true nominal id⟩
  | print x yIndex string font =>
    obtain ⟨actions, _, printed⟩ := Option.bind_eq_some_iff.mp performed
    obtain ⟨configured, nominal⟩ := pcd8544_clocks printed
    exact ⟨configured, iff_of_true nominal id⟩
  | ili9341 blocking drawing => exact ili9341_clocks performed

/-- In any sequence of sessions a driver that clocks a byte holds the bus and has its own mode, bit order and clock
    mode; it has its own clock rate exactly when the ILI9341 clocks nothing. -/
theorem sessions_configured_iff (bus final : SpiBus) (sessions : List (List Bool × Session)) (trace : List Clocked)
    (ran : TracedRun.run SpiBus.perform bus sessions = some (final, trace)) :
    (∀ c ∈ trace, c.Configured) ∧
      ((∀ c ∈ trace, c.Configured ∧ c.bus.registers.divider = c.speed.nominal) ↔
        TracedRun.StepsMeet SpiBus.perform (fun bus e => ¬ bus.DrawsIli9341 e) bus sessions) := by
  have always : TracedRun.StepsMeet SpiBus.perform (fun _ _ => True) bus sessions :=
    TracedRun.StepsMeet.of_forall (fun _ _ _ => trivial) bus
  have configured : ∀ c ∈ trace, c.Configured := by
    refine (TracedRun.run_forall_iff ?_ ran).mpr always
    exact fun _ _ _ _ performed => iff_of_true (perform_clocks performed).1 trivial
  refine ⟨configured, ?_⟩
  rw [← TracedRun.run_forall_iff (fun _ _ _ _ performed => (perform_clocks performed).2) ran]
  exact ⟨fun every c member => (every c member).2, fun every c member => ⟨configured c member, every c member⟩⟩

theorem sessions_configured_fillScreen :
    ∃ final trace, TracedRun.run SpiBus.perform ⟨0, ⟨0xff, 0xff⟩⟩ [([false], .fillScreen 0x55)] = some (final, trace) ∧
      trace ≠ [] ∧ ∀ c ∈ trace, c.Configured ∧ c.bus.registers.divider = c.speed.nominal := by
  have quiet : TracedRun.StepsMeet SpiBus.perform (fun bus e => ¬ bus.DrawsIli9341 e) ⟨0, ⟨0xff, 0xff⟩⟩
      [([false], .fillScreen 0x55)] := ⟨id, fun _ _ _ => trivial⟩
  refine ⟨_, _, rfl, List.cons_ne_nil _ _, ?_⟩
  exact (sessions_configured_iff _ _ [([false], .fillScreen 0x55)] _ rfl).2.mpr quiet

theorem sessions_misconfigured :
    ∃ final trace, TracedRun.run SpiBus.perform ⟨0, ⟨0, 0⟩⟩ [([false], .ili9341 1 [.command 0x2C])] =
        some (final, trace) ∧
      ∃ c ∈ trace, c.speed = .divider2 ∧ c.speed.nominal = 2 ∧ c.bus.registers.divider = 4 :=
  ⟨_, _, rfl, _, List.mem_singleton_self _, rfl, rfl, by decide⟩

end Minimus32.Display
