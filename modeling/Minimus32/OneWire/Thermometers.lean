import Minimus32.OneWire.Ds18s20

namespace Minimus32.OneWire

open Interaction Program

variable {wire : Wire Sensor} {polls : Nat}

theorem ends_address (enough : 16 < polls) (code : RomCode) (command : UInt8)
    (rested : wire.Rested Sensor.logic) :
    Ends (Wire.respond Sensor.logic) (address polls code command) wire fun _ after =>
      after.Calm Sensor.logic ∧ after.states = wire.states.map (Sensor.addressed code command) := by
  have split : wireBits code.bytes ++ lsbFirst command =
      wireBits code.romCode ++ (lsbFirst code.crc ++ lsbFirst command) := by
    rw [RomCode.bytes, wireBits_append, wireBits_cons, List.append_assoc, List.append_assoc]
    rfl
  apply (ends_reset rested).bind
  rintro _ ready ⟨calm, restarted⟩
  have hears : ∀ s ∈ ready.states, Sensor.logic.Hears s
      (lsbFirst 0x55 ++ (wireBits code.romCode ++ (lsbFirst code.crc ++ lsbFirst command))) := by
    rw [restarted, ← split]
    intro s member
    rcases List.mem_map.mp member with ⟨before, inside, rfl⟩
    exact (before.foldl_address code command).1
  apply (ends_sendByte enough calm fun s member => (Logic.hears_left (hears s member)).1).bind
  rintro _ selecting ⟨calm, selected⟩
  have hears := Logic.hears_rest hears selected
  apply (ends_sendBytes enough calm fun s member => (Logic.hears_left (hears s member)).1).bind
  rintro _ matching ⟨calm, matched⟩
  have hears := Logic.hears_rest hears matched
  apply (ends_sendByte enough calm fun s member => (Logic.hears_left (hears s member)).1).bind
  rintro _ checking ⟨calm, checked⟩
  apply (ends_sendByte enough calm (Logic.hears_rest hears checked)).mono
  rintro _ after ⟨calm, commanded⟩
  refine ⟨calm, ?_⟩
  rw [commanded, checked, matched, selected, restarted, List.map_map, List.map_map, List.map_map, List.map_map]
  apply List.map_congr_left
  intro s _
  have whole := (s.foldl_address code command).2
  rw [split, List.foldl_append, List.foldl_append, List.foldl_append] at whole
  exact whole

namespace Sensor

theorem stream_sending (s : Sensor) (bits more : List Bool) :
    logic.Speaks (s.setMode (.sending (bits ++ more))) bits.length ∧
    logic.stream (s.setMode (.sending (bits ++ more))) bits.length = bits ∧
    logic.spoken (s.setMode (.sending (bits ++ more))) bits.length = s.setMode (.sending more) := by
  induction bits with
  | nil => exact ⟨trivial, rfl, rfl⟩
  | cons bit bits ih =>
    have talks : logic.output (s.setMode (.sending (bit :: bits ++ more))) ≠ none := Option.some_ne_none bit
    exact ⟨⟨Or.inl talks, ih.1⟩, congrArg (bit :: ·) ih.2.1, ih.2.2⟩

theorem stream_deaf {s : Sensor} (deaf : logic.Deaf s) (n : Nat) :
    logic.Speaks s n ∧ logic.stream s n = List.replicate n true ∧ logic.spoken s n = s := by
  have sends : logic.sends s = true := by rw [Logic.sends, deaf.1, Option.getD_none]
  induction n with
  | zero => exact ⟨trivial, rfl, rfl⟩
  | succ n ih =>
    rw [Logic.Speaks, Logic.stream, Logic.spoken, sends, deaf.2, ih.2.1]
    exact ⟨⟨Or.inr deaf, ih.1⟩, rfl, ih.2.2⟩

theorem tells_sending (s : Sensor) (bytes : List UInt8) :
    logic.Tells (s.setMode (.sending (wireBits bytes))) bytes ∧
      logic.spoken (s.setMode (.sending (wireBits bytes))) (8 * bytes.length) = s.setMode (.sending []) := by
  induction bytes with
  | nil => exact ⟨trivial, rfl⟩
  | cons byte bytes ih =>
    have sent := s.stream_sending (lsbFirst byte) (wireBits bytes)
    rw [length_lsbFirst] at sent
    rw [Logic.Tells, Logic.byte, wireBits_cons, sent.2.1, sent.2.2, gather_lsbFirst, List.length_cons, Nat.mul_succ,
      Nat.add_comm, Logic.spoken_add, sent.2.2]
    exact ⟨⟨sent.1, rfl, ih.1⟩, ih.2⟩

theorem tells_deaf {s : Sensor} (deaf : logic.Deaf s) (n : Nat) :
    logic.Tells s (List.replicate n 0xff) ∧ logic.spoken s (8 * n) = s := by
  refine ⟨?_, (stream_deaf deaf (8 * n)).2.2⟩
  induction n with
  | zero => trivial
  | succ n ih =>
    have quiet := stream_deaf deaf 8
    have ones : gather 0 (List.replicate 8 true) = 0xff := by decide
    rw [List.replicate_succ, Logic.Tells, Logic.byte, quiet.2.1, quiet.2.2]
    exact ⟨quiet.1, ones, ih⟩

end Sensor

namespace Thermometer

/-- What a thermometer has on the wire when this code is read. -/
def said (code : RomCode) (t : Thermometer) : List UInt8 := if t.rom = code then t.held else List.replicate 9 0xff

theorem length_said (code : RomCode) (t : Thermometer) : (t.said code).length = 9 := by
  rw [said]
  split
  · exact t.length_scratchpad _
  · exact List.length_replicate

/-- Only the thermometer that is meant does something. -/
def only (code : RomCode) (act : Thermometer → Thermometer) (t : Thermometer) : Thermometer :=
  if t.rom = code then act t else t

theorem rom_only (code : RomCode) (act : Thermometer → Thermometer) (same : ∀ t, (act t).rom = t.rom)
    (t : Thermometer) : (t.only code act).rom = t.rom := by
  rw [only]
  split
  · exact same t
  · rfl

end Thermometer

theorem Sensor.tells_addressed (s : Sensor) (code : RomCode) :
    logic.Tells (s.addressed code 0xbe) (s.said code) ∧
    logic.Deaf (logic.spoken (s.addressed code 0xbe) 72) ∧
    (logic.spoken (s.addressed code 0xbe) 72).toThermometer = s.toThermometer.only code Thermometer.read := by
  rw [addressed, Thermometer.said, Thermometer.only]
  by_cases meant : s.rom = code
  · have told := tells_sending ⟨s.toThermometer.read, .deaf⟩ s.held
    have length : s.held.length = 9 := s.length_scratchpad _
    rw [length] at told
    have spoken : logic.spoken ⟨s.toThermometer.read, .sending (wireBits s.held)⟩ 72 = _ := told.2
    rw [if_pos meant, if_pos meant, if_pos meant, obey, if_pos rfl, spoken]
    exact ⟨told.1, deaf_sent _, rfl⟩
  · have quiet := tells_deaf s.deaf_setMode 9
    rw [if_neg meant, if_neg meant, if_neg meant, quiet.2]
    exact ⟨quiet.1, s.deaf_setMode, rfl⟩

theorem Sensor.converts_addressed (s : Sensor) (code : RomCode) :
    logic.Deaf (s.addressed code 0x44) ∧
    (s.addressed code 0x44).toThermometer = s.toThermometer.only code Thermometer.convert := by
  have other : lsbFirst 0x44 ≠ lsbFirst 0xbe := by decide
  rw [addressed, Thermometer.only]
  by_cases meant : s.rom = code
  · rw [if_pos meant, if_pos meant, obey, if_neg other, if_pos rfl]
    exact ⟨⟨rfl, fun _ => rfl⟩, rfl⟩
  · rw [if_neg meant, if_neg meant]
    exact ⟨s.deaf_setMode, rfl⟩

inductive Request where
  | startConversion (code : RomCode)
  | readScratchpad (code : RomCode)

def request (polls : Nat) : Request → Code (List (UInt8 × List UInt8))
  | .startConversion code => do
    ds18s20BlockingStartConversion polls code
    pure []
  | .readScratchpad code => do
    let result ← ds18s20BlockingReadScratchpad polls code
    pure [result]

def requestAll (polls : Nat) : List Request → Code (List (UInt8 × List UInt8))
  | [] => pure []
  | first :: requests => do
    let results ← request polls first
    let more ← requestAll polls requests
    pure (results ++ more)

/-- The scratchpad that is read from these thermometers. -/
def answer (thermometers : List Thermometer) (code : RomCode) : List UInt8 :=
  match thermometers.find? fun t => t.rom = code with
  | some t => t.held
  | none => List.replicate 9 0xff

/-- What the driver is for: each thermometer converts and is read by its own code. -/
def serve (thermometers : List Thermometer) : Request → List (UInt8 × List UInt8) × List Thermometer
  | .startConversion code => ([], thermometers.map (Thermometer.only code Thermometer.convert))
  | .readScratchpad code =>
    ([(1, answer thermometers code)], thermometers.map (Thermometer.only code Thermometer.read))

def serveAll (thermometers : List Thermometer) : List Request → List (UInt8 × List UInt8) × List Thermometer
  | [] => ([], thermometers)
  | first :: requests =>
    let served := serve thermometers first
    let rest := serveAll served.2 requests
    (served.1 ++ rest.1, rest.2)

theorem zipWith_and_ones (bytes : List UInt8) :
    List.zipWith (· &&& ·) bytes (List.replicate bytes.length 0xff) = bytes := by
  induction bytes with
  | nil => rfl
  | cons byte bytes ih =>
    rw [List.length_cons, List.replicate_succ, List.zipWith_cons_cons, ih]
    exact congrArg (· :: bytes) (UInt8.and_neg_one)

theorem zipWith_ones_and (bytes : List UInt8) :
    List.zipWith (· &&& ·) (List.replicate bytes.length 0xff) bytes = bytes := by
  rw [List.zipWith_comm_of_comm UInt8.and_comm, zipWith_and_ones]

theorem wiredAnd_absent {thermometers : List Thermometer} {code : RomCode}
    (absent : ∀ t ∈ thermometers, t.rom ≠ code) :
    wiredAnd 9 (thermometers.map (Thermometer.said code)) = List.replicate 9 0xff := by
  induction thermometers with
  | nil => rfl
  | cons t thermometers ih =>
    have rest := ih fun other member => absent other (List.mem_cons_of_mem _ member)
    have silent : t.said code = List.replicate 9 0xff := if_neg (absent t List.mem_cons_self)
    rw [List.map_cons, wiredAnd, List.foldr_cons, ← wiredAnd, rest, silent]
    decide

theorem wiredAnd_answer {thermometers : List Thermometer} (code : RomCode)
    (distinct : (thermometers.map Thermometer.rom).Nodup) :
    wiredAnd 9 (thermometers.map (Thermometer.said code)) = answer thermometers code := by
  induction thermometers with
  | nil => rfl
  | cons t thermometers ih =>
    rw [List.map_cons, List.nodup_cons] at distinct
    rw [List.map_cons, wiredAnd, List.foldr_cons, ← wiredAnd, answer]
    by_cases meant : t.rom = code
    · have absent : ∀ other ∈ thermometers, other.rom ≠ code := by
        intro other member same
        exact distinct.1 (meant ▸ same ▸ List.mem_map_of_mem member)
      have whole := zipWith_and_ones (t.said code)
      rw [t.length_said] at whole
      rw [wiredAnd_absent absent, whole, List.find?_cons_of_pos (by simpa using meant), Thermometer.said, if_pos meant]
    · have silent : t.said code = List.replicate 9 0xff := if_neg meant
      have length : (wiredAnd 9 (thermometers.map (Thermometer.said code))).length = 9 := by
        apply length_wiredAnd
        intro bytes member
        rcases List.mem_map.mp member with ⟨other, inside, rfl⟩
        exact other.length_said code
      have whole := zipWith_ones_and (wiredAnd 9 (thermometers.map (Thermometer.said code)))
      rw [length] at whole
      rw [silent, whole, ih distinct.2, List.find?_cons_of_neg (by simpa using meant), answer]

def thermometers (wire : Wire Sensor) : List Thermometer := wire.states.map Sensor.toThermometer

theorem ends_startConversion (enough : 16 < polls) (rested : wire.Rested Sensor.logic) (code : RomCode) :
    Ends (Wire.respond Sensor.logic) (ds18s20BlockingStartConversion polls code) wire fun _ after =>
      thermometers after = (serve (thermometers wire) (.startConversion code)).2 ∧ after.Rested Sensor.logic := by
  apply (ends_address enough code 0x44 rested).mono
  rintro _ after ⟨calm, states⟩
  constructor
  · rw [thermometers, serve, thermometers, states, List.map_map, List.map_map]
    apply List.map_congr_left
    intro s _
    exact (s.converts_addressed code).2
  · apply calm.rested
    intro s member
    rw [states] at member
    rcases List.mem_map.mp member with ⟨before, -, rfl⟩
    exact (before.converts_addressed code).1.spared

theorem ends_readScratchpad (enough : 16 < polls) (rested : wire.Rested Sensor.logic)
    (distinct : ((thermometers wire).map Thermometer.rom).Nodup) (code : RomCode) :
    Ends (Wire.respond Sensor.logic) (ds18s20BlockingReadScratchpad polls code) wire fun result after =>
      result = (1, answer (thermometers wire) code) ∧
      thermometers after = (serve (thermometers wire) (.readScratchpad code)).2 ∧ after.Rested Sensor.logic := by
  apply (ends_address enough code 0xbe rested).bind
  rintro _ asked ⟨calm, states⟩
  have tells : ∀ s ∈ wire.states, Sensor.logic.Tells (s.addressed code 0xbe) (s.said code) := fun s _ =>
    (s.tells_addressed code).1
  have speaks : ∀ s ∈ asked.states, Sensor.logic.Speaks s (8 * 9) := by
    rw [states]
    intro s member
    rcases List.mem_map.mp member with ⟨before, inside, rfl⟩
    have talks := (tells before inside).speaks
    rwa [Thermometer.length_said] at talks
  apply (ends_readBytes enough calm speaks).bind
  rintro bytes after ⟨rfl, quiet, spoken⟩
  rw [states] at spoken ⊢
  apply ends_pure
  have read := readout_eq (fun s (_ : s ∈ wire.states) => s.length_said code) tells
  have columns : wire.states.map (fun s => s.said code) = (thermometers wire).map (Thermometer.said code) := by
    rw [thermometers, List.map_map]
    rfl
  refine ⟨?_, ?_, quiet.rested ?_⟩
  · rw [read, columns, wiredAnd_answer code distinct]
  · rw [thermometers, serve, thermometers, spoken, List.map_map, List.map_map, List.map_map]
    apply List.map_congr_left
    intro s _
    exact (s.tells_addressed code).2.2
  · intro s member
    rw [spoken, List.map_map] at member
    rcases List.mem_map.mp member with ⟨before, -, rfl⟩
    exact (before.tells_addressed code).2.1.spared

theorem rom_serve (thermometers : List Thermometer) (first : Request) :
    (serve thermometers first).2.map Thermometer.rom = thermometers.map Thermometer.rom := by
  cases first with
  | startConversion code =>
    rw [serve, List.map_map]
    exact List.map_congr_left fun t _ => t.rom_only code Thermometer.convert fun _ => rfl
  | readScratchpad code =>
    rw [serve, List.map_map]
    exact List.map_congr_left fun t _ => t.rom_only code Thermometer.read fun _ => rfl

theorem ends_request (enough : 16 < polls) (rested : wire.Rested Sensor.logic)
    (distinct : ((thermometers wire).map Thermometer.rom).Nodup) (first : Request) :
    Ends (Wire.respond Sensor.logic) (request polls first) wire fun results after =>
      (results, thermometers after) = serve (thermometers wire) first ∧ after.Rested Sensor.logic := by
  cases first with
  | startConversion code =>
    apply (ends_startConversion enough rested code).bind
    rintro _ after ⟨converted, rested⟩
    exact ends_pure ⟨by rw [converted, serve], rested⟩
  | readScratchpad code =>
    apply (ends_readScratchpad enough rested distinct code).bind
    rintro result after ⟨rfl, read, rested⟩
    exact ends_pure ⟨by rw [read, serve], rested⟩

theorem ends_requestAll (enough : 16 < polls) (rested : wire.Rested Sensor.logic)
    (distinct : ((thermometers wire).map Thermometer.rom).Nodup) (requests : List Request) :
    Ends (Wire.respond Sensor.logic) (requestAll polls requests) wire fun results after =>
      (results, thermometers after) = serveAll (thermometers wire) requests ∧ after.Rested Sensor.logic := by
  induction requests generalizing wire with
  | nil => exact ends_pure ⟨rfl, rested⟩
  | cons first requests ih =>
    apply (ends_request enough rested distinct first).bind
    rintro results next ⟨served, rested⟩
    have still : thermometers next = (serve (thermometers wire) first).2 := congrArg Prod.snd served
    have firstResults : results = (serve (thermometers wire) first).1 := congrArg Prod.fst served
    rw [← rom_serve _ first, ← still] at distinct
    apply (ih rested distinct).bind
    rintro more after ⟨rest, rested⟩
    rw [still] at rest
    apply ends_pure
    refine ⟨?_, rested⟩
    rw [serveAll, ← rest, firstResults]

/-- The devices wait for a command when the wire has been initialised. -/
theorem ends_onewireInit (rested : wire.Rested Sensor.logic) :
    Ends (Wire.respond Sensor.logic) onewireInit wire fun _ after =>
      after.states = wire.states.map Sensor.restart ∧ thermometers after = thermometers wire ∧
      after.Rested Sensor.logic ∧ after.Calm Sensor.logic := by
  apply (ends_reset rested).mono
  rintro _ after ⟨calm, states⟩
  refine ⟨states, ?_, calm.rested ?_, calm⟩
  · rw [thermometers, states, List.map_map, thermometers]
    rfl
  · intro s member
    rw [states] at member
    rcases List.mem_map.mp member with ⟨before, -, rfl⟩
    exact before.spared_restart

def initAndRequest (polls : Nat) (requests : List Request) : Code (List (UInt8 × List UInt8)) := do
  onewireInit
  requestAll polls requests

/-- The requests reach the thermometers that they are for. -/
theorem requestAll_served (enough : 16 < polls) (rested : wire.Rested Sensor.logic)
    (distinct : ((thermometers wire).map Thermometer.rom).Nodup) (requests : List Request) :
    Ends (Wire.respond Sensor.logic) (initAndRequest polls requests) wire fun results after =>
      (results, thermometers after) = serveAll (thermometers wire) requests ∧ after.Rested Sensor.logic := by
  apply (ends_onewireInit rested).bind
  rintro _ ready ⟨-, same, rested, -⟩
  rw [← same] at distinct ⊢
  exact ends_requestAll enough rested distinct requests

def plainTiming : Timing where
  sample _ := 480
  hold _ := 480
  presenceDelay _ := 480
  presenceLength _ := 1920
  sample_ge _ := by decide
  sample_lt _ := by decide
  hold_ge _ := by decide
  hold_le _ := by decide
  delay_le _ := by decide
  length_le _ := by decide

def plainClock : Clock := ⟨fun _ => 4, fun _ => 4, fun _ => by decide, fun _ => by decide⟩

def kitchen : RomCode := ⟨[0x10, 1, 0, 0, 0, 0, 0], 0x2f, rfl⟩

def cellar : RomCode := ⟨[0x10, 2, 0, 0, 0, 0, 0], 0xcd, rfl⟩

/-- The first read comes too early for the conversion in front of it. -/
def plainSensor (code : RomCode) : Sensor where
  rom := code
  scratchpad conversions := [UInt8.ofNat conversions, 0, 0, 0, 0xff, 0xff, 0, 16, 0]
  length_scratchpad _ := rfl
  finished conversions reads := if reads = 0 then conversions - 1 else conversions
  finished_le conversions reads := by split <;> omega
  conversions := 0
  reads := 0
  mode := .deaf

def plainWire (codes : List RomCode) : Wire Sensor where
  clock := plainClock
  count := 0
  now := 0
  atomic := false
  low := false
  fell := 0
  slaves := codes.map fun code => ⟨plainTiming, plainSensor code, 0, none, 0, 0⟩

theorem rested_plainWire (codes : List RomCode) : (plainWire codes).Rested Sensor.logic := by
  intro slave member
  rcases List.mem_map.mp member with ⟨code, -, rfl⟩
  exact ⟨.inl rfl, (plainSensor code).deaf_setMode.spared⟩

theorem requestAll_served_pair :
    (serveAll (thermometers (plainWire [kitchen, cellar]))
      [.startConversion cellar, .readScratchpad cellar, .readScratchpad kitchen, .readScratchpad cellar]).1 =
      [(1, [0, 0, 0, 0, 0xff, 0xff, 0, 16, 0]), (1, [0, 0, 0, 0, 0xff, 0xff, 0, 16, 0]),
        (1, [1, 0, 0, 0, 0xff, 0xff, 0, 16, 0])] ∧
    Ends (Wire.respond Sensor.logic)
      (initAndRequest 17
        [.startConversion cellar, .readScratchpad cellar, .readScratchpad kitchen, .readScratchpad cellar])
      (plainWire [kitchen, cellar]) fun results after =>
        (results, thermometers after) = serveAll (thermometers (plainWire [kitchen, cellar]))
          [.startConversion cellar, .readScratchpad cellar, .readScratchpad kitchen, .readScratchpad cellar] ∧
        after.Rested Sensor.logic :=
  ⟨by decide, requestAll_served (by decide) (rested_plainWire _) (by decide) _⟩

end Minimus32.OneWire
