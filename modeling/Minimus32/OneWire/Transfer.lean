import Minimus32.BoardSupport.OneWire
import Minimus32.OneWire.Slots

namespace Minimus32.OneWire

open Interaction Program

variable {σ : Type} {logic : Logic σ} {wire : Wire σ}

/-- The bits that the loop of onewire_send_byte goes through. -/
def lowBits : Nat → UInt8 → List Bool
  | 0, _ => []
  | n + 1, byte => decide (byte &&& 1 ≠ 0) :: lowBits n (byte >>> 1)

/-- The byte that the loop of onewire_read_byte puts together. -/
def gather (result : UInt8) (bits : List Bool) : UInt8 :=
  bits.foldl (fun result bit => if bit then result >>> 1 ||| 128 else result >>> 1) result

theorem lowBits_eq (byte : UInt8) : lowBits 8 byte = lsbFirst byte := by
  have every : ∀ bits : BitVec 8, lowBits 8 ⟨bits⟩ = lsbFirst ⟨bits⟩ := by decide +kernel
  exact every byte.toBitVec

theorem gather_lsbFirst (byte : UInt8) : gather 0 (lsbFirst byte) = byte := by
  have every : ∀ bits : BitVec 8, gather 0 (lsbFirst ⟨bits⟩) = ⟨bits⟩ := by decide +kernel
  exact every byte.toBitVec

theorem wireBits_injective {left right : List UInt8} (same : wireBits left = wireBits right) : left = right := by
  have lengths := congrArg List.length same
  rw [length_wireBits, length_wireBits] at lengths
  induction left generalizing right with
  | nil =>
    rw [List.length_nil] at lengths
    exact (List.length_eq_zero_iff.mp (by omega)).symm
  | cons byte bytes ih =>
    rw [List.length_cons] at lengths
    rcases List.exists_cons_of_length_pos (show 0 < right.length by omega) with ⟨first, rest, rfl⟩
    rw [wireBits_cons, wireBits_cons] at same
    have parts := List.append_inj same ((length_lsbFirst byte).trans (length_lsbFirst first).symm)
    rw [List.length_cons] at lengths
    rw [lsbFirst_injective parts.1, ih parts.2 (by omega)]

theorem lsbFirst_and (left right : UInt8) :
    lsbFirst (left &&& right) = List.zipWith and (lsbFirst left) (lsbFirst right) := by
  simp only [lsbFirst, List.zipWith_map, List.zipWith_self]
  apply List.map_congr_left
  intro i _
  exact Register.bit_and left right i

namespace Logic

/-- A device that listens to all of these bits. -/
def Hears (logic : Logic σ) : σ → List Bool → Prop
  | _, [] => True
  | state, bit :: bits => logic.output state = none ∧ logic.Hears (logic.step state bit) bits

/-- A device that sends in each of so many slots, or does nothing. -/
def Speaks (logic : Logic σ) : σ → Nat → Prop
  | _, 0 => True
  | state, n + 1 =>
    (logic.output state ≠ none ∨ logic.Deaf state) ∧ logic.Speaks (logic.step state (logic.sends state)) n

/-- What a device lets the wire have in so many slots. -/
def stream (logic : Logic σ) : σ → Nat → List Bool
  | _, 0 => []
  | state, n + 1 => logic.sends state :: logic.stream (logic.step state (logic.sends state)) n

/-- A device after so many slots in which it sends. -/
def spoken (logic : Logic σ) : σ → Nat → σ
  | state, 0 => state
  | state, n + 1 => logic.spoken (logic.step state (logic.sends state)) n

/-- What is read from several devices at once. -/
def heard (logic : Logic σ) (states : List σ) (n : Nat) : List Bool :=
  states.foldr (fun state bits => List.zipWith and (logic.stream state n) bits) (List.replicate n true)

theorem heard_succ (logic : Logic σ) (states : List σ) (n : Nat) :
    logic.heard states (n + 1) =
      states.all logic.sends :: logic.heard (states.map fun state => logic.step state (logic.sends state)) n := by
  induction states with
  | nil => rfl
  | cons state states ih =>
    rw [heard, List.foldr_cons, ← heard, ih]
    rfl

end Logic

theorem ends_sendBits {polls n : Nat} {byte : UInt8} (enough : 16 < polls) (calm : wire.Calm logic)
    (hears : ∀ state ∈ wire.states, logic.Hears state (lowBits n byte)) :
    Ends (Wire.respond logic) (sendBits polls n byte) wire fun _ after =>
      after.Calm logic ∧ after.states = wire.states.map fun state => (lowBits n byte).foldl logic.step state := by
  induction n generalizing wire byte with
  | zero => exact ends_pure ⟨calm, (List.map_id _).symm⟩
  | succ n ih =>
    apply (ends_waitIdle calm (fun slave member => (calm.pulled slave member).2) enough).bind
    rintro _ idle ⟨isIdle, -, same⟩
    rw [← same] at hears ⊢
    apply (ends_sendSlot isIdle (fun state member => (hears state member).1) _).bind
    rintro _ after ⟨calm, stepped⟩
    have later : ∀ state ∈ after.states, logic.Hears state (lowBits n (byte >>> 1)) := by
      rw [stepped]
      intro state member
      obtain ⟨before, inside, rfl⟩ := List.mem_map.mp member
      exact (hears before inside).2
    apply (ih calm later).mono
    rintro _ final ⟨calm, states⟩
    refine ⟨calm, ?_⟩
    rw [states, stepped, List.map_map]
    rfl

theorem ends_readBits {polls n : Nat} {result : UInt8} (enough : 16 < polls) (calm : wire.Calm logic)
    (speaks : ∀ state ∈ wire.states, logic.Speaks state n) :
    Ends (Wire.respond logic) (readBits polls n result) wire fun byte after =>
      byte = gather result (logic.heard wire.states n) ∧ after.Calm logic ∧
      after.states = wire.states.map fun state => logic.spoken state n := by
  induction n generalizing wire result with
  | zero =>
    apply ends_pure
    refine ⟨?_, calm, (List.map_id _).symm⟩
    have nothing : ∀ states : List σ, logic.heard states 0 = [] := by
      intro states
      cases states <;> rfl
    rw [nothing]
    rfl
  | succ n ih =>
    apply (ends_waitIdle calm (fun slave member => (calm.pulled slave member).2) enough).bind
    rintro _ idle ⟨isIdle, -, same⟩
    rw [← same] at speaks ⊢
    apply (ends_readSlot isIdle fun state member => (speaks state member).1).bind
    rintro high after ⟨rfl, calm, stepped⟩
    have later : ∀ state ∈ after.states, logic.Speaks state n := by
      rw [stepped]
      intro state member
      obtain ⟨before, inside, rfl⟩ := List.mem_map.mp member
      exact (speaks before inside).2
    apply (ih calm later).mono
    rintro byte final ⟨rfl, calm, states⟩
    refine ⟨?_, calm, ?_⟩
    · rw [stepped, logic.heard_succ]
      rfl
    · rw [states, stepped, List.map_map]
      rfl

theorem lsbFirst_gather {bits : List Bool} (eight : bits.length = 8) : lsbFirst (gather 0 bits) = bits := by
  match bits, eight with
  | [a, b, c, d, e, f, g, h], _ =>
    revert a b c d e f g h
    decide +kernel

/-- The byte that a device sends in the next eight slots. -/
def Logic.byte (logic : Logic σ) (state : σ) : UInt8 := gather 0 (logic.stream state 8)

theorem length_stream (state : σ) (n : Nat) : (logic.stream state n).length = n := by
  induction n generalizing state with
  | zero => rfl
  | succ n ih => rw [Logic.stream, List.length_cons, ih]

/-- The wire makes one byte of those that are sent at once. -/
theorem gather_heard (states : List σ) :
    gather 0 (logic.heard states 8) = states.foldr (fun state byte => logic.byte state &&& byte) 0xff := by
  have bits : logic.heard states 8 = lsbFirst (states.foldr (fun state byte => logic.byte state &&& byte) 0xff) := by
    induction states with
    | nil =>
      show List.replicate 8 true = lsbFirst 0xff
      decide
    | cons state states ih =>
      rw [List.foldr_cons, lsbFirst_and, ← ih, Logic.byte, lsbFirst_gather (length_stream state 8)]
      rfl
  rw [bits, gather_lsbFirst]

theorem Logic.hears_append {state : σ} {left right : List Bool} (first : logic.Hears state left)
    (second : logic.Hears (left.foldl logic.step state) right) : logic.Hears state (left ++ right) := by
  induction left generalizing state with
  | nil => exact second
  | cons bit left ih => exact ⟨first.1, ih first.2 second⟩

theorem Logic.hears_left {state : σ} {left right : List Bool} (both : logic.Hears state (left ++ right)) :
    logic.Hears state left ∧ logic.Hears (left.foldl logic.step state) right := by
  induction left generalizing state with
  | nil => exact ⟨trivial, both⟩
  | cons bit left ih =>
    have rest := ih both.2
    exact ⟨⟨both.1, rest.1⟩, rest.2⟩

theorem Logic.hears_rest {states after : List σ} {left right : List Bool}
    (both : ∀ state ∈ states, logic.Hears state (left ++ right))
    (stepped : after = states.map fun state => left.foldl logic.step state) :
    ∀ state ∈ after, logic.Hears state right := by
  rw [stepped]
  intro state member
  rcases List.mem_map.mp member with ⟨before, inside, rfl⟩
  exact (Logic.hears_left (both before inside)).2

/-- A device that collects bits until there are eight of them. -/
theorem Logic.foldl_collect (logic : Logic σ) (collect finish : List Bool → σ)
    (quiet : ∀ bits, logic.output (collect bits) = none)
    (another : ∀ bits bit, bits.length < 7 → logic.step (collect bits) bit = collect (bits ++ [bit]))
    (last : ∀ bits bit, bits.length = 7 → logic.step (collect bits) bit = finish (bits ++ [bit]))
    {bits more : List Bool} (eight : bits.length + more.length = 8) (short : bits.length < 8) :
    logic.Hears (collect bits) more ∧ more.foldl logic.step (collect bits) = finish (bits ++ more) := by
  induction more generalizing bits with
  | nil =>
    simp only [List.length_nil] at eight
    omega
  | cons bit more ih =>
    rw [List.length_cons] at eight
    rw [Hears, List.foldl_cons]
    by_cases room : bits.length < 7
    · have length : (bits ++ [bit]).length = bits.length + 1 := List.length_append
      have later := ih (show (bits ++ [bit]).length + more.length = 8 by omega) (by omega)
      rw [List.append_assoc, List.singleton_append] at later
      rw [another bits bit room]
      exact ⟨⟨quiet bits, later.1⟩, later.2⟩
    · obtain rfl : more = [] := List.length_eq_zero_iff.mp (by omega)
      rw [last bits bit (by omega)]
      exact ⟨⟨quiet bits, trivial⟩, rfl⟩

def sendBytes (polls : Nat) : List UInt8 → Code Unit
  | [] => pure ()
  | byte :: bytes => do
    onewireSendByte polls byte
    sendBytes polls bytes

def readBytes (polls : Nat) : Nat → Code (List UInt8)
  | 0 => pure []
  | n + 1 => do
    let byte ← onewireReadByte polls
    let bytes ← readBytes polls n
    pure (byte :: bytes)

/-- What is read from several devices at once, byte by byte. -/
def Logic.readout (logic : Logic σ) : List σ → Nat → List UInt8
  | _, 0 => []
  | states, n + 1 =>
    states.foldr (fun state byte => logic.byte state &&& byte) 0xff :: logic.readout (states.map (logic.spoken · 8)) n

theorem ends_sendByte {polls : Nat} {byte : UInt8} (enough : 16 < polls) (calm : wire.Calm logic)
    (hears : ∀ state ∈ wire.states, logic.Hears state (lsbFirst byte)) :
    Ends (Wire.respond logic) (onewireSendByte polls byte) wire fun _ after =>
      after.Calm logic ∧ after.states = wire.states.map fun state => (lsbFirst byte).foldl logic.step state := by
  rw [← lowBits_eq] at hears ⊢
  exact ends_sendBits enough calm hears

theorem ends_sendBytes {polls : Nat} {bytes : List UInt8} (enough : 16 < polls) (calm : wire.Calm logic)
    (hears : ∀ state ∈ wire.states, logic.Hears state (wireBits bytes)) :
    Ends (Wire.respond logic) (sendBytes polls bytes) wire fun _ after =>
      after.Calm logic ∧ after.states = wire.states.map fun state => (wireBits bytes).foldl logic.step state := by
  induction bytes generalizing wire with
  | nil => exact ends_pure ⟨calm, (List.map_id _).symm⟩
  | cons byte bytes ih =>
    simp only [wireBits_cons] at hears ⊢
    apply (ends_sendByte enough calm fun state member => (Logic.hears_left (hears state member)).1).bind
    rintro _ after ⟨calm, stepped⟩
    apply (ih calm (Logic.hears_rest hears stepped)).mono
    rintro _ final ⟨calm, states⟩
    refine ⟨calm, ?_⟩
    rw [states, stepped, List.map_map]
    apply List.map_congr_left
    intro state _
    rw [Function.comp_apply, List.foldl_append]

theorem Logic.spoken_add (state : σ) (m n : Nat) :
    logic.spoken state (m + n) = logic.spoken (logic.spoken state m) n := by
  induction m generalizing state with
  | zero => rw [Nat.zero_add, spoken]
  | succ m ih => rw [Nat.add_right_comm, spoken, ih, spoken]

theorem Logic.speaks_add {state : σ} {m n : Nat} (both : logic.Speaks state (m + n)) :
    logic.Speaks state m ∧ logic.Speaks (logic.spoken state m) n := by
  induction m generalizing state with
  | zero => exact ⟨trivial, by rw [Nat.zero_add] at both; exact both⟩
  | succ m ih =>
    rw [Nat.add_right_comm] at both
    have rest := ih both.2
    exact ⟨⟨both.1, rest.1⟩, rest.2⟩

theorem ends_readBytes {polls n : Nat} (enough : 16 < polls) (calm : wire.Calm logic)
    (speaks : ∀ state ∈ wire.states, logic.Speaks state (8 * n)) :
    Ends (Wire.respond logic) (readBytes polls n) wire fun bytes after =>
      bytes = logic.readout wire.states n ∧ after.Calm logic ∧
      after.states = wire.states.map fun state => logic.spoken state (8 * n) := by
  induction n generalizing wire with
  | zero => exact ends_pure ⟨rfl, calm, (List.map_id _).symm⟩
  | succ n ih =>
    simp only [Nat.mul_succ, Nat.add_comm (8 * n) 8] at speaks ⊢
    apply (ends_readBits enough calm fun state member => (Logic.speaks_add (speaks state member)).1).bind
    rintro byte after ⟨rfl, calm, spoken⟩
    have later : ∀ state ∈ after.states, logic.Speaks state (8 * n) := by
      rw [spoken]
      intro state member
      obtain ⟨before, inside, rfl⟩ := List.mem_map.mp member
      exact (Logic.speaks_add (speaks before inside)).2
    apply (ih calm later).bind
    rintro bytes final ⟨rfl, calm, states⟩
    apply ends_pure
    refine ⟨?_, calm, ?_⟩
    · rw [Logic.readout, gather_heard, spoken]
    · rw [states, spoken, List.map_map]
      apply List.map_congr_left
      intro state _
      rw [Function.comp_apply, ← Logic.spoken_add]

/-- A device that is about to send these bytes. -/
def Logic.Tells (logic : Logic σ) : σ → List UInt8 → Prop
  | _, [] => True
  | state, byte :: bytes => logic.Speaks state 8 ∧ logic.byte state = byte ∧ logic.Tells (logic.spoken state 8) bytes

theorem Logic.speaks_add_of {state : σ} {m n : Nat} (first : logic.Speaks state m)
    (second : logic.Speaks (logic.spoken state m) n) : logic.Speaks state (m + n) := by
  induction m generalizing state with
  | zero => rwa [Nat.zero_add]
  | succ m ih =>
    rw [Nat.add_right_comm]
    exact ⟨first.1, ih first.2 second⟩

theorem Logic.Tells.speaks {state : σ} {bytes : List UInt8} (tells : logic.Tells state bytes) :
    logic.Speaks state (8 * bytes.length) := by
  induction bytes generalizing state with
  | nil => trivial
  | cons byte bytes ih =>
    rw [List.length_cons, Nat.mul_succ, Nat.add_comm]
    exact Logic.speaks_add_of tells.1 (ih tells.2.2)

/-- What the wire makes of bytes that are sent at once. -/
def wiredAnd (n : Nat) (said : List (List UInt8)) : List UInt8 :=
  said.foldr (List.zipWith (· &&& ·)) (List.replicate n 0xff)

theorem length_wiredAnd {n : Nat} {said : List (List UInt8)} (length : ∀ bytes ∈ said, bytes.length = n) :
    (wiredAnd n said).length = n := by
  induction said with
  | nil => exact List.length_replicate
  | cons bytes said ih =>
    have rest := ih fun bytes member => length bytes (List.mem_cons_of_mem _ member)
    rw [wiredAnd, List.foldr_cons, List.length_zipWith, ← wiredAnd, rest, length bytes List.mem_cons_self, Nat.min_self]

section Readout

variable {ι : Type} {state : ι → σ} {said : ι → List UInt8}

theorem foldr_byte {items : List ι} (tells : ∀ item ∈ items, logic.byte (state item) = (said item).headD 0xff) :
    (items.map state).foldr (fun state byte => logic.byte state &&& byte) 0xff =
      (items.map fun item => (said item).headD 0xff).foldr (· &&& ·) 0xff := by
  induction items with
  | nil => rfl
  | cons item items ih =>
    simp only [List.map_cons, List.foldr_cons]
    rw [tells item List.mem_cons_self, ih fun other member => tells other (List.mem_cons_of_mem _ member)]

theorem wiredAnd_succ {n : Nat} {items : List ι} (length : ∀ item ∈ items, (said item).length = n + 1) :
    wiredAnd (n + 1) (items.map said) =
      (items.map fun item => (said item).headD 0xff).foldr (· &&& ·) 0xff ::
        wiredAnd n (items.map fun item => (said item).tail) := by
  induction items with
  | nil => rfl
  | cons item items ih =>
    have rest := ih fun other member => length other (List.mem_cons_of_mem _ member)
    have filled := List.exists_cons_of_length_eq_add_one (length item List.mem_cons_self)
    rcases filled with ⟨byte, bytes, split⟩
    simp only [List.map_cons]
    rw [wiredAnd, List.foldr_cons, ← wiredAnd, rest, split]
    rfl

theorem readout_eq {n : Nat} {items : List ι} (length : ∀ item ∈ items, (said item).length = n)
    (tells : ∀ item ∈ items, logic.Tells (state item) (said item)) :
    logic.readout (items.map state) n = wiredAnd n (items.map said) := by
  induction n generalizing state said with
  | zero =>
    have none : (wiredAnd 0 (items.map said)).length = 0 := by
      apply length_wiredAnd
      intro bytes member
      rcases List.mem_map.mp member with ⟨item, inside, rfl⟩
      exact length item inside
    rw [List.length_eq_zero_iff.mp none, Logic.readout]
  | succ n ih =>
    have split : ∀ item ∈ items, ∃ byte bytes, said item = byte :: bytes := fun item member =>
      List.exists_cons_of_length_eq_add_one (length item member)
    have heads : ∀ item ∈ items, logic.byte (state item) = (said item).headD 0xff := by
      intro item member
      rcases split item member with ⟨byte, bytes, same⟩
      have told := tells item member
      rw [same] at told ⊢
      exact told.2.1
    have tails := @ih (fun item => logic.spoken (state item) 8) (fun item => (said item).tail)
      (by
        intro item member
        rw [List.length_tail, length item member, Nat.add_sub_cancel])
      (by
        intro item member
        rcases split item member with ⟨byte, bytes, same⟩
        have told := tells item member
        rw [same] at told ⊢
        exact told.2.2)
    rw [Logic.readout, wiredAnd_succ length, ← tails, foldr_byte heads, List.map_map]
    rfl

end Readout

end Minimus32.OneWire
