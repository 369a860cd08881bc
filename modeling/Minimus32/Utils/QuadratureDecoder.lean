import Mathlib.Data.Int.Basic

namespace Minimus32.Quadrature

structure Decoder where
  lastQuad : UInt8
deriving DecidableEq

structure DetentFilter where
  index : Int8
deriving DecidableEq

/-- `newQuad` as both functions build it from the two inputs. -/
def quadOf (a b : UInt8) : UInt8 :=
  let quad := 0
  let quad := if a ≠ 0 then quad + 1 else quad
  if b ≠ 0 then quad + 2 else quad

def Decoder.init (d : Decoder) (a b : UInt8) : Decoder :=
  { d with lastQuad := quadOf a b }

/-- `a` and `b` are the first reads of the inputs, `a'` and `b'` the second ones; the result has the
    argument of the callback if it is called. -/
def Decoder.handleEvent (d : Decoder) (a b a' b' : UInt8) : Decoder × Option UInt8 :=
  let newQuad := quadOf a' b'
  let quadDiff := newQuad ^^^ d.lastQuad
  let direction : Int8 :=
    if quadDiff = 1 then
      if (a ≠ 0 ∧ b = 0) ∨ (a = 0 ∧ b ≠ 0) then -1 else 1
    else if quadDiff = 2 then
      if (b ≠ 0 ∧ a ≠ 0) ∨ (b = 0 ∧ a = 0) then -1 else 1
    else 0
  ({ d with lastQuad := newQuad },
    if direction ≠ 0 then
      if direction = 1 then some 1 else some 0
    else none)

def DetentFilter.init (f : DetentFilter) : DetentFilter := { f with index := 16 }

def DetentFilter.handleEvent (f : DetentFilter) (up : UInt8) : DetentFilter × Option UInt8 :=
  let f := { f with index := if up ≠ 0 then f.index + 1 else f.index - 1 }
  if 16 + 4 = f.index then ({ f with index := 16 }, some 1)
  else if 16 - 4 ≥ f.index then ({ f with index := 16 }, some 0)
  else (f, none)

structure Encoder where
  decoder : Decoder
  filter : DetentFilter
deriving DecidableEq

inductive Notice where
  | decoded (up : UInt8)
  | filtered (up : UInt8)
deriving DecidableEq

def Encoder.init (e : Encoder) (a b : UInt8) : Encoder := ⟨e.decoder.init a b, e.filter.init⟩

def Encoder.handleEvent (e : Encoder) (a b : UInt8) : Encoder × List Notice :=
  let (decoder, event) := e.decoder.handleEvent a b a b
  match event with
  | none => (⟨decoder, e.filter⟩, [])
  | some up =>
    let (filter, filtered) := e.filter.handleEvent up
    (⟨decoder, filter⟩, .decoded up :: filtered.toList.map .filtered)

def Encoder.run : Encoder → List (UInt8 × UInt8) → Encoder × List Notice
  | e, [] => (e, [])
  | e, pins :: later =>
    let first := e.handleEvent pins.1 pins.2
    let rest := Encoder.run first.1 later
    (rest.1, first.2 ++ rest.2)

def net (notice : UInt8 → Notice) (notices : List Notice) : Int :=
  notices.count (notice 1) - notices.count (notice 0)

theorem net_append (notice : UInt8 → Notice) (left right : List Notice) :
    net notice (left ++ right) = net notice left + net notice right := by
  simp only [net, List.count_append, Int.natCast_add]
  omega

/-- The place of the two levels in the cycle 00, 01, 11, 10 of a turning encoder. -/
def position (pins : UInt8 × UInt8) : Nat :=
  if pins.1 = 0 then
    if pins.2 = 0 then 0 else 1
  else
    if pins.2 = 0 then 3 else 2

/-- A single step forwards or backwards counts, a repeat or a jump to the opposite state does not. -/
def grayStep (before after : UInt8 × UInt8) : Int :=
  if position after = (position before + 1) % 4 then 1
  else if position before = (position after + 1) % 4 then -1
  else 0

def graySteps : UInt8 × UInt8 → List (UInt8 × UInt8) → Int
  | _, [] => 0
  | before, pins :: later => grayStep before pins + graySteps pins later

theorem handleEvent_stable (d : Decoder) (before pins : UInt8 × UInt8)
    (last : d.lastQuad = quadOf before.1 before.2) :
    (d.handleEvent pins.1 pins.2 pins.1 pins.2).1.lastQuad = quadOf pins.1 pins.2 ∧
      (d.handleEvent pins.1 pins.2 pins.1 pins.2).2 =
        if grayStep before pins = 1 then some 1 else if grayStep before pins = -1 then some 0 else none := by
  refine ⟨rfl, ?_⟩
  obtain ⟨a, b⟩ := before
  obtain ⟨a', b'⟩ := pins
  simp only [Decoder.handleEvent, last, grayStep, position, quadOf]
  by_cases aLow : a = 0 <;> by_cases bLow : b = 0 <;> by_cases aLow' : a' = 0 <;> by_cases bLow' : b' = 0 <;>
    simp [aLow, bLow, aLow', bLow'] <;> decide

theorem DetentFilter.handleEvent_conserves (f : DetentFilter) (low : 13 ≤ f.index.toInt) (high : f.index.toInt ≤ 19)
    {up : UInt8} (binary : up = 1 ∨ up = 0) :
    let after := f.handleEvent up
    13 ≤ after.1.index.toInt ∧ after.1.index.toInt ≤ 19 ∧
      4 * net .filtered (after.2.toList.map .filtered) + after.1.index.toInt =
        f.index.toInt + net .decoded [.decoded up] := by
  obtain ⟨index⟩ := f
  have known : index = Int8.ofInt index.toInt := index.ofInt_toInt.symm
  simp only at low high
  generalize index.toInt = value at known low high
  subst index
  have cases : value = 13 ∨ value = 14 ∨ value = 15 ∨ value = 16 ∨ value = 17 ∨ value = 18 ∨ value = 19 := by omega
  rcases binary with rfl | rfl <;> rcases cases with rfl | rfl | rfl | rfl | rfl | rfl | rfl <;> decide

/-- The encoder has seen the levels `pins`, and its filter is `surplus` steps away from its last event. -/
structure Encoder.Settled (e : Encoder) (pins : UInt8 × UInt8) (surplus : Int) : Prop where
  lastQuad : e.decoder.lastQuad = quadOf pins.1 pins.2
  index : e.filter.index.toInt = 16 + surplus
  low : -3 ≤ surplus
  high : surplus ≤ 3

theorem Encoder.init_settled (e : Encoder) (a b : UInt8) : (e.init a b).Settled (a, b) 0 :=
  ⟨rfl, rfl, by omega, by omega⟩

theorem net_decoded_cons (up : UInt8) (filtered : Option UInt8) :
    net .decoded (.decoded up :: filtered.toList.map .filtered) = net .decoded [.decoded up] := by
  cases filtered <;> simp [net, List.count_cons]

theorem net_filtered_cons (up : UInt8) (notices : List Notice) :
    net .filtered (.decoded up :: notices) = net .filtered notices := by
  simp [net]

theorem Encoder.Settled.notified {e : Encoder} {before : UInt8 × UInt8} {surplus : Int}
    (settled : e.Settled before surplus) (pins : UInt8 × UInt8) {up : UInt8} (binary : up = 1 ∨ up = 0)
    (event : (e.decoder.handleEvent pins.1 pins.2 pins.1 pins.2).2 = some up) :
    let after := e.handleEvent pins.1 pins.2
    net .decoded after.2 = net .decoded [.decoded up] ∧
      after.1.Settled pins (surplus + net .decoded [.decoded up] - 4 * net .filtered after.2) := by
  have index := settled.index
  have low := settled.low
  have high := settled.high
  have conserved := e.filter.handleEvent_conserves (by omega) (by omega) binary
  simp only [Encoder.handleEvent, event, net_decoded_cons, net_filtered_cons, true_and]
  dsimp only at conserved
  refine ⟨rfl, ?_, by omega, by omega⟩
  show (e.filter.handleEvent up).1.index.toInt = _
  omega

theorem grayStep_cases (before after : UInt8 × UInt8) :
    grayStep before after = 1 ∨ grayStep before after = -1 ∨ grayStep before after = 0 := by
  unfold grayStep
  split
  · exact .inl rfl
  · split
    · exact .inr (.inl rfl)
    · exact .inr (.inr rfl)

theorem Encoder.Settled.handleEvent {e : Encoder} {before : UInt8 × UInt8} {surplus : Int}
    (settled : e.Settled before surplus) (pins : UInt8 × UInt8) :
    let after := e.handleEvent pins.1 pins.2
    net .decoded after.2 = grayStep before pins ∧
      after.1.Settled pins (surplus + grayStep before pins - 4 * net .filtered after.2) := by
  have event := (handleEvent_stable e.decoder before pins settled.lastQuad).2
  rcases grayStep_cases before pins with up | down | still
  · rw [up] at event ⊢
    exact settled.notified pins (.inl rfl) event
  · rw [down] at event ⊢
    exact settled.notified pins (.inr rfl) event
  · rw [still] at event ⊢
    have none : (e.decoder.handleEvent pins.1 pins.2 pins.1 pins.2).2 = none := event
    simp only [Encoder.handleEvent, none]
    exact ⟨rfl, rfl, by simpa [net] using settled.index, by simpa [net] using settled.low,
      by simpa [net] using settled.high⟩

theorem Encoder.Settled.run {e : Encoder} {before : UInt8 × UInt8} {surplus : Int}
    (settled : e.Settled before surplus) (levels : List (UInt8 × UInt8)) :
    let after := e.run levels
    net .decoded after.2 = graySteps before levels ∧
      ∃ pins, after.1.Settled pins (surplus + graySteps before levels - 4 * net .filtered after.2) := by
  induction levels generalizing e before surplus with
  | nil => exact ⟨rfl, before, by simpa [Encoder.run, graySteps, net] using settled⟩
  | cons pins levels ih =>
    obtain ⟨decoded, kept⟩ := settled.handleEvent pins
    obtain ⟨rest, last, final⟩ := ih kept
    have total : surplus + grayStep before pins - 4 * net .filtered (e.handleEvent pins.1 pins.2).2 +
        graySteps pins levels - 4 * net .filtered ((e.handleEvent pins.1 pins.2).1.run levels).2 =
        surplus + (grayStep before pins + graySteps pins levels) -
          4 * (net .filtered (e.handleEvent pins.1 pins.2).2 +
            net .filtered ((e.handleEvent pins.1 pins.2).1.run levels).2) := by omega
    rw [total] at final
    simp only [Encoder.run, net_append, graySteps, decoded, rest]
    exact ⟨trivial, last, final⟩

/-- From any pin state on and for any sequence of pin states, the decoder counts the single Gray steps
    and the filter loses none of them. -/
theorem encoder_conserves (e : Encoder) (start : UInt8 × UInt8) (levels : List (UInt8 × UInt8)) :
    let after := (e.init start.1 start.2).run levels
    net .decoded after.2 = graySteps start levels ∧
      13 ≤ after.1.filter.index.toInt ∧ after.1.filter.index.toInt ≤ 19 ∧
      4 * net .filtered after.2 + (after.1.filter.index.toInt - 16) = net .decoded after.2 := by
  intro after
  obtain ⟨decoded, pins, settled⟩ := (e.init_settled start.1 start.2).run levels
  have index := settled.index
  have low := settled.low
  have high := settled.high
  refine ⟨decoded, ?_, ?_, ?_⟩
  · show 13 ≤ ((e.init start.1 start.2).run levels).1.filter.index.toInt
    omega
  · show ((e.init start.1 start.2).run levels).1.filter.index.toInt ≤ 19
    omega
  · rw [decoded]
    show 4 * net .filtered ((e.init start.1 start.2).run levels).2 +
      (((e.init start.1 start.2).run levels).1.filter.index.toInt - 16) = _
    omega

end Minimus32.Quadrature
