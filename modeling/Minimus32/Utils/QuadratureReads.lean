import Minimus32.Utils.QuadratureDecoder

namespace Minimus32.Quadrature

/-- What the four reads of one call of `quadrature_decoder_handleEvent` return, in their order. -/
structure Reads where
  a : UInt8
  b : UInt8
  a' : UInt8
  b' : UInt8
deriving DecidableEq

structure Call where
  before : UInt8
  after : UInt8
  event : Option UInt8
deriving DecidableEq

def Decoder.calls : Decoder → List Reads → List Call
  | _, [] => []
  | d, reads :: later =>
    let handled := d.handleEvent reads.a reads.b reads.a' reads.b'
    ⟨d.lastQuad, handled.1.lastQuad, handled.2⟩ :: handled.1.calls later

/-- The two levels a stored state stands for. -/
def levels (quad : UInt8) : UInt8 × UInt8 := (quad &&& 1, quad &&& 2)

def eventOf (step : Int) : Option UInt8 := if step = 1 then some 1 else if step = -1 then some 0 else none

def Call.Agrees (call : Call) : Prop := call.event = eventOf (grayStep (levels call.before) (levels call.after))

instance (call : Call) : Decidable call.Agrees := inferInstanceAs (Decidable (_ = _))

def total (calls : List Call) : Int :=
  (calls.map Call.event).count (some 1) - (calls.map Call.event).count (some 0)

/-- The first samples have the two inputs equal or different as the second ones do, or these are no single step. -/
def Reads.Steady (lastQuad : UInt8) (reads : Reads) : Prop :=
  grayStep (levels lastQuad) (levels (quadOf reads.a' reads.b')) ≠ 0 →
    ((reads.a = 0 ↔ reads.b = 0) ↔ (reads.a' = 0 ↔ reads.b' = 0))

instance (lastQuad : UInt8) (reads : Reads) : Decidable (reads.Steady lastQuad) :=
  inferInstanceAs (Decidable (_ → _))

def Steady : UInt8 → List Reads → Prop
  | _, [] => True
  | lastQuad, reads :: later => reads.Steady lastQuad ∧ Steady (quadOf reads.a' reads.b') later

/-- A level as a byte; any byte but zero is high. -/
def byteOf (high : Bool) : UInt8 := if high then 1 else 0

theorem byteOf_eq_zero (value : UInt8) : byteOf (value ≠ 0) = 0 ↔ value = 0 := by
  by_cases low : value = 0 <;> simp [byteOf, low]

theorem quadOf_byteOf (a b : UInt8) : quadOf (byteOf (a ≠ 0)) (byteOf (b ≠ 0)) = quadOf a b := by
  simp only [quadOf, ne_eq, byteOf_eq_zero]

theorem handleEvent_byteOf (d : Decoder) (a b a' b' : UInt8) :
    d.handleEvent (byteOf (a ≠ 0)) (byteOf (b ≠ 0)) (byteOf (a' ≠ 0)) (byteOf (b' ≠ 0)) = d.handleEvent a b a' b' := by
  simp only [Decoder.handleEvent, quadOf_byteOf, ne_eq, byteOf_eq_zero]

theorem steady_byteOf (lastQuad a b a' b' : UInt8) :
    Reads.Steady lastQuad ⟨byteOf (a ≠ 0), byteOf (b ≠ 0), byteOf (a' ≠ 0), byteOf (b' ≠ 0)⟩ ↔
      Reads.Steady lastQuad ⟨a, b, a', b'⟩ := by
  simp only [Reads.Steady, quadOf_byteOf, byteOf_eq_zero]

/-- One call is right exactly if its samples are. -/
theorem handleEvent_agrees_iff (start : UInt8 × UInt8) (reads : Reads) :
    let handled := (Decoder.mk (quadOf start.1 start.2)).handleEvent reads.a reads.b reads.a' reads.b'
    handled.2 = eventOf (grayStep (levels (quadOf start.1 start.2)) (levels handled.1.lastQuad)) ↔
      reads.Steady (quadOf start.1 start.2) := by
  have every : ∀ s t a b a' b' : Bool,
      let quad := quadOf (byteOf s) (byteOf t)
      let handled := (Decoder.mk quad).handleEvent (byteOf a) (byteOf b) (byteOf a') (byteOf b')
      handled.2 = eventOf (grayStep (levels quad) (levels handled.1.lastQuad)) ↔
        Reads.Steady quad ⟨byteOf a, byteOf b, byteOf a', byteOf b'⟩ := by decide +kernel
  have here := every (start.1 ≠ 0) (start.2 ≠ 0) (reads.a ≠ 0) (reads.b ≠ 0) (reads.a' ≠ 0) (reads.b' ≠ 0)
  dsimp only at here
  rw [quadOf_byteOf, handleEvent_byteOf, steady_byteOf] at here
  exact here

theorem total_cons (call : Call) (calls : List Call) (agrees : call.Agrees) :
    total (call :: calls) = grayStep (levels call.before) (levels call.after) + total calls := by
  unfold Call.Agrees at agrees
  unfold total
  rw [List.map_cons, agrees, List.count_cons, List.count_cons]
  rcases grayStep_cases (levels call.before) (levels call.after) with up | down | still
  · rw [up]
    show ((_ + 1 : Nat) : Int) - ((_ + 0 : Nat) : Int) = _
    omega
  · rw [down]
    show ((_ + 0 : Nat) : Int) - ((_ + 1 : Nat) : Int) = _
    omega
  · rw [still]
    show ((_ + 0 : Nat) : Int) - ((_ + 0 : Nat) : Int) = _
    omega

theorem calls_agree_iff (start : UInt8 × UInt8) (reads : List Reads) :
    (∀ call ∈ (Decoder.mk (quadOf start.1 start.2)).calls reads, call.Agrees) ↔
      Steady (quadOf start.1 start.2) reads := by
  induction reads generalizing start with
  | nil => simp [Decoder.calls, Steady]
  | cons first later ih =>
    rw [Decoder.calls, Steady, List.forall_mem_cons]
    exact and_congr (handleEvent_agrees_iff start first) (ih (first.a', first.b'))

theorem total_calls (d : Decoder) (reads : List Reads) (agree : ∀ call ∈ d.calls reads, call.Agrees) :
    total (d.calls reads) = graySteps (levels d.lastQuad) ((d.calls reads).map fun call => levels call.after) := by
  induction reads generalizing d with
  | nil => rfl
  | cons first later ih =>
    rw [Decoder.calls, List.forall_mem_cons] at agree
    rw [Decoder.calls, total_cons _ _ agree.1, ih _ agree.2]
    rfl

/-- The callbacks follow the recorded states exactly if in every call that records a single step the samples that
    decide the direction agree with the recorded ones. -/
theorem callbacks_follow_record_iff (d : Decoder) (start : UInt8 × UInt8) (reads : List Reads) :
    let calls := (d.init start.1 start.2).calls reads
    ((∀ call ∈ calls, call.Agrees) ∧
      total calls = graySteps (levels (quadOf start.1 start.2)) (calls.map fun call => levels call.after)) ↔
    Steady (quadOf start.1 start.2) reads := by
  intro calls
  have steady := calls_agree_iff start reads
  constructor
  · intro both
    exact steady.mp both.1
  · intro each
    have agree := steady.mpr each
    exact ⟨agree, total_calls _ reads agree⟩

/-- From both inputs low, A rises between the first two reads and the last two. -/
theorem edge_between_reads :
    let calls := (Decoder.init ⟨0⟩ 0 0).calls [⟨0, 0, 8, 0⟩]
    calls.map Call.event = [some 1] ∧ grayStep (levels 0) (levels (quadOf 8 0)) = -1 ∧
      ¬ ∀ call ∈ calls, call.Agrees := by
  decide

end Minimus32.Quadrature
