import Mathlib.Data.List.GetD
import Mathlib.Data.UInt

namespace Minimus32.SwRcServo

structure Servo where
  pos : UInt16
  ticksPerMs : UInt8
  counter : UInt16
deriving DecidableEq

def Servo.init (_ : Servo) (ticksPerMs : UInt8) : Servo :=
  ⟨(ticksPerMs / 2).toUInt16 + ticksPerMs.toUInt16, ticksPerMs, 20 * ticksPerMs.toUInt16⟩

def Servo.setPos (servo : Servo) (pos : UInt8) : Servo :=
  { servo with pos := pos.toUInt16 + servo.ticksPerMs.toUInt16 }

def Servo.animate (servo : Servo) : Servo × UInt8 :=
  let servo := { servo with counter := servo.counter - 1 }
  if servo.counter = 0 then ({ servo with counter := servo.ticksPerMs.toUInt16 * 20 }, 0)
  else if servo.counter < servo.pos then (servo, 1)
  else (servo, 0)

inductive Event where
  | animate
  | setPos (pos : UInt8)
deriving DecidableEq

/-- The results of the calls of `animate`. -/
def Servo.outputs : Servo → List Event → List UInt8
  | _, [] => []
  | servo, .animate :: events => servo.animate.2 :: servo.animate.1.outputs events
  | servo, .setPos pos :: events => (servo.setPos pos).outputs events

/-- The set points in force at the calls of `animate`, from the one in force at the start. -/
def positions (ticksPerMs : UInt8) : UInt16 → List Event → List UInt16
  | _, [] => []
  | pos, .animate :: events => pos :: positions ticksPerMs pos events
  | _, .setPos pos :: events => positions ticksPerMs (pos.toUInt16 + ticksPerMs.toUInt16) events

def risingEdges : UInt8 → List UInt8 → Nat
  | _, [] => 0
  | before, level :: later => (if before = 0 ∧ level ≠ 0 then 1 else 0) + risingEdges level later

/-- The `k`-th frame of a list with one entry for each call. -/
def frame {α : Type*} (ticksPerMs : UInt8) (k : Nat) (entries : List α) : List α :=
  (entries.drop (20 * ticksPerMs.toNat * k)).take (20 * ticksPerMs.toNat)

/-- The output before that frame, low before the first call. -/
def levelBefore (ticksPerMs : UInt8) (k : Nat) (outputs : List UInt8) : UInt8 :=
  (0 :: outputs).getD (20 * ticksPerMs.toNat * k) 0

/-- With `count` calls to go: while the pulse is on, the set point in force at the next call is still above the counter
    that call reaches, up to the end of the frame. -/
def Unbroken (count : Nat) (positions : List UInt16) : Prop :=
  ∀ i < count - 2, count - 1 - i < (positions.getD i 0).toNat → count - 2 - i < (positions.getD (i + 1) 0).toNat

instance (count : Nat) (positions : List UInt16) : Decidable (Unbroken count positions) :=
  inferInstanceAs (Decidable (∀ i < count - 2,
    count - 1 - i < (positions.getD i 0).toNat → count - 2 - i < (positions.getD (i + 1) 0).toNat))

/-- The output with `count` calls to go in the frame. -/
def level (count : Nat) (position : UInt16) : UInt8 :=
  if 1 < count ∧ count - 1 < position.toNat then 1 else 0

/-- The outputs that the set points give, with `count` calls to go in a frame of `length` calls. -/
def signal (length : Nat) : Nat → List UInt16 → List UInt8
  | _, [] => []
  | count, position :: positions =>
    level count position :: signal length (if count = 1 then length else count - 1) positions

theorem toNat_pred {counter : UInt16} (positive : 0 < counter.toNat) :
    (counter - 1).toNat = counter.toNat - 1 :=
  UInt16.toNat_sub_of_le _ _ (UInt16.le_iff_toNat_le.mpr positive)

theorem toNat_frame_length (ticksPerMs : UInt8) : (ticksPerMs.toUInt16 * 20).toNat = 20 * ticksPerMs.toNat := by
  have bound := ticksPerMs.toNat_lt
  rw [UInt16.toNat_mul, UInt8.toNat_toUInt16]
  show ticksPerMs.toNat * 20 % 65536 = _
  omega

theorem Servo.animate_spec (servo : Servo) (positive : 0 < servo.counter.toNat) :
    servo.animate.2 = level servo.counter.toNat servo.pos ∧ servo.animate.1.pos = servo.pos ∧
      servo.animate.1.ticksPerMs = servo.ticksPerMs ∧
      servo.animate.1.counter.toNat =
        if servo.counter.toNat = 1 then 20 * servo.ticksPerMs.toNat else servo.counter.toNat - 1 := by
  have value := toNat_pred positive
  have zero : servo.counter - 1 = 0 ↔ servo.counter.toNat = 1 := by
    rw [← UInt16.toNat_inj, value, UInt16.toNat_zero]
    omega
  unfold Servo.animate level
  dsimp only
  by_cases last : servo.counter.toNat = 1
  · rw [if_pos (zero.mpr last), if_neg (by omega), if_pos last]
    exact ⟨rfl, rfl, rfl, toNat_frame_length _⟩
  · rw [if_neg (fun none => last (zero.mp none)), if_neg last]
    by_cases below : servo.counter - 1 < servo.pos
    · have on : servo.counter.toNat - 1 < servo.pos.toNat := value ▸ UInt16.lt_iff_toNat_lt.mp below
      rw [if_pos below, if_pos ⟨by omega, on⟩]
      exact ⟨rfl, rfl, rfl, value⟩
    · have off : ¬ servo.counter.toNat - 1 < servo.pos.toNat := by
        rw [← value]
        exact fun less => below (UInt16.lt_iff_toNat_lt.mpr less)
      rw [if_neg below, if_neg (fun on => off on.2)]
      exact ⟨rfl, rfl, rfl, value⟩

theorem Servo.outputs_eq_signal (servo : Servo) (ticks : 0 < servo.ticksPerMs.toNat)
    (positive : 0 < servo.counter.toNat) (events : List Event) :
    servo.outputs events =
      signal (20 * servo.ticksPerMs.toNat) servo.counter.toNat (positions servo.ticksPerMs servo.pos events) := by
  induction events generalizing servo with
  | nil => rfl
  | cons event events ih =>
    cases event with
    | animate =>
      obtain ⟨output, pos, same, counter⟩ := servo.animate_spec positive
      have next : 0 < servo.animate.1.counter.toNat := by
        rw [counter]
        split <;> omega
      have rest := ih servo.animate.1 (by rw [same]; exact ticks) next
      rw [same, counter, pos] at rest
      rw [Servo.outputs, positions, signal, output, rest]
    | setPos pos => exact ih (servo.setPos pos) ticks positive

/-- Every set point in force lies between the tick count of one millisecond and that of two. -/
theorem positions_range {ticksPerMs : UInt8} {pos : UInt16} {events : List Event}
    (legal : ∀ pos, .setPos pos ∈ events → pos ≤ ticksPerMs)
    (range : ticksPerMs.toNat ≤ pos.toNat ∧ pos.toNat ≤ 2 * ticksPerMs.toNat) :
    ∀ p ∈ positions ticksPerMs pos events, ticksPerMs.toNat ≤ p.toNat ∧ p.toNat ≤ 2 * ticksPerMs.toNat := by
  induction events generalizing pos with
  | nil =>
    intro p member
    exact absurd member (by simp [positions])
  | cons event events ih =>
    have later : ∀ pos, .setPos pos ∈ events → pos ≤ ticksPerMs := fun pos member => legal pos (by simp [member])
    cases event with
    | animate =>
      intro p member
      rcases List.mem_cons.mp member with rfl | rest
      · exact range
      · exact ih later range p rest
    | setPos pos =>
      have small : pos.toNat ≤ ticksPerMs.toNat := UInt8.le_iff_toNat_le.mp (legal pos (by simp))
      have bound := ticksPerMs.toNat_lt
      have value : (pos.toUInt16 + ticksPerMs.toUInt16).toNat = pos.toNat + ticksPerMs.toNat := by
        rw [UInt16.toNat_add, UInt8.toNat_toUInt16, UInt8.toNat_toUInt16]
        omega
      exact ih later (by omega)

theorem Servo.init_spec (servo : Servo) (ticksPerMs : UInt8) :
    (servo.init ticksPerMs).counter.toNat = 20 * ticksPerMs.toNat ∧
      ticksPerMs.toNat ≤ (servo.init ticksPerMs).pos.toNat ∧
      (servo.init ticksPerMs).pos.toNat ≤ 2 * ticksPerMs.toNat := by
  have bound := ticksPerMs.toNat_lt
  have pos : (servo.init ticksPerMs).pos.toNat = ticksPerMs.toNat / 2 + ticksPerMs.toNat := by
    show ((ticksPerMs / 2).toUInt16 + ticksPerMs.toUInt16).toNat = _
    rw [UInt16.toNat_add, UInt8.toNat_toUInt16, UInt8.toNat_toUInt16, UInt8.toNat_div]
    show (ticksPerMs.toNat / 2 + ticksPerMs.toNat) % 65536 = _
    omega
  refine ⟨?_, ?_, ?_⟩
  · show (20 * ticksPerMs.toUInt16).toNat = _
    rw [UInt16.mul_comm]
    exact toNat_frame_length ticksPerMs
  · omega
  · omega

theorem signal_append {length count : Nat} (positive : 0 < count) (first rest : List UInt16)
    (whole : first.length = count) :
    signal length count (first ++ rest) = signal length count first ++ signal length length rest := by
  induction first generalizing count with
  | nil => exact absurd whole (by simp; omega)
  | cons p first ih =>
    rw [List.length_cons] at whole
    rw [List.cons_append, signal, signal, List.cons_append]
    by_cases last : count = 1
    · have empty : first = [] := List.eq_nil_of_length_eq_zero (by omega)
      rw [if_pos last, empty]
      rfl
    · rw [if_neg last, ih (by omega) (by omega)]

theorem length_signal (length count : Nat) (positions : List UInt16) :
    (signal length count positions).length = positions.length := by
  induction positions generalizing count with
  | nil => rfl
  | cons p positions ih => rw [signal, List.length_cons, ih, List.length_cons]

theorem getLast?_signal {length count : Nat} (positive : 0 < count) {positions : List UInt16}
    (whole : positions.length = count) : (signal length count positions).getLast? = some 0 := by
  induction positions generalizing count with
  | nil => exact absurd whole (by simp; omega)
  | cons p positions ih =>
    rw [List.length_cons] at whole
    rw [signal]
    by_cases last : count = 1
    · have empty : positions = [] := List.eq_nil_of_length_eq_zero (by omega)
      rw [empty, last]
      rfl
    · have rest := ih (show 0 < count - 1 by omega) (by omega)
      rw [if_neg last, List.getLast?_cons, rest]
      rfl

theorem signal_frames {length : Nat} (positive : 0 < length) (k : Nat) {passed : List UInt16} (rest : List UInt16)
    (whole : passed.length = length * k) :
    signal length length (passed ++ rest) = signal length length passed ++ signal length length rest ∧
      (0 :: signal length length passed).getLast? = some 0 := by
  induction k generalizing passed with
  | zero =>
    have empty : passed = [] := List.eq_nil_of_length_eq_zero whole
    rw [empty]
    exact ⟨rfl, rfl⟩
  | succ k ih =>
    rw [Nat.mul_succ] at whole
    obtain ⟨first, later, rfl, size⟩ : ∃ first later, passed = first ++ later ∧ first.length = length :=
      ⟨passed.take length, passed.drop length, (List.take_append_drop _ _).symm, by rw [List.length_take]; omega⟩
    rw [List.length_append] at whole
    obtain ⟨appended, low⟩ := ih (show later.length = length * k by omega)
    rw [List.append_assoc, signal_append positive _ _ size, signal_append positive _ _ size, appended,
      List.append_assoc]
    refine ⟨rfl, ?_⟩
    rw [List.getLast?_cons] at low ⊢
    rw [List.getLast?_append, getLast?_signal positive size]
    cases found : (signal length length later).getLast? with
    | none => rfl
    | some final =>
      rw [found] at low
      exact low

theorem Unbroken.cons_iff {count : Nat} {p q : UInt16} {positions : List UInt16} :
    Unbroken count (p :: q :: positions) ↔
      (2 < count → count - 1 < p.toNat → count - 2 < q.toNat) ∧ Unbroken (count - 1) (q :: positions) := by
  constructor
  · intro unbroken
    refine ⟨fun more => unbroken 0 (by omega), ?_⟩
    intro i more on
    have later := unbroken (i + 1) (by omega)
    rw [List.getD_cons_succ, List.getD_cons_succ] at later
    have next := later (by omega)
    omega
  · rintro ⟨first, later⟩ i more on
    cases i with
    | zero => exact first (by omega) on
    | succ i =>
      rw [List.getD_cons_succ] at on ⊢
      have found := later i (by omega) (by omega)
      omega

theorem risingEdges_level_cons (before : UInt8) (count : Nat) (p : UInt16) (later : List UInt8) :
    risingEdges before (level count p :: later) =
      (if before = 0 ∧ 1 < count ∧ count - 1 < p.toNat then 1 else 0) + risingEdges (level count p) later := by
  have high : level count p ≠ 0 ↔ 1 < count ∧ count - 1 < p.toNat := by
    unfold level
    split
    next on => simp [on]
    next off => simp [off]
  rw [risingEdges]
  congr 1
  exact if_congr (and_congr Iff.rfl high) rfl rfl

theorem risingEdges_last {length : Nat} (before : UInt8) (q : UInt16) :
    risingEdges before (signal length 1 [q]) = 0 := by
  rw [signal, risingEdges_level_cons, if_neg (by omega)]
  rfl

/-- With set points above the last tick of the pulse there is an edge to come while the output is low; a second one
    comes exactly when the pulse is broken. -/
theorem risingEdges_signal {length count : Nat} (more : 1 < count) {positions : List UInt16}
    (whole : positions.length = count) (above : ∀ p ∈ positions, 2 ≤ p.toNat) :
    1 ≤ risingEdges 0 (signal length count positions) ∧
      (risingEdges 0 (signal length count positions) ≤ 1 ↔ Unbroken count positions) ∧
      (risingEdges 1 (signal length count positions) = 0 ↔
        (∀ p ∈ positions.head?, count - 1 < p.toNat) ∧ Unbroken count positions) := by
  induction positions generalizing count with
  | nil => exact absurd whole (by simp; omega)
  | cons p positions ih =>
    cases positions with
    | nil => exact absurd whole (by simp; omega)
    | cons q positions =>
      rw [List.length_cons, List.length_cons] at whole
      have first : 2 ≤ p.toNat := above p (by simp)
      have high (on : count - 1 < p.toNat) : level count p = 1 := if_pos ⟨more, on⟩
      rw [signal, if_neg (by omega), risingEdges_level_cons, risingEdges_level_cons, Unbroken.cons_iff]
      by_cases last : count = 2
      · subst last
        have empty : positions = [] := List.eq_nil_of_length_eq_zero (by omega)
        have vacuous : Unbroken 1 [q] := fun i inside => absurd inside (by omega)
        subst empty
        rw [high (by omega), risingEdges_last, if_pos ⟨rfl, by omega, by omega⟩, if_neg (by simp)]
        simp [vacuous]
        omega
      · obtain ⟨some, least, none⟩ := ih (show 1 < count - 1 by omega) (by rw [List.length_cons]; omega)
          (fun r member => above r (by simp [member]))
        have step : count - 1 - 1 = count - 2 := by omega
        simp only [List.head?_cons, Option.mem_some_iff, forall_eq', step] at none ⊢
        by_cases on : count - 1 < p.toNat
        · rw [high on, if_pos ⟨trivial, by omega, on⟩, if_neg (by simp)]
          have bound : 1 + risingEdges 1 (signal length (count - 1) (q :: positions)) ≤ 1 ↔
              risingEdges 1 (signal length (count - 1) (q :: positions)) = 0 := by omega
          have open' : 2 < count := by omega
          rw [bound, Nat.zero_add, none]
          simp only [on, open', true_and, forall_const, and_true]
          omega
        · have low : level count p = 0 := if_neg (fun both => on both.2)
          rw [low, if_neg (fun both => on both.2.2), if_neg (fun both => on both.2.2), Nat.zero_add]
          simp only [on, least, some, false_and, iff_false, true_and, IsEmpty.forall_iff, implies_true]
          omega

/-- With ticks of a millisecond the pulse has one call of `animate` at most. -/
theorem risingEdges_signal_small (length : Nat) {count : Nat} {positions : List UInt16}
    (below : ∀ p ∈ positions, p.toNat ≤ 2) (whole : positions.length = count) :
    risingEdges 0 (signal length count positions) ≤ 1 ∧ Unbroken count positions := by
  constructor
  · induction positions generalizing count with
    | nil => exact Nat.zero_le _
    | cons p positions ih =>
      rw [List.length_cons] at whole
      have first : p.toNat ≤ 2 := below p (by simp)
      rw [signal, risingEdges_level_cons]
      by_cases two : count = 2
      · obtain ⟨q, rfl⟩ : ∃ q, positions = [q] := List.length_eq_one_iff.mp (by omega)
        rw [two]
        show _ + risingEdges _ (signal length 1 [q]) ≤ 1
        rw [risingEdges_last]
        split <;> omega
      · have low : level count p = 0 := if_neg (by omega)
        rw [low, if_neg (by omega), Nat.zero_add]
        by_cases last : count = 1
        · have empty : positions = [] := List.eq_nil_of_length_eq_zero (by omega)
          rw [empty]
          exact Nat.zero_le _
        · rw [if_neg last]
          exact ih (fun r member => below r (by simp [member])) (by omega)
  · intro i more on
    have inside : i < positions.length := by omega
    rw [List.getD_eq_getElem _ _ inside] at on
    have bound := below _ (List.getElem_mem inside)
    omega

theorem signal_frame {length k : Nat} (positive : 0 < length) {positions : List UInt16}
    (complete : length * k + length ≤ positions.length) :
    ((signal length length positions).drop (length * k)).take length =
        signal length length ((positions.drop (length * k)).take length) ∧
      (0 :: signal length length positions).getD (length * k) 0 = 0 := by
  obtain ⟨passed, rest, rfl, size⟩ : ∃ passed rest, positions = passed ++ rest ∧ passed.length = length * k :=
    ⟨positions.take (length * k), positions.drop (length * k), (List.take_append_drop _ _).symm,
      by rw [List.length_take]; omega⟩
  rw [List.length_append] at complete
  obtain ⟨first, later, rfl, whole⟩ : ∃ first later, rest = first ++ later ∧ first.length = length :=
    ⟨rest.take length, rest.drop length, (List.take_append_drop _ _).symm, by rw [List.length_take]; omega⟩
  obtain ⟨appended, low⟩ := signal_frames positive k (first ++ later) size
  have passedSize : (signal length length passed).length = length * k := by rw [length_signal, size]
  have firstSize : (signal length length first).length = length := by rw [length_signal, whole]
  constructor
  · rw [appended, List.drop_left' passedSize, List.drop_left' size, signal_append positive _ _ whole,
      List.take_left' firstSize, List.take_left' whole]
  · rw [List.getLast?_eq_getElem?, List.length_cons, passedSize, Nat.add_sub_cancel] at low
    rw [appended, ← List.cons_append, List.getD_eq_getElem?_getD,
      List.getElem?_append_left (by rw [List.length_cons, passedSize]; omega), low]
    rfl

theorem Servo.frame_outputs (servo : Servo) {ticksPerMs : UInt8} (ticks : 0 < ticksPerMs) (events : List Event)
    {k : Nat}
    (complete : 20 * ticksPerMs.toNat * (k + 1) ≤ (positions ticksPerMs (servo.init ticksPerMs).pos events).length) :
    let started := servo.init ticksPerMs
    frame ticksPerMs k (started.outputs events) =
        signal (20 * ticksPerMs.toNat) (20 * ticksPerMs.toNat)
          (frame ticksPerMs k (positions ticksPerMs started.pos events)) ∧
      levelBefore ticksPerMs k (started.outputs events) = 0 := by
  intro started
  have positive : 0 < ticksPerMs.toNat := UInt8.lt_iff_toNat_lt.mp ticks
  have counter : started.counter.toNat = 20 * ticksPerMs.toNat := (servo.init_spec ticksPerMs).1
  have outputs := started.outputs_eq_signal positive (by omega) events
  rw [counter] at outputs
  change started.outputs events = signal (20 * ticksPerMs.toNat) (20 * ticksPerMs.toNat) _ at outputs
  rw [Nat.mul_succ] at complete
  unfold frame levelBefore
  rw [outputs]
  exact signal_frame (by omega) complete

/-- A frame with two ticks to the millisecond, with another set point behind the third call from its end. -/
def twoTicks (first second : UInt8) : List Event :=
  .setPos first :: (List.replicate 37 .animate ++ .setPos second :: List.replicate 3 .animate)

theorem setPos_mem_twoTicks {pos first second : UInt8} (member : .setPos pos ∈ twoTicks first second) :
    pos = first ∨ pos = second := by
  simpa [twoTicks, List.mem_replicate] using member

/-- A complete frame has at most one rising edge exactly when no set point breaks its pulse. -/
theorem risingEdges_frame_le_one_iff (servo : Servo) (ticksPerMs : UInt8) (ticks : 0 < ticksPerMs)
    (events : List Event) (legal : ∀ pos, .setPos pos ∈ events → pos ≤ ticksPerMs) (k : Nat)
    (complete : 20 * ticksPerMs.toNat * (k + 1) ≤ ((servo.init ticksPerMs).outputs events).length) :
    let started := servo.init ticksPerMs
    risingEdges (levelBefore ticksPerMs k (started.outputs events)) (frame ticksPerMs k (started.outputs events)) ≤ 1 ↔
      Unbroken (20 * ticksPerMs.toNat) (frame ticksPerMs k (positions ticksPerMs started.pos events)) := by
  intro started
  have positive : 0 < ticksPerMs.toNat := UInt8.lt_iff_toNat_lt.mp ticks
  obtain ⟨counter, start⟩ := servo.init_spec ticksPerMs
  have running : 0 < started.counter.toNat := by
    show 0 < (servo.init ticksPerMs).counter.toNat
    omega
  have enough : 20 * ticksPerMs.toNat * (k + 1) ≤ (positions ticksPerMs started.pos events).length := by
    rwa [started.outputs_eq_signal positive running events, length_signal] at complete
  obtain ⟨outputs, low⟩ := servo.frame_outputs ticks events enough
  have size : (frame ticksPerMs k (positions ticksPerMs started.pos events)).length = 20 * ticksPerMs.toNat := by
    rw [Nat.mul_succ] at enough
    rw [frame, List.length_take, List.length_drop]
    omega
  have range : ∀ p ∈ frame ticksPerMs k (positions ticksPerMs started.pos events),
      ticksPerMs.toNat ≤ p.toNat ∧ p.toNat ≤ 2 * ticksPerMs.toNat := by
    intro p member
    exact positions_range legal start p
      (List.mem_of_mem_drop (List.mem_of_mem_take member))
  rw [outputs, low]
  by_cases one : ticksPerMs.toNat = 1
  · have below : ∀ p ∈ frame ticksPerMs k (positions ticksPerMs started.pos events), p.toNat ≤ 2 := by
      intro p member
      have bound := (range p member).2
      omega
    have small := risingEdges_signal_small (20 * ticksPerMs.toNat) below size
    exact iff_of_true small.1 small.2
  · have above : ∀ p ∈ frame ticksPerMs k (positions ticksPerMs started.pos events), 2 ≤ p.toNat := by
      intro p member
      have bound := (range p member).1
      omega
    exact (risingEdges_signal (by omega) size above).2.1

theorem risingEdges_frame_lowered :
    let started := Servo.init ⟨0, 0, 0⟩ 2
    (∀ pos, .setPos pos ∈ twoTicks 2 1 → pos ≤ 2) ∧
      risingEdges (levelBefore 2 0 (started.outputs (twoTicks 2 1)))
        (frame 2 0 (started.outputs (twoTicks 2 1))) ≤ 1 := by
  have legal : ∀ pos, .setPos pos ∈ twoTicks 2 1 → pos ≤ 2 := by
    intro pos member
    rcases setPos_mem_twoTicks member with rfl | rfl <;> decide
  exact ⟨legal, (risingEdges_frame_le_one_iff ⟨0, 0, 0⟩ 2 (by decide) _ legal 0
    (by rw [Servo.outputs_eq_signal _ (by decide) (by decide)]; decide +kernel)).mpr (by decide +kernel)⟩

/-- A frame with four ticks to the millisecond; the set point is lowered when the pulse has begun. -/
def fourTicks : List Event := List.replicate 75 .animate ++ .setPos 0 :: List.replicate 5 .animate

theorem risingEdges_frame_split :
    let started := Servo.init ⟨0, 0, 0⟩ 4
    (∀ pos, .setPos pos ∈ fourTicks → pos ≤ 4) ∧ 20 * 4 ≤ (started.outputs fourTicks).length ∧
      ¬ risingEdges (levelBefore 4 0 (started.outputs fourTicks)) (frame 4 0 (started.outputs fourTicks)) ≤ 1 := by
  intro started
  refine ⟨?_, ?_⟩
  · intro pos member
    have lowered : pos = 0 := by simpa [fourTicks, List.mem_replicate] using member
    rw [lowered]
    decide
  · rw [started.outputs_eq_signal (by decide) (by decide)]
    decide +kernel

end Minimus32.SwRcServo
