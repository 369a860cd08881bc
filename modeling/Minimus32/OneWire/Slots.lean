import Minimus32.OneWire.Wire

namespace Minimus32.OneWire

open Interaction Program

variable {σ : Type} {logic : Logic σ} {wire : Wire σ}

/-- A device that does nothing until the next reset. -/
def Logic.Deaf (logic : Logic σ) (state : σ) : Prop := logic.output state = none ∧ ∀ bit, logic.step state bit = state

/-- A device that a reset finds the same after the bit that the reset looks like at first. -/
def Logic.Spared (logic : Logic σ) (state : σ) : Prop :=
  logic.restart (logic.step state ((logic.output state).getD false)) = logic.restart state

theorem Logic.Deaf.spared {state : σ} (deaf : logic.Deaf state) : logic.Spared state :=
  congrArg logic.restart (deaf.2 _)

namespace Slave

variable {slave : Slave σ}

/-- Only a device that does nothing still looks at the wire. -/
def Settled (logic : Logic σ) (slave : Slave σ) : Prop := slave.sampling = none ∨ logic.Deaf slave.state

theorem pass_pull (level : Nat → Bool) (time : Nat) :
    (slave.pass logic level time).pullFrom = slave.pullFrom ∧
      (slave.pass logic level time).pullUntil = slave.pullUntil := by
  rw [pass]
  split
  · exact ⟨rfl, rfl⟩
  · split <;> exact ⟨rfl, rfl⟩

theorem Settled.pass (settled : slave.Settled logic) (level : Nat → Bool) (time : Nat) :
    (slave.pass logic level time).state = slave.state ∧ (slave.pass logic level time).Settled logic := by
  rw [Slave.pass]
  split
  · exact ⟨rfl, settled⟩
  · rename_i instant sampling
    have deaf : logic.Deaf slave.state := settled.resolve_left (by rw [sampling]; simp)
    split
    · exact ⟨deaf.2 _, .inl rfl⟩
    · exact ⟨rfl, settled⟩

/-- The device has taken the level of the slot. -/
def taken (logic : Logic σ) (bit : Bool) (slave : Slave σ) : Slave σ :=
  { slave with state := logic.step slave.state bit, sampling := none }

/-- The device does not take the level within the first 15 microseconds. -/
def Later (start : Nat) (slave : Slave σ) : Prop := ∀ instant, slave.sampling = some instant → start + 240 ≤ instant

theorem Later.pass {start time : Nat} (waiting : slave.Later start) (level : Nat → Bool) (early : time ≤ start + 240) :
    slave.pass logic level time = slave := by
  rw [Slave.pass]
  split
  · rfl
  · rename_i instant sampling
    have after := waiting instant sampling
    exact if_neg (by omega)

/-- A device that listens takes the level of the slot within 60 microseconds. -/
structure Listens (start : Nat) (slave : Slave σ) : Prop where
  sampling : ∃ instant, slave.sampling = some instant ∧ start + 240 ≤ instant ∧ instant < start + 960
  pulled : slave.pullFrom ≤ start ∧ slave.pullUntil ≤ start

theorem Listens.later {start : Nat} (listens : slave.Listens start) : slave.Later start := by
  obtain ⟨instant, sampling, after, -⟩ := listens.sampling
  intro other same
  rw [sampling] at same
  cases same
  exact after

theorem Listens.pass {start time : Nat} {level : Nat → Bool} {bit : Bool} (listens : slave.Listens start)
    (same : ∀ instant, start ≤ instant → level instant = bit) (late : start + 960 ≤ time) :
    slave.pass logic level time = slave.taken logic bit := by
  obtain ⟨instant, sampling, after, before⟩ := listens.sampling
  rw [Slave.pass, sampling]
  simp only [if_pos (show instant < time by omega), same instant (by omega), taken]

theorem listens_fall {now : Nat} (ended : slave.pullFrom ≤ now ∧ slave.pullUntil ≤ now)
    (quiet : logic.output slave.state = none) :
    (slave.fall logic now).Listens now ∧ (slave.fall logic now).state = slave.state := by
  have early := slave.timing.sample_ge slave.slot
  have late := slave.timing.sample_lt slave.slot
  rw [fall, quiet]
  exact ⟨⟨⟨_, rfl, by omega, by omega⟩, ended⟩, rfl⟩

/-- What a device makes of a long low level. -/
theorem pass_fall {now time : Nat} {level : Nat → Bool} (settled : slave.Settled logic)
    (spared : logic.Spared slave.state) (low : ∀ time, level time = false) (late : now + 960 ≤ time) :
    ((slave.fall logic now).pass logic level time).sampling = none ∧
      logic.restart ((slave.fall logic now).pass logic level time).state = logic.restart slave.state := by
  rw [Logic.Spared] at spared
  cases output : logic.output slave.state with
  | none =>
    have soon := slave.timing.sample_lt slave.slot
    rw [output] at spared
    rw [fall, output, pass]
    simp only
    rw [if_pos (by omega), low]
    exact ⟨rfl, spared⟩
  | some bit =>
    have none : slave.sampling = none := by
      rcases settled with none | deaf
      · exact none
      · rw [deaf.1] at output
        cases output
    rw [output] at spared
    rw [fall, output, pass]
    simp only [none]
    exact ⟨trivial, spared⟩

end Slave

namespace Wire

theorem cost_le (inside : wire.atomic = true) : wire.cost ≤ 16 := by
  rw [cost, if_pos inside]
  exact wire.clock.inside_le _

theorem cost_pos (outside : wire.atomic = false) : 0 < wire.cost := by
  rw [cost, outside]
  exact wire.clock.outside_pos _

/-- The wire is left alone, but for a device that may pull it down for another microsecond. -/
structure Calm (logic : Logic σ) (wire : Wire σ) : Prop where
  outside : wire.atomic = false
  high : wire.low = false
  settled : ∀ slave ∈ wire.slaves, slave.Settled logic
  pulled : ∀ slave ∈ wire.slaves, slave.pullFrom ≤ wire.now ∧ slave.pullUntil ≤ wire.now + 16

/-- The wire is high and stays so. -/
structure Idle (logic : Logic σ) (wire : Wire σ) : Prop where
  high : wire.low = false
  settled : ∀ slave ∈ wire.slaves, slave.Settled logic
  ended : ∀ slave ∈ wire.slaves, slave.pullFrom ≤ wire.now ∧ slave.pullUntil ≤ wire.now

theorem mem_spend {us : Nat} {slave : Slave σ} (member : slave ∈ (wire.spend logic us).slaves) :
    ∃ before ∈ wire.slaves, before.pass logic wire.level (wire.spend logic us).now = slave :=
  List.mem_map.mp member

theorem settled_spend (settled : ∀ slave ∈ wire.slaves, slave.Settled logic) (us : Nat) :
    (∀ slave ∈ (wire.spend logic us).slaves, slave.Settled logic) ∧ (wire.spend logic us).states = wire.states := by
  constructor
  · intro slave member
    obtain ⟨before, inside, rfl⟩ := mem_spend member
    exact ((settled before inside).pass _ _).2
  · rw [states, states, spend, List.map_map]
    apply List.map_congr_left
    intro slave member
    exact ((settled slave member).pass _ _).1

theorem pulled_spend (logic : Logic σ) {first last : Nat} (us : Nat)
    (pulled : ∀ slave ∈ wire.slaves, slave.pullFrom ≤ first ∧ slave.pullUntil ≤ last) :
    ∀ slave ∈ (wire.spend logic us).slaves, slave.pullFrom ≤ first ∧ slave.pullUntil ≤ last := by
  intro slave member
  obtain ⟨before, inside, rfl⟩ := mem_spend member
  rw [(Slave.pass_pull _ _).1, (Slave.pass_pull _ _).2]
  exact pulled before inside

theorem Idle.spend (idle : wire.Idle logic) (us : Nat) :
    (wire.spend logic us).Idle logic ∧ (wire.spend logic us).states = wire.states := by
  have later : wire.now ≤ (wire.spend logic us).now := Nat.le_add_right _ _
  have kept := settled_spend idle.settled us
  have ended := pulled_spend logic us idle.ended
  refine ⟨⟨idle.high, kept.1, ?_⟩, kept.2⟩
  intro slave member
  exact ⟨Nat.le_trans (ended slave member).1 later, Nat.le_trans (ended slave member).2 later⟩

theorem level_of_ended {time : Nat} (ended : ∀ slave ∈ wire.slaves, slave.pullUntil ≤ time) :
    wire.level time = !wire.low := by
  have all : (wire.slaves.all fun slave => !slave.pulls time) = true := by
    rw [List.all_eq_true]
    intro slave member
    have free := ended slave member
    simp [Slave.pulls, free]
  rw [level, all, Bool.and_true]

theorem ended_of_level {time : Nat} (high : wire.level time = true) {slave : Slave σ} (member : slave ∈ wire.slaves)
    (started : slave.pullFrom ≤ time) : slave.pullUntil ≤ time := by
  rw [level, Bool.and_eq_true, List.all_eq_true] at high
  have free := high.2 slave member
  simpa [Slave.pulls, started] using free

end Wire

/-- The loop that waits for an idle bus ends, since the devices let go of it. -/
theorem ends_waitIdle {polls left : Nat} (calm : wire.Calm logic)
    (pulled : ∀ slave ∈ wire.slaves, slave.pullUntil ≤ wire.now + left) (enough : left < polls) :
    Ends (Wire.respond logic) (waitIdle polls) wire fun _ after =>
      after.Idle logic ∧ after.atomic = false ∧ after.states = wire.states := by
  induction polls generalizing wire left with
  | zero => omega
  | succ polls ih =>
    have kept := Wire.settled_spend calm.settled 0
    have bounds := Wire.pulled_spend logic 0 calm.pulled
    have later : (wire.spend logic 0).now = wire.now + (16 * 0 + wire.cost) := rfl
    have time := wire.cost_pos calm.outside
    apply ends_call (show wire.respond logic .getBit = some (_, wire.spend logic 0) from rfl)
    split
    · rename_i high
      apply ends_pure
      refine ⟨⟨calm.high, kept.1, ?_⟩, calm.outside, kept.2⟩
      intro slave member
      have begun : slave.pullFrom ≤ (wire.spend logic 0).now := Nat.le_trans (bounds slave member).1 (by omega)
      exact ⟨begun, Wire.ended_of_level high member begun⟩
    · rename_i pulling
      have ends : ∀ slave ∈ (wire.spend logic 0).slaves, slave.pullUntil ≤ wire.now + left := by
        intro slave member
        obtain ⟨before, inside, rfl⟩ := Wire.mem_spend member
        rw [(Slave.pass_pull _ _).2]
        exact pulled before inside
      have more : left ≠ 0 := by
        rintro rfl
        apply pulling
        rw [Wire.level_of_ended]
        · exact congrArg not calm.high
        · intro slave member
          exact Nat.le_trans (ends slave member) (by omega)
      have next : (wire.spend logic 0).Calm logic := by
        refine ⟨calm.outside, calm.high, kept.1, ?_⟩
        intro slave member
        exact ⟨Nat.le_trans (bounds slave member).1 (by omega), Nat.le_trans (bounds slave member).2 (by omega)⟩
      have shorter : ∀ slave ∈ (wire.spend logic 0).slaves,
          slave.pullUntil ≤ (wire.spend logic 0).now + (left - 1) := by
        intro slave member
        exact Nat.le_trans (ends slave member) (by omega)
      apply (ih next shorter (by omega)).mono
      intro _ after found
      exact ⟨found.1, found.2.1, found.2.2.trans kept.2⟩

namespace Wire

/-- A slot that began at `start` goes on, with the devices as they were then. -/
structure InSlot (wire : Wire σ) (start first last : Nat) (low : Bool) (slaves : List (Slave σ)) : Prop where
  inside : wire.atomic = true
  fell : wire.fell = start
  low : wire.low = low
  slaves : wire.slaves = slaves
  after : start + first ≤ wire.now
  before : wire.now ≤ start + last

variable {start first last : Nat} {low : Bool} {slaves : List (Slave σ)}

theorem inSlot_fall (inside : wire.atomic = true) :
    (wire.fall logic).InSlot wire.now 0 0 true (wire.slaves.map (Slave.fall logic wire.now)) :=
  ⟨inside, rfl, rfl, rfl, Nat.le_refl _, Nat.le_refl _⟩

theorem InSlot.spend (slot : wire.InSlot start first last low slaves) (logic : Logic σ) (us : Nat)
    (waiting : ∀ slave ∈ slaves, slave.Later start) (early : last + (16 * us + 16) ≤ 240) :
    (wire.spend logic us).InSlot start (first + 16 * us) (last + (16 * us + 16)) low slaves := by
  have cost := wire.cost_le slot.inside
  have after := slot.after
  have before := slot.before
  have time : (wire.spend logic us).now = wire.now + (16 * us + wire.cost) := rfl
  have same : (wire.spend logic us).slaves = wire.slaves := by
    apply Eq.trans (List.map_congr_left ?_) (List.map_id wire.slaves)
    intro slave member
    rw [slot.slaves] at member
    exact (waiting slave member).pass _ (by omega)
  exact ⟨slot.inside, slot.fell, slot.low, same.trans slot.slaves, by omega, by omega⟩

theorem InSlot.rise (slot : wire.InSlot start first last low slaves) (logic : Logic σ) (short : last < 7680) :
    (wire.rise logic).InSlot start first last false slaves := by
  have before := slot.before
  have fell := slot.fell
  refine ⟨slot.inside, slot.fell, rfl, ?_, slot.after, slot.before⟩
  rw [Wire.rise]
  simp only
  rw [if_neg (by omega), slot.slaves]

/-- The devices that listen have all taken the level when 60 microseconds have gone by. -/
theorem slaves_spend_late (logic : Logic σ) {us : Nat} (listens : ∀ slave ∈ wire.slaves, slave.Listens start)
    (late : start + 960 ≤ wire.now + (16 * us + wire.cost)) :
    (wire.spend logic us).slaves = wire.slaves.map (Slave.taken logic (!wire.low)) := by
  rw [Wire.spend]
  simp only
  apply List.map_congr_left
  intro slave member
  apply (listens slave member).pass _ late
  intro instant inside
  apply level_of_ended
  intro slave member
  exact Nat.le_trans (listens slave member).pulled.2 inside

theorem Idle.setAtomic (idle : wire.Idle logic) (on : Bool) : (wire.setAtomic on).Idle logic :=
  ⟨idle.high, idle.settled, idle.ended⟩

/-- All the devices have taken the level, and none pulls the wire down. -/
structure Taken (wire : Wire σ) : Prop where
  sampling : ∀ slave ∈ wire.slaves, slave.sampling = none
  ended : ∀ slave ∈ wire.slaves, slave.pullFrom ≤ wire.now ∧ slave.pullUntil ≤ wire.now

theorem slaves_spend (logic : Logic σ) (sampling : ∀ slave ∈ wire.slaves, slave.sampling = none) (us : Nat) :
    (wire.spend logic us).slaves = wire.slaves := by
  apply Eq.trans (List.map_congr_left ?_) (List.map_id wire.slaves)
  intro slave member
  rw [Slave.pass, sampling slave member]
  rfl

theorem Taken.spend (taken : wire.Taken) (logic : Logic σ) (us : Nat) :
    (wire.spend logic us).Taken ∧ (wire.spend logic us).states = wire.states := by
  have later : wire.now ≤ (wire.spend logic us).now := Nat.le_add_right _ _
  have same := slaves_spend logic taken.sampling us
  refine ⟨⟨?_, ?_⟩, congrArg (List.map Slave.state) same⟩
  · rw [same]
    exact taken.sampling
  · rw [same]
    intro slave member
    have ended := taken.ended slave member
    exact ⟨Nat.le_trans ended.1 later, Nat.le_trans ended.2 later⟩

theorem Taken.rise (taken : wire.Taken) (logic : Logic σ) (short : wire.now - wire.fell < 7680) :
    (wire.rise logic).Taken ∧ (wire.rise logic).states = wire.states := by
  have same : (wire.rise logic).slaves = wire.slaves := if_neg (by omega)
  refine ⟨⟨?_, ?_⟩, congrArg (List.map Slave.state) same⟩
  · rw [same]
    exact taken.sampling
  · rw [same]
    exact taken.ended

theorem Taken.setAtomic (taken : wire.Taken) (on : Bool) : (wire.setAtomic on).Taken := ⟨taken.sampling, taken.ended⟩

theorem Taken.calm (taken : wire.Taken) (outside : wire.atomic = false) (high : wire.low = false) :
    wire.Calm logic := by
  refine ⟨outside, high, fun slave member => .inl (taken.sampling slave member), ?_⟩
  intro slave member
  have ended := taken.ended slave member
  exact ⟨ended.1, Nat.le_trans ended.2 (Nat.le_add_right _ _)⟩

/-- The devices at the start of a slot in which they all listen. -/
theorem Idle.listens (idle : wire.Idle logic) (quiet : ∀ state ∈ wire.states, logic.output state = none) :
    (∀ slave ∈ wire.slaves.map (Slave.fall logic wire.now), slave.Listens wire.now) ∧
      (wire.slaves.map (Slave.fall logic wire.now)).map Slave.state = wire.states := by
  constructor
  · intro slave member
    obtain ⟨before, inside, rfl⟩ := List.mem_map.mp member
    exact (Slave.listens_fall (idle.ended before inside) (quiet _ (List.mem_map_of_mem inside))).1
  · rw [states, List.map_map]
    apply List.map_congr_left
    intro slave member
    exact (Slave.listens_fall (idle.ended slave member) (quiet _ (List.mem_map_of_mem member))).2

theorem taken_late {us : Nat} (same : wire.slaves = slaves) (listens : ∀ slave ∈ slaves, slave.Listens start)
    (begun : start ≤ wire.now) (late : start + 960 ≤ wire.now + (16 * us + wire.cost)) :
    (wire.spend logic us).Taken ∧
      (wire.spend logic us).states = (slaves.map Slave.state).map (logic.step · (!wire.low)) := by
  rw [← same] at listens ⊢
  have taken := slaves_spend_late logic listens late
  have later : wire.now ≤ (wire.spend logic us).now := Nat.le_add_right _ _
  refine ⟨⟨?_, ?_⟩, ?_⟩
  · rw [taken]
    intro slave member
    obtain ⟨before, inside, rfl⟩ := List.mem_map.mp member
    rfl
  · rw [taken]
    intro slave member
    obtain ⟨before, inside, rfl⟩ := List.mem_map.mp member
    have pulled := (listens before inside).pulled
    exact ⟨Nat.le_trans pulled.1 (by omega), Nat.le_trans pulled.2 (by omega)⟩
  · rw [states, taken, List.map_map, List.map_map]
    rfl

theorem InSlot.leave (slot : wire.InSlot start first last low slaves) (logic : Logic σ) (us : Nat)
    (listens : ∀ slave ∈ slaves, slave.Listens start) (late : 960 ≤ first + 16 * us) :
    ((wire.setAtomic false).spend logic us).Taken ∧
      ((wire.setAtomic false).spend logic us).states = (slaves.map Slave.state).map (logic.step · (!low)) := by
  have after := slot.after
  rw [← slot.low]
  exact taken_late slot.slaves listens (show start ≤ wire.now by omega) (show start + 960 ≤ wire.now + _ by omega)

end Wire

variable {α : Type} {post : α → Wire σ → Prop}

theorem ends_beginSlot {rest : Code α} (idle : wire.Idle logic)
    (later : ∀ before : Wire σ, before.Idle logic → before.atomic = true → before.states = wire.states →
      Ends (Wire.respond logic) rest (before.fall logic) post) :
    Ends (Wire.respond logic) (do
      atomic true
      pullLow
      rest) wire post := by
  have first := idle.spend 0
  have second := (first.1.setAtomic true).spend 0
  apply ends_call (show wire.respond logic (.atomic true) = some ((), _) from rfl)
  apply ends_call (show Wire.respond logic _ .pullLow = some ((), _) from rfl)
  exact later _ second.1 rfl (second.2.trans first.2)

theorem ends_delayUs {rest : Code α} {us : Nat}
    (later : Ends (Wire.respond logic) rest (wire.spend logic us) post) :
    Ends (Wire.respond logic) (do
      delayUs us
      rest) wire post :=
  ends_call (show wire.respond logic (.delayUs us) = some ((), _) from rfl) later

theorem ends_release {rest : Code α}
    (later : Ends (Wire.respond logic) rest ((wire.spend logic 0).rise logic) post) :
    Ends (Wire.respond logic) (do
      release
      rest) wire post :=
  ends_call (show wire.respond logic .release = some ((), _) from rfl) later

theorem ends_leave {rest : Code α}
    (later : Ends (Wire.respond logic) rest ((wire.spend logic 0).setAtomic false) post) :
    Ends (Wire.respond logic) (do
      atomic false
      rest) wire post :=
  ends_call (show wire.respond logic (.atomic false) = some ((), _) from rfl) later

theorem ends_lastDelayUs {us : Nat} {post : Unit → Wire σ → Prop} (holds : post () (wire.spend logic us)) :
    Ends (Wire.respond logic) (delayUs us) wire post := ⟨(), _, rfl, holds⟩

theorem ends_writeZero {rest : Code α} (idle : wire.Idle logic)
    (quiet : ∀ state ∈ wire.states, logic.output state = none)
    (later : ∀ after : Wire σ, after.Taken → after.atomic = false → after.low = false →
      after.states = wire.states.map (logic.step · false) → Ends (Wire.respond logic) rest after post) :
    Ends (Wire.respond logic) (do
      atomic true
      pullLow
      delayUs 60
      release
      atomic false
      rest) wire post := by
  apply ends_beginSlot idle
  intro before idle inside states
  rw [← states] at quiet later
  have listens := idle.listens quiet
  have slot : (before.fall logic).InSlot _ _ _ _ _ := Wire.inSlot_fall inside
  have cost := (before.fall logic).cost_le inside
  have next := ((before.fall logic).spend logic 60).cost_le inside
  obtain ⟨taken, stepped⟩ : ((before.fall logic).spend logic 60).Taken ∧ _ :=
    Wire.taken_late slot.slaves listens.1 (Nat.le_refl before.now) (show before.now + 960 ≤ before.now + _ by omega)
  have fell : ((before.fall logic).spend logic 60).fell = before.now := rfl
  have time : (((before.fall logic).spend logic 60).spend logic 0).now =
      before.now + (16 * 60 + (before.fall logic).cost) + (16 * 0 + ((before.fall logic).spend logic 60).cost) := rfl
  have waited := taken.spend logic 0
  have released := waited.1.rise logic (show _ - before.now < 7680 by omega)
  have left := released.1.spend logic 0
  apply ends_delayUs
  apply ends_release
  apply ends_leave
  apply later _ (left.1.setAtomic false) rfl rfl
  apply left.2.trans
  rw [released.2, waited.2, stepped, listens.2]
  rfl

theorem ends_writeOne {rest : Code α} (idle : wire.Idle logic)
    (quiet : ∀ state ∈ wire.states, logic.output state = none)
    (later : ∀ after : Wire σ, after.Taken → after.atomic = false → after.low = false →
      after.states = wire.states.map (logic.step · true) → Ends (Wire.respond logic) rest after post) :
    Ends (Wire.respond logic) (do
      atomic true
      pullLow
      delayUs 2
      release
      atomic false
      delayUs (60 - 2)
      rest) wire post := by
  apply ends_beginSlot idle
  intro before idle inside states
  rw [← states] at quiet later
  have listens := idle.listens quiet
  have waiting : ∀ slave ∈ before.slaves.map (Slave.fall logic before.now), slave.Later before.now :=
    fun slave member => (listens.1 slave member).later
  have slot : (before.fall logic).InSlot _ _ _ _ _ := Wire.inSlot_fall inside
  have low := slot.spend logic 2 waiting (by decide)
  have high := (low.spend logic 0 waiting (by decide)).rise logic (by decide)
  have left := high.spend logic 0 waiting (by decide)
  apply ends_delayUs
  apply ends_release
  apply ends_leave
  have sent := left.leave logic 58 listens.1 (by decide)
  apply ends_delayUs
  apply later _ sent.1 rfl rfl
  rw [sent.2, listens.2]
  rfl

/-- A bit is sent to all the devices. -/
theorem ends_sendSlot (idle : wire.Idle logic) (quiet : ∀ state ∈ wire.states, logic.output state = none) (bit : Bool) :
    Ends (Wire.respond logic) (sendSlot bit) wire fun _ after =>
      after.Calm logic ∧ after.states = wire.states.map (logic.step · bit) := by
  have last (after : Wire σ) (taken : after.Taken) (outside : after.atomic = false) (high : after.low = false)
      (states : after.states = wire.states.map (logic.step · bit)) :
      Ends (Wire.respond logic) (delayUs 1) after fun _ after =>
        after.Calm logic ∧ after.states = wire.states.map (logic.step · bit) := by
    have waited := taken.spend logic 1
    exact ends_lastDelayUs ⟨waited.1.calm outside high, waited.2.trans states⟩
  cases bit with
  | false => exact ends_writeZero idle quiet last
  | true => exact ends_writeOne idle quiet last

/-- What a device lets the wire have in a slot in which it may send. -/
def Logic.sends (logic : Logic σ) (state : σ) : Bool := (logic.output state).getD true

/-- A device at the start of a slot in which it sends or does nothing. -/
structure Slave.Answers (logic : Logic σ) (start : Nat) (old : σ) (slave : Slave σ) : Prop where
  later : slave.Later start
  settled : slave.Settled logic
  stepped : slave.state = logic.step old (logic.sends old)
  pulled : slave.pullFrom ≤ start ∧ slave.pullUntil ≤ start + 960
  pulls : ∀ time, start ≤ time → time < start + 240 → slave.pulls time = !logic.sends old

theorem Slave.answers_fall {slave : Slave σ} {now : Nat} (settled : slave.Settled logic)
    (ended : slave.pullFrom ≤ now ∧ slave.pullUntil ≤ now)
    (known : logic.output slave.state ≠ none ∨ logic.Deaf slave.state) :
    (slave.fall logic now).Answers logic now slave.state := by
  have early := slave.timing.sample_ge slave.slot
  have held := slave.timing.hold_ge slave.slot
  have bound := slave.timing.hold_le slave.slot
  cases output : logic.output slave.state with
  | none =>
    have deaf := known.resolve_left (not_not_intro output)
    rw [fall, output]
    refine ⟨?_, .inr deaf, (deaf.2 _).symm, ⟨ended.1, by simp only; omega⟩, ?_⟩
    · intro instant same
      cases same
      omega
    · intro time begun _
      have free : ¬ time < slave.pullUntil := by omega
      simp [pulls, Logic.sends, output, free]
  | some bit =>
    have none : slave.sampling = none := by
      rcases settled with none | deaf
      · exact none
      · rw [deaf.1] at output
        cases output
    rw [fall, output]
    refine ⟨?_, .inl none, ?_, ⟨Nat.le_refl now, ?_⟩, ?_⟩
    · intro instant same
      rw [show slave.sampling = some instant from same] at none
      cases none
    · simp [Logic.sends, output]
    · cases bit <;> simp [bound]
    · intro time begun soon
      cases bit with
      | true =>
        have free : ¬ time < now := by omega
        simp [pulls, Logic.sends, output, free]
      | false =>
        have holding : time < now + slave.timing.hold slave.slot := by omega
        simp [pulls, Logic.sends, output, begun, holding]

theorem Wire.Idle.answers (idle : wire.Idle logic)
    (known : ∀ state ∈ wire.states, logic.output state ≠ none ∨ logic.Deaf state) :
    (∀ slave ∈ wire.slaves, (slave.fall logic wire.now).Answers logic wire.now slave.state) := by
  intro slave member
  exact Slave.answers_fall (idle.settled slave member) (idle.ended slave member) (known _ (List.mem_map_of_mem member))

namespace Wire

variable {start first last : Nat} {slaves : List (Slave σ)}

theorem InSlot.level (slot : wire.InSlot start first last false (slaves.map (Slave.fall logic start)))
    (answers : ∀ slave ∈ slaves, (slave.fall logic start).Answers logic start slave.state) (early : last < 240) :
    wire.level wire.now = (slaves.map Slave.state).all logic.sends := by
  have after := slot.after
  have before := slot.before
  have each : ∀ slave ∈ slaves, (!(slave.fall logic start).pulls wire.now) = logic.sends slave.state := by
    intro slave member
    rw [(answers slave member).pulls wire.now (by omega) (by omega), Bool.not_not]
  rw [Wire.level, slot.low, slot.slaves, List.all_map, List.all_map, Bool.not_false, Bool.true_and, Bool.eq_iff_iff,
    List.all_eq_true, List.all_eq_true]
  constructor
  · intro all slave member
    rw [Function.comp_apply, ← each slave member]
    exact all slave member
  · intro all slave member
    rw [Function.comp_apply, each slave member]
    exact all slave member

/-- The slot is left 55 microseconds before the next one at the earliest. -/
theorem InSlot.leave_calm (slot : wire.InSlot start first last false (slaves.map (Slave.fall logic start)))
    (answers : ∀ slave ∈ slaves, (slave.fall logic start).Answers logic start slave.state) (late : 64 ≤ first) :
    ((wire.setAtomic false).spend logic 55).Calm logic ∧
      ((wire.setAtomic false).spend logic 55).states =
        (slaves.map Slave.state).map fun state => logic.step state (logic.sends state) := by
  have after := slot.after
  have settled : ∀ slave ∈ (wire.setAtomic false).slaves, slave.Settled logic := by
    rw [show (wire.setAtomic false).slaves = _ from slot.slaves]
    intro slave member
    obtain ⟨old, present, rfl⟩ := List.mem_map.mp member
    exact (answers old present).settled
  have pulled : ∀ slave ∈ (wire.setAtomic false).slaves,
      slave.pullFrom ≤ start ∧ slave.pullUntil ≤ start + 960 := by
    rw [show (wire.setAtomic false).slaves = _ from slot.slaves]
    intro slave member
    obtain ⟨old, present, rfl⟩ := List.mem_map.mp member
    exact (answers old present).pulled
  have kept := settled_spend settled 55
  have bounds := pulled_spend logic 55 pulled
  have time : ((wire.setAtomic false).spend logic 55).now = wire.now + (16 * 55 + (wire.setAtomic false).cost) := rfl
  refine ⟨⟨rfl, slot.low, kept.1, ?_⟩, ?_⟩
  · intro slave member
    exact ⟨Nat.le_trans (bounds slave member).1 (by omega), Nat.le_trans (bounds slave member).2 (by omega)⟩
  · rw [kept.2, states, show (wire.setAtomic false).slaves = _ from slot.slaves, List.map_map, List.map_map]
    apply List.map_congr_left
    intro slave member
    exact (answers slave member).stepped

end Wire

/-- A bit is read from the devices that send, as the wire puts them together. -/
theorem ends_readSlot (idle : wire.Idle logic)
    (known : ∀ state ∈ wire.states, logic.output state ≠ none ∨ logic.Deaf state) :
    Ends (Wire.respond logic) readSlot wire fun high after =>
      high = wire.states.all logic.sends ∧ after.Calm logic ∧
      after.states = wire.states.map fun state => logic.step state (logic.sends state) := by
  apply ends_beginSlot idle
  intro before idle inside states
  rw [← states] at known ⊢
  have answers := idle.answers known
  have waiting : ∀ slave ∈ before.slaves.map (Slave.fall logic before.now), slave.Later before.now := by
    intro slave member
    obtain ⟨old, present, rfl⟩ := List.mem_map.mp member
    exact (answers old present).later
  have slot : (before.fall logic).InSlot _ _ _ _ _ := Wire.inSlot_fall inside
  have low := slot.spend logic 2 waiting (by decide)
  have high := (low.spend logic 0 waiting (by decide)).rise logic (by decide)
  have look := (high.spend logic 2 waiting (by decide)).spend logic 0 waiting (by decide)
  have left := look.spend logic 0 waiting (by decide)
  apply ends_delayUs
  apply ends_release
  apply ends_delayUs
  apply ends_call (show Wire.respond logic _ .getBit = some (_, _) from rfl)
  apply ends_leave
  apply ends_delayUs
  apply ends_pure
  exact ⟨look.level answers (by decide), left.leave_calm answers (by decide)⟩

namespace Wire

/-- No device is in a slot, nor has it a command that the reset would end. -/
def Rested (logic : Logic σ) (wire : Wire σ) : Prop :=
  ∀ slave ∈ wire.slaves, slave.Settled logic ∧ logic.Spared slave.state

theorem Calm.rested (calm : wire.Calm logic) (spared : ∀ state ∈ wire.states, logic.Spared state) :
    wire.Rested logic :=
  fun slave member => ⟨calm.settled slave member, spared _ (List.mem_map_of_mem member)⟩

theorem Rested.spend (rested : wire.Rested logic) (us : Nat) :
    (wire.spend logic us).Rested logic ∧ (wire.spend logic us).states = wire.states := by
  have kept := settled_spend (fun slave member => (rested slave member).1) us
  refine ⟨?_, kept.2⟩
  intro slave member
  refine ⟨kept.1 slave member, ?_⟩
  obtain ⟨before, inside, rfl⟩ := mem_spend member
  rw [((rested before inside).1.pass _ _).1]
  exact (rested before inside).2

/-- The level of a reset is another bit for the devices, which the end of the reset makes them forget. -/
theorem Rested.hold (rested : wire.Rested logic) {us : Nat} (long : 960 ≤ 16 * us) :
    (∀ slave ∈ ((wire.fall logic).spend logic us).slaves, slave.sampling = none) ∧
      ((wire.fall logic).spend logic us).states.map logic.restart = wire.states.map logic.restart := by
  have low (time : Nat) : (wire.fall logic).level time = false := by rw [level, fall, Bool.not_true, Bool.false_and]
  have slaves : ((wire.fall logic).spend logic us).slaves = wire.slaves.map fun slave =>
      (slave.fall logic wire.now).pass logic (wire.fall logic).level (wire.now + (16 * us + (wire.fall logic).cost)) :=
    List.map_map
  have each (slave : Slave σ) (member : slave ∈ wire.slaves) :=
    Slave.pass_fall (rested slave member).1 (rested slave member).2 low
      (show wire.now + 960 ≤ wire.now + (16 * us + (wire.fall logic).cost) by omega)
  constructor
  · rw [slaves]
    intro slave member
    obtain ⟨before, inside, rfl⟩ := List.mem_map.mp member
    exact (each before inside).1
  · rw [states, slaves, states, List.map_map, List.map_map, List.map_map]
    apply List.map_congr_left
    intro slave member
    exact (each slave member).2

/-- The devices right after a reset. -/
theorem rise_reset (logic : Logic σ) (long : 7680 ≤ wire.now - wire.fell) :
    (wire.rise logic).states = wire.states.map logic.restart ∧
      (∀ slave ∈ (wire.rise logic).slaves, slave.Settled logic) ∧
      ∀ slave ∈ (wire.rise logic).slaves, slave.pullFrom ≤ wire.now + 4800 ∧ slave.pullUntil ≤ wire.now + 4800 := by
  have slaves : (wire.rise logic).slaves = wire.slaves.map (Slave.restart logic wire.now) := if_pos long
  rw [states, slaves, states, List.map_map, List.map_map]
  refine ⟨rfl, ?_, ?_⟩
  · intro slave member
    obtain ⟨before, inside, rfl⟩ := List.mem_map.mp member
    exact .inl rfl
  · intro slave member
    obtain ⟨before, inside, rfl⟩ := List.mem_map.mp member
    have delay := before.timing.delay_le before.slot
    have length := before.timing.length_le before.slot
    simp only [Slave.restart]
    omega

/-- The wait that follows a reset is longer than the presence pulses. -/
theorem calm_wait {limit : Nat} (high : wire.low = false) (settled : ∀ slave ∈ wire.slaves, slave.Settled logic)
    (pulled : ∀ slave ∈ wire.slaves, slave.pullFrom ≤ limit ∧ slave.pullUntil ≤ limit) (us : Nat)
    (long : limit ≤ wire.now + 16 * us) :
    ((wire.setAtomic false).spend logic us).Calm logic ∧
      ((wire.setAtomic false).spend logic us).states = wire.states := by
  have still : ∀ slave ∈ (wire.setAtomic false).slaves, slave.Settled logic := settled
  have within : ∀ slave ∈ (wire.setAtomic false).slaves, slave.pullFrom ≤ limit ∧ slave.pullUntil ≤ limit := pulled
  have kept := settled_spend still us
  have bounds := pulled_spend logic us within
  have time : ((wire.setAtomic false).spend logic us).now = wire.now + (16 * us + _) := rfl
  refine ⟨⟨rfl, high, kept.1, ?_⟩, kept.2⟩
  intro slave member
  have bound := bounds slave member
  omega

end Wire

/-- A reset reaches the devices, and their presence pulses are gone when it is over. -/
theorem ends_reset (rested : wire.Rested logic) :
    Ends (Wire.respond logic) onewireReset wire fun _ after =>
      after.Calm logic ∧ after.states = wire.states.map logic.restart := by
  have entered := rested.spend 0
  have ready := Wire.Rested.spend (show ((wire.spend logic 0).setAtomic true).Rested logic from entered.1) 0
  have same : (((wire.spend logic 0).setAtomic true).spend logic 0).states = wire.states := ready.2.trans entered.2
  apply ends_call (show wire.respond logic (.atomic true) = some ((), _) from rfl)
  apply ends_call (show Wire.respond logic _ .pullLow = some ((), _) from rfl)
  generalize ((wire.spend logic 0).setAtomic true).spend logic 0 = before at ready same ⊢
  obtain ⟨sampled, forgotten⟩ := ready.1.hold (show 960 ≤ 16 * (480 + 2) by decide)
  have low : (((before.fall logic).spend logic (480 + 2)).spend logic 0).slaves = _ := Wire.slaves_spend logic sampled 0
  have fell : (((before.fall logic).spend logic (480 + 2)).spend logic 0).fell = before.now := rfl
  have time : (((before.fall logic).spend logic (480 + 2)).spend logic 0).now =
      before.now + (16 * (480 + 2) + _) + (16 * 0 + _) := rfl
  apply ends_delayUs
  apply ends_release
  generalize ((before.fall logic).spend logic (480 + 2)).spend logic 0 = held at low fell time ⊢
  obtain ⟨restarted, settled, pulled⟩ := held.rise_reset logic (by omega)
  have left := Wire.settled_spend settled 0
  have bounds := Wire.pulled_spend logic 0 pulled
  have later : ((held.rise logic).spend logic 0).now = held.now + _ := rfl
  have waited : _ ∧ _ = ((held.rise logic).spend logic 0).states :=
    Wire.calm_wait rfl left.1 bounds (480 + 2) (by omega)
  apply ends_leave
  apply ends_lastDelayUs
  refine ⟨waited.1, ?_⟩
  rw [waited.2, left.2, restarted, Wire.states, low, ← same]
  exact forgotten

end Minimus32.OneWire
