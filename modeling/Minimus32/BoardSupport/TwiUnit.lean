import Mathlib.Order.Monotone.Basic
import Mathlib.Order.WellFounded
import Minimus32.BoardSupport.Twi

namespace Minimus32.Twi

open Interaction Program

inductive BusAction where
  | start
  | address (byte : UInt8)
  | received (byte : UInt8) (acknowledged : Bool)
  | sent (byte : UInt8)
  | stop
deriving DecidableEq

def BusAction.isReceived : BusAction → Bool
  | .received .. => true
  | .start | .address _ | .sent _ | .stop => false

/-- What the next byte on the bus is for. -/
inductive Phase where
  | off
  | started
  | receiving
  | transmitting
deriving DecidableEq

/-- The TWI unit, with the action it is in the middle of and all the actions it has begun. -/
structure Controller where
  control : UInt8
  twint : Bool
  twdr : UInt8
  twsr : UInt8
  phase : Phase
  busy : Option BusAction
  log : List BusAction
deriving DecidableEq

namespace Controller

/-- `TWSR` keeps the prescaler in its two low bits. -/
def present (u : Controller) (code : UInt8) : Controller :=
  { u with busy := none, twint := true, twsr := code ||| (u.twsr &&& 0b11) }

/-- The end of the action in progress; every other action than a stop sets the flag. -/
def complete (u : Controller) : Controller :=
  match u.busy with
  | none => u
  | some .start => { u.present (if u.phase = .off then 0x08 else 0x10) with phase := .started }
  | some (.address byte) =>
    if byte &&& addressRead ≠ 0 then { u.present 0x40 with phase := .receiving }
    else { u.present 0x18 with phase := .transmitting }
  | some (.received byte acknowledged) => { u.present (if acknowledged then 0x50 else 0x58) with twdr := byte }
  | some (.sent _) => u.present 0x28
  | some .stop => { u with busy := none, phase := .off }

def clocked (u : Controller) : Nat := u.log.countP BusAction.isReceived

/-- The action that a write to `TWCR` begins; a data byte is acknowledged if `TWEA` is set. -/
def next (slave : Nat → UInt8) (u : Controller) (value : UInt8) : Option BusAction :=
  if value &&& twsta ≠ 0 then some .start
  else if value &&& twsto ≠ 0 then some .stop
  else
    match u.phase with
    | .off => none
    | .started => some (.address u.twdr)
    | .receiving => some (.received (slave u.clocked) (decide (value &&& twea ≠ 0)))
    | .transmitting => some (.sent u.twdr)

def begin (u : Controller) (value : UInt8) (action : BusAction) : Controller :=
  { u with control := value, twint := false, busy := some action, log := u.log ++ [action] }

/-- A write is lost on the unit while it is in the middle of an action. -/
def writeTwcr (slave : Nat → UInt8) (u : Controller) (value : UInt8) : Controller :=
  match u.busy with
  | some _ => u
  | none =>
    if value &&& Twi.twint = 0 then { u with control := value }
    else
      match u.next slave value with
      | none => { u with control := value, twint := false }
      | some action => u.begin value action

def writeTwdr (u : Controller) (value : UInt8) : Controller := { u with twdr := value }

def readTwcr (u : Controller) : UInt8 := (u.control &&& 0b01111111) ||| if u.twint then Twi.twint else 0

end Controller

/-- The unit and the number of accesses to it so far. -/
structure World where
  unit : Controller
  time : Nat
deriving DecidableEq

/-- The data bytes that the slave answers with, and whether the action in progress is over before an access. -/
structure Bus where
  slave : Nat → UInt8
  early : Nat → Bool

def Bus.elapse (b : Bus) (w : World) : Controller := if b.early w.time then w.unit.complete else w.unit

def Bus.answer (b : Bus) (w : World) : (op : Access) → Option (op.Reply × World)
  | .writeTwcr value => some ((), ⟨(b.elapse w).writeTwcr b.slave value, w.time + 1⟩)
  | .readTwcr => some ((b.elapse w).readTwcr, ⟨b.elapse w, w.time + 1⟩)
  | .writeTwdr value => some ((), ⟨(b.elapse w).writeTwdr value, w.time + 1⟩)
  | .readTwdr => some ((b.elapse w).twdr, ⟨b.elapse w, w.time + 1⟩)
  | .readTwsr => some ((b.elapse w).twsr, ⟨b.elapse w, w.time + 1⟩)
  | .wait => if (b.elapse w).complete.twint then some ((), ⟨(b.elapse w).complete, w.time + 1⟩) else none

/-- No action is over before the code waits for its end. -/
def Bus.Slow (b : Bus) : Prop := ∀ time, b.early time = false

/-- The actions of a read from which `k` data bytes have been begun, all of them acknowledged. -/
def midway (address : UInt8) (slave : Nat → UInt8) (k : Nat) : List BusAction :=
  .start :: .address address :: (List.range k).map fun j => .received (slave j) true

/-- The actions of a read as they are meant: `n` data bytes, the last one of them not acknowledged. -/
def asked (address : UInt8) (slave : Nat → UInt8) (n : Nat) : List BusAction :=
  .start :: .address address :: (List.range n).map (fun j => .received (slave j) (decide (j + 1 < n))) ++ [.stop]

theorem countP_received (slave : Nat → UInt8) (acknowledged : Nat → Bool) (k : Nat) :
    ((List.range k).map fun j => BusAction.received (slave j) (acknowledged j)).countP BusAction.isReceived = k := by
  have all : ∀ action ∈ (List.range k).map fun j => BusAction.received (slave j) (acknowledged j),
      action.isReceived = true := by
    intro action member
    obtain ⟨j, -, rfl⟩ := List.mem_map.mp member
    rfl
  rw [List.countP_eq_length.mpr all, List.length_map, List.length_range]

theorem countP_midway (address : UInt8) (slave : Nat → UInt8) (k : Nat) :
    (midway address slave k).countP BusAction.isReceived = k := countP_received slave (fun _ => true) k

theorem countP_asked (address : UInt8) (slave : Nat → UInt8) (n : Nat) :
    (asked address slave n).countP BusAction.isReceived = n := by
  unfold asked
  rw [List.countP_append]
  exact countP_received slave (fun j => decide (j + 1 < n)) n

theorem midway_succ (address : UInt8) (slave : Nat → UInt8) (k : Nat) :
    midway address slave (k + 1) = midway address slave k ++ [.received (slave k) true] := by
  rw [midway, midway, List.range_succ, List.map_append]
  rfl

/-- Between two bytes of a read. -/
structure Resting (b : Bus) (address : UInt8) (k : Nat) (u : Controller) : Prop where
  control : u.control = twint ||| twea ||| twen
  flag : u.twint = true
  phase : u.phase = .receiving
  busy : u.busy = none
  log : u.log = midway address b.slave k

/-- In the middle of the data byte numbered `k`. -/
structure Clocking (b : Bus) (address : UInt8) (k : Nat) (u : Controller) : Prop where
  control : u.control = twint ||| twea ||| twen
  phase : u.phase = .receiving
  busy : u.busy = some (.received (b.slave k) true)
  log : u.log = midway address b.slave (k + 1)

section

variable {b : Bus} {address : UInt8} {k time : Nat} {u : Controller}

theorem Bus.elapse_idle (idle : u.busy = none) : b.elapse ⟨u, time⟩ = u := by
  have same : u.complete = u := by rw [Controller.complete, idle]
  unfold Bus.elapse
  dsimp only
  rw [same, ite_self]

theorem Bus.elapse_cases (b : Bus) (u : Controller) (time : Nat) :
    b.elapse ⟨u, time⟩ = u ∨ ¬ b.Slow ∧ b.elapse ⟨u, time⟩ = u.complete := by
  unfold Bus.elapse
  cases early : b.early time with
  | false => exact .inl rfl
  | true => exact .inr ⟨fun slow => Bool.false_ne_true ((slow time).symm.trans early), rfl⟩

theorem Controller.busy_complete (u : Controller) : u.complete.busy = none := by
  unfold Controller.complete
  split
  · assumption
  · rfl
  · split
    · rfl
    · rfl
  · rfl
  · rfl
  · rfl

/-- At a wait it makes no difference whether the action was over before. -/
theorem Bus.answer_wait (flag : u.complete.twint = true) :
    b.answer ⟨u, time⟩ .wait = some ((), ⟨u.complete, time + 1⟩) := by
  have finished : (b.elapse ⟨u, time⟩).complete = u.complete := by
    rcases b.elapse_cases u time with still | ⟨-, ended⟩
    · rw [still]
    · rw [ended, Controller.complete, u.busy_complete]
  show (if (b.elapse ⟨u, time⟩).complete.twint = true then some ((), World.mk (b.elapse ⟨u, time⟩).complete (time + 1))
    else none) = _
  rw [finished, if_pos flag]

theorem Controller.writeTwcr_idle {slave : Nat → UInt8} {value : UInt8} {action : BusAction} (idle : u.busy = none)
    (set : value &&& Twi.twint ≠ 0) (begun : u.next slave value = some action) :
    u.writeTwcr slave value = u.begin value action := by
  rw [Controller.writeTwcr, idle]
  dsimp only
  rw [if_neg set, begun]

theorem Controller.status_present (u : Controller) {code : UInt8} (plain : code &&& statusMask = code) :
    (u.present code).twsr &&& statusMask = code := by
  have prescaler : u.twsr &&& 0b11 &&& statusMask = 0 := by
    rw [UInt8.and_assoc]
    exact UInt8.and_zero
  have split : (code ||| (u.twsr &&& 0b11)) &&& statusMask =
      (code &&& statusMask) ||| (u.twsr &&& 0b11 &&& statusMask) :=
    UInt8.toBitVec_inj.mp BitVec.and_or_distrib_right
  show (code ||| (u.twsr &&& 0b11)) &&& statusMask = code
  rw [split, plain, prescaler, UInt8.or_zero]

theorem Controller.status_start (busy : u.busy = some .start) : u.complete.twsr &&& statusMask ∈ [0x08, 0x10] := by
  rw [Controller.complete, busy]
  show (u.present (if u.phase = .off then 0x08 else 0x10)).twsr &&& statusMask ∈ _
  by_cases first : u.phase = .off
  · rw [if_pos first, u.status_present (by decide)]
    decide
  · rw [if_neg first, u.status_present (by decide)]
    decide

theorem Clocking.complete (clocking : Clocking b address k u) :
    Resting b address (k + 1) u.complete ∧ u.complete.twdr = b.slave k ∧ u.complete.twsr &&& statusMask = 0x50 := by
  have finished : u.complete = { u.present 0x50 with twdr := b.slave k } := by
    rw [Controller.complete, clocking.busy]
    rfl
  rw [finished]
  exact ⟨⟨clocking.control, rfl, clocking.phase, rfl, clocking.log⟩, rfl, u.status_present (by decide)⟩

theorem Resting.write (resting : Resting b address k u) :
    Clocking b address k (u.writeTwcr b.slave (twint ||| twea ||| twen)) := by
  have count : u.clocked = k := by rw [Controller.clocked, resting.log, countP_midway]
  have begun : u.next b.slave (twint ||| twea ||| twen) = some (.received (b.slave k) true) := by
    rw [Controller.next, if_neg (by decide), if_neg (by decide), resting.phase, ← count]
    rfl
  rw [Controller.writeTwcr_idle resting.busy (by decide) begun]
  refine ⟨rfl, resting.phase, rfl, ?_⟩
  show u.log ++ _ = _
  rw [resting.log, midway_succ]

theorem Clocking.write (clocking : Clocking b address k u) (value : UInt8) : u.writeTwcr b.slave value = u := by
  rw [Controller.writeTwcr, clocking.busy]

/-- Whatever the flag, the code writes back what it has written before. -/
theorem readTwcr_or (control : u.control = twint ||| twea ||| twen) :
    u.readTwcr ||| twint = twint ||| twea ||| twen := by
  rw [Controller.readTwcr, control]
  cases u.twint with
  | false => rfl
  | true => rfl

theorem steady_idle (b : Bus) (idle : u.busy = none) : Steady b.answer (·.unit = u) u.twsr := by
  rintro ⟨v, time⟩ rfl
  have still : b.elapse ⟨v, time⟩ = v := Bus.elapse_idle idle
  refine ⟨⟨v, time + 1⟩, ?_, rfl⟩
  show some ((b.elapse ⟨v, time⟩).twsr, World.mk (b.elapse ⟨v, time⟩) (time + 1)) = _
  rw [still]

theorem ends_check_idle (idle : u.busy = none) {missing : List UInt8} (error : TwiError)
    (acknowledged : u.twsr &&& statusMask ∉ missing) (won : u.twsr &&& statusMask ≠ 0x38) :
    Ends b.answer (check missing error) ⟨u, time⟩ fun early w => early = none ∧ w.unit = u := by
  refine ((steady_idle b idle).ends_statusIn rfl missing).bind ?_
  rintro found ⟨_, time⟩ ⟨rfl, sure⟩
  rw [if_neg (sure.not.mpr acknowledged)]
  refine ((steady_idle b idle).ends_statusIn rfl [0x38]).bind ?_
  rintro lost ⟨_, time⟩ ⟨rfl, sure⟩
  rw [if_neg (sure.not.mpr (by simpa using won))]
  exact ends_pure ⟨rfl, rfl⟩

theorem Resting.elapse (resting : Resting b address k u) : b.elapse ⟨u, time⟩ = u := Bus.elapse_idle resting.busy

/-- The byte in progress is stored, and the next one begun at once. -/
theorem ends_takeByte (clocking : Clocking b address k u) :
    Ends b.answer takeByte ⟨u, time⟩ fun result w => result = .ok (b.slave k) ∧ Clocking b address (k + 1) w.unit := by
  obtain ⟨resting, byte, status⟩ := clocking.complete
  refine ends_call (Bus.answer_wait resting.flag) ?_
  refine (ends_check_idle resting.busy .missingDataAck (by rw [status]; decide) (by rw [status]; decide)).bind ?_
  rintro _ ⟨_, later⟩ ⟨rfl, rfl⟩
  refine ends_call rfl (ends_call rfl (ends_pure ?_))
  rw [Bus.elapse_idle resting.busy, Bus.elapse_idle resting.busy, byte]
  exact ⟨rfl, resting.write⟩

theorem ends_readByte_resting (resting : Resting b address k u) :
    Ends b.answer readByte ⟨u, time⟩ fun result w =>
      result = .ok (b.slave k) ∧ Clocking b address (k + 1) w.unit := by
  refine ends_call rfl (ends_call rfl ?_)
  rw [Bus.elapse_idle resting.busy, Bus.elapse_idle resting.busy, readTwcr_or resting.control]
  exact ends_takeByte resting.write

/-- The write at the head of a round is lost while a byte is on the bus. If that byte is over, the write begins another
    one, and nothing stores the byte before. -/
theorem Clocking.head (clocking : Clocking b address k u) (time : Nat) :
    ∃ j, k ≤ j ∧ (b.Slow → j = k) ∧
      Clocking b address j ((b.elapse ⟨b.elapse ⟨u, time⟩, time + 1⟩).writeTwcr b.slave (twint ||| twea ||| twen)) := by
  have finished := clocking.complete.1
  rcases b.elapse_cases u time with still | ⟨fast, ended⟩
  · rw [still]
    rcases b.elapse_cases u (time + 1) with still | ⟨fast, ended⟩
    · rw [still, clocking.write]
      exact ⟨k, Nat.le_refl k, fun _ => rfl, clocking⟩
    · rw [ended]
      exact ⟨k + 1, Nat.le_succ k, fun slow => absurd slow fast, finished.write⟩
  · rw [ended, finished.elapse]
    exact ⟨k + 1, Nat.le_succ k, fun slow => absurd slow fast, finished.write⟩

theorem Clocking.control_elapse (clocking : Clocking b address k u) :
    (b.elapse ⟨u, time⟩).control = twint ||| twea ||| twen := by
  rcases b.elapse_cases u time with still | ⟨-, finished⟩
  · rw [still, clocking.control]
  · rw [finished, clocking.complete.1.control]

theorem ends_readByte_clocking (clocking : Clocking b address k u) :
    Ends b.answer readByte ⟨u, time⟩ fun result w => ∃ j, k ≤ j ∧ (b.Slow → j = k) ∧
      result = .ok (b.slave j) ∧ Clocking b address (j + 1) w.unit := by
  obtain ⟨j, reached, slow, begun⟩ := clocking.head time
  refine ends_call rfl (ends_call rfl ?_)
  rw [readTwcr_or clocking.control_elapse]
  apply (ends_takeByte begun).mono
  intro result w stored
  exact ⟨j, reached, slow, stored⟩

def precede (first : Nat) (later : Nat → Nat) : Nat → Nat
  | 0 => first
  | m + 1 => later m

theorem strictMono_precede {first : Nat} {later : Nat → Nat} (below : first < later 0) (grows : StrictMono later) :
    StrictMono (precede first later) := by
  apply strictMono_nat_of_lt_succ
  intro m
  cases m with
  | zero => exact below
  | succ m => exact grows (Nat.lt_succ_self m)

/-- The bytes that `n` rounds store behind index `i`: the ones numbered `pick`, the next of which is on the bus then. -/
structure Picked (b : Bus) (address : UInt8) (pick : Nat → Nat) (n i : Nat) (stored : Nat → UInt8) (u : Controller) :
    Prop where
  grows : StrictMono pick
  clocking : Clocking b address (pick n) u
  bytes : ∀ m < n, stored (i + m) = b.slave (pick m)

theorem Picked.cons {pick : Nat → Nat} {n i : Nat} {stored : Nat → UInt8}
    (picked : Picked b address pick n (i + 1) stored u) (below : k < pick 0) (first : stored i = b.slave k) :
    Picked b address (precede k pick) (n + 1) i stored u := by
  refine ⟨strictMono_precede below picked.grows, picked.clocking, ?_⟩
  intro m inside
  cases m with
  | zero => exact first
  | succ m =>
    rw [Nat.add_comm m 1, ← Nat.add_assoc, Nat.add_comm 1 m]
    exact picked.bytes m (by omega)

theorem ends_readLoop_clocking (clocking : Clocking b address k u) (n i : Nat) (buffer : Nat → UInt8) :
    Ends b.answer (readLoop n i buffer) ⟨u, time⟩ fun result w => result.1 = none ∧ (∀ m < i, result.2 m = buffer m) ∧
      ∃ pick, Picked b address pick n i result.2 w.unit ∧ k ≤ pick 0 ∧ (b.Slow → ∀ m, pick m = k + m) := by
  induction n generalizing k u time i buffer with
  | zero =>
    have grows : StrictMono (k + ·) := fun _ _ less => Nat.add_lt_add_left less k
    refine ends_pure ⟨rfl, fun _ _ => rfl, (k + ·), ⟨grows, clocking, ?_⟩, Nat.le_refl k, fun _ _ => rfl⟩
    intro m none
    exact absurd none (Nat.not_lt_zero m)
  | succ n ih =>
    refine (ends_readByte_clocking clocking).bind ?_
    rintro _ ⟨v, later⟩ ⟨j, reached, slow, rfl, begun⟩
    apply (ih begun (i + 1) _).mono
    rintro ⟨early, stored⟩ w ⟨none, kept, pick, picked, above, even⟩
    have first : stored i = b.slave j := (kept i (Nat.lt_succ_self i)).trans (Function.update_self i _ buffer)
    refine ⟨none, ?_, precede j pick, picked.cons above first, reached, ?_⟩
    · intro m below
      exact (kept m (by omega)).trans (Function.update_of_ne (by omega) _ buffer)
    · intro calm m
      cases slow calm
      cases m with
      | zero => rfl
      | succ m => exact (even calm m).trans (by omega)

theorem ends_readLoop_resting (resting : Resting b address 0 u) {n : Nat} (some : n ≠ 0) (buffer : Nat → UInt8) :
    Ends b.answer (readLoop n 0 buffer) ⟨u, time⟩ fun result w => result.1 = none ∧
      ∃ pick, Picked b address pick n 0 result.2 w.unit ∧ pick 0 = 0 ∧ (b.Slow → ∀ m, pick m = m) := by
  cases n with
  | zero => exact absurd rfl some
  | succ n =>
    refine (ends_readByte_resting resting).bind ?_
    rintro _ ⟨v, later⟩ ⟨rfl, begun⟩
    apply (ends_readLoop_clocking begun n 1 _).mono
    rintro ⟨early, stored⟩ w ⟨none, kept, pick, picked, above, even⟩
    have first : stored 0 = b.slave 0 := (kept 0 Nat.one_pos).trans (Function.update_self 0 _ buffer)
    refine ⟨none, precede 0 pick, picked.cons above first, rfl, ?_⟩
    intro slow m
    cases m with
    | zero => rfl
    | succ m => exact (even slow m).trans (by omega)

theorem ends_sendAddress_read (phase : u.phase = .started) (idle : u.busy = none) (log : u.log = [.start])
    (read : address &&& addressRead ≠ 0) :
    Ends b.answer (sendAddress address) ⟨u, time⟩ fun early w => early = none ∧ Resting b address 0 w.unit := by
  have begun : (u.writeTwdr address).next b.slave (twint ||| twea ||| twen) = some (.address address) := by
    rw [Controller.next, if_neg (by decide), if_neg (by decide), show (u.writeTwdr address).phase = _ from phase]
    rfl
  have loaded : (u.writeTwdr address).busy = none := idle
  refine ends_call rfl (ends_call rfl ?_)
  rw [Bus.elapse_idle idle, Bus.elapse_idle loaded, Controller.writeTwcr_idle loaded (by decide) begun]
  generalize sending : (u.writeTwdr address).begin (twint ||| twea ||| twen) (.address address) = v
  have finished : v.complete = { v.present 0x40 with phase := .receiving } := by
    rw [← sending]
    exact if_pos read
  have status : v.complete.twsr &&& statusMask = 0x40 := by
    rw [finished]
    exact v.status_present (by decide)
  have resting : Resting b address 0 v.complete := by
    rw [finished, ← sending]
    refine ⟨rfl, rfl, rfl, rfl, ?_⟩
    show u.log ++ _ = _
    rw [log]
    rfl
  refine ends_call (Bus.answer_wait resting.flag) ?_
  apply (ends_check_idle resting.busy .missingAddressAck (by rw [status]; decide) (by rw [status]; decide)).mono
  rintro early ⟨_, later⟩ ⟨none, rfl⟩
  exact ⟨none, resting⟩

theorem ends_startCondition_read (idle : u.busy = none) (fresh : u.log = []) (read : address &&& addressRead ≠ 0) :
    Ends b.answer (startCondition address) ⟨u, time⟩ fun early w => early = none ∧ Resting b address 0 w.unit := by
  have start : u.next b.slave (twint ||| twea ||| twsta ||| twen) = some .start := rfl
  refine ends_call rfl ?_
  rw [Bus.elapse_idle idle, Controller.writeTwcr_idle idle (by decide) start]
  refine ends_call (Bus.answer_wait rfl) ?_
  refine ((steady_idle b rfl).ends_statusIn rfl [0x08, 0x10]).bind ?_
  rintro sent ⟨v, later⟩ ⟨rfl, sure⟩
  rw [if_pos (sure.mpr (Controller.status_start rfl))]
  apply ends_sendAddress_read rfl rfl ?_ read
  show u.log ++ _ = _
  rw [fresh, List.nil_append]

/-- The stop is lost on a unit that is in the middle of a byte. -/
theorem Clocking.stop (clocking : Clocking b address k u) :
    ((b.elapse ⟨u, time⟩).writeTwcr b.slave (twint ||| twea ||| twsto ||| twen)).log = midway address b.slave (k + 1) ∨
      ¬ b.Slow ∧ ((b.elapse ⟨u, time⟩).writeTwcr b.slave (twint ||| twea ||| twsto ||| twen)).log =
        midway address b.slave (k + 1) ++ [.stop] := by
  rcases b.elapse_cases u time with still | ⟨fast, ended⟩
  · rw [still, clocking.write]
    exact .inl clocking.log
  · have finished := clocking.complete.1
    rw [ended, Controller.writeTwcr_idle finished.busy (by decide) (show _ = some .stop from rfl), ← finished.log]
    exact .inr ⟨fast, rfl⟩

/-- The whole read: the stop comes with another byte on the bus or behind it. -/
theorem ends_blockingMasterOpperation_read (b : Bus) (time : Nat) {bufferLength flags : UInt8} (some : bufferLength ≠ 0)
    (read : address &&& addressRead ≠ 0) (starts : flags &&& dontSendStartCond = 0) (stops : flags &&& sendStopCond ≠ 0)
    (idle : u.busy = none) (fresh : u.log = []) (buffer : Nat → UInt8) :
    Ends b.answer (blockingMasterOpperation address bufferLength buffer flags) ⟨u, time⟩ fun result w =>
      result.1 = .noError ∧
      ∃ pick, StrictMono pick ∧ pick 0 = 0 ∧ (b.Slow → ∀ m, pick m = m) ∧
        (∀ i < bufferLength.toNat, result.2 i = b.slave (pick i)) ∧
        (w.unit.log = midway address b.slave (pick bufferLength.toNat + 1) ∨
          ¬ b.Slow ∧ w.unit.log = midway address b.slave (pick bufferLength.toNat + 1) ++ [.stop]) := by
  have positive : bufferLength.toNat ≠ 0 := fun zero => some (UInt8.toNat_inj.mp zero)
  unfold blockingMasterOpperation openBus transfer
  rw [if_pos starts, if_pos read]
  refine (ends_startCondition_read idle fresh read).bind ?_
  rintro _ ⟨v, later⟩ ⟨rfl, resting⟩
  refine (ends_readLoop_resting resting positive buffer).bind ?_
  rintro ⟨_, stored⟩ ⟨v, last⟩ ⟨rfl, pick, picked, first, even⟩
  dsimp only
  rw [if_pos stops]
  refine ends_call rfl (ends_pure ⟨rfl, pick, picked.grows, first, even, ?_, picked.clocking.stop⟩)
  intro i inside
  rw [← picked.bytes i inside, Nat.zero_add]

end

theorem blockingMasterOpperation_read_length (b : Bus) (u : Controller) (time : Nat) (address bufferLength : UInt8)
    (buffer : Nat → UInt8) (flags : UInt8) (some : bufferLength ≠ 0) (read : address &&& addressRead ≠ 0)
    (starts : flags &&& dontSendStartCond = 0) (stops : flags &&& sendStopCond ≠ 0) (idle : u.busy = none)
    (fresh : u.log = []) :
    ∃ stored w pick,
      (blockingMasterOpperation address bufferLength buffer flags).run b.answer ⟨u, time⟩ =
        Option.some ((.noError, stored), w) ∧
      StrictMono pick ∧ pick 0 = 0 ∧
      (∀ i < bufferLength.toNat, stored i = b.slave (pick i)) ∧
      (w.unit.log = midway address b.slave (pick bufferLength.toNat + 1) ∨
        w.unit.log = midway address b.slave (pick bufferLength.toNat + 1) ++ [.stop]) ∧
      w.unit.log ≠ asked address b.slave bufferLength.toNat ∧
      (b.Slow → (∀ i, pick i = i) ∧ w.unit.log = midway address b.slave (bufferLength.toNat + 1)) := by
  have ends := ends_blockingMasterOpperation_read b time some read starts stops idle fresh buffer
  obtain ⟨⟨_, stored⟩, w, ran, rfl, pick, grows, first, even, bytes, logged⟩ := ends
  have actions := logged.imp_right And.right
  have count : w.unit.log.countP BusAction.isReceived = pick bufferLength.toNat + 1 := by
    rcases actions with same | same
    · rw [same, countP_midway]
    · rw [same, List.countP_append, countP_midway]
      rfl
  have more : bufferLength.toNat ≤ pick bufferLength.toNat := grows.le_apply
  refine ⟨stored, w, pick, ran, grows, first, bytes, actions, ?_, ?_⟩
  · intro same
    rw [same, countP_asked] at count
    omega
  · intro slow
    rcases logged with same | ⟨fast, -⟩
    · refine ⟨even slow, ?_⟩
      rw [same, even slow]
    · exact absurd slow fast

/-- The unit behind `twi_initBus`. -/
def Controller.initialised : Controller := ⟨twen, false, 0xFF, 0xF8, .off, none, []⟩

theorem blockingMasterOpperation_read_length_two :
    ∃ stored w pick,
      (blockingMasterOpperation 0xA1 2 (fun _ => 0) sendStopCond).run
        (Bus.answer ⟨fun j => if j = 0 then 10 else 20, fun _ => false⟩) ⟨Controller.initialised, 0⟩ =
          some ((.noError, stored), w) ∧
      StrictMono pick ∧ pick 0 = 0 ∧
      (∀ i < 2, stored i = if pick i = 0 then 10 else 20) ∧
      (w.unit.log = midway 0xA1 (fun j => if j = 0 then 10 else 20) (pick 2 + 1) ∨
        w.unit.log = midway 0xA1 (fun j => if j = 0 then 10 else 20) (pick 2 + 1) ++ [.stop]) ∧
      w.unit.log ≠ asked 0xA1 (fun j => if j = 0 then 10 else 20) 2 ∧
      (Bus.Slow ⟨fun j => if j = 0 then 10 else 20, fun _ => false⟩ →
        (∀ i, pick i = i) ∧ w.unit.log = midway 0xA1 (fun j => if j = 0 then 10 else 20) 3) :=
  blockingMasterOpperation_read_length ⟨fun j => if j = 0 then 10 else 20, fun _ => false⟩ Controller.initialised 0
    0xA1 2 (fun _ => 0) sendStopCond (by decide) (by decide) (by decide) (by decide) rfl rfl

/-- A read of one byte takes two of them from the slave, acknowledges both and sends no stop. A read of two bytes during
    which the code is held up behind the first one stores the first and the third. -/
theorem blockingMasterOpperation_overreads :
    ((blockingMasterOpperation 0xA1 1 (fun _ => 0) sendStopCond).run
        (Bus.answer ⟨fun j => [10, 20, 30].getD j 0, fun _ => false⟩) ⟨Controller.initialised, 0⟩).map
        (fun ran => (ran.1.1, ran.1.2 0, ran.2.unit.log)) =
      some (.noError, 10, [.start, .address 0xA1, .received 10 true, .received 20 true]) ∧
    asked 0xA1 (fun j => [10, 20, 30].getD j 0) 1 = [.start, .address 0xA1, .received 10 false, .stop] ∧
    ((blockingMasterOpperation 0xA1 2 (fun _ => 0) sendStopCond).run
        (Bus.answer ⟨fun j => [10, 20, 30].getD j 0, fun time => decide (time = 16)⟩) ⟨Controller.initialised, 0⟩).map
        (fun ran => (ran.1.1, ran.1.2 0, ran.1.2 1)) =
      some (.noError, 10, 30) := by
  decide

end Minimus32.Twi
