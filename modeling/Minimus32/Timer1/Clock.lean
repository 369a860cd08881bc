import Mathlib.Data.UInt
import Minimus32.Library.Linked

namespace Minimus32.Timer1

open Linked

structure WallTime where
  msec : UInt16
  sec : UInt8
  min : UInt8
  hour : UInt8
  day : UInt16
  freerunningSec : UInt16
deriving DecidableEq, Repr

/-- The members of a `timer1_callback` struct other than its link. `Fn` and `Data` are the types of
    the function and user data pointers. -/
structure Entry (Fn Data : Type) where
  time : WallTime
  recurring : UInt8
  recurringMsec : UInt16
  userData : Data
  callback : Fn
deriving DecidableEq

structure Callback (Ptr Fn Data : Type) extends Entry Fn Data where
  next : Option Ptr

/-- The globals of the clock module with the memory of all callback structs. -/
structure Clock (Ptr Fn Data : Type) where
  walltimer : WallTime
  chain : Option Ptr
  structs : Ptr → Callback Ptr Fn Data

def WallTime.zero : WallTime := ⟨0, 0, 0, 0, 0, 0⟩

/-- The wall clock part of the compare interrupt. -/
def WallTime.advance (t : WallTime) : WallTime :=
  let t := { t with msec := t.msec + 1 }
  if t.msec ≥ 1000 then
    let t := { t with msec := 0, freerunningSec := t.freerunningSec + 1, sec := t.sec + 1 }
    if t.sec ≥ 60 then
      let t := { t with sec := 0, min := t.min + 1 }
      if t.min ≥ 60 then
        let t := { t with min := 0, hour := t.hour + 1 }
        if t.hour ≥ 24 then { t with hour := 0, day := t.day + 1 } else t
      else t
    else t
  else t

/-- The condition of `timer1_clock_check`. -/
def WallTime.Expired (now time : WallTime) : Prop :=
  now.day > time.day ∨
  (now.day = time.day ∧ now.hour > time.hour) ∨
  (now.day = time.day ∧ now.hour = time.hour ∧ now.min > time.min) ∨
  (now.day = time.day ∧ now.hour = time.hour ∧ now.min = time.min ∧ now.sec > time.sec) ∨
  (now.day = time.day ∧ now.hour = time.hour ∧ now.min = time.min ∧ now.sec = time.sec ∧
    now.msec ≥ time.msec)

instance (now time : WallTime) : Decidable (now.Expired time) :=
  inferInstanceAs (Decidable (_ ∨ _))

/-- The repeated `if (tmp>=limit) { carry++; tmp -= limit; }`: the carry and what is left. -/
def carryOf (limit tmp : UInt16) : UInt16 := if tmp ≥ limit then 1 else 0

def reduced (limit tmp : UInt16) : UInt16 := if tmp ≥ limit then tmp - limit else tmp

/-- The `time` member that `timer1_clock_register_callback` stores. The members `min`, `hour` and `day`
    were zeroed, so each holds just the carry when it is added; `freerunningSec` keeps the request. -/
def WallTime.deadline (now : WallTime) (sec msec : UInt16) : WallTime :=
  let tmp0 := now.msec + msec
  let sec0 := sec + carryOf 1000 tmp0
  let tmp1 := now.sec.toUInt16 + sec0 % 60
  let sec1 := sec0 / 60
  let tmp2 := now.min.toUInt16 + sec1 % 60 + carryOf 60 tmp1
  let sec2 := sec1 / 60
  let tmp3 := now.hour.toUInt16 + sec2 + carryOf 60 tmp2
  { msec := reduced 1000 tmp0
    sec := (reduced 60 tmp1).toUInt8
    min := (reduced 60 tmp2).toUInt8
    hour := (reduced 24 tmp3).toUInt8
    day := carryOf 24 tmp3 + now.day
    freerunningSec := sec }

section Operations

variable {Ptr Fn Data : Type}

def Clock.links (c : Clock Ptr Fn Data) : Links Ptr := ⟨c.chain, fun p => (c.structs p).next⟩

def Clock.init (c : Clock Ptr Fn Data) : Clock Ptr Fn Data :=
  { c with chain := none, walltimer := .zero }

def Clock.reset (c : Clock Ptr Fn Data) : Clock Ptr Fn Data := { c with walltimer := .zero }

def Clock.getTime (c : Clock Ptr Fn Data) : WallTime := c.walltimer

variable [DecidableEq Ptr]

def Clock.setStruct (c : Clock Ptr Fn Data) (p : Ptr) (s : Callback Ptr Fn Data) : Clock Ptr Fn Data :=
  { c with structs := Function.update c.structs p s }

def Clock.setNext (c : Clock Ptr Fn Data) (p : Ptr) (value : Option Ptr) : Clock Ptr Fn Data :=
  c.setStruct p { c.structs p with next := value }

def Clock.setEntry (c : Clock Ptr Fn Data) (p : Ptr) (e : Entry Fn Data) : Clock Ptr Fn Data :=
  c.setStruct p { c.structs p with toEntry := e }

/-- Assignment through a `timer1_callback **`. -/
def Clock.store (c : Clock Ptr Fn Data) (slot : Slot Ptr) (value : Option Ptr) : Clock Ptr Fn Data :=
  match slot with
  | .head => { c with chain := value }
  | .after p => c.setNext p value

/-- The `while (!done)` loop; `none` when it has not ended within `fuel` rounds. -/
def Clock.insertLoop (p : Ptr) : Nat → Slot Ptr → Clock Ptr Fn Data → Option (Clock Ptr Fn Data)
  | 0, _, _ => none
  | fuel + 1, next, c =>
    if c.links.load next = some p then some c
    else match c.links.load next with
      | none => some ((c.store next (some p)).setNext p none)
      | some q => Clock.insertLoop p fuel (.after q) c

def Clock.insertIntoChain (fuel : Nat) (p : Ptr) (c : Clock Ptr Fn Data) : Option (Clock Ptr Fn Data) :=
  c.insertLoop p fuel .head

def Clock.unregisterLoop (p : Ptr) : Nat → Ptr → Option Ptr → Clock Ptr Fn Data → Option (Clock Ptr Fn Data)
  | 0, _, _, _ => none
  | _ + 1, _, none, c => some c
  | fuel + 1, previous, some next, c =>
    if next ≠ p then Clock.unregisterLoop p fuel next (c.structs next).next c
    else some (c.setNext previous (c.structs next).next)

def Clock.unregisterCallback (fuel : Nat) (p : Ptr) (c : Clock Ptr Fn Data) : Option (Clock Ptr Fn Data) :=
  match c.chain with
  | none => some c
  | some head =>
    if head = p then
      if (c.structs head).next = none then some { c with chain := none }
      else some { c with chain := (c.structs head).next }
    else c.unregisterLoop p fuel head (c.structs head).next

/-- What `timer1_clock_register_callback` writes once the struct is in the chain. -/
def Entry.arm (now : WallTime) (sec msec : UInt16) (recurring : UInt8) (callback : Fn) (userData : Data) :
    Entry Fn Data where
  time := now.deadline sec msec
  recurring := recurring
  recurringMsec := msec
  userData := userData
  callback := callback

def Clock.registerCallback (fuel : Nat) (sec msec : UInt16) (recurring : UInt8) (callback : Fn)
    (userData : Data) (p : Ptr) (c : Clock Ptr Fn Data) : Option (Clock Ptr Fn Data) :=
  (c.insertIntoChain fuel p).map fun c =>
    c.setEntry p (.arm c.walltimer sec msec recurring callback userData)

def Clock.check (fuel : Nat) (p : Ptr) (c : Clock Ptr Fn Data) : Option (Clock Ptr Fn Data × Bool) :=
  let s := c.structs p
  if c.walltimer.Expired s.time then
    if s.recurring ≠ 0 then
      (c.registerCallback fuel s.time.freerunningSec s.recurringMsec s.recurring s.callback s.userData p).map
        (·, true)
    else (c.unregisterCallback fuel p).map (·, true)
  else some (c, false)

def Clock.isrWalk (checkFuel : Nat) : Nat → Option Ptr → Clock Ptr Fn Data → Option (Clock Ptr Fn Data × Option Ptr)
  | 0, _, _ => none
  | _ + 1, none, c => some (c, none)
  | fuel + 1, some p, c =>
    (c.check checkFuel p).bind fun checked =>
      if checked.2 then some (checked.1, some p)
      else Clock.isrWalk checkFuel fuel (checked.1.structs p).next checked.1

/-- The atomic block of `ISR(TIMER1_COMPA_vect)`: the wall clock, then the first expired struct. -/
def Clock.isrAtomic (fuel : Nat) (c : Clock Ptr Fn Data) : Option (Clock Ptr Fn Data × Option Ptr) :=
  Clock.isrWalk fuel fuel c.chain { c with walltimer := c.walltimer.advance }

end Operations

end Minimus32.Timer1
