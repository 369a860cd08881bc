import Minimus32.Library.TracedRun
import Minimus32.Timer1.Clock

namespace Minimus32.Timer1

variable {Ptr Fn Data : Type}

inductive Op (Ptr Fn Data : Type) where
  | register (sec msec : UInt16) (recurring : UInt8) (callback : Fn) (userData : Data) (p : Ptr)
  | unregister (p : Ptr)

/-- `tick body` is one execution of the compare interrupt; a function it invokes makes the calls
    `body` gives for it. -/
inductive Event (Ptr Fn Data : Type) where
  | op (o : Op Ptr Fn Data)
  | tick (body : Fn → Data → List (Op Ptr Fn Data))

def Event.quiet : Event Ptr Fn Data := .tick fun _ _ => []

/-- What can be seen of a run from outside: the calls made, the ticks, and which struct's function
    was invoked. -/
inductive Observation (Ptr : Type) where
  | registered (p : Ptr) (delay : Nat) (recurring : Bool)
  | unregistered (p : Ptr)
  | ticked
  | invoked (p : Ptr)
deriving DecidableEq

def Op.observation : Op Ptr Fn Data → Observation Ptr
  | .register sec msec recurring _ _ p =>
    .registered p (1000 * sec.toNat + msec.toNat) (recurring != 0)
  | .unregister p => .unregistered p

section Concrete

variable [DecidableEq Ptr]

def Clock.perform (fuel : Nat) (c : Clock Ptr Fn Data) : Op Ptr Fn Data → Option (Clock Ptr Fn Data)
  | .register sec msec recurring callback userData p =>
    c.registerCallback fuel sec msec recurring callback userData p
  | .unregister p => c.unregisterCallback fuel p

def Clock.opStep (fuel : Nat) (c : Clock Ptr Fn Data) (o : Op Ptr Fn Data) :
    Option (Clock Ptr Fn Data × List (Observation Ptr)) :=
  (c.perform fuel o).map (·, [o.observation])

/-- `ISR(TIMER1_COMPA_vect)`: the atomic block, then the call of the struct that was found. -/
def Clock.isr (fuel : Nat) (body : Fn → Data → List (Op Ptr Fn Data)) (c : Clock Ptr Fn Data) :
    Option (Clock Ptr Fn Data × List (Observation Ptr)) :=
  (c.isrAtomic fuel).bind fun (c, found) =>
    match found with
    | none => some (c, [.ticked])
    | some p =>
      (TracedRun.run (Clock.opStep fuel) c (body (c.structs p).callback (c.structs p).userData)).map
        fun called => (called.1, .ticked :: .invoked p :: called.2)

def Clock.step (fuel : Nat) (c : Clock Ptr Fn Data) : Event Ptr Fn Data →
    Option (Clock Ptr Fn Data × List (Observation Ptr))
  | .op o => c.opStep fuel o
  | .tick body => c.isr fuel body

def Clock.run (fuel : Nat) : Clock Ptr Fn Data → List (Event Ptr Fn Data) →
    Option (Clock Ptr Fn Data × List (Observation Ptr)) := TracedRun.run (Clock.step fuel)

end Concrete

end Minimus32.Timer1
