import Mathlib.Data.UInt
import Mathlib.Logic.Function.Basic
import Minimus32.Library.Interaction

namespace Minimus32.Twi

open Interaction

/-- What the code does to the TWI unit; `wait` is `TWI_WAIT`. -/
inductive Access where
  | writeTwcr (value : UInt8)
  | readTwcr
  | writeTwdr (value : UInt8)
  | readTwdr
  | readTwsr
  | wait
deriving DecidableEq

def Access.Reply : Access → Type
  | .readTwcr | .readTwdr | .readTwsr => UInt8
  | .writeTwcr _ | .writeTwdr _ | .wait => Unit

abbrev Code := Program Access Access.Reply

def writeTwcr (value : UInt8) : Code Unit := Program.call Access.Reply (.writeTwcr value)

def readTwcr : Code UInt8 := Program.call Access.Reply .readTwcr

def writeTwdr (value : UInt8) : Code Unit := Program.call Access.Reply (.writeTwdr value)

def readTwdr : Code UInt8 := Program.call Access.Reply .readTwdr

def readTwsr : Code UInt8 := Program.call Access.Reply .readTwsr

def wait : Code Unit := Program.call Access.Reply .wait

-- The bits of `TWCR`.
def twint : UInt8 := (1 : UInt8) <<< 7

def twea : UInt8 := (1 : UInt8) <<< 6

def twsta : UInt8 := (1 : UInt8) <<< 5

def twsto : UInt8 := (1 : UInt8) <<< 4

def twen : UInt8 := (1 : UInt8) <<< 2

def dontSendStartCond : UInt8 := 1

def sendStopCond : UInt8 := 2

def addressRead : UInt8 := 1

def statusMask : UInt8 := 0b11111100

inductive TwiError where
  | noError
  | startCondNotSend
  | missingAddressAck
  | missingDataAck
  | arbitrationLost
deriving DecidableEq

/-- A comparison of `TWI_STATUS` with one code after the other. -/
def statusIn : List UInt8 → Code Bool
  | [] => pure false
  | code :: codes => do
    let twsr ← readTwsr
    if twsr &&& statusMask = code then pure true else statusIn codes

/-- The tests behind a byte: for a missing acknowledge, with a stop condition, and for a lost arbitration. -/
def check (missing : List UInt8) (error : TwiError) : Code (Option TwiError) := do
  if ← statusIn missing then
    writeTwcr (twint ||| twea ||| twsto ||| twen)
    pure (some error)
  else if ← statusIn [0x38] then
    writeTwcr (twint ||| twea ||| twen)
    pure (some .arbitrationLost)
  else pure none

def sendAddress (address : UInt8) : Code (Option TwiError) := do
  writeTwdr address
  writeTwcr (twint ||| twea ||| twen)
  wait
  check [0x20, 0x48] .missingAddressAck

def startCondition (address : UInt8) : Code (Option TwiError) := do
  writeTwcr (twint ||| twea ||| twsta ||| twen)
  wait
  if ← statusIn [0x08, 0x10] then sendAddress address else pure (some .startCondNotSend)

/-- A round of the read loop from its wait on. -/
def takeByte : Code (Except TwiError UInt8) := do
  wait
  match ← check [0x58] .missingDataAck with
  | some error => pure (.error error)
  | none =>
    let byte ← readTwdr
    writeTwcr (twint ||| twea ||| twen)
    pure (.ok byte)

def readByte : Code (Except TwiError UInt8) := do
  let twcr ← readTwcr
  writeTwcr (twcr ||| twint)
  takeByte

/-- The read loop with `n` bytes to go, the next one for index `i`. -/
def readLoop : Nat → Nat → (Nat → UInt8) → Code (Option TwiError × (Nat → UInt8))
  | 0, _, buffer => pure (none, buffer)
  | n + 1, i, buffer => do
    match ← readByte with
    | .error error => pure (some error, buffer)
    | .ok byte => readLoop n (i + 1) (Function.update buffer i byte)

def writeLoop (buffer : Nat → UInt8) : Nat → Nat → Code (Option TwiError)
  | 0, _ => pure none
  | n + 1, i => do
    writeTwdr (buffer i)
    writeTwcr (twint ||| twea ||| twen)
    wait
    match ← check [0x30] .missingDataAck with
    | some error => pure (some error)
    | none => writeLoop buffer n (i + 1)

def transfer (address bufferLength : UInt8) (buffer : Nat → UInt8) : Code (Option TwiError × (Nat → UInt8)) :=
  if address &&& addressRead ≠ 0 then readLoop bufferLength.toNat 0 buffer
  else do
    let early ← writeLoop buffer bufferLength.toNat 0
    pure (early, buffer)

def openBus (address flags : UInt8) : Code (Option TwiError) :=
  if flags &&& dontSendStartCond = 0 then startCondition address else pure none

def blockingMasterOpperation (address bufferLength : UInt8) (buffer : Nat → UInt8) (flags : UInt8) :
    Code (TwiError × (Nat → UInt8)) := do
  match ← openBus address flags with
  | some error => pure (error, buffer)
  | none =>
    match ← transfer address bufferLength buffer with
    | (some error, buffer) => pure (error, buffer)
    | (none, buffer) =>
      if flags &&& sendStopCond ≠ 0 then writeTwcr (twint ||| twea ||| twsto ||| twen)
      pure (.noError, buffer)

/-- The surroundings keep something, and with it the value of `TWSR`, while that is read. -/
def Steady {σ : Type} (answer : σ → (op : Access) → Option (op.Reply × σ)) (keeps : σ → Prop) (twsr : UInt8) : Prop :=
  ∀ s, keeps s → ∃ after, answer s .readTwsr = some (twsr, after) ∧ keeps after

theorem Steady.ends_statusIn {σ : Type} {answer : σ → (op : Access) → Option (op.Reply × σ)} {keeps : σ → Prop}
    {twsr : UInt8} {s : σ} (steady : Steady answer keeps twsr) (holds : keeps s) (codes : List UInt8) :
    Program.Ends answer (statusIn codes) s fun found after =>
      keeps after ∧ (found = true ↔ twsr &&& statusMask ∈ codes) := by
  induction codes generalizing s with
  | nil => exact Program.ends_pure ⟨holds, by simp⟩
  | cons code codes ih =>
    obtain ⟨between, read, kept⟩ := steady s holds
    refine Program.ends_call read ?_
    by_cases same : twsr &&& statusMask = code
    · rw [if_pos same]
      exact Program.ends_pure ⟨kept, by simp [same]⟩
    · rw [if_neg same]
      apply (ih kept).mono
      intro found after done
      rw [done.2, List.mem_cons, or_iff_right same]
      exact ⟨done.1, Iff.rfl⟩

end Minimus32.Twi
