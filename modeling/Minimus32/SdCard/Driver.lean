import Mathlib.Data.UInt
import Minimus32.Library.Contract

namespace Minimus32.SdCard

open Interaction

/-- The calls of the functions that the program has registered. -/
inductive Access where
  | select
  | deselect
  | power (on : Bool)
  | xchg (val : UInt8)
deriving DecidableEq

def Access.Reply : Access → Type
  | .xchg _ => UInt8
  | .select | .deselect | .power _ => Unit

abbrev Code := Program Access Access.Reply

def select : Code Unit := Program.call Access.Reply .select

def deselect : Code Unit := Program.call Access.Reply .deselect

def power (on : Bool) : Code Unit := Program.call Access.Reply (.power on)

def xchg (val : UInt8) : Code UInt8 := Program.call Access.Reply (.xchg val)

inductive Status where
  | ok
  | noDetect
  | timeout
  | rwFail
  | notInited
deriving DecidableEq

def sdSendCommand (command : UInt8) (px py : Nat) : Code UInt8 := do
  select
  let _ ← xchg 0xff
  let _ ← xchg (command ||| 0x40)
  let _ ← xchg (.ofNat (px >>> 8))
  let _ ← xchg (.ofNat (px &&& 0xff))
  let _ ← xchg (.ofNat (py >>> 8))
  let _ ← xchg (.ofNat (py &&& 0xff))
  let _ ← xchg 0x95
  let _ ← xchg 0xff
  xchg 0xff

/-- The loop of sd_response with its count; false is the timeout. -/
def sdResponseLoop (response : UInt8) : Nat → Code Bool
  | 0 => pure false
  | count + 1 => do
    let byte ← xchg 0xff
    if byte = response then pure true else sdResponseLoop response count

def sdResponse (response : UInt8) : Code Bool := sdResponseLoop response 0xffff

def sdClockAndRelease : Code Unit := do
  deselect
  let _ ← xchg 0xff

/-- The loop of sd_datatoken with the number of reads it still may do. -/
def sdDatatokenLoop : Nat → UInt8 → Code UInt8
  | 0, b => pure b
  | i + 1, b =>
    if b = 0xfe then pure b
    else do
      let b ← xchg 0xff
      sdDatatokenLoop i b

def sdDatatoken : Code UInt8 := sdDatatokenLoop 0x1ff 0xff

def readBytes : Nat → Code (List UInt8)
  | 0 => pure []
  | n + 1 => do
    let byte ← xchg 0xff
    let more ← readBytes n
    pure (byte :: more)

def writeBytes : List UInt8 → Code Unit
  | [] => pure ()
  | byte :: more => do
    let _ ← xchg byte
    writeBytes more

/-- The data block behind a read command: the token, the bytes and two bytes of a checksum nobody looks at. -/
def readBlock (n : Nat) : Code (Status × List UInt8) := do
  let status ← sdDatatoken
  if status ≠ 0xfe then
    sdClockAndRelease
    pure (.rwFail, [])
  else
    let buffer ← readBytes n
    let _ ← xchg 0xff
    let _ ← xchg 0xff
    sdClockAndRelease
    pure (.ok, buffer)

def sdReadsector (inited : Bool) (lba : Nat) : Code (Status × List UInt8) :=
  if inited = false then pure (.notInited, [])
  else do
    let _ ← sdSendCommand 17 (lba >>> 7 &&& 0xffff) (lba <<< 9 &&& 0xffff)
    readBlock 512

def sdReadcsd (inited : Bool) : Code (Status × List UInt8) :=
  if inited = false then pure (.notInited, [])
  else do
    let _ ← sdSendCommand 9 0 0
    readBlock 16

def busyLoop : Nat → Code Unit
  | 0 => pure ()
  | i + 1 => do
    let byte ← xchg 0xff
    if byte = 0 then busyLoop i else pure ()

/-- The part of sd_writesector behind the response of the card. -/
def writeBlock (buffer : List UInt8) : Code Status := do
  let _ ← xchg 0xfe
  writeBytes buffer
  let _ ← xchg 0xff
  let _ ← xchg 0xff
  let response ← xchg 0xff
  if response &&& 0x0f ≠ 0x05 then pure .rwFail
  else
    busyLoop 0xffff
    sdClockAndRelease
    pure .ok

def sdWritesector (inited : Bool) (lba : Nat) (buffer : List UInt8) : Code Status :=
  if inited = false then pure .notInited
  else do
    let _ ← sdSendCommand 24 (lba >>> 7 &&& 0xffff) (lba <<< 9 &&& 0xffff)
    let answered ← sdResponse 0
    if answered = false then
      sdClockAndRelease
      pure .rwFail
    else writeBlock buffer

def readyLoop : Nat → Code UInt8
  | 0 => xchg 0xff
  | j + 1 => do
    let i ← xchg 0xff
    if i = 0xff then pure i else readyLoop j

def sdWaitforready (inited : Bool) : Code Status :=
  if inited = false then pure .notInited
  else do
    select
    let _ ← xchg 0xff
    let i ← readyLoop 4999
    sdClockAndRelease
    pure (if i = 0xff then .ok else .rwFail)

/-- CMD0 until the card says that it is idle; `response` is that of the last try. -/
def detectLoop : Nat → UInt8 → Code UInt8
  | 0, response => pure response
  | i + 1, _ => do
    let response ← sdSendCommand 0 0 0
    deselect
    let _ ← xchg 0xff
    let _ ← xchg 0xff
    if response = 1 then pure response else detectLoop i response

/-- CMD55 and CMD41 until the card says something else than that it is idle. -/
def startLoop : Nat → UInt8 → Code UInt8
  | 0, response => pure response
  | i + 1, _ => do
    let _ ← sdSendCommand 55 0 0
    deselect
    let _ ← xchg 0xff
    let response ← sdSendCommand 41 0 0
    deselect
    let _ ← xchg 0xff
    if response ≠ 1 then pure response else startLoop i response

def switchPower (hasPower on : Bool) : Code Unit := if hasPower then power on else pure ()

/-- `response` is what the variable holds at first. -/
def initialise (response : UInt8) : Code Status := do
  deselect
  let _ ← readBytes 10
  let response ← detectLoop 0xfe response
  if response ≠ 1 then pure .noDetect
  else
    let response ← startLoop 0xfffe response
    pure (if response = 1 then .timeout else .ok)

def sdPower (hasPower on : Bool) (response : UInt8) : Code Status := do
  switchPower hasPower on
  if on then initialise response else pure .ok

/-- The functions of SD_CALLBACKS that are not null. -/
structure Callbacks where
  select : Bool
  xchg : Bool
  deselect : Bool
  power : Bool
deriving DecidableEq

/-- The new value of `inited` and the result. -/
def sdRegister (callbacks : Callbacks) (response : UInt8) : Code (Bool × Status) :=
  if callbacks.select && callbacks.xchg && callbacks.deselect then do
    let result ← sdPower callbacks.power true response
    pure (true, result)
  else pure (false, .notInited)

end Minimus32.SdCard
