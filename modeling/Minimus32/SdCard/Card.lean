import Mathlib.Data.UInt
import Minimus32.SdCard.Driver
import Minimus32.SdCard.Medium

namespace Minimus32.SdCard

open Interaction Program

/-- How many bytes a card lets pass before it answers its `n`th command, before the data of it, and while it is busy
with what has been written. -/
structure Timing where
  response : Nat → Nat
  token : Nat → Nat
  busy : Nat → Nat

/-- What a selected card does with the bytes it is sent. -/
inductive Receiver where
  | command (received : List UInt8)
  | token (sector : Nat)
  | block (sector : Nat) (received : List UInt8)
deriving DecidableEq

/-- A card on the bus. `accepts` is whether it takes the block that comes with its `n`th command. `idle` is how many
times it is to be asked with CMD41 until it is ready, none before CMD0; `app` that the last command was CMD55; `out`
what it is going to send; `busy` for how many bytes more it programs a block. -/
structure Card where
  medium : Medium
  sectors : Nat
  csd : List UInt8
  timing : Timing
  accepts : Nat → Bool
  checksum : List UInt8 → List UInt8
  slow : Nat
  idle : Option Nat
  app : Bool
  served : Nat
  selected : Bool
  receiver : Receiver
  out : List UInt8
  busy : Nat

namespace Card

/-- The answer to a command behind as many bytes as the card lets pass. -/
def answer (card : Card) (response : UInt8) (later : List UInt8) : Card :=
  { card with
    app := false
    served := card.served + 1
    receiver := .command []
    out := List.replicate (card.timing.response card.served) 0xff ++ response :: later }

/-- The answer to a write command; the card then waits for the block. -/
def awaitBlock (card : Card) (sector : Nat) : Card := { card.answer 0 [] with receiver := .token sector }

def dataBlock (card : Card) (bytes : List UInt8) : List UInt8 :=
  List.replicate (card.timing.token card.served) 0xff ++ 0xfe :: bytes ++ card.checksum bytes

def argument (frame : List UInt8) : Nat :=
  (frame.getD 1 0).toNat * 16777216 + (frame.getD 2 0).toNat * 65536 + (frame.getD 3 0).toNat * 256 +
    (frame.getD 4 0).toNat

def isReady (card : Card) : Bool := card.idle = some 0

/-- A card of the first version takes byte addresses. -/
def execute (card : Card) (frame : List UInt8) : Card :=
  let sector := argument frame / 512
  let state : UInt8 := if card.isReady then 0 else 1
  match (frame.getD 0 0 &&& 0x3f).toNat with
  | 0 => { card with idle := some (card.slow + 1) }.answer 1 []
  | 55 => { card.answer state [] with app := true }
  | 41 =>
    match card.app, card.idle with
    | true, some (n + 1) => { card with idle := some n }.answer (if n = 0 then 0 else 1) []
    | true, some 0 => card.answer 0 []
    | _, _ => card.answer (4 + state) []
  | 9 => if card.isReady then card.answer 0 (card.dataBlock card.csd) else card.answer 5 []
  | 17 =>
    if card.isReady = false then card.answer 5 []
    else if sector < card.sectors then card.answer 0 (card.dataBlock (card.medium.bytes sector))
    else card.answer 0x40 []
  | 24 =>
    if card.isReady = false then card.answer 5 []
    else if sector < card.sectors then card.awaitBlock sector
    else card.answer 0x40 []
  | _ => card.answer (4 + state) []

/-- The block of the last command is there, and is programmed or refused. -/
def store (card : Card) (sector : Nat) (bytes : List UInt8) : Card :=
  if card.accepts (card.served - 1) then
    { card with
      medium := card.medium.put sector bytes
      receiver := .command []
      out := [0xe5]
      busy := card.timing.busy (card.served - 1) }
  else { card with receiver := .command [], out := [0x0d] }

/-- A byte that has come in. A command starts with the bits 01. -/
def receive (card : Card) (byte : UInt8) : Card :=
  match card.receiver with
  | .command received =>
    if received = [] ∧ byte &&& 0xc0 ≠ 0x40 then card
    else if received.length = 5 then card.execute (received ++ [byte])
    else { card with receiver := .command (received ++ [byte]) }
  | .token sector => if byte = 0xfe then { card with receiver := .block sector [] } else card
  | .block sector received =>
    if received.length = 513 then card.store sector (received.take 512)
    else { card with receiver := .block sector (received ++ [byte]) }

/-- The time of a byte goes by. -/
def pass (card : Card) : Card := { card with busy := card.busy - 1 }

/-- A byte out and a byte in. A card that is not selected sends nothing and hears nothing; a busy one holds the line
low and hears nothing either. -/
def exchange (card : Card) (byte : UInt8) : UInt8 × Card :=
  if card.selected = false then (0xff, card.pass)
  else if card.busy = 0 then (card.out.headD 0xff, { card with out := card.out.tail }.receive byte)
  else (card.out.headD 0, { card.pass with out := card.out.tail })

def reset (card : Card) (selected : Bool) : Card :=
  { card with selected := selected, receiver := .command [], out := [] }

/-- What has been begun is lost when the card is selected or released, but a block is programmed to its end. -/
def setSelected (card : Card) (selected : Bool) : Card :=
  if card.selected && selected then card else card.reset selected

def respond (card : Card) : (access : Access) → Option (access.Reply × Card)
  | .select => some ((), card.setSelected true)
  | .deselect => some ((), card.setSelected false)
  | .power _ => some ((), card)
  | .xchg val => some (card.exchange val)

/-- The card listens to nothing but the start of a command or of a block. -/
def Listening (card : Card) : Prop := card.receiver = .command [] ∨ ∃ sector, card.receiver = .token sector

/-- The card after some of its bytes have been taken. -/
def sent (card : Card) (n : Nat) : Card := { card with out := card.out.drop n }

def frame (command : UInt8) (px py : Nat) : List UInt8 :=
  [command ||| 0x40, .ofNat (px >>> 8), .ofNat (px &&& 0xff), .ofNat (py >>> 8), .ofNat (py &&& 0xff), 0x95]

/-- The card can be given a command. -/
structure Free (card : Card) : Prop where
  rested : card.busy = 0
  waits : card.selected = true → card.receiver = .command [] ∧ card.out = []

theorem setSelected_false (card : Card) : card.setSelected false = card.reset false := by
  rw [setSelected, Bool.and_false, if_neg Bool.false_ne_true]

theorem Free.setSelected {card : Card} (free : card.Free) : card.setSelected true = card.reset true := by
  rw [Card.setSelected, Bool.and_true]
  split
  · rename_i on
    obtain ⟨receiver, out⟩ := free.waits on
    rw [reset, ← on, ← receiver, ← out]
  · rfl

theorem exchange_rested {card : Card} (selected : card.selected = true) (rested : card.busy = 0) (byte : UInt8) :
    card.exchange byte = (card.out.headD 0xff, { card with out := card.out.tail }.receive byte) := by
  rw [exchange, if_neg (by rw [selected]; decide), if_pos rested]

theorem pass_rested {card : Card} (rested : card.busy = 0) : card.pass = card := by
  cases card
  cases rested
  rfl

theorem exchange_released (card : Card) (released : card.selected = false) (rested : card.busy = 0) (byte : UInt8) :
    card.exchange byte = (0xff, card) := by
  rw [exchange, if_pos released, pass_rested rested]

/-- A selected card from which bytes are read. -/
structure Attends (card : Card) : Prop where
  selected : card.selected = true
  listening : card.Listening
  rested : card.busy = 0

theorem execute_frame (card : Card) (frame : List UInt8) :
    (card.execute frame).selected = card.selected ∧ (card.execute frame).busy = card.busy := by
  rw [execute]
  simp only
  repeat' split
  all_goals exact ⟨rfl, rfl⟩

theorem execute_listening (card : Card) (frame : List UInt8) : (card.execute frame).Listening := by
  rw [execute]
  simp only
  repeat' split
  all_goals first | exact .inl rfl | exact .inr ⟨_, rfl⟩

theorem Free.attends {card : Card} (free : card.Free) (frame : List UInt8) :
    ((card.reset true).execute frame).Attends :=
  ⟨(execute_frame _ frame).1, execute_listening _ frame, (execute_frame _ frame).2.trans free.rested⟩

/-- A listening card only sends. -/
theorem exchange_sent {card : Card} (attends : card.Attends) (n : Nat) :
    (card.sent n).exchange 0xff = ((card.out.drop n).headD 0xff, card.sent (n + 1)) := by
  have clock : (0xff : UInt8) &&& 0xc0 ≠ 0x40 := by decide
  rw [exchange_rested (show (card.sent n).selected = true from attends.selected) attends.rested]
  rcases attends.listening with receiver | ⟨sector, receiver⟩
  · simp [receive, receiver, sent, clock]
  · simp [receive, receiver, sent]

/-- The selected card in the middle of a command. -/
def collecting (card : Card) (received : List UInt8) : Card :=
  { card.reset true with receiver := .command received }

theorem exchange_collecting {card : Card} (rested : card.busy = 0) {received : List UInt8} {byte : UInt8}
    (start : received ≠ [] ∨ byte &&& 0xc0 = 0x40) (more : received.length < 5) :
    (card.collecting received).exchange byte = (0xff, card.collecting (received ++ [byte])) := by
  have inside : ¬ (received = [] ∧ byte &&& 0xc0 ≠ 0x40) := by
    rintro ⟨empty, other⟩
    exact start.elim (fun some => some empty) other
  have count : received.length ≠ 5 := by omega
  rw [exchange_rested (show (card.collecting received).selected = true from rfl) rested]
  simp [collecting, reset, receive, inside, count]

theorem exchange_collected {card : Card} (rested : card.busy = 0) {received : List UInt8} {byte : UInt8}
    (last : received.length = 5) :
    (card.collecting received).exchange byte = (0xff, (card.collecting received).execute (received ++ [byte])) := by
  have inside : ¬ (received = [] ∧ byte &&& 0xc0 ≠ 0x40) := by
    rintro ⟨empty, -⟩
    simp [empty] at last
  rw [exchange_rested (show (card.collecting received).selected = true from rfl) rested]
  simp [collecting, reset, receive, inside, last]

theorem execute_collecting (card : Card) (received frame : List UInt8) :
    (card.collecting received).execute frame = (card.reset true).execute frame := by
  rw [execute, execute]
  rfl

end Card

section Rules

variable {α : Type} {card after : Card} {post : α → Card → Prop}

theorem ends_xchg {val byte : UInt8} {rest : UInt8 → Code α} (exchanged : card.exchange val = (byte, after))
    (later : Ends Card.respond (rest byte) after post) : Ends Card.respond (xchg val >>= rest) card post := by
  apply ends_call (show card.respond (.xchg val) = some (byte, after) by rw [← exchanged]; rfl) later

theorem ends_select {rest : Unit → Code α} (free : card.Free)
    (later : Ends Card.respond (rest ()) (card.reset true) post) : Ends Card.respond (select >>= rest) card post :=
  ends_call (show some ((), card.setSelected true) = _ by rw [free.setSelected]; rfl) later

theorem ends_deselect {rest : Unit → Code α} (later : Ends Card.respond (rest ()) (card.reset false) post) :
    Ends Card.respond (deselect >>= rest) card post :=
  ends_call (show some ((), card.setSelected false) = _ by rw [card.setSelected_false]; rfl) later

theorem ends_lastXchg {val byte : UInt8} {post : UInt8 → Card → Prop} (exchanged : card.exchange val = (byte, after))
    (holds : post byte after) : Ends Card.respond (xchg val) card post := by
  refine ⟨byte, after, ?_, holds⟩
  rw [← exchanged]
  rfl

/-- A command is answered, and the first two bytes behind it are taken with it. -/
theorem ends_sendCommand (free : card.Free) {command : UInt8} (px py : Nat)
    (start : (command ||| 0x40) &&& 0xc0 = 0x40) :
    Ends Card.respond (sdSendCommand command px py) card fun response after =>
      response = (((card.reset true).execute (Card.frame command px py)).out.drop 1).headD 0xff ∧
      after = ((card.reset true).execute (Card.frame command px py)).sent 2 := by
  have attends := free.attends (Card.frame command px py)
  have rested := free.rested
  apply ends_select free
  apply ends_xchg (Card.exchange_sent (show (card.reset true).Attends from ⟨rfl, .inl rfl, rested⟩) 0)
  show Ends Card.respond _ (card.collecting []) _
  apply ends_xchg (Card.exchange_collecting rested (.inr start) (by decide))
  apply ends_xchg (Card.exchange_collecting rested (.inl (by simp)) (by simp))
  apply ends_xchg (Card.exchange_collecting rested (.inl (by simp)) (by simp))
  apply ends_xchg (Card.exchange_collecting rested (.inl (by simp)) (by simp))
  apply ends_xchg (Card.exchange_collecting rested (.inl (by simp)) (by simp))
  apply ends_xchg (Card.exchange_collected rested (by simp))
  rw [Card.execute_collecting]
  apply ends_xchg (Card.exchange_sent attends 0)
  apply ends_lastXchg (Card.exchange_sent attends 1)
  exact ⟨rfl, rfl⟩

/-- A card that sends these bytes, of which some are taken. -/
structure Card.Sends (card : Card) (bytes : List UInt8) : Prop extends card.Attends where
  out : card.out = bytes

theorem ends_readBytes (before : List UInt8) {bytes later : List UInt8}
    (sends : card.Sends (before ++ bytes ++ later)) :
    Ends Card.respond (readBytes bytes.length) (card.sent before.length) fun read after =>
      read = bytes ∧ after = card.sent (before.length + bytes.length) := by
  induction bytes generalizing before with
  | nil => exact ends_pure ⟨rfl, rfl⟩
  | cons byte bytes ih =>
    apply ends_xchg (Card.exchange_sent sends.toAttends before.length)
    have next : (card.out.drop before.length).headD 0xff = byte := by simp [sends.out]
    have rest := ih (before ++ [byte]) (by simpa using sends)
    rw [List.length_append, List.length_singleton] at rest
    apply rest.bind
    rintro read after ⟨rfl, rfl⟩
    exact ends_pure ⟨by rw [next], by rw [List.length_cons, Nat.add_assoc, Nat.add_comm 1]⟩

theorem ends_datatokenLoop_found (before : List UInt8) {noise later : List UInt8} {i : Nat} {b : UInt8}
    (sends : card.Sends (before ++ noise ++ 0xfe :: later)) (other : b ≠ 0xfe) (quiet : ∀ byte ∈ noise, byte ≠ 0xfe)
    (soon : noise.length < i) :
    Ends Card.respond (sdDatatokenLoop i b) (card.sent before.length) fun status after =>
      status = 0xfe ∧ after = card.sent (before.length + noise.length + 1) := by
  induction noise generalizing before i b with
  | nil =>
    obtain ⟨i, rfl⟩ : ∃ k, i = k + 1 := ⟨i - 1, by simp at soon; omega⟩
    have next : (card.out.drop before.length).headD 0xff = 0xfe := by simp [sends.out]
    rw [sdDatatokenLoop, if_neg other]
    apply ends_xchg (Card.exchange_sent sends.toAttends before.length)
    rw [next]
    cases i with
    | zero => exact ends_pure ⟨rfl, rfl⟩
    | succ i => exact ends_pure ⟨rfl, rfl⟩
  | cons byte noise ih =>
    obtain ⟨i, rfl⟩ : ∃ k, i = k + 1 := ⟨i - 1, by omega⟩
    have next : (card.out.drop before.length).headD 0xff = byte := by simp [sends.out]
    rw [sdDatatokenLoop, if_neg other]
    apply ends_xchg (Card.exchange_sent sends.toAttends before.length)
    rw [next]
    have rest := ih (before ++ [byte]) (by simpa using sends) (quiet byte (by simp))
      (fun other member => quiet other (by simp [member])) (i := i) (by simp only [List.length_cons] at soon; omega)
    rw [List.length_append, List.length_singleton] at rest
    apply rest.mono
    rintro status after ⟨rfl, rfl⟩
    exact ⟨rfl, by rw [List.length_cons, Nat.add_assoc before.length, Nat.add_comm 1]⟩

/-- No token comes within the reads that are left. -/
theorem ends_datatokenLoop_missed {i n : Nat} {b : UInt8} (attends : card.Attends) (other : b ≠ 0xfe)
    (quiet : ∀ k < i, (card.out.drop (n + k)).headD 0xff ≠ 0xfe) :
    Ends Card.respond (sdDatatokenLoop i b) (card.sent n) fun status after =>
      status ≠ 0xfe ∧ after = card.sent (n + i) := by
  induction i generalizing n b with
  | zero => exact ends_pure ⟨other, rfl⟩
  | succ i ih =>
    rw [sdDatatokenLoop, if_neg other]
    apply ends_xchg (Card.exchange_sent attends n)
    apply (ih (quiet 0 (by omega)) (n := n + 1) ?_).mono
    · rintro status after ⟨missed, rfl⟩
      exact ⟨missed, by rw [Nat.add_assoc, Nat.add_comm 1]⟩
    · intro k small
      rw [Nat.add_assoc, Nat.add_comm 1]
      exact quiet (k + 1) (by omega)

end Rules

end Minimus32.SdCard
