import Minimus32.SdCard.Writing

namespace Minimus32.SdCard

open Interaction Program

namespace Card

/-- The card after a command without an argument and after its release. -/
def commanded (card : Card) (command : UInt8) : Card :=
  ((card.reset true).execute (frame command 0 0)).reset false

/-- What the program takes for the response of the card. -/
def heard (card : Card) (command : UInt8) : UInt8 :=
  (((card.reset true).execute (frame command 0 0)).out.drop 1).headD 0xff

/-- The response is heard if it is the second byte behind the command. -/
def second (delay : Nat) (response : UInt8) : UInt8 := if delay = 1 then response else 0xff

theorem headD_answer (card : Card) (response : UInt8) :
    ((card.answer response []).out.drop 1).headD 0xff = second (card.timing.response card.served) response := by
  match delay : card.timing.response card.served with
  | 0 => simp [answer, second, delay]
  | 1 => simp [answer, second, delay]
  | n + 2 => simp [answer, second, delay, List.replicate_succ]

def asked (card : Card) (idle : Option Nat) (app : Bool) : Card :=
  { card.reset false with idle := idle, app := app, served := card.served + 1 }

theorem heard_0 (card : Card) : card.heard 0 = second (card.timing.response card.served) 1 :=
  headD_answer { card.reset true with idle := some (card.slow + 1) } 1

theorem commanded_0 (card : Card) : card.commanded 0 = card.asked (some (card.slow + 1)) false := rfl

theorem commanded_55 (card : Card) : card.commanded 55 = card.asked card.idle true := rfl

theorem execute_41 {card : Card} {n : Nat} (app : card.app = true) (idle : card.idle = some (n + 1)) :
    (card.reset true).execute (frame 41 0 0) =
      { card.reset true with idle := some n }.answer (if n = 0 then 0 else 1) [] := by
  have on : (card.reset true).app = true := app
  have count : (card.reset true).idle = some (n + 1) := idle
  simp only [execute, number_frame 0 0 (show ((41 ||| 0x40 : UInt8) &&& 0x3f).toNat = 41 by decide), on, count]

theorem heard_41 {card : Card} {n : Nat} (app : card.app = true) (idle : card.idle = some (n + 1)) :
    card.heard 41 = second (card.timing.response card.served) (if n = 0 then 0 else 1) := by
  rw [heard, execute_41 app idle]
  exact headD_answer { card.reset true with idle := some n } _

theorem commanded_41 {card : Card} {n : Nat} (app : card.app = true) (idle : card.idle = some (n + 1)) :
    card.commanded 41 = card.asked (some n) false := by
  rw [commanded, execute_41 app idle]
  rfl

/-- The card is free, and is the same disk as before. -/
structure SameDisk (card after : Card) : Prop extends after.Free where
  medium : after.medium = card.medium
  sectors : after.sectors = card.sectors
  timing : after.timing = card.timing
  accepts : after.accepts = card.accepts

theorem SameDisk.trans {card between after : Card} (first : card.SameDisk between) (second : between.SameDisk after) :
    card.SameDisk after :=
  ⟨second.toFree, second.medium.trans first.medium, second.sectors.trans first.sectors,
    second.timing.trans first.timing, second.accepts.trans first.accepts⟩

theorem Free.asked {card : Card} (free : card.Free) (idle : Option Nat) (app : Bool) :
    card.SameDisk (card.asked idle app) :=
  ⟨⟨free.rested, fun on => absurd on Bool.false_ne_true⟩, rfl, rfl, rfl, rfl⟩

end Card

variable {α : Type} {card : Card} {post : α → Card → Prop} {delay : Nat}

theorem ends_command {command : UInt8} {rest : UInt8 → Code α} (free : card.Free)
    (start : (command ||| 0x40) &&& 0xc0 = 0x40)
    (later : Ends Card.respond (rest (card.heard command)) (card.commanded command) post) :
    Ends Card.respond (do
      let response ← sdSendCommand command 0 0
      deselect
      let _ ← xchg 0xff
      rest response) card post := by
  apply (ends_sendCommand free 0 0 start).bind
  rintro response after ⟨rfl, rfl⟩
  apply ends_deselect
  apply ends_xchg ((card.commanded command).exchange_released rfl (free.attends (Card.frame command 0 0)).rested 0xff)
  exact later

theorem ends_detectLoop_found (free : card.Free) (i : Nat) (response : UInt8)
    (second : card.timing.response card.served = 1) :
    Ends Card.respond (detectLoop (i + 1) response) card fun response after =>
      response = 1 ∧ after = card.asked (some (card.slow + 1)) false := by
  apply ends_command free (by decide)
  rw [card.commanded_0, card.heard_0, Card.second, if_pos second]
  apply ends_xchg ((card.asked _ _).exchange_released rfl free.rested 0xff)
  exact ends_pure ⟨rfl, rfl⟩

/-- A card that answers earlier or later is never found. -/
theorem ends_detectLoop_missed {i : Nat} {response : UInt8} (free : card.Free)
    (steady : ∀ n, card.timing.response n = delay) (other : delay ≠ 1) (wrong : 0 < i ∨ response ≠ 1) :
    Ends Card.respond (detectLoop i response) card fun response after => response ≠ 1 ∧ card.SameDisk after := by
  induction i generalizing card response with
  | zero => exact ends_pure ⟨wrong.resolve_left (Nat.lt_irrefl 0), free, rfl, rfl, rfl, rfl⟩
  | succ i ih =>
    have asked := free.asked (some (card.slow + 1)) false
    apply ends_command free (by decide)
    rw [card.commanded_0, card.heard_0, Card.second, steady, if_neg other]
    apply ends_xchg ((card.asked _ _).exchange_released rfl free.rested 0xff)
    rw [if_neg (by decide)]
    apply (ih asked.toFree steady (.inr (by decide))).mono
    intro response after found
    exact ⟨found.1, asked.trans found.2⟩

/-- The card is asked until it is ready, but not for ever. -/
theorem ends_startLoop (free : card.Free) (i : Nat) {n : Nat} (steady : ∀ n, card.timing.response n = 1)
    (idle : card.idle = some (n + 1)) :
    Ends Card.respond (startLoop i 1) card fun response after =>
      card.SameDisk after ∧ (if n < i then response = 0 ∧ after.isReady = true else response = 1) := by
  induction i generalizing card n with
  | zero => exact ends_pure ⟨⟨free, rfl, rfl, rfl, rfl⟩, by simp⟩
  | succ i ih =>
    have app : (card.asked card.idle true).app = true := rfl
    have second : (card.asked card.idle true).timing.response (card.asked card.idle true).served = 1 := steady _
    have between := free.asked card.idle true
    have disk := between.trans (between.toFree.asked (some n) false)
    apply ends_command free (by decide)
    rw [card.commanded_55]
    apply ends_command between.toFree (by decide)
    rw [Card.heard_41 app idle, Card.commanded_41 app idle, Card.second, if_pos second]
    cases n with
    | zero =>
      rw [if_pos rfl, if_pos (show (0 : UInt8) ≠ 1 by decide)]
      apply ends_pure
      rw [if_pos (Nat.succ_pos i)]
      exact ⟨disk, rfl, rfl⟩
    | succ n =>
      rw [if_neg (Nat.succ_ne_zero n), if_neg (show ¬ (1 : UInt8) ≠ 1 by decide)]
      apply (ih disk.toFree steady rfl).mono
      intro response after found
      refine ⟨disk.trans found.1, ?_⟩
      simpa using found.2

/-- The card when it has nothing more to program. -/
def Card.rest (card : Card) : Card := { card with busy := 0 }

theorem ends_readBytes_released (card : Card) {n : Nat} (released : card.selected = false) (soon : card.busy ≤ n) :
    Ends Card.respond (readBytes n) card fun _ after => after = card.rest := by
  induction n generalizing card with
  | zero =>
    apply ends_pure
    rw [Card.rest, ← Nat.le_zero.mp soon]
  | succ n ih =>
    apply ends_xchg (show card.exchange 0xff = (0xff, card.pass) from if_pos released)
    apply (ih card.pass released (Nat.sub_le_of_le_add soon)).bind
    rintro _ after rfl
    exact ends_pure rfl

/-- How the startup ends for a card that always answers after the same number of bytes. -/
def startup (delay slow : Nat) : Status :=
  if delay ≠ 1 then .noDetect else if slow < 0xfffe then .ok else .timeout

/-- How the startup leaves the card. -/
def Card.Started (card : Card) (status : Status) (after : Card) : Prop :=
  card.SameDisk after ∧ (status = .ok → after.isReady = true)

theorem ends_initialise (response : UInt8) (rested : card.busy ≤ 10) (steady : ∀ n, card.timing.response n = delay) :
    Ends Card.respond (initialise response) card fun status after =>
      status = startup delay card.slow ∧ card.Started status after := by
  rw [startup, initialise]
  apply ends_deselect
  apply (ends_readBytes_released (card.reset false) rfl rested).bind
  rintro _ after rfl
  have free : (card.reset false).rest.Free := ⟨rfl, fun on => absurd on Bool.false_ne_true⟩
  have disk : card.SameDisk (card.reset false).rest := ⟨free, rfl, rfl, rfl, rfl⟩
  by_cases heard : delay = 1
  · subst heard
    rw [if_neg (by decide)]
    apply (ends_detectLoop_found free 0xfd response (steady _)).bind
    rintro response after ⟨rfl, rfl⟩
    rw [if_neg (by decide)]
    have asked := free.asked (some (card.slow + 1)) false
    apply (ends_startLoop asked.toFree 0xfffe steady rfl).bind
    intro response after started
    have same := (disk.trans asked).trans started.1
    apply ends_pure
    by_cases soon : card.slow < 0xfffe
    · rw [if_pos soon] at started
      rw [if_pos soon, started.2.1, if_neg (by decide)]
      exact ⟨rfl, same, fun _ => started.2.2⟩
    · rw [if_neg soon] at started
      rw [if_neg soon, started.2, if_pos rfl]
      exact ⟨rfl, same, fun ok => by cases ok⟩
  · rw [if_pos heard]
    apply (ends_detectLoop_missed free steady heard (.inl (by decide))).bind
    intro response after found
    rw [if_pos found.1]
    exact ends_pure ⟨rfl, disk.trans found.2, fun ok => by cases ok⟩

theorem ends_switchPower (hasPower on : Bool) :
    Ends Card.respond (switchPower hasPower on) card fun _ after => after = card := by
  cases hasPower with
  | false => exact ends_pure rfl
  | true => exact ⟨(), card, rfl, rfl⟩

theorem ends_power (hasPower : Bool) (response : UInt8) (rested : card.busy ≤ 10)
    (steady : ∀ n, card.timing.response n = delay) :
    Ends Card.respond (sdPower hasPower true response) card fun status after =>
      status = startup delay card.slow ∧ card.Started status after := by
  apply (ends_switchPower hasPower true).bind
  rintro _ after rfl
  rw [if_pos rfl]
  exact ends_initialise response rested steady

theorem ends_register {callbacks : Callbacks} (registered : callbacks.select && callbacks.xchg && callbacks.deselect)
    (response : UInt8) (rested : card.busy ≤ 10) (steady : ∀ n, card.timing.response n = delay) :
    Ends Card.respond (sdRegister callbacks response) card fun out after =>
      out = (true, startup delay card.slow) ∧ card.Started out.2 after := by
  rw [sdRegister, if_pos registered]
  apply (ends_power callbacks.power response rested steady).bind
  rintro status after ⟨rfl, started⟩
  exact ends_pure ⟨rfl, started⟩

end Minimus32.SdCard
