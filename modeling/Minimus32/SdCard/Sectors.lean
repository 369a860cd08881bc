import Minimus32.SdCard.Card

namespace Minimus32.SdCard

open Interaction Program

namespace Card

/-- The card once a command is over and it has been released. -/
def finished (card : Card) : Card := { card.reset false with app := false, served := card.served + 1 }

theorem Free.finished {card : Card} (free : card.Free) : card.finished.Free :=
  ⟨free.rested, fun on => absurd on Bool.false_ne_true⟩

theorem argument_frame (command : UInt8) {px py : Nat} (high : px < 65536) (low : py < 65536) :
    argument (frame command px py) = px * 65536 + py := by
  have byte (n : Nat) : n &&& 0xff = n % 256 := Nat.and_two_pow_sub_one_eq_mod n 8
  simp only [argument, frame, List.getD_cons_succ, List.getD_cons_zero, UInt8.toNat_ofNat', byte,
    Nat.shiftRight_eq_div_pow]
  omega

/-- The frame of a command with a sector number. -/
def sectorFrame (command : UInt8) (lba : Nat) : List UInt8 :=
  frame command (lba >>> 7 &&& 0xffff) (lba <<< 9 &&& 0xffff)

/-- The sector that a sector number comes to as a byte address of 32 bits. -/
theorem argument_sectorFrame (command : UInt8) (lba : Nat) :
    argument (sectorFrame command lba) / 512 = lba % 8388608 := by
  have word (n : Nat) : n &&& 0xffff = n % 65536 := Nat.and_two_pow_sub_one_eq_mod n 16
  rw [sectorFrame, word, word, argument_frame command (Nat.mod_lt _ (by decide)) (Nat.mod_lt _ (by decide)),
    Nat.shiftRight_eq_div_pow, Nat.shiftLeft_eq]
  omega

theorem number_frame {command : UInt8} {n : Nat} (px py : Nat) (number : ((command ||| 0x40) &&& 0x3f).toNat = n) :
    ((frame command px py).getD 0 0 &&& 0x3f).toNat = n := number

theorem number_sectorFrame {command : UInt8} {n : Nat} (lba : Nat) (number : ((command ||| 0x40) &&& 0x3f).toNat = n) :
    ((sectorFrame command lba).getD 0 0 &&& 0x3f).toNat = n := number

theorem execute_read {card : Card} {lba : Nat} (ready : card.isReady = true) (inside : lba % 8388608 < card.sectors) :
    card.execute (sectorFrame 17 lba) = card.answer 0 (card.dataBlock (card.medium.bytes (lba % 8388608))) := by
  simp only [execute, argument_sectorFrame,
    number_sectorFrame lba (show ((17 ||| 0x40 : UInt8) &&& 0x3f).toNat = 17 by decide), ready, Bool.true_eq_false,
    if_false, if_pos inside]

theorem execute_read_refused {card : Card} {lba : Nat} (ready : card.isReady = true)
    (outside : ¬ lba % 8388608 < card.sectors) : card.execute (sectorFrame 17 lba) = card.answer 0x40 [] := by
  simp only [execute, argument_sectorFrame,
    number_sectorFrame lba (show ((17 ||| 0x40 : UInt8) &&& 0x3f).toNat = 17 by decide), ready, Bool.true_eq_false,
    if_false, if_neg outside]

end Card

variable {card : Card}

theorem ends_clockAndRelease (card : Card) (rested : card.busy = 0) :
    Ends Card.respond sdClockAndRelease card fun _ after => after = card.reset false := by
  apply ends_deselect
  apply ends_xchg ((card.reset false).exchange_released rfl rested 0xff)
  exact ends_pure rfl

/-- A block is read whole, behind a token that comes in time. -/
theorem ends_readBlock_ok {bytes checksum : List UInt8} (before : List UInt8) {noise : List UInt8}
    (sends : card.Sends (before ++ noise ++ 0xfe :: (bytes ++ checksum))) (quiet : ∀ byte ∈ noise, byte ≠ 0xfe)
    (soon : noise.length < 0x1ff) {n : Nat} (length : bytes.length = n) :
    Ends Card.respond (readBlock n) (card.sent before.length) fun out after =>
      out = (.ok, bytes) ∧ after = card.reset false := by
  subst length
  apply (ends_datatokenLoop_found before sends (by decide) quiet soon).bind
  rintro status after ⟨rfl, rfl⟩
  rw [if_neg (by decide)]
  have block : card.Sends ((before ++ noise ++ [0xfe]) ++ bytes ++ checksum) := by simpa using sends
  have read := ends_readBytes _ block
  simp only [List.length_append, List.length_singleton] at read
  apply read.bind
  rintro buffer after ⟨rfl, rfl⟩
  apply ends_xchg (Card.exchange_sent sends.toAttends _)
  apply ends_xchg (Card.exchange_sent sends.toAttends _)
  apply (ends_clockAndRelease (card.sent _) sends.rested).bind
  rintro _ after rfl
  exact ends_pure ⟨rfl, rfl⟩

theorem ends_readBlock_failed {k n : Nat} (attends : card.Attends)
    (quiet : ∀ k < 0x1ff, (card.out.drop (n + k)).headD 0xff ≠ 0xfe) :
    Ends Card.respond (readBlock k) (card.sent n) fun out after =>
      out = (.rwFail, []) ∧ after = card.reset false := by
  apply (ends_datatokenLoop_missed attends (by decide) quiet).bind
  rintro status after ⟨missed, rfl⟩
  rw [if_pos missed]
  apply (ends_clockAndRelease (card.sent _) attends.rested).bind
  rintro _ after rfl
  exact ends_pure ⟨rfl, rfl⟩

/-- The token of a block that has been asked for comes behind the two bytes that go with the command, and in time. -/
def Card.Prompt (card : Card) : Prop :=
  1 ≤ card.timing.response card.served + card.timing.token card.served ∧
    card.timing.response card.served + card.timing.token card.served ≤ 511

/-- What the card sends between a command and the token of its block: the response among bytes that mean nothing. -/
def Card.leader (card : Card) : List UInt8 :=
  List.replicate (card.timing.response card.served) 0xff ++
    0 :: List.replicate (card.timing.token card.served) 0xff

theorem Card.length_leader (card : Card) :
    card.leader.length = card.timing.response card.served + card.timing.token card.served + 1 := by
  simp [leader, Nat.add_assoc]

theorem Card.leader_quiet (card : Card) : ∀ byte ∈ card.leader, byte ≠ 0xfe := by
  intro byte member
  have known : byte = 0xff ∨ byte = 0 := by
    simp only [leader, List.mem_append, List.mem_cons, List.mem_replicate] at member
    tauto
  rcases known with rfl | rfl <;> decide

theorem Card.Free.sends_block (free : card.Free) (bytes : List UInt8) :
    ((card.reset true).answer 0 ((card.reset true).dataBlock bytes)).Sends
      (card.leader.take 2 ++ card.leader.drop 2 ++ 0xfe :: (bytes ++ card.checksum bytes)) := by
  refine ⟨⟨rfl, .inl rfl, free.rested⟩, ?_⟩
  rw [List.take_append_drop]
  simp [answer, dataBlock, leader, reset]

/-- A sector is read, the one that its number comes to in a byte address of 32 bits. -/
theorem ends_readsector_ok {lba : Nat} (free : card.Free) (ready : card.isReady = true)
    (inside : lba % 8388608 < card.sectors)
    (prompt : card.Prompt) :
    Ends Card.respond (sdReadsector true lba) card fun out after =>
      out = (.ok, card.medium.bytes (lba % 8388608)) ∧ after = card.finished := by
  have executed : (card.reset true).execute _ = _ := Card.execute_read ready inside
  have length := card.length_leader
  have early := prompt.1
  have soon := prompt.2
  rw [sdReadsector, if_neg (by decide)]
  apply (ends_sendCommand free _ _ (by decide)).bind
  rintro response after ⟨-, rfl⟩
  rw [← Card.sectorFrame, executed]
  have read := ends_readBlock_ok _ (free.sends_block (card.medium.bytes (lba % 8388608)))
    (fun byte member => card.leader_quiet byte (List.mem_of_mem_drop member)) (by rw [List.length_drop]; omega)
    (card.medium.length_bytes _)
  rw [List.length_take, Nat.min_eq_left (by omega)] at read
  exact read

theorem Card.quiet_of_mem {value : UInt8} (other : 0xff ≠ value) {before bytes : List UInt8}
    (quiet : ∀ byte ∈ before, byte ≠ value) (out : card.out = before ++ bytes) {m : Nat}
    (early : bytes = [] ∨ m < before.length) : (card.out.drop m).headD 0xff ≠ value := by
  rw [List.headD_eq_head?_getD, List.head?_drop, out]
  by_cases inside : m < before.length
  · rw [List.getElem?_append_left inside, List.getElem?_eq_getElem inside]
    exact quiet _ (List.getElem_mem inside)
  · rcases early with rfl | early
    · rw [List.append_nil, List.getElem?_eq_none (by omega)]
      exact other
    · exact absurd early inside

/-- A sector that the card does not have, or has not ready in time, is not read. -/
theorem ends_readsector_failed {lba : Nat} (free : card.Free) (ready : card.isReady = true)
    (late : card.sectors ≤ lba % 8388608 ∨ 512 ≤ card.timing.response card.served + card.timing.token card.served) :
    Ends Card.respond (sdReadsector true lba) card fun out after => out = (.rwFail, []) ∧ after = card.finished := by
  rw [sdReadsector, if_neg (by decide)]
  apply (ends_sendCommand free _ _ (by decide)).bind
  rintro response after ⟨-, rfl⟩
  rw [← Card.sectorFrame]
  have attends := free.attends (Card.sectorFrame 17 lba)
  by_cases inside : lba % 8388608 < card.sectors
  · have executed : (card.reset true).execute _ = _ := Card.execute_read ready inside
    rw [executed] at attends ⊢
    have length := card.length_leader
    apply ends_readBlock_failed attends
    intro k small
    apply Card.quiet_of_mem (by decide) card.leader_quiet
    · simp [Card.answer, Card.dataBlock, Card.leader, Card.reset]
      rfl
    · exact .inr (by omega)
  · have executed : (card.reset true).execute _ = _ := Card.execute_read_refused ready inside
    rw [executed] at attends ⊢
    apply ends_readBlock_failed attends
    intro k small
    apply Card.quiet_of_mem (by decide) ?_ (List.append_nil _).symm (.inl rfl)
    intro byte member
    have known : byte = 0xff ∨ byte = 0x40 := by
      simp only [Card.answer, List.mem_append, List.mem_cons, List.mem_replicate] at member
      tauto
    rcases known with rfl | rfl <;> decide

end Minimus32.SdCard
