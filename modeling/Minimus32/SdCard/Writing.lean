import Minimus32.SdCard.Sectors

namespace Minimus32.SdCard

open Interaction Program

namespace Card

theorem execute_write {card : Card} {lba : Nat} (ready : card.isReady = true) (inside : lba % 8388608 < card.sectors) :
    card.execute (sectorFrame 24 lba) = card.awaitBlock (lba % 8388608) := by
  simp only [execute, argument_sectorFrame,
    number_sectorFrame lba (show ((24 ||| 0x40 : UInt8) &&& 0x3f).toNat = 24 by decide), ready, Bool.true_eq_false,
    if_false, if_pos inside]

theorem execute_write_refused {card : Card} {lba : Nat} (ready : card.isReady = true)
    (outside : ¬ lba % 8388608 < card.sectors) : card.execute (sectorFrame 24 lba) = card.answer 0x40 [] := by
  simp only [execute, argument_sectorFrame,
    number_sectorFrame lba (show ((24 ||| 0x40 : UInt8) &&& 0x3f).toNat = 24 by decide), ready, Bool.true_eq_false,
    if_false, if_neg outside]

/-- The selected card in the middle of a block. -/
def storing (card : Card) (sector : Nat) (received : List UInt8) : Card :=
  { card with receiver := .block sector received, out := [] }

/-- The card with other contents. -/
def holding (card : Card) (medium : Medium) : Card := { card with medium := medium }

theorem exchange_storing {card : Card} (selected : card.selected = true) (rested : card.busy = 0) {sector : Nat}
    {received : List UInt8} (byte : UInt8) (more : received.length ≠ 513) :
    (card.storing sector received).exchange byte = (0xff, card.storing sector (received ++ [byte])) := by
  rw [exchange_rested (show (card.storing sector received).selected = true from selected) rested]
  simp [storing, receive, more]

theorem exchange_stored {card : Card} (selected : card.selected = true) (rested : card.busy = 0) {sector : Nat}
    {received : List UInt8} (byte : UInt8) (last : received.length = 513) :
    (card.storing sector received).exchange byte =
      (0xff, (card.storing sector received).store sector (received.take 512)) := by
  rw [exchange_rested (show (card.storing sector received).selected = true from selected) rested]
  simp [storing, receive, last]

/-- The selected card with nothing to say, busy for so many bytes more. -/
def programming (card : Card) (busy : Nat) : Card := { card.reset true with busy := busy }

theorem exchange_programming (card : Card) (busy : Nat) :
    (card.programming busy).exchange 0xff = (if busy = 0 then 0xff else 0, card.programming (busy - 1)) := by
  have clock : (0xff : UInt8) &&& 0xc0 ≠ 0x40 := by decide
  by_cases rested : busy = 0
  · simp [exchange, programming, reset, rested, receive, clock]
  · simp [exchange, programming, reset, rested, pass]

theorem exchange_accepted {card : Card} {sector : Nat} {bytes : List UInt8} (selected : card.selected = true)
    (accepted : card.accepts (card.served - 1) = true) :
    (card.store sector bytes).exchange 0xff =
      (0xe5, (card.holding (card.medium.put sector bytes)).programming (card.timing.busy (card.served - 1) - 1)) := by
  have clock : (0xff : UInt8) &&& 0xc0 ≠ 0x40 := by decide
  by_cases rested : card.timing.busy (card.served - 1) = 0
  · simp [exchange, store, accepted, selected, rested, receive, clock, programming, reset, holding]
  · simp [exchange, store, accepted, selected, rested, pass, programming, reset, holding]

theorem exchange_refused {card : Card} {sector : Nat} {bytes : List UInt8} (selected : card.selected = true)
    (rested : card.busy = 0) (refused : card.accepts (card.served - 1) = false) :
    (card.store sector bytes).exchange 0xff = (0x0d, card.reset true) := by
  have clock : (0xff : UInt8) &&& 0xc0 ≠ 0x40 := by decide
  simp [exchange, store, refused, selected, rested, receive, clock, reset]

end Card

variable {card : Card}

theorem ends_responseLoop_found (before : List UInt8) {response : UInt8} {noise later : List UInt8} {count : Nat}
    (sends : card.Sends (before ++ noise ++ response :: later)) (quiet : ∀ byte ∈ noise, byte ≠ response)
    (soon : noise.length < count) :
    Ends Card.respond (sdResponseLoop response count) (card.sent before.length) fun answered after =>
      answered = true ∧ after = card.sent (before.length + noise.length + 1) := by
  induction noise generalizing before count with
  | nil =>
    obtain ⟨count, rfl⟩ : ∃ k, count = k + 1 := ⟨count - 1, by simp at soon; omega⟩
    have next : (card.out.drop before.length).headD 0xff = response := by simp [sends.out]
    apply ends_xchg (Card.exchange_sent sends.toAttends before.length)
    rw [next, if_pos rfl]
    exact ends_pure ⟨rfl, rfl⟩
  | cons byte noise ih =>
    obtain ⟨count, rfl⟩ : ∃ k, count = k + 1 := ⟨count - 1, by omega⟩
    have next : (card.out.drop before.length).headD 0xff = byte := by simp [sends.out]
    apply ends_xchg (Card.exchange_sent sends.toAttends before.length)
    rw [next, if_neg (quiet byte (by simp))]
    have rest := ih (before ++ [byte]) (by simpa using sends) (fun other member => quiet other (by simp [member]))
      (show noise.length < count by simp only [List.length_cons] at soon; omega)
    rw [List.length_append, List.length_singleton] at rest
    apply rest.mono
    rintro answered after ⟨rfl, rfl⟩
    exact ⟨rfl, by rw [List.length_cons, Nat.add_assoc before.length, Nat.add_comm 1]⟩

theorem ends_responseLoop_missed {response : UInt8} {count n : Nat} (attends : card.Attends)
    (quiet : ∀ k < count, (card.out.drop (n + k)).headD 0xff ≠ response) :
    Ends Card.respond (sdResponseLoop response count) (card.sent n) fun answered after =>
      answered = false ∧ after = card.sent (n + count) := by
  induction count generalizing n with
  | zero => exact ends_pure ⟨rfl, rfl⟩
  | succ count ih =>
    have other : (card.out.drop n).headD 0xff ≠ response := quiet 0 (by omega)
    apply ends_xchg (Card.exchange_sent attends n)
    rw [if_neg other]
    apply (ih (n := n + 1) ?_).mono
    · rintro answered after ⟨rfl, rfl⟩
      exact ⟨rfl, by rw [Nat.add_assoc, Nat.add_comm 1]⟩
    · intro k small
      rw [Nat.add_assoc, Nat.add_comm 1]
      exact quiet (k + 1) (by omega)

theorem ends_writeBytes (selected : card.selected = true) (rested : card.busy = 0) {sector : Nat}
    {received buffer : List UInt8}
    (room : received.length + buffer.length ≤ 513) :
    Ends Card.respond (writeBytes buffer) (card.storing sector received) fun _ after =>
      after = card.storing sector (received ++ buffer) := by
  induction buffer generalizing received with
  | nil => exact ends_pure (by rw [List.append_nil])
  | cons byte buffer ih =>
    simp only [List.length_cons] at room
    apply ends_xchg (Card.exchange_storing selected rested byte (by omega))
    apply (ih (by simp only [List.length_append, List.length_singleton]; omega)).mono
    rintro _ after rfl
    rw [List.append_assoc, List.singleton_append]

/-- The loop sees the end of the programming if it is near enough. -/
theorem ends_busyLoop {busy i : Nat} (soon : busy ≤ i) :
    Ends Card.respond (busyLoop i) (card.programming busy) fun _ after => after = card.programming 0 := by
  induction i generalizing busy with
  | zero =>
    obtain rfl := Nat.le_zero.mp soon
    exact ends_pure rfl
  | succ i ih =>
    apply ends_xchg (card.exchange_programming busy)
    by_cases rested : busy = 0
    · subst rested
      exact ends_pure rfl
    · rw [if_neg rested, if_pos rfl]
      exact ih (by omega)

/-- The block is sent, up to the byte in which the card says what it does with it. -/
theorem ends_sendBlock {α : Type} {post : α → Card → Prop} {rest : Code α} {sector n : Nat} {buffer : List UInt8}
    (selected : card.selected = true) (rested : card.busy = 0) (receiver : card.receiver = .token sector)
    (silent : card.out.length ≤ n) (whole : buffer.length = 512)
    (later : Ends Card.respond rest ((card.storing sector (buffer ++ [0xff])).store sector buffer) post) :
    Ends Card.respond (do
      let _ ← xchg 0xfe
      writeBytes buffer
      let _ ← xchg 0xff
      let _ ← xchg 0xff
      rest) (card.sent n) post := by
  have opened : (card.sent n).exchange 0xfe = (0xff, card.storing sector []) := by
    rw [Card.exchange_rested (show (card.sent n).selected = true from selected) rested]
    simp [Card.sent, Card.storing, Card.receive, receiver, List.drop_of_length_le silent]
  apply ends_xchg opened
  apply (ends_writeBytes selected rested (by rw [whole]; decide)).bind
  rintro _ after rfl
  rw [List.nil_append]
  apply ends_xchg (Card.exchange_storing selected rested 0xff (by omega))
  apply ends_xchg (Card.exchange_stored selected rested 0xff (by simp [whole]))
  rw [List.take_left' whole]
  exact later

/-- The block is stored, and the card is released when it has been programmed. -/
theorem ends_writeBlock_ok {sector n : Nat} {buffer : List UInt8} (selected : card.selected = true)
    (rested : card.busy = 0) (receiver : card.receiver = .token sector) (silent : card.out.length ≤ n)
    (whole : buffer.length = 512) (accepted : card.accepts (card.served - 1) = true)
    (soon : card.timing.busy (card.served - 1) ≤ 65536) :
    Ends Card.respond (writeBlock buffer) (card.sent n) fun status after =>
      status = .ok ∧ after = (card.reset false).holding (card.medium.put sector buffer) := by
  apply ends_sendBlock selected rested receiver silent whole
  apply ends_xchg (Card.exchange_accepted selected accepted)
  rw [if_neg (by decide)]
  apply (ends_busyLoop (show card.timing.busy (card.served - 1) - 1 ≤ 0xffff by omega)).bind
  rintro _ after rfl
  apply (ends_clockAndRelease (Card.programming _ 0) rfl).bind
  rintro _ after rfl
  apply ends_pure
  refine ⟨rfl, ?_⟩
  rw [Card.programming, ← rested]
  rfl

/-- A card that refuses the block is not released. -/
theorem ends_writeBlock_failed {sector n : Nat} {buffer : List UInt8} (selected : card.selected = true)
    (rested : card.busy = 0) (receiver : card.receiver = .token sector) (silent : card.out.length ≤ n)
    (whole : buffer.length = 512) (refused : card.accepts (card.served - 1) = false) :
    Ends Card.respond (writeBlock buffer) (card.sent n) fun status after =>
      status = .rwFail ∧ after = card.reset true := by
  apply ends_sendBlock selected rested receiver silent whole
  apply ends_xchg (Card.exchange_refused selected rested refused)
  rw [if_pos (by decide)]
  exact ends_pure ⟨rfl, rfl⟩

/-- A card that answers behind the two bytes that go with the command is heard, and gets the block. -/
theorem ends_writesector_heard {lba : Nat} {buffer : List UInt8} {post : Status → Card → Prop} (free : card.Free)
    (ready : card.isReady = true) (inside : lba % 8388608 < card.sectors)
    (early : 2 ≤ card.timing.response card.served) (soon : card.timing.response card.served ≤ 65536)
    (later : Ends Card.respond (writeBlock buffer)
      (((card.reset true).awaitBlock (lba % 8388608)).sent (card.timing.response card.served + 1)) post) :
    Ends Card.respond (sdWritesector true lba buffer) card post := by
  have executed : (card.reset true).execute _ = _ := Card.execute_write ready inside
  rw [sdWritesector, if_neg (by decide)]
  apply (ends_sendCommand free _ _ (by decide)).bind
  rintro response after ⟨-, rfl⟩
  rw [← Card.sectorFrame, executed]
  have sends : ((card.reset true).awaitBlock (lba % 8388608)).Sends
      (List.replicate 2 0xff ++ List.replicate (card.timing.response card.served - 2) 0xff ++ [0]) := by
    refine ⟨⟨rfl, .inr ⟨_, rfl⟩, free.rested⟩, ?_⟩
    rw [List.replicate_append_replicate, Nat.add_sub_of_le early]
    rfl
  have found : Ends Card.respond (sdResponseLoop 0 0xffff) _ _ :=
    ends_responseLoop_found _ sends (by simp) (by rw [List.length_replicate]; omega)
  rw [List.length_replicate, List.length_replicate, Nat.add_sub_of_le early] at found
  apply found.bind
  rintro answered after ⟨rfl, rfl⟩
  rw [if_neg (by decide)]
  exact later

theorem Card.length_awaitBlock (card : Card) (sector : Nat) :
    ((card.reset true).awaitBlock sector).out.length ≤ card.timing.response card.served + 1 := by
  simp [awaitBlock, answer, reset]

/-- A sector is written by a card that is heard and takes the block. -/
theorem ends_writesector_ok {lba : Nat} {buffer : List UInt8} (free : card.Free) (ready : card.isReady = true)
    (inside : lba % 8388608 < card.sectors) (whole : buffer.length = 512)
    (early : 2 ≤ card.timing.response card.served) (soon : card.timing.response card.served ≤ 65536)
    (accepted : card.accepts card.served = true) (short : card.timing.busy card.served ≤ 65536) :
    Ends Card.respond (sdWritesector true lba buffer) card fun status after =>
      status = .ok ∧ after = card.finished.holding (card.medium.put (lba % 8388608) buffer) := by
  apply ends_writesector_heard free ready inside early soon
  exact ends_writeBlock_ok rfl free.rested rfl (card.length_awaitBlock _) whole accepted short

/-- The card when it has been left selected at the end of a command. -/
def Card.unreleased (card : Card) : Card := { card.reset true with app := false, served := card.served + 1 }

theorem ends_writesector_refused {lba : Nat} {buffer : List UInt8} (free : card.Free) (ready : card.isReady = true)
    (inside : lba % 8388608 < card.sectors) (whole : buffer.length = 512)
    (early : 2 ≤ card.timing.response card.served) (soon : card.timing.response card.served ≤ 65536)
    (refused : card.accepts card.served = false) :
    Ends Card.respond (sdWritesector true lba buffer) card fun status after =>
      status = .rwFail ∧ after = card.unreleased := by
  apply ends_writesector_heard free ready inside early soon
  exact ends_writeBlock_failed rfl free.rested rfl (card.length_awaitBlock _) whole refused

theorem Card.quiet_awaitBlock {sector k : Nat} (small : k < 0xffff)
    (unheard : card.timing.response card.served ≤ 1 ∨ 65536 < card.timing.response card.served) :
    (((card.reset true).awaitBlock sector).out.drop (2 + k)).headD 0xff ≠ 0 := by
  have out : ((card.reset true).awaitBlock sector).out =
      List.replicate (card.timing.response card.served) 0xff ++ [0] := rfl
  rcases unheard with early | late
  · have length := congrArg List.length out
    rw [List.length_append, List.length_replicate, List.length_singleton] at length
    rw [List.drop_of_length_le (by omega)]
    decide
  · apply Card.quiet_of_mem (by decide) (by simp) out
    rw [List.length_replicate]
    exact .inr (by omega)

theorem Card.quiet_answer (card : Card) (n : Nat) : ((card.answer 0x40 []).out.drop n).headD 0xff ≠ 0 := by
  apply Card.quiet_of_mem (by decide) ?_ (List.append_nil _).symm (.inl rfl)
  intro byte member
  have known : byte = 0xff ∨ byte = 0x40 := by
    simp only [Card.answer, List.mem_append, List.mem_cons, List.mem_replicate] at member
    tauto
  rcases known with rfl | rfl <;> decide

/-- A sector that the card does not have is not written, nor any sector when the response is not heard: it may be one
of the two bytes that go with the command. -/
theorem ends_writesector_failed {lba : Nat} {buffer : List UInt8} (free : card.Free) (ready : card.isReady = true)
    (unheard : card.sectors ≤ lba % 8388608 ∨ card.timing.response card.served ≤ 1 ∨
      65536 < card.timing.response card.served) :
    Ends Card.respond (sdWritesector true lba buffer) card fun status after =>
      status = .rwFail ∧ after = card.finished := by
  rw [sdWritesector, if_neg (by decide)]
  apply (ends_sendCommand free _ _ (by decide)).bind
  rintro response after ⟨-, rfl⟩
  rw [← Card.sectorFrame]
  have quiet : (∀ k < 0xffff,
      (((card.reset true).execute (Card.sectorFrame 24 lba)).out.drop (2 + k)).headD 0xff ≠ 0) ∧
      ((card.reset true).execute (Card.sectorFrame 24 lba)).reset false = card.finished := by
    by_cases inside : lba % 8388608 < card.sectors
    · have executed : (card.reset true).execute _ = _ := Card.execute_write ready inside
      have late := unheard.resolve_left (Nat.not_le.mpr inside)
      rw [executed]
      exact ⟨fun k small => Card.quiet_awaitBlock small late, rfl⟩
    · have executed : (card.reset true).execute _ = _ := Card.execute_write_refused ready inside
      rw [executed]
      exact ⟨fun k _ => Card.quiet_answer _ _, rfl⟩
  apply (ends_responseLoop_missed (free.attends _) quiet.1).bind
  rintro answered after ⟨rfl, rfl⟩
  rw [if_pos rfl]
  apply (ends_clockAndRelease (Card.sent _ _) (free.attends (Card.sectorFrame 24 lba)).rested).bind
  rintro _ after rfl
  exact ends_pure ⟨rfl, quiet.2⟩

end Minimus32.SdCard
