import Minimus32.SdCard.Startup

namespace Minimus32.SdCard

open Interaction Program

abbrev Block := { bytes : List UInt8 // bytes.length = 512 }

inductive Request where
  | read (lba : Nat)
  | write (lba : Nat) (buffer : Block)

def perform : Request → Code (Status × List UInt8)
  | .read lba => sdReadsector true lba
  | .write lba buffer => do
    let status ← sdWritesector true lba buffer.val
    pure (status, [])

def session : List Request → Code (List (Status × List UInt8))
  | [] => pure []
  | request :: requests => do
    let result ← perform request
    let results ← session requests
    pure (result :: results)

/-- The sector that is meant by a byte address of 32 bits. -/
def Request.sector : Request → Nat
  | .read lba | .write lba _ => lba % 8388608

/-- The program hears the card in time, and the card takes the block. -/
def Request.heard (timing : Timing) (accepts : Nat → Bool) (n : Nat) : Request → Bool
  | .read _ => timing.response n + timing.token n ≤ 511
  | .write _ _ => 2 ≤ timing.response n ∧ timing.response n ≤ 65536 ∧ accepts n

def Request.effect (medium : Medium) : Request → List UInt8 × Medium
  | .read lba => (medium.bytes (lba % 8388608), medium)
  | .write lba buffer => ([], medium.put (lba % 8388608) buffer.val)

/-- A request is carried out or fails without an effect. -/
def attempt (sectors : Nat) (timing : Timing) (accepts : Nat → Bool) (n : Nat) (medium : Medium) (request : Request) :
    (Status × List UInt8) × Medium :=
  if request.sector < sectors ∧ request.heard timing accepts n then
    ((.ok, (request.effect medium).1), (request.effect medium).2)
  else ((.rwFail, []), medium)

def serve (sectors : Nat) (timing : Timing) (accepts : Nat → Bool) :
    Nat → Medium → List Request → List (Status × List UInt8) × Medium
  | _, medium, [] => ([], medium)
  | n, medium, request :: requests =>
    let tried := attempt sectors timing accepts n medium request
    let later := serve sectors timing accepts (n + 1) tried.2 requests
    (tried.1 :: later.1, later.2)

def Card.attempt (card : Card) (request : Request) : (Status × List UInt8) × Medium :=
  SdCard.attempt card.sectors card.timing card.accepts card.served card.medium request

/-- The card behind a request. -/
structure Card.Done (card : Card) (medium : Medium) (after : Card) : Prop extends
    (card.holding medium).SameDisk after where
  idle : after.idle = card.idle
  served : after.served = card.served + 1

variable {card : Card}

theorem Card.Free.done_finished (free : card.Free) (medium : Medium) :
    card.Done medium (card.finished.holding medium) :=
  ⟨⟨⟨free.rested, fun on => absurd on Bool.false_ne_true⟩, rfl, rfl, rfl, rfl⟩, rfl, rfl⟩

theorem Card.Free.done_unreleased (free : card.Free) : card.Done card.medium card.unreleased :=
  ⟨⟨⟨free.rested, fun _ => ⟨rfl, rfl⟩⟩, rfl, rfl, rfl, rfl⟩, rfl, rfl⟩

theorem ends_perform_read (free : card.Free) (ready : card.isReady = true)
    (behind : 1 ≤ card.timing.response card.served) (lba : Nat) :
    Ends Card.respond (perform (.read lba)) card fun out after =>
      out = (card.attempt (.read lba)).1 ∧ card.Done (card.attempt (.read lba)).2 after := by
  by_cases fine : lba % 8388608 < card.sectors ∧
      card.timing.response card.served + card.timing.token card.served ≤ 511
  · have served : card.attempt (.read lba) = ((.ok, card.medium.bytes (lba % 8388608)), card.medium) :=
      if_pos ⟨fine.1, decide_eq_true fine.2⟩
    rw [served]
    apply (ends_readsector_ok free ready fine.1 ⟨Nat.le_add_right_of_le behind, fine.2⟩).mono
    rintro out after ⟨rfl, rfl⟩
    exact ⟨rfl, free.done_finished card.medium⟩
  · have failed : card.attempt (.read lba) = ((.rwFail, []), card.medium) :=
      if_neg fun both => fine ⟨both.1, of_decide_eq_true both.2⟩
    rw [failed]
    apply (ends_readsector_failed free ready (by omega)).mono
    rintro out after ⟨rfl, rfl⟩
    exact ⟨rfl, free.done_finished card.medium⟩

theorem ends_perform_write (free : card.Free) (ready : card.isReady = true)
    (short : 2 ≤ card.timing.response card.served → card.timing.busy card.served ≤ 65536) (lba : Nat) (buffer : Block) :
    Ends Card.respond (perform (.write lba buffer)) card fun out after =>
      out = (card.attempt (.write lba buffer)).1 ∧ card.Done (card.attempt (.write lba buffer)).2 after := by
  by_cases heard : lba % 8388608 < card.sectors ∧
      2 ≤ card.timing.response card.served ∧ card.timing.response card.served ≤ 65536
  · obtain ⟨inside, early, soon⟩ := heard
    cases verdict : card.accepts card.served with
    | true =>
      have served : card.attempt (.write lba buffer) = ((.ok, []), card.medium.put (lba % 8388608) buffer.val) :=
        if_pos ⟨inside, decide_eq_true ⟨early, soon, verdict⟩⟩
      rw [served]
      apply (ends_writesector_ok free ready inside buffer.property early soon verdict (short early)).bind
      rintro status after ⟨rfl, rfl⟩
      exact ends_pure ⟨rfl, free.done_finished _⟩
    | false =>
      have failed : card.attempt (.write lba buffer) = ((.rwFail, []), card.medium) :=
        if_neg fun both => absurd (of_decide_eq_true both.2).2.2 (by rw [verdict]; decide)
      rw [failed]
      apply (ends_writesector_refused free ready inside buffer.property early soon verdict).bind
      rintro status after ⟨rfl, rfl⟩
      exact ends_pure ⟨rfl, free.done_unreleased⟩
  · have failed : card.attempt (.write lba buffer) = ((.rwFail, []), card.medium) :=
      if_neg fun both => heard ⟨both.1, (of_decide_eq_true both.2).1, (of_decide_eq_true both.2).2.1⟩
    rw [failed]
    apply (ends_writesector_failed free ready (by omega)).bind
    rintro status after ⟨rfl, rfl⟩
    exact ends_pure ⟨rfl, free.done_finished card.medium⟩

theorem ends_perform (free : card.Free) (ready : card.isReady = true) (behind : 1 ≤ card.timing.response card.served)
    (short : 2 ≤ card.timing.response card.served → card.timing.busy card.served ≤ 65536) (request : Request) :
    Ends Card.respond (perform request) card fun out after =>
      out = (card.attempt request).1 ∧ card.Done (card.attempt request).2 after := by
  cases request with
  | read lba => exact ends_perform_read free ready behind lba
  | write lba buffer => exact ends_perform_write free ready short lba buffer

/-- `short` is asked only of a card whose response to a write is heard at all. -/
theorem ends_session (free : card.Free) (ready : card.isReady = true) (behind : ∀ n, 1 ≤ card.timing.response n)
    (short : ∀ n, 2 ≤ card.timing.response n → card.timing.busy n ≤ 65536) (requests : List Request) :
    Ends Card.respond (session requests) card fun results after =>
      (results, after.medium) = serve card.sectors card.timing card.accepts card.served card.medium requests := by
  induction requests generalizing card with
  | nil => exact ends_pure rfl
  | cons request requests ih =>
    apply (ends_perform free ready (behind _) (short _) request).bind
    rintro result after ⟨rfl, done⟩
    have timing : after.timing = card.timing := done.timing
    apply (ih done.toFree (by rw [Card.isReady, done.idle]; exact ready) (by rw [timing]; exact behind)
      (by rw [timing]; exact short)).bind
    intro results final served
    rw [timing, done.sectors, done.accepts, done.served, done.medium] at served
    apply ends_pure
    rw [serve]
    exact congrArg (fun out => (_ :: out.1, out.2)) served

/-- A card with this timing of all its commands and nothing on it; it takes every second block. -/
def blankCard (delay token : Nat) (idle : Option Nat) : Card where
  medium := .ofSectors []
  sectors := 4
  csd := []
  timing := ⟨fun _ => delay, fun _ => token, fun _ => 3⟩
  accepts n := n % 2 = 0
  checksum _ := [0, 0]
  slow := 5
  idle := idle
  app := false
  served := 0
  selected := false
  receiver := .command []
  out := []
  busy := 0

/-- What the program sees of the card, and what the card then holds, is what a disk makes of the requests. -/
theorem session_serve (card : Card) (free : card.Free) (ready : card.isReady = true)
    (behind : ∀ n, 1 ≤ card.timing.response n) (short : ∀ n, card.timing.busy n ≤ 65536) (requests : List Request) :
    Ends Card.respond (session requests) card fun results after =>
      (results, after.medium) = serve card.sectors card.timing card.accepts card.served card.medium requests :=
  ends_session free ready behind (fun n _ => short n) requests

theorem session_serve_blank :
    Ends Card.respond (session [.write 3 ⟨List.replicate 512 7, List.length_replicate⟩,
        .write 3 ⟨List.replicate 512 8, List.length_replicate⟩, .read 3]) (blankCard 2 9 (some 0))
      fun results after =>
        (results, after.medium) = serve 4 (blankCard 2 9 (some 0)).timing (blankCard 2 9 (some 0)).accepts 0
          (.ofSectors []) [.write 3 ⟨List.replicate 512 7, List.length_replicate⟩,
            .write 3 ⟨List.replicate 512 8, List.length_replicate⟩, .read 3] :=
  session_serve (blankCard 2 9 (some 0)) ⟨rfl, fun on => absurd on Bool.false_ne_true⟩ rfl (fun _ => Nat.le_succ 1)
    (fun _ => show 3 ≤ 65536 by decide) _

/-- The functions are registered, and if that went well the requests are made. -/
def registerAndServe (callbacks : Callbacks) (response : UInt8) (requests : List Request) :
    Code (Status × List (Status × List UInt8)) := do
  let (_, status) ← sdRegister callbacks response
  if status = .ok then
    let results ← session requests
    pure (status, results)
  else pure (status, [])

/-- The result of a request to a card whose response is the second byte behind a command. -/
def readOnly (card : Card) : Request → Status × List UInt8
  | .read lba => if lba % 8388608 < card.sectors then (.ok, card.medium.bytes (lba % 8388608)) else (.rwFail, [])
  | .write _ _ => (.rwFail, [])

theorem attempt_readOnly {n : Nat} (second : card.timing.response n = 1) (soon : card.timing.token n ≤ 510)
    (request : Request) :
    attempt card.sectors card.timing card.accepts n card.medium request = (readOnly card request, card.medium) := by
  have heard : card.timing.response n + card.timing.token n ≤ 511 := by omega
  cases request with
  | write lba buffer => exact if_neg fun both => absurd (of_decide_eq_true both.2).1 (by omega)
  | read lba =>
    by_cases inside : lba % 8388608 < card.sectors
    · rw [readOnly, if_pos inside]
      exact if_pos ⟨inside, decide_eq_true heard⟩
    · rw [readOnly, if_neg inside]
      exact if_neg fun both => inside both.1

theorem serve_readOnly (second : ∀ n, card.timing.response n = 1) (soon : ∀ n, card.timing.token n ≤ 510) (n : Nat)
    (requests : List Request) :
    serve card.sectors card.timing card.accepts n card.medium requests =
      (requests.map (readOnly card), card.medium) := by
  induction requests generalizing n with
  | nil => rfl
  | cons request requests ih =>
    rw [serve, attempt_readOnly (second n) (soon n), ih]
    rfl

/-- A card that is accepted is one that cannot be written, if its responses always take the same time. -/
theorem registerAndServe_readOnly (card : Card) {delay : Nat} {callbacks : Callbacks} (response : UInt8)
    (requests : List Request) (registered : callbacks.select && callbacks.xchg && callbacks.deselect)
    (rested : card.busy ≤ 10) (steady : ∀ n, card.timing.response n = delay)
    (soon : ∀ n, card.timing.token n ≤ 510) :
    Ends Card.respond (registerAndServe callbacks response requests) card fun out after =>
      out = (startup delay card.slow, if startup delay card.slow = .ok then requests.map (readOnly card) else []) ∧
      after.medium = card.medium := by
  apply (ends_register registered response rested steady).bind
  rintro started after ⟨rfl, same, ready⟩
  by_cases accepted : startup delay card.slow = .ok
  · have one : delay = 1 := by
      by_contra other
      rw [startup, if_pos other] at accepted
      cases accepted
    subst one
    have second : ∀ n, after.timing.response n = 1 := by
      intro n
      rw [same.timing]
      exact steady n
    have early : ∀ n, after.timing.token n ≤ 510 := by
      intro n
      rw [same.timing]
      exact soon n
    have alike : readOnly after = readOnly card := by
      funext request
      cases request <;> simp only [readOnly, same.medium, same.sectors]
    simp only [if_pos accepted]
    apply (ends_session same.toFree (ready accepted) (fun n => (second n).ge)
      (fun n late => absurd late (by rw [second]; decide)) requests).bind
    intro results final served
    rw [serve_readOnly second early, Prod.mk.injEq, alike, same.medium] at served
    exact ends_pure ⟨by rw [served.1], served.2⟩
  · simp only [if_neg accepted]
    exact ends_pure ⟨rfl, same.medium⟩

theorem registerAndServe_readOnly_blank :
    Ends Card.respond (registerAndServe ⟨true, true, true, false⟩ 0 [.read 1, .read 5]) (blankCard 1 9 none)
      fun out after =>
        out = (startup 1 5, if startup 1 5 = .ok then [.read 1, .read 5].map (readOnly (blankCard 1 9 none)) else []) ∧
        after.medium = .ofSectors [] :=
  registerAndServe_readOnly (blankCard 1 9 none) 0 [.read 1, .read 5] rfl (show 0 ≤ 10 by decide) (fun _ => rfl)
    (fun _ => show 9 ≤ 510 by decide)

end Minimus32.SdCard
