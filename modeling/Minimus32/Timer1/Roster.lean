import Minimus32.Timer1.Run

namespace Minimus32.Timer1

open Linked

variable {Ptr Fn Data : Type}

/-- The clock without pointers: the structs of the chain in order. -/
structure Roster (Ptr Fn Data : Type) where
  walltimer : WallTime
  cells : List Ptr
  entries : Ptr → Entry Fn Data

structure Clock.Represents (c : Clock Ptr Fn Data) (r : Roster Ptr Fn Data) : Prop where
  holds : c.links.Holds r.cells
  walltimer : c.walltimer = r.walltimer
  entries : ∀ p, (c.structs p).toEntry = r.entries p

def Roster.start (c : Clock Ptr Fn Data) : Roster Ptr Fn Data := ⟨.zero, [], fun p => (c.structs p).toEntry⟩

theorem Clock.init_represents (c : Clock Ptr Fn Data) : c.init.Represents (.start c) :=
  ⟨rfl, rfl, fun _ => rfl⟩

/-- The clock as it stands, with the structs its chain is known to hold. -/
def Clock.roster (c : Clock Ptr Fn Data) (cells : List Ptr) : Roster Ptr Fn Data :=
  ⟨c.walltimer, cells, fun p => (c.structs p).toEntry⟩

theorem Clock.roster_represents {c : Clock Ptr Fn Data} {cells : List Ptr} (chain : c.links.Holds cells) :
    c.Represents (c.roster cells) :=
  ⟨chain, rfl, fun _ => rfl⟩

section Abstract

variable [DecidableEq Ptr]

def Roster.registerCallback (r : Roster Ptr Fn Data) (sec msec : UInt16) (recurring : UInt8)
    (callback : Fn) (userData : Data) (p : Ptr) : Roster Ptr Fn Data :=
  { r with
    cells := enqueue r.cells p
    entries := Function.update r.entries p (.arm r.walltimer sec msec recurring callback userData) }

def Roster.unregisterCallback (r : Roster Ptr Fn Data) (p : Ptr) : Roster Ptr Fn Data :=
  { r with cells := r.cells.erase p }

def Roster.fire (r : Roster Ptr Fn Data) (p : Ptr) : Roster Ptr Fn Data :=
  let e := r.entries p
  if e.recurring ≠ 0 then
    r.registerCallback e.time.freerunningSec e.recurringMsec e.recurring e.callback e.userData p
  else r.unregisterCallback p

theorem Roster.fire_of_recurring (r : Roster Ptr Fn Data) {p : Ptr} (recurring : (r.entries p).recurring ≠ 0) :
    r.fire p = r.registerCallback (r.entries p).time.freerunningSec (r.entries p).recurringMsec
      (r.entries p).recurring (r.entries p).callback (r.entries p).userData p := if_pos recurring

theorem Roster.fire_of_oneShot (r : Roster Ptr Fn Data) {p : Ptr} (oneShot : (r.entries p).recurring = 0) :
    r.fire p = r.unregisterCallback p := if_neg (not_not_intro oneShot)

def Roster.due (r : Roster Ptr Fn Data) (p : Ptr) : Bool := r.walltimer.Expired (r.entries p).time

def Roster.advance (r : Roster Ptr Fn Data) : Roster Ptr Fn Data :=
  { r with walltimer := r.walltimer.advance }

def Roster.found (r : Roster Ptr Fn Data) : Option Ptr := r.cells.find? r.advance.due

def Roster.isrAtomic (r : Roster Ptr Fn Data) : Roster Ptr Fn Data :=
  match r.found with
  | none => r.advance
  | some p => r.advance.fire p

def Roster.perform (r : Roster Ptr Fn Data) : Op Ptr Fn Data → Roster Ptr Fn Data
  | .register sec msec recurring callback userData p =>
    r.registerCallback sec msec recurring callback userData p
  | .unregister p => r.unregisterCallback p

def Roster.performAll (r : Roster Ptr Fn Data) (ops : List (Op Ptr Fn Data)) : Roster Ptr Fn Data :=
  ops.foldl Roster.perform r

def Roster.isr (r : Roster Ptr Fn Data) (body : Fn → Data → List (Op Ptr Fn Data)) :
    Roster Ptr Fn Data × List (Observation Ptr) :=
  match r.found with
  | none => (r.advance, [.ticked])
  | some p =>
    let ops := body (r.entries p).callback (r.entries p).userData
    ((r.advance.fire p).performAll ops, .ticked :: .invoked p :: ops.map Op.observation)

def Roster.step (r : Roster Ptr Fn Data) : Event Ptr Fn Data → Roster Ptr Fn Data × List (Observation Ptr)
  | .op o => (r.perform o, [o.observation])
  | .tick body => r.isr body

def Roster.run : Roster Ptr Fn Data → List (Event Ptr Fn Data) → Roster Ptr Fn Data × List (Observation Ptr)
  | r, [] => (r, [])
  | r, e :: events =>
    let first := r.step e
    let rest := Roster.run first.1 events
    (rest.1, first.2 ++ rest.2)

theorem Roster.step_quiet (r : Roster Ptr Fn Data) :
    r.step .quiet = (r.isrAtomic, .ticked :: r.found.toList.map .invoked) := by
  simp only [Roster.step, Event.quiet, Roster.isr, Roster.isrAtomic]
  cases r.found <;> rfl

theorem Roster.run_append (r : Roster Ptr Fn Data) (left right : List (Event Ptr Fn Data)) :
    r.run (left ++ right) = (((r.run left).1.run right).1, (r.run left).2 ++ ((r.run left).1.run right).2) := by
  induction left generalizing r with
  | nil => rfl
  | cons e left ih => simp only [List.cons_append, Roster.run, ih, List.append_assoc]

end Abstract

section Links

variable [DecidableEq Ptr]

theorem Clock.links_store (c : Clock Ptr Fn Data) (slot : Slot Ptr) (value : Option Ptr) :
    (c.store slot value).links = c.links.store slot value := by
  cases slot with
  | head => rfl
  | after p =>
    simp only [Clock.store, Clock.setNext, Clock.setStruct, Clock.links, Links.store, Links.mk.injEq, true_and]
    funext q
    by_cases same : q = p
    · subst q
      simp
    · simp [Function.update_of_ne same]

theorem Clock.links_setNext (c : Clock Ptr Fn Data) (p : Ptr) (value : Option Ptr) :
    (c.setNext p value).links = c.links.store (.after p) value := c.links_store (.after p) value

theorem Clock.links_setEntry (c : Clock Ptr Fn Data) (p : Ptr) (e : Entry Fn Data) :
    (c.setEntry p e).links = c.links := by
  simp only [Clock.setEntry, Clock.setStruct, Clock.links, Links.mk.injEq, true_and]
  funext q
  by_cases same : q = p
  · subst q
    simp
  · simp [Function.update_of_ne same]

theorem Clock.setNext_entry (c : Clock Ptr Fn Data) (p q : Ptr) (value : Option Ptr) :
    ((c.setNext p value).structs q).toEntry = (c.structs q).toEntry := by
  by_cases same : q = p
  · subst q
    simp [Clock.setNext, Clock.setStruct]
  · simp [Clock.setNext, Clock.setStruct, Function.update_of_ne same]

theorem Clock.store_entry (c : Clock Ptr Fn Data) (slot : Slot Ptr) (q : Ptr) (value : Option Ptr) :
    ((c.store slot value).structs q).toEntry = (c.structs q).toEntry := by
  cases slot with
  | head => rfl
  | after p => exact c.setNext_entry p q value

theorem Clock.store_walltimer (c : Clock Ptr Fn Data) (slot : Slot Ptr) (value : Option Ptr) :
    (c.store slot value).walltimer = c.walltimer := by
  cases slot <;> rfl

end Links

section Refinement

variable [DecidableEq Ptr]

theorem Clock.insertLoop_eq (c : Clock Ptr Fn Data) (p : Ptr) (cells : List Ptr) (fuel : Nat) (slot : Slot Ptr)
    (path : Segment c.links.next (c.links.load slot) cells none) (enough : cells.length < fuel) :
    c.insertLoop p fuel slot =
      some (if p ∈ cells then c else (c.store (endSlot slot cells) (some p)).setNext p none) := by
  induction cells generalizing fuel slot with
  | nil =>
    obtain ⟨fuel, rfl⟩ := Nat.exists_eq_succ_of_ne_zero (Nat.ne_zero_of_lt enough)
    have empty : c.links.load slot = none := path
    simp [Clock.insertLoop, empty, endSlot]
  | cons q cells ih =>
    obtain ⟨fuel, rfl⟩ := Nat.exists_eq_succ_of_ne_zero (Nat.ne_zero_of_lt enough)
    have here : c.links.load slot = some q := path.1
    by_cases hit : q = p
    · subst q
      simp [Clock.insertLoop, here]
    · have later := ih fuel (.after q) path.2 (by simpa using enough)
      have other : p ≠ q := Ne.symm hit
      simp only [Clock.insertLoop, here, Option.some.injEq, hit, if_false, later, List.mem_cons, other,
        false_or, endSlot]

theorem Clock.Represents.insertIntoChain {c : Clock Ptr Fn Data} {r : Roster Ptr Fn Data}
    (rep : c.Represents r) (p : Ptr) {fuel : Nat} (enough : r.cells.length < fuel) :
    ∃ after, c.insertIntoChain fuel p = some after ∧
      after.Represents { r with cells := enqueue r.cells p } := by
  refine ⟨_, c.insertLoop_eq p r.cells fuel .head rep.holds enough, ?_⟩
  by_cases present : p ∈ r.cells
  · rw [if_pos present, enqueue_of_mem present]
    exact rep
  · rw [if_neg present]
    refine ⟨?_, ?_, ?_⟩
    · rw [Clock.links_setNext, Clock.links_store, enqueue, if_neg present]
      exact rep.holds.append present
    · exact (c.store_walltimer _ _).trans rep.walltimer
    · intro q
      rw [Clock.setNext_entry, Clock.store_entry]
      exact rep.entries q

theorem Clock.Represents.registerCallback {c : Clock Ptr Fn Data} {r : Roster Ptr Fn Data}
    (rep : c.Represents r) {fuel : Nat} (enough : r.cells.length < fuel) (sec msec : UInt16)
    (recurring : UInt8) (callback : Fn) (userData : Data) (p : Ptr) :
    ∃ after, c.registerCallback fuel sec msec recurring callback userData p = some after ∧
      after.Represents (r.registerCallback sec msec recurring callback userData p) := by
  obtain ⟨inserted, done, repInserted⟩ := rep.insertIntoChain p enough
  refine ⟨inserted.setEntry p (.arm inserted.walltimer sec msec recurring callback userData), ?_, ?_,
    repInserted.walltimer, ?_⟩
  · rw [Clock.registerCallback, done, Option.map_some]
  · rw [Clock.links_setEntry]
    exact repInserted.holds
  · intro q
    by_cases same : q = p
    · subst q
      simp [Clock.setEntry, Clock.setStruct, Roster.registerCallback, repInserted.walltimer]
    · simp only [Clock.setEntry, Clock.setStruct, Roster.registerCallback, Function.update_of_ne same]
      exact repInserted.entries q

theorem Clock.unregisterLoop_eq (c : Clock Ptr Fn Data) (p : Ptr) (previous : Ptr) (cells : List Ptr) (fuel : Nat)
    (next : Option Ptr) (path : Segment c.links.next next cells none) (enough : cells.length < fuel) :
    (p ∉ cells ∧ c.unregisterLoop p fuel previous next = some c) ∨
      ∃ front before back, previous :: cells = front ++ before :: p :: back ∧
        c.unregisterLoop p fuel previous next = some (c.setNext before (c.structs p).next) := by
  induction cells generalizing fuel previous next with
  | nil =>
    obtain ⟨fuel, rfl⟩ := Nat.exists_eq_succ_of_ne_zero (Nat.ne_zero_of_lt enough)
    have empty : next = none := path
    subst next
    exact .inl ⟨List.not_mem_nil, rfl⟩
  | cons q cells ih =>
    obtain ⟨fuel, rfl⟩ := Nat.exists_eq_succ_of_ne_zero (Nat.ne_zero_of_lt enough)
    have here : next = some q := path.1
    subst next
    by_cases hit : q = p
    · subst q
      exact .inr ⟨[], previous, cells, rfl, by simp [Clock.unregisterLoop]⟩
    · have unfolded : c.unregisterLoop p (fuel + 1) previous (some q) =
          c.unregisterLoop p fuel q (c.structs q).next := by simp [Clock.unregisterLoop, hit]
      rcases ih q fuel (c.structs q).next path.2 (by simpa using enough) with
        ⟨absent, kept⟩ | ⟨front, before, back, split, changed⟩
      · exact .inl ⟨by simp [absent, Ne.symm hit], unfolded.trans kept⟩
      · exact .inr ⟨previous :: front, before, back, by rw [split]; rfl, unfolded.trans changed⟩

theorem Clock.Represents.unregisterCallback {c : Clock Ptr Fn Data} {r : Roster Ptr Fn Data}
    (rep : c.Represents r) {fuel : Nat} (enough : r.cells.length < fuel) (p : Ptr) :
    ∃ after, c.unregisterCallback fuel p = some after ∧ after.Represents (r.unregisterCallback p) := by
  have headEq : c.chain = r.cells.head? := rep.holds.head_eq
  have holds := rep.holds
  unfold Clock.unregisterCallback Roster.unregisterCallback
  cases shape : r.cells with
  | nil =>
    rw [shape] at headEq holds
    simp only [headEq, List.head?_nil]
    exact ⟨c, rfl, holds, rep.walltimer, rep.entries⟩
  | cons head rest =>
    rw [shape] at headEq holds enough
    simp only [headEq, List.head?_cons]
    by_cases hit : head = p
    · subst head
      refine ⟨{ c with chain := (c.structs p).next }, ?_, ?_⟩
      · by_cases last : (c.structs p).next = none <;> simp [last]
      · refine ⟨?_, rep.walltimer, rep.entries⟩
        simp only [List.erase_cons_head]
        exact holds.drop_head
    · rw [if_neg hit]
      rcases c.unregisterLoop_eq p head rest fuel (c.structs head).next holds.2
        (by simp only [List.length_cons] at enough; omega) with
        ⟨absent, kept⟩ | ⟨front, before, back, split, changed⟩
      · refine ⟨c, kept, ?_, rep.walltimer, rep.entries⟩
        rw [List.erase_of_not_mem (by simp [absent, Ne.symm hit])]
        exact holds
      · refine ⟨_, changed, ?_, rep.walltimer, ?_⟩
        · rw [Clock.links_setNext, split, erase_after (split ▸ holds.nodup)]
          exact Links.Holds.unlink (split ▸ holds)
        · intro q
          exact (c.setNext_entry _ _ _).trans (rep.entries q)

theorem Clock.Represents.check {c : Clock Ptr Fn Data} {r : Roster Ptr Fn Data} (rep : c.Represents r)
    {fuel : Nat} (enough : r.cells.length < fuel) (p : Ptr) (due : r.due p = true) :
    ∃ after, c.check fuel p = some (after, true) ∧ after.Represents (r.fire p) := by
  have expired : r.walltimer.Expired (r.entries p).time := by simpa [Roster.due] using due
  simp only [Clock.check, Roster.fire, rep.walltimer, rep.entries p, expired, if_true]
  by_cases recurring : (r.entries p).recurring = 0
  · obtain ⟨after, done, repAfter⟩ := rep.unregisterCallback enough p
    simp only [recurring, ne_eq, not_true_eq_false, if_false, done, Option.map_some]
    exact ⟨after, rfl, repAfter⟩
  · obtain ⟨after, done, repAfter⟩ := rep.registerCallback enough (r.entries p).time.freerunningSec
      (r.entries p).recurringMsec (r.entries p).recurring (r.entries p).callback (r.entries p).userData p
    simp only [recurring, ne_eq, not_false_eq_true, if_true, done, Option.map_some]
    exact ⟨after, rfl, repAfter⟩

theorem Clock.Represents.check_false {c : Clock Ptr Fn Data} {r : Roster Ptr Fn Data} (rep : c.Represents r)
    (fuel : Nat) (p : Ptr) (early : r.due p = false) : c.check fuel p = some (c, false) := by
  have pending : ¬ r.walltimer.Expired (r.entries p).time := by simpa [Roster.due] using early
  simp only [Clock.check, rep.walltimer, rep.entries p, pending, if_false]

theorem Clock.Represents.isrWalk {c : Clock Ptr Fn Data} {r : Roster Ptr Fn Data} (rep : c.Represents r)
    {checkFuel : Nat} (enough : r.cells.length < checkFuel) (rest : List Ptr) (fuel : Nat) (next : Option Ptr)
    (path : Segment c.links.next next rest none) (walk : rest.length < fuel) :
    ∃ after, c.isrWalk checkFuel fuel next = some (after, rest.find? r.due) ∧
      after.Represents (match rest.find? r.due with | none => r | some p => r.fire p) := by
  induction rest generalizing fuel next with
  | nil =>
    obtain ⟨fuel, rfl⟩ := Nat.exists_eq_succ_of_ne_zero (Nat.ne_zero_of_lt walk)
    have empty : next = none := path
    subst next
    exact ⟨c, rfl, rep⟩
  | cons p rest ih =>
    obtain ⟨fuel, rfl⟩ := Nat.exists_eq_succ_of_ne_zero (Nat.ne_zero_of_lt walk)
    have here : next = some p := path.1
    subst next
    cases due : r.due p with
    | true =>
      obtain ⟨after, done, repAfter⟩ := rep.check enough p due
      refine ⟨after, ?_, ?_⟩
      · simp [Clock.isrWalk, done, due]
      · simpa [List.find?_cons, due] using repAfter
    | false =>
      have unfolded : c.isrWalk checkFuel (fuel + 1) (some p) =
          c.isrWalk checkFuel fuel (c.structs p).next := by
        simp [Clock.isrWalk, rep.check_false checkFuel p due]
      rw [unfolded, List.find?_cons, due]
      exact ih fuel (c.structs p).next path.2 (by simpa using walk)

theorem Clock.Represents.isrAtomic {c : Clock Ptr Fn Data} {r : Roster Ptr Fn Data} (rep : c.Represents r)
    {fuel : Nat} (enough : r.cells.length < fuel) :
    ∃ after, c.isrAtomic fuel = some (after, r.found) ∧ after.Represents r.isrAtomic := by
  have advanced : ({ c with walltimer := c.walltimer.advance } : Clock Ptr Fn Data).Represents r.advance :=
    ⟨rep.holds, by rw [rep.walltimer]; rfl, rep.entries⟩
  exact advanced.isrWalk enough r.cells fuel c.chain rep.holds enough

theorem Roster.isrAtomic_entry (r : Roster Ptr Fn Data) {p : Ptr} (found : r.found = some p) :
    (r.isrAtomic.entries p).callback = (r.entries p).callback ∧
      (r.isrAtomic.entries p).userData = (r.entries p).userData ∧
      (r.isrAtomic.entries p).recurring = (r.entries p).recurring := by
  simp only [Roster.isrAtomic, found]
  by_cases oneShot : (r.entries p).recurring = 0
  · rw [r.advance.fire_of_oneShot oneShot]
    exact ⟨rfl, rfl, rfl⟩
  · rw [r.advance.fire_of_recurring oneShot]
    simp [Roster.registerCallback, Roster.advance, Entry.arm]

end Refinement

section Runs

variable [Fintype Ptr]

theorem Clock.Represents.enough {c : Clock Ptr Fn Data} {r : Roster Ptr Fn Data} (rep : c.Represents r)
    {fuel : Nat} (enough : Fintype.card Ptr < fuel) : r.cells.length < fuel :=
  Nat.lt_of_le_of_lt rep.holds.length_le enough

variable [DecidableEq Ptr]

theorem Clock.Represents.perform {c : Clock Ptr Fn Data} {r : Roster Ptr Fn Data} (rep : c.Represents r)
    {fuel : Nat} (enough : Fintype.card Ptr < fuel) (o : Op Ptr Fn Data) :
    ∃ after, c.perform fuel o = some after ∧ after.Represents (r.perform o) := by
  cases o with
  | register sec msec recurring callback userData p =>
    exact rep.registerCallback (rep.enough enough) sec msec recurring callback userData p
  | unregister p => exact rep.unregisterCallback (rep.enough enough) p

theorem Clock.Represents.performAll {c : Clock Ptr Fn Data} {r : Roster Ptr Fn Data} (rep : c.Represents r)
    {fuel : Nat} (enough : Fintype.card Ptr < fuel) (ops : List (Op Ptr Fn Data)) :
    ∃ after, TracedRun.run (Clock.opStep fuel) c ops = some (after, ops.map Op.observation) ∧
      after.Represents (r.performAll ops) := by
  induction ops generalizing c r with
  | nil => exact ⟨c, rfl, rep⟩
  | cons o ops ih =>
    obtain ⟨middle, first, repMiddle⟩ := rep.perform enough o
    obtain ⟨after, rest, repAfter⟩ := ih repMiddle
    refine ⟨after, TracedRun.run_cons_eq_some.mpr ⟨middle, [o.observation], _, ?_, rest, rfl⟩, repAfter⟩
    rw [Clock.opStep, first, Option.map_some]

theorem Clock.Represents.isr {c : Clock Ptr Fn Data} {r : Roster Ptr Fn Data} (rep : c.Represents r)
    {fuel : Nat} (enough : Fintype.card Ptr < fuel) (body : Fn → Data → List (Op Ptr Fn Data)) :
    ∃ after, c.isr fuel body = some (after, (r.isr body).2) ∧ after.Represents (r.isr body).1 := by
  obtain ⟨middle, walked, repMiddle⟩ := rep.isrAtomic (rep.enough enough)
  cases found : r.found with
  | none =>
    rw [found] at walked
    refine ⟨middle, ?_, ?_⟩
    · simp [Clock.isr, walked, Roster.isr, found]
    · simpa [Roster.isr, Roster.isrAtomic, found] using repMiddle
  | some p =>
    rw [found] at walked
    obtain ⟨callback, userData, _⟩ := r.isrAtomic_entry found
    obtain ⟨after, called, repAfter⟩ :=
      repMiddle.performAll enough (body (r.entries p).callback (r.entries p).userData)
    refine ⟨after, ?_, ?_⟩
    · simp [Clock.isr, walked, Roster.isr, found, repMiddle.entries p, callback, userData, called]
    · simpa [Roster.isr, Roster.isrAtomic, found] using repAfter

theorem Clock.Represents.step {c : Clock Ptr Fn Data} {r : Roster Ptr Fn Data} (rep : c.Represents r)
    {fuel : Nat} (enough : Fintype.card Ptr < fuel) (e : Event Ptr Fn Data) :
    ∃ after, c.step fuel e = some (after, (r.step e).2) ∧ after.Represents (r.step e).1 := by
  cases e with
  | op o =>
    obtain ⟨after, done, repAfter⟩ := rep.perform enough o
    exact ⟨after, by rw [Clock.step, Clock.opStep, done]; rfl, repAfter⟩
  | tick body => exact rep.isr enough body

/-- The pointer program and the list program take the same run. -/
theorem Clock.Represents.run {c : Clock Ptr Fn Data} {r : Roster Ptr Fn Data} (rep : c.Represents r)
    {fuel : Nat} (enough : Fintype.card Ptr < fuel) (events : List (Event Ptr Fn Data)) :
    ∃ after, c.run fuel events = some (after, (r.run events).2) ∧ after.Represents (r.run events).1 := by
  induction events generalizing c r with
  | nil => exact ⟨c, rfl, rep⟩
  | cons e events ih =>
    obtain ⟨middle, first, repMiddle⟩ := rep.step enough e
    obtain ⟨after, rest, repAfter⟩ := ih repMiddle
    exact ⟨after, TracedRun.run_cons_eq_some.mpr ⟨middle, _, _, first, rest, rfl⟩, repAfter⟩

end Runs

end Minimus32.Timer1
