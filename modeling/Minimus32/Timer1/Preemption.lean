import Minimus32.Library.Cursor
import Minimus32.Timer1.Removal
import Minimus32.Timer1.Schedule

namespace Minimus32.Timer1

open Linked

variable {Ptr Fn Data : Type}

section Machine

variable [DecidableEq Ptr]

def Point.atHead : Point → Bool
  | .testEmpty | .testHead | .testHeadLast | .advanceHead | .readNext => true
  | _ => false

def Point.walking : Point → Bool
  | .testNext | .testHit | .movePrevious | .moveNext | .unlink => true
  | _ => false

/-- The structs the statements to come rely on: the head of the chain until it has been dealt with, then
    `next`, and `previous` too once `next` is the struct to remove. -/
def Removal.held (m : Removal Ptr Fn Data) : List Ptr :=
  if m.point.atHead then m.clock.chain.toList
  else if m.point.walking then
    m.next.toList ++ if m.next = some m.callbackStruct then m.previous.toList else []
  else []

def Removal.Permits (m : Removal Ptr Fn Data) : Op Ptr Fn Data → Prop
  | .register _ _ _ _ _ p => m.point ≠ .clearHead ∧ (m.point ≠ .readHead → p ≠ m.callbackStruct)
  | .unregister p => p ∉ m.held

/-- An interrupt at this point unlinks no struct the removal holds, does not register the struct being
    removed, and registers nothing when the chain is about to be cleared. -/
def Removal.Spared (fuel : Nat) (m : Removal Ptr Fn Data) : Action Ptr Fn Data → Prop
  | .statement => True
  | .interrupt body => ∀ after p, m.clock.isrAtomic fuel = some (after, some p) →
      ((after.structs p).recurring = 0 → p ∉ m.held) ∧
        ∀ o ∈ body (after.structs p).callback (after.structs p).userData, m.Permits o

end Machine

section Place

/-- What a removal at this point knows of the structs on the chain. -/
def Removal.Place (m : Removal Ptr Fn Data) (cells : List Ptr) : Prop :=
  match m.point with
  | .readHead => True
  | .testEmpty => m.callbackStruct ∈ cells → m.previous = cells.head?
  | .testHead => ∃ head, cells.head? = some head ∧ (m.callbackStruct ∈ cells → m.previous = some head)
  | .testHeadLast | .advanceHead => cells.head? = some m.callbackStruct
  | .clearHead => ∀ p ∈ cells, p = m.callbackStruct
  | .readNext => ∃ head, cells.head? = some head ∧ head ≠ m.callbackStruct ∧
      (m.callbackStruct ∈ cells → m.previous = some head)
  | .testNext => (m.next = none ∧ m.callbackStruct ∉ cells) ∨
      ∃ q, m.next = some q ∧ Cursor m.callbackStruct m.previous q cells
  | .testHit => ∃ q, m.next = some q ∧ Cursor m.callbackStruct m.previous q cells
  | .movePrevious => ∃ q, m.next = some q ∧ q ≠ m.callbackStruct ∧ Cursor m.callbackStruct m.previous q cells
  | .moveNext => ∃ q, m.next = some q ∧ m.previous = some q ∧ q ≠ m.callbackStruct ∧
      Cursor m.callbackStruct m.previous q cells
  | .unlink => m.next = some m.callbackStruct ∧ Cursor m.callbackStruct m.previous m.callbackStruct cells
  | .skipNext => m.next = some m.callbackStruct ∧ m.callbackStruct ∉ cells
  | .returned => m.callbackStruct ∉ cells

structure Removal.Kept (m : Removal Ptr Fn Data) (start cells : List Ptr) : Prop where
  place : m.Place cells
  head : m.point.atHead = true → ∀ head, start.head? = some head → cells.head? = some head
  absent : m.point ≠ .readHead → m.callbackStruct ∉ start → m.callbackStruct ∉ cells

theorem Removal.Place.head_exists {m : Removal Ptr Fn Data} {cells : List Ptr} (place : m.Place cells)
    (front : m.point.atHead = true) (needed : m.callbackStruct ∈ cells ∨ m.point ≠ .testEmpty) :
    ∃ head, cells.head? = some head := by
  unfold Removal.Place at place
  cases point : m.point <;> simp only [point, Point.atHead, Bool.false_eq_true] at place front
  case testEmpty =>
    have member : m.callbackStruct ∈ cells := needed.resolve_right (by simp [point])
    exact ⟨_, List.head?_eq_some_head (List.ne_nil_of_mem member)⟩
  case testHead => exact ⟨place.choose, place.choose_spec.1⟩
  case testHeadLast => exact ⟨_, place⟩
  case advanceHead => exact ⟨_, place⟩
  case readNext => exact ⟨place.choose, place.choose_spec.1⟩

theorem Removal.Place.absent {m : Removal Ptr Fn Data} {cells : List Ptr} (place : m.Place cells)
    (gone : m.point = .skipNext ∨ m.point = .returned) : m.callbackStruct ∉ cells := by
  unfold Removal.Place at place
  rcases gone with point | point <;> rw [point] at place
  · exact place.2
  · exact place

theorem Point.not_atHead_of_walking {point : Point} (walking : point.walking = true) : point.atHead = false := by
  cases point <;> simp_all [Point.walking, Point.atHead]

variable [DecidableEq Ptr]

theorem mem_of_mem_enqueue {target p : Ptr} {cells : List Ptr} (other : p ≠ target)
    (member : target ∈ enqueue cells p) : target ∈ cells := by
  rcases mem_enqueue.mp member with present | same
  · exact present
  · exact absurd same.symm other

theorem Removal.Place.enqueue {m : Removal Ptr Fn Data} {cells : List Ptr} (place : m.Place cells) {p : Ptr}
    (busy : m.point ≠ .clearHead) (other : m.point ≠ .readHead → p ≠ m.callbackStruct) :
    m.Place (enqueue cells p) := by
  unfold Removal.Place at place ⊢
  have stays : m.point ≠ .readHead → m.callbackStruct ∈ Linked.enqueue cells p → m.callbackStruct ∈ cells :=
    fun begun => mem_of_mem_enqueue (other begun)
  cases point : m.point <;> simp only [point, ne_eq, reduceCtorEq, not_false_eq_true, not_true_eq_false,
    forall_const] at place busy stays ⊢
  case testEmpty =>
    intro member
    have present := stays member
    rw [place present, List.head?_eq_some_head (List.ne_nil_of_mem present),
      head?_enqueue (List.head?_eq_some_head (List.ne_nil_of_mem present))]
  case testHead =>
    obtain ⟨head, first, known⟩ := place
    exact ⟨head, head?_enqueue first p, fun member => known (stays member)⟩
  case testHeadLast => exact head?_enqueue place p
  case advanceHead => exact head?_enqueue place p
  case readNext =>
    obtain ⟨head, first, miss, known⟩ := place
    exact ⟨head, head?_enqueue first p, miss, fun member => known (stays member)⟩
  case testNext =>
    rcases place with ⟨ended, absent⟩ | ⟨q, next, cursor⟩
    · exact .inl ⟨ended, fun member => absent (stays member)⟩
    · exact .inr ⟨q, next, cursor.enqueue p⟩
  case testHit =>
    obtain ⟨q, next, cursor⟩ := place
    exact ⟨q, next, cursor.enqueue p⟩
  case movePrevious =>
    obtain ⟨q, next, miss, cursor⟩ := place
    exact ⟨q, next, miss, cursor.enqueue p⟩
  case moveNext =>
    obtain ⟨q, next, previous, miss, cursor⟩ := place
    exact ⟨q, next, previous, miss, cursor.enqueue p⟩
  case unlink => exact ⟨place.1, place.2.enqueue p⟩
  case skipNext => exact ⟨place.1, fun member => place.2 (stays member)⟩
  case returned => exact fun member => place (stays member)

theorem Removal.Place.erase {m : Removal Ptr Fn Data} {cells : List Ptr} (place : m.Place cells) {p : Ptr}
    (front : m.point.atHead = true → m.callbackStruct ∈ cells ∨ m.point ≠ .testEmpty → cells.head? ≠ some p)
    (walk : m.point.walking = true → m.next ≠ some p)
    (behind : m.point.walking = true → m.next = some m.callbackStruct → m.previous ≠ some p) :
    m.Place (cells.erase p) := by
  unfold Removal.Place at place ⊢
  have stays : m.callbackStruct ∈ cells.erase p → m.callbackStruct ∈ cells := List.mem_of_mem_erase
  cases point : m.point <;> simp only [point, Point.atHead, Point.walking, ne_eq, reduceCtorEq, not_false_eq_true,
    not_true_eq_false, forall_const, or_true, or_false, Bool.false_eq_true, false_implies] at place front walk behind ⊢
  case testEmpty =>
    intro member
    have present := stays member
    have first := List.head?_eq_some_head (List.ne_nil_of_mem present)
    have other := front present
    rw [first, Option.some.injEq] at other
    rw [place present, first, head?_erase first (Ne.symm other)]
  case testHead =>
    obtain ⟨head, first, known⟩ := place
    rw [first, Option.some.injEq] at front
    exact ⟨head, head?_erase first (Ne.symm front), fun member => known (stays member)⟩
  case testHeadLast =>
    rw [place, Option.some.injEq] at front
    exact head?_erase place (Ne.symm front)
  case advanceHead =>
    rw [place, Option.some.injEq] at front
    exact head?_erase place (Ne.symm front)
  case clearHead => exact fun q member => place q (List.mem_of_mem_erase member)
  case readNext =>
    obtain ⟨head, first, miss, known⟩ := place
    rw [first, Option.some.injEq] at front
    exact ⟨head, head?_erase first (Ne.symm front), miss, fun member => known (stays member)⟩
  case testNext =>
    rcases place with ⟨ended, absent⟩ | ⟨q, next, cursor⟩
    · exact .inl ⟨ended, fun member => absent (stays member)⟩
    · rw [next, Option.some.injEq] at walk behind
      exact .inr ⟨q, next, cursor.erase (Ne.symm walk) behind⟩
  case testHit =>
    obtain ⟨q, next, cursor⟩ := place
    rw [next, Option.some.injEq] at walk behind
    exact ⟨q, next, cursor.erase (Ne.symm walk) behind⟩
  case movePrevious =>
    obtain ⟨q, next, miss, cursor⟩ := place
    rw [next, Option.some.injEq] at walk behind
    exact ⟨q, next, miss, cursor.erase (Ne.symm walk) behind⟩
  case moveNext =>
    obtain ⟨q, next, previous, miss, cursor⟩ := place
    rw [next, Option.some.injEq] at walk behind
    exact ⟨q, next, previous, miss, cursor.erase (Ne.symm walk) behind⟩
  case unlink =>
    rw [place.1, Option.some.injEq] at walk behind
    exact ⟨place.1, place.2.erase (Ne.symm walk) behind⟩
  case skipNext => exact ⟨place.1, fun member => place.2 (stays member)⟩
  case returned => exact fun member => place (stays member)

theorem Removal.Kept.enqueue {m : Removal Ptr Fn Data} {start cells : List Ptr} (kept : m.Kept start cells)
    {p : Ptr} (busy : m.point ≠ .clearHead) (other : m.point ≠ .readHead → p ≠ m.callbackStruct) :
    m.Kept start (enqueue cells p) := by
  constructor
  · exact kept.place.enqueue busy other
  · intro front head first
    exact head?_enqueue (kept.head front head first) p
  · intro begun absent member
    exact kept.absent begun absent (mem_of_mem_enqueue (other begun) member)

theorem Removal.Kept.erase {m : Removal Ptr Fn Data} {start cells : List Ptr} (kept : m.Kept start cells)
    (begun : m.Place start) (chain : m.clock.chain = start.head?) {p : Ptr} (free : p ∉ m.held) :
    m.Kept start (cells.erase p) := by
  have apart : m.point.atHead = true → ∀ head, start.head? = some head → p ≠ head := by
    intro front head first same
    apply free
    simp [Removal.held, front, chain, first, same]
  constructor
  · apply kept.place.erase
    · intro front needed
      have known : m.callbackStruct ∈ start ∨ m.point ≠ .testEmpty := by
        apply needed.imp_left
        intro member
        by_contra absent
        refine kept.absent ?_ absent member
        intro point
        simp [point, Point.atHead] at front
      obtain ⟨head, first⟩ := begun.head_exists front known
      rw [kept.head front head first]
      intro same
      exact apart front head first (Option.some.inj same).symm
    · intro walking next
      apply free
      simp [Removal.held, Point.not_atHead_of_walking walking, walking, next]
    · intro walking hit previous
      apply free
      simp [Removal.held, Point.not_atHead_of_walking walking, walking, hit, previous]
  · intro front head first
    exact head?_erase (kept.head front head first) (apart front head first)
  · intro beyond absent member
    exact kept.absent beyond absent (List.mem_of_mem_erase member)

end Place

section Interrupt

theorem Op.observation_ne_invoked (o : Op Ptr Fn Data) (p : Ptr) : o.observation ≠ .invoked p := by
  cases o <;> simp [Op.observation]

variable [DecidableEq Ptr]

def Op.edit : Op Ptr Fn Data → List Ptr → List Ptr
  | .register _ _ _ _ _ p, cells => enqueue cells p
  | .unregister p, cells => cells.erase p

theorem Roster.perform_cells (r : Roster Ptr Fn Data) (o : Op Ptr Fn Data) :
    (r.perform o).cells = o.edit r.cells := by
  cases o <;> rfl

theorem Roster.performAll_cells {keep : List Ptr → Prop} (ops : List (Op Ptr Fn Data)) (r : Roster Ptr Fn Data)
    (each : ∀ o ∈ ops, ∀ cells, keep cells → keep (o.edit cells)) (kept : keep r.cells) :
    keep (r.performAll ops).cells := by
  induction ops generalizing r with
  | nil => exact kept
  | cons o ops ih =>
    apply ih (r.perform o) (fun other member => each other (by simp [member]))
    rw [Roster.perform_cells]
    exact each o (by simp) r.cells kept

/-- A property of the chain survives an interrupt if it survives what the fired struct and its function
    do to the chain. -/
theorem Roster.isr_cells {keep : List Ptr → Prop} (r : Roster Ptr Fn Data)
    (body : Fn → Data → List (Op Ptr Fn Data)) (kept : keep r.cells)
    (fired : ∀ p, r.found = some p → (r.entries p).recurring = 0 → keep (r.cells.erase p))
    (called : ∀ p, r.found = some p → ∀ o ∈ body (r.entries p).callback (r.entries p).userData,
      ∀ cells, keep cells → keep (o.edit cells)) :
    keep (r.isr body).1.cells := by
  cases found : r.found with
  | none =>
    simp only [Roster.isr, found]
    exact kept
  | some p =>
    simp only [Roster.isr, found]
    apply Roster.performAll_cells _ _ (called p found)
    by_cases oneShot : (r.entries p).recurring = 0
    · rw [r.advance.fire_of_oneShot oneShot]
      exact fired p found oneShot
    · rw [r.advance.fire_of_recurring oneShot]
      have member : p ∈ r.advance.cells := r.found_mem found
      simp only [Roster.registerCallback, enqueue_of_mem member]
      exact kept

theorem Removal.Spared.isr {m : Removal Ptr Fn Data} {fuel : Nat} {body : Fn → Data → List (Op Ptr Fn Data)}
    (spared : m.Spared fuel (.interrupt body)) {r : Roster Ptr Fn Data} (rep : m.clock.Represents r)
    (enough : r.cells.length < fuel) {p : Ptr} (found : r.found = some p) :
    ((r.entries p).recurring = 0 → p ∉ m.held) ∧
      ∀ o ∈ body (r.entries p).callback (r.entries p).userData, m.Permits o := by
  obtain ⟨after, walked, repAfter⟩ := rep.isrAtomic enough
  rw [found] at walked
  have limits := spared after p walked
  obtain ⟨callback, userData, recurring⟩ := r.isrAtomic_entry found
  rw [← repAfter.entries p] at callback userData recurring
  rw [callback, userData, recurring] at limits
  exact limits

theorem Removal.Place.isr {m : Removal Ptr Fn Data} {fuel : Nat} {body : Fn → Data → List (Op Ptr Fn Data)}
    (spared : m.Spared fuel (.interrupt body)) {r : Roster Ptr Fn Data} (rep : m.clock.Represents r)
    (enough : r.cells.length < fuel) (place : m.Place r.cells) : m.Place (r.isr body).1.cells := by
  have chain : m.clock.chain = r.cells.head? := rep.holds.head_eq
  have begin : m.Kept r.cells r.cells := ⟨place, fun _ _ first => first, fun _ absent => absent⟩
  suffices kept : m.Kept r.cells (r.isr body).1.cells from kept.place
  apply r.isr_cells body begin
  · intro p found oneShot
    exact begin.erase place chain ((spared.isr rep enough found).1 oneShot)
  · intro p found o called cells kept
    have permitted := (spared.isr rep enough found).2 o called
    cases o with
    | register sec msec recurring callback userData q => exact kept.enqueue permitted.1 permitted.2
    | unregister q => exact kept.erase place chain permitted

theorem enqueue_erase {cells : List Ptr} {p target : Ptr} (other : p ≠ target) :
    (enqueue cells p).erase target = enqueue (cells.erase target) p := by
  have present : p ∈ cells.erase target ↔ p ∈ cells := List.mem_erase_of_ne other
  unfold enqueue
  by_cases member : p ∈ cells
  · rw [if_pos member, if_pos (present.mpr member)]
  · rw [if_neg member, if_neg (fun kept => member (present.mp kept)), List.erase_append]
    split
    · rfl
    · rename_i absent
      rw [List.erase_of_not_mem absent, List.erase_of_not_mem (by simpa using other.symm)]

theorem Schedule.remove_observe (s : Schedule Ptr) (target : Ptr) {o : Observation Ptr}
    (registers : ∀ delay recurring, o ≠ .registered target delay recurring) (invokes : o ≠ .invoked target) :
    (s.observe o).remove target = (s.remove target).observe o := by
  cases o with
  | registered p delay recurring =>
    have apart : p ≠ target := by
      rintro rfl
      exact registers delay recurring rfl
    simp only [Schedule.observe, Schedule.remove, enqueue_erase apart, Function.update_comm apart]
  | unregistered p =>
    by_cases same : p = target
    · subst p
      rfl
    · simp only [Schedule.observe, Schedule.remove, List.erase_comm, Function.update_comm same]
  | ticked => rfl
  | invoked p =>
    have apart : p ≠ target := by
      rintro rfl
      exact invokes rfl
    cases armed : s.armed p with
    | none => simp [Schedule.observe, Schedule.remove, armed, apart]
    | some a =>
      cases kind : a.recurring <;>
        simp [Schedule.observe, Schedule.remove, armed, kind, apart, Function.update_comm apart, List.erase_comm]

theorem Schedule.remove_after (target : Ptr) (trace : List (Observation Ptr)) (s : Schedule Ptr)
    (registers : ∀ delay recurring, .registered target delay recurring ∉ trace)
    (invokes : .invoked target ∉ trace) : (s.after trace).remove target = (s.remove target).after trace := by
  induction trace generalizing s with
  | nil => rfl
  | cons o trace ih =>
    simp only [List.mem_cons, not_or] at registers invokes
    have here := s.remove_observe target (fun delay recurring => Ne.symm (registers delay recurring).1)
      (Ne.symm invokes.1)
    have rest := ih (s.observe o) (fun delay recurring => (registers delay recurring).2) invokes.2
    rw [here] at rest
    exact rest

theorem Removal.Permits.observation_ne {m : Removal Ptr Fn Data} {o : Op Ptr Fn Data} (permitted : m.Permits o)
    (begun : m.point ≠ .readHead) (delay : Nat) (recurring : Bool) :
    o.observation ≠ .registered m.callbackStruct delay recurring := by
  cases o with
  | register sec msec again callback userData p =>
    have apart := permitted.2 begun
    simp [Op.observation, apart]
  | unregister p => simp [Op.observation]

theorem Roster.Agrees.isr {r : Roster Ptr Fn Data} {s : Schedule Ptr} (agrees : r.Agrees s)
    (body : Fn → Data → List (Op Ptr Fn Data)) : (r.isr body).1.Agrees (s.after (r.isr body).2) :=
  Roster.isr_link (fun _ _ o linked (_ : True) => linked.perform o) body r s agrees.tick (fun _ _ _ _ => trivial)

/-- The chain owed to the rest of the program: what was observed, without the struct once it is gone. -/
def Removal.expected (m : Removal Ptr Fn Data) (s : Schedule Ptr) : Schedule Ptr :=
  if m.point = .skipNext ∨ m.point = .returned then s.remove m.callbackStruct else s

structure Removal.Sound (m : Removal Ptr Fn Data) (r : Roster Ptr Fn Data) (s : Schedule Ptr) : Prop where
  represents : m.clock.Represents r
  agrees : r.Agrees (m.expected s)
  place : m.Place r.cells

theorem Removal.Sound.expected_after {m : Removal Ptr Fn Data} {r : Roster Ptr Fn Data} {s : Schedule Ptr}
    (sound : m.Sound r s) {fuel : Nat} {body : Fn → Data → List (Op Ptr Fn Data)}
    (spared : m.Spared fuel (.interrupt body)) (enough : r.cells.length < fuel) :
    m.expected (s.after (r.isr body).2) = (m.expected s).after (r.isr body).2 := by
  unfold Removal.expected
  split
  · rename_i gone
    have absent := sound.place.absent gone
    have begun : m.point ≠ .readHead := by rcases gone with point | point <;> simp [point]
    cases found : r.found with
    | none => simp [Roster.isr, found, Schedule.after, Schedule.remove_observe]
    | some p =>
      have other : p ≠ m.callbackStruct := by
        rintro rfl
        exact absent (r.found_mem found)
      have permitted := (spared.isr sound.represents enough found).2
      apply Schedule.remove_after
      · intro delay recurring member
        simp only [Roster.isr, found, List.mem_cons, reduceCtorEq, false_or, List.mem_map] at member
        obtain ⟨o, called, seen⟩ := member
        exact (permitted o called).observation_ne begun delay recurring seen
      · intro member
        simp only [Roster.isr, found, List.mem_cons, reduceCtorEq, false_or, List.mem_map,
          Observation.invoked.injEq] at member
        rcases member with same | ⟨o, _, seen⟩
        · exact other same.symm
        · exact o.observation_ne_invoked _ seen
  · rfl

theorem Removal.Sound.interrupt [Fintype Ptr] {m : Removal Ptr Fn Data} {r : Roster Ptr Fn Data} {s : Schedule Ptr}
    (sound : m.Sound r s) {fuel : Nat} (enough : Fintype.card Ptr < fuel)
    {body : Fn → Data → List (Op Ptr Fn Data)} (spared : m.Spared fuel (.interrupt body)) :
    ∃ after seen, m.step fuel (.interrupt body) = some (after, seen) ∧ after.Sound (r.isr body).1 (s.after seen) := by
  have few := sound.represents.enough enough
  obtain ⟨clock, interrupted, represents⟩ := sound.represents.isr enough body
  refine ⟨{ m with clock := clock }, (r.isr body).2, ?_, represents, ?_, ?_⟩
  · rw [Removal.step, interrupted, Option.map_some]
  · have agrees := sound.agrees.isr body
    rw [← sound.expected_after spared few] at agrees
    exact agrees
  · exact Removal.Place.isr spared sound.represents few sound.place

end Interrupt

section Statement

variable [DecidableEq Ptr]

theorem Clock.Represents.store {c : Clock Ptr Fn Data} {r : Roster Ptr Fn Data} (rep : c.Represents r)
    {slot : Slot Ptr} {value : Option Ptr} {cells : List Ptr} (holds : (c.links.store slot value).Holds cells) :
    (c.store slot value).Represents { r with cells := cells } := by
  constructor
  · rw [Clock.links_store]
    exact holds
  · rw [Clock.store_walltimer]
    exact rep.walltimer
  · intro p
    rw [Clock.store_entry]
    exact rep.entries p

theorem Roster.Agrees.remove_absent {r : Roster Ptr Fn Data} {s : Schedule Ptr} (agrees : r.Agrees s) {p : Ptr}
    (absent : p ∉ r.cells) : r.Agrees (s.remove p) := by
  have removed := agrees.removed p
  rw [Roster.unregisterCallback, List.erase_of_not_mem absent] at removed
  exact removed

theorem Removal.Sound.of_removed {clock : Clock Ptr Fn Data} {r : Roster Ptr Fn Data} {s : Schedule Ptr}
    {target : Ptr} (represents : clock.Represents r) (agrees : r.Agrees s) {slot : Slot Ptr} {value : Option Ptr}
    (holds : (clock.links.store slot value).Holds (r.cells.erase target)) (previous next : Option Ptr) {point : Point}
    (gone : (point = .skipNext ∧ next = some target) ∨ point = .returned) :
    (⟨clock.store slot value, point, target, previous, next⟩ : Removal Ptr Fn Data).Sound
      (r.unregisterCallback target) s := by
  have absent : target ∉ r.cells.erase target := represents.holds.nodup.not_mem_erase
  rcases gone with ⟨rfl, reached⟩ | rfl
  · exact ⟨represents.store holds, agrees.removed target, reached, absent⟩
  · exact ⟨represents.store holds, agrees.removed target, absent⟩

def Removal.remaining (m : Removal Ptr Fn Data) (cells : List Ptr) : Nat :=
  match m.point with
  | .readHead => 4 * cells.length + 8
  | .testEmpty => 4 * cells.length + 7
  | .testHead => 4 * cells.length + 6
  | .readNext => 4 * cells.length + 5
  | .testNext => 4 * ahead cells m.next + 4
  | .testHit => 4 * ahead cells m.next + 3
  | .movePrevious => 4 * ahead cells m.next + 2
  | .moveNext => 4 * ahead cells m.next + 1
  | .testHeadLast | .unlink => 2
  | .clearHead | .advanceHead | .skipNext => 1
  | .returned => 0

/-- The next statement succeeds and keeps the removal sound, and the call comes nearer to its return. -/
def Removal.Advances (m : Removal Ptr Fn Data) (r : Roster Ptr Fn Data) (s : Schedule Ptr) : Prop :=
  ∃ after r', m.statement = some after ∧ after.remaining r'.cells < m.remaining r.cells ∧ after.Sound r' s

section Points

variable {clock : Clock Ptr Fn Data} {target : Ptr} {previous next : Option Ptr} {r : Roster Ptr Fn Data}
  {s : Schedule Ptr}

theorem Removal.Sound.readHead (sound : Removal.Sound ⟨clock, .readHead, target, previous, next⟩ r s) :
    Removal.Advances ⟨clock, .readHead, target, previous, next⟩ r s :=
  ⟨_, r, rfl, Nat.lt_succ_self _, sound.represents, sound.agrees, fun _ => sound.represents.holds.head_eq⟩

theorem Removal.Sound.testEmpty (sound : Removal.Sound ⟨clock, .testEmpty, target, previous, next⟩ r s) :
    Removal.Advances ⟨clock, .testEmpty, target, previous, next⟩ r s := by
  obtain ⟨represents, agrees, place⟩ := sound
  have chain : clock.chain = r.cells.head? := represents.holds.head_eq
  cases first : r.cells.head? with
  | none =>
    have absent : target ∉ r.cells := by simp [List.head?_eq_none_iff.mp first]
    exact ⟨⟨clock, .returned, target, previous, next⟩, r, by simp [Removal.statement, chain, first],
      by simp [Removal.remaining], represents, Roster.Agrees.remove_absent agrees absent, absent⟩
  | some head =>
    refine ⟨⟨clock, .testHead, target, previous, next⟩, r, by simp [Removal.statement, chain, first],
      by simp [Removal.remaining], represents, agrees, head, first, ?_⟩
    intro member
    rw [← first]
    exact place member

theorem Removal.Sound.testHead (sound : Removal.Sound ⟨clock, .testHead, target, previous, next⟩ r s) :
    Removal.Advances ⟨clock, .testHead, target, previous, next⟩ r s := by
  obtain ⟨represents, agrees, head, first, known⟩ := sound
  have chain : clock.chain = r.cells.head? := represents.holds.head_eq
  by_cases hit : head = target
  · subst head
    exact ⟨⟨clock, .testHeadLast, target, previous, next⟩, r, by simp [Removal.statement, chain, first],
      by simp [Removal.remaining], represents, agrees, first⟩
  · exact ⟨⟨clock, .readNext, target, previous, next⟩, r, by simp [Removal.statement, chain, first, hit],
      by simp [Removal.remaining], represents, agrees, head, first, hit, known⟩

theorem Removal.Sound.testHeadLast (sound : Removal.Sound ⟨clock, .testHeadLast, target, previous, next⟩ r s) :
    Removal.Advances ⟨clock, .testHeadLast, target, previous, next⟩ r s := by
  obtain ⟨represents, agrees, place⟩ := sound
  have first : r.cells.head? = some target := place
  have chain : clock.chain = r.cells.head? := represents.holds.head_eq
  by_cases last : (clock.structs target).next = none
  · obtain ⟨rest, cells⟩ := List.head?_eq_some_iff.mp first
    have holds := represents.holds
    rw [cells] at holds
    have ended : rest = [] := List.head?_eq_none_iff.mp (holds.second.symm.trans last)
    exact ⟨⟨clock, .clearHead, target, previous, next⟩, r, by simp [Removal.statement, chain, first, last],
      by simp [Removal.remaining], represents, agrees, by simp [Removal.Place, cells, ended]⟩
  · exact ⟨⟨clock, .advanceHead, target, previous, next⟩, r, by simp [Removal.statement, chain, first, last],
      by simp [Removal.remaining], represents, agrees, first⟩

theorem Removal.Sound.clearHead (sound : Removal.Sound ⟨clock, .clearHead, target, previous, next⟩ r s) :
    Removal.Advances ⟨clock, .clearHead, target, previous, next⟩ r s := by
  obtain ⟨represents, agrees, place⟩ := sound
  have empty : r.cells.erase target = [] := by
    apply List.eq_nil_iff_forall_not_mem.mpr
    intro q member
    have kept := represents.holds.nodup.mem_erase_iff.mp member
    exact kept.1 (place q kept.2)
  refine ⟨_, r.unregisterCallback target, rfl, Nat.zero_lt_one,
    Removal.Sound.of_removed represents agrees ?_ previous next (.inr rfl)⟩
  rw [empty]
  rfl

theorem Removal.Sound.advanceHead (sound : Removal.Sound ⟨clock, .advanceHead, target, previous, next⟩ r s) :
    Removal.Advances ⟨clock, .advanceHead, target, previous, next⟩ r s := by
  obtain ⟨represents, agrees, place⟩ := sound
  have first : r.cells.head? = some target := place
  have chain : clock.chain = r.cells.head? := represents.holds.head_eq
  obtain ⟨rest, cells⟩ := List.head?_eq_some_iff.mp first
  refine ⟨⟨clock.store .head (clock.structs target).next, .returned, target, previous, next⟩,
    r.unregisterCallback target, by simp [Removal.statement, chain, first], Nat.zero_lt_one,
    Removal.Sound.of_removed represents agrees ?_ previous next (.inr rfl)⟩
  have holds := represents.holds
  rw [cells] at holds ⊢
  rw [List.erase_cons_head]
  exact holds.drop_head

theorem Removal.Sound.readNext (sound : Removal.Sound ⟨clock, .readNext, target, previous, next⟩ r s) :
    Removal.Advances ⟨clock, .readNext, target, previous, next⟩ r s := by
  obtain ⟨represents, agrees, head, first, miss, known⟩ := sound
  have chain : clock.chain = r.cells.head? := represents.holds.head_eq
  obtain ⟨rest, cells⟩ := List.head?_eq_some_iff.mp first
  have holds := represents.holds
  rw [cells] at holds
  have second : (clock.structs head).next = rest.head? := holds.second
  refine ⟨⟨clock, .testNext, target, previous, rest.head?⟩, r, by simp [Removal.statement, chain, first, second],
    ?_, represents, agrees, ?_⟩
  · have left := ahead_le r.cells rest.head?
    simp only [Removal.remaining]
    omega
  cases rest with
  | nil => exact .inl ⟨rfl, by simp [cells, Ne.symm miss]⟩
  | cons q rest =>
    refine .inr ⟨q, rfl, ?_⟩
    rw [cells] at known ⊢
    by_cases hit : q = target
    · rw [known (by simp [hit])]
      exact Cursor.second miss rest
    · exact (Cursor.second miss rest).of_ne hit previous

theorem Removal.Sound.testNext (sound : Removal.Sound ⟨clock, .testNext, target, previous, next⟩ r s) :
    Removal.Advances ⟨clock, .testNext, target, previous, next⟩ r s := by
  obtain ⟨represents, agrees, place⟩ := sound
  rcases place with ⟨ended, absent⟩ | ⟨q, reached, cursor⟩
  · exact ⟨⟨clock, .returned, target, previous, next⟩, r, by simp_all [Removal.statement],
      by simp [Removal.remaining], represents, Roster.Agrees.remove_absent agrees absent, absent⟩
  · exact ⟨⟨clock, .testHit, target, previous, next⟩, r, by simp_all [Removal.statement],
      by simp [Removal.remaining], represents, agrees, q, reached, cursor⟩

theorem Removal.Sound.testHit (sound : Removal.Sound ⟨clock, .testHit, target, previous, next⟩ r s) :
    Removal.Advances ⟨clock, .testHit, target, previous, next⟩ r s := by
  obtain ⟨represents, agrees, q, reached, cursor⟩ := sound
  by_cases hit : q = target
  · subst q
    exact ⟨⟨clock, .unlink, target, previous, next⟩, r, by simp_all [Removal.statement],
      by simp [Removal.remaining], represents, agrees, reached, cursor⟩
  · exact ⟨⟨clock, .movePrevious, target, previous, next⟩, r, by simp_all [Removal.statement],
      by simp [Removal.remaining], represents, agrees, q, reached, hit, cursor⟩

theorem Removal.Sound.movePrevious (sound : Removal.Sound ⟨clock, .movePrevious, target, previous, next⟩ r s) :
    Removal.Advances ⟨clock, .movePrevious, target, previous, next⟩ r s := by
  obtain ⟨represents, agrees, q, reached, miss, cursor⟩ := sound
  exact ⟨_, r, rfl, Nat.lt_succ_self _, represents, agrees, q, reached, reached, miss, cursor.of_ne miss next⟩

theorem Removal.Sound.moveNext (sound : Removal.Sound ⟨clock, .moveNext, target, previous, next⟩ r s) :
    Removal.Advances ⟨clock, .moveNext, target, previous, next⟩ r s := by
  obtain ⟨represents, agrees, q, reached, behind, miss, cursor⟩ := sound
  obtain rfl : next = some q := reached
  refine ⟨⟨clock, .testNext, target, previous, (clock.structs q).next⟩, r, rfl, ?_, represents, agrees, ?_⟩
  · have fewer := represents.holds.ahead_next cursor.mem
    change ahead r.cells (clock.structs q).next < _ at fewer
    simp only [Removal.remaining]
    omega
  rcases cursor.advance miss represents.holds with ⟨ended, absent⟩ | ⟨ahead, next, cursor⟩
  · exact .inl ⟨ended, absent⟩
  · rw [← behind] at cursor
    exact .inr ⟨ahead, next, cursor⟩

theorem Removal.Sound.unlink (sound : Removal.Sound ⟨clock, .unlink, target, previous, next⟩ r s) :
    Removal.Advances ⟨clock, .unlink, target, previous, next⟩ r s := by
  obtain ⟨represents, agrees, reached, cursor⟩ := sound
  obtain ⟨earlier, before, back, cells, behind⟩ := cursor.at_target
  refine ⟨⟨clock.store (.after before) (clock.structs target).next, .skipNext, target, previous, next⟩,
    r.unregisterCallback target, by simp_all [Removal.statement], Nat.one_lt_two,
    Removal.Sound.of_removed represents agrees ?_ previous next (.inl ⟨rfl, reached⟩)⟩
  have holds := represents.holds
  rw [cells] at holds ⊢
  rw [erase_after holds.nodup]
  exact holds.unlink

theorem Removal.Sound.skipNext (sound : Removal.Sound ⟨clock, .skipNext, target, previous, next⟩ r s) :
    Removal.Advances ⟨clock, .skipNext, target, previous, next⟩ r s := by
  obtain ⟨represents, agrees, reached, absent⟩ := sound
  obtain rfl : next = some target := reached
  exact ⟨_, r, rfl, Nat.zero_lt_one, represents, agrees, absent⟩

end Points

theorem Removal.Sound.advances {m : Removal Ptr Fn Data} {r : Roster Ptr Fn Data} {s : Schedule Ptr}
    (sound : m.Sound r s) (running : m.point ≠ .returned) : m.Advances r s := by
  obtain ⟨clock, point, target, previous, next⟩ := m
  cases point with
  | readHead => exact sound.readHead
  | testEmpty => exact sound.testEmpty
  | testHead => exact sound.testHead
  | testHeadLast => exact sound.testHeadLast
  | clearHead => exact sound.clearHead
  | advanceHead => exact sound.advanceHead
  | readNext => exact sound.readNext
  | testNext => exact sound.testNext
  | testHit => exact sound.testHit
  | movePrevious => exact sound.movePrevious
  | moveNext => exact sound.moveNext
  | unlink => exact sound.unlink
  | skipNext => exact sound.skipNext
  | returned => exact absurd rfl running

theorem Removal.Sound.statement {m : Removal Ptr Fn Data} {r : Roster Ptr Fn Data} {s : Schedule Ptr}
    (sound : m.Sound r s) : ∃ after r', m.statement = some after ∧ after.Sound r' s := by
  by_cases returned : m.point = .returned
  · exact ⟨m, r, by rw [Removal.statement, returned], sound⟩
  · obtain ⟨after, r', done, _, kept⟩ := sound.advances returned
    exact ⟨after, r', done, kept⟩

theorem Removal.statement_callbackStruct {m after : Removal Ptr Fn Data} (done : m.statement = some after) :
    after.callbackStruct = m.callbackStruct := by
  have kept : m.statement.map Removal.callbackStruct = m.statement.map (fun _ => m.callbackStruct) := by
    unfold Removal.statement
    cases m.point <;> simp [Function.comp_def, Option.map_bind]
  rw [done] at kept
  exact Option.some.inj kept

theorem Removal.Sound.finishes {m : Removal Ptr Fn Data} {r : Roster Ptr Fn Data} {s : Schedule Ptr}
    (sound : m.Sound r s) : ∃ final, m.Reaches final ∧ final.point = .returned := by
  induction bound : m.remaining r.cells using Nat.strong_induction_on generalizing m r with
  | h n ih =>
    by_cases returned : m.point = .returned
    · exact ⟨m, .refl m, returned⟩
    · obtain ⟨after, r', done, fewer, kept⟩ := sound.advances returned
      obtain ⟨final, reaches, ended⟩ := ih _ (bound ▸ fewer) kept rfl
      exact ⟨final, .cons done reaches, ended⟩

end Statement

section Preempted

variable [DecidableEq Ptr]

def Clock.scheduled (c : Clock Ptr Fn Data) (cells : List Ptr) : Schedule Ptr where
  now := 0
  chain := cells
  armed p := if p ∈ cells then some ⟨0, 0, (c.structs p).recurring != 0⟩ else none

theorem Clock.scheduled_agrees (c : Clock Ptr Fn Data) {cells : List Ptr} (distinct : cells.Nodup) :
    (c.roster cells).Agrees (c.scheduled cells) := by
  refine ⟨rfl, distinct, ?_, ?_⟩
  · intro p
    by_cases member : p ∈ cells <;> simp [Clock.scheduled, member]
  · intro p a armed
    by_cases member : p ∈ cells <;> simp [Clock.scheduled, member] at armed
    rw [← armed]
    rfl

variable [Fintype Ptr]

def Removal.Tied (target : Ptr) (m : Removal Ptr Fn Data) (s : Schedule Ptr) : Prop :=
  m.callbackStruct = target ∧ ∃ r, m.Sound r s

theorem Removal.Tied.step (target : Ptr) {fuel : Nat} (enough : Fintype.card Ptr < fuel) (m : Removal Ptr Fn Data)
    (s : Schedule Ptr) (action : Action Ptr Fn Data) (tied : m.Tied target s) (spared : m.Spared fuel action) :
    ∃ after seen, m.step fuel action = some (after, seen) ∧ after.Tied target (s.after seen) := by
  obtain ⟨same, r, sound⟩ := tied
  cases action with
  | statement =>
    obtain ⟨after, r', done, kept⟩ := sound.statement
    refine ⟨after, [], by rw [Removal.step, done, Option.map_some], ?_, r', kept⟩
    rw [Removal.statement_callbackStruct done, same]
  | interrupt body =>
    obtain ⟨after, seen, done, kept⟩ := sound.interrupt enough spared
    refine ⟨after, seen, done, ?_, _, kept⟩
    obtain ⟨interrupted, _, changed⟩ := Option.map_eq_some_iff.mp done
    have target := congrArg (fun result => result.1.callbackStruct) changed
    exact target.symm.trans same

/-- However interrupts are placed between the statements of a removal, as long as each of them spares
    what the removal holds, the removal comes to its return when they cease, and takes its struct off the
    chain and nothing else. -/
theorem preempted_removal (c : Clock Ptr Fn Data) (cells : List Ptr) (holds : c.links.Holds cells) (target : Ptr)
    (fuel : Nat) (enough : Fintype.card Ptr < fuel) (actions : List (Action Ptr Fn Data))
    (spared : TracedRun.StepsMeet (Removal.step fuel) (Removal.Spared fuel) (.enter c target) actions) :
    ∃ final trace, TracedRun.run (Removal.step fuel) (.enter c target) actions = some (final, trace) ∧
      (∃ last, final.Reaches last ∧ last.point = .returned) ∧
      (final.point = .returned →
        final.clock.links.Holds (((c.scheduled cells).after trace).chain.erase target) ∧
        target ∉ ((c.scheduled cells).after trace).chain.erase target) := by
  have begin : (Removal.enter c target).Sound (c.roster cells) (c.scheduled cells) :=
    ⟨Clock.roster_represents holds, c.scheduled_agrees holds.nodup, trivial⟩
  obtain ⟨final, trace, finished, same, r, sound⟩ := TracedRun.run_total (Removal.Tied target) (Removal.Spared fuel)
    (Removal.Tied.step target enough) actions _ _ ⟨rfl, _, begin⟩ spared
  refine ⟨final, trace, finished, sound.finishes, ?_⟩
  intro returned
  have agrees := sound.agrees
  have holds := sound.represents.holds
  have absent := sound.place.absent (.inr returned)
  rw [Removal.expected, if_pos (.inr returned), same] at agrees
  rw [agrees.cells] at holds absent
  rw [same] at absent
  exact ⟨holds, absent⟩

end Preempted

section Pair

def Clock.pair (recurring : UInt8) : Clock (Fin 2) Unit Unit where
  walltimer := .zero
  chain := some 0
  structs p :=
    { time := { WallTime.zero with msec := 1 }
      recurring := recurring
      recurringMsec := 1
      userData := ()
      callback := ()
      next := if p = 0 then some 1 else none }

/-- The tick comes when the removal of the second struct has read `next`. -/
def preemptedWalk : List (Action (Fin 2) Unit Unit) :=
  List.replicate 4 .statement ++ .interrupt (fun _ _ => []) :: List.replicate 4 .statement

/-- The tick comes when the removal of the first struct has found it at the head. -/
def preemptedHead : List (Action (Fin 2) Unit Unit) :=
  List.replicate 4 .statement ++ [.interrupt fun _ _ => [], .statement]

theorem preempted_removal_recurring_pair :
    let c := Clock.pair 1
    c.links.Holds [0, 1] ∧
      TracedRun.StepsMeet (Removal.step 3) (Removal.Spared 3) (.enter c 1) preemptedWalk ∧
      ∃ final trace, TracedRun.run (Removal.step 3) (.enter c 1) preemptedWalk = some (final, trace) ∧
        (∃ last, final.Reaches last ∧ last.point = .returned) ∧
        (final.point = .returned → final.clock.links.Holds (((c.scheduled [0, 1]).after trace).chain.erase 1) ∧
          1 ∉ ((c.scheduled [0, 1]).after trace).chain.erase 1) := by
  intro c
  have holds : c.links.Holds [0, 1] := ⟨rfl, rfl, rfl⟩
  have spared : TracedRun.StepsMeet (Removal.step 3) (Removal.Spared 3) (.enter c 1) preemptedWalk := by
    refine .cons trivial rfl (.cons trivial rfl (.cons trivial rfl (.cons trivial rfl (.cons ?_ rfl
      (.cons trivial rfl (.cons trivial rfl (.cons trivial rfl (.cons trivial rfl trivial))))))))
    intro after p fired
    have result := Option.some.inj fired
    cases result
    exact ⟨by decide, by simp⟩
  exact ⟨holds, spared, preempted_removal c [0, 1] holds 1 3 (by decide) preemptedWalk spared⟩

/-- With one-shots the struct to remove stays on the chain, or another struct is lost from it. -/
theorem preempted_removal_one_shots :
    (∃ final trace, TracedRun.run (Removal.step 3) (.enter (Clock.pair 0) 1) preemptedWalk = some (final, trace) ∧
      final.point = .returned ∧ final.clock.links.Holds [1]) ∧
    (∃ final trace, TracedRun.run (Removal.step 3) (.enter (Clock.pair 0) 0) preemptedHead = some (final, trace) ∧
      final.point = .returned ∧ final.clock.links.Holds [] ∧
      (((Clock.pair 0).scheduled [0, 1]).after trace).chain = [1]) :=
  ⟨⟨_, _, rfl, rfl, rfl, rfl⟩, ⟨_, _, rfl, rfl, rfl, by decide⟩⟩

end Pair

end Minimus32.Timer1
