import Mathlib.Data.Fintype.Card
import Mathlib.Data.List.Nodup
import Mathlib.Logic.Function.Basic

namespace Linked

variable {P : Type*}

/-- The pointers of a singly linked list: the head and every cell's successor. Cells outside
    the list keep whatever successor they last had. -/
structure Links (P : Type*) where
  head : Option P
  next : P → Option P

/-- A place that holds a pointer: what a pointer to a pointer can refer to. -/
inductive Slot (P : Type*) where
  | head
  | after (p : P)
deriving DecidableEq

def Segment (next : P → Option P) : Option P → List P → Option P → Prop
  | start, [], stop => start = stop
  | start, p :: rest, stop => start = some p ∧ Segment next (next p) rest stop

/-- Following the pointers from the head visits exactly `cells` and then reaches null. -/
def Links.Holds (links : Links P) (cells : List P) : Prop :=
  Segment links.next links.head cells none

theorem segment_append {next : P → Option P} {start stop : Option P} {left right : List P} :
    Segment next start (left ++ right) stop ↔
      ∃ middle, Segment next start left middle ∧ Segment next middle right stop := by
  induction left generalizing start with
  | nil => simp [Segment]
  | cons p left ih =>
    simp only [List.cons_append, Segment, ih]
    constructor
    · rintro ⟨first, middle, front, back⟩
      exact ⟨middle, ⟨first, front⟩, back⟩
    · rintro ⟨middle, ⟨first, front⟩, back⟩
      exact ⟨first, middle, front, back⟩

theorem Segment.congr {next other : P → Option P} {start stop : Option P} {cells : List P}
    (path : Segment next start cells stop) (same : ∀ p ∈ cells, other p = next p) :
    Segment other start cells stop := by
  induction cells generalizing start with
  | nil => exact path
  | cons p cells ih =>
    refine ⟨path.1, ?_⟩
    rw [same p (by simp)]
    exact ih path.2 (fun q member => same q (by simp [member]))

theorem segment_unique {next : P → Option P} {start : Option P} {left right : List P}
    (first : Segment next start left none) (second : Segment next start right none) : left = right := by
  induction left generalizing start right with
  | nil =>
    cases right with
    | nil => rfl
    | cons q right =>
      have clash := first.symm.trans second.1
      cases clash
  | cons p left ih =>
    cases right with
    | nil =>
      have clash := first.1.symm.trans second
      cases clash
    | cons q right =>
      have same : p = q := Option.some.inj (first.1.symm.trans second.1)
      subst q
      rw [ih first.2 second.2]

theorem segment_nodup {next : P → Option P} {start : Option P} {cells : List P}
    (path : Segment next start cells none) : cells.Nodup := by
  induction cells generalizing start with
  | nil => exact List.nodup_nil
  | cons p cells ih =>
    refine List.nodup_cons.mpr ⟨?_, ih path.2⟩
    intro member
    obtain ⟨front, back, split⟩ := List.append_of_mem member
    have tail := path.2
    rw [split, segment_append] at tail
    obtain ⟨middle, _, again, rest⟩ := tail
    -- The same cell would start two null-terminated paths of different lengths.
    have equal := congrArg List.length (segment_unique rest path.2)
    rw [split, List.length_append, List.length_cons] at equal
    omega

theorem Links.Holds.nodup {links : Links P} {cells : List P} (holds : links.Holds cells) :
    cells.Nodup := segment_nodup holds

theorem Links.Holds.head_eq {links : Links P} {cells : List P} (holds : links.Holds cells) :
    links.head = cells.head? := by
  cases cells with
  | nil => exact holds
  | cons p cells => exact holds.1

theorem Links.Holds.next_eq {links : Links P} {front back : List P} {p : P}
    (holds : links.Holds (front ++ p :: back)) : links.next p = back.head? := by
  obtain ⟨_, _, _, rest⟩ := segment_append.mp holds
  cases back with
  | nil => exact rest
  | cons q back => exact rest.1

theorem Links.Holds.second {links : Links P} {p : P} {rest : List P} (holds : links.Holds (p :: rest)) :
    links.next p = rest.head? := by
  have tail : (⟨links.next p, links.next⟩ : Links P).Holds rest := holds.2
  exact tail.head_eq

theorem Links.Holds.length_le [Fintype P] {links : Links P} {cells : List P}
    (holds : links.Holds cells) : cells.length ≤ Fintype.card P := holds.nodup.length_le_card

def endSlot : Slot P → List P → Slot P
  | slot, [] => slot
  | _, p :: cells => endSlot (.after p) cells

theorem endSlot_append_singleton (slot : Slot P) (cells : List P) (p : P) :
    endSlot slot (cells ++ [p]) = .after p := by
  induction cells generalizing slot with
  | nil => rfl
  | cons q cells ih => exact ih _

section Store

variable [DecidableEq P]

def Links.load (links : Links P) : Slot P → Option P
  | .head => links.head
  | .after p => links.next p

def Links.store (links : Links P) (slot : Slot P) (value : Option P) : Links P :=
  match slot with
  | .head => { links with head := value }
  | .after p => { links with next := Function.update links.next p value }

theorem Segment.update_of_not_mem {next : P → Option P} {start stop : Option P} {cells : List P} {q : P}
    (path : Segment next start cells stop) (outside : q ∉ cells) (value : Option P) :
    Segment (Function.update next q value) start cells stop := by
  apply path.congr
  intro p member
  have other : p ≠ q := by
    rintro rfl
    exact outside member
  exact Function.update_of_ne other _ _

theorem Links.Holds.append {links : Links P} {cells : List P} {q : P} (holds : links.Holds cells)
    (outside : q ∉ cells) :
    ((links.store (endSlot .head cells) (some q)).store (.after q) none).Holds (cells ++ [q]) := by
  rcases List.eq_nil_or_concat cells with rfl | ⟨front, last, rfl⟩
  · simp [Links.Holds, Links.store, endSlot, Segment]
  · rw [List.concat_eq_append] at holds outside ⊢
    rw [endSlot_append_singleton]
    have distinct := holds.nodup
    have path : Segment links.next links.head (front ++ [last]) none := holds
    simp only [List.mem_append, List.mem_singleton, not_or] at outside
    obtain ⟨middle, before, lastStart, _⟩ := segment_append.mp path
    have lastOutside : last ∉ front := by
      intro member
      exact (List.disjoint_of_nodup_append distinct) member (by simp)
    simp only [Links.Holds, Links.store, List.append_assoc, List.cons_append, List.nil_append]
    rw [segment_append]
    refine ⟨middle, (before.update_of_not_mem lastOutside _).update_of_not_mem outside.1 _, lastStart, ?_, ?_⟩
    · rw [Function.update_of_ne (Ne.symm outside.2), Function.update_self]
    · exact Function.update_self _ _ _

/-- A queue without duplicates: a cell that is present keeps its place. -/
def enqueue (cells : List P) (p : P) : List P := if p ∈ cells then cells else cells ++ [p]

theorem mem_enqueue {cells : List P} {p q : P} : q ∈ enqueue cells p ↔ q ∈ cells ∨ q = p := by
  unfold enqueue
  split
  · rename_i present
    constructor
    · exact Or.inl
    · rintro (member | rfl)
      · exact member
      · exact present
  · simp

theorem enqueue_of_mem {cells : List P} {p : P} (present : p ∈ cells) : enqueue cells p = cells :=
  if_pos present

theorem erase_after {front back : List P} {before p : P}
    (distinct : (front ++ before :: p :: back).Nodup) :
    (front ++ before :: p :: back).erase p = front ++ before :: back := by
  have outside : p ∉ front := by
    intro member
    exact (List.disjoint_of_nodup_append distinct) member (by simp)
  have other : before ≠ p := by
    have tail := (List.nodup_append.mp distinct).2.1
    simp only [List.nodup_cons, List.mem_cons, not_or] at tail
    exact tail.1.1
  rw [List.erase_append_right _ outside]
  simp [List.erase_cons_tail, other]

theorem Links.Holds.drop_head {links : Links P} {p : P} {cells : List P}
    (holds : links.Holds (p :: cells)) : (links.store .head (links.next p)).Holds cells := holds.2

theorem Links.Holds.unlink {links : Links P} {front back : List P} {p q : P}
    (holds : links.Holds (front ++ p :: q :: back)) :
    (links.store (.after p) (links.next q)).Holds (front ++ p :: back) := by
  have distinct := holds.nodup
  obtain ⟨middle, before, start, first, rest⟩ := segment_append.mp holds
  have outsideFront : p ∉ front := by
    intro member
    exact (List.disjoint_of_nodup_append distinct) member (by simp)
  have outsideBack : p ∉ back := by
    have tail := (List.nodup_append.mp distinct).2.1
    simp only [List.nodup_cons, List.mem_cons, not_or] at tail
    exact tail.1.2
  refine segment_append.mpr ⟨middle, before.update_of_not_mem outsideFront _, start, ?_⟩
  simp only [Links.store, Function.update_self]
  exact rest.update_of_not_mem outsideBack _

end Store

end Linked
