import Minimus32.Library.Linked

namespace Linked

variable {P : Type*}

/-- A search for `target` has come to `q` with `previous` behind it: nothing before `q` is the target,
    and if `q` is the target then `previous` is the cell just before it. -/
def Cursor (target : P) (previous : Option P) (q : P) (cells : List P) : Prop :=
  ∃ front back, cells = front ++ q :: back ∧ target ∉ front ∧
    (q = target → ∃ earlier before, front = earlier ++ [before] ∧ previous = some before)

theorem Cursor.mem {target q : P} {previous : Option P} {cells : List P}
    (cursor : Cursor target previous q cells) : q ∈ cells := by
  obtain ⟨front, back, rfl, _⟩ := cursor
  simp

theorem Cursor.of_ne {target q : P} {previous : Option P} {cells : List P}
    (cursor : Cursor target previous q cells) (other : q ≠ target) (changed : Option P) :
    Cursor target changed q cells := by
  obtain ⟨front, back, split, absent, _⟩ := cursor
  exact ⟨front, back, split, absent, fun same => absurd same other⟩

theorem Cursor.second {target p q : P} (other : p ≠ target) (back : List P) :
    Cursor target (some p) q (p :: q :: back) :=
  ⟨[p], back, rfl, by simpa using other.symm, fun _ => ⟨[], p, rfl, rfl⟩⟩

theorem Cursor.advance {target q : P} {previous : Option P} {cells : List P}
    (cursor : Cursor target previous q cells) (other : q ≠ target) {links : Links P} (holds : links.Holds cells) :
    (links.next q = none ∧ target ∉ cells) ∨
      ∃ ahead, links.next q = some ahead ∧ Cursor target (some q) ahead cells := by
  obtain ⟨front, back, rfl, absent, _⟩ := cursor
  have next := holds.next_eq
  cases back with
  | nil =>
    apply Or.inl
    exact ⟨next, by simp [absent, other.symm]⟩
  | cons ahead back =>
    apply Or.inr
    exact ⟨ahead, next, front ++ [q], back, by simp, by simp [absent, other.symm], fun _ => ⟨front, q, rfl, rfl⟩⟩

theorem Cursor.at_target {target : P} {previous : Option P} {cells : List P}
    (cursor : Cursor target previous target cells) :
    ∃ earlier before back, cells = earlier ++ before :: target :: back ∧ previous = some before := by
  obtain ⟨front, back, rfl, _, found⟩ := cursor
  obtain ⟨earlier, before, rfl, held⟩ := found rfl
  exact ⟨earlier, before, back, by simp, held⟩

section Ahead

variable [DecidableEq P]

/-- How many cells a walk that has come to `start` still has before it. -/
def ahead (cells : List P) : Option P → Nat
  | none => 0
  | some q => (cells.dropWhile (· ≠ q)).length

theorem ahead_le (cells : List P) (start : Option P) : ahead cells start ≤ cells.length := by
  cases start with
  | none => exact Nat.zero_le _
  | some q => exact (List.dropWhile_suffix _).length_le

theorem ahead_append {front back : List P} {q : P} (outside : q ∉ front) :
    ahead (front ++ q :: back) (some q) = back.length + 1 := by
  have skipped : ∀ p ∈ front, decide (p ≠ q) = true := by
    intro p member
    exact decide_eq_true (fun same => outside (same ▸ member))
  rw [ahead, List.dropWhile_append_of_pos skipped, List.dropWhile_cons_of_neg (by simp), List.length_cons]

theorem Links.Holds.ahead_next {links : Links P} {cells : List P} (holds : links.Holds cells) {q : P}
    (member : q ∈ cells) : ahead cells (links.next q) < ahead cells (some q) := by
  obtain ⟨front, back, rfl⟩ := List.append_of_mem member
  have distinct := holds.nodup
  have outside : q ∉ front := fun early => List.disjoint_of_nodup_append distinct early (by simp)
  rw [ahead_append outside, holds.next_eq]
  cases back with
  | nil => exact Nat.zero_lt_one
  | cons p back =>
    rw [List.append_cons] at distinct ⊢
    have later : p ∉ front ++ [q] := fun early => List.disjoint_of_nodup_append distinct early (by simp)
    rw [List.head?_cons, ahead_append later, List.length_cons]
    exact Nat.lt_succ_self _

end Ahead

section Edits

variable [DecidableEq P]

theorem head?_enqueue {cells : List P} {head : P} (first : cells.head? = some head) (p : P) :
    (enqueue cells p).head? = some head := by
  unfold enqueue
  split
  · exact first
  · rw [List.head?_append, first, Option.some_or]

theorem head?_erase {cells : List P} {head p : P} (first : cells.head? = some head) (other : p ≠ head) :
    (cells.erase p).head? = some head := by
  cases cells with
  | nil => simp at first
  | cons q rest =>
    have same : q = head := by simpa using first
    subst q
    rw [List.erase_cons_tail (by simpa using other.symm), List.head?_cons]

theorem Cursor.enqueue {target q : P} {previous : Option P} {cells : List P}
    (cursor : Cursor target previous q cells) (p : P) : Cursor target previous q (enqueue cells p) := by
  unfold Linked.enqueue
  split
  · exact cursor
  · obtain ⟨front, back, rfl, absent, found⟩ := cursor
    exact ⟨front, back ++ [p], by simp, absent, found⟩

theorem Cursor.erase {target q p : P} {previous : Option P} {cells : List P}
    (cursor : Cursor target previous q cells) (other : p ≠ q) (spared : q = target → previous ≠ some p) :
    Cursor target previous q (cells.erase p) := by
  obtain ⟨front, back, rfl, absent, found⟩ := cursor
  rw [List.erase_append]
  split
  · refine ⟨front.erase p, back, rfl, fun member => absent (List.mem_of_mem_erase member), ?_⟩
    intro same
    obtain ⟨earlier, before, rfl, held⟩ := found same
    have kept : p ≠ before := by
      rintro rfl
      exact spared same held
    rename_i present
    rw [List.erase_append_left _ (by simpa [kept] using present)]
    exact ⟨earlier.erase p, before, rfl, held⟩
  · rw [List.erase_cons_tail (by simpa using other.symm)]
    exact ⟨front, back.erase p, rfl, absent, found⟩

end Edits

end Linked
