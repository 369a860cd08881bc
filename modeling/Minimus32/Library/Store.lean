import Mathlib.Data.List.Basic
import Mathlib.Data.Int.Order.Basic
import Mathlib.Logic.Function.Basic

namespace Store

variable {α : Type*}

/-- A memory, with the addresses that have been read and written. -/
structure Memory (α : Type*) where
  cell : Int → α
  reads : List Int
  writes : List Int

namespace Memory

def read (m : Memory α) (a : Int) : Memory α := { m with reads := m.reads ++ [a] }

def write (m : Memory α) (a : Int) (value : α) : Memory α :=
  { m with cell := Function.update m.cell a value, writes := m.writes ++ [a] }

def text (m : Memory α) (a : Int) (n : Nat) : List α := (List.range n).map fun i : Nat => m.cell (a + i)

/-- This has been written from the address on, and nothing else. -/
structure Stored (m : Memory α) (a : Int) (content : List α) (after : Memory α) : Prop where
  shown : after.text a content.length = content
  outside : ∀ i, i < a ∨ a + content.length ≤ i → after.cell i = m.cell i
  writes : ∀ i, i ∈ after.writes ↔ i ∈ m.writes ∨ a ≤ i ∧ i < a + content.length

theorem length_text (m : Memory α) (a : Int) (n : Nat) : (m.text a n).length = n := by
  rw [Memory.text, List.length_map, List.length_range]

theorem getElem?_text (m : Memory α) (a : Int) {i n : Nat} (inside : i < n) :
    (m.text a n)[i]? = some (m.cell (a + i)) := by
  rw [Memory.text, List.getElem?_map, List.getElem?_range inside, Option.map_some]

theorem text_add (m : Memory α) (a : Int) (n k : Nat) : m.text a (n + k) = m.text a n ++ m.text (a + n) k := by
  rw [Memory.text, List.range_add, List.map_append, List.map_map]
  congr 1
  apply List.map_congr_left
  intro i _
  simp [Int.add_assoc]

theorem text_congr {m after : Memory α} {a : Int} {n : Nat}
    (same : ∀ i, a ≤ i → i < a + n → after.cell i = m.cell i) : after.text a n = m.text a n := by
  apply List.map_congr_left
  intro i member
  have inside := List.mem_range.mp member
  exact same _ (by omega) (by omega)

theorem text_concat {m : Memory α} {a : Int} {n : Nat} {content : List α} {c : α}
    (shown : m.text a (n + 1) = content ++ [c]) (size : content.length = n) :
    m.text a n = content ∧ m.cell (a + n) = c := by
  rw [text_add] at shown
  obtain ⟨front, last⟩ := List.append_inj shown (by rw [length_text, size])
  have found := m.getElem?_text (a + n) Nat.zero_lt_one
  rw [last, Int.natCast_zero, Int.add_zero] at found
  exact ⟨front, (Option.some.inj found).symm⟩

theorem Stored.of_length {m after : Memory α} {a : Int} {n : Nat} {content : List α} (stored : m.Stored a content after)
    (size : content.length = n) :
    after.text a n = content ∧ (∀ i, i ∈ after.writes ↔ i ∈ m.writes ∨ a ≤ i ∧ i < a + n) ∧
      ∀ i, i < a ∨ a + n ≤ i → after.cell i = m.cell i := by
  subst size
  exact ⟨stored.shown, stored.writes, stored.outside⟩

theorem stored_nil (m : Memory α) (a : Int) : m.Stored a [] m := by
  refine ⟨rfl, fun _ _ => rfl, ?_⟩
  intro i
  have nowhere : ¬ (a ≤ i ∧ i < a + ([] : List α).length) := by
    rw [List.length_nil]
    omega
  exact (or_iff_left nowhere).symm

theorem stored_write (m : Memory α) (a : Int) (value : α) : m.Stored a [value] (m.write a value) := by
  refine ⟨?_, ?_, ?_⟩
  · simp [Memory.text, Memory.write]
  · intro i outside
    rw [List.length_singleton] at outside
    exact Function.update_of_ne (by omega) _ _
  · intro i
    rw [Memory.write, List.mem_append, List.mem_singleton, List.length_singleton]
    exact or_congr_right (by omega)

/-- Two texts written one after the other, whose places together are those of a third. -/
theorem Stored.joined {m between after : Memory α} {a b c : Int} {first second both : List α}
    (stored : m.Stored a first between) (later : between.Stored b second after)
    (places : ∀ i, (a ≤ i ∧ i < a + first.length) ∨ (b ≤ i ∧ i < b + second.length) ↔ c ≤ i ∧ i < c + both.length)
    (shown : after.text c both.length = both) : m.Stored c both after := by
  refine ⟨shown, ?_, ?_⟩
  · intro i outside
    have nowhere := (places i).not.mpr (by omega)
    rw [later.outside i (by omega), stored.outside i (by omega)]
  · intro i
    rw [later.writes, stored.writes, or_assoc, places]

theorem Stored.before {m between after : Memory α} {a : Int} {left right : List α}
    (first : m.Stored (a + left.length) right between) (second : between.Stored a left after) :
    m.Stored a (left ++ right) after := by
  have kept : after.text (a + left.length) right.length = between.text (a + left.length) right.length :=
    text_congr fun i above _ => second.outside i (.inr above)
  apply first.joined second
  · intro i
    rw [List.length_append, Int.natCast_add]
    omega
  · rw [List.length_append, text_add, second.shown, kept, first.shown]

theorem Stored.behind {m between after : Memory α} {a : Int} {left right : List α}
    (first : m.Stored a left between) (second : between.Stored (a + left.length) right after) :
    m.Stored a (left ++ right) after := by
  have kept : after.text a left.length = between.text a left.length :=
    text_congr fun i _ below => second.outside i (.inl below)
  apply first.joined second
  · intro i
    rw [List.length_append, Int.natCast_add]
    omega
  · rw [List.length_append, text_add, kept, first.shown, second.shown]

/-- A text over the end of the one written before. -/
theorem Stored.onto {m between after : Memory α} {a : Int} {left old new : List α}
    (first : m.Stored a (left ++ old) between) (second : between.Stored (a + left.length) new after)
    (same : old.length = new.length) : m.Stored a (left ++ new) after := by
  have front : between.text a left.length = left := by
    have whole := first.shown
    rw [List.length_append, text_add] at whole
    exact (List.append_inj whole (between.length_text a left.length)).1
  have kept : after.text a left.length = between.text a left.length :=
    text_congr fun i _ below => second.outside i (.inl below)
  apply first.joined second
  · intro i
    rw [List.length_append, List.length_append, Int.natCast_add, Int.natCast_add]
    omega
  · rw [List.length_append, text_add, kept, front, second.shown]

theorem Stored.cover {m between after : Memory α} {a : Int} {old new : List α} (first : m.Stored a old between)
    (second : between.Stored a new after) (same : old.length = new.length) : m.Stored a new after := by
  rw [← Int.add_zero a] at second
  have covered : m.Stored a ([] ++ new) after := Stored.onto first second same
  exact covered

theorem Stored.of_read {m after : Memory α} {a b : Int} {content : List α}
    (stored : (m.read b).Stored a content after) : m.Stored a content after :=
  ⟨stored.shown, stored.outside, stored.writes⟩

theorem Stored.read {m after : Memory α} {a : Int} {content : List α} (stored : m.Stored a content after) (b : Int) :
    m.Stored a content (after.read b) := ⟨stored.shown, stored.outside, stored.writes⟩

end Memory

end Store
