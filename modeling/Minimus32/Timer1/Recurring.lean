import Minimus32.Timer1.Roster

namespace Minimus32.Timer1

open Linked

variable {Ptr Fn Data : Type}

/-- Everything registered is recurring and calls the function that is its duty. -/
def Roster.Recurs (r : Roster Ptr Fn Data) (duty : Ptr → Fn) : Prop :=
  ∀ p ∈ r.cells, (r.entries p).recurring ≠ 0 ∧ (r.entries p).callback = duty p

def Clock.Recurs (c : Clock Ptr Fn Data) (duty : Ptr → Fn) (cells : List Ptr) : Prop :=
  ∃ r, c.Represents r ∧ r.cells = cells ∧ r.Recurs duty

theorem Clock.init_recurs (c : Clock Ptr Fn Data) (duty : Ptr → Fn) : c.init.Recurs duty [] := by
  refine ⟨.start c, c.init_represents, rfl, ?_⟩
  intro p member
  cases member

theorem Clock.Recurs.holds {c : Clock Ptr Fn Data} {duty : Ptr → Fn} {cells : List Ptr}
    (recurs : c.Recurs duty cells) : c.links.Holds cells := by
  obtain ⟨r, represents, rfl, _⟩ := recurs
  exact represents.holds

theorem Clock.Recurs.callback {c : Clock Ptr Fn Data} {duty : Ptr → Fn} {cells : List Ptr}
    (recurs : c.Recurs duty cells) {p : Ptr} (member : p ∈ cells) : (c.structs p).callback = duty p := by
  obtain ⟨r, represents, rfl, kind⟩ := recurs
  rw [represents.entries p]
  exact (kind p member).2

section

variable [DecidableEq Ptr]

theorem Roster.Recurs.registerCallback {r : Roster Ptr Fn Data} {duty : Ptr → Fn} (recurs : r.Recurs duty)
    (sec msec : UInt16) {recurring : UInt8} (again : recurring ≠ 0) (userData : Data) (p : Ptr) :
    (r.registerCallback sec msec recurring (duty p) userData p).Recurs duty := by
  intro q member
  by_cases same : q = p
  · subst q
    simp only [Roster.registerCallback, Function.update_self, Entry.arm]
    exact ⟨again, trivial⟩
  · simp only [Roster.registerCallback, Function.update_of_ne same]
    rcases mem_enqueue.mp member with present | equal
    · exact recurs q present
    · exact absurd equal same

/-- The interrupt registers again what it finds, so the chain stays as it is. -/
theorem Roster.Recurs.isrAtomic {r : Roster Ptr Fn Data} {duty : Ptr → Fn} (recurs : r.Recurs duty) :
    r.isrAtomic.cells = r.cells ∧ r.isrAtomic.Recurs duty := by
  unfold Roster.isrAtomic
  cases found : r.found with
  | none => exact ⟨rfl, recurs⟩
  | some p =>
    have member : p ∈ r.cells := List.mem_of_find?_eq_some found
    obtain ⟨again, own⟩ := recurs p member
    have advanced : r.advance.Recurs duty := recurs
    show (r.advance.fire p).cells = r.cells ∧ (r.advance.fire p).Recurs duty
    rw [r.advance.fire_of_recurring again]
    constructor
    · exact enqueue_of_mem member
    · rw [show (r.advance.entries p).callback = duty p from own]
      exact advanced.registerCallback _ _ again _ p

variable [Fintype Ptr]

theorem Clock.Recurs.registerCallback {c : Clock Ptr Fn Data} {duty : Ptr → Fn} {cells : List Ptr}
    (recurs : c.Recurs duty cells) {fuel : Nat} (enough : Fintype.card Ptr < fuel) (sec msec : UInt16)
    {recurring : UInt8} (again : recurring ≠ 0) (userData : Data) (p : Ptr) :
    ∃ after, c.registerCallback fuel sec msec recurring (duty p) userData p = some after ∧
      after.Recurs duty (enqueue cells p) := by
  obtain ⟨r, represents, rfl, kind⟩ := recurs
  obtain ⟨after, done, repAfter⟩ :=
    represents.registerCallback (represents.enough enough) sec msec recurring (duty p) userData p
  exact ⟨after, done, _, repAfter, rfl, kind.registerCallback sec msec again userData p⟩

theorem Clock.Recurs.unregisterCallback {c : Clock Ptr Fn Data} {duty : Ptr → Fn} {cells : List Ptr}
    (recurs : c.Recurs duty cells) {fuel : Nat} (enough : Fintype.card Ptr < fuel) (p : Ptr) :
    ∃ after, c.unregisterCallback fuel p = some after ∧ after.Recurs duty (cells.erase p) := by
  obtain ⟨r, represents, rfl, kind⟩ := recurs
  obtain ⟨after, done, repAfter⟩ := represents.unregisterCallback (represents.enough enough) p
  exact ⟨after, done, _, repAfter, rfl, fun q member => kind q (List.mem_of_mem_erase member)⟩

theorem Clock.Recurs.isrAtomic {c : Clock Ptr Fn Data} {duty : Ptr → Fn} {cells : List Ptr}
    (recurs : c.Recurs duty cells) {fuel : Nat} (enough : Fintype.card Ptr < fuel) :
    ∃ after found, c.isrAtomic fuel = some (after, found) ∧ after.Recurs duty cells := by
  obtain ⟨r, represents, rfl, kind⟩ := recurs
  obtain ⟨after, done, repAfter⟩ := represents.isrAtomic (represents.enough enough)
  exact ⟨after, r.found, done, r.isrAtomic, repAfter, kind.isrAtomic⟩

end

end Minimus32.Timer1
