import Minimus32.Timer1.Run

namespace Minimus32.Timer1

open Linked

variable {Ptr Fn Data : Type}

/-- The statements of `timer1_clock_unregister_callback`, in the order of the source. -/
inductive Point where
  | readHead
  | testEmpty
  | testHead
  | testHeadLast
  | clearHead
  | advanceHead
  | readNext
  | testNext
  | testHit
  | movePrevious
  | moveNext
  | unlink
  | skipNext
  | returned
deriving DecidableEq

/-- A call of `timer1_clock_unregister_callback` that has come to `point`, with its argument and its
    local variables. -/
structure Removal (Ptr Fn Data : Type) where
  clock : Clock Ptr Fn Data
  point : Point
  callbackStruct : Ptr
  previous : Option Ptr
  next : Option Ptr

def Removal.enter (c : Clock Ptr Fn Data) (p : Ptr) : Removal Ptr Fn Data := ⟨c, .readHead, p, none, none⟩

variable [DecidableEq Ptr]

/-- One statement; `none` when it reads through a null pointer. -/
def Removal.statement (m : Removal Ptr Fn Data) : Option (Removal Ptr Fn Data) :=
  match m.point with
  | .readHead => some { m with previous := m.clock.chain, next := none, point := .testEmpty }
  | .testEmpty => some { m with point := if m.clock.chain = none then .returned else .testHead }
  | .testHead => some { m with point := if m.clock.chain = some m.callbackStruct then .testHeadLast else .readNext }
  | .testHeadLast => m.clock.chain.map fun head =>
      { m with point := if (m.clock.structs head).next = none then .clearHead else .advanceHead }
  | .clearHead => some { m with clock := m.clock.store .head none, point := .returned }
  | .advanceHead => m.clock.chain.map fun head =>
      { m with clock := m.clock.store .head (m.clock.structs head).next, point := .returned }
  | .readNext => m.clock.chain.map fun head => { m with next := (m.clock.structs head).next, point := .testNext }
  | .testNext => some { m with point := if m.next = none then .returned else .testHit }
  | .testHit => some { m with point := if m.next ≠ some m.callbackStruct then .movePrevious else .unlink }
  | .movePrevious => some { m with previous := m.next, point := .moveNext }
  | .moveNext => m.next.map fun next => { m with next := (m.clock.structs next).next, point := .testNext }
  | .unlink => m.previous.bind fun previous => m.next.map fun next =>
      { m with clock := m.clock.store (.after previous) (m.clock.structs next).next, point := .skipNext }
  | .skipNext => m.next.map fun next => { m with next := (m.clock.structs next).next, point := .returned }
  | .returned => some m

/-- What happens next to a removal: its own next statement, or a whole execution of the interrupt. -/
inductive Action (Ptr Fn Data : Type) where
  | statement
  | interrupt (body : Fn → Data → List (Op Ptr Fn Data))

def Removal.step (fuel : Nat) (m : Removal Ptr Fn Data) : Action Ptr Fn Data →
    Option (Removal Ptr Fn Data × List (Observation Ptr))
  | .statement => m.statement.map (·, [])
  | .interrupt body => (m.clock.isr fuel body).map fun (c, seen) => ({ m with clock := c }, seen)

def Removal.Reaches (m final : Removal Ptr Fn Data) : Prop :=
  ∃ n, ∀ fuel, TracedRun.run (Removal.step fuel) m (List.replicate n .statement) = some (final, [])

theorem Removal.Reaches.refl (m : Removal Ptr Fn Data) : m.Reaches m := ⟨0, fun _ => rfl⟩

theorem Removal.Reaches.cons {m after final : Removal Ptr Fn Data} (first : m.statement = some after)
    (rest : after.Reaches final) : m.Reaches final := by
  obtain ⟨n, finished⟩ := rest
  refine ⟨n + 1, fun fuel => ?_⟩
  rw [List.replicate_succ]
  exact TracedRun.run_cons_eq_some.mpr ⟨after, [], [], by rw [Removal.step, first, Option.map_some],
    finished fuel, rfl⟩

theorem Removal.reaches_unregisterLoop (target : Ptr) (fuel : Nat) (previous : Ptr) (next : Option Ptr)
    {c after : Clock Ptr Fn Data} (done : c.unregisterLoop target fuel previous next = some after) :
    ∃ last ahead, Removal.Reaches ⟨c, .testNext, target, some previous, next⟩
      ⟨after, .returned, target, last, ahead⟩ := by
  induction fuel generalizing previous next with
  | zero => simp [Clock.unregisterLoop] at done
  | succ fuel ih =>
    cases next with
    | none =>
      cases done
      exact ⟨_, _, .cons rfl (.refl _)⟩
    | some q =>
      by_cases miss : q ≠ target
      · simp only [Clock.unregisterLoop, if_pos miss] at done
        obtain ⟨last, ahead, reaches⟩ := ih q (c.structs q).next done
        have moves : Removal.statement (⟨c, .testHit, target, some previous, some q⟩ : Removal Ptr Fn Data) =
            some ⟨c, .movePrevious, target, some previous, some q⟩ := by simp [Removal.statement, miss]
        exact ⟨last, ahead, .cons rfl (.cons moves (.cons rfl (.cons rfl reaches)))⟩
      · simp only [Clock.unregisterLoop, if_neg miss, Option.some.injEq] at done
        obtain rfl : q = target := not_not.mp miss
        subst after
        have hit : Removal.statement (⟨c, .testHit, q, some previous, some q⟩ : Removal Ptr Fn Data) =
            some ⟨c, .unlink, q, some previous, some q⟩ := by simp [Removal.statement]
        exact ⟨some previous, _, .cons rfl (.cons hit (.cons rfl (.cons rfl (.refl _))))⟩

/-- Without interrupts the statements compute `Clock.unregisterCallback`. -/
theorem Removal.reaches_unregisterCallback (target : Ptr) (fuel : Nat) {c after : Clock Ptr Fn Data}
    (done : c.unregisterCallback fuel target = some after) :
    ∃ last ahead, (Removal.enter c target).Reaches ⟨after, .returned, target, last, ahead⟩ := by
  unfold Clock.unregisterCallback at done
  cases chain : c.chain with
  | none =>
    simp only [chain, Option.some.injEq] at done
    subst after
    have empty : Removal.statement (⟨c, .testEmpty, target, c.chain, none⟩ : Removal Ptr Fn Data) =
        some ⟨c, .returned, target, c.chain, none⟩ := by simp [Removal.statement, chain]
    exact ⟨_, _, .cons rfl (.cons empty (.refl _))⟩
  | some head =>
    simp only [chain] at done
    have nonempty : Removal.statement (⟨c, .testEmpty, target, c.chain, none⟩ : Removal Ptr Fn Data) =
        some ⟨c, .testHead, target, c.chain, none⟩ := by simp [Removal.statement, chain]
    by_cases hit : head = target
    · subst head
      have first : Removal.statement (⟨c, .testHead, target, c.chain, none⟩ : Removal Ptr Fn Data) =
          some ⟨c, .testHeadLast, target, c.chain, none⟩ := by simp [Removal.statement, chain]
      refine ⟨c.chain, none, .cons rfl (.cons nonempty (.cons first ?_))⟩
      by_cases last : (c.structs target).next = none
      · simp only [last, if_true, Option.some.injEq] at done
        subst after
        have clears : Removal.statement (⟨c, .testHeadLast, target, c.chain, none⟩ : Removal Ptr Fn Data) =
            some ⟨c, .clearHead, target, c.chain, none⟩ := by simp [Removal.statement, chain, last]
        exact .cons clears (.cons rfl (.refl _))
      · simp only [last, if_true, if_false, Option.some.injEq] at done
        subst after
        have moves : Removal.statement (⟨c, .testHeadLast, target, c.chain, none⟩ : Removal Ptr Fn Data) =
            some ⟨c, .advanceHead, target, c.chain, none⟩ := by simp [Removal.statement, chain, last]
        have advances : Removal.statement (⟨c, .advanceHead, target, c.chain, none⟩ : Removal Ptr Fn Data) =
            some ⟨{ c with chain := (c.structs target).next }, .returned, target, c.chain, none⟩ := by
          simp [Removal.statement, chain, Clock.store]
        exact .cons moves (.cons advances (.refl _))
    · simp only [hit, if_false] at done
      have other : Removal.statement (⟨c, .testHead, target, c.chain, none⟩ : Removal Ptr Fn Data) =
          some ⟨c, .readNext, target, c.chain, none⟩ := by simp [Removal.statement, chain, hit]
      have reads : Removal.statement (⟨c, .readNext, target, c.chain, none⟩ : Removal Ptr Fn Data) =
          some ⟨c, .testNext, target, some head, (c.structs head).next⟩ := by simp [Removal.statement, chain]
      obtain ⟨last, ahead, reaches⟩ := Removal.reaches_unregisterLoop target fuel head (c.structs head).next done
      exact ⟨last, ahead, .cons rfl (.cons nonempty (.cons other (.cons reads reaches)))⟩

end Minimus32.Timer1
