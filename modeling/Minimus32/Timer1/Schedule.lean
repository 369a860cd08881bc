import Minimus32.Timer1.Roster

namespace Minimus32.Timer1

open Linked

variable {Ptr Fn Data : Type}

/-- The latest request made for a struct: when, for how long, and whether it repeats. -/
structure Arming where
  since : Nat
  delay : Nat
  recurring : Bool
deriving DecidableEq

def Arming.deadline (a : Arming) : Nat := a.since + a.delay

/-- What the callback service promises, kept by an observer who sees only the calls, the ticks and
    the invocations. -/
structure Schedule (Ptr : Type) where
  now : Nat
  chain : List Ptr
  armed : Ptr → Option Arming

def Schedule.empty : Schedule Ptr := ⟨0, [], fun _ => none⟩

section Observing

variable [DecidableEq Ptr]

def Schedule.remove (s : Schedule Ptr) (p : Ptr) : Schedule Ptr :=
  { s with chain := s.chain.erase p, armed := Function.update s.armed p none }

def Schedule.observe (s : Schedule Ptr) : Observation Ptr → Schedule Ptr
  | .registered p delay recurring =>
    { s with
      chain := enqueue s.chain p
      armed := Function.update s.armed p (some ⟨s.now, delay, recurring⟩) }
  | .unregistered p => s.remove p
  | .ticked => { s with now := s.now + 1 }
  | .invoked p =>
    match s.armed p with
    | none => s
    | some a =>
      if a.recurring then { s with armed := Function.update s.armed p (some { a with since := s.now }) }
      else s.remove p

def Schedule.after (s : Schedule Ptr) (trace : List (Observation Ptr)) : Schedule Ptr :=
  trace.foldl Schedule.observe s

def Schedule.of (trace : List (Observation Ptr)) : Schedule Ptr := Schedule.empty.after trace

def Schedule.tick (s : Schedule Ptr) (found : Option Ptr) : Schedule Ptr :=
  match found with
  | none => s.observe .ticked
  | some p => (s.observe .ticked).observe (.invoked p)

theorem Schedule.after_append (s : Schedule Ptr) (left right : List (Observation Ptr)) :
    s.after (left ++ right) = (s.after left).after right := List.foldl_append

theorem Schedule.observe_invoked_of_recurring {s : Schedule Ptr} {p : Ptr} {a : Arming}
    (armed : s.armed p = some a) (recurring : a.recurring = true) :
    s.observe (.invoked p) =
      { s with armed := Function.update s.armed p (some { a with since := s.now }) } := by
  simp [Schedule.observe, armed, recurring]

theorem Schedule.observe_invoked_of_oneShot {s : Schedule Ptr} {p : Ptr} {a : Arming}
    (armed : s.armed p = some a) (oneShot : a.recurring = false) :
    s.observe (.invoked p) = s.remove p := by
  simp [Schedule.observe, armed, oneShot]

theorem armed_update {armed : Ptr → Option Arming} {p q : Ptr} {a b : Arming}
    (updated : Function.update armed p (some a) q = some b) : (q = p ∧ b = a) ∨ (q ≠ p ∧ armed q = some b) := by
  by_cases same : q = p
  · subst q
    rw [Function.update_self] at updated
    exact .inl ⟨rfl, (Option.some.inj updated).symm⟩
  · rw [Function.update_of_ne same] at updated
    exact .inr ⟨same, updated⟩

theorem Schedule.armed_of_remove {s : Schedule Ptr} {p q : Ptr} {a : Arming}
    (armed : (s.remove p).armed q = some a) : s.armed q = some a := by
  by_cases same : q = p
  · subst q
    simp [Schedule.remove] at armed
  · simpa only [Schedule.remove, Function.update_of_ne same] using armed

end Observing

def Event.Calls (ok : Op Ptr Fn Data → Prop) : Event Ptr Fn Data → Prop
  | .op o => ok o
  | .tick body => ∀ f d, ∀ o ∈ body f d, ok o

@[simp]
theorem Event.quiet_calls (ok : Op Ptr Fn Data → Prop) : (Event.quiet : Event Ptr Fn Data).Calls ok := by
  intro f d o member
  cases member

section Links

variable [DecidableEq Ptr]

theorem Roster.performAll_link {link : Roster Ptr Fn Data → Schedule Ptr → Prop} {ok : Op Ptr Fn Data → Prop}
    (perform : ∀ r s o, link r s → ok o → link (r.perform o) (s.observe o.observation))
    (ops : List (Op Ptr Fn Data)) (r : Roster Ptr Fn Data) (s : Schedule Ptr) (linked : link r s)
    (allowed : ∀ o ∈ ops, ok o) : link (r.performAll ops) (s.after (ops.map Op.observation)) := by
  induction ops generalizing r s with
  | nil => exact linked
  | cons o ops ih =>
    exact ih _ _ (perform r s o linked (allowed o (by simp))) (fun other member => allowed other (by simp [member]))

theorem Roster.isr_link {link : Roster Ptr Fn Data → Schedule Ptr → Prop} {ok : Op Ptr Fn Data → Prop}
    (perform : ∀ r s o, link r s → ok o → link (r.perform o) (s.observe o.observation))
    (body : Fn → Data → List (Op Ptr Fn Data)) (r : Roster Ptr Fn Data) (s : Schedule Ptr)
    (ticked : link r.isrAtomic (s.tick r.found)) (allowed : ∀ f d, ∀ o ∈ body f d, ok o) :
    link (r.isr body).1 (s.after (r.isr body).2) := by
  cases found : r.found with
  | none => simpa [Roster.isr, Roster.isrAtomic, Schedule.tick, Schedule.after, found] using ticked
  | some p =>
    simp only [Roster.isrAtomic, Schedule.tick, found] at ticked
    have called := Roster.performAll_link perform (body (r.entries p).callback (r.entries p).userData) _ _
      ticked (allowed _ _)
    simpa [Roster.isr, found, Schedule.after] using called

/-- A link between the clock and its observer that every call and every tick keeps holds after every
    run. `good` may ask something of each state a tick is taken from. -/
theorem Roster.run_link (link : Roster Ptr Fn Data → Schedule Ptr → Prop) (ok : Op Ptr Fn Data → Prop)
    (good : Roster Ptr Fn Data → Prop)
    (perform : ∀ r s o, link r s → ok o → link (r.perform o) (s.observe o.observation))
    (tick : ∀ r s, link r s → good r → link r.isrAtomic (s.tick r.found))
    (events : List (Event Ptr Fn Data)) (r : Roster Ptr Fn Data) (s : Schedule Ptr) (linked : link r s)
    (allowed : ∀ e ∈ events, e.Calls ok) (goodAll : ∀ front, front <+: events → good (r.run front).1) :
    link (r.run events).1 (s.after (r.run events).2) := by
  induction events generalizing r s with
  | nil => exact linked
  | cons e events ih =>
    have stepped : link (r.step e).1 (s.after (r.step e).2) := by
      cases e with
      | op o => exact perform r s o linked (allowed (.op o) (by simp))
      | tick body =>
        exact Roster.isr_link perform body r s (tick r s linked (goodAll [] (List.nil_prefix)))
          (allowed (.tick body) (by simp))
    simp only [Roster.run, Schedule.after_append]
    apply ih _ _ stepped (fun other member => allowed other (by simp [member]))
    intro front isPrefix
    exact goodAll (e :: front) (List.prefix_cons_inj e |>.mpr isPrefix)

end Links

section Agreement

theorem Roster.found_mem (r : Roster Ptr Fn Data) {p : Ptr} (found : r.found = some p) : p ∈ r.cells :=
  List.mem_of_find?_eq_some found

structure Roster.Agrees (r : Roster Ptr Fn Data) (s : Schedule Ptr) : Prop where
  cells : r.cells = s.chain
  nodup : s.chain.Nodup
  armed : ∀ p, p ∈ s.chain ↔ (s.armed p).isSome
  kind : ∀ p a, s.armed p = some a → a.recurring = ((r.entries p).recurring != 0)

theorem Roster.Agrees.armed_of_mem {r : Roster Ptr Fn Data} {s : Schedule Ptr} (agrees : r.Agrees s) {p : Ptr}
    (member : p ∈ s.chain) : ∃ a, s.armed p = some a := Option.isSome_iff_exists.mp ((agrees.armed p).mp member)

variable [DecidableEq Ptr]

theorem enqueue_nodup {cells : List Ptr} (distinct : cells.Nodup) (p : Ptr) : (enqueue cells p).Nodup := by
  unfold enqueue
  split
  · exact distinct
  · rename_i outside
    refine List.nodup_append.mpr ⟨distinct, List.nodup_singleton p, ?_⟩
    intro q member other single same
    rw [List.mem_singleton.mp single] at same
    exact outside (same ▸ member)

theorem Roster.Agrees.registered {r : Roster Ptr Fn Data} {s : Schedule Ptr} (agrees : r.Agrees s)
    (sec msec : UInt16) (recurring : UInt8) (callback : Fn) (userData : Data) (p : Ptr) (delay : Nat) :
    (r.registerCallback sec msec recurring callback userData p).Agrees
      (s.observe (.registered p delay (recurring != 0))) := by
  refine ⟨?_, enqueue_nodup agrees.nodup p, ?_, ?_⟩
  · simp only [Roster.registerCallback, Schedule.observe, agrees.cells]
  · intro q
    simp only [Schedule.observe, mem_enqueue, agrees.armed q]
    by_cases same : q = p
    · subst q
      simp
    · simp [same]
  · intro q a armed
    rcases armed_update armed with ⟨rfl, rfl⟩ | ⟨other, before⟩
    · simp [Roster.registerCallback, Entry.arm]
    · simp only [Roster.registerCallback, Function.update_of_ne other]
      exact agrees.kind q a before

theorem Roster.Agrees.removed {r : Roster Ptr Fn Data} {s : Schedule Ptr} (agrees : r.Agrees s) (p : Ptr) :
    (r.unregisterCallback p).Agrees (s.remove p) := by
  refine ⟨?_, agrees.nodup.erase p, ?_, ?_⟩
  · simp only [Roster.unregisterCallback, Schedule.remove, agrees.cells]
  · intro q
    simp only [Schedule.remove, agrees.nodup.mem_erase_iff, agrees.armed q]
    by_cases same : q = p
    · subst q
      simp
    · simp [same]
  · intro q a armed
    exact agrees.kind q a (Schedule.armed_of_remove armed)

theorem Roster.Agrees.perform {r : Roster Ptr Fn Data} {s : Schedule Ptr} (agrees : r.Agrees s)
    (o : Op Ptr Fn Data) : (r.perform o).Agrees (s.observe o.observation) := by
  cases o with
  | register sec msec recurring callback userData p =>
    exact agrees.registered sec msec recurring callback userData p _
  | unregister p => exact agrees.removed p

theorem Roster.Agrees.advance {r : Roster Ptr Fn Data} {s : Schedule Ptr} (agrees : r.Agrees s) :
    r.advance.Agrees (s.observe .ticked) := ⟨agrees.cells, agrees.nodup, agrees.armed, agrees.kind⟩

/-- To fire a struct is to remove it or to register it again, for the clock and for its observer. -/
theorem Roster.Agrees.fire_cases {r : Roster Ptr Fn Data} {s : Schedule Ptr} (agrees : r.Agrees s) {p : Ptr}
    (member : p ∈ s.chain) {a : Arming} (armed : s.armed p = some a) :
    (r.fire p = r.unregisterCallback p ∧ s.observe (.invoked p) = s.remove p) ∨
      (r.fire p = r.registerCallback (r.entries p).time.freerunningSec (r.entries p).recurringMsec
          (r.entries p).recurring (r.entries p).callback (r.entries p).userData p ∧
        s.observe (.invoked p) = s.observe (.registered p a.delay ((r.entries p).recurring != 0))) := by
  have kind := agrees.kind p a armed
  by_cases oneShot : (r.entries p).recurring = 0
  · left
    exact ⟨r.fire_of_oneShot oneShot, Schedule.observe_invoked_of_oneShot armed (by simpa [oneShot] using kind)⟩
  · right
    have recurring : a.recurring = true := by rw [kind, bne_iff_ne]; exact oneShot
    refine ⟨r.fire_of_recurring oneShot, ?_⟩
    rw [Schedule.observe_invoked_of_recurring armed recurring, ← kind]
    simp only [Schedule.observe, enqueue_of_mem member]

theorem Roster.Agrees.fire {r : Roster Ptr Fn Data} {s : Schedule Ptr} (agrees : r.Agrees s) {p : Ptr}
    (member : p ∈ r.cells) : (r.fire p).Agrees (s.observe (.invoked p)) := by
  rw [agrees.cells] at member
  obtain ⟨a, armed⟩ := agrees.armed_of_mem member
  rcases agrees.fire_cases member armed with ⟨fired, seen⟩ | ⟨fired, seen⟩
  · rw [fired, seen]
    exact agrees.removed p
  · rw [fired, seen]
    exact agrees.registered _ _ _ _ _ p _

theorem Roster.Agrees.tick {r : Roster Ptr Fn Data} {s : Schedule Ptr} (agrees : r.Agrees s) :
    r.isrAtomic.Agrees (s.tick r.found) := by
  cases found : r.found with
  | none => simpa [Roster.isrAtomic, Schedule.tick, found] using agrees.advance
  | some p =>
    simp only [Roster.isrAtomic, Schedule.tick, found]
    exact agrees.advance.fire (r.found_mem found)

theorem Roster.Agrees.run {r : Roster Ptr Fn Data} {s : Schedule Ptr} (agrees : r.Agrees s)
    (events : List (Event Ptr Fn Data)) : (r.run events).1.Agrees (s.after (r.run events).2) := by
  refine Roster.run_link Roster.Agrees (fun _ => True) (fun _ => True) (fun r s o linked _ => linked.perform o)
    (fun r s linked _ => linked.tick) events r s agrees ?_ ?_
  · intro e _
    cases e <;> simp [Event.Calls]
  · exact fun _ _ => trivial

end Agreement

section Start

theorem Roster.start_agrees (c : Clock Ptr Fn Data) : (Roster.start c).Agrees .empty :=
  ⟨rfl, List.nodup_nil, by simp [Schedule.empty], by simp [Schedule.empty]⟩

variable [DecidableEq Ptr] [Fintype Ptr]

/-- From `timer1_clock_init` on, whatever the structs held before, the pointers spell out the list of
    registered structs in the order of registration, end in null and visit no struct twice. -/
theorem chain_lists_schedule (c : Clock Ptr Fn Data) (fuel : Nat) (enough : Fintype.card Ptr < fuel)
    (events : List (Event Ptr Fn Data)) :
    ∃ final trace, c.init.run fuel events = some (final, trace) ∧
      final.links.Holds (Schedule.of trace).chain ∧ (Schedule.of trace).chain.Nodup := by
  obtain ⟨final, finished, represents⟩ := c.init_represents.run enough events
  have agrees := (Roster.start_agrees c).run events
  refine ⟨final, _, finished, ?_, agrees.nodup⟩
  have holds := represents.holds
  rw [agrees.cells] at holds
  exact holds

def Clock.stray (n : Nat) : Clock (Fin n) Unit Unit where
  walltimer := .zero
  chain := none
  structs p := { time := .zero, recurring := 0, recurringMsec := 0, userData := (), callback := (), next := some p }

theorem chain_lists_schedule_stray :
    let events : List (Event (Fin 2) Unit Unit) :=
      [.op (.register 0 1 0 () () 0), .op (.register 0 2 1 () () 1), .op (.register 0 1 0 () () 0),
        .tick fun _ _ => [.register 0 7 0 () () 0, .unregister 1], .quiet]
    Fintype.card (Fin 2) < 3 ∧ ∃ final trace, (Clock.stray 2).init.run 3 events = some (final, trace) ∧
      final.links.Holds (Schedule.of trace).chain ∧ (Schedule.of trace).chain.Nodup :=
  ⟨by decide, chain_lists_schedule (Clock.stray 2) 3 (by decide) _⟩

end Start

end Minimus32.Timer1
