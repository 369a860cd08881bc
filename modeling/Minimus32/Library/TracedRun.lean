import Mathlib.Data.List.Basic

namespace TracedRun

variable {S E O G : Type*}

/-- A run of fallible steps; every step also reports what an observer saw of it. -/
def run (step : S → E → Option (S × List O)) : S → List E → Option (S × List O)
  | s, [] => some (s, [])
  | s, e :: events =>
    (step s e).bind fun first => (run step first.1 events).map fun rest => (rest.1, first.2 ++ rest.2)

def StepsMeet (step : S → E → Option (S × List O)) (good : S → E → Prop) : S → List E → Prop
  | _, [] => True
  | s, e :: events => good s e ∧ ∀ after seen, step s e = some (after, seen) → StepsMeet step good after events

variable {step : S → E → Option (S × List O)} {observe : G → O → G}

theorem run_cons_eq_some {s final : S} {e : E} {events : List E} {trace : List O} :
    run step s (e :: events) = some (final, trace) ↔
      ∃ after seen rest, step s e = some (after, seen) ∧ run step after events = some (final, rest) ∧
        trace = seen ++ rest := by
  constructor
  · intro finished
    obtain ⟨⟨after, seen⟩, first, mapped⟩ := Option.bind_eq_some_iff.mp finished
    obtain ⟨⟨last, rest⟩, later, same⟩ := Option.map_eq_some_iff.mp mapped
    cases same
    exact ⟨after, seen, rest, first, later, rfl⟩
  · rintro ⟨after, seen, rest, first, later, rfl⟩
    simp [run, first, later]

/-- A link between the state and what has been seen so far that every step keeps, every run keeps. -/
theorem run_linked (link : S → List O → Prop)
    (step_link : ∀ s past e after seen, link s past → step s e = some (after, seen) → link after (past ++ seen))
    {s final : S} {trace : List O} {events : List E} (past : List O) (start : link s past)
    (finished : run step s events = some (final, trace)) : link final (past ++ trace) := by
  induction events generalizing s past trace with
  | nil =>
    cases finished
    rwa [List.append_nil]
  | cons e events ih =>
    obtain ⟨after, seen, rest, first, later, rfl⟩ := run_cons_eq_some.mp finished
    rw [← List.append_assoc]
    exact ih (past ++ seen) (step_link s past e after seen start first) later

/-- What every step keeps, every run keeps. -/
theorem run_preserves (kept : S → Prop)
    (step_kept : ∀ s e after seen, kept s → step s e = some (after, seen) → kept after) {s final : S} {events : List E}
    {trace : List O} (start : kept s) (finished : run step s events = some (final, trace)) : kept final :=
  run_linked (fun s _ => kept s) (fun s _ e after seen => step_kept s e after seen) [] start finished

/-- When a step shows only what is fine exactly if it is good, so does a run of steps. -/
theorem run_forall_iff {good : S → E → Prop} {fine : O → Prop}
    (step_iff : ∀ s e after seen, step s e = some (after, seen) → ((∀ o ∈ seen, fine o) ↔ good s e)) {s final : S}
    {events : List E} {trace : List O} (finished : run step s events = some (final, trace)) :
    (∀ o ∈ trace, fine o) ↔ StepsMeet step good s events := by
  induction events generalizing s trace with
  | nil =>
    cases finished
    simp [StepsMeet]
  | cons e events ih =>
    obtain ⟨after, seen, rest, first, later, rfl⟩ := run_cons_eq_some.mp finished
    have meets : StepsMeet step good s (e :: events) ↔ good s e ∧ StepsMeet step good after events := by
      simp [StepsMeet, first]
    rw [List.forall_mem_append, step_iff s e after seen first, ih later, meets]

theorem StepsMeet.of_forall {good : S → E → Prop} {events : List E} (always : ∀ e ∈ events, ∀ s, good s e) (s : S) :
    StepsMeet step good s events := by
  induction events generalizing s with
  | nil => trivial
  | cons e events ih =>
    exact ⟨always e (by simp) s, fun after _ _ => ih (fun later member => always later (by simp [member])) after⟩

theorem StepsMeet.cons {good : S → E → Prop} {s after : S} {e : E} {events : List E} {seen : List O}
    (here : good s e) (stepped : step s e = some (after, seen)) (later : StepsMeet step good after events) :
    StepsMeet step good s (e :: events) := by
  refine ⟨here, ?_⟩
  intro other shown again
  cases stepped.symm.trans again
  exact later

/-- A link between state and observer that every good step keeps, and from which every good step
    succeeds, holds after every run of good steps, and the run succeeds. -/
theorem run_total (link : S → G → Prop) (good : S → E → Prop)
    (succeeds : ∀ s g e, link s g → good s e →
      ∃ after seen, step s e = some (after, seen) ∧ link after (seen.foldl observe g)) :
    ∀ (events : List E) (s : S) (g : G), link s g → StepsMeet step good s events →
      ∃ final trace, run step s events = some (final, trace) ∧ link final (trace.foldl observe g) := by
  intro events
  induction events with
  | nil =>
    intro s g linked _
    exact ⟨s, [], rfl, linked⟩
  | cons e events ih =>
    intro s g linked meets
    obtain ⟨after, seen, stepped, linkedAfter⟩ := succeeds s g e linked meets.1
    obtain ⟨final, rest, finished, linkedFinal⟩ := ih after _ linkedAfter (meets.2 _ _ stepped)
    refine ⟨final, seen ++ rest, run_cons_eq_some.mpr ⟨after, seen, rest, stepped, finished, rfl⟩, ?_⟩
    rw [List.foldl_append]
    exact linkedFinal

/-- The same for a link to what has happened so far, as long as that is good; every step then shows only what is
    fine. -/
theorem run_closed (link : S → List E → Prop) (good : List E → Prop) (fine : O → Prop)
    (closed : ∀ past more, good (past ++ more) → good past)
    (succeeds : ∀ s past e, link s past → good (past ++ [e]) →
      ∃ after seen, step s e = some (after, seen) ∧ link after (past ++ [e]) ∧ ∀ o ∈ seen, fine o) :
    ∀ (events : List E) (s : S) (past : List E), link s past → good (past ++ events) →
      ∃ final trace, run step s events = some (final, trace) ∧ link final (past ++ events) ∧ ∀ o ∈ trace, fine o := by
  intro events
  induction events with
  | nil =>
    intro s past linked _
    exact ⟨s, [], rfl, by rwa [List.append_nil], by simp⟩
  | cons e events ih =>
    intro s past linked every
    rw [List.append_cons] at every
    obtain ⟨after, seen, stepped, linkedAfter, fineSeen⟩ := succeeds s past e linked (closed _ events every)
    obtain ⟨final, rest, finished, linkedFinal, fineRest⟩ := ih after _ linkedAfter every
    refine ⟨final, seen ++ rest, run_cons_eq_some.mpr ⟨after, seen, rest, stepped, finished, rfl⟩, ?_, ?_⟩
    · rwa [List.append_assoc] at linkedFinal
    · intro o member
      rcases List.mem_append.mp member with first | later
      · exact fineSeen o first
      · exact fineRest o later

theorem run_append {s between final : S} {first second : List E} {seen rest : List O}
    (begun : run step s first = some (between, seen)) (ended : run step between second = some (final, rest)) :
    run step s (first ++ second) = some (final, seen ++ rest) := by
  induction first generalizing s seen with
  | nil =>
    cases begun
    exact ended
  | cons e first ih =>
    obtain ⟨after, shown, later, stepped, finished, rfl⟩ := run_cons_eq_some.mp begun
    rw [List.append_assoc]
    exact run_cons_eq_some.mpr ⟨after, shown, later ++ rest, stepped, ih finished, rfl⟩

end TracedRun
