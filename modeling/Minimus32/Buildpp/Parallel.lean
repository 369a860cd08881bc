import Minimus32.Library.TracedRun
import Mathlib.Algebra.BigOperators.Fin
import Mathlib.Data.List.Range

namespace Minimus32.Buildpp.Parallel

/-- Where a thread is: before the section that takes a job, before the first section of `buildObjectFile`, at the
    compiler command, before the section for a command that failed, before the last section, or out of the loop. -/
inductive Pc where
  | dequeue
  | enter (job : Nat)
  | compile (job : Nat)
  | report (job : Nat)
  | invalidate (job : Nat)
  | done
deriving DecidableEq

inductive Phase where
  | building
  | died
  | linking
deriving DecidableEq

/-- The shared variables, and where the main thread and those it has spawned are. A job is its index in
    `@sortedBuildJobs`. -/
structure State (spawned : Nat) where
  nextBuildJob : Nat
  buildFailed : Bool
  currentOFileNumber : Nat
  pc : Fin (spawned + 1) → Pc
  phase : Phase

inductive Event (spawned : Nat) where
  | thread (t : Fin (spawned + 1))
  | join
deriving DecidableEq

inductive Seen (spawned : Nat) where
  | handed (t : Fin (spawned + 1)) (job : Nat)
  | compiled (job : Nat) (success : Bool)
  | linking
deriving DecidableEq

variable {spawned : Nat}

def State.initial : State spawned := ⟨0, false, 1, fun _ => .dequeue, .building⟩

def State.goto (s : State spawned) (t : Fin (spawned + 1)) (pc : Pc) : State spawned :=
  { s with pc := Function.update s.pc t pc }

/-- One section of `threadBuildFiles` or `buildObjectFile`, one compiler command, or what `buildFiles` does when all
    threads have come to their end. -/
def step (numberOfOFiles showCompilerCommand : Nat) (fails : Nat → Bool) (s : State spawned) :
    Event spawned → Option (State spawned × List (Seen spawned))
  | .thread t =>
    match s.pc t with
    | .dequeue =>
      if s.nextBuildJob = numberOfOFiles then some (s.goto t .done, [])
      else some ({ s with nextBuildJob := s.nextBuildJob + 1 }.goto t (.enter s.nextBuildJob),
        [.handed t s.nextBuildJob])
    | .enter job =>
      if s.buildFailed then some (s.goto t .dequeue, [])
      else some ({ s with currentOFileNumber := s.currentOFileNumber + 1 }.goto t (.compile job), [])
    | .compile job =>
      if fails job then some (s.goto t (.report job), [.compiled job false])
      else some (s.goto t (.invalidate job), [.compiled job true])
    | .report job =>
      -- The failure is remembered only where the command is printed once more.
      if showCompilerCommand = 0 then some ({ s with buildFailed := true }.goto t (.invalidate job), [])
      else some (s.goto t (.invalidate job), [])
    | .invalidate _ => some (s.goto t .dequeue, [])
    | .done => none
  | .join =>
    if s.phase = .building ∧ ∀ t, s.pc t = .done then
      if s.buildFailed then some ({ s with phase := .died }, []) else some ({ s with phase := .linking }, [.linking])
    else none

def Seen.job : Seen spawned → Option Nat
  | .handed _ job => some job
  | .compiled .. | .linking => none

/-- How far a thread is from the end of its job. -/
def Pc.rank : Pc → Nat
  | .done => 0
  | .dequeue => 1
  | .invalidate _ => 2
  | .report _ => 3
  | .compile _ => 4
  | .enter _ => 5

/-- What one section of a thread can do. -/
structure Move (numberOfOFiles showCompilerCommand : Nat) (fails : Nat → Bool) (s : State spawned)
    (t : Fin (spawned + 1)) (after : State spawned) (seen : List (Seen spawned)) : Prop where
  frame : ∀ u, u ≠ t → after.pc u = s.pc u
  phase : after.phase = s.phase
  running : s.pc t ≠ .done
  range : List.range after.nextBuildJob = List.range s.nextBuildJob ++ seen.filterMap Seen.job
  bounded : s.nextBuildJob ≤ numberOfOFiles → after.nextBuildJob ≤ numberOfOFiles
  full : s.nextBuildJob = numberOfOFiles → after.nextBuildJob = numberOfOFiles
  stop : after.pc t = .done → after.nextBuildJob = numberOfOFiles
  new : ∀ job < after.nextBuildJob, job < s.nextBuildJob ∨ after.pc t = .enter job
  holds : ∀ job, s.pc t = .enter job ∨ s.pc t = .compile job → after.buildFailed = true ∨
    (after.pc t = .enter job ∨ after.pc t = .compile job) ∨ .compiled job (!fails job) ∈ seen
  shown : ∀ job success, .compiled job success ∈ seen →
    success = !fails job ∧ (success = false → after.pc t = .report job)
  reports : ∀ job, s.pc t = .report job → showCompilerCommand ≠ 0 ∨ after.buildFailed = true
  fails : s.buildFailed = true → after.buildFailed = true
  quiet : after.buildFailed = true → s.buildFailed = true ∨ showCompilerCommand = 0
  closer : s.nextBuildJob ≤ numberOfOFiles →
    (after.pc t).rank + 5 * (numberOfOFiles - after.nextBuildJob) <
      (s.pc t).rank + 5 * (numberOfOFiles - s.nextBuildJob)

structure Inv (numberOfOFiles showCompilerCommand : Nat) (fails : Nat → Bool) (s : State spawned)
    (past : List (Seen spawned)) : Prop where
  handed : past.filterMap Seen.job = List.range s.nextBuildJob
  bounded : s.nextBuildJob ≤ numberOfOFiles
  stopped : ∀ t, s.pc t = .done → s.nextBuildJob = numberOfOFiles
  kept : ∀ job < s.nextBuildJob, s.buildFailed = true ∨ (∃ t, s.pc t = .enter job ∨ s.pc t = .compile job) ∨
    .compiled job (!fails job) ∈ past
  results : ∀ job success, .compiled job success ∈ past → success = !fails job
  reported : ∀ job, .compiled job false ∈ past → showCompilerCommand ≠ 0 ∨ s.buildFailed = true ∨
    ∃ t, s.pc t = .report job
  silent : s.buildFailed = true → showCompilerCommand = 0
  linking : s.phase = .linking → s.buildFailed = false ∧ ∀ t, s.pc t = .done

section

variable {numberOfOFiles showCompilerCommand : Nat} {fails : Nat → Bool} {s after : State spawned}
  {past seen : List (Seen spawned)} {t : Fin (spawned + 1)}

theorem move_of_step (stepped : step numberOfOFiles showCompilerCommand fails s (.thread t) = some (after, seen)) :
    Move numberOfOFiles showCompilerCommand fails s t after seen := by
  unfold step at stepped
  cases here : s.pc t with
  | dequeue =>
    simp only [here] at stepped
    split at stepped
    · cases stepped
      constructor <;> simp_all [State.goto, Seen.job, Pc.rank]
    · cases stepped
      constructor <;> simp_all [State.goto, Seen.job, Pc.rank, List.range_succ] <;> omega
  | enter job =>
    simp only [here] at stepped
    split at stepped
    · cases stepped
      constructor <;> simp_all [State.goto, Seen.job, Pc.rank]
    · cases stepped
      constructor <;> simp_all [State.goto, Seen.job, Pc.rank]
  | compile job =>
    simp only [here] at stepped
    split at stepped
    · cases stepped
      constructor <;> simp_all [State.goto, Seen.job, Pc.rank]
    · cases stepped
      constructor <;> simp_all [State.goto, Seen.job, Pc.rank]
  | report job =>
    simp only [here] at stepped
    split at stepped
    · cases stepped
      constructor <;> simp_all [State.goto, Seen.job, Pc.rank]
    · cases stepped
      constructor <;> simp_all [State.goto, Seen.job, Pc.rank]
  | invalidate job =>
    simp only [here] at stepped
    cases stepped
    constructor <;> simp_all [State.goto, Seen.job, Pc.rank]
  | done =>
    simp only [here] at stepped
    cases stepped

theorem inv_initial : Inv numberOfOFiles showCompilerCommand fails (State.initial : State spawned) [] := by
  constructor <;> simp [State.initial]

theorem Inv.move (inv : Inv numberOfOFiles showCompilerCommand fails s past)
    (move : Move numberOfOFiles showCompilerCommand fails s t after seen) :
    Inv numberOfOFiles showCompilerCommand fails after (past ++ seen) where
  handed := by rw [List.filterMap_append, inv.handed, move.range]
  bounded := move.bounded inv.bounded
  stopped := by
    intro u ended
    by_cases same : u = t
    · exact move.stop (same ▸ ended)
    · rw [move.frame u same] at ended
      exact move.full (inv.stopped u ended)
  kept := by
    intro job below
    rcases move.new job below with old | fresh
    · rcases inv.kept job old with failed | ⟨u, inside⟩ | compiled
      · exact .inl (move.fails failed)
      · by_cases same : u = t
        · rw [same] at inside
          rcases move.holds job inside with failed | own | compiled
          · exact .inl failed
          · exact .inr (.inl ⟨t, own⟩)
          · exact .inr (.inr (List.mem_append_right _ compiled))
        · rw [← move.frame u same] at inside
          exact .inr (.inl ⟨u, inside⟩)
      · exact .inr (.inr (List.mem_append_left _ compiled))
    · exact .inr (.inl ⟨t, .inl fresh⟩)
  results := by
    intro job success member
    rcases List.mem_append.mp member with old | new
    · exact inv.results job success old
    · exact (move.shown job success new).1
  reported := by
    intro job member
    rcases List.mem_append.mp member with old | new
    · rcases inv.reported job old with shows | failed | ⟨u, inside⟩
      · exact .inl shows
      · exact .inr (.inl (move.fails failed))
      · by_cases same : u = t
        · rw [same] at inside
          rcases move.reports job inside with shows | failed
          · exact .inl shows
          · exact .inr (.inl failed)
        · rw [← move.frame u same] at inside
          exact .inr (.inr ⟨u, inside⟩)
    · exact .inr (.inr ⟨t, (move.shown job false new).2 rfl⟩)
  silent := by
    intro failed
    rcases move.quiet failed with old | shows
    · exact inv.silent old
    · exact shows
  linking := by
    intro linking
    rw [move.phase] at linking
    exact absurd ((inv.linking linking).2 t) move.running

theorem Inv.step (inv : Inv numberOfOFiles showCompilerCommand fails s past) {e : Event spawned}
    (stepped : step numberOfOFiles showCompilerCommand fails s e = some (after, seen)) :
    Inv numberOfOFiles showCompilerCommand fails after (past ++ seen) := by
  cases e with
  | thread t => exact inv.move (move_of_step stepped)
  | join =>
    unfold Parallel.step at stepped
    dsimp only at stepped
    split at stepped
    next ended =>
      split at stepped
      next failed =>
        cases stepped
        rw [List.append_nil]
        exact { inv with linking := nofun }
      next fine =>
        cases stepped
        have same : (past ++ [Seen.linking]).filterMap Seen.job = past.filterMap Seen.job := by simp [Seen.job]
        refine ⟨same.trans inv.handed, inv.bounded, inv.stopped, ?_, ?_, ?_, inv.silent, ?_⟩
        · simpa using inv.kept
        · simpa using inv.results
        · simpa using inv.reported
        · exact fun _ => ⟨by simpa using fine, ended.2⟩
    next => cases stepped

theorem Inv.run {events : List (Event spawned)} {trace : List (Seen spawned)}
    (finished : TracedRun.run (Parallel.step numberOfOFiles showCompilerCommand fails) State.initial events =
      some (s, trace)) : Inv numberOfOFiles showCompilerCommand fails s trace :=
  TracedRun.run_linked (Inv numberOfOFiles showCompilerCommand fails)
    (fun _ _ _ _ _ inv stepped => inv.step stepped) [] inv_initial finished

end

def handings (job : Nat) (trace : List (Seen spawned)) : List (Fin (spawned + 1)) :=
  trace.filterMap fun seen => match seen with
    | .handed t other => if other = job then some t else none
    | .compiled .. | .linking => none

theorem length_handings (job : Nat) (trace : List (Seen spawned)) :
    (handings job trace).length = (trace.filterMap Seen.job).count job := by
  induction trace with
  | nil => rfl
  | cons seen trace ih =>
    unfold handings at ih ⊢
    cases seen with
    | handed t other =>
      by_cases same : other = job
      · simp [same, Seen.job, ih]
      · simp [same, Seen.job, ih]
    | compiled other success => exact ih
    | linking => exact ih

section

variable {numberOfOFiles showCompilerCommand : Nat} {fails : Nat → Bool} {s : State spawned}
  {trace : List (Seen spawned)}

theorem Inv.length_handings_le (inv : Inv numberOfOFiles showCompilerCommand fails s trace) (job : Nat) :
    (handings job trace).length ≤ 1 := by
  rw [length_handings, inv.handed]
  exact List.nodup_iff_count_le_one.mp List.nodup_range job

theorem Inv.handings_eq (inv : Inv numberOfOFiles showCompilerCommand fails s trace) {t : Fin (spawned + 1)}
    (ended : s.pc t = .done) {job : Nat} (below : job < numberOfOFiles) : ∃ u, handings job trace = [u] := by
  rw [← List.length_eq_one_iff, length_handings, inv.handed, inv.stopped t ended]
  exact List.count_eq_one_of_mem List.nodup_range (List.mem_range.mpr below)

theorem Inv.compiled_of_linking (inv : Inv numberOfOFiles showCompilerCommand fails s trace)
    (linking : s.phase = .linking) {job : Nat} (below : job < numberOfOFiles) :
    .compiled job (!fails job) ∈ trace ∧ (showCompilerCommand = 0 → .compiled job false ∉ trace) := by
  obtain ⟨fine, ended⟩ := inv.linking linking
  constructor
  · rcases inv.kept job (inv.stopped 0 (ended 0) ▸ below) with failed | ⟨u, inside⟩ | compiled
    · cases fine.symm.trans failed
    · rw [ended u] at inside
      rcases inside with enter | compile
      · cases enter
      · cases compile
    · exact compiled
  · intro quiet member
    rcases inv.reported job member with shows | failed | ⟨u, inside⟩
    · exact shows quiet
    · cases fine.symm.trans failed
    · cases (ended u).symm.trans inside

end

def State.rank (numberOfOFiles : Nat) (s : State spawned) : Nat :=
  ∑ t, (s.pc t).rank + 5 * (numberOfOFiles - s.nextBuildJob)

theorem sum_rank_of_frame {pc other : Fin (spawned + 1) → Pc} {t : Fin (spawned + 1)}
    (frame : ∀ u, u ≠ t → other u = pc u) :
    ∑ u, (other u).rank + (pc t).rank = ∑ u, (pc u).rank + (other t).rank := by
  have rest : ∑ u ∈ Finset.univ.erase t, (other u).rank = ∑ u ∈ Finset.univ.erase t, (pc u).rank := by
    apply Finset.sum_congr rfl
    intro u member
    rw [frame u (Finset.ne_of_mem_erase member)]
  rw [← Finset.add_sum_erase _ (fun u => (other u).rank) (Finset.mem_univ t),
    ← Finset.add_sum_erase _ (fun u => (pc u).rank) (Finset.mem_univ t), rest]
  omega

section

variable {numberOfOFiles showCompilerCommand : Nat} {fails : Nat → Bool} {s after : State spawned}
  {seen : List (Seen spawned)} {t : Fin (spawned + 1)}

theorem Move.rank_lt (move : Move numberOfOFiles showCompilerCommand fails s t after seen)
    (bounded : s.nextBuildJob ≤ numberOfOFiles) : after.rank numberOfOFiles < s.rank numberOfOFiles := by
  have closer := move.closer bounded
  have sum := sum_rank_of_frame move.frame
  unfold State.rank
  omega

theorem exists_step (numberOfOFiles showCompilerCommand : Nat) (fails : Nat → Bool) (running : s.pc t ≠ .done) :
    ∃ after seen, step numberOfOFiles showCompilerCommand fails s (.thread t) = some (after, seen) := by
  have goes : (step numberOfOFiles showCompilerCommand fails s (.thread t)).isSome = true := by
    cases here : s.pc t with
    | done => exact absurd here running
    | invalidate job => simp only [step, here, Option.isSome_some]
    | dequeue =>
      simp only [step, here]
      split <;> rfl
    | enter job =>
      simp only [step, here]
      split <;> rfl
    | compile job =>
      simp only [step, here]
      split <;> rfl
    | report job =>
      simp only [step, here]
      split <;> rfl
  obtain ⟨out, stepped⟩ := Option.isSome_iff_exists.mp goes
  exact ⟨out.1, out.2, stepped⟩

/-- The threads can always be run to their end. -/
theorem exists_run_done (numberOfOFiles showCompilerCommand : Nat) (fails : Nat → Bool) (s : State spawned)
    (bounded : s.nextBuildJob ≤ numberOfOFiles) :
    ∃ events final trace, TracedRun.run (step numberOfOFiles showCompilerCommand fails) s events =
      some (final, trace) ∧ (∀ t, final.pc t = .done) ∧ final.phase = s.phase := by
  induction measure : s.rank numberOfOFiles using Nat.strong_induction_on generalizing s with
  | h rank ih =>
    by_cases ended : ∀ t, s.pc t = .done
    · exact ⟨[], s, [], rfl, ended, rfl⟩
    · obtain ⟨t, running⟩ := not_forall.mp ended
      obtain ⟨after, seen, stepped⟩ := exists_step numberOfOFiles showCompilerCommand fails running
      have move := move_of_step stepped
      obtain ⟨events, final, trace, finished, done, phase⟩ :=
        ih (after.rank numberOfOFiles) (measure ▸ move.rank_lt bounded) after (move.bounded bounded) rfl
      exact ⟨.thread t :: events, final, seen ++ trace,
        TracedRun.run_cons_eq_some.mpr ⟨after, seen, trace, stepped, finished, rfl⟩, done, phase.trans move.phase⟩

end

/-- Every job goes to one thread. The linking begins only after every command has succeeded exactly when a failed one
    is reported, or when none fails. -/
theorem parallel_build_iff (spawned numberOfOFiles showCompilerCommand : Nat) (fails : Nat → Bool) :
    (∀ (events : List (Event spawned)) final trace,
      TracedRun.run (step numberOfOFiles showCompilerCommand fails) State.initial events = some (final, trace) →
      (∀ job, (handings job trace).length ≤ 1) ∧
        ((∀ t, final.pc t = .done) → ∀ job < numberOfOFiles, ∃ t, handings job trace = [t])) ∧
    ((∀ (events : List (Event spawned)) final trace,
        TracedRun.run (step numberOfOFiles showCompilerCommand fails) State.initial events = some (final, trace) →
        final.phase = .linking →
        (∀ t, final.pc t = .done) ∧
          ∀ job < numberOfOFiles, .compiled job true ∈ trace ∧ .compiled job false ∉ trace) ↔
      showCompilerCommand = 0 ∨ ∀ job < numberOfOFiles, fails job = false) := by
  constructor
  · intro events final trace finished
    have inv := Inv.run finished
    exact ⟨inv.length_handings_le, fun ended job below => inv.handings_eq (ended 0) below⟩
  · constructor
    · intro safe
      by_cases quiet : showCompilerCommand = 0
      · exact .inl quiet
      · right
        intro job below
        obtain ⟨events, final, trace, finished, ended, phase⟩ :=
          exists_run_done numberOfOFiles showCompilerCommand fails (State.initial : State spawned) (Nat.zero_le _)
        have inv := Inv.run finished
        have fine : final.buildFailed = false := by
          cases failed : final.buildFailed with
          | false => rfl
          | true => exact absurd (inv.silent failed) quiet
        have joined : TracedRun.run (step numberOfOFiles showCompilerCommand fails) final [.join] =
            some ({ final with phase := .linking }, [.linking]) := by
          have ready : final.phase = .building ∧ ∀ t, final.pc t = .done := ⟨phase, ended⟩
          simp [TracedRun.run, step, ready, fine]
        have whole := TracedRun.run_append finished joined
        obtain ⟨_, every⟩ := safe _ _ _ whole rfl
        have result := (Inv.run whole).results job true (every job below).1
        simpa using result.symm
    · intro condition events final trace finished linking
      have inv := Inv.run finished
      refine ⟨(inv.linking linking).2, ?_⟩
      intro job below
      obtain ⟨compiled, silent⟩ := inv.compiled_of_linking linking below
      rcases condition with quiet | never
      · have success : fails job = false := by
          cases failing : fails job with
          | false => rfl
          | true =>
            rw [failing] at compiled
            exact absurd compiled (silent quiet)
        rw [success] at compiled
        exact ⟨compiled, silent quiet⟩
      · rw [never job below] at compiled
        refine ⟨compiled, ?_⟩
        intro member
        have result := inv.results job false member
        rw [never job below] at result
        cases result

/-- One thread and one job, whose command is shown and fails. -/
theorem parallel_build_shown_failure :
    (TracedRun.run (step 1 1 fun _ => true) (State.initial : State 0)
      [.thread 0, .thread 0, .thread 0, .thread 0, .thread 0, .thread 0, .join]).map
        (fun out => (out.1.phase, out.2)) =
      some (.linking, [.handed 0 0, .compiled 0 false, .linking]) := by
  decide +kernel

end Minimus32.Buildpp.Parallel
