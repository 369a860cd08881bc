import Minimus32.Buildpp.Cache
import Minimus32.Buildpp.Flags

namespace Minimus32.Buildpp

/-- `getGlobalFlags` over the targets in the order of `keys(%fileMapping)`: the run after it, and the lists it looks
    for `#global_cflags` in. -/
def getGlobalFlags (cfg : Config) (files : Files) (time : Name → Int) (now : Int) :
    List Name → Run → Option (Run × List (Name × List Item))
  | [], run => some (run, [])
  | theFile :: targets, run =>
    (parseFileCached cfg files time now run theFile).bind fun called =>
      (getGlobalFlags cfg files time now targets called.1).map fun rest => (rest.1, (theFile, called.2) :: rest.2)

/-- The calls of `buildFiles`, which each begin with nothing passed. -/
def laterCalls (cfg : Config) (files : Files) (time : Name → Int) (now : Int) : List Name → Run → Option Run
  | [], run => some run
  | file :: calls, run =>
    (parseFileCached cfg files time now { run with passed := [] } file).bind fun called =>
      laterCalls cfg files time now calls called.1

section

variable (cfg : Config) (files : Files) (time : Name → Int) (now : Int) (dFiles : Name → Option (Int × List Item))

/-- When these targets are requested, this is the list of the target: in `getGlobalFlags`, and in each call that
    `buildFiles` makes later. -/
def Serves (targets : List Name) (target : Name) (deps : List Item) : Prop :=
  ∃ run tokens, getGlobalFlags cfg files time now targets (Run.start dFiles) = some (run, tokens) ∧
    (target, deps) ∈ tokens ∧
    ∀ calls after, laterCalls cfg files time now calls run = some after →
      ∃ last, parseFileCached cfg files time now { after with passed := [] } target = some (last, deps)

/-- Every target has the list it has when it is the only one. -/
def Independent (targets : List Name) : Prop :=
  ∀ target ∈ targets, ∃ deps, Serves cfg files time now dFiles targets target deps ∧
    Serves cfg files time now dFiles [target] target deps

def Stale (target : Name) : Prop := rebuild cfg files time (dFiles target) target = some true

/-- A target that is found with all it needs, and whose `.d` file names no unknown file. -/
structure Requested (target : Name) : Prop where
  found : target ∈ files.names
  present : Present cfg files target
  tested : ∃ stale, rebuild cfg files time (dFiles target) target = some stale

def Walked (done : List Name) (m : Name) : Prop :=
  ∃ u ∈ done, Stale cfg files time dFiles u ∧ (source cfg files).Reaches u m

/-- The list that a target gets after these. -/
inductive Answer (done : List Name) (target : Name) (deps : List Item) : Prop where
  | parsed (stale : Stale cfg files time dFiles target) (passed after : List Name)
      (walked : ∀ m, m ∈ passed ↔ Walked cfg files time dFiles done m)
      (result : parseFileRecurcive cfg files (files.entries.length + 1) passed target = some (after, deps))
  | read (fresh : rebuild cfg files time (dFiles target) target = some false) (dTime : Int)
      (written : dFiles target = some (dTime, deps))

structure Progress (done : List Name) (run : Run) : Prop where
  passed : ∀ m, m ∈ run.passed ↔ Walked cfg files time dFiles done m
  others : ∀ u, u ∉ done → run.depCache u = none ∧ run.dFiles u = dFiles u

end

section

variable {cfg : Config} {files : Files} {time : Name → Int} {now : Int} {dFiles : Name → Option (Int × List Item)}
  {targets done : List Name} {target file : Name} {deps : List Item} {run after : Run}

theorem Settled.getGlobalFlags (settled : Settled cfg files time run file deps) {tokens : List (Name × List Item)}
    (called : getGlobalFlags cfg files time now targets run = some (after, tokens)) :
    Settled cfg files time after file deps := by
  induction targets generalizing run tokens with
  | nil =>
    cases called
    exact settled
  | cons theFile targets ih =>
    obtain ⟨⟨between, first⟩, single, rest⟩ := Option.bind_eq_some_iff.mp called
    obtain ⟨⟨last, others⟩, remaining, same⟩ := Option.map_eq_some_iff.mp rest
    cases same
    exact ih (settled.step single) remaining

theorem Settled.laterCalls (settled : Settled cfg files time run file deps) {calls : List Name}
    (called : laterCalls cfg files time now calls run = some after) : Settled cfg files time after file deps := by
  induction calls generalizing run with
  | nil =>
    cases called
    exact settled
  | cons other calls ih =>
    obtain ⟨⟨between, first⟩, single, rest⟩ := Option.bind_eq_some_iff.mp called
    have reset : Settled cfg files time { run with passed := [] } file deps := settled
    exact ih (reset.step single) rest

theorem walked_append_singleton (m : Name) :
    Walked cfg files time dFiles (done ++ [target]) m ↔
      Walked cfg files time dFiles done m ∨
        Stale cfg files time dFiles target ∧ (source cfg files).Reaches target m := by
  unfold Walked
  simp only [List.mem_append, List.mem_singleton]
  constructor
  · rintro ⟨u, inside | rfl, stale, path⟩
    · exact .inl ⟨u, inside, stale, path⟩
    · exact .inr ⟨stale, path⟩
  · rintro (⟨u, inside, stale, path⟩ | ⟨stale, path⟩)
    · exact ⟨u, .inl inside, stale, path⟩
    · exact ⟨target, .inr rfl, stale, path⟩

/-- One target: its own walk is added to what is passed. -/
theorem Progress.step (progress : Progress cfg files time dFiles done run) (new : target ∉ done)
    (requested : Requested cfg files time dFiles target) (now : Int) :
    ∃ between deps, parseFileCached cfg files time now run target = some (between, deps) ∧
      Progress cfg files time dFiles (done ++ [target]) between ∧ Answer cfg files time dFiles done target deps := by
  have name := cfg.strip_of_mem_names requested.found
  obtain ⟨absent, disk⟩ := progress.others target new
  obtain ⟨stale, tested⟩ := requested.tested
  have untouched {between : Run} {deps : List Item}
      (called : parseFileCached cfg files time now run target = some (between, deps)) (u : Name)
      (outside : u ∉ done ++ [target]) : between.depCache u = none ∧ between.dFiles u = dFiles u := by
    have different : u ≠ target := fun same => outside (by simp [same])
    obtain ⟨cache, kept⟩ := parseFileCached_frame called (name.symm ▸ different)
    obtain ⟨empty, start⟩ := progress.others u (fun inside => outside (List.mem_append_left _ inside))
    exact ⟨cache.trans empty, kept.trans start⟩
  cases stale with
  | true =>
    obtain ⟨passed, _, deps, _, parsed, outcome, _⟩ := requested.present.parseFileRecurcive run.passed
    have called : parseFileCached cfg files time now run target =
        some (run.store now target passed deps, deps) := by
      rw [parseFileCached_of_absent name absent, disk, tested, Option.bind_some, if_pos rfl,
        parsed _ (Nat.lt_succ_self _)]
      rfl
    refine ⟨_, deps, called, ⟨?_, untouched called⟩,
      .parsed tested run.passed passed progress.passed (parsed _ (Nat.lt_succ_self _))⟩
    intro m
    have closed : ∀ a ∈ run.passed, ∀ b, (source cfg files).Edge a b → b ∈ run.passed := by
      intro a inside b edge
      obtain ⟨u, earlier, stale, path⟩ := (progress.passed a).mp inside
      exact (progress.passed b).mpr ⟨u, earlier, stale, path.tail edge⟩
    have reached := outcome.mem_after_iff closed m
    rw [name, progress.passed] at reached
    rw [walked_append_singleton]
    exact reached.trans (or_congr_right ⟨fun path => ⟨tested, path⟩, fun both => both.2⟩)
  | false =>
    obtain ⟨dTime, deps, written⟩ := dFile_of_fresh tested
    have called : parseFileCached cfg files time now run target = some (run, deps) := by
      rw [parseFileCached_of_absent name absent, disk, tested, written]
      rfl
    refine ⟨run, deps, called, ⟨?_, untouched called⟩, .read tested dTime written⟩
    intro m
    rw [progress.passed, walked_append_singleton]
    have fresh : ¬ Stale cfg files time dFiles target := fun stale => by cases stale.symm.trans tested
    simp [fresh]

/-- The whole loop: every target gets its list after those before it, and keeps it. -/
theorem Progress.getGlobalFlags (progress : Progress cfg files time dFiles done run) (once : targets.Nodup)
    (new : ∀ t ∈ targets, t ∉ done) (requested : ∀ t ∈ targets, Requested cfg files time dFiles t) (now : Int) :
    ∃ after tokens, getGlobalFlags cfg files time now targets run = some (after, tokens) ∧
      tokens.map Prod.fst = targets ∧ (∀ e ∈ tokens, Settled cfg files time after e.1 e.2) ∧
      ∀ before t rest, targets = before ++ t :: rest →
        ∃ deps, (t, deps) ∈ tokens ∧ Answer cfg files time dFiles (done ++ before) t deps := by
  induction targets generalizing done run with
  | nil => exact ⟨run, [], rfl, rfl, nofun, fun before t rest split => by cases before <;> cases split⟩
  | cons first targets ih =>
    obtain ⟨between, deps, single, further, answer⟩ :=
      progress.step (new first (.head _)) (requested first (.head _)) now
    have later (t : Name) (inside : t ∈ targets) : t ∉ done ++ [first] := by
      intro member
      rcases List.mem_append.mp member with old | same
      · exact new t (.tail _ inside) old
      · exact (List.nodup_cons.mp once).1 (List.mem_singleton.mp same ▸ inside)
    obtain ⟨after, tokens, called, names, settled, answers⟩ :=
      ih further (List.nodup_cons.mp once).2 later (fun t inside => requested t (.tail _ inside))
    have all : Buildpp.getGlobalFlags cfg files time now (first :: targets) run =
        some (after, (first, deps) :: tokens) := by
      rw [Buildpp.getGlobalFlags, single, Option.bind_some, called]
      rfl
    refine ⟨after, _, all, congrArg (first :: ·) names, ?_, ?_⟩
    · intro e member
      rcases List.mem_cons.mp member with rfl | inside
      · exact (settled_of_parseFileCached single).getGlobalFlags called
      · exact settled e inside
    · intro before t rest split
      cases before with
      | nil =>
        cases split
        exact ⟨deps, .head _, by rwa [List.append_nil]⟩
      | cons head before =>
        cases split
        obtain ⟨own, member, result⟩ := answers before t rest rfl
        rw [List.append_assoc] at result
        exact ⟨own, .tail _ member, result⟩

theorem progress_start (dFiles : Name → Option (Int × List Item)) :
    Progress cfg files time dFiles [] (Run.start dFiles) where
  passed := by simp [Run.start, Walked]
  others := fun _ _ => ⟨rfl, rfl⟩

section

variable {before rest : List Name} (once : targets.Nodup)
  (requested : ∀ t ∈ targets, Requested cfg files time dFiles t) (split : targets = before ++ target :: rest)
include once requested split

theorem exists_serves (now : Int) :
    ∃ deps, Serves cfg files time now dFiles targets target deps ∧
      Answer cfg files time dFiles before target deps := by
  obtain ⟨run, tokens, called, _, settled, answers⟩ :=
    (progress_start dFiles).getGlobalFlags once nofun requested now
  obtain ⟨deps, member, answer⟩ := answers before target rest split
  refine ⟨deps, ⟨run, tokens, called, member, ?_⟩, answer⟩
  intro calls after later
  exact ⟨_, ((settled _ member).laterCalls later).answer []⟩

theorem answer_of_serves (serves : Serves cfg files time now dFiles targets target deps) :
    Answer cfg files time dFiles before target deps := by
  obtain ⟨run, tokens, called, names, _, answers⟩ :=
    (progress_start dFiles).getGlobalFlags once nofun requested now
  obtain ⟨own, member, answer⟩ := answers before target rest split
  obtain ⟨_, _, again, listed, _⟩ := serves
  cases called.symm.trans again
  have same : (target, deps) = (target, own) :=
    List.inj_on_of_nodup_map (names.symm ▸ once) listed member rfl
  cases same
  exact answer

end

/-- What was passed before matters only where the target itself comes to. -/
theorem Answer.eq_of_agree {other : List Name} {own alone : List Item}
    (requested : Requested cfg files time dFiles target)
    (first : Answer cfg files time dFiles done target own) (second : Answer cfg files time dFiles other target alone)
    (agree : Stale cfg files time dFiles target → ∀ m, (source cfg files).Reaches target m →
      (Walked cfg files time dFiles done m ↔ Walked cfg files time dFiles other m)) : own = alone := by
  have name := cfg.strip_of_mem_names requested.found
  cases first with
  | read fresh dTime written =>
    cases second with
    | read _ dTime again =>
      cases written.symm.trans again
      rfl
    | parsed stale => cases stale.symm.trans fresh
  | parsed stale passed after walked result =>
    cases second with
    | read fresh => cases stale.symm.trans fresh
    | parsed _ passed' after' walked' result' =>
      have seen (m : Name) (path : (source cfg files).Reaches target m) :
          (source cfg files).items m = (source cfg files).items m ∧ (m ∈ passed' ↔ m ∈ passed) :=
        ⟨rfl, (walked' m).trans ((agree stale m path).symm.trans (walked m).symm)⟩
      have same := FilteredWalk.collect_same_items rfl rfl seen (files.entries.length + 1)
      rw [parseFileRecurcive_eq_collect, name] at result result'
      rw [result, result'] at same
      exact Option.some.inj same

theorem stale_withFlags (extra : Name → List Name) :
    Stale cfg (files.withFlags extra) time dFiles target ↔ Stale cfg files time dFiles target := by
  unfold Stale
  rw [rebuild_of_names (files.names_withFlags extra)]

theorem Requested.withFlags (requested : Requested cfg files time dFiles target) (extra : Name → List Name) :
    Requested cfg (files.withFlags extra) time dFiles target where
  found := by
    rw [files.names_withFlags]
    exact requested.found
  present := requested.present.withFlags extra
  tested := by
    rw [rebuild_of_names (files.names_withFlags extra)]
    exact requested.tested

/-- A text that no file has tells whether a list was made with this file. -/
theorem exists_marker (cfg : Config) (files : Files) (m : Name) :
    ∃ text, ∀ file dep,
      parseFile cfg (files.withFlags fun name => if name = m then [text] else []) file = some dep →
      .directive .ldflags text ∈ dep → cfg.strip file = m := by
  obtain ⟨text, unused⟩ := exists_text_notMem (files.entries.flatMap fun e => parseLines cfg e.2)
  refine ⟨text, ?_⟩
  intro file dep parsed member
  rw [parseFile_withFlags] at parsed
  obtain ⟨own, found, rfl⟩ := Option.map_eq_some_iff.mp parsed
  obtain ⟨lines, listed, rfl⟩ := Option.map_eq_some_iff.mp found
  rcases List.mem_append.mp member with marked | old
  · by_contra different
    rw [if_neg different] at marked
    cases marked
  · exact absurd (List.mem_flatMap.mpr ⟨_, mem_entries_of_lookup listed, old⟩) unused

/-- A file that was passed before the target is missing in the target's list. -/
theorem Answer.shared (requested : Requested cfg files time dFiles target)
    (stale : Stale cfg files time dFiles target) {m : Name} (walked : Walked cfg files time dFiles done m)
    (reached : (source cfg files).Reaches target m) :
    ∃ extra, ∀ deps, Answer cfg (files.withFlags extra) time dFiles done target deps →
      ¬ Answer cfg (files.withFlags extra) time dFiles [] target deps := by
  obtain ⟨text, marker⟩ := exists_marker cfg files m
  refine ⟨fun name => if name = m then [text] else [], ?_⟩
  have name := cfg.strip_of_mem_names requested.found
  have present := requested.present.withFlags fun name => if name = m then [text] else []
  have again := (stale_withFlags fun name => if name = m then [text] else []).mpr stale
  intro deps first second
  -- Alone, the target comes to `m` and lists its line.
  have listed : .directive .ldflags text ∈ deps := by
    cases second with
    | read fresh => cases again.symm.trans fresh
    | parsed _ passed _ none result =>
      have empty : passed = [] := by
        apply List.eq_nil_iff_forall_not_mem.mpr
        intro x inside
        obtain ⟨u, absent, _⟩ := (none x).mp inside
        cases absent
      rw [empty, files.length_withFlags] at result
      exact flag_mem requested.present (name.symm ▸ reached) (by simp) result
  cases first with
  | read fresh => cases again.symm.trans fresh
  | parsed _ passed _ before result =>
    obtain ⟨_, entered, _, _, parsed, outcome, members⟩ := present.parseFileRecurcive passed
    cases result.symm.trans (parsed _ (Nat.lt_succ_self _))
    -- Only `m` has the line, and `m` is not entered again.
    obtain ⟨x, inside, dep, found, member, _⟩ := (members _).mp listed
    have own : cfg.strip x.1 = m := marker x.1 dep found member
    rw [cfg.strip_of_mem_names (present.complete x.1 (outcome.reaches x inside)).1] at own
    apply outcome.fresh x inside
    rw [own, before]
    obtain ⟨u, earlier, old, path⟩ := walked
    exact ⟨u, earlier, (stale_withFlags _).mpr old, reaches_withFlags.mpr path⟩

theorem exists_before {a b : Name} (inside : a ∈ targets) (other : b ∈ targets) (different : a ≠ b) :
    ∃ first second before rest, targets = before ++ second :: rest ∧ first ∈ before ∧
      (first = a ∧ second = b ∨ first = b ∧ second = a) := by
  obtain ⟨before, rest, rfl⟩ := List.append_of_mem other
  rcases List.mem_append.mp inside with earlier | later
  · exact ⟨a, b, before, rest, rfl, earlier, .inl ⟨rfl, rfl⟩⟩
  · obtain ⟨between, last, rfl⟩ := List.append_of_mem ((List.mem_cons.mp later).resolve_left different)
    exact ⟨b, a, before ++ b :: between, last, by simp, by simp, .inr ⟨rfl, rfl⟩⟩

end

/-- Whatever flags the files have, each target has the list it would have alone, exactly when no two targets that are
    parsed in this run come to the same file. -/
theorem targets_independent_iff (cfg : Config) (files : Files) (time : Name → Int) (now : Int)
    (dFiles : Name → Option (Int × List Item)) (targets : List Name) (once : targets.Nodup)
    (requested : ∀ t ∈ targets, Requested cfg files time dFiles t) :
    (∀ extra, Independent cfg (files.withFlags extra) time now dFiles targets) ↔
      ∀ a ∈ targets, ∀ b ∈ targets, a ≠ b → Stale cfg files time dFiles a → Stale cfg files time dFiles b →
        ∀ m, (source cfg files).Reaches a m → ¬ (source cfg files).Reaches b m := by
  constructor
  · intro independent a inside b other different staleA staleB m pathA pathB
    obtain ⟨first, second, before, rest, split, earlier, both⟩ := exists_before inside other different
    obtain ⟨staleFirst, staleSecond, pathFirst, pathSecond⟩ : Stale cfg files time dFiles first ∧
        Stale cfg files time dFiles second ∧ (source cfg files).Reaches first m ∧
          (source cfg files).Reaches second m := by
      rcases both with ⟨rfl, rfl⟩ | ⟨rfl, rfl⟩
      · exact ⟨staleA, staleB, pathA, pathB⟩
      · exact ⟨staleB, staleA, pathB, pathA⟩
    have member : second ∈ targets := by simp [split]
    obtain ⟨extra, apart⟩ := Answer.shared (requested second member) staleSecond
      ⟨first, earlier, staleFirst, pathFirst⟩ pathSecond
    obtain ⟨deps, serves, alone⟩ := independent extra second member
    have every (t : Name) (inside : t ∈ targets) := (requested t inside).withFlags extra
    have single : [second] = [] ++ second :: [] := rfl
    exact apart deps (answer_of_serves once every split serves)
      (answer_of_serves (List.nodup_singleton second) (by simpa using every second member) single alone)
  · intro apart extra target member
    have every (t : Name) (inside : t ∈ targets) := (requested t inside).withFlags extra
    obtain ⟨before, rest, split⟩ := List.append_of_mem member
    obtain ⟨own, serves, answer⟩ := exists_serves once every split now
    obtain ⟨single, alone, solo⟩ := exists_serves (List.nodup_singleton target) (by simpa using every target member)
      (show [target] = [] ++ target :: [] from rfl) now
    have same : own = single := by
      refine answer.eq_of_agree (every target member) solo ?_
      intro stale m reached
      constructor
      · rintro ⟨u, earlier, old, path⟩
        have different : u ≠ target := by
          rintro rfl
          rw [split] at once
          exact (List.nodup_append.mp once).2.2 u earlier u (.head _) rfl
        have inside : u ∈ targets := by
          rw [split]
          exact List.mem_append_left _ earlier
        exact absurd (reaches_withFlags.mp reached) (apart u inside target member different
          ((stale_withFlags extra).mp old) ((stale_withFlags extra).mp stale) m (reaches_withFlags.mp path))
      · rintro ⟨u, absent, _⟩
        cases absent
    rw [same] at serves
    exact ⟨single, serves, alone⟩

def apartFiles : Files where
  entries := [(['a', '.', 'c'], [includeLine ['x', '.', 'h']]), (['x', '.', 'h'], []), (['x', '.', 'c'], []),
    (['b', '.', 'c'], [includeLine ['y', '.', 'h']]), (['y', '.', 'h'], []), (['y', '.', 'c'], [])]
  plain := by decide

def apartFlags : Name → List Name := fun name => if name = ['x', '.', 'h'] then [['-', 'l', 'm']] else []

theorem targets_independent_apart :
    Independent cConfig (apartFiles.withFlags apartFlags) (fun _ => 1) 10 (fun _ => none)
      [['a', '.', 'c'], ['b', '.', 'c']] := by
  have left : closed cConfig apartFiles [['a', '.', 'c'], ['x', '.', 'h'], ['x', '.', 'c']] = true := by
    decide +kernel
  have right : closed cConfig apartFiles [['b', '.', 'c'], ['y', '.', 'h'], ['y', '.', 'c']] = true := by
    decide +kernel
  refine (targets_independent_iff cConfig apartFiles (fun _ => 1) 10 (fun _ => none)
    [['a', '.', 'c'], ['b', '.', 'c']] (by decide) ?_).mpr ?_ apartFlags
  · intro t member
    rcases List.mem_pair.mp member with rfl | rfl
    · exact ⟨by decide, .of_closed _ left (by decide), true, rfl⟩
    · exact ⟨by decide, .of_closed _ right (by decide), true, rfl⟩
  · intro a inside b other different _ _ m pathA pathB
    rcases List.mem_pair.mp inside with rfl | rfl <;> rcases List.mem_pair.mp other with rfl | rfl
    · exact different rfl
    · have mine := mem_of_closed left (by decide) pathA
      have yours := mem_of_closed right (by decide) pathB
      simp at mine yours
      rcases mine with rfl | rfl | rfl <;> simp at yours
    · have mine := mem_of_closed right (by decide) pathA
      have yours := mem_of_closed left (by decide) pathB
      simp at mine yours
      rcases mine with rfl | rfl | rfl <;> simp at yours
    · exact different rfl

/-- Two programs with one header, which needs a library. -/
def sharedHeader : Files where
  entries := [(['a', '.', 'c'], [includeLine ['x', '.', 'h']]), (['b', '.', 'c'], [includeLine ['x', '.', 'h']]),
    (['x', '.', 'h'], [flagLine ['-', 'l', 'm']]), (['x', '.', 'c'], [])]
  plain := by decide

theorem targets_dependent_sharedHeader :
    (∀ t ∈ [['a', '.', 'c'], ['b', '.', 'c']], Requested cConfig sharedHeader (fun _ => 1) (fun _ => none) t) ∧
      ¬ Independent cConfig sharedHeader (fun _ => 1) 10 (fun _ => none) [['a', '.', 'c'], ['b', '.', 'c']] := by
  have isClosed : closed cConfig sharedHeader sharedHeader.names = true := by decide +kernel
  constructor
  · intro t member
    rcases List.mem_pair.mp member with rfl | rfl
    · exact ⟨by decide, .of_closed _ isClosed (by decide), true, rfl⟩
    · exact ⟨by decide, .of_closed _ isClosed (by decide), true, rfl⟩
  · intro independent
    have two : (getGlobalFlags cConfig sharedHeader (fun _ => 1) 10 [['a', '.', 'c'], ['b', '.', 'c']]
        (Run.start fun _ => none)).map Prod.snd =
        some [(['a', '.', 'c'], [.inc oneBlank ['x', '.', 'h'], .link ['x'], .directive .ldflags ['-', 'l', 'm']]),
          (['b', '.', 'c'], [.inc oneBlank ['x', '.', 'h'], .link ['x']])] := by decide +kernel
    have one : (getGlobalFlags cConfig sharedHeader (fun _ => 1) 10 [['b', '.', 'c']]
        (Run.start fun _ => none)).map Prod.snd =
        some [(['b', '.', 'c'], [.inc oneBlank ['x', '.', 'h'], .link ['x'], .directive .ldflags ['-', 'l', 'm']])] := by
      decide +kernel
    obtain ⟨deps, ⟨_, tokens, called, member, _⟩, ⟨_, single, alone, listed, _⟩⟩ :=
      independent ['b', '.', 'c'] (by decide)
    rw [called] at two
    rw [alone] at one
    cases two
    cases one
    simp at member listed
    rw [member] at listed
    cases listed

end Minimus32.Buildpp
