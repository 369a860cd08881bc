import Minimus32.Buildpp.Entries

namespace Minimus32.Buildpp

/-- The loop of `findObjectFiles` over the list; `none` when a header is not found. -/
def includesNewer (files : Files) (time : Name → Int) (objTime : Int) : List Item → Option Bool
  | [] => some false
  | .inc blanks incFile :: includeList =>
    if blanks.Accept incFile then
      if incFile ∉ files.names then none
      else if objTime ≤ time incFile then some true
      else includesNewer files time objTime includeList
    else includesNewer files time objTime includeList
  | .link _ :: includeList => includesNewer files time objTime includeList
  | .directive .. :: includeList => includesNewer files time objTime includeList

/-- `$needsRebuild` of `findObjectFiles` for a code file with this list. -/
def needsRebuild (files : Files) (time : Name → Int) (codeFile : Name) (objTime : Int) (includeList : List Item) :
    Option Bool :=
  (includesNewer files time objTime includeList).map fun newer =>
    decide (objTime = -1 ∨ objTime ≤ time codeFile) || newer

/-- The list has an `#include` entry for this file that the patterns accept. -/
def Lists (includeList : List Item) (header : Name) : Prop :=
  ∃ blanks, blanks.Accept header ∧ .inc blanks header ∈ includeList

theorem includesNewer_of_lists {files : Files} {time : Name → Int} {objTime : Int} {includeList : List Item}
    {header : Name} (known : ∀ other, Lists includeList other → other ∈ files.names)
    (listed : Lists includeList header) (newer : objTime ≤ time header) :
    includesNewer files time objTime includeList = some true := by
  obtain ⟨blanks, accept, member⟩ := listed
  induction includeList with
  | nil => cases member
  | cons item includeList ih =>
    have later (other : Name) : Lists includeList other → other ∈ files.names := by
      rintro ⟨blanks, accept, member⟩
      exact known other ⟨blanks, accept, .tail _ member⟩
    cases item with
    | link name =>
      rw [includesNewer]
      exact ih later ((List.mem_cons.mp member).resolve_left nofun)
    | directive kind text =>
      rw [includesNewer]
      exact ih later ((List.mem_cons.mp member).resolve_left nofun)
    | inc own incFile =>
      rw [includesNewer]
      split
      next followed =>
        rw [if_neg (not_not_intro (known incFile ⟨own, followed, .head _⟩))]
        split
        · rfl
        next older =>
          refine ih later ((List.mem_cons.mp member).resolve_left ?_)
          intro same
          cases same
          exact older newer
      next skipped =>
        refine ih later ((List.mem_cons.mp member).resolve_left ?_)
        intro same
        cases same
        exact skipped accept

/-- The files that the walk comes to first along `#include` lines alone. -/
def enteredByInclude (cfg : Config) (files : Files) (file : Name) : List Name :=
  ((FilteredWalk.enter (source cfg files) (files.entries.length + 1) [] (cfg.strip file)).map fun out =>
    (out.2.filter Prod.snd).map Prod.fst).getD []

/-- Each header of a file that `#include` lines lead to is also one of a file that the walk enters along them. -/
def Covered (cfg : Config) (files : Files) (file : Name) : Prop :=
  ∀ f header, (source cfg files).WholeReaches (cfg.strip file) f → (source cfg files).WholeEdge f header →
    ∃ first ∈ enteredByInclude cfg files file, (source cfg files).WholeEdge first header

/-- Only what comes back along `#include` lines alone keeps its `#include` entries. -/
theorem lists_iff {cfg : Config} {files : Files} {entered : List (Name × Bool)} {includeList : List Item}
    (members : ∀ i, i ∈ includeList ↔ ∃ x ∈ entered, (source cfg files).Contributes x i) (header : Name) :
    Lists includeList header ↔ ∃ f, (f, true) ∈ entered ∧ (source cfg files).WholeEdge f header := by
  constructor
  · rintro ⟨blanks, accept, member⟩
    obtain ⟨⟨f, whole⟩, inside, dep, parsed, own, kept⟩ := (members _).mp member
    have all : whole = true := kept.resolve_right nofun
    rw [all] at inside
    exact ⟨f, inside, wholeEdge_iff.mpr ⟨dep, parsed, blanks, accept, own⟩⟩
  · rintro ⟨f, inside, edge⟩
    obtain ⟨dep, parsed, blanks, accept, own⟩ := wholeEdge_iff.mp edge
    exact ⟨blanks, accept, (members _).mpr ⟨_, inside, dep, parsed, own, .inl rfl⟩⟩

theorem headers_listed_iff (cfg : Config) (files : Files) (file : Name) (present : Present cfg files file) :
    ∃ passed includeList,
      (∀ fuel > files.entries.length, parseFileRecurcive cfg files fuel [] file = some (passed, includeList)) ∧
      (((∀ header, Relation.TransGen (source cfg files).WholeEdge (cfg.strip file) header →
            Lists includeList header) ∧
          ∀ time objTime header, Relation.TransGen (source cfg files).WholeEdge (cfg.strip file) header →
            objTime ≤ time header → needsRebuild files time (cfg.strip file) objTime includeList = some true) ↔
        Covered cfg files file) := by
  obtain ⟨passed, entered, includeList, entering, parsed, outcome, members⟩ := present.parseFileRecurcive []
  refine ⟨passed, includeList, parsed, ?_⟩
  have first (f : Name) : f ∈ enteredByInclude cfg files file ↔ (f, true) ∈ entered := by
    simp [enteredByInclude, entering]
  constructor
  · rintro ⟨complete, _⟩ f header path edge
    obtain ⟨other, inside, again⟩ := (lists_iff members header).mp (complete header (.tail' path edge))
    exact ⟨other, (first other).mpr inside, again⟩
  · intro covered
    have complete (header : Name) (path : Relation.TransGen (source cfg files).WholeEdge (cfg.strip file) header) :
        Lists includeList header := by
      obtain ⟨f, reached, edge⟩ := Relation.TransGen.tail'_iff.mp path
      obtain ⟨other, inside, again⟩ := covered f header reached edge
      exact (lists_iff members header).mpr ⟨other, (first other).mp inside, again⟩
    refine ⟨complete, ?_⟩
    intro time objTime header path newer
    have known (other : Name) (listed : Lists includeList other) : other ∈ files.names := by
      obtain ⟨f, inside, dep, found, i, member, leads⟩ := (lists_iff members other).mp listed
      exact (present.complete other ((outcome.reaches _ inside).tail ⟨dep, found, i, member, true, leads⟩)).1
    unfold needsRebuild
    rw [includesNewer_of_lists known (complete header path) newer]
    simp

/-- `f.c` names both headers itself. -/
def directHeaders : Files where
  entries := [(['f', '.', 'c'], [includeLine ['a', '.', 'h'], includeLine ['b', '.', 'h']]),
    (['a', '.', 'h'], [includeLine ['b', '.', 'h']]), (['a', '.', 'c'], [includeLine ['b', '.', 'h']]),
    (['b', '.', 'h'], [includeLine ['a', '.', 'h']]), (['b', '.', 'c'], [])]
  plain := by decide

theorem headers_listed_direct :
    ∃ passed includeList,
      (∀ fuel > 5, parseFileRecurcive cConfig directHeaders fuel [] ['f', '.', 'c'] = some (passed, includeList)) ∧
      ∀ header, Relation.TransGen (source cConfig directHeaders).WholeEdge ['f', '.', 'c'] header →
        Lists includeList header := by
  have own : parseFile cConfig directHeaders ['f', '.', 'c'] =
      some [.inc oneBlank ['a', '.', 'h'], .link ['a'], .inc oneBlank ['b', '.', 'h'], .link ['b']] := by decide +kernel
  have covered : Covered cConfig directHeaders ['f', '.', 'c'] := by
    intro f header _ edge
    obtain ⟨dep, parsed, _, accept, member⟩ := wholeEdge_iff.mp edge
    obtain ⟨e, inside, line, mine, adds⟩ := mem_parseFile parsed member
    refine ⟨['f', '.', 'c'], by decide +kernel, wholeEdge_iff.mpr ⟨_, own, oneBlank, ⟨by decide, accept.2⟩, ?_⟩⟩
    have names : ∀ e ∈ directHeaders.entries, ∀ line ∈ e.2,
        (line.inc.map Prod.snd).getD ['a', '.', 'h'] ∈ [['a', '.', 'h'], ['b', '.', 'h']] := by decide
    cases adds with
    | inc found =>
      have named := names e inside line mine
      rw [found] at named
      rcases List.mem_pair.mp named with same | same <;> rw [show cConfig.strip _ = _ from same] <;> decide
  obtain ⟨passed, includeList, parsed, complete⟩ := headers_listed_iff cConfig directHeaders ['f', '.', 'c']
    (Present.of_closed directHeaders.names (by decide +kernel) (by decide))
  exact ⟨passed, includeList, parsed, (complete.mpr covered).1⟩

/-- `b.h` is reached through the link to `a.c` before `f.c` comes to its own line for it. -/
def linkedFirst : Files where
  entries := [(['f', '.', 'c'], [includeLine ['a', '.', 'h'], includeLine ['b', '.', 'h']]), (['a', '.', 'h'], []),
    (['a', '.', 'c'], [includeLine ['b', '.', 'h']]), (['b', '.', 'h'], [includeLine ['c', '.', 'h']]),
    (['b', '.', 'c'], []), (['c', '.', 'h'], []), (['c', '.', 'c'], [])]
  plain := by decide

theorem headers_lost_linkedFirst :
    Present cConfig linkedFirst ['f', '.', 'c'] ∧
      Relation.TransGen (source cConfig linkedFirst).WholeEdge ['f', '.', 'c'] ['c', '.', 'h'] ∧
      ∃ passed includeList,
        (∀ fuel > 7, parseFileRecurcive cConfig linkedFirst fuel [] ['f', '.', 'c'] = some (passed, includeList)) ∧
        ¬ Lists includeList ['c', '.', 'h'] ∧
        needsRebuild linkedFirst (fun name => if name = ['c', '.', 'h'] then 2 else 0) ['f', '.', 'c'] 1 includeList =
          some false := by
  have present : Present cConfig linkedFirst ['f', '.', 'c'] :=
    Present.of_closed linkedFirst.names (by decide +kernel) (by decide)
  have first : (source cConfig linkedFirst).WholeEdge ['f', '.', 'c'] ['b', '.', 'h'] :=
    wholeEdge_iff.mpr ⟨[.inc oneBlank ['a', '.', 'h'], .link ['a'], .inc oneBlank ['b', '.', 'h'], .link ['b']],
      by decide +kernel, oneBlank, by decide, by decide⟩
  have second : (source cConfig linkedFirst).WholeEdge ['b', '.', 'h'] ['c', '.', 'h'] :=
    wholeEdge_iff.mpr ⟨[.inc oneBlank ['c', '.', 'h'], .link ['c']], by decide +kernel, oneBlank, by decide, by decide⟩
  refine ⟨present, .tail (.single first) second, ?_⟩
  obtain ⟨passed, _, includeList, _, parsed, _, _⟩ := present.parseFileRecurcive []
  refine ⟨passed, includeList, parsed, ?_⟩
  have result : (parseFileRecurcive cConfig linkedFirst 8 [] ['f', '.', 'c']).map Prod.snd =
      some [.inc oneBlank ['a', '.', 'h'], .link ['a'], .inc oneBlank ['b', '.', 'h'], .link ['b'], .link ['b'],
        .link ['c']] := by decide +kernel
  rw [parsed 8 (by decide)] at result
  cases result
  exact ⟨by simp [Lists], by decide +kernel⟩

end Minimus32.Buildpp
