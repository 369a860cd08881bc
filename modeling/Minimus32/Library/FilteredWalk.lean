import Mathlib.Data.Finset.Card
import Mathlib.Logic.Relation

namespace FilteredWalk

/-- Nodes with lists of items, where an item may lead to another node: over a whole edge all items of that node's walk
    come back, over another one only those that pass. -/
structure Source (N I : Type*) where
  items : N → Option (List I)
  next : I → Option (Bool × N)
  passes : I → Bool

theorem rel_bind {A B C D : Type*} {r : A → B → Prop} {q : C → D → Prop} {a : Option A} {b : Option B}
    (both : Option.Rel r a b) {f : A → Option C} {f' : B → Option D}
    (later : ∀ x y, r x y → Option.Rel q (f x) (f' y)) : Option.Rel q (a.bind f) (b.bind f') := by
  cases both with
  | none => exact .none
  | some related => exact later _ _ related

theorem rel_map {A B C D : Type*} {r : A → B → Prop} {q : C → D → Prop} {a : Option A} {b : Option B}
    (both : Option.Rel r a b) {f : A → C} {f' : B → D} (later : ∀ x y, r x y → q (f x) (f' y)) :
    Option.Rel q (a.map f) (b.map f') := by
  cases both with
  | none => exact .none
  | some related => exact .some (later _ _ related)

variable {N I : Type*}

def Source.Edge (g : Source N I) (a b : N) : Prop :=
  ∃ items, g.items a = some items ∧ ∃ i ∈ items, ∃ whole, g.next i = some (whole, b)

def Source.WholeEdge (g : Source N I) (a b : N) : Prop :=
  ∃ items, g.items a = some items ∧ ∃ i ∈ items, g.next i = some (true, b)

def Source.Reaches (g : Source N I) : N → N → Prop := Relation.ReflTransGen g.Edge

def Source.WholeReaches (g : Source N I) : N → N → Prop := Relation.ReflTransGen g.WholeEdge

/-- Seen from here, the node brings the item. -/
def Source.Contributes (g : Source N I) (e : N × Bool) (i : I) : Prop :=
  ∃ items, g.items e.1 = some items ∧ i ∈ items ∧ (e.2 = true ∨ g.passes i = true)

def Source.Matches (g : Source N I) (c : List N × List I) (e : List N × List (N × Bool)) : Prop :=
  c.1 = e.1 ∧ ∀ i, i ∈ c.2 ↔ ∃ x ∈ e.2, g.Contributes x i

theorem Source.contributes_and_iff (g : Source N I) (x : N × Bool) (whole : Bool) (i : I) :
    g.Contributes (x.1, whole && x.2) i ↔ g.Contributes x i ∧ (whole || g.passes i) = true := by
  simp only [Source.Contributes, Bool.and_eq_true, Bool.or_eq_true]
  constructor
  · rintro ⟨items, found, member, both | passes⟩
    · exact ⟨⟨items, found, member, .inl both.2⟩, .inl both.1⟩
    · exact ⟨⟨items, found, member, .inr passes⟩, .inr passes⟩
  · rintro ⟨⟨items, found, member, mark | passes⟩, kept⟩
    · rcases kept with whole | passes
      · exact ⟨items, found, member, .inl ⟨whole, mark⟩⟩
      · exact ⟨items, found, member, .inr passes⟩
    · exact ⟨items, found, member, .inr passes⟩

/-- The loop over the items of a node, for the nodes alone; a mark says that only whole edges lead to the node. -/
def followNodes (g : Source N I) (visit : List N → N → Option (List N × List (N × Bool))) :
    List I → List N × List (N × Bool) → Option (List N × List (N × Bool))
  | [], l => some l
  | i :: items, l =>
    match g.next i with
    | none => followNodes g visit items l
    | some (whole, m) =>
      (visit l.1 m).bind fun sub =>
        followNodes g visit items (sub.1, l.2 ++ sub.2.map fun e => (e.1, whole && e.2))

structure Outcome (g : Source N I) (seen : List N) (n : N) (after : List N) (entered : List (N × Bool)) : Prop where
  grows : ∀ m, m ∈ after ↔ m ∈ seen ∨ ∃ w, (m, w) ∈ entered
  fresh : ∀ e ∈ entered, e.1 ∉ seen
  root : n ∈ after
  marked : n ∉ seen → (n, true) ∈ entered
  reaches : ∀ e ∈ entered, g.Reaches n e.1
  whole : ∀ m, (m, true) ∈ entered → g.WholeReaches n m
  closed : ∀ e ∈ entered, ∀ b, g.Edge e.1 b → b ∈ after

structure Followed (g : Source N I) (items : List I) (seen after : List N) (new : List (N × Bool)) : Prop where
  grows : ∀ m, m ∈ after ↔ m ∈ seen ∨ ∃ w, (m, w) ∈ new
  fresh : ∀ e ∈ new, e.1 ∉ seen
  targets : ∀ i ∈ items, ∀ w m, g.next i = some (w, m) → m ∈ after
  reaches : ∀ e ∈ new, ∃ i ∈ items, ∃ w m, g.next i = some (w, m) ∧ g.Reaches m e.1 ∧
    (e.2 = true → w = true ∧ g.WholeReaches m e.1)
  closed : ∀ e ∈ new, ∀ b, g.Edge e.1 b → b ∈ after

theorem Followed.cons {g : Source N I} {i : I} {items : List I} {seen between after : List N}
    {entered new : List (N × Bool)} {w : Bool} {m : N} (found : g.next i = some (w, m))
    (first : Outcome g seen m between entered) (rest : Followed g items between after new) :
    Followed g (i :: items) seen after (entered.map (fun e => (e.1, w && e.2)) ++ new) := by
  have mem_first (m : N) : (∃ v, (m, v) ∈ entered.map (fun e => (e.1, w && e.2))) ↔ ∃ v, (m, v) ∈ entered := by
    simp only [List.mem_map, Prod.mk.injEq, Prod.exists]
    constructor
    · rintro ⟨_, a, b, inside, rfl, _⟩
      exact ⟨b, inside⟩
    · rintro ⟨v, inside⟩
      exact ⟨_, m, v, inside, rfl, rfl⟩
  refine ⟨?_, ?_, ?_, ?_, ?_⟩
  · intro x
    rw [rest.grows, first.grows, ← mem_first, or_assoc]
    simp only [List.mem_append, exists_or]
  · intro e member
    rcases List.mem_append.mp member with old | later
    · obtain ⟨x, inside, rfl⟩ := List.mem_map.mp old
      exact first.fresh x inside
    · exact fun inside => rest.fresh e later ((first.grows _).mpr (.inl inside))
  · intro j member v x leads
    rcases List.mem_cons.mp member with rfl | later
    · cases found.symm.trans leads
      exact (rest.grows _).mpr (.inl first.root)
    · exact rest.targets j later v x leads
  · intro e member
    rcases List.mem_append.mp member with old | later
    · obtain ⟨x, inside, rfl⟩ := List.mem_map.mp old
      refine ⟨i, by simp, w, m, found, first.reaches x inside, ?_⟩
      intro mark
      obtain ⟨whole, marked⟩ := Bool.and_eq_true_iff.mp mark
      exact ⟨whole, first.whole x.1 (by rw [← marked]; exact inside)⟩
    · obtain ⟨j, listed, rest⟩ := rest.reaches e later
      exact ⟨j, by simp [listed], rest⟩
  · intro e member b edge
    rcases List.mem_append.mp member with old | later
    · obtain ⟨x, inside, rfl⟩ := List.mem_map.mp old
      exact (rest.grows _).mpr (.inl (first.closed x inside b edge))
    · exact rest.closed e later b edge

theorem followNodes_followed {g : Source N I} {visit : List N → N → Option (List N × List (N × Bool))}
    (visits : ∀ seen m after entered, visit seen m = some (after, entered) → Outcome g seen m after entered)
    {items : List I} {seen after : List N} {before entered : List (N × Bool)}
    (followed : followNodes g visit items (seen, before) = some (after, entered)) :
    ∃ new, entered = before ++ new ∧ Followed g items seen after new := by
  induction items generalizing seen before with
  | nil =>
    cases followed
    exact ⟨[], by simp, by simp, by simp, by simp, by simp, by simp⟩
  | cons i items ih =>
    unfold followNodes at followed
    cases found : g.next i with
    | none =>
      rw [found] at followed
      obtain ⟨new, rfl, rest⟩ := ih followed
      refine ⟨new, rfl, rest.grows, rest.fresh, ?_, ?_, rest.closed⟩
      · intro j member w m leads
        rcases List.mem_cons.mp member with rfl | later
        · cases found.symm.trans leads
        · exact rest.targets j later w m leads
      · intro e member
        obtain ⟨j, listed, path⟩ := rest.reaches e member
        exact ⟨j, by simp [listed], path⟩
    | some edge =>
      obtain ⟨w, m⟩ := edge
      rw [found] at followed
      obtain ⟨⟨between, sub⟩, visited, later⟩ := Option.bind_eq_some_iff.mp followed
      obtain ⟨new, rfl, rest⟩ := ih later
      exact ⟨_, List.append_assoc _ _ _, .cons found (visits _ _ _ _ visited) rest⟩

/-- From nodes that are closed under the edges, a walk sees besides them just what it can reach. -/
theorem Outcome.mem_after_iff {g : Source N I} {seen after : List N} {n : N} {entered : List (N × Bool)}
    (outcome : Outcome g seen n after entered) (closed : ∀ a ∈ seen, ∀ b, g.Edge a b → b ∈ seen) (m : N) :
    m ∈ after ↔ m ∈ seen ∨ g.Reaches n m := by
  rw [outcome.grows]
  constructor
  · rintro (old | ⟨w, new⟩)
    · exact .inl old
    · exact .inr (outcome.reaches _ new)
  · rintro (old | path)
    · exact .inl old
    · rw [← outcome.grows]
      induction path with
      | refl => exact outcome.root
      | tail _ edge ih =>
        rcases (outcome.grows _).mp ih with old | ⟨w, new⟩
        · exact (outcome.grows _).mpr (.inl (closed _ old _ edge))
        · exact outcome.closed _ new _ edge

section

variable [DecidableEq I]

structure Loop (N I : Type*) where
  seen : List N
  unique : List I
  result : List I

def Loop.push (l : Loop N I) (i : I) : Loop N I :=
  if i ∈ l.unique then l else { l with unique := i :: l.unique, result := l.result ++ [i] }

def Loop.pushAll (l : Loop N I) (seen : List N) (items : List I) : Loop N I :=
  items.foldl Loop.push { l with seen }

def Source.keep (g : Source N I) (whole : Bool) (items : List I) : List I :=
  items.filter fun i => whole || g.passes i

def follow (g : Source N I) (visit : List N → N → Option (List N × List I)) : List I → Loop N I → Option (Loop N I)
  | [], l => some l
  | i :: items, l =>
    match g.next i with
    | none => follow g visit items l
    | some (whole, m) =>
      (visit l.seen m).bind fun sub => follow g visit items (l.pushAll sub.1 (g.keep whole sub.2))

def Loop.Listed (l : Loop N I) : Prop := ∀ i ∈ l.unique, i ∈ l.result

theorem Loop.seen_pushAll (l : Loop N I) (seen : List N) (items : List I) : (l.pushAll seen items).seen = seen := by
  have kept (l : Loop N I) : (items.foldl Loop.push l).seen = l.seen := by
    induction items generalizing l with
    | nil => rfl
    | cons i items ih =>
      rw [List.foldl_cons, ih, Loop.push]
      split <;> rfl
  exact kept { l with seen }

theorem Loop.Listed.push {l : Loop N I} (listed : l.Listed) (i : I) :
    (∀ j, j ∈ (l.push i).result ↔ j ∈ l.result ∨ j = i) ∧ (l.push i).Listed := by
  unfold Loop.push
  split
  next old =>
    refine ⟨?_, listed⟩
    intro j
    constructor
    · exact .inl
    · rintro (before | rfl)
      · exact before
      · exact listed _ old
  next =>
    refine ⟨by simp, ?_⟩
    intro j member
    rcases List.mem_cons.mp member with rfl | old
    · simp
    · simp [listed j old]

theorem Loop.Listed.pushAll {l : Loop N I} (listed : l.Listed) (seen : List N) (items : List I) :
    (∀ i, i ∈ (l.pushAll seen items).result ↔ i ∈ l.result ∨ i ∈ items) ∧ (l.pushAll seen items).Listed := by
  have start : ({ l with seen } : Loop N I).Listed := listed
  show (∀ i, i ∈ (items.foldl Loop.push { l with seen }).result ↔
      i ∈ ({ l with seen } : Loop N I).result ∨ i ∈ items) ∧
    (items.foldl Loop.push { l with seen }).Listed
  generalize ({ l with seen } : Loop N I) = a at start ⊢
  induction items generalizing a with
  | nil => exact ⟨by simp, start⟩
  | cons j items ih =>
    obtain ⟨pushed, still⟩ := start.push j
    obtain ⟨result, final⟩ := ih _ still
    refine ⟨?_, final⟩
    intro i
    rw [List.foldl_cons, result, pushed, List.mem_cons, or_assoc]

theorem follow_matches (g : Source N I) {visit : List N → N → Option (List N × List I)}
    {visitNodes : List N → N → Option (List N × List (N × Bool))}
    (visits : ∀ seen m, Option.Rel g.Matches (visit seen m) (visitNodes seen m)) (items : List I) {l : Loop N I}
    {e : List N × List (N × Bool)} (listed : l.Listed) (start : g.Matches (l.seen, l.result) e) :
    Option.Rel (fun l e => g.Matches (l.seen, l.result) e) (follow g visit items l)
      (followNodes g visitNodes items e) := by
  induction items generalizing l e with
  | nil => exact .some start
  | cons i items ih =>
    unfold follow followNodes
    cases found : g.next i with
    | none => exact ih listed start
    | some edge =>
      obtain ⟨whole, m⟩ := edge
      have seen : l.seen = e.1 := start.1
      dsimp only
      rw [seen]
      refine rel_bind (visits e.1 m) ?_
      intro sub subNodes same
      obtain ⟨members, still⟩ := listed.pushAll sub.1 (g.keep whole sub.2)
      refine ih still ⟨(l.seen_pushAll _ _).trans same.1, ?_⟩
      intro j
      rw [members, start.2, Source.keep, List.mem_filter, same.2]
      simp only [List.mem_append, List.mem_map, or_and_right, exists_or]
      refine or_congr Iff.rfl ?_
      constructor
      · rintro ⟨⟨x, inside, brings⟩, kept⟩
        exact ⟨_, ⟨x, inside, rfl⟩, (g.contributes_and_iff x whole j).mpr ⟨brings, kept⟩⟩
      · rintro ⟨_, ⟨x, inside, rfl⟩, brings⟩
        obtain ⟨old, kept⟩ := (g.contributes_and_iff x whole j).mp brings
        exact ⟨⟨x, inside, old⟩, kept⟩

theorem follow_mono {g : Source N I} {visit visit' : List N → N → Option (List N × List I)}
    (more : ∀ seen m out, visit seen m = some out → visit' seen m = some out) {items : List I} {l final : Loop N I}
    (followed : follow g visit items l = some final) : follow g visit' items l = some final := by
  induction items generalizing l with
  | nil => exact followed
  | cons i items ih =>
    unfold follow at followed ⊢
    cases found : g.next i with
    | none =>
      rw [found] at followed
      exact ih followed
    | some edge =>
      rw [found] at followed
      obtain ⟨sub, visited, later⟩ := Option.bind_eq_some_iff.mp followed
      exact Option.bind_eq_some_iff.mpr ⟨sub, more _ _ _ visited, ih later⟩

/-- Two walks that bring the same items and see the same nodes, each behind those it had seen before. -/
def Same (seen seen' : List N) (o o' : List N × List I) : Prop :=
  o.2 = o'.2 ∧ ∃ new, o.1 = new ++ seen ∧ o'.1 = new ++ seen'

def LoopSame (seen seen' : List N) (l l' : Loop N I) : Prop :=
  l.unique = l'.unique ∧ l.result = l'.result ∧ ∃ new, l.seen = new ++ seen ∧ l'.seen = new ++ seen'

theorem LoopSame.pushAll {seen seen' : List N} {l l' : Loop N I} (same : LoopSame seen seen' l l')
    (new : List N) (items : List I) :
    LoopSame seen seen' (l.pushAll (new ++ seen) items) (l'.pushAll (new ++ seen') items) := by
  have start : LoopSame seen seen' { l with seen := new ++ seen } { l' with seen := new ++ seen' } :=
    ⟨same.1, same.2.1, new, rfl, rfl⟩
  unfold Loop.pushAll
  generalize ({ l with seen := new ++ seen } : Loop N I) = a at start ⊢
  generalize ({ l' with seen := new ++ seen' } : Loop N I) = b at start ⊢
  induction items generalizing a b with
  | nil => exact start
  | cons i items ih =>
    refine ih _ _ ?_
    unfold Loop.push
    rw [start.1]
    split
    · exact start
    · exact ⟨rfl, congrArg (· ++ [i]) start.2.1, start.2.2⟩

theorem follow_same {g g' : Source N I} (next : g'.next = g.next) (passes : g'.passes = g.passes)
    {visit visit' : List N → N → Option (List N × List I)} {seen seen' : List N} {inside : N → Prop}
    (visits : ∀ new m, inside m →
      Option.Rel (Same (new ++ seen) (new ++ seen')) (visit (new ++ seen) m) (visit' (new ++ seen') m))
    {items : List I} (targets : ∀ i ∈ items, ∀ w m, g.next i = some (w, m) → inside m) {l l' : Loop N I}
    (start : LoopSame seen seen' l l') :
    Option.Rel (LoopSame seen seen') (follow g visit items l) (follow g' visit' items l') := by
  induction items generalizing l l' with
  | nil => exact .some start
  | cons i items ih =>
    have later {a b : Loop N I} (begun : LoopSame seen seen' a b) :=
      ih (fun j member => targets j (by simp [member])) begun
    unfold follow
    rw [next]
    cases found : g.next i with
    | none => exact later start
    | some edge =>
      obtain ⟨w, m⟩ := edge
      obtain ⟨new, before, before'⟩ := start.2.2
      dsimp only
      rw [before, before']
      refine rel_bind (visits new m (targets i (by simp) w m found)) ?_
      rintro o o' ⟨result, more, after, after'⟩
      have keeps : g'.keep w o'.2 = g.keep w o.2 := by rw [Source.keep, Source.keep, passes, result]
      rw [after, after', keeps, ← List.append_assoc, ← List.append_assoc]
      exact later (start.pushAll _ _)

end

variable [DecidableEq N]

/-- Depth first, each node once: the nodes seen afterwards and the nodes entered, with their marks. -/
def enter (g : Source N I) : Nat → List N → N → Option (List N × List (N × Bool))
  | 0, _, _ => none
  | fuel + 1, seen, n =>
    if n ∈ seen then some (seen, [])
    else (g.items n).bind fun items => followNodes g (enter g fuel) items (n :: seen, [(n, true)])

theorem enter_outcome {g : Source N I} {fuel : Nat} {seen after : List N} {n : N} {entered : List (N × Bool)}
    (done : enter g fuel seen n = some (after, entered)) : Outcome g seen n after entered := by
  induction fuel generalizing seen n after entered with
  | zero => cases done
  | succ fuel ih =>
    unfold enter at done
    split at done
    next old =>
      cases done
      exact ⟨by simp, by simp, old, fun fresh => absurd old fresh, by simp, by simp, by simp⟩
    next fresh =>
      obtain ⟨items, found, followed⟩ := Option.bind_eq_some_iff.mp done
      obtain ⟨new, rfl, rest⟩ := followNodes_followed (fun _ _ _ _ visited => ih visited) followed
      have inside : n ∈ after := (rest.grows n).mpr (.inl (by simp))
      refine ⟨?_, ?_, inside, fun _ => by simp, ?_, ?_, ?_⟩
      · intro m
        rw [rest.grows]
        simp only [List.mem_cons, List.cons_append, List.nil_append, Prod.mk.injEq]
        constructor
        · rintro ((rfl | old) | ⟨w, later⟩)
          · exact .inr ⟨true, .inl ⟨rfl, rfl⟩⟩
          · exact .inl old
          · exact .inr ⟨w, .inr later⟩
        · rintro (old | ⟨w, ⟨rfl, _⟩ | later⟩)
          · exact .inl (.inr old)
          · exact .inl (.inl rfl)
          · exact .inr ⟨w, later⟩
      · intro e member
        rcases List.mem_cons.mp member with rfl | later
        · exact fresh
        · exact fun old => rest.fresh e later (by simp [old])
      · intro e member
        rcases List.mem_cons.mp member with rfl | later
        · exact .refl
        · obtain ⟨i, listed, w, m, leads, path, _⟩ := rest.reaches e later
          exact .head ⟨items, found, i, listed, w, leads⟩ path
      · intro m member
        rcases List.mem_cons.mp member with same | later
        · cases same
          exact .refl
        · obtain ⟨i, listed, w, x, leads, _, mark⟩ := rest.reaches _ later
          obtain ⟨rfl, path⟩ := mark rfl
          exact .head ⟨items, found, i, listed, leads⟩ path
      · intro e member b edge
        rcases List.mem_cons.mp member with rfl | later
        · obtain ⟨others, same, i, listed, w, leads⟩ := edge
          cases found.symm.trans same
          exact rest.targets i listed w b leads
        · exact rest.closed e later b edge

/-- Every node that is reached has its items and is one of finitely many. -/
def Source.Complete (g : Source N I) (nodes : List N) (n : N) : Prop :=
  ∀ m, g.Reaches n m → m ∈ nodes ∧ ∃ items, g.items m = some items

omit [DecidableEq N] in
theorem Source.Complete.step {g : Source N I} {nodes : List N} {n m : N} (complete : g.Complete nodes n)
    (edge : g.Edge n m) : g.Complete nodes m :=
  fun x path => complete x (.head edge path)

omit [DecidableEq N] in
theorem followNodes_isSome {g : Source N I} {visit : List N → N → Option (List N × List (N × Bool))}
    (visits : ∀ seen m after entered, visit seen m = some (after, entered) → Outcome g seen m after entered)
    {items : List I} {seen : List N}
    (succeeds : ∀ i ∈ items, ∀ w m, g.next i = some (w, m) → ∀ later, seen ⊆ later → ∃ out, visit later m = some out)
    (before : List (N × Bool)) : ∃ out, followNodes g visit items (seen, before) = some out := by
  induction items generalizing seen before with
  | nil => exact ⟨_, rfl⟩
  | cons i items ih =>
    unfold followNodes
    cases found : g.next i with
    | none => exact ih (fun j member => succeeds j (by simp [member])) before
    | some edge =>
      obtain ⟨w, m⟩ := edge
      obtain ⟨⟨between, sub⟩, visited⟩ := succeeds i (by simp) w m found seen (List.Subset.refl _)
      have grows : seen ⊆ between := fun x old => ((visits _ _ _ _ visited).grows x).mpr (.inl old)
      simp only [visited, Option.bind_some]
      refine ih ?_ _
      intro j member v x leads later larger
      exact succeeds j (by simp [member]) v x leads later (fun y old => larger (grows old))

theorem card_unseen_lt {nodes seen later : List N} {n : N} (inside : n ∈ nodes) (fresh : n ∉ seen)
    (larger : n :: seen ⊆ later) :
    (nodes.toFinset \ later.toFinset).card < (nodes.toFinset \ seen.toFinset).card := by
  apply Finset.card_lt_card
  refine ⟨?_, ?_⟩
  · intro x member
    simp only [Finset.mem_sdiff, List.mem_toFinset] at member ⊢
    exact ⟨member.1, fun old => member.2 (larger (by simp [old]))⟩
  · intro backwards
    have gone := backwards (show n ∈ nodes.toFinset \ seen.toFinset by simp [inside, fresh])
    simp only [Finset.mem_sdiff, List.mem_toFinset] at gone
    exact gone.2 (larger (by simp))

/-- Fuel above the number of nodes not yet seen is enough. -/
theorem enter_isSome {g : Source N I} {nodes : List N} {n : N} (complete : g.Complete nodes n) {fuel : Nat}
    {seen : List N} (enough : (nodes.toFinset \ seen.toFinset).card < fuel) :
    ∃ out, enter g fuel seen n = some out := by
  induction fuel generalizing seen n with
  | zero => exact absurd enough (Nat.not_lt_zero _)
  | succ fuel ih =>
    unfold enter
    split
    next => exact ⟨_, rfl⟩
    next fresh =>
      obtain ⟨inside, items, found⟩ := complete n .refl
      simp only [found, Option.bind_some]
      refine followNodes_isSome (fun _ _ _ _ visited => enter_outcome visited) ?_ _
      intro i member w m leads later larger
      have less := card_unseen_lt inside fresh larger
      exact ih (complete.step ⟨items, found, i, member, w, leads⟩) (by omega)

variable [DecidableEq I]

/-- The same walk with the items it collects. -/
def collect (g : Source N I) : Nat → List N → N → Option (List N × List I)
  | 0, _, _ => none
  | fuel + 1, seen, n =>
    if n ∈ seen then some (seen, [])
    else (g.items n).bind fun items =>
      (follow g (collect g fuel) items ⟨n :: seen, [], items⟩).map fun l => (l.seen, l.result)

/-- `collect` brings the items of the nodes that `enter` enters, as far as their marks let them pass. -/
theorem collect_matches (g : Source N I) (fuel : Nat) (seen : List N) (n : N) :
    Option.Rel g.Matches (collect g fuel seen n) (enter g fuel seen n) := by
  induction fuel generalizing seen n with
  | zero => exact .none
  | succ fuel ih =>
    unfold collect enter
    split
    next => exact .some ⟨rfl, by simp⟩
    next =>
      cases found : g.items n with
      | none => exact .none
      | some items =>
        have start : g.Matches (n :: seen, items) (n :: seen, [(n, true)]) := by
          refine ⟨rfl, ?_⟩
          intro i
          simp [Source.Contributes, found]
        have both := follow_matches g (fun seen m => ih seen m) items
          (show (⟨n :: seen, [], items⟩ : Loop N I).Listed by simp [Loop.Listed]) start
        have mapped : Option.Rel g.Matches
            ((follow g (collect g fuel) items ⟨n :: seen, [], items⟩).map fun l => (l.seen, l.result))
            ((followNodes g (enter g fuel) items (n :: seen, [(n, true)])).map id) :=
          rel_map both (fun _ _ related => related)
        rwa [Option.map_id] at mapped

theorem collect_mono {g : Source N I} {fuel fuel' : Nat} (order : fuel ≤ fuel') {seen : List N} {n : N}
    {out : List N × List I} (done : collect g fuel seen n = some out) : collect g fuel' seen n = some out := by
  induction fuel generalizing fuel' seen n out with
  | zero => cases done
  | succ fuel ih =>
    obtain ⟨more, rfl⟩ : ∃ more, fuel' = more + 1 := ⟨fuel' - 1, by omega⟩
    unfold collect at done ⊢
    split at done
    next old =>
      rw [if_pos old]
      exact done
    next fresh =>
      rw [if_neg fresh]
      obtain ⟨items, found, mapped⟩ := Option.bind_eq_some_iff.mp done
      obtain ⟨l, followed, same⟩ := Option.map_eq_some_iff.mp mapped
      refine Option.bind_eq_some_iff.mpr ⟨items, found, Option.map_eq_some_iff.mpr ⟨l, ?_, same⟩⟩
      exact follow_mono (fun _ _ _ visited => ih (by omega) visited) followed

/-- The walk from a node depends only on the nodes it can reach: on their items and on which of them were seen. -/
theorem collect_same {g g' : Source N I} (next : g'.next = g.next) (passes : g'.passes = g.passes) {fuel : Nat}
    {seen seen' : List N} {n : N}
    (agree : ∀ m, g.Reaches n m → g'.items m = g.items m ∧ (m ∈ seen ↔ m ∈ seen')) :
    Option.Rel (Same seen seen') (collect g fuel seen n) (collect g' fuel seen' n) := by
  induction fuel generalizing seen seen' n with
  | zero => exact .none
  | succ fuel ih =>
    obtain ⟨items, visited⟩ := agree n .refl
    unfold collect
    by_cases old : n ∈ seen
    · rw [if_pos old, if_pos (visited.mp old)]
      exact .some ⟨rfl, [], rfl, rfl⟩
    · rw [if_neg old, if_neg (fun other => old (visited.mpr other)), items]
      cases found : g.items n with
      | none => exact .none
      | some listed =>
        have start : LoopSame (n :: seen) (n :: seen') (⟨n :: seen, [], listed⟩ : Loop N I) ⟨n :: seen', [], listed⟩ :=
          ⟨rfl, rfl, [], rfl, rfl⟩
        have visits : ∀ new m, g.Edge n m → Option.Rel (Same (new ++ n :: seen) (new ++ n :: seen'))
            (collect g fuel (new ++ n :: seen) m) (collect g' fuel (new ++ n :: seen') m) := by
          intro new m edge
          refine ih ?_
          intro x path
          obtain ⟨sameItems, sameSeen⟩ := agree x (.head edge path)
          exact ⟨sameItems, by simp [sameSeen]⟩
        have targets : ∀ i ∈ listed, ∀ w m, g.next i = some (w, m) → g.Edge n m :=
          fun i member w m leads => ⟨listed, found, i, member, w, leads⟩
        refine rel_map (follow_same next passes visits targets start) ?_
        rintro l l' ⟨_, result, new, after, after'⟩
        exact ⟨result, new ++ [n], by simp [after], by simp [after']⟩

theorem collect_same_items {g g' : Source N I} (next : g'.next = g.next) (passes : g'.passes = g.passes)
    {seen seen' : List N} {n : N}
    (agree : ∀ m, g.Reaches n m → g'.items m = g.items m ∧ (m ∈ seen ↔ m ∈ seen')) (fuel : Nat) :
    (collect g' fuel seen' n).map Prod.snd = (collect g fuel seen n).map Prod.snd := by
  have related : Option.Rel (Same seen seen') (collect g fuel seen n) (collect g' fuel seen' n) :=
    collect_same next passes agree
  generalize collect g fuel seen n = o at related ⊢
  generalize collect g' fuel seen' n = o' at related ⊢
  cases related with
  | none => rfl
  | some same => exact congrArg some same.1.symm

theorem collect_complete {g : Source N I} {nodes : List N} {n : N} (complete : g.Complete nodes n) {fuel : Nat}
    (enough : nodes.length < fuel) (seen : List N) :
    ∃ after entered result, enter g fuel seen n = some (after, entered) ∧
      collect g fuel seen n = some (after, result) ∧ Outcome g seen n after entered ∧
      ∀ i, i ∈ result ↔ ∃ x ∈ entered, g.Contributes x i := by
  have few : (nodes.toFinset \ seen.toFinset).card < fuel :=
    Nat.lt_of_le_of_lt ((Finset.card_le_card Finset.sdiff_subset).trans nodes.toFinset_card_le) enough
  obtain ⟨⟨after, entered⟩, entering⟩ := enter_isSome complete few
  have both := collect_matches g fuel seen n
  rw [entering] at both
  cases collecting : collect g fuel seen n with
  | none =>
    rw [collecting] at both
    cases both
  | some out =>
    rw [collecting] at both
    cases both with
    | some same =>
      obtain ⟨reached, result⟩ := out
      cases same.1
      exact ⟨_, entered, result, entering, rfl, enter_outcome entering, same.2⟩

/-- From no node seen, the items that pass every edge are collected from all nodes that are reached. -/
theorem mem_collect_iff {g : Source N I} {nodes : List N} {n : N} (complete : g.Complete nodes n) {fuel : Nat}
    (enough : nodes.length < fuel) {after : List N} {result : List I}
    (collected : collect g fuel [] n = some (after, result)) {i : I} (passes : g.passes i = true) :
    i ∈ result ↔ ∃ m items, g.Reaches n m ∧ g.items m = some items ∧ i ∈ items := by
  obtain ⟨_, entered, _, _, again, outcome, members⟩ := collect_complete complete enough []
  cases collected.symm.trans again
  rw [members]
  have reached (m : N) : (∃ w, (m, w) ∈ entered) ↔ g.Reaches n m := by
    have both := outcome.mem_after_iff (by simp) m
    rw [outcome.grows] at both
    simpa using both
  constructor
  · rintro ⟨⟨m, w⟩, inside, items, found, member, _⟩
    exact ⟨m, items, (reached m).mp ⟨w, inside⟩, found, member⟩
  · rintro ⟨m, items, path, found, member⟩
    obtain ⟨w, inside⟩ := (reached m).mpr path
    exact ⟨(m, w), inside, items, found, member, .inr passes⟩

end FilteredWalk
