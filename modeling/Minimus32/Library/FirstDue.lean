import Mathlib.Data.List.Basic
import Mathlib.Logic.Function.Basic

namespace FirstDue

variable {P : Type*}

/-- Every unit of time serves the first due job of a queue. A job overdue by `k` has at most
    `bound - 2 - k` jobs before it that can still be served ahead of it: each unit it waited served one
    of them, and a served job does not come back in time. -/
def Punctual (bound now : Nat) (deadline : P → Nat) (queue : List P) : Prop :=
  ∀ front p back, queue = front ++ p :: back → deadline p ≤ now →
    front.countP (fun q => deadline q < deadline p + bound) + (now - deadline p) + 2 ≤ bound

theorem Punctual.lateness {bound now : Nat} {deadline : P → Nat} {queue : List P}
    (punctual : Punctual bound now deadline queue) (positive : 1 ≤ bound) {p : P} (member : p ∈ queue) :
    now < deadline p + bound := by
  obtain ⟨front, back, split⟩ := List.append_of_mem member
  by_cases overdue : deadline p ≤ now
  · have waited := punctual front p back split overdue
    omega
  · omega

theorem punctual_of_pending {bound now : Nat} {deadline : P → Nat} {queue : List P}
    (pending : ∀ p ∈ queue, now < deadline p) : Punctual bound now deadline queue := by
  intro front p back split overdue
  have later := pending p (by rw [split]; simp)
  omega

theorem Punctual.congr {bound now : Nat} {deadline other : P → Nat} {queue : List P}
    (punctual : Punctual bound now deadline queue) (same : ∀ p ∈ queue, other p = deadline p) :
    Punctual bound now other queue := by
  intro front p back split overdue
  have sameFront : front.countP (fun q => other q < other p + bound) =
      front.countP (fun q => deadline q < deadline p + bound) := by
    apply List.countP_congr
    intro q member
    rw [same q (by rw [split]; simp [member]), same p (by rw [split]; simp)]
  rw [same p (by rw [split]; simp)] at overdue
  rw [sameFront, same p (by rw [split]; simp)]
  exact punctual front p back split overdue

theorem split_of_sublist {front back queue : List P} {p : P} (sublist : (front ++ p :: back).Sublist queue) :
    ∃ before after, queue = before ++ p :: after ∧ front.Sublist before := by
  obtain ⟨left, right, rfl, frontLeft, rest⟩ := List.append_sublist_iff.mp sublist
  obtain ⟨head, tail, rfl, member, _⟩ := List.cons_sublist_iff.mp rest
  obtain ⟨skipped, others, rfl⟩ := List.append_of_mem member
  refine ⟨left ++ skipped, others ++ tail, by simp, ?_⟩
  exact frontLeft.trans (List.sublist_append_left _ _)

theorem Punctual.sublist {bound now : Nat} {deadline : P → Nat} {queue rest : List P}
    (punctual : Punctual bound now deadline queue) (sublist : rest.Sublist queue) :
    Punctual bound now deadline rest := by
  intro front p back split overdue
  subst rest
  obtain ⟨before, after, whole, shorter⟩ := split_of_sublist sublist
  have waited := punctual before p after whole overdue
  have fewer := shorter.countP_le (p := fun q => decide (deadline q < deadline p + bound))
  omega

theorem Punctual.append {bound now : Nat} {deadline : P → Nat} {queue : List P} {p : P}
    (punctual : Punctual bound now deadline queue) (later : now < deadline p) :
    Punctual bound now deadline (queue ++ [p]) := by
  intro front q back split overdue
  rcases List.eq_nil_or_concat back with rfl | ⟨init, last, rfl⟩
  · have same := (List.append_inj' split rfl).2
    simp only [List.cons.injEq, and_true] at same
    subst q
    omega
  · rw [List.concat_eq_append, ← List.cons_append, ← List.append_assoc] at split
    exact punctual front q init (List.append_inj' split rfl).1 overdue

/-- A cell that is neither `p` nor before it stands behind it. -/
theorem split_behind {before after front back : List P} {p q : P} (split : before ++ p :: after = front ++ q :: back)
    (outside : q ∉ before) (other : q ≠ p) : ∃ middle, front = before ++ p :: middle ∧ after = middle ++ q :: back := by
  rcases List.append_eq_append_iff.mp split with ⟨extra, frontEq, rest⟩ | ⟨extra, beforeEq, rest⟩
  · cases extra with
    | nil =>
      simp only [List.nil_append, List.cons.injEq] at rest
      exact absurd rest.1.symm other
    | cons head middle =>
      simp only [List.cons_append, List.cons.injEq] at rest
      exact ⟨middle, by rw [frontEq, rest.1], rest.2⟩
  · cases extra with
    | nil =>
      simp only [List.nil_append, List.cons.injEq] at rest
      exact absurd rest.1 other
    | cons head middle =>
      simp only [List.cons_append, List.cons.injEq] at rest
      exact absurd (by rw [beforeEq, rest.1]; simp) outside

section Update

variable [DecidableEq P]

theorem countP_update_le (deadline : P → Nat) (p : P) {fresh limit : Nat} (late : limit ≤ fresh) (queue : List P) :
    queue.countP (fun q => Function.update deadline p fresh q < limit) ≤
      queue.countP (fun q => deadline q < limit) := by
  apply List.countP_mono_left
  intro q _ small
  by_cases same : q = p
  · subst q
    simp only [Function.update_self, decide_eq_true_iff] at small
    omega
  · simpa [Function.update_of_ne same] using small

theorem Punctual.rearm {bound now fresh : Nat} {deadline : P → Nat} {queue : List P} (p : P)
    (punctual : Punctual bound now deadline queue) (positive : 1 ≤ bound) (late : now + bound ≤ fresh) :
    Punctual bound now (Function.update deadline p fresh) queue := by
  intro front q back split overdue
  by_cases same : q = p
  · subst q
    rw [Function.update_self] at overdue
    omega
  · rw [Function.update_of_ne same] at overdue ⊢
    have waited := punctual front q back split overdue
    have fewer := countP_update_le deadline p (show deadline q + bound ≤ fresh by omega) front
    omega

theorem Punctual.serve {bound now fresh : Nat} {deadline : P → Nat} {before after : List P} {p : P}
    (punctual : Punctual bound now deadline (before ++ p :: after)) (positive : 1 ≤ bound)
    (room : (before ++ p :: after).length ≤ bound) (due : deadline p ≤ now + 1)
    (first : ∀ q ∈ before, now + 1 < deadline q) (late : now + 1 + bound ≤ fresh) :
    Punctual bound (now + 1) (Function.update deadline p fresh) (before ++ p :: after) := by
  intro front q back split overdue
  have other : q ≠ p := by
    rintro rfl
    rw [Function.update_self] at overdue
    omega
  rw [Function.update_of_ne other] at overdue ⊢
  have waits : q ∉ before := by
    intro member
    have early := first q member
    omega
  obtain ⟨middle, rfl, rfl⟩ := split_behind split waits other
  have inTime : now + 1 < deadline q + bound := by
    by_cases already : deadline q ≤ now
    · have waited := punctual _ q back split already
      omega
    · omega
  have counted : (before ++ p :: middle).countP (fun r => deadline r < deadline q + bound) =
      before.countP (fun r => deadline r < deadline q + bound) +
        (middle.countP (fun r => deadline r < deadline q + bound) + 1) := by
    rw [List.countP_append, List.countP_cons_of_pos (by simpa using Nat.lt_of_le_of_lt due inTime)]
  have left : (before ++ p :: middle).countP (fun r => Function.update deadline p fresh r < deadline q + bound) =
      before.countP (fun r => Function.update deadline p fresh r < deadline q + bound) +
        middle.countP (fun r => Function.update deadline p fresh r < deadline q + bound) := by
    rw [List.countP_append, List.countP_cons_of_neg (by rw [Function.update_self, decide_eq_true_iff]; omega)]
  have fewerBefore := countP_update_le deadline p (show deadline q + bound ≤ fresh by omega) before
  have fewerMiddle := countP_update_le deadline p (show deadline q + bound ≤ fresh by omega) middle
  have size := List.countP_le_length (p := fun r => decide (deadline r < deadline q + bound)) (l := before ++ p :: middle)
  simp only [List.length_append, List.length_cons] at room size
  by_cases already : deadline q ≤ now
  · have waited := punctual _ q back split already
    omega
  · omega

end Update

end FirstDue
