import Mathlib.Data.List.Induction

namespace Framing

variable {α : Type*}

/-- A stream cut into frames: the completed ones, and the one that is still open. -/
structure Frames (α : Type*) where
  complete : List (List α)
  pending : List α

def Frames.all (f : Frames α) : List (List α) := f.complete ++ [f.pending]

section

variable (ends : α → Prop) [DecidablePred ends] (full : List α → Prop) [DecidablePred full]

/-- An item that ends a frame completes the open one; any other item that finds it full completes it too and
    opens the next. -/
def Frames.push (f : Frames α) (item : α) : Frames α :=
  if ends item then ⟨f.complete ++ [f.pending], []⟩
  else if full f.pending then ⟨f.complete ++ [f.pending], [item]⟩
  else ⟨f.complete, f.pending ++ [item]⟩

def frames (items : List α) : Frames α := items.foldl (Frames.push ends full) ⟨[], []⟩

theorem frames_append (items : List α) (item : α) :
    frames ends full (items ++ [item]) = (frames ends full items).push ends full item := by
  rw [frames, List.foldl_append]
  rfl

theorem Frames.push_complete (f : Frames α) (item : α) :
    (f.push ends full item).complete = f.complete ∨
      (f.push ends full item).complete = f.complete ++ [f.pending] := by
  unfold Frames.push
  split_ifs
  · exact .inr rfl
  · exact .inr rfl
  · exact .inl rfl

/-- A frame, open or not, is the beginning of a frame later on. -/
theorem Frames.push_all (f : Frames α) (item : α) {frame : List α} (member : frame ∈ f.all) :
    ∃ longer ∈ (f.push ends full item).all, frame <+: longer := by
  unfold Frames.push
  split_ifs
  · exact ⟨frame, List.mem_append_left _ member, List.prefix_rfl⟩
  · exact ⟨frame, List.mem_append_left _ member, List.prefix_rfl⟩
  · rcases List.mem_append.mp member with earlier | last
    · exact ⟨frame, List.mem_append_left _ earlier, List.prefix_rfl⟩
    · rw [List.mem_singleton.mp last]
      exact ⟨f.pending ++ [item], List.mem_append_right _ (by simp), List.prefix_append _ _⟩

theorem frames_all (items more : List α) {frame : List α} (member : frame ∈ (frames ends full items).all) :
    ∃ longer ∈ (frames ends full (items ++ more)).all, frame <+: longer := by
  induction more using List.reverseRecOn with
  | nil =>
    rw [List.append_nil]
    exact ⟨frame, member, List.prefix_rfl⟩
  | append_singleton more item ih =>
    obtain ⟨longer, found, begun⟩ := ih
    obtain ⟨longest, foundLater, extended⟩ := Frames.push_all ends full _ item found
    rw [← List.append_assoc, frames_append]
    exact ⟨longest, foundLater, begun.trans extended⟩

end

variable {ends : α → Prop} [DecidablePred ends] {full : List α → Prop} [DecidablePred full]

theorem Frames.push_end (f : Frames α) {item : α} (ended : ends item) :
    f.push ends full item = ⟨f.complete ++ [f.pending], []⟩ := if_pos ended

theorem Frames.push_full (f : Frames α) {item : α} (more : ¬ ends item) (filled : full f.pending) :
    f.push ends full item = ⟨f.complete ++ [f.pending], [item]⟩ := by
  rw [Frames.push, if_neg more, if_pos filled]

theorem Frames.push_more (f : Frames α) {item : α} (more : ¬ ends item) (room : ¬ full f.pending) :
    f.push ends full item = ⟨f.complete, f.pending ++ [item]⟩ := by
  rw [Frames.push, if_neg more, if_neg room]

/-- What follows an ended frame is pending as it came, as long as it stays short of a full frame. -/
theorem frames_end_append (items : List α) {terminator : α} (ended : ends terminator) (text : List α)
    (more : ∀ item ∈ text, ¬ ends item) (room : ∀ shorter : List α, shorter.length < text.length → ¬ full shorter) :
    frames ends full (items ++ terminator :: text) =
      ⟨(frames ends full items).complete ++ [(frames ends full items).pending], text⟩ := by
  induction text using List.reverseRecOn with
  | nil => rw [frames_append, Frames.push_end _ ended]
  | append_singleton text item ih =>
    have earlier := ih (fun other member => more other (by simp [member]))
      (fun shorter bound => room shorter (by simp; omega))
    rw [← List.cons_append, ← List.append_assoc, frames_append, earlier,
      Frames.push_more _ (more item (by simp)) (room text (by simp))]

variable (ends full) in
theorem frames_not_ends (items : List α) :
    (∀ frame ∈ (frames ends full items).complete, ∀ item ∈ frame, ¬ ends item) ∧
      ∀ item ∈ (frames ends full items).pending, ¬ ends item := by
  induction items using List.reverseRecOn with
  | nil => simp [frames]
  | append_singleton items item ih =>
    obtain ⟨complete, pending⟩ := ih
    have longer : ∀ frame ∈ (frames ends full items).complete ++ [(frames ends full items).pending],
        ∀ item ∈ frame, ¬ ends item := by
      intro frame member
      rcases List.mem_append.mp member with earlier | last
      · exact complete frame earlier
      · rw [List.mem_singleton.mp last]
        exact pending
    rw [frames_append]
    by_cases ended : ends item
    · rw [Frames.push_end _ ended]
      exact ⟨longer, by simp⟩
    by_cases filled : full (frames ends full items).pending
    · rw [Frames.push_full _ ended filled]
      exact ⟨longer, by simpa using ended⟩
    · rw [Frames.push_more _ ended filled]
      refine ⟨complete, ?_⟩
      intro other member
      rcases List.mem_append.mp member with earlier | last
      · exact pending other earlier
      · rw [List.mem_singleton.mp last]
        exact ended

end Framing
