import Minimus32.Library.Interaction

namespace Interaction.Program

variable {Op Op' : Type} {Reply : Op → Type} {Reply' : Op' → Type} {α σ τ : Type}

/-- A program for one part of surroundings that consist of two. -/
def left (Reply' : Op' → Type) : Program Op Reply α → Program (Op ⊕ Op') (Sum.elim Reply Reply') α
  | .done a => .done a
  | .ask op next => .ask (.inl op) fun reply => (next reply).left Reply'

def right (Reply : Op → Type) : Program Op' Reply' α → Program (Op ⊕ Op') (Sum.elim Reply Reply') α
  | .done a => .done a
  | .ask op next => .ask (.inr op) fun reply => (next reply).right Reply

/-- Surroundings that consist of two parts. -/
def beside (answer : σ → (op : Op) → Option (Reply op × σ)) (answer' : τ → (op : Op') → Option (Reply' op × τ))
    (s : σ × τ) : (op : Op ⊕ Op') → Option (Sum.elim Reply Reply' op × (σ × τ))
  | .inl op => (answer s.1 op).map fun replied => (replied.1, replied.2, s.2)
  | .inr op => (answer' s.2 op).map fun replied => (replied.1, s.1, replied.2)

variable {answer : σ → (op : Op) → Option (Reply op × σ)} {answer' : τ → (op : Op') → Option (Reply' op × τ)}

theorem run_left (program : Program Op Reply α) (s : σ) (t : τ) :
    (program.left Reply').run (beside answer answer') (s, t) =
      (program.run answer s).map fun ended => (ended.1, ended.2, t) := by
  induction program generalizing s with
  | done a => rfl
  | ask op next ih =>
    show ((answer s op).map _).bind _ = ((answer s op).bind _).map _
    cases answer s op with
    | none => rfl
    | some replied => exact ih replied.1 replied.2

theorem run_right (program : Program Op' Reply' α) (s : σ) (t : τ) :
    (program.right Reply).run (beside answer answer') (s, t) =
      (program.run answer' t).map fun ended => (ended.1, s, ended.2) := by
  induction program generalizing t with
  | done a => rfl
  | ask op next ih =>
    show ((answer' t op).map _).bind _ = ((answer' t op).bind _).map _
    cases answer' t op with
    | none => rfl
    | some replied => exact ih replied.1 replied.2

theorem Ends.left {program : Program Op Reply α} {s : σ} {post : α → σ → Prop} (ends : Ends answer program s post)
    (t : τ) : Ends (beside answer answer') (program.left Reply') (s, t) fun a after => post a after.1 ∧ after.2 = t := by
  rcases ends with ⟨a, after, ran, holds⟩
  refine ⟨a, (after, t), ?_, holds, rfl⟩
  rw [run_left, ran]
  rfl

theorem Ends.right {program : Program Op' Reply' α} {t : τ} {post : α → τ → Prop} (ends : Ends answer' program t post)
    (s : σ) : Ends (beside answer answer') (program.right Reply) (s, t) fun a after => post a after.2 ∧ after.1 = s := by
  rcases ends with ⟨a, after, ran, holds⟩
  refine ⟨a, (s, after), ?_, holds, rfl⟩
  rw [run_right, ran]
  rfl

end Interaction.Program
