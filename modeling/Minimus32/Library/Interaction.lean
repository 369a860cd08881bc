import Mathlib.Data.Option.Basic

namespace Interaction

/-- A program that has its surroundings perform operations and goes on with what they reply. -/
inductive Program (Op : Type) (Reply : Op → Type) (α : Type) where
  | done (a : α)
  | ask (op : Op) (next : Reply op → Program Op Reply α)

namespace Program

variable {Op : Type} {Reply : Op → Type} {α β : Type}

protected def bind : Program Op Reply α → (α → Program Op Reply β) → Program Op Reply β
  | .done a, rest => rest a
  | .ask op next, rest => .ask op fun reply => (next reply).bind rest

instance : Monad (Program Op Reply) where
  pure := .done
  bind := Program.bind

def call (Reply : Op → Type) (op : Op) : Program Op Reply (Reply op) := .ask op .done

variable {σ : Type}

/-- The run of a program in surroundings with a state; they may also never reply. -/
def run (answer : σ → (op : Op) → Option (Reply op × σ)) : Program Op Reply α → σ → Option (α × σ)
  | .done a, s => some (a, s)
  | .ask op next, s => (answer s op).bind fun replied => (next replied.1).run answer replied.2

/-- The program comes to its end, and then this holds. -/
def Ends (answer : σ → (op : Op) → Option (Reply op × σ)) (program : Program Op Reply α) (s : σ)
    (post : α → σ → Prop) : Prop :=
  ∃ a after, program.run answer s = some (a, after) ∧ post a after

variable {answer : σ → (op : Op) → Option (Reply op × σ)} {s after : σ} {post : α → σ → Prop}

theorem ends_pure {a : α} (holds : post a s) : Ends answer (pure a : Program Op Reply α) s post := ⟨a, s, rfl, holds⟩

theorem ends_call {op : Op} {reply : Reply op} {rest : Reply op → Program Op Reply α}
    (answered : answer s op = some (reply, after)) (later : Ends answer (rest reply) after post) :
    Ends answer (call Reply op >>= rest) s post := by
  obtain ⟨a, final, ran, holds⟩ := later
  refine ⟨a, final, ?_, holds⟩
  show (answer s op).bind _ = _
  rw [answered]
  exact ran

/-- Where every operation is replied to, a program comes to its end. -/
theorem ends_total (total : ∀ s op, (answer s op).isSome) (program : Program Op Reply α) (s : σ) :
    Ends answer program s fun _ _ => True := by
  induction program generalizing s with
  | done a => exact ⟨a, s, rfl, trivial⟩
  | ask op next ih =>
    obtain ⟨replied, answered⟩ := Option.isSome_iff_exists.mp (total s op)
    obtain ⟨a, after, ran, -⟩ := ih replied.1 replied.2
    refine ⟨a, after, ?_, trivial⟩
    rw [run, answered]
    exact ran

theorem run_bind (program : Program Op Reply α) (rest : α → Program Op Reply β) (s : σ) :
    (program >>= rest).run answer s =
      (program.run answer s).bind fun result => (rest result.1).run answer result.2 := by
  induction program generalizing s with
  | done a => rfl
  | ask op next ih =>
    show (answer s op).bind _ = ((answer s op).bind _).bind _
    rw [Option.bind_assoc]
    congr 1
    funext replied
    exact ih replied.1 replied.2

theorem Ends.bind {program : Program Op Reply α} {rest : α → Program Op Reply β} {post : β → σ → Prop}
    {between : α → σ → Prop} (first : Ends answer program s between)
    (second : ∀ a after, between a after → Ends answer (rest a) after post) :
    Ends answer (program >>= rest) s post := by
  obtain ⟨a, middle, ran, holds⟩ := first
  obtain ⟨b, after, finished, last⟩ := second a middle holds
  refine ⟨b, after, ?_, last⟩
  rw [run_bind, ran]
  exact finished

theorem Ends.mono {program : Program Op Reply α} {weaker : α → σ → Prop} (ends : Ends answer program s post)
    (implied : ∀ a after, post a after → weaker a after) : Ends answer program s weaker := by
  obtain ⟨a, after, ran, holds⟩ := ends
  exact ⟨a, after, ran, implied a after holds⟩

end Program

end Interaction
