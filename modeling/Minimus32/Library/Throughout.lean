import Minimus32.Library.Interaction

namespace Interaction.Program

variable {Op : Type} {Reply : Op → Type} {α β σ : Type} {step : σ → (op : Op) → Reply op → σ → Prop} {good : σ → Prop}
  {s : σ} {post : α → σ → Prop}

/-- Whatever the surroundings reply, each operation leaves a good state; and where the program comes to its end, then so
does this hold. Surroundings that never reply are not excluded. -/
def Throughout (step : σ → (op : Op) → Reply op → σ → Prop) (good : σ → Prop) :
    Program Op Reply α → σ → (α → σ → Prop) → Prop
  | .done a, s, post => post a s
  | .ask op next, s, post =>
    ∀ reply after, step s op reply after → good after ∧ (next reply).Throughout step good after post

theorem throughout_pure {a : α} (holds : post a s) :
    (pure a : Program Op Reply α).Throughout step good s post := holds

theorem throughout_call {op : Op} {rest : Reply op → Program Op Reply α}
    (later : ∀ reply after, step s op reply after → good after ∧ (rest reply).Throughout step good after post) :
    (call Reply op >>= rest).Throughout step good s post := later

theorem Throughout.bind {program : Program Op Reply α} {rest : α → Program Op Reply β} {post : β → σ → Prop}
    {between : α → σ → Prop} (first : program.Throughout step good s between)
    (second : ∀ a after, between a after → (rest a).Throughout step good after post) :
    (program >>= rest).Throughout step good s post := by
  induction program generalizing s with
  | done a => exact second a s first
  | ask op next ih =>
    intro reply after moved
    exact ⟨(first reply after moved).1, ih reply (first reply after moved).2⟩

end Interaction.Program
