import Minimus32.Library.Interaction

namespace Interaction

/-- What a program may ask of its surroundings, and what they may reply to it. -/
structure Contract (Op : Type) (Reply : Op → Type) where
  demand : Op → Prop
  reply : (op : Op) → Reply op → Prop

namespace Program

variable {Op : Type} {Reply : Op → Type} {α β : Type} {contract : Contract Op Reply} {post : α → Prop}

/-- Whatever it is replied within the contract, the program asks only what the contract allows and ends so. -/
def Under (contract : Contract Op Reply) : Program Op Reply α → (α → Prop) → Prop
  | .done a, post => post a
  | .ask op next, post => contract.demand op ∧ ∀ reply, contract.reply op reply → (next reply).Under contract post

theorem under_pure {a : α} (holds : post a) : (pure a : Program Op Reply α).Under contract post := holds

theorem Under.bind {program : Program Op Reply α} {rest : α → Program Op Reply β} {post : β → Prop}
    {between : α → Prop} (first : program.Under contract between)
    (second : ∀ a, between a → (rest a).Under contract post) : (program >>= rest).Under contract post := by
  induction program with
  | done a => exact second a first
  | ask op next ih => exact ⟨first.1, fun reply allowed => ih reply (first.2 reply allowed)⟩

theorem Under.mono {program : Program Op Reply α} {weaker : α → Prop} (under : program.Under contract post)
    (implied : ∀ a, post a → weaker a) : program.Under contract weaker := by
  induction program with
  | done a => exact implied a under
  | ask op next ih => exact ⟨under.1, fun reply allowed => ih reply (under.2 reply allowed)⟩

variable {Op' : Type} {Reply' : Op' → Type} {σ : Type}

/-- The program with each operation carried out by a program over other operations. -/
def handle (how : (op : Op) → Program Op' Reply' (Reply op)) : Program Op Reply α → Program Op' Reply' α
  | .done a => .done a
  | .ask op next => how op >>= fun reply => (next reply).handle how

/-- A program under a contract comes to its end where each operation is carried out as the contract says. -/
theorem Under.ends_handle {program : Program Op Reply α} {how : (op : Op) → Program Op' Reply' (Reply op)}
    {answer : σ → (op : Op') → Option (Reply' op × σ)} {inv : σ → Prop} {s : σ} (under : program.Under contract post)
    (kept : ∀ s op, inv s → contract.demand op →
      Ends answer (how op) s fun reply after => contract.reply op reply ∧ inv after) (start : inv s) :
    Ends answer (program.handle how) s fun a after => post a ∧ inv after := by
  induction program generalizing s with
  | done a => exact ends_pure ⟨under, start⟩
  | ask op next ih =>
    apply Ends.bind (kept s op start under.1)
    intro reply after held
    exact ih reply (under.2 reply held.1) held.2

end Program

end Interaction
