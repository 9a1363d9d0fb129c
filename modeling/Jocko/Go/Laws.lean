import Jocko.Go.Outcome

namespace Jocko.Go

variable {σ α β : Type}

theorem Call.ext {first second : Call σ α} (same : ∀ s, first.run s = second.run s) :
    first = second := by
  obtain ⟨run⟩ := first
  obtain ⟨run'⟩ := second
  exact congrArg Call.mk (funext same)

/-- Sequences can be grouped in any way. -/
instance : LawfulMonad (Call σ) := by
  refine LawfulMonad.mk' (Call σ) (fun call => Call.ext fun s => ?_) (fun _ _ => rfl)
    fun call _ _ => Call.ext fun s => ?_
  · simp only [Functor.map]
    cases call.run s <;> rfl
  · simp only [bind]
    cases call.run s <;> rfl

/-- An error in either half of a sequence is kept as a value. -/
theorem attempt_bind (call : Call σ α) (next : α → Call σ β) :
    attempt (call >>= next) = (do
      match ← attempt call with
      | .error cause => return .error cause
      | .ok value => attempt (next value)) := by
  refine Call.ext fun s => ?_
  cases ends : call.run s with
  | ok value s' =>
    rw [bind_ok (attempt_ok ends)]
    simp only [attempt, bind, ends]
  | error why s' =>
    cases why with
    | err cause =>
      rw [bind_ok (attempt_err ends), attempt_err (bind_error ends)]
      rfl
    | panic text => simp only [attempt, bind, ends]
    | crash => simp only [attempt, bind, ends]
    | diverge => simp only [attempt, bind, ends]

/-- What is true of every value that a call returns. -/
def Call.Yields (call : Call σ α) (P : α → Prop) : Prop :=
  ∀ s value s', call.run s = .ok value s' → P value

namespace Call.Yields

variable {call : Call σ α} {P : α → Prop}

theorem pure {value : α} (holds : P value) : (Pure.pure value : Call σ α).Yields P := by
  intro s _ s' ran
  cases ran
  exact holds

theorem stop (why : Stop) : (Go.stop why : Call σ α).Yields P := by
  intro s value s' ran
  cases ran

theorem bind {next : α → Call σ β} {Q : β → Prop} (first : call.Yields P)
    (rest : ∀ value, P value → (next value).Yields Q) : (call >>= next).Yields Q := by
  intro s value s' ran
  obtain ⟨x, s₁, ran₁, ran₂⟩ := bind_eq_ok ran
  exact rest x (first s x s₁ ran₁) s₁ value s' ran₂

theorem after {next : α → Call σ β} {Q : β → Prop} (rest : ∀ value, (next value).Yields Q) :
    (call >>= next).Yields Q := by
  intro s value s' ran
  obtain ⟨x, s₁, -, ran₂⟩ := bind_eq_ok ran
  exact rest x s₁ value s' ran₂

theorem mono {Q : α → Prop} (yields : call.Yields P) (weaker : ∀ value, P value → Q value) :
    call.Yields Q := fun s value s' ran => weaker value (yields s value s' ran)

theorem zoom {τ : Type} {view : τ → σ} {update : τ → σ → τ} (yields : call.Yields P) :
    (Go.zoom view update call).Yields P := by
  intro t value t' ran
  unfold Go.zoom at ran
  dsimp only at ran
  split at ran
  · rename_i returned
    cases ran
    exact yields _ _ _ returned
  · cases ran

theorem each {γ : Type} (loop : List α → Call σ (List β)) {one : α → Call σ γ}
    {row : α → γ → β} (nil : loop [] = Pure.pure [])
    (cons : ∀ x xs, loop (x :: xs) = one x >>= fun y => loop xs >>= fun ys =>
      Pure.pure (row x y :: ys)) (xs : List α) : (loop xs).Yields (·.length = xs.length) := by
  induction xs with
  | nil =>
    rw [nil]
    exact pure rfl
  | cons x xs ih =>
    rw [cons]
    exact after fun _ => ih.bind fun _ length => pure (congrArg (· + 1) length)

end Call.Yields

end Jocko.Go
