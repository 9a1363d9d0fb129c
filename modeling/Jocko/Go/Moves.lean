import Jocko.Go.Outcome
import Mathlib.Order.Defs.Unbundled

namespace Jocko.Go

variable {σ τ α β : Type}

/-- What holds where the first half of a sequence ends, and however the second half ends. -/
theorem bind_ends {call : Call σ α} {next : α → Call σ β} {P : σ → Prop} {s : σ}
    (stops : P (call.run s).state) (rest : ∀ value, P ((next value).run (call.run s).state).state) :
    P ((call >>= next).run s).state := by
  cases ends : call.run s with
  | ok value s' =>
    rw [ends] at rest
    rw [bind_ok ends]
    exact rest value
  | error why s' =>
    rw [ends] at stops
    rw [bind_error ends]
    exact stops

/-- However a call ends, its last state is related to its first. -/
def Call.Moves (r : σ → σ → Prop) (call : Call σ α) : Prop := ∀ s, r s (call.run s).state

namespace Call.Moves

variable {r : σ → σ → Prop} {call : Call σ α}

theorem of_ok (moves : call.Moves r) {s s' : σ} {value : α}
    (returned : call.run s = .ok value s') : r s s' := by
  have moved := moves s
  rwa [returned] at moved

theorem of_error (moves : call.Moves r) {s s' : σ} {why : Stop}
    (stopped : call.run s = .error why s') : r s s' := by
  have moved := moves s
  rwa [stopped] at moved

/-- What holds wherever the first half can stop, and however the second half ends. -/
theorem reaches {next : α → Call σ β} {P : σ → Prop} (first : call.Moves r) {s : σ}
    (stops : ∀ s', r s s' → P s') (rest : ∀ value s', r s s' → P ((next value).run s').state) :
    P ((call >>= next).run s).state :=
  bind_ends (stops _ (first s)) fun value => rest value _ (first s)

section

variable [IsPreorder σ r]

theorem of_unchanged (unchanged : ∀ s, (call.run s).state = s) : call.Moves r := by
  intro s
  rw [unchanged s]
  exact refl s

theorem pure (value : α) : (Pure.pure value : Call σ α).Moves r :=
  of_unchanged fun _ => rfl

theorem stop (why : Stop) : (Go.stop why : Call σ α).Moves r :=
  of_unchanged fun _ => rfl

theorem lift (result : Except Stop α) : (Go.lift result : Call σ α).Moves r := by
  apply of_unchanged
  intro s
  cases result with
  | ok value => rfl
  | error why => rfl

theorem bind {next : α → Call σ β} (first : call.Moves r) (rest : ∀ value, (next value).Moves r) :
    (call >>= next).Moves r := fun s =>
  bind_ends (first s) fun value => trans_of r (first s) (rest value _)

end

end Call.Moves

theorem attempt_state (call : Call σ α) (s : σ) :
    ((Go.attempt call).run s).state = (call.run s).state := by
  cases ends : call.run s with
  | ok value s' => simp only [Go.attempt, ends, Result.state]
  | error why s' => cases why <;> simp only [Go.attempt, ends, Result.state]

/-- A sequence leaves what its first half leaves, if the second does nothing. -/
theorem bind_state {call : Call σ α} {next : α → Call σ β}
    (quiet : ∀ value s, ((next value).run s).state = s) (s : σ) :
    ((call >>= next).run s).state = (call.run s).state :=
  bind_ends (P := (· = (call.run s).state)) rfl fun value => quiet value _

theorem Call.Moves.attempt {r : σ → σ → Prop} {call : Call σ α} (moves : call.Moves r) :
    (Go.attempt call).Moves r := by
  intro s
  rw [attempt_state]
  exact moves s

/-- The call has returned, if only an error. -/
def Result.Returned : Result σ α → Prop
  | .ok _ _ => True
  | .error (.err _) _ => True
  | .error _ _ => False

/-- The call returns from every state. -/
def Call.Returns (call : Call σ α) : Prop := ∀ s, (call.run s).Returned

theorem Call.Returns.pure (value : α) : (Pure.pure value : Call σ α).Returns := fun _ => trivial

theorem Call.Returns.bind {call : Call σ α} {next : α → Call σ β} (first : call.Returns)
    (rest : ∀ value, (next value).Returns) : (call >>= next).Returns := by
  intro s
  have returned := first s
  cases ends : call.run s with
  | ok value s' =>
    rw [bind_ok ends]
    exact rest value s'
  | error why s' =>
    rw [ends] at returned
    rw [bind_error ends]
    cases why <;> exact returned

theorem zoom_returned_iff (view : τ → σ) (update : τ → σ → τ) (call : Call σ α) (t : τ) :
    ((zoom view update call).run t).Returned ↔ (call.run (view t)).Returned := by
  cases ends : call.run (view t) with
  | ok value s =>
    rw [zoom_ok ends]
    exact Iff.rfl
  | error why s =>
    rw [zoom_error ends]
    cases why <;> exact Iff.rfl

theorem attempt_returns_iff (call : Call σ α) (s : σ) :
    (∃ outcome s', (attempt call).run s = .ok outcome s') ↔ (call.run s).Returned := by
  cases ends : call.run s with
  | ok value s' => exact iff_of_true ⟨_, _, attempt_ok ends⟩ trivial
  | error why s' =>
    cases why with
    | err cause => exact iff_of_true ⟨_, _, attempt_err ends⟩ trivial
    | _ => simp [attempt, ends, Result.Returned]

end Jocko.Go
