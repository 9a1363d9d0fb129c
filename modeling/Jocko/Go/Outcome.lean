import Mathlib.Logic.Basic

namespace Jocko.Go

/-- A Go error value. `wrap` is `errors.Wrap`, and `fault` stands for the error of
a system call that the kernel refused. -/
inductive Err where
  | eof
  | new (text : String)
  | wrap (cause : Err) (text : String)
  | notExist
  | closed
  | negativeOffset
  | fault
  deriving DecidableEq

/-- How a call can end without handing back its value: an error that the caller
sees, a panic, the loss of the whole process, or no end at all. -/
inductive Stop where
  | err (cause : Err)
  | panic (text : String)
  | crash
  | diverge
  deriving DecidableEq

/-- The end of a call. The state survives every way of stopping, as the effects of a
call that returned an error do. -/
inductive Result (σ α : Type) where
  | ok (value : α) (state : σ)
  | error (why : Stop) (state : σ)
  deriving DecidableEq

/-- The value that the caller gets, if any. -/
def Result.returned {σ α : Type} : Result σ α → Option α
  | .ok value _ => some value
  | .error _ _ => none

/-- Why the call stopped, if it did. -/
def Result.stopped {σ α : Type} : Result σ α → Option Stop
  | .ok _ _ => none
  | .error why _ => some why

/-- The state that the call leaves. -/
def Result.state {σ α : Type} : Result σ α → σ
  | .ok _ state => state
  | .error _ state => state

/-- Stateful Go code. -/
structure Call (σ α : Type) where
  run : σ → Result σ α

variable {σ τ α β : Type}

theorem Result.eq_ok_of_returned {r : Result σ α} {value : α} (returned : r.returned = some value) :
    r = .ok value r.state := by
  cases r with
  | ok value' s =>
    obtain rfl := Option.some.inj returned
    rfl
  | error why s => cases returned

instance : Monad (Call σ) where
  pure value := ⟨fun s => .ok value s⟩
  bind call next := ⟨fun s =>
    match call.run s with
    | .ok value s => (next value).run s
    | .error why s => .error why s⟩

@[simp] theorem run_pure (value : α) (s : σ) : (pure value : Call σ α).run s = .ok value s := rfl

/-- Stop at once. -/
def stop (why : Stop) : Call σ α := ⟨fun s => .error why s⟩

/-- Return the given error. -/
def fail (cause : Err) : Call σ α := stop (.err cause)

/-- Code that needs no state. -/
def lift (result : Except Stop α) : Call σ α := ⟨fun s =>
  match result with
  | .ok value => .ok value s
  | .error why => .error why s⟩

/-- `errors.Wrap(err, text)` on the error path, nothing on the others. -/
def wrap (text : String) (call : Call σ α) : Call σ α := ⟨fun s =>
  match call.run s with
  | .error (.err cause) s => .error (.err (.wrap cause text)) s
  | other => other⟩

/-- `v, err := call()`: keep an error as a value, for code that looks at it. -/
def attempt (call : Call σ α) : Call σ (Except Err α) := ⟨fun s =>
  match call.run s with
  | .ok value s => .ok (.ok value) s
  | .error (.err cause) s => .ok (.error cause) s
  | .error why s => .error why s⟩

/-- Run code on one component of a larger state. -/
def zoom (view : τ → σ) (update : τ → σ → τ) (call : Call σ α) : Call τ α := ⟨fun t =>
  match call.run (view t) with
  | .ok value s => .ok value (update t s)
  | .error why s => .error why (update t s)⟩

@[simp] theorem run_fail (cause : Err) (s : σ) :
    (fail cause : Call σ α).run s = .error (.err cause) s := rfl

theorem bind_ok {call : Call σ α} {next : α → Call σ β} {s s' : σ} {value : α}
    (returned : call.run s = .ok value s') : (call >>= next).run s = (next value).run s' := by
  simp only [bind, returned]

theorem bind_error {call : Call σ α} {next : α → Call σ β} {s s' : σ} {why : Stop}
    (stopped : call.run s = .error why s') : (call >>= next).run s = .error why s' := by
  simp only [bind, stopped]

theorem bind_congr_run {call call' : Call σ α} {next : α → Call σ β} {s : σ}
    (same : call.run s = call'.run s) : (call >>= next).run s = (call' >>= next).run s := by
  simp only [bind, same]

theorem bind_eq_ok {call : Call σ α} {next : α → Call σ β} {s s'' : σ} {value : β}
    (returned : (call >>= next).run s = .ok value s'') :
    ∃ first s', call.run s = .ok first s' ∧ (next first).run s' = .ok value s'' := by
  simp only [bind] at returned
  split at returned
  · exact ⟨_, _, ‹_›, returned⟩
  · cases returned

theorem wrap_ok {call : Call σ α} {text : String} {s s' : σ} {value : α}
    (returned : call.run s = .ok value s') : (wrap text call).run s = .ok value s' := by
  simp only [wrap, returned]

theorem attempt_ok {call : Call σ α} {s s' : σ} {value : α}
    (returned : call.run s = .ok value s') : (attempt call).run s = .ok (.ok value) s' := by
  simp only [attempt, returned]

theorem attempt_err {call : Call σ α} {s s' : σ} {cause : Err}
    (failed : call.run s = .error (.err cause) s') :
    (attempt call).run s = .ok (.error cause) s' := by
  simp only [attempt, failed]

theorem attempt_lift (result : Except Err α) (s : σ) :
    (attempt (lift (result.mapError Stop.err))).run s = .ok result s := by
  cases result <;> rfl

theorem zoom_state (view : τ → σ) (update : τ → σ → τ) (call : Call σ α) (t : τ) :
    ((zoom view update call).run t).state = update t (call.run (view t)).state := by
  cases ends : call.run (view t) with
  | ok value s => simp only [zoom, ends, Result.state]
  | error why s => simp only [zoom, ends, Result.state]

theorem zoom_ok {view : τ → σ} {update : τ → σ → τ} {call : Call σ α} {t : τ} {s : σ}
    {value : α} (returned : call.run (view t) = .ok value s) :
    (zoom view update call).run t = .ok value (update t s) := by
  simp only [zoom, returned]

theorem zoom_eq_ok {view : τ → σ} {update : τ → σ → τ} {call : Call σ α} {t t' : τ} {value : α}
    (returned : (zoom view update call).run t = .ok value t') :
    ∃ s, call.run (view t) = .ok value s ∧ t' = update t s := by
  cases ends : call.run (view t) with
  | ok value s =>
    simp only [zoom, ends, Result.ok.injEq] at returned
    obtain ⟨rfl, rfl⟩ := returned
    exact ⟨s, rfl, rfl⟩
  | error why s =>
    simp only [zoom, ends] at returned
    cases returned

theorem zoom_error {view : τ → σ} {update : τ → σ → τ} {call : Call σ α} {t : τ} {s : σ}
    {why : Stop} (stopped : call.run (view t) = .error why s) :
    (zoom view update call).run t = .error why (update t s) := by
  simp only [zoom, stopped]

end Jocko.Go
