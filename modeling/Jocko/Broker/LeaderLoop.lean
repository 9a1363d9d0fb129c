import Mathlib.Logic.Function.Basic

namespace Jocko.Broker.LeaderLoop

open Option

/-- Where a goroutine is in `leaderLoop`: waiting for the barrier, behind it, in `reconcile`, in
the `select`, in the deferred `revokeLeadership`, or behind its return with `Done` still to call.
`established` is `establishedLeader`; `listening` says that `reconcileCh` is not nil. -/
inductive Place where
  | barrier (established : Bool)
  | passed (established : Bool)
  | reconciling
  | wait (established listening : Bool)
  | revoking
  | leaving
  deriving DecidableEq

/-- What can happen next in `leaderLoop`. -/
inductive LoopEvent where
  | barrier (ok : Bool)
  | establish
  | reconcile (ok : Bool)
  | stop
  | shutdown
  | interval
  | member
  | revoke
  | done
  deriving DecidableEq

/-- The loop has called `establishLeadership` and not revoked it. -/
def Place.Established : Place → Bool
  | barrier established => established
  | passed established => established
  | reconciling => true
  | wait established _ => established
  | revoking => true
  | leaving => false

/-- One step of `leaderLoop`, with its stop channel and `shutdownCh` closed or not: where it leaves
the goroutine, which is gone after `Done`, and `readyForConsistentReads`. -/
def Place.next (stopped shutdown ready : Bool) :
    Place → LoopEvent → Option (Option Place × Bool)
  | barrier established, .barrier true => some (some (passed established), ready)
  | barrier established, .barrier false => some (some (wait established false), ready)
  | passed established, .establish => some (some reconciling, if established then ready else true)
  | reconciling, .reconcile ok => some (some (wait true ok), ready)
  | wait established _, .stop =>
    if stopped then some (some (if established then revoking else leaving), ready) else none
  | wait established _, .shutdown =>
    if shutdown then some (some (if established then revoking else leaving), ready) else none
  | wait established _, .interval => some (some (barrier established), ready)
  | wait established true, .member => some (some (wait established true), ready)
  | revoking, .revoke => some (some leaving, false)
  | leaving, .done => some (none, ready)
  | _, _ => none

/-- Where `monitorLeadership` is: in its `select`, between `close` and the end of `Wait`, or
returned. -/
inductive Monitor where
  | selecting
  | stopping
  | returned
  deriving DecidableEq

/-- The goroutine of `monitorLeadership` and the loops it has started, by the number of their stop
channel. `processed` is the last notification that was fully processed, and `panicked` says that a
closed channel was closed again. -/
structure State where
  monitor : Monitor
  weAreLeaderCh : Option Nat
  made : Nat
  closed : Nat → Bool
  loops : Nat → Option Place
  waitGroup : Nat
  ready : Bool
  shutdown : Bool
  panicked : Bool
  processed : Option Bool

/-- A step of the monitor, of a loop, or `Shutdown`. -/
inductive Event where
  | notify (isLeader : Bool)
  | resume
  | quit
  | shutdown
  | loop (n : Nat) (e : LoopEvent)

namespace State

/-- A broker that was started. -/
def start : State where
  monitor := .selecting
  weAreLeaderCh := none
  made := 0
  closed _ := false
  loops _ := none
  waitGroup := 0
  ready := false
  shutdown := false
  panicked := false
  processed := none

/-- A notification of raft in the `select` of the monitor. -/
def notify (s : State) : Bool → State
  | true =>
    match s.weAreLeaderCh with
    | some _ => { s with processed := some true }
    | none => { s with
        weAreLeaderCh := some s.made
        made := s.made + 1
        loops := Function.update s.loops s.made (some (.barrier false))
        waitGroup := s.waitGroup + 1
        processed := some true }
  | false =>
    match s.weAreLeaderCh with
    | none => { s with processed := some false }
    | some c =>
      if s.closed c then { s with panicked := true }
      else { s with monitor := .stopping, closed := Function.update s.closed c true }

/-- One step, if it is possible. -/
def step (s : State) : Event → Option State
  | .notify isLeader => if s.monitor = .selecting then some (s.notify isLeader) else none
  | .resume =>
    if s.monitor = .stopping ∧ s.waitGroup = 0 then
      some { s with monitor := .selecting, weAreLeaderCh := none, processed := some false }
    else none
  | .quit =>
    if s.monitor = .selecting ∧ s.shutdown = true then some { s with monitor := .returned }
    else none
  | .shutdown => some { s with shutdown := true }
  | .loop n e =>
    match s.loops n with
    | none => none
    | some p => (p.next (s.closed n) s.shutdown s.ready e).map fun (q, ready) =>
      { s with
        loops := Function.update s.loops n q
        ready
        waitGroup := if q = none then s.waitGroup - 1 else s.waitGroup }

/-- Steps one after the other. -/
def run (s : State) : List Event → Option State
  | [] => some s
  | e :: events => (s.step e).bind fun s' => run s' events

/-- The goroutines that run `leaderLoop`. -/
def Running (s : State) (n : Nat) : Prop := (s.loops n).isSome

/-- Leadership is held by at most one loop. -/
structure HeldOnce (s : State) : Prop where
  one : ∀ n m, s.Running n → s.Running m → n = m
  closedOnce : s.panicked = false
  ready : s.ready = true → ∃ n p, s.loops n = some p ∧ p.Established = true
  lost : s.processed = some false → (∀ n, ¬ s.Running n) ∧ s.ready = false

/-- What the steps keep. -/
structure Held (s : State) : Prop where
  fresh : ∀ n, s.made ≤ n → s.loops n = none ∧ s.closed n = false
  only : ∀ n, s.Running n → s.weAreLeaderCh = some n
  current : ∀ c, s.weAreLeaderCh = some c →
    c < s.made ∧ (s.closed c = true ↔ s.monitor = .stopping)
  idle : s.weAreLeaderCh = none → s.monitor ≠ .stopping ∧ s.waitGroup = 0
  counted : ∀ c, s.weAreLeaderCh = some c → s.waitGroup = (s.loops c).toList.length
  ready : s.ready = true → ∃ n p, s.loops n = some p ∧ p.Established = true
  lost : s.processed = some false → s.weAreLeaderCh = none
  closedOnce : s.panicked = false

end State

section Loop

variable {stopped shutdown ready ready' : Bool} {p : Place} {q : Option Place} {e : LoopEvent}

/-- The flag is set after a step only by a loop that is established. -/
theorem Place.next_ready (stepped : p.next stopped shutdown ready e = some (q, ready'))
    (before : ready = true → p.Established = true) (set : ready' = true) :
    ∃ p', q = some p' ∧ p'.Established = true := by
  revert stepped
  fun_cases next stopped shutdown ready p e
  all_goals
    rintro ⟨⟩
  all_goals simp_all [Established]

end Loop

namespace State

variable {s s' : State}

theorem held_start : Held start where
  fresh _ _ := ⟨rfl, rfl⟩
  only _ running := by cases running
  current _ none := by cases none
  idle _ := ⟨by decide, rfl⟩
  counted _ none := by cases none
  ready set := by cases set
  lost none := by cases none
  closedOnce := rfl

section

variable (held : Held s)
include held

/-- No loop runs while the monitor has no stop channel. -/
theorem Held.loops_none (idle : s.weAreLeaderCh = none) (n : Nat) :
    s.loops n = none := by
  cases loop : s.loops n with
  | none => rfl
  | some p =>
    have here := held.only n (by rw [Running, loop]; rfl)
    rw [idle] at here
    cases here

theorem Held.acquire (selecting : s.monitor = .selecting) :
    Held (s.notify true) := by
  cases leading : s.weAreLeaderCh with
  | some c =>
    have ignored : s.notify true = { s with processed := some true } := by
      simp only [State.notify, leading]
    rw [ignored]
    exact { held with lost := fun lost => by cases lost }
  | none =>
    have started : s.notify true = { s with
        weAreLeaderCh := some s.made
        made := s.made + 1
        loops := Function.update s.loops s.made (some (.barrier false))
        waitGroup := s.waitGroup + 1
        processed := some true } := by
      simp only [State.notify, leading]
    have none_running := held.loops_none leading
    rw [started]
    refine ⟨fun n above => ?_, fun n running => ?_, fun c here => ?_, fun here => ?_,
      fun c here => ?_, fun set => ?_, fun lost => ?_, held.closedOnce⟩
    · have other : n ≠ s.made := by
        dsimp only at above
        omega
      exact ⟨(Function.update_of_ne other _ _).trans (none_running n),
        (held.fresh n (Nat.le_of_succ_le above)).2⟩
    · by_contra other
      have ne : n ≠ s.made := fun same => other (congrArg some same.symm)
      simp only [Running, Function.update_of_ne ne, none_running n] at running
      cases running
    · cases here
      refine ⟨Nat.lt_succ_self _, ?_⟩
      dsimp only
      rw [(held.fresh s.made (Nat.le_refl _)).2, selecting]
      decide
    · cases here
    · cases here
      simp only [Function.update_self, (held.idle leading).2, toList_some,
        List.length_singleton]
    · obtain ⟨n, p, loop, -⟩ := held.ready set
      rw [none_running n] at loop
      cases loop
    · cases lost

/-- Leadership is lost: the channel is closed, once, and the monitor waits for the loop. -/
theorem Held.lose (selecting : s.monitor = .selecting) : Held (s.notify false) := by
  cases leading : s.weAreLeaderCh with
  | none =>
    have ignored : s.notify false = { s with processed := some false } := by
      simp only [State.notify, leading]
    rw [ignored]
    exact { held with lost := fun _ => leading }
  | some c =>
    obtain ⟨below, closed⟩ := held.current c leading
    have isOpen : ¬ s.closed c = true := by
      rw [closed, selecting]
      decide
    have stopped : s.notify false = { s with
        monitor := .stopping, closed := Function.update s.closed c true } := by
      simp only [State.notify, leading, if_neg isOpen]
    rw [stopped]
    refine { held with fresh := fun n above => ?_, current := fun d here => ?_,
                       idle := fun idle => ?_ }
    · obtain ⟨none, isOpen⟩ := held.fresh n above
      have other : n ≠ c := by
        dsimp only at above
        omega
      exact ⟨none, (Function.update_of_ne other _ _).trans isOpen⟩
    · cases leading.symm.trans here
      exact ⟨below, fun _ => rfl, fun _ => Function.update_self ..⟩
    · cases leading.symm.trans idle

theorem Held.resume (waited : s.waitGroup = 0) :
    Held { s with monitor := .selecting, weAreLeaderCh := none, processed := some false } := by
  have none_running (n : Nat) : ¬ s.Running n := by
    intro running
    have counted := held.counted n (held.only n running)
    obtain ⟨p, loop⟩ := isSome_iff_exists.mp running
    rw [waited, loop] at counted
    cases counted
  refine { held with only := fun n running => absurd running (none_running n),
                     current := fun c here => ?_, idle := fun _ => ⟨nofun, waited⟩,
                     counted := fun c here => ?_, lost := fun _ => rfl }
  · cases here
  · cases here

theorem Held.loop {n : Nat} {p : Place} {q : Option Place} {ready : Bool}
    {e : LoopEvent} (loop : s.loops n = some p)
    (stepped : p.next (s.closed n) s.shutdown s.ready e = some (q, ready)) :
    Held { s with
      loops := Function.update s.loops n q
      ready
      waitGroup := if q = none then s.waitGroup - 1 else s.waitGroup } := by
  have running : s.Running n := by
    rw [Running, loop]
    rfl
  have here := held.only n running
  have counted : s.waitGroup = 1 := by
    rw [held.counted n here, loop]
    rfl
  refine { held with fresh := fun m above => ?_, only := fun m running => ?_,
                     idle := fun idle => ?_, counted := fun c there => ?_,
                     ready := fun set => ?_ }
  · have other : m ≠ n := by
      have below := (held.current n here).1
      dsimp only at above
      omega
    exact ⟨(Function.update_of_ne other _ _).trans (held.fresh m above).1, (held.fresh m above).2⟩
  · by_cases same : m = n
    · rw [same]
      exact here
    · rw [Running] at running
      dsimp only at running
      rw [Function.update_of_ne same] at running
      exact held.only m running
  · cases here.symm.trans idle
  · cases here.symm.trans there
    dsimp only
    rw [Function.update_self, counted]
    cases q with
    | none => rfl
    | some p' => rfl
  · have before : s.ready = true → p.Established = true := by
      intro set
      obtain ⟨m, p', loop', established⟩ := held.ready set
      have same : n = m := some.inj
        (here.symm.trans (held.only m (by rw [Running, loop']; rfl)))
      subst same
      rw [loop] at loop'
      cases loop'
      exact established
    obtain ⟨p', left, established⟩ := Place.next_ready stepped before set
    exact ⟨n, p', (Function.update_self ..).trans left, established⟩

theorem Held.step {event : Event} (stepped : s.step event = some s') : Held s' := by
  cases event with
  | notify isLeader =>
    obtain ⟨selecting, taken⟩ := ite_none_right_eq_some.mp stepped
    cases taken
    cases isLeader with
    | true => exact held.acquire selecting
    | false => exact held.lose selecting
  | resume =>
    obtain ⟨⟨-, waited⟩, taken⟩ := ite_none_right_eq_some.mp stepped
    cases taken
    exact held.resume waited
  | quit =>
    obtain ⟨⟨selecting, -⟩, taken⟩ := ite_none_right_eq_some.mp stepped
    cases taken
    refine { held with current := fun c here => ?_, idle := fun idle => ?_ }
    · have current := held.current c here
      rw [selecting] at current
      exact ⟨current.1, current.2.trans ⟨nofun, nofun⟩⟩
    · exact ⟨nofun, (held.idle idle).2⟩
  | shutdown =>
    cases stepped
    exact { held with }
  | loop n e =>
    simp only [State.step] at stepped
    split at stepped
    · cases stepped
    · rename_i p loop
      obtain ⟨⟨q, ready⟩, next, left⟩ := map_eq_some_iff.mp stepped
      cases left
      exact held.loop loop next

theorem Held.run {events : List Event} (ran : s.run events = some s') :
    Held s' := by
  induction events generalizing s with
  | nil =>
    cases ran
    exact held
  | cons event events ih =>
    obtain ⟨mid, stepped, rest⟩ := bind_eq_some_iff.mp ran
    exact ih (held.step stepped) rest

theorem Held.heldOnce : s.HeldOnce where
  one n m first second :=
    some.inj ((held.only n first).symm.trans (held.only m second))
  closedOnce := held.closedOnce
  ready := held.ready
  lost lost := by
    have none_running := held.loops_none (held.lost lost)
    refine ⟨fun n running => ?_, ?_⟩
    · rw [Running, none_running n] at running
      cases running
    · by_contra set
      obtain ⟨n, p, loop, -⟩ := held.ready (Bool.not_eq_false _ ▸ set)
      rw [none_running n] at loop
      cases loop

end

end State

/-- Whatever raft notifies and whichever paths the loops take, leadership is held at most once, at
every moment of the run. -/
theorem leadership_held_once {events : List Event} {s : State}
    (ran : State.start.run events = some s) : s.HeldOnce :=
  (State.held_start.run ran).heldOnce

/-- Leadership won, a reconciliation that fails, one that does not, and leadership lost. -/
def handOver : List Event :=
  [.notify true, .notify true, .loop 0 (.barrier false), .loop 0 .interval,
    .loop 0 (.barrier true), .loop 0 .establish, .loop 0 (.reconcile false), .loop 0 .interval,
    .loop 0 (.barrier true), .loop 0 .establish, .loop 0 (.reconcile true), .loop 0 .member,
    .notify false, .loop 0 .stop, .loop 0 .revoke, .loop 0 .done, .resume, .notify false,
    .notify true]

theorem leadership_held_once_handOver :
    ∃ s, State.start.run handOver = some s ∧ s.weAreLeaderCh = some 1 ∧ s.HeldOnce :=
  ⟨_, rfl, rfl, leadership_held_once (show State.start.run handOver = some _ from rfl)⟩

end Jocko.Broker.LeaderLoop
