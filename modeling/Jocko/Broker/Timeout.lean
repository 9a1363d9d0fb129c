import Jocko.Go.Chan
import Jocko.Protocol.Messages

namespace Jocko.Broker

open Go List

variable {α : Type}

/-- The goroutine that runs `fn` and sends its result. -/
inductive Worker (α : Type) where
  | running
  | finished (result : α)
  | sent
  | panicked
  deriving DecidableEq

/-- The caller of `withTimeout`: in its `select`, on its way out, or back. The channel is closed
on the way out, after the value to return is known. -/
inductive Caller (α : Type) where
  | waiting
  | leaving (result : α)
  | returned (result : α)

/-- A call of `withTimeout` with a positive timeout. -/
structure Wait (α : Type) where
  chan : Chan α
  worker : Worker α
  fired : Bool
  caller : Caller α

namespace Wait

/-- The steps of the three parties. -/
inductive Step (α : Type) where
  | finish (result : α)
  | send
  | fire
  | receive
  | expire
  | close
  deriving DecidableEq

/-- The channel is made, the timer is set and the worker is started. -/
def start : Wait α := ⟨Chan.make 1, .running, false, .waiting⟩

/-- `fn` returns. -/
def finish (result : α) (s : Wait α) : Option (Wait α) :=
  match s.worker with
  | .running => some { s with worker := .finished result }
  | _ => none

/-- `c <- fn()` -/
def send (s : Wait α) : Option (Wait α) :=
  match s.worker with
  | .finished result =>
    match s.chan.send result with
    | none => none
    | some (.ok chan) => some { s with chan, worker := .sent }
    | some (.error _) => some { s with worker := .panicked }
  | _ => none

/-- `case err := <-c` -/
def receive (s : Wait α) : Option (Wait α) :=
  match s.caller, s.chan.recv with
  | .waiting, some (result, chan) => some { s with chan, caller := .leaving result }
  | _, _ => none

/-- `case <-timer.C` -/
def expire (timedOut : α) (s : Wait α) : Option (Wait α) :=
  match s.caller, s.fired with
  | .waiting, true => some { s with caller := .leaving timedOut }
  | _, _ => none

/-- The deferred `close(c)`. -/
def close (s : Wait α) : Option (Wait α) :=
  match s.caller with
  | .leaving result => some { s with chan := s.chan.close, caller := .returned result }
  | _ => none

/-- One step; there is none if its party cannot take it. -/
def step (timedOut : α) (s : Wait α) : Step α → Option (Wait α)
  | .finish result => s.finish result
  | .send => s.send
  | .fire => some { s with fired := true }
  | .receive => s.receive
  | .expire => s.expire timedOut
  | .close => s.close

/-- Steps in some order of the three parties. -/
def run (timedOut : α) (s : Wait α) : List (Step α) → Option (Wait α)
  | [] => some s
  | e :: es => (s.step timedOut e).bind fun s => run timedOut s es

/-- The caller closes the channel only after the worker has sent. -/
def Patient (timedOut : α) (s : Wait α) : List (Step α) → Prop
  | [] => True
  | e :: es => (e = .close → s.worker = .sent) ∧
      ∀ s', s.step timedOut e = some s' → Patient timedOut s' es

/-- The worker's goroutine has ended. -/
def Ended (s : Wait α) : Prop := s.worker = .sent ∨ s.worker = .panicked

/-- What holds at any time, whatever steps were taken so far. -/
structure Sound (timedOut : α) (done : List (Step α)) (s : Wait α) : Prop where
  cap : s.chan.cap = 1
  finished : ∀ result, s.worker = .finished result → .finish result ∈ done
  empty : (s.worker = .running ∨ ∃ result, s.worker = .finished result) → s.chan.queue = []
  queued : ∀ result ∈ s.chan.queue, .finish result ∈ done
  result : ∀ result, s.caller = .leaving result ∨ s.caller = .returned result →
    .finish result ∈ done ∨ (result = timedOut ∧ s.fired = true)

/-- The channel was closed too early for the worker. -/
def Doomed (s : Wait α) : Prop := s.chan.closed = true ∧ s.worker ≠ .sent

/-- The channel is open as long as the worker needs it. -/
structure Safe (s : Wait α) : Prop where
  open' : s.chan.closed = true → s.worker = .sent
  calm : s.worker ≠ .panicked

variable {timedOut : α} {s s' : Wait α} {done : List (Step α)}

theorem finish_cases {result : α} (taken : s.finish result = some s') :
    s.worker = .running ∧ s' = { s with worker := .finished result } := by
  unfold finish at taken
  split at taken
  · rename_i running
    cases taken
    exact ⟨running, rfl⟩
  · cases taken

theorem send_cases (taken : s.send = some s') : ∃ result, s.worker = .finished result ∧
    ((∃ chan, s.chan.send result = some (.ok chan) ∧ s' = { s with chan, worker := .sent }) ∨
      (s.chan.closed = true ∧ s' = { s with worker := .panicked })) := by
  unfold send at taken
  split at taken
  · rename_i result finished
    refine ⟨result, finished, ?_⟩
    split at taken
    · cases taken
    · rename_i chan sent
      cases taken
      exact .inl ⟨chan, sent, rfl⟩
    · rename_i why failed
      cases taken
      refine .inr ⟨?_, rfl⟩
      cases open' : s.chan.closed with
      | true => rfl
      | false =>
        unfold Chan.send at failed
        rw [open'] at failed
        split at failed
        · contradiction
        · split at failed <;> cases failed
  · cases taken

theorem receive_cases (taken : s.receive = some s') : s.caller = .waiting ∧ ∃ result chan,
    s.chan.recv = some (result, chan) ∧ s' = { s with chan, caller := .leaving result } := by
  unfold receive at taken
  split at taken
  · rename_i result chan waiting received
    cases taken
    exact ⟨waiting, result, chan, received, rfl⟩
  · cases taken

theorem expire_cases (taken : s.expire timedOut = some s') :
    s.caller = .waiting ∧ s.fired = true ∧ s' = { s with caller := .leaving timedOut } := by
  unfold expire at taken
  split at taken
  · rename_i waiting fired
    cases taken
    exact ⟨waiting, fired, rfl⟩
  · cases taken

theorem close_cases (taken : s.close = some s') : ∃ result, s.caller = .leaving result ∧
    s' = { s with chan := s.chan.close, caller := .returned result } := by
  unfold close at taken
  split at taken
  · rename_i result leaving
    cases taken
    exact ⟨result, leaving, rfl⟩
  · cases taken

theorem sound_start : Sound timedOut [] (start : Wait α) :=
  ⟨rfl, nofun, fun _ => rfl, nofun, nofun⟩

theorem Sound.step (sound : Sound timedOut done s) {e : Step α}
    (taken : s.step timedOut e = some s') : Sound timedOut (done ++ [e]) s' := by
  have old {e' : Step α} (past : e' ∈ done) : e' ∈ done ++ [e] := mem_append_left _ past
  have result (r : α) (ends : s.caller = .leaving r ∨ s.caller = .returned r) :
      .finish r ∈ done ++ [e] ∨ (r = timedOut ∧ s.fired = true) :=
    (sound.result r ends).imp_left old
  cases e with
  | finish r =>
    obtain ⟨running, rfl⟩ := finish_cases taken
    refine ⟨sound.cap, fun r' same => ?_, fun _ => sound.empty (.inl running),
      fun r' inside => old (sound.queued r' inside), result⟩
    cases same
    exact mem_append_right _ (mem_singleton_self _)
  | send =>
    obtain ⟨r, finished, ⟨chan, sent, rfl⟩ | ⟨-, rfl⟩⟩ := send_cases taken
    · obtain ⟨-, -, rfl⟩ := Chan.send_eq_ok sent
      refine ⟨sound.cap, nofun, nofun, fun r' inside => old ?_, result⟩
      rcases mem_append.mp inside with before | last
      · exact sound.queued r' before
      · rw [mem_singleton.mp last]
        exact sound.finished r finished
    · exact ⟨sound.cap, nofun, nofun, fun r' inside => old (sound.queued r' inside), result⟩
  | fire =>
    cases taken
    exact ⟨sound.cap, fun r same => old (sound.finished r same), sound.empty,
      fun r inside => old (sound.queued r inside),
      fun r ends => (result r ends).imp_right fun late => ⟨late.1, rfl⟩⟩
  | receive =>
    obtain ⟨-, r, chan, received, rfl⟩ := receive_cases taken
    obtain ⟨queue, rest⟩ := Chan.recv_eq_some received
    refine ⟨by rw [rest]; exact sound.cap, fun r' same => old (sound.finished r' same),
      fun busy => ?_, fun r' inside => old (sound.queued r' ?_), fun r' ends => .inl (old ?_)⟩
    · have nothing := sound.empty busy
      rw [queue] at nothing
      cases nothing
    · rw [queue]
      exact mem_cons_of_mem _ inside
    · rcases ends with same | same <;> cases same
      exact sound.queued r (by rw [queue]; exact mem_cons_self ..)
  | expire =>
    obtain ⟨-, fired, rfl⟩ := expire_cases taken
    refine ⟨sound.cap, fun r same => old (sound.finished r same), sound.empty,
      fun r inside => old (sound.queued r inside), fun r ends => ?_⟩
    rcases ends with same | same <;> cases same
    exact .inr ⟨rfl, fired⟩
  | close =>
    obtain ⟨r, leaving, rfl⟩ := close_cases taken
    refine ⟨sound.cap, fun r same => old (sound.finished r same), sound.empty,
      fun r inside => old (sound.queued r inside), fun r' ends => ?_⟩
    rcases ends with same | same <;> cases same
    exact result r (.inl leaving)

theorem Sound.run {es : List (Step α)} (sound : Sound timedOut done s)
    (ran : s.run timedOut es = some s') : Sound timedOut (done ++ es) s' := by
  induction es generalizing s done with
  | nil =>
    cases ran
    simpa using sound
  | cons e es ih =>
    obtain ⟨s₁, taken, rest⟩ := Option.bind_eq_some_iff.mp ran
    have whole := ih (sound.step taken) rest
    rwa [append_assoc] at whole

theorem Sound.send_isSome (sound : Sound timedOut done s) {r : α} (finished : s.worker = .finished r) :
    s.send.isSome := by
  have room : s.chan.queue.length < s.chan.cap := by
    rw [sound.empty (.inr ⟨r, finished⟩), sound.cap]
    exact Nat.one_pos
  simp only [send, finished]
  cases open' : s.chan.closed with
  | true => simp only [Chan.send_closed open', Option.isSome_some]
  | false => simp only [Chan.send_room open' room, Option.isSome_some]

theorem Doomed.step (doomed : Doomed s) {e : Step α} (taken : s.step timedOut e = some s') :
    Doomed s' := by
  obtain ⟨closed, missed⟩ := doomed
  cases e with
  | finish r =>
    obtain ⟨-, rfl⟩ := finish_cases taken
    exact ⟨closed, nofun⟩
  | send =>
    obtain ⟨r, -, ⟨chan, sent, rfl⟩ | ⟨-, rfl⟩⟩ := send_cases taken
    · have alive := (Chan.send_eq_ok sent).1
      rw [closed] at alive
      cases alive
    · exact ⟨closed, nofun⟩
  | fire =>
    cases taken
    exact ⟨closed, missed⟩
  | receive =>
    obtain ⟨-, r, chan, received, rfl⟩ := receive_cases taken
    obtain ⟨-, rest⟩ := Chan.recv_eq_some received
    exact ⟨by rw [rest]; exact closed, missed⟩
  | expire =>
    obtain ⟨-, -, rfl⟩ := expire_cases taken
    exact ⟨closed, missed⟩
  | close =>
    obtain ⟨r, -, rfl⟩ := close_cases taken
    exact ⟨rfl, missed⟩

theorem Doomed.run {es : List (Step α)} (doomed : Doomed s) (ran : s.run timedOut es = some s') :
    Doomed s' := by
  induction es generalizing s with
  | nil =>
    cases ran
    exact doomed
  | cons e es ih =>
    obtain ⟨s₁, taken, rest⟩ := Option.bind_eq_some_iff.mp ran
    exact ih (doomed.step taken) rest

theorem Safe.step (safe : Safe s) {e : Step α} (taken : s.step timedOut e = some s')
    (patient : e = .close → s.worker = .sent) : Safe s' := by
  cases e with
  | finish r =>
    obtain ⟨running, rfl⟩ := finish_cases taken
    refine ⟨fun closed => ?_, nofun⟩
    have sent := safe.open' closed
    rw [running] at sent
    cases sent
  | send =>
    obtain ⟨r, finished, ⟨chan, sent, rfl⟩ | ⟨closed, rfl⟩⟩ := send_cases taken
    · exact ⟨fun _ => rfl, nofun⟩
    · have sent := safe.open' closed
      rw [finished] at sent
      cases sent
  | fire =>
    cases taken
    exact ⟨safe.open', safe.calm⟩
  | receive =>
    obtain ⟨-, r, chan, received, rfl⟩ := receive_cases taken
    obtain ⟨-, rest⟩ := Chan.recv_eq_some received
    exact ⟨fun closed => safe.open' (by rw [rest] at closed; exact closed), safe.calm⟩
  | expire =>
    obtain ⟨-, -, rfl⟩ := expire_cases taken
    exact ⟨safe.open', safe.calm⟩
  | close =>
    obtain ⟨r, -, rfl⟩ := close_cases taken
    exact ⟨fun _ => patient rfl, safe.calm⟩

theorem Safe.calm_iff {es : List (Step α)} (safe : Safe s) (ran : s.run timedOut es = some s')
    (ended : s'.Ended) : s'.worker ≠ .panicked ↔ Patient timedOut s es := by
  induction es generalizing s with
  | nil =>
    cases ran
    exact iff_of_true safe.calm trivial
  | cons e es ih =>
    obtain ⟨s₁, taken, rest⟩ := Option.bind_eq_some_iff.mp ran
    unfold Patient
    by_cases patient : e = .close → s.worker = .sent
    · rw [ih (safe.step taken patient) rest, and_iff_right patient]
      exact ⟨fun later _ same => by cases taken.symm.trans same; exact later,
        fun later => later s₁ taken⟩
    · have early := Classical.not_imp.mp patient
      have doomed : Doomed s₁ := by
        obtain ⟨rfl, missed⟩ := early
        obtain ⟨r, -, rfl⟩ := close_cases taken
        exact ⟨rfl, missed⟩
      have missed := (doomed.run rest).2
      refine iff_of_false (fun calm => ?_) fun all => patient all.1
      rcases ended with sent | panicked
      · exact missed sent
      · exact calm panicked

end Wait

/-- `withTimeout` in every order of the steps of its caller, its worker and its timer: a worker
that has ended did not send on a closed channel if and only if the channel was closed after it
had sent; it is never stuck in its send; and the caller returns what `fn` returned, or, once the
timer has fired, that the request timed out. -/
theorem withTimeout_calm_iff {es : List (Wait.Step Protocol.ErrorCode)}
    {s : Wait Protocol.ErrorCode} (ran : Wait.start.run .requestTimedOut es = some s) :
    (s.Ended → (s.worker ≠ .panicked ↔ Wait.start.Patient .requestTimedOut es)) ∧
    (∀ code, s.worker = .finished code → s.send.isSome) ∧
    ∀ code, s.caller = .leaving code ∨ s.caller = .returned code →
      .finish code ∈ es ∨ (code = .requestTimedOut ∧ s.fired = true) := by
  have sound := Wait.sound_start.run ran
  have safe : Wait.Safe (Wait.start : Wait Protocol.ErrorCode) := ⟨nofun, nofun⟩
  exact ⟨safe.calm_iff ran, fun code => sound.send_isSome, sound.result⟩

/-- `fn` is done in time, although its caller has given up already. -/
theorem withTimeout_calm_late :
    let es : List (Wait.Step Protocol.ErrorCode) := [.fire, .expire, .finish .none, .send, .close]
    ∃ s, Wait.start.run .requestTimedOut es = some s ∧ s.worker ≠ .panicked := by
  intro es
  have ran : Wait.start.run .requestTimedOut es =
      some ⟨⟨1, [.none], true⟩, .sent, true, .returned .requestTimedOut⟩ := rfl
  refine ⟨_, ran, ((withTimeout_calm_iff ran).1 (.inl rfl)).mpr ?_⟩
  simp [es, Wait.Patient, Wait.step, Wait.start, Wait.expire, Wait.finish, Wait.send, Wait.close,
    Chan.send, Chan.make]

/-- `fn` outlasts the timer, and its worker sends on the closed channel. -/
theorem late_worker_panics :
    (Wait.start.run Protocol.ErrorCode.requestTimedOut
      [.fire, .expire, .close, .finish .none, .send]).map Wait.worker = some .panicked := by
  decide

end Jocko.Broker
