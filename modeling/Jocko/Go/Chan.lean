import Jocko.Go.Outcome

namespace Jocko.Go

/-- A buffered channel: what was sent and not yet received, oldest first. -/
structure Chan (α : Type) where
  cap : Nat
  queue : List α
  closed : Bool

namespace Chan

variable {α : Type}

/-- `make(chan α, cap)` -/
def make (cap : Nat) : Chan α := ⟨cap, [], false⟩

/-- `c <- x`; there is no outcome while the buffer is full. -/
def send (c : Chan α) (x : α) : Option (Except Stop (Chan α)) :=
  if c.closed then some (.error (.panic "send on closed channel"))
  else if c.queue.length < c.cap then some (.ok { c with queue := c.queue ++ [x] })
  else none

/-- `x := <-c` while there is something to receive. -/
def recv (c : Chan α) : Option (α × Chan α) :=
  match c.queue with
  | [] => none
  | x :: queue => some (x, { c with queue })

/-- `close(c)` by the one who closes it once. -/
def close (c : Chan α) : Chan α := { c with closed := true }

theorem send_closed {c : Chan α} (closed : c.closed = true) (x : α) :
    c.send x = some (.error (.panic "send on closed channel")) := by
  simp only [send, closed, ↓reduceIte]

theorem send_room {c : Chan α} (alive : c.closed = false) (room : c.queue.length < c.cap) (x : α) :
    c.send x = some (.ok { c with queue := c.queue ++ [x] }) := by
  simp only [send, alive, Bool.false_eq_true, ↓reduceIte, room]

theorem send_eq_ok {c c' : Chan α} {x : α} (sent : c.send x = some (.ok c')) :
    c.closed = false ∧ c.queue.length < c.cap ∧ c' = { c with queue := c.queue ++ [x] } := by
  unfold send at sent
  split at sent
  · cases sent
  · rename_i alive
    split at sent
    · rename_i room
      cases sent
      exact ⟨by simpa using alive, room, rfl⟩
    · cases sent

theorem recv_eq_some {c c' : Chan α} {x : α} (received : c.recv = some (x, c')) :
    c.queue = x :: c'.queue ∧ c' = { c with queue := c'.queue } := by
  unfold recv at received
  split at received
  · cases received
  · rename_i queue
    cases received
    exact ⟨queue, rfl⟩

end Chan

end Jocko.Go
