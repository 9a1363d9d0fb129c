import Jocko.Go.DiskSteps
import Jocko.Go.Laws

namespace Jocko.Go

/-- The kernel refuses the system call, or does only a part of it. -/
def Outcome.fails : Outcome → Bool
  | .fail => true
  | .short _ => true
  | _ => false

/-- A state whose system calls follow a script. -/
class Scripted (σ : Type) where
  put : σ → List Outcome → σ

instance : Scripted Disk := ⟨fun d script => { d with script }⟩

open Scripted List

variable {σ α β : Type} [Scripted σ]

/-- A call that makes its system calls one after the other and stops at the first one that
does not go through: `before` has the state before each of them. -/
structure Call.Traced (call : Call σ α) (s : σ) (before : List σ) (value : α) (s' : σ) : Prop where
  quiet : call.run (put s []) = .ok value (put s' [])
  done : ∀ rest, call.run (put s (List.replicate before.length .done ++ rest)) =
    .ok value (put s' rest)
  crash : ∀ k t, before[k]? = some t → ∀ rest,
    call.run (put s (List.replicate k .done ++ .crash :: rest)) =
      .error .crash (put t (.crash :: rest))
  fault : ∀ k t o, before[k]? = some t → o.fails = true → ∀ rest, ∃ cause,
    call.run (put s (List.replicate k .done ++ o :: rest)) = .error (.err cause) (put t rest)

namespace Call.Traced

variable {call : Call σ α} {s s' : σ} {before : List σ} {value : α}

theorem silent (runs : ∀ rest, call.run (put s rest) = .ok value (put s' rest)) :
    call.Traced s [] value s' where
  quiet := runs []
  done := runs
  crash := by simp
  fault := by simp

theorem pure (value : α) (s : σ) : (Pure.pure value : Call σ α).Traced s [] value s :=
  silent fun _ => rfl

theorem bind {next : α → Call σ β} {after : List σ} {value' : β} {s'' : σ}
    (first : call.Traced s before value s') (second : (next value).Traced s' after value' s'') :
    (call >>= next).Traced s (before ++ after) value' s'' where
  quiet := (bind_ok first.quiet).trans second.quiet
  done rest := by
    rw [length_append, replicate_add, append_assoc, bind_ok (first.done _)]
    exact second.done rest
  crash k t here rest := by
    by_cases early : k < before.length
    · rw [getElem?_append_left early] at here
      exact bind_error (first.crash k t here rest)
    · obtain ⟨j, rfl⟩ := Nat.exists_eq_add_of_le (Nat.not_lt.mp early)
      rw [getElem?_append_right (by omega), Nat.add_sub_cancel_left] at here
      rw [replicate_add, append_assoc, bind_ok (first.done _)]
      exact second.crash j t here rest
  fault k t o here fails rest := by
    by_cases early : k < before.length
    · rw [getElem?_append_left early] at here
      obtain ⟨cause, failed⟩ := first.fault k t o here fails rest
      exact ⟨cause, bind_error failed⟩
    · obtain ⟨j, rfl⟩ := Nat.exists_eq_add_of_le (Nat.not_lt.mp early)
      rw [getElem?_append_right (by omega), Nat.add_sub_cancel_left] at here
      rw [replicate_add, append_assoc, bind_ok (first.done _)]
      exact second.fault j t o here fails rest

/-- The text that is added to an error leaves the states as they are. -/
theorem wrap (text : String) (traced : call.Traced s before value s') :
    (Go.wrap text call).Traced s before value s' where
  quiet := wrap_ok traced.quiet
  done rest := wrap_ok (traced.done rest)
  crash k t here rest := by
    simp only [Go.wrap, traced.crash k t here rest]
  fault k t o here fails rest := by
    obtain ⟨cause, failed⟩ := traced.fault k t o here fails rest
    exact ⟨.wrap cause text, by simp only [Go.wrap, failed]⟩

end Call.Traced

namespace Disk

variable {d : Disk}

theorem put_quiet (quiet : d.script = []) : put d [] = d := by
  obtain ⟨inodes, names, script⟩ := d
  obtain rfl : script = [] := quiet
  rfl

theorem tick_traced : tick.Traced d [d] () d where
  quiet := rfl
  done _ := rfl
  crash k t here rest := by
    obtain ⟨inside, rfl⟩ := List.getElem?_eq_some_iff.mp here
    obtain rfl : k = 0 := Nat.lt_one_iff.mp inside
    rfl
  fault k t o here fails rest := by
    obtain ⟨inside, rfl⟩ := List.getElem?_eq_some_iff.mp here
    obtain rfl : k = 0 := Nat.lt_one_iff.mp inside
    cases o with
    | fail => exact ⟨_, rfl⟩
    | short count => exact ⟨_, rfl⟩
    | done => cases fails
    | crash => cases fails

theorem tick_then {call : Call Disk α} {value : α} {d' : Disk}
    (runs : ∀ rest, call.run (put d rest) = .ok value (put d' rest)) :
    (do tick; call : Call Disk α).Traced d [d] value d' :=
  tick_traced.bind (.silent runs)

theorem remove_traced {path : FileName} {inode : Nat} (found : d.lookup path = some inode) :
    (remove path).Traced d [d] () (d.unlink path) :=
  tick_then fun rest => by
    have same : (put d rest).lookup path = some inode := found
    simp only [same]
    rfl

end Disk

namespace OsFile

variable {d : Disk} {f : OsFile} (live : f.closed = false)

include live

theorem guard_traced : f.guard.Traced d [d] () d := by
  simp only [guard, live, Bool.false_eq_true, ↓reduceIte]
  exact Disk.tick_traced

theorem truncate_traced (length : Nat) :
    (f.truncate length).Traced d [d] () (d.setFile f.inode ((d.file f.inode).truncate length)) :=
  (guard_traced live).bind (.silent fun _ => rfl)

theorem close_traced : f.close.Traced d [d] { f with closed := true } d :=
  (guard_traced live).bind (.pure _ _)

end OsFile

end Jocko.Go
