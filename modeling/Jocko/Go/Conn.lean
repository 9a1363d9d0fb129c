import Jocko.Go.Bytes
import Jocko.Go.Outcome

namespace Jocko.Go

open List

/-- The bytes that are still to come on a connection, as the calls of `Read` hand them out: a
`Read` gets some bytes of the first chunk, and `io.EOF` once there are none left. -/
abbrev Chunks := List Bytes

/-- The loop of `io.ReadFull`: `n` bytes and what is left, or none if the connection ends before. -/
def gather : Nat → Chunks → Option (Bytes × Chunks)
  | 0, chunks => some ([], chunks)
  | _ + 1, [] => none
  | n + 1, c :: chunks =>
    if n + 1 ≤ c.length then some (c.take (n + 1), c.drop (n + 1) :: chunks)
    else (gather (n + 1 - c.length) chunks).map fun got => (c ++ got.1, got.2)

/-- `io.ReadFull(conn, p)` for a slice of `n` bytes. -/
def readFull (n : Nat) : Call Chunks Bytes := ⟨fun chunks =>
  match gather n chunks with
  | some (p, rest) => .ok p rest
  | none => .error (.err (if chunks.flatten = [] then .eof else .new "unexpected EOF")) []⟩

variable {chunks : Chunks}

/-- However the bytes are cut, the first `n` of them are read. -/
theorem gather_eq_some {p rest : Bytes} (all : chunks.flatten = p ++ rest) :
    ∃ left, gather p.length chunks = some (p, left) ∧ left.flatten = rest := by
  induction chunks generalizing p with
  | nil =>
    obtain ⟨rfl, rfl⟩ := append_eq_nil_iff.mp all.symm
    exact ⟨[], rfl, rfl⟩
  | cons c chunks ih =>
    rw [flatten_cons] at all
    cases length : p.length with
    | zero =>
      obtain rfl := length_eq_zero_iff.mp length
      exact ⟨c :: chunks, rfl, all⟩
    | succ n =>
      by_cases enough : n + 1 ≤ c.length
      · have front := congrArg (take (n + 1)) all
        have back := congrArg (drop (n + 1)) all
        rw [take_append_of_le_length enough, take_left' length] at front
        rw [drop_append_of_le_length enough, drop_left' length] at back
        refine ⟨c.drop (n + 1) :: chunks, ?_, back⟩
        rw [gather, if_pos enough, front]
      · rcases append_eq_append_iff.mp all with ⟨q, rfl, flat⟩ | ⟨q, rfl, -⟩
        · rw [length_append] at length
          obtain ⟨left, got, remains⟩ := ih flat
          refine ⟨left, ?_, remains⟩
          rw [gather, if_neg enough, show n + 1 - c.length = q.length by omega, got]
          rfl
        · rw [length_append] at enough
          omega

theorem readFull_of_flatten {p rest : Bytes} {n : Nat} (length : p.length = n)
    (all : chunks.flatten = p ++ rest) :
    ∃ left, (readFull n).run chunks = .ok p left ∧ left.flatten = rest := by
  subst length
  obtain ⟨left, got, remains⟩ := gather_eq_some all
  refine ⟨left, ?_, remains⟩
  simp only [readFull, got]

theorem readFull_end (none : chunks.flatten = []) (n : Nat) :
    (readFull (n + 1)).run chunks = .error (.err .eof) [] := by
  have empty : gather (n + 1) chunks = Option.none := by
    induction chunks with
    | nil => rfl
    | cons c chunks ih =>
      rw [flatten_cons, append_eq_nil_iff] at none
      obtain ⟨rfl, rest⟩ := none
      rw [gather, if_neg (by simp)]
      exact congrArg _ (ih rest)
  simp only [readFull, empty, none, if_true]

end Jocko.Go
