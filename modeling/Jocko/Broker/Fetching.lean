import Jocko.Broker.Records
import Jocko.Commitlog.RetentionSession

namespace Jocko.Broker

open Go List
open Commitlog (Place remaining plainSet)

section

variable {w : Commitlog.World} (quiet : w.disk.script = [])
  (live : ∀ r ∈ w.log.segments, w.Live r)
include quiet live

/-- `io.Copy` takes what lies before a reader, and leaves it at the end of the log. -/
theorem copyLoop_run {idx pos fuel : Nat} (place : Place w idx pos)
    (enough : (remaining w.contents idx pos).length < 512 * fuel) :
    ∃ idx' pos' : Nat, Place w idx' pos' ∧ remaining w.contents idx' pos' = [] ∧
      (copyLoop fuel ⟨idx, pos⟩).run w = .ok (⟨idx', pos'⟩, remaining w.contents idx pos, none) w := by
  induction fuel generalizing idx pos with
  | zero => omega
  | succ fuel ih =>
    obtain ⟨segment, listed, inside⟩ := place.segment
    obtain ⟨idx', pos', segment', ran, listed', inside', rest⟩ :=
      Commitlog.Reader.read_run quiet live listed inside 512
    have place' := Commitlog.place_of_segment listed' inside'
    unfold copyLoop
    rw [bind_ok ran]
    by_cases short : (remaining w.contents idx pos).length < 512
    · simp only [short, ↓reduceIte]
      rw [take_of_length_le (Nat.le_of_lt short)]
      exact ⟨idx', pos', place', by rw [rest, drop_of_length_le (Nat.le_of_lt short)], rfl⟩
    · simp only [short, ↓reduceIte]
      obtain ⟨idx'', pos'', last, done, copied⟩ := ih place' (by
        rw [rest, length_drop]
        omega)
      refine ⟨idx'', pos'', last, done, ?_⟩
      rw [bind_ok copied, run_pure, rest, take_append_drop]

/-- A round of the loop of `handleFetch` takes all that lies before the reader. -/
theorem fetchLoop_round {idx pos : Nat} (place : Place w idx pos) {minBytes n : Int32}
    (wanted : n < minBytes) :
    ∃ idx' pos' : Nat, Place w idx' pos' ∧ remaining w.contents idx' pos' = [] ∧
      ∀ fuel buf, (fetchLoop minBytes (fuel + 1) ⟨idx, pos⟩ n buf).run w =
        (fetchLoop minBytes fuel ⟨idx', pos'⟩
          (n + Int32.ofNat (remaining w.contents idx pos).length)
          (some (buf.getD [] ++ remaining w.contents idx pos))).run w := by
  have few := Commitlog.length_remaining_le w.contents idx pos
  obtain ⟨idx', pos', last, done, copied⟩ := copyLoop_run quiet live place
    (show _ < 512 * (w.contents.flatten.length / 512 + 2) by omega)
  have rounds : copyRounds.run w = .ok (w.contents.flatten.length / 512 + 2) w := rfl
  refine ⟨idx', pos', last, done, fun fuel buf => ?_⟩
  rw [fetchLoop, if_pos wanted, bind_ok rounds, bind_ok copied]

/-- At the end of the log the loop goes round without a byte for as long as any are wanted. -/
theorem fetchLoop_starved {idx pos : Nat} (place : Place w idx pos)
    (done : remaining w.contents idx pos = []) {minBytes n : Int32} (wanted : n < minBytes)
    (fuel : Nat) (buf : Option Bytes) :
    (fetchLoop minBytes fuel ⟨idx, pos⟩ n buf).run w = .error .diverge w := by
  induction fuel generalizing idx pos buf with
  | zero => rfl
  | succ fuel ih =>
    obtain ⟨idx', pos', last, done', round⟩ := fetchLoop_round quiet live place wanted
    rw [round, done, length_nil, show n + Int32.ofNat 0 = n from Int32.add_zero n]
    exact ih last done' _

/-- The loop ends if the bytes that lie before the reader are enough, and else never. -/
theorem fetchLoop_ends_iff {idx pos : Nat} (place : Place w idx pos) (minBytes : Int32) :
    (∃ fuel result, (fetchLoop minBytes fuel ⟨idx, pos⟩ 0 none).run w = .ok result w) ↔
      minBytes ≤ 0 ∨ minBytes ≤ Int32.ofNat (remaining w.contents idx pos).length := by
  by_cases wanted : 0 < minBytes
  · obtain ⟨idx', pos', last, done, round⟩ := fetchLoop_round quiet live place wanted
    rw [Int32.zero_add] at round
    constructor
    · rintro ⟨fuel, result, ran⟩
      refine .inr (Int32.not_lt.mp fun more => ?_)
      cases fuel with
      | zero => cases ran
      | succ fuel =>
        rw [round, fetchLoop_starved quiet live last done more] at ran
        cases ran
    · intro enough
      have full := enough.resolve_left (Int32.not_le.mpr wanted)
      refine ⟨2, .ok (some (remaining w.contents idx pos)), ?_⟩
      rw [round, fetchLoop, if_neg (Int32.not_lt.mpr full)]
      rfl
  · refine iff_of_true ⟨1, .ok none, ?_⟩ (.inl (Int32.not_lt.mp wanted))
    rw [fetchLoop, if_neg wanted]
    rfl

end

/-- A log with one record of 13 bytes. -/
def oneRecord : Commitlog.World :=
  ((Commitlog.runAppends (fun _ => 0) ⟨"log", 20, -1, "delete"⟩ [plainSet [1]]).run .idle).state

theorem oneRecord_live : ∀ r ∈ oneRecord.log.segments, oneRecord.Live r := by
  have listed : oneRecord.log.segments = [0] := by decide +kernel
  have isOpen : (oneRecord.segs[0]?.any fun s => !s.log.closed) = true := by decide +kernel
  obtain ⟨s, object, live⟩ := (Option.any_eq_true _ _).mp isOpen
  rw [listed, forall_mem_singleton]
  exact ⟨s, object, by simpa using live⟩

theorem oneRecord_place : Place oneRecord 0 0 :=
  ⟨oneRecord.contents[0]?.getD [], by decide +kernel, Nat.zero_le _⟩

theorem oneRecord_fetched :
    ∃ fuel result, (fetchLoop 13 fuel ⟨0, 0⟩ 0 none).run oneRecord = .ok result oneRecord :=
  (fetchLoop_ends_iff (by decide +kernel) oneRecord_live oneRecord_place 13).mpr
    (.inr (by decide +kernel))

/-- A byte more than there are. -/
theorem oneRecord_waited_for :
    ¬ ∃ fuel result, (fetchLoop 14 fuel ⟨0, 0⟩ 0 none).run oneRecord = .ok result oneRecord := by
  rintro ⟨fuel, result, ran⟩
  obtain ⟨idx, pos, last, done, round⟩ :=
    fetchLoop_round (by decide +kernel) oneRecord_live oneRecord_place (show (0 : Int32) < 14 by decide)
  have few : (0 : Int32) + Int32.ofNat (remaining oneRecord.contents 0 0).length < 14 := by
    decide +kernel
  cases fuel with
  | zero => cases ran
  | succ fuel =>
    rw [show (⟨0, 0⟩ : Commitlog.Reader) = ⟨0, (0 : Nat)⟩ from rfl, round,
      fetchLoop_starved (by decide +kernel) oneRecord_live last done few] at ran
    cases ran

end Jocko.Broker
