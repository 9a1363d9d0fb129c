import Jocko.Commitlog.AppendRefines

namespace Jocko.Commitlog

open Go World

namespace Ledger

variable {opts : Options} {l l' : Ledger} {b : Bytes}

/-- A run that is full while segments have a positive size holds a record. -/
theorem recs_ne_nil_of_full (positive : 0 < opts.maxSegmentBytes)
    (full : opts.maxSegmentBytes ≤ l.active.size) : l.active.recs ≠ [] := by
  intro empty
  simp only [Chunk.size, empty, List.flatten_nil, List.length_nil] at full
  omega

theorem append_positive (positive : 0 < opts.maxSegmentBytes) (solid : l.phantom = false)
    (appended : l.append opts b = some l') :
    (l.active.size < opts.maxSegmentBytes ∧ l' = { l with active := l.active.push b }) ∨
    (opts.maxSegmentBytes ≤ l.active.size ∧ l.active.recs ≠ [] ∧
      l' = ⟨false, retain opts.maxLogBytes l.chunks, Chunk.push ⟨l.next, []⟩ b⟩) := by
  rcases append_cases (fun none => absurd none (Int.not_le.mpr positive)) appended with
    space | ⟨none, -⟩ | ⟨full, filled, -, rfl⟩
  · exact .inl space
  · omega
  · exact .inr ⟨full, filled, by rw [solid]⟩

theorem Linked.append (linked : l.Linked) (positive : 0 < opts.maxSegmentBytes)
    (solid : l.phantom = false) (appended : l.append opts b = some l') : l'.Linked := by
  rcases append_positive positive solid appended with ⟨-, rfl⟩ | ⟨-, filled, rfl⟩
  · exact linked.push b
  · exact (linked.renew filled opts.maxLogBytes false).push b

theorem Records.append_linked {rs : List Bytes} (records : l.Records rs)
    (positive : 0 < opts.maxSegmentBytes) (solid : l.phantom = false)
    (appended : l.append opts b = some l') : l'.Records (rs ++ [MessageSet.stamp rs.length b]) := by
  rcases append_positive positive solid appended with ⟨-, rfl⟩ | ⟨-, -, rfl⟩
  · exact records.push b
  · exact (records.renew opts.maxLogBytes false).push b

theorem Low.append (low : l.Low) (positive : 0 < opts.maxSegmentBytes)
    (bounded : opts.maxSegmentBytes ≤ 2147483648) (solid : l.phantom = false)
    (appended : l.append opts b = some l') : l'.Low := by
  rcases append_positive positive solid appended with ⟨space, rfl⟩ | ⟨-, -, rfl⟩
  · exact low.push (by omega) b
  · exact (low.renew opts.maxLogBytes).push (by simp [Chunk.size]) b

end Ledger

section

variable {opts : Options} {older : List View} {active : View} {w : World}

/-- `Append` on a log that may have begun anywhere: it does what the ledger does. -/
theorem LogRep.append_linked {b : Bytes} (hash : Bytes → UInt64)
    (rep : LogRep opts (.delete opts.maxLogBytes) none older active w)
    (linked : (ledger none older active).Linked) (positive : 0 < opts.maxSegmentBytes)
    (long : 8 ≤ b.length) : (∃ older' active' w', (ledger none older active).append opts b =
        some (ledger none older' active') ∧
      (append hash b).run w = .ok (active.chunk.next : Int) w' ∧
      LogRep opts (.delete opts.maxLogBytes) none older' active' w') ∨
    ((ledger none older active).append opts b = none ∧
      ∃ why w', (append hash b).run w = .error why w') := by
  have checked := rep.checkSplit
  by_cases full : opts.maxSegmentBytes ≤ active.chunk.size
  · have filled : active.chunk.recs ≠ [] :=
      Ledger.recs_ne_nil_of_full (l := ledger none older active) positive full
    obtain ⟨w₁, done, rep₁⟩ := rep.split_fresh hash fun u inside =>
      Nat.ne_of_lt (linked.base_lt_next filled (chunk_mem_ledger inside))
    rw [decide_eq_true full] at checked
    have goes : (append hash b).run w = (Commitlog.appendActive b).run w₁ := by
      unfold append
      rw [bind_ok checked]
      exact bind_ok done
    have splitted : (ledger none older active).append opts b = (ledger none (Files.newest
        opts.maxLogBytes (older ++ [active])) (View.fresh w active.chunk.next)).push b := by
      rw [ledger_newest rfl]
      simp [Ledger.append, Ledger.split, ledger, full, filled]
    rw [splitted, goes]
    rcases rep₁.push_refines long with ⟨pushed, w', appended, rep'⟩ | failed
    · exact .inl ⟨_, _, w', pushed, appended, rep'⟩
    · exact .inr failed
  · rw [decide_eq_false full] at checked
    have goes : (append hash b).run w = (Commitlog.appendActive b).run w := bind_ok checked
    have stays : (ledger none older active).append opts b = (ledger none older active).push b := by
      simp only [Ledger.append, ledger, full, ↓reduceIte]
    rw [stays, goes]
    rcases rep.push_refines long with ⟨pushed, w', appended, rep'⟩ | failed
    · exact .inl ⟨_, _, w', pushed, appended, rep'⟩
    · exact .inr failed

theorem LogRep.appendAll_linked {bs : List Bytes} {hash : Bytes → UInt64} {offsets : List Int}
    {w' : World} (rep : LogRep opts (.delete opts.maxLogBytes) none older active w)
    (linked : (ledger none older active).Linked) (positive : 0 < opts.maxSegmentBytes)
    (long : ∀ b ∈ bs, 8 ≤ b.length) (ran : (appendAll hash bs).run w = .ok offsets w') :
    ∃ older' active', (ledger none older active).appendAll opts bs =
        some (ledger none older' active') ∧
      LogRep opts (.delete opts.maxLogBytes) none older' active' w' := by
  induction bs generalizing older active w offsets with
  | nil =>
    cases ran
    exact ⟨older, active, rfl, rep⟩
  | cons b bs ih =>
    obtain ⟨offset, w₁, first, ran⟩ := bind_eq_ok ran
    obtain ⟨offsets', w₂, rest, ran⟩ := bind_eq_ok ran
    cases ran
    rcases rep.append_linked hash linked positive (long b (List.mem_cons_self ..)) with
      ⟨older₁, active₁, w₁', appended, returned, rep₁⟩ | ⟨-, why, w₁', failed⟩
    · obtain ⟨-, rfl⟩ := Result.ok.inj (returned.symm.trans first)
      obtain ⟨older', active', all, rep'⟩ := ih rep₁
        (linked.append positive rfl appended)
        (fun b inside => long b (List.mem_cons_of_mem _ inside)) rest
      exact ⟨older', active', by simp [Ledger.appendAll, appended, all], rep'⟩
    · rw [failed] at first
      cases first

end

end Jocko.Commitlog
