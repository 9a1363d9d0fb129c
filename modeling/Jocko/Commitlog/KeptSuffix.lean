import Jocko.Commitlog.LogInvariant
import Jocko.Go.Moves

namespace Jocko.Commitlog

open Go World List

variable {sizes : List Nat}

/-- What the cleaner keeps beside the newest segment fits. -/
theorem keepCount_fits {retention total : Int} (some : 0 < keepCount retention total sizes) :
    total + ((sizes.take (keepCount retention total sizes)).sum : Nat) ≤ retention := by
  induction sizes generalizing total with
  | nil => cases some
  | cons size sizes ih =>
    by_cases beyond : retention < total + size
    · simp [keepCount, beyond] at some
    · simp only [keepCount, beyond, ↓reduceIte, take_succ_cons, sum_cons]
      by_cases more : 0 < keepCount retention (total + size) sizes
      · have rest := ih more
        omega
      · rw [Nat.eq_zero_of_not_pos more, take_zero, sum_nil]
        omega

theorem keepCount_next {retention total : Int}
    (stops : keepCount retention total sizes < sizes.length) :
    retention < total + ((sizes.take (keepCount retention total sizes + 1)).sum : Nat) := by
  induction sizes generalizing total with
  | nil => cases stops
  | cons size sizes ih =>
    by_cases beyond : retention < total + size
    · simp [keepCount, beyond]
    · simp only [keepCount, beyond, ↓reduceIte, length_cons, Nat.add_lt_add_iff_right,
        take_succ_cons, sum_cons] at stops ⊢
      have rest := ih stops
      omega

/-- No file got another name. -/
def SameNames (d d' : Disk) : Prop := d'.names = d.names

instance : IsPreorder Disk SameNames where
  refl _ := rfl
  trans _ _ _ first second := second.trans first

section

variable {d d' : Disk} {f f' : OsFile}

theorem tick_sameNames : Disk.tick.Moves SameNames := by
  intro d
  unfold Disk.tick
  dsimp only
  split <;> rfl

theorem guard_sameNames (f : OsFile) : f.guard.Moves SameNames := by
  unfold OsFile.guard
  split
  · exact .stop _
  · exact tick_sameNames

theorem wrap_sameNames {α : Type} {call : Call Disk α} (text : String)
    (moves : call.Moves SameNames) : (wrap text call).Moves SameNames := by
  intro d
  have moved := moves d
  unfold wrap
  dsimp only
  split
  · rename_i ends
    rwa [ends] at moved
  · exact moved

theorem truncate_sameNames (f : OsFile) (length : Nat) : (f.truncate length).Moves SameNames := by
  unfold OsFile.truncate
  exact (guard_sameNames f).bind fun _ => fun _ => rfl

theorem close_sameNames (f : OsFile) : f.close.Moves SameNames := by
  unfold OsFile.close
  exact (guard_sameNames f).bind fun _ => .pure _

theorem index_close_sameNames (idx : Index) : idx.close.Moves SameNames := by
  have synced : idx.sync.Moves SameNames :=
    (wrap_sameNames _ (guard_sameNames idx.file)).bind fun _ => wrap_sameNames _ tick_sameNames
  unfold Index.close
  exact synced.bind fun _ => (truncate_sameNames idx.file _).bind fun _ =>
    (close_sameNames idx.file).bind fun _ => .pure _

theorem OsFile.close_eq (ran : f.close.run d = .ok f' d') : f' = { f with closed := true } := by
  obtain ⟨-, d₁, -, ran⟩ := bind_eq_ok ran
  cases ran
  rfl

theorem Index.close_eq {idx idx' : Index} (ran : idx.close.run d = .ok idx' d') :
    idx' = { idx with file := { idx.file with closed := true } } := by
  obtain ⟨-, d₁, -, ran⟩ := bind_eq_ok ran
  obtain ⟨-, d₂, -, ran⟩ := bind_eq_ok ran
  obtain ⟨file, d₃, closed, ran⟩ := bind_eq_ok ran
  cases ran
  rw [OsFile.close_eq closed]

theorem Disk.remove_eq {path : FileName} (ran : (Disk.remove path).run d = .ok () d') :
    d'.names = d.names.filter fun entry => entry.1 ≠ path := by
  obtain ⟨⟨⟩, d₁, ticked, ran⟩ := bind_eq_ok ran
  have same : d₁.names = d.names := tick_sameNames.of_ok ticked
  dsimp only at ran
  split at ran
  · cases ran
    rw [← same]
  · cases ran

end

section

variable {w w' : World} {r : Nat}

theorem seg_eq {s : Segment} (ran : (seg r).run w = .ok s w') : w.segs[r]? = some s ∧ w' = w := by
  unfold seg at ran
  dsimp only at ran
  split at ran
  · rename_i found
    cases ran
    exact ⟨found, rfl⟩
  · cases ran

theorem Segment.close_eq (ran : (Segment.close r).run w = .ok () w') :
    ∃ s, w.segs[r]? = some s ∧ w'.segs = w.segs.set r s.shut ∧ w'.log = w.log ∧
      w'.disk.names = w.disk.names := by
  obtain ⟨s, w₁, found, rest⟩ := bind_eq_ok ran
  obtain ⟨object, rfl⟩ := seg_eq found
  obtain ⟨log, w₂, closing, rest'⟩ := bind_eq_ok rest
  obtain ⟨d₁, closed, rfl⟩ := zoom_eq_ok closing
  obtain ⟨⟨⟩, w₃, stored, rest''⟩ := bind_eq_ok rest'
  cases stored
  obtain ⟨index, w₄, cutting, last⟩ := bind_eq_ok rest''
  obtain ⟨d₂, cut, rfl⟩ := zoom_eq_ok cutting
  cases last
  have first : d₁.names = w₁.disk.names := (close_sameNames s.log).of_ok closed
  have second : d₂.names = d₁.names := (index_close_sameNames s.index).of_ok cut
  rw [OsFile.close_eq closed, Index.close_eq cut]
  exact ⟨s, object, set_set .., rfl, second.trans first⟩

/-- The object and the names of a segment after `Delete`, and those of the others. -/
theorem Segment.delete_eq (ran : (Segment.delete r).run w = .ok () w') :
    ∃ s, w.segs[r]? = some s ∧ w'.segs = w.segs.set r s.shut ∧ w'.log = w.log ∧
      ∀ e, e ∈ w'.disk.names ↔ e ∈ w.disk.names ∧ e.1 ≠ s.log.path ∧ e.1 ≠ s.index.file.path := by
  obtain ⟨⟨⟩, w₁, closed, rest⟩ := bind_eq_ok ran
  obtain ⟨s, object, segs, log, names⟩ := Segment.close_eq closed
  obtain ⟨s', w₂, found, rest'⟩ := bind_eq_ok rest
  obtain ⟨object', rfl⟩ := seg_eq found
  obtain rfl : s' = s.shut := by
    rw [segs, List.getElem?_set_self (List.getElem?_eq_some_iff.mp object).1] at object'
    exact (Option.some.inj object').symm
  obtain ⟨⟨⟩, w₃, removing, last⟩ := bind_eq_ok rest'
  obtain ⟨d₁, removed, rfl⟩ := zoom_eq_ok removing
  obtain ⟨d₂, removed', rfl⟩ := zoom_eq_ok last
  refine ⟨s, object, segs, log, fun e => ?_⟩
  have both : d₂.names = (w₂.disk.names.filter fun entry => entry.1 ≠ s.log.path).filter
      fun entry => entry.1 ≠ s.index.file.path := by
    rw [Disk.remove_eq removed', Disk.remove_eq removed]
    rfl
  rw [both, names]
  simp only [mem_filter, ne_eq, decide_eq_true_eq, and_assoc]

end

/-- These segments are closed and both files of each have lost their names; the other objects and
the other names are as they were. -/
structure Removed (rs : List Nat) (w w' : World) : Prop where
  shut : ∀ r ∈ rs, ∃ s, w'.segs[r]? = some s ∧ s.log.closed = true ∧ s.index.file.closed = true
  kept : ∀ r, r ∉ rs → w'.segs[r]? = w.segs[r]?
  names : ∀ e, e ∈ w'.disk.names ↔ e ∈ w.disk.names ∧
    ∀ r ∈ rs, ∀ s ∈ w.segs[r]?, e.1 ≠ s.log.path ∧ e.1 ≠ s.index.file.path
  log : w'.log = w.log

variable {rs : List Nat}

theorem DeleteCleaner.deleteAll_removed {w w' : World}
    (ran : (DeleteCleaner.deleteAll rs).run w = .ok () w') : Removed rs w w' := by
  induction rs generalizing w with
  | nil =>
    cases ran
    exact ⟨by simp, fun _ _ => rfl, by simp, rfl⟩
  | cons r rs ih =>
    obtain ⟨⟨⟩, w₁, first, rest⟩ := bind_eq_ok ran
    obtain ⟨s, object, segs, log, names⟩ := Segment.delete_eq first
    have removed := ih rest
    have inside : r < w.segs.length := (List.getElem?_eq_some_iff.mp object).1
    have shut : w₁.segs[r]? = some s.shut := by
      rw [segs]
      exact getElem?_set_self inside
    have other (i : Nat) (differ : i ≠ r) : w₁.segs[i]? = w.segs[i]? := by
      rw [segs]
      exact getElem?_set_ne (Ne.symm differ)
    refine ⟨fun i there => ?_, fun i apart => ?_, fun e => ?_, removed.log.trans log⟩
    · by_cases again : i ∈ rs
      · exact removed.shut i again
      · obtain rfl : i = r := (mem_cons.mp there).resolve_right again
        exact ⟨s.shut, (removed.kept i again).trans shut, rfl, rfl⟩
    · rw [mem_cons, not_or] at apart
      exact (removed.kept i apart.2).trans (other i apart.1)
    · rw [removed.names, names]
      constructor
      · rintro ⟨⟨here, apart⟩, later⟩
        refine ⟨here, fun i there t object' => ?_⟩
        by_cases same : i = r
        · subst same
          rw [object] at object'
          cases object'
          exact apart
        · exact later i ((mem_cons.mp there).resolve_left same) t (by rwa [other i same])
      · rintro ⟨here, all⟩
        refine ⟨⟨here, all r (mem_cons_self ..) s object⟩, fun i there t object' => ?_⟩
        by_cases same : i = r
        · subst same
          rw [shut] at object'
          cases object'
          exact all i (mem_cons_self ..) s object
        · exact all i (mem_cons_of_mem _ there) t (by rwa [other i same] at object')

/-- The positions of these segments, added up. -/
def World.totalBytes (w : World) (rs : List Nat) : Int :=
  (rs.map fun r => (w.segs[r]?.map Segment.position).getD 0).sum

section

variable {w : World} {retention : Int}

theorem totalBytes_append (rs qs : List Nat) :
    w.totalBytes (rs ++ qs) = w.totalBytes rs + w.totalBytes qs := by
  simp only [World.totalBytes, map_append, sum_append]

theorem totalBytes_singleton {r : Nat} {s : Segment} (object : w.segs[r]? = some s) :
    w.totalBytes [r] = s.position := by
  simp [World.totalBytes, object]

/-- The sizes in the order of the way back add up to the bytes of the segments. -/
theorem Sizes.totalBytes (sized : Sizes w rs sizes) :
    w.totalBytes rs.reverse = (sizes.sum : Nat) := by
  induction sized with
  | nil => rfl
  | @cons r size rs sizes head _ ih =>
    obtain ⟨s, object, position⟩ := head
    rw [reverse_cons, totalBytes_append, totalBytes_singleton object, ih, position,
      sum_cons]
    omega

theorem exists_sizes
    (objects : ∀ r ∈ rs, ∃ s, w.segs[r]? = some s ∧ 0 ≤ s.position) : ∃ sizes, Sizes w rs sizes := by
  induction rs with
  | nil => exact ⟨[], .nil⟩
  | cons r rs ih =>
    obtain ⟨s, object, nonneg⟩ := objects r (mem_cons_self ..)
    obtain ⟨sizes, sized⟩ := ih fun r inside => objects r (mem_cons_of_mem _ inside)
    exact ⟨s.position.toNat :: sizes, .cons ⟨s, object, (Int.toNat_of_nonneg nonneg).symm⟩ sized⟩

/-- `Clean` returns the longest end of the list that fits, at least the last segment, and deletes
the others; without a limit it does nothing. -/
theorem clean_keeps_longest_suffix {segments : List Nat} (nonempty : segments ≠ [])
    (objects : ∀ r ∈ segments, ∃ s, w.segs[r]? = some s ∧ 0 ≤ s.position) :
    (retention = -1 → (DeleteCleaner.clean retention segments).run w = .ok segments w) ∧
    (retention ≠ -1 → ∃ dropped kept, segments = dropped ++ kept ∧ kept ≠ [] ∧
      (DeleteCleaner.clean retention segments).run w = (do
        DeleteCleaner.deleteAll dropped.reverse
        return kept : Call World (List Nat)).run w ∧
      (∀ w', (DeleteCleaner.deleteAll dropped.reverse).run w = .ok () w' → Removed dropped w w') ∧
      (1 < kept.length → w.totalBytes kept ≤ retention) ∧
      ∀ older newest, dropped = older ++ [newest] →
        retention < w.totalBytes (newest :: kept)) := by
  constructor
  · intro unbounded
    simp [DeleteCleaner.clean, unbounded]
  · intro bounded
    obtain ⟨before, last, rfl⟩ : ∃ before last, segments = before ++ [last] :=
      ⟨_, _, (dropLast_append_getLast nonempty).symm⟩
    obtain ⟨s, object, -⟩ := objects last (by simp)
    obtain ⟨sizes, sized⟩ : ∃ sizes, Sizes w before.reverse sizes :=
      exists_sizes fun r inside => objects r (mem_append_left _ (mem_reverse.mp inside))
    have ran := DeleteCleaner.clean_eq bounded object sized
    have few : keepCount retention s.position sizes ≤ before.length := by
      have bound := keepCount_le retention s.position sizes
      rwa [← sized.length_eq, length_reverse] at bound
    generalize count : keepCount retention s.position sizes = k at ran few
    have split : before = before.take (before.length - k) ++ before.drop (before.length - k) :=
      (take_append_drop _ _).symm
    have back : before.reverse.drop k = (before.take (before.length - k)).reverse := by
      rw [drop_reverse]
    have front : (before.reverse.take k).reverse = before.drop (before.length - k) := by
      rw [take_reverse, reverse_reverse]
    have bytes (j : Nat) :
        w.totalBytes (before.reverse.take j).reverse = ((sizes.take j).sum : Nat) :=
      Sizes.totalBytes (forall₂_take j sized)
    rw [back, front] at ran
    refine ⟨before.take (before.length - k), before.drop (before.length - k) ++ [last], ?_, by simp,
      ran, fun w' deleted => ?_, fun more => ?_, fun older newest dropped => ?_⟩
    · rw [← append_assoc, ← split]
    · have removed := DeleteCleaner.deleteAll_removed deleted
      exact ⟨fun r inside => removed.shut r (mem_reverse.mpr inside), fun r apart =>
        removed.kept r fun inside => apart (mem_reverse.mp inside), fun e => by
          rw [removed.names]
          simp only [mem_reverse], removed.log⟩
    · have positive : 0 < keepCount retention s.position sizes := by
        simp only [length_append, length_drop, length_singleton] at more
        omega
      have fits := keepCount_fits positive
      rw [count] at fits
      rw [totalBytes_append, totalBytes_singleton object, ← front, bytes]
      omega
    · have length := congrArg length dropped
      rw [length_take, length_append, length_singleton] at length
      have stops : keepCount retention s.position sizes < sizes.length := by
        rw [count, ← sized.length_eq, length_reverse]
        omega
      have exceeds := keepCount_next stops
      rw [count] at exceeds
      have longer : (before.reverse.take (k + 1)).reverse =
          newest :: before.drop (before.length - k) := by
        have whole : before = older ++ newest :: before.drop (before.length - k) := by
          rw [dropped, append_assoc] at split
          exact split
        have place : before.length - (k + 1) = older.length := by omega
        rw [take_reverse, reverse_reverse, place]
        conv_lhs => rw [whole]
        exact drop_left
      have total := bytes (k + 1)
      rw [longer] at total
      rw [← cons_append, totalBytes_append, totalBytes_singleton object, total]
      omega

end

/-- Of two segments with a set of 12 bytes each, a limit of 20 keeps the second. -/
theorem clean_keeps_longest_suffix_pair :
    let w := ((runAppends (fun _ => 0) ⟨"log", 12, -1, "delete"⟩ [plainSet [], plainSet []]).run
      World.idle).state
    ∃ dropped kept w', [0, 1] = dropped ++ kept ∧
      (DeleteCleaner.clean 20 [0, 1]).run w = .ok kept w' ∧ Removed dropped w w' ∧
      (1 < kept.length → w.totalBytes kept ≤ 20) ∧
      ∀ older newest, dropped = older ++ [newest] → 20 < w.totalBytes (newest :: kept) := by
  intro w
  have objects : ∀ r ∈ [0, 1], ∃ s, w.segs[r]? = some s ∧ 0 ≤ s.position := by
    have all : ∀ r ∈ [0, 1], w.segs[r]?.any fun s => decide (0 ≤ s.position) := by decide +kernel
    intro r inside
    simpa only [Option.any_eq_true, decide_eq_true_eq] using all r inside
  obtain ⟨dropped, kept, split, -, ran, removed, fits, next⟩ :=
    (@clean_keeps_longest_suffix w 20 [0, 1] (by decide) objects).2 (by decide)
  have cleaned : ((DeleteCleaner.clean 20 [0, 1]).run w).returned = some [1] := by decide +kernel
  have ends := Result.eq_ok_of_returned cleaned
  obtain ⟨_, w', deleted, done⟩ := bind_eq_ok (ran.symm.trans ends)
  exact ⟨dropped, kept, w', split, ran.trans (bind_ok deleted), removed w' deleted, fits, next⟩

end Jocko.Commitlog
