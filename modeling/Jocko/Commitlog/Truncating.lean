import Jocko.Commitlog.LinkedRefines
import Jocko.Commitlog.LogInvariant

namespace Jocko.Commitlog

open Go World List

variable {opts : Options} {w w' : World} (offset : Int)

/-- The loop of `Truncate` deletes the segments that begin before the offset. -/
theorem Files.truncateSegments {us vs : List View} (files : Files opts (us ++ vs) w) :
    ∃ w', (Commitlog.truncateSegments offset (vs.map View.ref)).run w =
        .ok ((vs.filter fun v => offset ≤ v.chunk.base).map View.ref) w' ∧ w'.log = w.log ∧
      Files opts (us ++ vs.filter fun v => offset ≤ v.chunk.base) w' := by
  induction vs generalizing us w with
  | nil => exact ⟨w, rfl, rfl, files⟩
  | cons v vs ih =>
    obtain ⟨c, object⟩ := (files.opened v (by simp)).object
    have base : (v.segment opts c).baseOffset = v.chunk.base := rfl
    rw [map_cons, Commitlog.truncateSegments, bind_ok (seg_ok object), base]
    by_cases before : (v.chunk.base : Int) < offset
    · obtain ⟨w₁, deleted, log₁, -, files₁⟩ := files.delete
      obtain ⟨w', ran, log, files'⟩ := ih files₁
      rw [if_pos before, bind_ok deleted, ran, filter_cons_of_neg (by simpa using before)]
      exact ⟨w', rfl, log.trans log₁, files'⟩
    · rw [append_cons] at files
      obtain ⟨w', ran, log, files'⟩ := ih files
      rw [if_neg before, bind_ok ran, filter_cons_of_pos (by simpa using before), append_cons]
      exact ⟨w', rfl, log, files'⟩

/-- Of segments in the order of their offsets, those from an offset on are the last ones. -/
theorem filter_suffix {vs : List View} (bases : vs.Pairwise fun u v => u.chunk.base < v.chunk.base) :
    vs.filter (fun v => offset ≤ v.chunk.base) <:+ vs := by
  induction vs with
  | nil => exact suffix_rfl
  | cons v vs ih =>
    obtain ⟨above, bases⟩ := pairwise_cons.mp bases
    by_cases kept : offset ≤ v.chunk.base
    · exact ⟨[], filter_eq_self.mpr (by grind)⟩
    · rw [filter_cons_of_neg (by simpa using kept)]
      exact (ih bases).trans (suffix_cons v vs)

/-- `Truncate` keeps the segments from the offset on, and the log goes on if the active one is
among them. -/
theorem LogRep.truncate {cleaner : Cleaner} {older : List View} {active : View}
    (rep : LogRep opts cleaner none older active w) (linked : (ledger none older active).Linked) :
    ∃ w', (truncate offset).run w = .ok () w' ∧
      w'.log.segments = w.log.segments.filter (fun r => w.segs[r]?.any (offset ≤ ·.baseOffset)) ∧
      (active.chunk.base < offset → w'.log.segments = []) ∧
      (offset ≤ active.chunk.base →
        ∃ older', older' <:+ older ∧ LogRep opts cleaner none older' active w') := by
  obtain ⟨w₁, ran, log, files⟩ :=
    @Files.truncateSegments opts w offset [] (older ++ [active]) rep.files
  have segments : w.log.segments = (older ++ [active]).map View.ref := rep.segments
  have bases : ∀ v ∈ older ++ [active],
      w.segs[v.ref]?.any (offset ≤ ·.baseOffset) = decide (offset ≤ v.chunk.base) := by
    intro v inside
    obtain ⟨c, object⟩ := (rep.files.opened v inside).object
    rw [object]
    rfl
  have ordered := linked.bases
  rw [chunks_ledger, pairwise_map] at ordered
  obtain ⟨ordered, -, last⟩ := pairwise_append.mp ordered
  unfold Commitlog.truncate
  rw [bind_ok (getLog_run w), segments, bind_ok ran, bind_ok (getLog_run w₁), filter_map,
    Function.comp_def, filter_congr bases]
  refine ⟨_, rfl, rfl, fun behind => ?_, fun below => ⟨_, filter_suffix offset ordered, ?_⟩⟩
  · exact map_eq_nil_iff.mpr (filter_eq_nil_iff.mpr (by grind))
  · rw [filter_append, filter_cons_of_pos (by simpa using below)] at files ⊢
    exact ⟨files.relog _, log ▸ rep.options, log ▸ rep.cleaner, rfl, log ▸ rep.current, by simp⟩

/-- The states that a process brings its log to from `New` on, with the records it has stored: it
calls `Append`, and `Truncate` up to where the active segment begins. -/
inductive Trims (hash : Bytes → UInt64) (opts : Options) (w : World) : List Bytes → World → Prop
  | made {w' : World} (made : (new opts).run w = .ok () w') : Trims hash opts w [] w'
  | append {rs : List Bytes} {w₁ w' : World} {b : Bytes} (before : Trims hash opts w rs w₁)
      (offset : Int) (appended : (append hash b).run w₁ = .ok offset w') :
      Trims hash opts w (rs ++ [MessageSet.stamp rs.length b]) w'
  | truncate {rs : List Bytes} {w₁ w' : World} {s : Segment} (before : Trims hash opts w rs w₁)
      (offset : Int) (active : w₁.segs[w₁.log.active]? = some s) (below : offset ≤ s.baseOffset)
      (truncated : (truncate offset).run w₁ = .ok () w') :
      Trims hash opts w rs w'

section

variable {hash : Bytes → UInt64} {rs : List Bytes} (named : opts.path ≠ "")
  (policy : opts.resolved.cleanupPolicy = deleteCleanupPolicy) (positive : 0 < opts.maxSegmentBytes)
  (bounded : opts.maxSegmentBytes ≤ 2147483648) (quiet : w.disk.script = [])
  (empty : w.disk.listing opts.path = []) (reached : Trims hash opts w rs w')
include named policy positive bounded quiet empty reached

theorem Trims.rep : ∃ older active,
    LogRep opts.resolved (.delete opts.resolved.maxLogBytes) none older active w' ∧
      (ledger none older active).Linked ∧ (ledger none older active).Low ∧
      (ledger none older active).Records rs := by
  have positive' : 0 < opts.resolved.maxSegmentBytes := by simpa using positive
  induction reached with
  | made made =>
    obtain ⟨w₁, made', rep⟩ := new_empty named quiet empty
    obtain ⟨-, rfl⟩ := Result.ok.inj (made'.symm.trans made)
    rw [newCleaner_delete policy] at rep
    refine ⟨_, _, rep, (@Ledger.valid_start opts).linked, ?_, Ledger.records_start⟩
    simp [Ledger.Low, ledger, Ledger.chunks, View.fresh]
  | append _ _ appended ih =>
    obtain ⟨older, active, rep, linked, low, records⟩ := ih
    rcases rep.append_linked hash linked positive' (long_of_append appended) with
      ⟨older', active', w₂, fits, ran, rep'⟩ | ⟨-, why, w₂, failed⟩
    · obtain ⟨-, rfl⟩ := Result.ok.inj (ran.symm.trans appended)
      exact ⟨older', active', rep', linked.append positive' rfl fits,
        low.append positive' (by simpa using bounded) rfl fits,
        records.append_linked positive' rfl fits⟩
    · rw [failed] at appended
      cases appended
  | truncate _ _ object below truncated ih =>
    obtain ⟨older, active, rep, linked, low, records⟩ := ih
    obtain ⟨c, here⟩ := rep.object
    obtain rfl := Option.some_inj.mp (object.symm.trans here)
    obtain ⟨w₂, ran, -, -, goes⟩ := rep.truncate _ linked
    obtain ⟨-, rfl⟩ := Result.ok.inj (ran.symm.trans truncated)
    obtain ⟨older', kept, rep'⟩ := goes below
    have filled := kept.map View.chunk
    have suffix : (ledger none older' active).chunks <:+ (ledger none older active).chunks :=
      (suffix_append_inj_of_length_eq rfl).mpr ⟨filled, rfl⟩
    exact ⟨older', active, rep', ⟨linked.chained.suffix suffix, fun c inside =>
      linked.filled c (filled.mem inside)⟩, fun c inside => low c (suffix.mem inside),
      records.next, fun c inside => records.within c (suffix.mem inside)⟩

/-- A log that is appended to and truncated goes on taking records under the next offsets, as long
as its index has room, and what it keeps stays as it was stored. -/
theorem trims_invariant :
    (∃ segs, LogInvariant rs w' segs) ∧ ∀ s ∈ w'.segs[w'.log.active]?,
      (∀ b : Bytes, 8 ≤ b.length → s.index.position + entryWidth ≤ indexBytes →
        ∃ w'', (append hash b).run w' = .ok (rs.length : Int) w'') ∧
      ∀ offset, ∃ w'', (truncate offset).run w' = .ok () w'' ∧ w''.log.segments =
        w'.log.segments.filter (fun r => w'.segs[r]?.any (offset ≤ ·.baseOffset)) ∧
        (s.baseOffset < offset → w''.log.segments = []) := by
  have positive' : 0 < opts.resolved.maxSegmentBytes := by simpa using positive
  obtain ⟨older, active, rep, linked, low, records⟩ :=
    reached.rep named policy positive bounded quiet empty
  refine ⟨rep.invariant linked records low, fun s object => ?_⟩
  obtain ⟨c, here⟩ := rep.object
  obtain rfl := Option.some_inj.mp (object.symm.trans here)
  refine ⟨fun b long room => ?_, fun offset => ?_⟩
  · rcases rep.append_linked hash linked positive' long with ⟨-, -, w₂, -, ran, -⟩ | ⟨stuck, -⟩
    · exact ⟨w₂, by rw [ran, ← records.next]; rfl⟩
    · have slot : (active.chunk.recs.length + 1) * entryWidth ≤ indexBytes := by
        rw [Nat.add_one_mul]
        exact room
      unfold Ledger.append at stuck
      split at stuck
      · rename_i full
        have filled : active.chunk.recs ≠ [] := Ledger.recs_ne_nil_of_full positive' full
        simp [Ledger.split, filled, Ledger.push, ledger, entryWidth, indexBytes] at stuck
      · simp [Ledger.push, ledger, slot] at stuck
  · obtain ⟨w₂, ran, segments, none, -⟩ := rep.truncate offset linked
    exact ⟨w₂, ran, segments, none⟩

end

theorem trims_invariant_second :
    ∃ rs w', Trims (fun _ => 0) ⟨"log", 12, -1, "delete"⟩ World.idle rs w' ∧ rs.length = 2 ∧
      w'.log.segments.length = 1 ∧ ∃ segs, LogInvariant rs w' segs := by
  have made : Trims (fun _ => 0) ⟨"log", 12, -1, "delete"⟩ World.idle [] _ :=
    .made (Result.eq_ok_of_returned (by decide +kernel))
  have first := made.append (b := plainSet [1]) 0 (Result.eq_ok_of_returned (by decide +kernel))
  have second := first.append (b := plainSet [2]) 1 (Result.eq_ok_of_returned (by decide +kernel))
  have cut := second.truncate 1 (Option.some_get (by decide +kernel)).symm
    (by decide +kernel) (Result.eq_ok_of_returned (by decide +kernel))
  exact ⟨_, _, cut, rfl, by decide +kernel, (trims_invariant (by decide) rfl (by decide) (by decide)
    rfl rfl cut).1⟩

end Jocko.Commitlog
