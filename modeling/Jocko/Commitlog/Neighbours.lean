import Jocko.Commitlog.NewReader
import Jocko.Commitlog.RetentionSession

namespace Jocko.Commitlog

open Go World List

/-- Two segments of different logs share neither object nor file. -/
structure View.Away (u v : View) : Prop where
  ref : u.ref ≠ v.ref
  log : u.logInode ≠ v.logInode
  index : u.indexInode ≠ v.indexInode
  logIndex : u.logInode ≠ v.indexInode
  indexLog : u.indexInode ≠ v.logInode

theorem View.Away.symm {u v : View} (away : u.Away v) : v.Away u :=
  ⟨away.ref.symm, away.log.symm, away.index.symm, away.indexLog.symm, away.logIndex.symm⟩

/-- A step that touches nothing but a directory and the segments of some views. -/
structure Beside (dir : String) (vs : List View) (w w' : World) : Prop where
  script : w'.disk.script = w.disk.script
  inodes : w.disk.inodes.length ≤ w'.disk.inodes.length
  segs : w.segs.length ≤ w'.segs.length
  object : ∀ r, r < w.segs.length → (∀ v ∈ vs, v.ref ≠ r) → w'.segs[r]? = w.segs[r]?
  file : ∀ i, i < w.disk.inodes.length → (∀ v ∈ vs, v.logInode ≠ i ∧ v.indexInode ≠ i) →
    w'.disk.file i = w.disk.file i
  listing : ∀ other, other ≠ dir → w'.disk.listing other = w.disk.listing other

/-- The view is one of the given ones with other contents, or new. -/
def Descends (vs : List View) (w : World) (u : View) : Prop :=
  (∃ v ∈ vs, u.ref = v.ref ∧ u.logInode = v.logInode ∧ u.indexInode = v.indexInode) ∨
    (w.segs.length ≤ u.ref ∧ w.disk.inodes.length ≤ u.logInode ∧
      w.disk.inodes.length ≤ u.indexInode)

variable {opts : Options} {dir : String} {vs : List View} {w : World}

theorem LogRep.beside {cleaner : Cleaner} {older : List View} {active : View}
    {w' : World} {log : CommitLog}
    (rep : LogRep opts cleaner none older active { w with log }) (beside : Beside dir vs w w')
    (other : opts.path ≠ dir) (away : ∀ u ∈ older ++ [active], ∀ v ∈ vs, u.Away v) :
    LogRep opts cleaner none older active { w' with log } := by
  refine ⟨⟨beside.script.trans rep.files.quiet, ?_, fun u inside => ?_, rep.files.apart⟩, rep.options,
    rep.cleaner, rep.segments, rep.current, nofun⟩
  · exact (beside.listing _ other).trans rep.files.listing
  · have opened := rep.files.opened u inside
    have apart := away u inside
    exact opened.frame beside.inodes
      (beside.object _ opened.refInside fun v here => (apart v here).ref.symm)
      (beside.file _ opened.inside fun v here =>
        ⟨(apart v here).log.symm, (apart v here).logIndex.symm⟩)
      (beside.file _ opened.indexInside fun v here =>
        ⟨(apart v here).indexLog.symm, (apart v here).index.symm⟩)

/-- What descends from a log's segments is away from the segments of the others. -/
theorem Descends.away {u v : View}
    (descends : Descends vs w u) (opened : v.Open opts w) (away : ∀ u ∈ vs, v.Away u) : v.Away u := by
  rcases descends with ⟨old, inside, ref, log, index⟩ | ⟨ref, log, index⟩
  · have apart := away old inside
    exact ⟨ref ▸ apart.ref, log ▸ apart.log, index ▸ apart.index, index ▸ apart.logIndex,
      log ▸ apart.indexLog⟩
  · have object := opened.refInside
    have logFile := opened.inside
    have indexFile := opened.indexInside
    constructor <;> omega

/-- A log that has kept all its records. -/
structure Kept (opts : Options) (rs : List Bytes) (older : List View) (active : View) (w : World) :
    Prop where
  rep : LogRep opts (.delete opts.maxLogBytes) none older active w
  valid : (ledger none older active).Valid opts
  sized : (ledger none older active).Sized opts
  records : (ledger none older active).Records rs
  whole : ((older ++ [active]).flatMap fun v => v.chunk.recs) = rs

/-- Settings under which a log never drops a record or runs out of index. -/
structure Options.Lasting (opts : Options) : Prop where
  positive : 0 < opts.maxSegmentBytes
  bounded : opts.maxSegmentBytes ≤ 15728640
  unbounded : opts.maxLogBytes = -1

/-- The files of the active segment are all that a plain append touches. -/
theorem beside_push {v : View} (f g : File)
    (s : Segment) (inside : v ∈ vs) :
    Beside dir vs w { w with
      disk := (w.disk.setFile v.logInode f).setFile v.indexInode g
      segs := w.segs.set v.ref s } := by
  refine ⟨rfl, by simp, by simp, fun r _ other => getElem?_set_ne (other v inside),
    fun i _ other => ?_, fun _ _ => by simp⟩
  rw [Disk.file_setFile_ne _ (other v inside).2, Disk.file_setFile_ne _ (other v inside).1]

theorem beside_create (dir : String) (base : Nat) (vs : List View) (w : World) (s : Segment)
    (log : CommitLog) :
    Beside dir vs w { w with
      disk := createdDisk w.disk dir base
      segs := w.segs ++ [s]
      log } := by
  refine ⟨rfl, by simp, by simp, fun r inside _ => getElem?_append_left inside,
    fun i inside _ => file_createdDisk inside base, fun other apart => ?_⟩
  rw [createdDisk, Disk.listing_setFile, Disk.listing_create_ne (fun same => apart same.symm),
    Disk.listing_create_ne (fun same => apart same.symm)]

theorem Beside.trans {us : List View} {w' w'' : World} (first : Beside dir vs w w')
    (second : Beside dir us w' w'') (descend : ∀ u ∈ us, Descends vs w u) : Beside dir vs w w'' := by
  refine ⟨second.script.trans first.script, Nat.le_trans first.inodes second.inodes,
    Nat.le_trans first.segs second.segs, fun r inside other => ?_, fun i inside other => ?_,
    fun dir' apart => (second.listing dir' apart).trans (first.listing dir' apart)⟩
  · refine (second.object r (Nat.lt_of_lt_of_le inside first.segs) fun u here => ?_).trans
      (first.object r inside other)
    rcases descend u here with ⟨v, present, ref, -, -⟩ | ⟨new, -, -⟩
    · exact ref ▸ other v present
    · exact Nat.ne_of_gt (Nat.lt_of_lt_of_le inside new)
  · refine (second.file i (Nat.lt_of_lt_of_le inside first.inodes) fun u here => ?_).trans
      (first.file i inside other)
    rcases descend u here with ⟨v, present, -, log, index⟩ | ⟨-, log, index⟩
    · rw [log, index]
      exact other v present
    · exact ⟨Nat.ne_of_gt (Nat.lt_of_lt_of_le inside log),
        Nat.ne_of_gt (Nat.lt_of_lt_of_le inside index)⟩

namespace LogRep

variable {opts : Options} {older : List View} {active : View} {w : World} {b : Bytes}

theorem split_lasting (rep : LogRep opts (.delete opts.maxLogBytes) none older active w)
    (unlimited : opts.maxLogBytes = -1) (hash : Bytes → UInt64)
    (unused : ∀ v ∈ older ++ [active], v.chunk.base ≠ active.chunk.next) :
    ∃ w', (Commitlog.split hash).run w = .ok () w' ∧ Beside opts.path (older ++ [active]) w w' ∧
      LogRep opts (.delete opts.maxLogBytes) none (older ++ [active])
        (View.fresh w active.chunk.next) w' := by
  obtain ⟨c, object⟩ := rep.object
  obtain ⟨c', d', made, files⟩ := rep.files.create active.chunk.next unused
  obtain ⟨c'', made'⟩ := rep.files.newSegment_run active.chunk.next unused
  obtain ⟨same, rfl⟩ := Result.ok.inj (made.symm.trans made')
  have cleaned (segments : List Nat) (w : World) (policy : w.log.cleaner = .delete opts.maxLogBytes) :
      (clean hash segments).run w = .ok segments w := by
    rw [clean_delete hash policy, DeleteCleaner.clean, if_pos (.inr unlimited)]
    rfl
  refine ⟨_, split_ok hash object (by rw [rep.options, View.nextOffset_segment]; exact made)
    (cleaned _ _ rep.cleaner), beside_create opts.path active.chunk.next _ w _ _,
    files.relog _, rep.options, rep.cleaner, rep.refs_fresh _, rfl, by simp⟩

theorem push_lasting {cleaner : Cleaner} (rep : LogRep opts cleaner none older active w)
    (long : 8 ≤ b.length) (space : (active.chunk.recs.length + 1) * entryWidth ≤ indexBytes) :
    ∃ w', (Commitlog.appendActive b).run w = .ok (active.chunk.next : Int) w' ∧
      Beside opts.path (older ++ [active]) w w' ∧
      LogRep opts cleaner none older (active.push b) w' := by
  obtain ⟨w', appended, rep'⟩ := rep.appendActive long space
  obtain ⟨f, c, appended', -⟩ := rep.files.appendActive_run rep.current long space
  obtain ⟨-, rfl⟩ := Result.ok.inj (appended.symm.trans appended')
  exact ⟨_, appended, beside_push _ _ _ Files.last_mem, rep'⟩

end LogRep

namespace Kept

variable {opts : Options} {rs : List Bytes} {older : List View} {active : View} {w : World}
  {b : Bytes}

theorem next (kept : Kept opts rs older active w) : active.chunk.next = rs.length :=
  kept.records.next

theorem append_cases {l' : Ledger} (kept : Kept opts rs older active w) (lasting : opts.Lasting)
    (appended : (ledger none older active).append opts b = some l') :
    (¬ opts.maxSegmentBytes ≤ active.chunk.size ∧ l' = ledger none older (active.push b)) ∨
    (opts.maxSegmentBytes ≤ active.chunk.size ∧ active.chunk.recs ≠ [] ∧
      l' = ledger none (older ++ [active]) ((View.fresh w active.chunk.next).push b)) := by
  rcases Ledger.append_cases (fun _ => kept.valid.blank) appended with
    ⟨space, rfl⟩ | ⟨none, -⟩ | ⟨full, filled, -, rfl⟩
  · exact .inl ⟨Int.not_le.mpr space, rfl⟩
  · exact absurd lasting.positive (Int.not_lt.mpr none)
  · refine .inr ⟨full, filled, ?_⟩
    rw [retain_all (by rw [retained, if_pos lasting.unbounded])]
    simp [ledger, Ledger.chunks, Ledger.next, View.push, View.fresh]

section

variable (kept : Kept opts rs older active w)
include kept

/-- `Append` in a log that keeps everything: the record goes behind the others, and nothing else
changes. -/
theorem append (lasting : opts.Lasting) (hash : Bytes → UInt64)
    (wide : msgSetHeaderLen ≤ b.length) :
    ∃ older' active' w', (Commitlog.append hash b).run w = .ok (rs.length : Int) w' ∧
      Kept opts (rs ++ [MessageSet.stamp rs.length b]) older' active' w' ∧
      Beside opts.path (older ++ [active]) w w' ∧
      ∀ u ∈ older' ++ [active'], Descends (older ++ [active]) w u := by
  have rep := kept.rep
  have long : 8 ≤ b.length := Nat.le_trans (by decide) wide
  obtain ⟨l', appended⟩ := kept.sized.append_isSome (b := b) kept.valid lasting.positive lasting.bounded
  have valid := kept.valid.append appended
  have sized := kept.sized.append kept.valid wide lasting.positive appended
  have records := kept.records.append kept.valid appended
  have old (u : View) (inside : u ∈ older ++ [active]) : Descends (older ++ [active]) w u :=
    .inl ⟨u, inside, rfl, rfl, rfl⟩
  unfold Commitlog.append
  rw [bind_ok rep.checkSplit]
  rcases kept.append_cases lasting appended with ⟨space, rfl⟩ | ⟨full, filled, rfl⟩
  · simp only [space, decide_false, Bool.false_eq_true, ↓reduceIte]
    have room : (active.chunk.recs.length + 1) * entryWidth ≤ indexBytes := by
      have fill := length_flatten_ge (kept.sized.long _ (Ledger.mem_chunks.mpr (.inr rfl)))
      have bounded := lasting.bounded
      simp only [ledger, msgSetHeaderLen, Chunk.size, entryWidth, indexBytes] at *
      omega
    obtain ⟨w', pushed, beside, rep'⟩ := rep.push_lasting (b := b) long room
    rw [pushed, kept.next]
    refine ⟨older, active.push b, w', rfl, ⟨rep', valid, sized, records, ?_⟩, beside, fun u inside => ?_⟩
    · have whole := kept.whole
      rw [flatMap_append] at whole ⊢
      rw [← whole]
      simp [View.push, kept.next, ← whole]
    · rcases mem_append.mp inside with before | last
      · exact old u (mem_append_left _ before)
      · rw [mem_singleton.mp last]
        exact .inl ⟨active, Files.last_mem, rfl, rfl, rfl⟩
  · simp only [full, decide_true, ↓reduceIte]
    have unused : ∀ v ∈ older ++ [active], v.chunk.base ≠ active.chunk.next := by
      intro v inside
      exact Nat.ne_of_lt (kept.valid.linked.base_lt_next filled (chunk_mem_ledger inside))
    obtain ⟨w₁, splitted, beside₁, rep₁⟩ := rep.split_lasting lasting.unbounded hash unused
    obtain ⟨w', pushed, beside', rep'⟩ := rep₁.push_lasting (b := b) long (by
      simp only [View.fresh, length_nil]
      decide)
    have next : (View.fresh w active.chunk.next).chunk.next = rs.length := kept.next
    have descends {v : View} (new : Descends (older ++ [active]) w v) :
        ∀ u ∈ older ++ [active] ++ [v], Descends (older ++ [active]) w u :=
      forall_mem_append.mpr ⟨old, forall_mem_singleton.mpr new⟩
    have new : Descends (older ++ [active]) w (View.fresh w active.chunk.next) :=
      .inr ⟨Nat.le_refl _, Nat.le_refl _, Nat.le_succ _⟩
    rw [bind_ok splitted, pushed, next]
    refine ⟨older ++ [active], (View.fresh w active.chunk.next).push b, w', rfl,
      ⟨rep', valid, sized, records, ?_⟩, beside₁.trans beside' (descends new), descends new⟩
    rw [flatMap_append, kept.whole, ← next]
    simp [View.push, View.fresh]

theorem first {u : View}
    (shape : older ++ [active] = u :: vs) : u.chunk.base = 0 := by
  have chunks := chunks_ledger none older active
  have head : (ledger none older active).chunks.head? = some u.chunk := by rw [chunks, shape]; rfl
  have below := kept.valid.linked.next_le (mem_of_head? head)
  have stored := recs_of_chain kept.valid.chained kept.records.within head
    (by simp [ledger, Ledger.chunks] :
      (ledger none older active).chunks.getLast? = some active.chunk) kept.next
  have whole : ((ledger none older active).chunks.map Chunk.recs).flatten = rs := by
    rw [chunks, map_map, ← flatMap_def]
    exact kept.whole
  have lengths := congrArg length (whole.symm.trans stored)
  have last := kept.next
  simp only [length_drop, ledger, Ledger.next, Chunk.next] at lengths below last
  omega

theorem contents : w.contents.flatten = rs.flatten := by
  rw [kept.rep.contents, Ledger.contents, ← kept.whole]
  simp [ledger, Ledger.chunks, flatMap_def, flatten_flatten, Function.comp_def]

/-- Every record of the log is stored by one of its segments, at its offset. -/
theorem stores (bounded : opts.maxSegmentBytes ≤ 15728640)
    {o : Nat} {record : Bytes} (here : rs[o]? = some record) :
    ∃ r ∈ w.log.segments, ∃ s base recs, w.segs[r]? = some s ∧ s.Stores w.disk base recs ∧
      ∃ j : Nat, o = base + j ∧ recs[j]? = some record := by
  have chunks := chunks_ledger none older active
  obtain ⟨u, vs, shape⟩ := List.exists_cons_of_ne_nil (l := older ++ [active]) (by simp)
  have inside := (List.getElem?_eq_some_iff.mp here).1
  obtain ⟨k, c, there, low, high⟩ := exists_chunk kept.valid.chained
    (by rw [chunks, shape]; rfl : (ledger none older active).chunks.head? = some u.chunk)
    (by simp [ledger, Ledger.chunks] :
      (ledger none older active).chunks.getLast? = some active.chunk)
    (show u.chunk.base ≤ o by rw [kept.first shape]; exact Nat.zero_le o)
    (show o < active.chunk.next by rw [kept.next]; exact inside)
  have listed := mem_of_getElem? there
  have part := kept.records.within c listed
  have fits := kept.sized.low bounded listed
  rw [chunks] at there
  rw [getElem?_map] at there
  obtain ⟨v, place, rfl⟩ := Option.map_eq_some_iff.mp there
  have opened := kept.rep.files.opened v (mem_of_getElem? place)
  obtain ⟨cursor, object⟩ := opened.object
  refine ⟨v.ref, ?_, _, v.chunk.base, v.chunk.recs, object, opened.stores cursor fits,
    o - v.chunk.base, by omega, ?_⟩
  · rw [kept.rep.segments]
    exact mem_append_right _ (mem_map_of_mem (mem_of_getElem? place))
  · obtain ⟨more, whole⟩ := part
    have short : o - v.chunk.base < v.chunk.recs.length := by
      simp only [Chunk.next] at high
      omega
    rw [← getElem?_append_left short, whole, getElem?_drop, Nat.add_sub_cancel' low]
    exact here

/-- A reader for offset 0 has the whole log before it. -/
theorem newReader :
    ∃ r, (Commitlog.newReader 0).run w = .ok ⟨0, 0⟩ w ∧ w.log.segments[0]? = some r := by
  obtain ⟨u, vs, shape⟩ := exists_cons_of_ne_nil (l := older ++ [active]) (by simp)
  have base := kept.first shape
  have inside : u ∈ older ++ [active] := by rw [shape]; exact mem_cons_self ..
  have opened := kept.rep.files.opened u inside
  obtain ⟨c, object⟩ := opened.object
  have listed : w.log.segments[0]? = some u.ref := by
    rw [kept.rep.segments, shape]
    rfl
  refine ⟨u.ref, ?_, listed⟩
  by_cases blank : u.chunk.recs = []
  · have empty : u.chunk.entries = [] := by
      rw [← length_eq_zero_iff, Chunk.length_entries, blank]
      rfl
    have holds := opened.index
    rw [empty] at holds
    exact newReader_zero object listed
      (Segment.findEntry_ok (s := u.segment opts c) holds rfl lookupEntry_nil)
  · have high : 0 < u.chunk.next := by
      have some := length_pos_iff.mpr blank
      simp only [Chunk.next]
      omega
    have found := (opened.findEntry_iff c (Nat.le_of_eq base) high).mpr
      ⟨⟨by omega, by omega⟩, by simp [Chunk.start]⟩
    have start : u.chunk.start (0 - u.chunk.base) = 0 := by simp [Chunk.start]
    rw [start, Int.natCast_zero] at found
    exact newReader_zero object listed found

theorem truncate_zero :
    (Commitlog.truncate 0).run w = .ok () w := by
  have kept' : ∀ segments : List Nat, (∀ r ∈ segments, r ∈ w.log.segments) →
      (truncateSegments 0 segments).run w = .ok segments w := by
    intro segments
    induction segments with
    | nil => exact fun _ => rfl
    | cons r segments ih =>
      intro listed
      have here := listed r (mem_cons_self ..)
      have rest := ih fun r' inside => listed r' (mem_cons_of_mem _ inside)
      rw [kept.rep.segments] at here
      obtain ⟨v, inside, rfl⟩ := mem_map.mp (by simpa using here :
        r ∈ (older ++ [active]).map View.ref)
      obtain ⟨c, object⟩ := (kept.rep.files.opened v inside).object
      have base : ¬ (v.segment opts c).baseOffset < 0 := by
        simp only [View.segment, Segment.opened]
        omega
      unfold truncateSegments
      rw [bind_ok (seg_ok object), if_neg base, bind_ok rest]
      rfl
  unfold Commitlog.truncate
  rw [bind_ok (getLog_run w), bind_ok (kept' _ fun _ inside => inside)]
  rfl

end

end Kept

theorem new_kept (named : opts.path ≠ "")
    (policy : opts.cleanupPolicy = deleteCleanupPolicy) (quiet : w.disk.script = [])
    (empty : w.disk.listing opts.path = []) :
    ∃ w', (new opts).run w = .ok () w' ∧ Kept opts [] [] (View.fresh w 0) w' ∧
      Beside opts.path [] w w' := by
  have same : opts.resolved = opts := by
    rw [Options.resolved, policy]
    rfl
  obtain ⟨c, made, files⟩ := new_run named quiet empty
  rw [same] at made files
  refine ⟨_, made, ⟨⟨files.relog _, rfl, newCleaner_delete policy, rfl, rfl, nofun⟩,
    Ledger.valid_start, Ledger.sized_start, ⟨rfl, ?_⟩, rfl⟩, beside_create opts.path 0 [] w _ _⟩
  simp [ledger, Ledger.chunks, View.fresh]

end Jocko.Commitlog
