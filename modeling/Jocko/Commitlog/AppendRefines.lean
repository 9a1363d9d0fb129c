import Jocko.Commitlog.Retention

namespace Jocko.Commitlog

open Go World List

/-- A running log: its segments with their files, the last of them active, and possibly
a phantom in front that has the files of the first. -/
structure LogRep (opts : Options) (cleaner : Cleaner) (ghost : Option Nat) (older : List View)
    (active : View) (w : World) : Prop where
  files : Files opts (older ++ [active]) w
  options : w.log.opts = opts
  cleaner : w.log.cleaner = cleaner
  segments : w.log.segments = ghost.toList ++ (older ++ [active]).map View.ref
  current : w.log.active = active.ref
  phantom : ∀ g ∈ ghost, (∀ v ∈ (older ++ [active]).head?, Phantom opts v g w) ∧
    ∀ v ∈ older ++ [active], v.ref ≠ g

/-- What a running log stores. -/
def ledger (ghost : Option Nat) (older : List View) (active : View) : Ledger :=
  ⟨ghost.isSome, older.map View.chunk, active.chunk⟩

theorem chunks_ledger (ghost : Option Nat) (older : List View) (active : View) :
    (ledger ghost older active).chunks = (older ++ [active]).map View.chunk := by
  simp [ledger, Ledger.chunks]

theorem ledger_newest {older : List View} {active v : View} (chunk : v.chunk = ⟨active.chunk.next, []⟩)
    (retention : Int) : ledger none (Files.newest retention (older ++ [active])) v =
      ⟨false, retain retention (ledger none older active).chunks,
        ⟨(ledger none older active).next, []⟩⟩ := by
  rw [chunks_ledger]
  simp [ledger, chunk, retain, Ledger.next, Files.newest]

theorem chunk_mem_ledger {ghost : Option Nat} {older : List View} {active v : View}
    (inside : v ∈ older ++ [active]) : v.chunk ∈ (ledger ghost older active).chunks := by
  rw [chunks_ledger]
  exact mem_map_of_mem inside

/-- The process runs a log that stores the ledger. -/
def Rep (opts : Options) (cleaner : Cleaner) (l : Ledger) (w : World) : Prop :=
  l.Valid opts ∧ ∃ ghost older active,
    LogRep opts cleaner ghost older active w ∧ l = ledger ghost older active

section

variable (hash : Bytes → UInt64) {w : World} {s s' : Segment} {d' : Disk}

theorem newestOffset_run (object : w.segs[w.log.active]? = some s) :
    newestOffset.run w = .ok s.nextOffset w := by
  unfold newestOffset
  rw [bind_ok (activeSegment_run object)]
  rfl

theorem checkSplit_run (object : w.segs[w.log.active]? = some s) :
    checkSplit.run w = .ok s.isFull w := by
  unfold checkSplit
  rw [bind_ok (activeSegment_run object)]
  rfl

theorem clean_delete {retention : Int} (policy : w.log.cleaner = .delete retention)
    (segments : List Nat) :
    (clean hash segments).run w = (DeleteCleaner.clean retention segments).run w := by
  unfold clean
  rw [bind_ok (getLog_run w)]
  simp only [policy]

variable (object : w.segs[w.log.active]? = some s)
  (made : (newSegment w.log.opts.path s.nextOffset w.log.opts.maxSegmentBytes []).run w.disk =
    .ok s' d')
include object made

theorem split_start :
    (split hash).run w = (do
      let segments ← clean hash (w.log.segments ++ [w.segs.length])
      setLog { ← getLog with segments }
      setLog { ← getLog with active := w.segs.length } : Call World Unit).run
        { w with disk := d', segs := w.segs ++ [s'] } := by
  have allocated : (alloc s').run { w with disk := d' } =
      .ok w.segs.length { w with disk := d', segs := w.segs ++ [s'] } := rfl
  unfold split
  rw [bind_ok (getLog_run w), bind_ok (newestOffset_run object), bind_ok (onDisk_ok made),
    bind_ok allocated]

theorem split_ok {segments : List Nat} {w' : World}
    (cleaned : (clean hash (w.log.segments ++ [w.segs.length])).run
      { w with disk := d', segs := w.segs ++ [s'] } = .ok segments w') :
    (split hash).run w =
      .ok () { w' with log := { w'.log with segments, active := w.segs.length } } := by
  rw [split_start hash object made, bind_ok cleaned]
  rfl

theorem split_error {why : Stop} {w' : World}
    (cleaned : (clean hash (w.log.segments ++ [w.segs.length])).run
      { w with disk := d', segs := w.segs ++ [s'] } = .error why w') :
    (split hash).run w = .error why w' := by
  rw [split_start hash object made, bind_error cleaned]

end

namespace LogRep

variable {opts : Options} {cleaner : Cleaner} {ghost : Option Nat} {older : List View}
  {active : View} {w : World} (hash : Bytes → UInt64) {b : Bytes}

section

variable (rep : LogRep opts cleaner ghost older active w)
include rep

theorem object :
    ∃ c, w.segs[w.log.active]? = some (active.segment opts c) := by
  rw [rep.current]
  exact (rep.files.opened active Files.last_mem).object

theorem refs_fresh (base : Nat) : w.log.segments ++ [w.segs.length] =
    ghost.toList ++ (older ++ [active] ++ [View.fresh w base]).map View.ref := by
  rw [rep.segments, append_assoc]
  simp [View.fresh]

theorem newestOffset :
    newestOffset.run w = .ok (active.chunk.next : Int) w := by
  obtain ⟨c, object⟩ := rep.object
  rw [newestOffset_run object, View.nextOffset_segment]

theorem checkSplit :
    checkSplit.run w = .ok (decide (opts.maxSegmentBytes ≤ active.chunk.size)) w := by
  obtain ⟨c, object⟩ := rep.object
  rw [checkSplit_run object]
  rfl

theorem appendActive (long : 8 ≤ b.length)
    (space : (active.chunk.recs.length + 1) * entryWidth ≤ indexBytes) :
    ∃ w', (appendActive b).run w = .ok (active.chunk.next : Int) w' ∧
      LogRep opts cleaner ghost older (active.push b) w' := by
  obtain ⟨w', appended, log, frame, files⟩ := rep.files.appendActive_ok rep.current long space
  refine ⟨w', appended, files, by rw [log, rep.options], by rw [log, rep.cleaner], ?_,
    by rw [log, rep.current]; rfl, fun g here => ?_⟩
  · rw [log, rep.segments]
    simp [View.push]
  · obtain ⟨phantom, other⟩ := rep.phantom g here
    have apart : g ≠ active.ref := (other active Files.last_mem).symm
    constructor
    · intro v first
      cases older with
      | nil =>
        obtain rfl : active.push b = v := by simpa using first
        obtain ⟨base, c, object⟩ := phantom active rfl
        exact ⟨base, c, (frame g apart).trans object⟩
      | cons u older =>
        obtain ⟨base, c, object⟩ := phantom v first
        exact ⟨base, c, (frame g apart).trans object⟩
    · intro v inside
      rcases mem_append.mp inside with before | last
      · exact other v (mem_append_left _ before)
      · obtain rfl := mem_singleton.mp last
        exact apart.symm

end

section

variable (rep : LogRep opts (.delete opts.maxLogBytes) none older active w)
  (unused : ∀ v ∈ older ++ [active], v.chunk.base ≠ active.chunk.next)
include rep unused

/-- A full segment gets a successor, and the cleaner drops the oldest ones. -/
theorem split_fresh :
    ∃ w', (split hash).run w = .ok () w' ∧
      LogRep opts (.delete opts.maxLogBytes) none
        (Files.newest opts.maxLogBytes (older ++ [active])) (View.fresh w active.chunk.next) w' := by
  obtain ⟨c, object⟩ := rep.object
  obtain ⟨c', d', made, files⟩ := rep.files.create active.chunk.next unused
  obtain ⟨w', cleaned, log, files'⟩ := files.clean_run rfl opts.maxLogBytes
  rw [← clean_delete hash (by exact rep.cleaner)] at cleaned
  refine ⟨_, split_ok hash object (by rw [rep.options, View.nextOffset_segment]; exact made)
    (by rw [rep.refs_fresh]; exact cleaned), files'.relog _, ?_, ?_, rfl, rfl, by simp⟩
  · simp only [log]
    exact rep.options
  · simp only [log]
    exact rep.cleaner

end

/-- The first segment, which shares its files with the phantom. -/
theorem first_phantom {g : Nat} (rep : LogRep opts cleaner (some g) older active w) :
    ∃ u vs, older ++ [active] = u :: vs ∧ Phantom opts u g w ∧ g < w.segs.length := by
  obtain ⟨u, vs, shape⟩ := exists_cons_of_ne_nil (l := older ++ [active]) (by simp)
  have phantom := (rep.phantom g rfl).1 u (by rw [shape]; rfl)
  obtain ⟨-, c, object⟩ := id phantom
  exact ⟨u, vs, shape, phantom, (List.getElem?_eq_some_iff.mp object).1⟩

/-- With a phantom in front the successor is made only if nothing has to be dropped. -/
theorem split_phantom {g : Nat}
    (rep : LogRep opts (.delete opts.maxLogBytes) (some g) older active w)
    (unused : ∀ v ∈ older ++ [active], v.chunk.base ≠ active.chunk.next) :
    (retained opts.maxLogBytes ((older ++ [active]).map View.chunk) = (older ++ [active]).length ∧
      ∃ w' v, (Commitlog.split hash).run w = .ok () w' ∧ v.chunk = ⟨active.chunk.next, []⟩ ∧
        LogRep opts (.delete opts.maxLogBytes) (some g) (older ++ [active]) v w') ∨
    (retained opts.maxLogBytes ((older ++ [active]).map View.chunk) ≠ (older ++ [active]).length ∧
      ∃ w', (Commitlog.split hash).run w = .error (.err .notExist) w') := by
  obtain ⟨c, object⟩ := rep.object
  obtain ⟨c', d', made, files⟩ := rep.files.create active.chunk.next unused
  obtain ⟨u, vs, shape, phantom, ghostInside⟩ := rep.first_phantom
  have refs : w.log.segments ++ [w.segs.length] =
      g :: (older ++ [active] ++ [View.fresh w active.chunk.next]).map View.ref := rep.refs_fresh _
  have apart : ∀ v ∈ older ++ [active] ++ [View.fresh w active.chunk.next], v.ref ≠ g := by
    intro v inside
    rcases mem_append.mp inside with old | new
    · exact (rep.phantom g rfl).2 v old
    · obtain rfl := mem_singleton.mp new
      exact Nat.ne_of_gt ghostInside
  have phantom' (log : CommitLog) : Phantom opts u g ⟨d', w.segs ++
      [(View.fresh w active.chunk.next).segment opts c'], log⟩ := by
    obtain ⟨base, cursor, ghost⟩ := phantom
    exact ⟨base, cursor, (getElem?_append_left ghostInside).trans ghost⟩
  have made' : (newSegment w.log.opts.path (active.segment opts c).nextOffset
      w.log.opts.maxSegmentBytes []).run w.disk =
        .ok ((View.fresh w active.chunk.next).segment opts c') d' := by
    rw [rep.options, View.nextOffset_segment]
    exact made
  rw [shape] at files apart refs ⊢
  by_cases all : retained opts.maxLogBytes ((u :: vs).map View.chunk) = (u :: vs).length
  · have cleaned := files.clean_phantom_all (phantom' _) rfl all
    rw [← clean_delete hash (by exact rep.cleaner), ← refs] at cleaned
    refine .inl ⟨all, _, View.fresh w active.chunk.next, split_ok hash object made' cleaned, rfl,
      files.relog _, rep.options, rep.cleaner, refs, rfl, fun g' here => ?_⟩
    obtain rfl := Option.some.inj here
    refine ⟨fun v first => ?_, apart⟩
    obtain rfl : u = v := by simpa using first
    exact phantom' _
  · obtain ⟨w', cleaned⟩ := files.clean_phantom_some (phantom' _) apart rfl all
    rw [← clean_delete hash (by exact rep.cleaner), ← refs] at cleaned
    exact .inr ⟨all, w', split_error hash object made' cleaned⟩

/-- `NewSegment` at offset 0 while the files of an empty segment are there already. -/
theorem newSegment_again (rep : LogRep opts cleaner none [] active w)
    (empty : active.chunk = ⟨0, []⟩) :
    ∃ c, (newSegment opts.path 0 opts.maxSegmentBytes []).run w.disk =
      .ok (active.segment opts c) w.disk := by
  have opened := rep.files.opened active Files.last_mem
  have blank := opened.blank (by rw [empty])
  have stored := opened.stored
  obtain ⟨log, index⟩ := @Files.named opts [] [] active w rep.files
  rw [empty] at log index
  have sane : SaneIndex (w.disk.file active.indexInode) := by
    rw [blank]
    exact SaneIndex.blank
  have made := newSegment_walk opts.maxSegmentBytes
    (Disk.openFile_old rep.files.quiet log) (Disk.openFile_old rep.files.quiet index)
    rep.files.quiet opened.apart opened.indexInside sane
  simp only [stored, empty, flatten_nil, File.content_plain, walk_nil] at made
  rcases made with ⟨-, c, f, s, made, shape, -, idle⟩ | ⟨full, -⟩
  · refine ⟨c, ?_⟩
    have same : f = w.disk.file active.indexInode := by
      rw [idle trivial, blank]
      rfl
    rw [same, Disk.setFile_file opened.indexInside, shape] at made
    rw [View.segment, empty]
    exact made
  · exact absurd full (by simp)

/-- The cleaner on the two objects that share the files of an empty segment. -/
theorem clean_pair (retention : Int) {s s' : Segment} {r r' : Nat}
    (first : w.segs[r]? = some s) (second : w.segs[r']? = some s') (empty : s.position = 0)
    (empty' : s'.position = 0) :
    (DeleteCleaner.clean retention [r, r']).run w =
      if retention = -1 ∨ 0 ≤ retention then .ok [r, r'] w
      else (do DeleteCleaner.deleteAll [r]; return [r'] : Call World (List Nat)).run w := by
  by_cases unbounded : retention = -1
  · simp [DeleteCleaner.clean, unbounded]
  · have sized : Sizes w [r].reverse [0] := Forall₂.cons ⟨s, first, empty⟩ Forall₂.nil
    have start := DeleteCleaner.clean_start unbounded second empty' sized
    by_cases bounded : 0 ≤ retention
    · have count : keepCount retention 0 [0] = 1 := by
        simp only [keepCount, Int.natCast_zero, Int.add_zero, Int.not_lt.mpr bounded, ↓reduceIte]
      rw [count] at start
      rw [if_pos (.inr bounded)]
      exact start
    · have count : keepCount retention 0 [0] = 0 := by
        simp only [keepCount, Int.natCast_zero, Int.add_zero, Int.not_le.mp bounded, ↓reduceIte]
      rw [count] at start
      rw [if_neg (by simp [unbounded, bounded])]
      exact start

section

variable (rep : LogRep opts (.delete opts.maxLogBytes) none [] active w)
  (empty : active.chunk = ⟨0, []⟩)
include rep empty

/-- An empty full segment is opened twice, and the first object stays as a phantom. -/
theorem split_empty (keeps : opts.maxLogBytes = -1 ∨ 0 ≤ opts.maxLogBytes) :
    ∃ w' v g, (Commitlog.split hash).run w = .ok () w' ∧ v.chunk = ⟨0, []⟩ ∧
      LogRep opts (.delete opts.maxLogBytes) (some g) [] v w' := by
  obtain ⟨c, object⟩ := rep.object
  obtain ⟨c', made⟩ := rep.newSegment_again empty
  have opened := rep.files.opened active Files.last_mem
  have zero : (active.segment opts c).nextOffset = 0 := by
    simp [empty, Chunk.next]
  have cleaned := clean_pair opts.maxLogBytes
    (w := ⟨w.disk, w.segs ++ [active.segment opts c'], w.log⟩)
    ((getElem?_append_left opened.refInside).trans (by rw [← rep.current]; exact object))
    (getElem?_concat_length) (by simp [empty, Chunk.size]) (by simp [empty, Chunk.size])
  have refs : w.log.segments ++ [w.segs.length] = [active.ref, w.segs.length] :=
    rep.refs_fresh 0
  rw [if_pos keeps, ← clean_delete hash (by exact rep.cleaner), ← refs] at cleaned
  refine ⟨_, { active with ref := w.segs.length }, active.ref, split_ok hash object
    (by rw [rep.options, zero]; exact made) cleaned, empty,
    ⟨rep.files.quiet, rep.files.listing, ?_, pairwise_singleton _ _⟩, rep.options, rep.cleaner,
    refs, rfl, fun g here => ?_⟩
  · intro v inside
    obtain rfl := mem_singleton.mp inside
    exact ⟨⟨c', getElem?_concat_length⟩, opened.stored, opened.inside, opened.index,
      opened.blank, opened.apart⟩
  · obtain rfl := Option.some.inj here
    refine ⟨fun v first => ?_, fun v inside => ?_⟩
    · obtain rfl := Option.some.inj first
      refine ⟨by rw [empty], c, (getElem?_append_left opened.refInside).trans ?_⟩
      rw [← rep.current, object]
      simp [View.segment, empty, Chunk.size]
    · obtain rfl := mem_singleton.mp inside
      exact Nat.ne_of_gt opened.refInside

/-- A retention size that drops even an empty segment drops the shared files, and the
write of the index entry faults. -/
theorem split_lost (drops : ¬ (opts.maxLogBytes = -1 ∨ 0 ≤ opts.maxLogBytes))
    (long : 8 ≤ b.length) : ∃ w' why w'', (Commitlog.split hash).run w = .ok () w' ∧
      (Commitlog.appendActive b).run w' = .error why w'' := by
  obtain ⟨c, object⟩ := rep.object
  obtain ⟨c', made⟩ := rep.newSegment_again empty
  have opened := rep.files.opened active Files.last_mem
  have zero : (active.segment opts c).nextOffset = 0 := by
    simp [empty, Chunk.next]
  have old : (w.segs ++ [active.segment opts c'])[active.ref]? = some (active.segment opts c) :=
    (getElem?_append_left opened.refInside).trans (by rw [← rep.current]; exact object)
  have cleaned := clean_pair opts.maxLogBytes (w := ⟨w.disk, _, w.log⟩) old
    (getElem?_concat_length) (by simp [empty, Chunk.size]) (by simp [empty, Chunk.size])
  obtain ⟨logNamed, indexNamed⟩ := @Files.named opts [] [] active w rep.files
  have deleted := Segment.delete_live (w := ⟨w.disk, _, w.log⟩) old rfl rfl logNamed indexNamed
    (logPath_ne_indexPath _ _ _).symm rep.files.quiet
  have refs : w.log.segments ++ [w.segs.length] = [active.ref, w.segs.length] :=
    rep.refs_fresh 0
  have dropped : (DeleteCleaner.deleteAll [active.ref]).run ⟨w.disk, _, w.log⟩ = _ :=
    bind_ok deleted
  rw [if_neg drops, ← clean_delete hash (by exact rep.cleaner), ← refs,
    bind_ok dropped] at cleaned
  have done := split_ok hash object (by rw [rep.options, zero]; exact made) cleaned
  have cut : ((w.disk.setFile active.indexInode ((w.disk.file active.indexInode).truncate
      (active.segment opts c).index.position)).file active.indexInode).size < entryWidth := by
    rw [Disk.file_setFile_same _ opened.indexInside, File.size_truncate]
    simp [View.segment, Segment.opened, empty, entryWidth]
  obtain ⟨why, w'', faulted⟩ := appendActive_fault (b := b) (s := active.segment opts c')
    (w := ⟨((w.disk.setFile active.indexInode ((w.disk.file active.indexInode).truncate
      (active.segment opts c).index.position)).unlink (active.segment opts c).log.path).unlink
        (active.segment opts c).index.file.path, _,
      { w.log with segments := [w.segs.length], active := w.segs.length }⟩)
    rep.files.quiet ((getElem?_set_ne (Nat.ne_of_lt opened.refInside)).trans
      getElem?_concat_length) rfl
    (by rw [Disk.inodes_unlink, Disk.inodes_unlink, Disk.length_inodes_setFile]; exact opened.inside)
    long opened.apart (by simpa [View.segment, Segment.opened, empty] using cut)
  exact ⟨_, why, w'', done, faulted⟩

end

theorem push_refines (rep : LogRep opts cleaner ghost older active w) (long : 8 ≤ b.length) :
    ((ledger ghost older active).push b = some (ledger ghost older (active.push b)) ∧
      ∃ w', (Commitlog.appendActive b).run w = .ok (active.chunk.next : Int) w' ∧
        LogRep opts cleaner ghost older (active.push b) w') ∨
    ((ledger ghost older active).push b = none ∧
      ∃ why w', (Commitlog.appendActive b).run w = .error why w') := by
  by_cases space : (active.chunk.recs.length + 1) * entryWidth ≤ indexBytes
  · refine .inl ⟨?_, rep.appendActive long space⟩
    simp only [Ledger.push, ledger, space, ↓reduceIte]
    rfl
  · obtain ⟨w', failed⟩ := rep.files.appendActive_full rep.current long (Nat.not_le.mp space)
    exact .inr ⟨by simp only [Ledger.push, ledger, space, ↓reduceIte], _, w', failed⟩

end LogRep

variable {opts : Options} {w : World}

/-- `split` makes the ledger's split, or the append fails in it or right behind it. -/
theorem split_refines {ghost : Option Nat} {older : List View} {active : View}
    {b : Bytes} (hash : Bytes → UInt64)
    (rep : LogRep opts (.delete opts.maxLogBytes) ghost older active w)
    (valid : (ledger ghost older active).Valid opts) (long : 8 ≤ b.length) :
    (∃ ghost' older' v w', (ledger ghost older active).split opts = some (ledger ghost' older' v) ∧
      (split hash).run w = .ok () w' ∧ v.chunk = ⟨active.chunk.next, []⟩ ∧
      LogRep opts (.delete opts.maxLogBytes) ghost' older' v w') ∨
    ((ledger ghost older active).split opts = none ∧
      ((∃ why w', (split hash).run w = .error why w') ∨
        ∃ w' why w'', (split hash).run w = .ok () w' ∧
          (appendActive b).run w' = .error why w'')) := by
  by_cases empty : active.chunk.recs = []
  · have start := valid.blank empty
    simp only [ledger, Ledger.start, Ledger.mk.injEq, Option.isSome_eq_false_iff,
      Option.isNone_iff_eq_none, map_eq_nil_iff] at start
    obtain ⟨rfl, rfl, blank⟩ := start
    by_cases keeps : opts.maxLogBytes = -1 ∨ 0 ≤ opts.maxLogBytes
    · obtain ⟨w', v, g, done, chunk, rep'⟩ := rep.split_empty hash blank keeps
      refine .inl ⟨some g, [], v, w', ?_, done, by rw [chunk, blank]; rfl, rep'⟩
      simp [Ledger.split, ledger, keeps, chunk, blank]
    · obtain ⟨w', why, w'', done, failed⟩ := rep.split_lost hash blank keeps long
      refine .inr ⟨?_, .inr ⟨w', why, w'', done, failed⟩⟩
      simp [Ledger.split, ledger, keeps, blank]
  · have unused : ∀ v ∈ older ++ [active], v.chunk.base ≠ active.chunk.next := by
      intro v inside
      exact Nat.ne_of_lt (valid.linked.base_lt_next empty (chunk_mem_ledger inside))
    have chunks := chunks_ledger ghost older active
    cases ghost with
    | none =>
      obtain ⟨w', done, rep'⟩ := rep.split_fresh hash unused
      refine .inl ⟨none, _, _, w', ?_, done, rfl, rep'⟩
      rw [ledger_newest rfl]
      simp [Ledger.split, ledger, empty]
    | some g =>
      rcases rep.split_phantom hash unused with
        ⟨all, w', v, done, chunk, rep'⟩ | ⟨fewer, w', failed⟩
      · refine .inl ⟨_, _, v, w', ?_, done, chunk, rep'⟩
        simp only [Ledger.split, chunks, all, retain]
        simp [ledger, empty, chunk, Ledger.next]
      · refine .inr ⟨?_, .inl ⟨_, w', failed⟩⟩
        simp only [Ledger.split, chunks, length_map, ne_eq, fewer, not_false_eq_true]
        simp [ledger, empty]

/-- One call of `Append`: it returns the next offset and the log stores one record more,
exactly when the ledger can take the record. -/
theorem append_refines {l : Ledger} {b : Bytes}
    (hash : Bytes → UInt64) (rep : Rep opts (.delete opts.maxLogBytes) l w) (long : 8 ≤ b.length) :
    (∃ l' w', l.append opts b = some l' ∧ (append hash b).run w = .ok (l.next : Int) w' ∧
      Rep opts (.delete opts.maxLogBytes) l' w') ∨
    (l.append opts b = none ∧ ∃ why w', (append hash b).run w = .error why w') := by
  obtain ⟨valid, ghost, older, active, rep, rfl⟩ := rep
  by_cases full : opts.maxSegmentBytes ≤ active.chunk.size
  · have checked := rep.checkSplit
    rw [decide_eq_true full] at checked
    have goes : (ledger ghost older active).append opts b =
        ((ledger ghost older active).split opts).bind fun l => l.push b := by
      simp only [Ledger.append, ledger, full, ↓reduceIte]
    unfold append
    rw [bind_ok checked, goes]
    simp only [↓reduceIte]
    rcases split_refines hash rep valid long with
      ⟨ghost', older', v, w₁, splitted, done, chunk, rep₁⟩ | ⟨stuck, failed⟩
    · rw [splitted, Option.bind_some, bind_ok done]
      have next : v.chunk.next = (ledger ghost older active).next := by rw [chunk]; rfl
      rcases rep₁.push_refines long with ⟨pushed, w', appended, rep'⟩ | failed
      · have whole : (ledger ghost older active).append opts b =
            some (ledger ghost' older' (v.push b)) := by
          rw [goes, splitted]
          exact pushed
        rw [next] at appended
        exact .inl ⟨_, w', pushed, appended, valid.append whole, ghost', older', v.push b, rep',
          rfl⟩
      · exact .inr failed
    · rw [stuck, Option.bind_none]
      refine .inr ⟨rfl, ?_⟩
      rcases failed with ⟨why, w', failed⟩ | ⟨w', why, w'', done, failed⟩
      · exact ⟨why, w', bind_error failed⟩
      · exact ⟨why, w'', by rw [bind_ok done, failed]⟩
  · have checked := rep.checkSplit
    rw [decide_eq_false full] at checked
    have goes : (ledger ghost older active).append opts b = (ledger ghost older active).push b := by
      simp only [Ledger.append, ledger, full, ↓reduceIte]
    unfold append
    rw [bind_ok checked, goes]
    rcases rep.push_refines long with ⟨pushed, w', appended, rep'⟩ | failed
    · exact .inl ⟨_, w', pushed, appended, valid.append (goes.trans pushed), ghost, older,
        active.push b, rep', rfl⟩
    · exact .inr failed

theorem offsets_succ (next count : Nat) :
    (List.range (count + 1)).map (fun k => ((next + k : Nat) : Int)) =
      (next : Int) :: (List.range count).map fun k => ((next + 1 + k : Nat) : Int) := by
  rw [range_succ_eq_map, map_cons, map_map]
  congr 1
  refine map_congr_left fun k _ => ?_
  simp only [Function.comp_apply]
  congr 1
  omega

theorem appendAll_refines {l : Ledger} {bs : List Bytes}
    (hash : Bytes → UInt64) (rep : Rep opts (.delete opts.maxLogBytes) l w)
    (long : ∀ b ∈ bs, 8 ≤ b.length) : (∃ l' w', l.appendAll opts bs = some l' ∧
      (appendAll hash bs).run w =
        .ok ((List.range bs.length).map fun k => ((l.next + k : Nat) : Int)) w' ∧
      Rep opts (.delete opts.maxLogBytes) l' w') ∨
    (l.appendAll opts bs = none ∧ ∃ why w', (appendAll hash bs).run w = .error why w') := by
  induction bs generalizing l w with
  | nil => exact .inl ⟨l, w, rfl, rfl, rep⟩
  | cons b bs ih =>
    rcases append_refines hash rep (long b (mem_cons_self ..)) with
      ⟨l₁, w₁, appended, returned, rep₁⟩ | ⟨stuck, why, w', failed⟩
    · have next : l₁.next = l.next + 1 := Ledger.next_append rep.1 appended
      have start : (appendAll hash (b :: bs)).run w = _ := bind_ok returned
      rw [start]
      simp only [Ledger.appendAll, appended, Option.bind_some]
      rcases ih rep₁ (fun b inside => long b (mem_cons_of_mem _ inside)) with
        ⟨l', w', all, returned', rep'⟩ | ⟨stuck, why, w', failed⟩
      · refine .inl ⟨l', w', all, ?_, rep'⟩
        rw [bind_ok returned', run_pure, length_cons, offsets_succ, next]
      · exact .inr ⟨stuck, why, w', bind_error failed⟩
    · exact .inr ⟨by simp [Ledger.appendAll, stuck], why, w', bind_error failed⟩

/-- The options that `New` works with: the policy defaults to `delete`. -/
def Options.resolved (opts : Options) : Options :=
  if opts.cleanupPolicy = "" then { opts with cleanupPolicy := deleteCleanupPolicy } else opts

@[simp] theorem Options.path_resolved (opts : Options) : opts.resolved.path = opts.path := by
  unfold Options.resolved
  split <;> rfl

@[simp] theorem Options.maxSegmentBytes_resolved (opts : Options) :
    opts.resolved.maxSegmentBytes = opts.maxSegmentBytes := by
  unfold Options.resolved
  split <;> rfl

@[simp] theorem Options.maxLogBytes_resolved (opts : Options) :
    opts.resolved.maxLogBytes = opts.maxLogBytes := by
  unfold Options.resolved
  split <;> rfl

theorem newCleaner_delete (policy : opts.cleanupPolicy = deleteCleanupPolicy) :
    newCleaner opts = .delete opts.maxLogBytes := by
  simp only [newCleaner, policy, ↓reduceIte]

/-- The process once `New` has made its log, which has no segments yet. -/
def World.unfilled (opts : Options) (w : World) : World :=
  { w with log := ⟨opts.resolved, newCleaner opts.resolved, [], 0⟩ }

section

variable (named : opts.path ≠ "") (quiet : w.disk.script = [])
include named quiet

theorem new_start :
    (new opts).run w = (do
      let segments ← openFiles opts.resolved
        (sortNames ((w.disk.listing opts.path).map fun entry => entry.1.base))
      let segments ←
        if segments = [] then do
          let segment ← alloc (← onDisk (newSegment opts.resolved.path 0
            opts.resolved.maxSegmentBytes []))
          pure [segment]
        else pure segments
      setLog ⟨opts.resolved, newCleaner opts.resolved, segments, segments.getLastD 0⟩ :
        Call World Unit).run (w.unfilled opts) := by
  have kept : (setLog (w.unfilled opts).log).run w = .ok () (w.unfilled opts) := rfl
  have made : (onDisk (wrap "mkdir failed" Disk.tick)).run (w.unfilled opts) =
      .ok () (w.unfilled opts) :=
    onDisk_ok (wrap_ok (Disk.tick_quiet quiet))
  have listed : (onDisk (wrap "read dir failed" (Disk.readDir (w.unfilled opts).log.opts.path))).run
      (w.unfilled opts) = _ :=
    onDisk_ok (wrap_ok (Disk.readDir_quiet quiet _))
  have chosen : (new opts).run w = (do
      setLog (w.unfilled opts).log
      onDisk (wrap "mkdir failed" Disk.tick)
      openLog : Call World Unit).run w := by
    simp only [new, named, ↓reduceIte]
    rfl
  rw [chosen, bind_ok kept, bind_ok made]
  unfold openLog
  rw [bind_ok (getLog_run _), bind_ok listed, ← opts.path_resolved]
  rfl

/-- `New` in a directory without files makes the first segment. -/
theorem new_run (empty : w.disk.listing opts.path = []) :
    ∃ c,
      let d := createdDisk w.disk opts.path 0
      let segs := w.segs ++ [(View.fresh w 0).segment opts.resolved c]
      (new opts).run w = .ok () ⟨d, segs,
        ⟨opts.resolved, newCleaner opts.resolved, [w.segs.length], w.segs.length⟩⟩ ∧
      Files opts.resolved [View.fresh w 0] { w with disk := d, segs } := by
  have files : Files opts.resolved [] (w.unfilled opts) :=
    ⟨quiet, by rw [Options.path_resolved]; exact empty, by simp, Pairwise.nil⟩
  obtain ⟨c, d', made, files'⟩ := files.create 0 (by simp)
  obtain ⟨c', made'⟩ := files.newSegment_run 0 (by simp)
  obtain ⟨-, rfl⟩ := Result.ok.inj (made.symm.trans made')
  rw [Options.path_resolved] at made files'
  have none : (openFiles opts.resolved (sortNames [])).run (w.unfilled opts) = .ok [] _ := rfl
  have first : (onDisk (newSegment opts.resolved.path 0 opts.resolved.maxSegmentBytes [])).run
      (w.unfilled opts) = _ :=
    onDisk_ok (by rw [Options.path_resolved]; exact made)
  refine ⟨c, ?_, files'.relog _⟩
  rw [new_start named quiet, empty, map_nil, bind_ok none]
  simp only [↓reduceIte]
  rw [bind_ok first]
  rfl

theorem new_empty (empty : w.disk.listing opts.path = []) :
    ∃ w', (new opts).run w = .ok () w' ∧
      LogRep opts.resolved (newCleaner opts.resolved) Option.none [] (View.fresh w 0) w' := by
  obtain ⟨c, made, files⟩ := new_run named quiet empty
  exact ⟨_, made, files.relog _, rfl, rfl, rfl, rfl, by simp⟩

end

/-- A run: `New`, then calls of `Append`. -/
def runAppends (hash : Bytes → UInt64) (opts : Options) (bs : List Bytes) :
    Call World (List Int) := do
  new opts
  appendAll hash bs

/-- A run with the delete policy in a directory without files does what the ledger does. -/
theorem runAppends_refines {opts : Options} {w : World} {bs : List Bytes} (hash : Bytes → UInt64)
    (named : opts.path ≠ "") (policy : opts.resolved.cleanupPolicy = deleteCleanupPolicy)
    (quiet : w.disk.script = []) (empty : w.disk.listing opts.path = [])
    (long : ∀ b ∈ bs, 8 ≤ b.length) : (∃ l w', Ledger.start.appendAll opts.resolved bs = some l ∧
      (runAppends hash opts bs).run w = .ok ((List.range bs.length).map fun k : Nat => (k : Int)) w' ∧
      Rep opts.resolved (.delete opts.maxLogBytes) l w') ∨
    (Ledger.start.appendAll opts.resolved bs = none ∧
      ∃ why w', (runAppends hash opts bs).run w = .error why w') := by
  obtain ⟨w₁, opened, rep⟩ := new_empty named quiet empty
  rw [newCleaner_delete policy] at rep
  unfold runAppends
  rw [bind_ok opened]
  have appended := appendAll_refines hash ⟨Ledger.valid_start, none, [], _, rep, rfl⟩ long
  have first : Ledger.start.next = 0 := rfl
  simp only [Options.maxLogBytes_resolved, first, Nat.zero_add] at appended
  exact appended

variable {hash : Bytes → UInt64}

/-- `Append` does not return for less than eight bytes. -/
theorem long_of_append {b : Bytes} {w' : World} {offset : Int}
    (returned : (append hash b).run w = .ok offset w') : 8 ≤ b.length := by
  have stored {w : World} (active : (appendActive b).run w = .ok offset w') : 8 ≤ b.length := by
    unfold appendActive at active
    obtain ⟨s, w₁, -, rest⟩ := bind_eq_ok active
    obtain ⟨ms, w₂, stamped, -⟩ := bind_eq_ok rest
    by_cases short : b.length < 8
    · simp [lift, MessageSet.putOffset, short] at stamped
    · omega
  unfold append at returned
  obtain ⟨full, w₁, -, rest⟩ := bind_eq_ok returned
  cases full with
  | false => exact stored rest
  | true =>
    obtain ⟨_, w₂, -, rest⟩ := bind_eq_ok rest
    exact stored rest

theorem long_of_appendAll {bs : List Bytes} {w' : World}
    {offsets : List Int} (returned : (appendAll hash bs).run w = .ok offsets w') :
    ∀ b ∈ bs, 8 ≤ b.length := by
  induction bs generalizing w offsets with
  | nil => simp
  | cons b bs ih =>
    unfold appendAll at returned
    obtain ⟨offset, w₁, first, rest⟩ := bind_eq_ok returned
    obtain ⟨others, w₂, later, final⟩ := bind_eq_ok rest
    cases final
    intro x inside
    rcases mem_cons.mp inside with rfl | behind
    · exact long_of_append first
    · exact ih later x behind

/-- What a run of a log with the delete policy that has returned leaves behind. -/
theorem runAppends_rep {opts : Options} {w w₁ : World} {bs : List Bytes} {offsets : List Int}
    (named : opts.path ≠ "") (policy : opts.resolved.cleanupPolicy = deleteCleanupPolicy)
    (quiet : w.disk.script = []) (empty : w.disk.listing opts.path = [])
    (ran : (runAppends hash opts bs).run w = .ok offsets w₁) :
    ∃ l, Ledger.start.appendAll opts.resolved bs = some l ∧
      Rep opts.resolved (.delete opts.resolved.maxLogBytes) l w₁ := by
  obtain ⟨_, w₀, opened, appended⟩ := bind_eq_ok ran
  rcases runAppends_refines hash named policy quiet empty (long_of_appendAll appended) with
    ⟨l, w', all, returned, rep⟩ | ⟨-, why, w', failed⟩
  · obtain rfl : w' = w₁ := (Result.ok.inj (returned.symm.trans ran)).2
    exact ⟨l, all, by rwa [Options.maxLogBytes_resolved]⟩
  · rw [failed] at ran
    cases ran

end Jocko.Commitlog
