import Jocko.Commitlog.AppendRefines
import Mathlib.Tactic.Choose

namespace Jocko.Commitlog

open Go World List

theorem length_flatten_ge {rs : List Bytes} (long : ∀ r ∈ rs, msgSetHeaderLen ≤ r.length) :
    msgSetHeaderLen * rs.length ≤ rs.flatten.length := by
  induction rs with
  | nil => simp
  | cons r rs ih =>
    have head := long r (mem_cons_self ..)
    have tail := ih fun r inside => long r (mem_cons_of_mem _ inside)
    rw [flatten_cons, length_append, length_cons, Nat.mul_add_one]
    omega

namespace Ledger

/-- Every record is a whole header long and starts below the segment size. -/
structure Sized (opts : Options) (l : Ledger) : Prop where
  long : ∀ c ∈ l.chunks, ∀ r ∈ c.recs, msgSetHeaderLen ≤ r.length
  starts : ∀ c ∈ l.chunks, ∀ j, j < c.recs.length → (c.start j : Int) < opts.maxSegmentBytes

variable {opts : Options} {l l' : Ledger} {b : Bytes}

theorem Sized.append (sized : l.Sized opts) (valid : l.Valid opts) (wide : msgSetHeaderLen ≤ b.length)
    (positive : 0 < opts.maxSegmentBytes) (appended : l.append opts b = some l') :
    l'.Sized opts := by
  have long {c : Chunk} (long : ∀ r ∈ c.recs, msgSetHeaderLen ≤ r.length) :
      ∀ r ∈ (c.push b).recs, msgSetHeaderLen ≤ r.length := by
    intro r inside
    rcases mem_append.mp inside with old | new
    · exact long r old
    · rw [mem_singleton.mp new, length_stamp (Nat.le_trans (by decide) wide)]
      exact wide
  rcases append_cases (fun _ => valid.blank) appended with ⟨space, rfl⟩ | ⟨none, -⟩ | ⟨-, -, -, rfl⟩
  · exact ⟨forall_push sized.long long, forall_push sized.starts (Chunk.start_push_lt b space)⟩
  · omega
  · constructor
    · exact forall_push (forall_renew sized.long (by simp) _ l.phantom) long
    · exact forall_push (forall_renew sized.starts (by simp) _ l.phantom)
        (Chunk.start_push_lt b positive)

/-- Below a segment size that an index can cover, every position fits its field. -/
theorem Sized.low (sized : l.Sized opts) (bounded : opts.maxSegmentBytes ≤ 15728640) {c : Chunk}
    (inside : c ∈ l.chunks) (j : Nat) (written : j < c.recs.length) : c.start j < 2147483648 := by
  have start := sized.starts c inside j written
  omega

theorem sized_start : start.Sized opts :=
  ⟨by simp [start, chunks], by simp [start, chunks]⟩

/-- Segments of at most 15728640 bytes never run out of index slots. -/
theorem Sized.append_isSome (sized : l.Sized opts) (valid : l.Valid opts)
    (positive : 0 < opts.maxSegmentBytes) (bounded : opts.maxSegmentBytes ≤ 15728640) :
    ∃ l', l.append opts b = some l' := by
  have solid : l.phantom = false := by
    cases haunted : l.phantom with
    | false => rfl
    | true => exact absurd (valid.phantom haunted).1 (by omega)
  unfold Ledger.append
  split
  · rename_i full
    have filled : l.active.recs ≠ [] := by
      intro empty
      simp only [Chunk.size, empty, flatten_nil, length_nil] at full
      omega
    simp [split, filled, solid, push, entryWidth, indexBytes]
  · rename_i space
    have fill := length_flatten_ge (sized.long _ (mem_chunks.mpr (.inr rfl)))
    have room : (l.active.recs.length + 1) * entryWidth ≤ indexBytes := by
      simp only [msgSetHeaderLen, Chunk.size, entryWidth, indexBytes] at *
      omega
    simp [push, room]

theorem Sized.appendAll_isSome {bs : List Bytes} (sized : l.Sized opts) (valid : l.Valid opts)
    (positive : 0 < opts.maxSegmentBytes) (bounded : opts.maxSegmentBytes ≤ 15728640)
    (wide : ∀ b ∈ bs, msgSetHeaderLen ≤ b.length) :
    ∃ l', l.appendAll opts bs = some l' ∧ l'.Sized opts := by
  induction bs generalizing l with
  | nil => exact ⟨l, rfl, sized⟩
  | cons b bs ih =>
    obtain ⟨m, appended⟩ := sized.append_isSome (b := b) valid positive bounded
    obtain ⟨l', all, sized'⟩ := ih
      (sized.append valid (wide b (mem_cons_self ..)) positive appended)
      (valid.append appended) fun b inside => wide b (mem_cons_of_mem _ inside)
    exact ⟨l', by simpa [appendAll, appended] using all, sized'⟩

end Ledger

/-- A segment holds these records from an offset on: its counters, its log file and its
index all say so. -/
structure Segment.Stores (s : Segment) (d : Disk) (base : Nat) (rs : List Bytes) : Prop where
  baseOffset : s.baseOffset = base
  nextOffset : s.nextOffset = (base + rs.length : Nat)
  file : (d.file s.log.inode).content = rs.flatten
  position : s.position = (d.file s.log.inode).size
  count : s.index.position = rs.length * entryWidth
  entry : ∀ j, j < rs.length → (s.index.readEntryAtLogOffset j).run d =
    .ok ⟨(base + j : Nat), ((rs.take j).flatten.length : Nat)⟩ d

/-- The log holds a history of records, as far as it was not deleted: the segments follow
each other without gap or overlap up to the end of the history, the last one is active,
and each stores its part. -/
structure LogInvariant (rs : List Bytes) (w : World) (segs : List Segment) : Prop where
  objects : List.Forall₂ (fun r s => w.segs[r]? = some s) w.log.segments segs
  nonempty : segs ≠ []
  active : w.log.segments.getLast? = some w.log.active
  increasing : segs.IsChain fun s s' => s.baseOffset < s'.baseOffset
  adjacent : segs.IsChain fun s s' => s.nextOffset = s'.baseOffset
  newest : ∀ s ∈ segs.getLast?, s.nextOffset = rs.length
  stores : ∀ s ∈ segs, ∃ base count,
    s.Stores w.disk base ((rs.drop base).take count) ∧ base + count ≤ rs.length

theorem Chunk.stored_entry {c : Chunk} (room : c.recs.length * entryWidth ≤ indexBytes) {j : Nat}
    (inside : j < c.recs.length) : Entry.stored ⟨(c.base + j : Nat), c.start j⟩ c.base =
      ⟨(c.base + j : Nat), int32 (c.start j)⟩ := by
  have small : int32 (((c.base + j : Nat) : Int) - c.base) = j := by
    simp only [entryWidth, indexBytes] at room
    rw [int32_of_lt] <;> omega
  simp only [Entry.stored, newRelEntry, RelEntry.fill, small]
  rw [Int.natCast_add]

/-- The entries as the index gives them back: the offsets are whole, the positions are cut to 32
bits. -/
theorem View.Open.readEntry {opts : Options} {v : View} {w : World} (opened : v.Open opts w)
    {j : Nat} (inside : j < v.chunk.recs.length) :
    ((v.segment opts 0).index.readEntryAtLogOffset j).run w.disk =
      .ok ⟨(v.chunk.base + j : Nat), int32 (v.chunk.start j)⟩ w.disk := by
  have entry := opened.index.readEntry j (by simpa using inside)
  simp only [Chunk.entries, getElem_map, getElem_range] at entry
  exact entry.trans (congrArg (fun e => Result.ok e w.disk) (Chunk.stored_entry opened.room inside))

/-- An open view stores its run, as far as the positions fit their field of the index. -/
theorem View.Open.stores {opts : Options} {v : View} {w : World} (opened : v.Open opts w) (c : Nat)
    (low : ∀ j, j < v.chunk.recs.length → v.chunk.start j < 2147483648) :
    (v.segment opts c).Stores w.disk v.chunk.base v.chunk.recs := by
  have stored : w.disk.file (v.segment opts c).log.inode = _ := opened.stored
  refine ⟨rfl, by simp [Chunk.next], by rw [stored, File.content_plain], ?_, rfl, fun j inside => ?_⟩
  · rw [stored]
    rfl
  · have entry := opened.readEntry inside
    have start := low j inside
    rw [int32_of_lt (by omega) (by omega)] at entry
    exact entry

/-- A running log without a phantom satisfies the invariant of its history. -/
theorem LogRep.invariant {opts : Options} {cleaner : Cleaner} {older : List View} {active : View}
    {w : World} {rs : List Bytes} (rep : LogRep opts cleaner none older active w)
    (linked : (ledger none older active).Linked) (records : (ledger none older active).Records rs)
    (low : ∀ c ∈ (ledger none older active).chunks, ∀ j, j < c.recs.length →
      c.start j < 2147483648) : ∃ segs, LogInvariant rs w segs := by
  choose! cursor object using fun v inside => (rep.files.opened v inside).object
  have chunks := chunks_ledger none older active
  refine ⟨(older ++ [active]).map fun v => v.segment opts (cursor v), ?_, by simp, ?_, ?_, ?_, ?_,
    ?_⟩
  · rw [rep.segments]
    exact forall₂_map_left_iff.mpr (forall₂_map_right_iff.mpr
      (forall₂_same.mpr object))
  · rw [rep.segments, rep.current]
    simp
  · have bases := linked.bases
    rw [chunks, pairwise_map] at bases
    exact (isChain_map _).mpr (List.Pairwise.isChain (bases.imp fun less => by
      simpa [View.segment, Segment.opened] using less))
  · have chained := linked.chained
    rw [chunks, isChain_map] at chained
    exact (isChain_map _).mpr (chained.imp fun u v next => by
      rw [View.nextOffset_segment, next]
      rfl)
  · have next : active.chunk.next = rs.length := records.next
    simp [next]
  · intro s present
    obtain ⟨v, here, rfl⟩ := mem_map.mp present
    have part := records.within v.chunk (chunk_mem_ledger here)
    have recs := prefix_iff_eq_take.mp part
    refine ⟨v.chunk.base, v.chunk.recs.length, ?_, ?_⟩
    · rw [← recs]
      exact (rep.files.opened v here).stores (cursor v) (low _ (chunk_mem_ledger here))
    · rw [← records.next]
      exact linked.next_le (chunk_mem_ledger here)

theorem new_invariant {opts : Options} {w : World} (named : opts.path ≠ "")
    (bounded : opts.maxSegmentBytes ≤ 15728640)
    (quiet : w.disk.script = []) (empty : w.disk.listing opts.path = []) :
    ∃ w' segs, (new opts).run w = .ok () w' ∧ LogInvariant [] w' segs := by
  have bounded' : opts.resolved.maxSegmentBytes ≤ 15728640 := by simpa using bounded
  obtain ⟨w', made, rep⟩ := new_empty named quiet empty
  obtain ⟨segs, invariant⟩ := rep.invariant (@Ledger.valid_start opts).linked Ledger.records_start
    fun _ inside => Ledger.sized_start.low bounded' inside
  exact ⟨w', segs, made, invariant⟩

/-- Whatever is appended, the log made by `New` in an empty directory counts offsets from 0
and keeps its counters, files and indexes in agreement. -/
theorem runAppends_invariant {opts : Options} {w : World} {bs : List Bytes} (hash : Bytes → UInt64)
    (named : opts.path ≠ "") (policy : opts.resolved.cleanupPolicy = deleteCleanupPolicy)
    (positive : 0 < opts.maxSegmentBytes) (bounded : opts.maxSegmentBytes ≤ 15728640)
    (quiet : w.disk.script = []) (empty : w.disk.listing opts.path = [])
    (wide : ∀ b ∈ bs, msgSetHeaderLen ≤ b.length) :
    ∃ w' segs,
      (runAppends hash opts bs).run w = .ok ((range bs.length).map fun k : Nat => (k : Int)) w' ∧
      newestOffset.run w' = .ok (bs.length : Int) w' ∧
      LogInvariant (Ledger.stampFrom 0 bs) w' segs := by
  have positive' : 0 < opts.resolved.maxSegmentBytes := by simpa using positive
  have bounded' : opts.resolved.maxSegmentBytes ≤ 15728640 := by simpa using bounded
  obtain ⟨l, all, sized⟩ := Ledger.sized_start.appendAll_isSome Ledger.valid_start positive' bounded'
    wide
  rcases runAppends_refines hash named policy quiet empty
      (fun b inside => Nat.le_trans (by decide) (wide b inside)) with
    ⟨l', w', all', returned, valid, ghost, older, active, rep, rfl⟩ | ⟨none, -⟩
  · obtain rfl : l = ledger ghost older active := Option.some.inj (all.symm.trans all')
    cases ghost with
    | none =>
      have records := (Ledger.valid_records_of_appendAll all').2
      obtain ⟨segs, invariant⟩ := rep.invariant valid.linked records
        fun _ inside => sized.low bounded' inside
      have next : active.chunk.next = bs.length :=
        records.next.trans (Ledger.length_stampFrom 0 bs)
      exact ⟨w', segs, returned, by rw [rep.newestOffset, next], invariant⟩
    | some g => exact absurd (valid.phantom rfl).1 (by omega)
  · rw [all] at none
    cases none

/-- A process before its first call of `New`, on a machine without files. -/
def World.idle : World := ⟨⟨[], [], []⟩, [], ⟨⟨"", 0, 0, ""⟩, .delete 0, [], 0⟩⟩

/-- A message set of a given payload, with the size field that belongs to it. -/
def plainSet (payload : Bytes) : Bytes := putUint 8 0 ++ putUint 4 payload.length ++ payload

theorem runAppends_invariant_retention :
    ∃ w' segs,
      (runAppends (fun _ => 0) ⟨"log", 20, 24, "delete"⟩
        [plainSet [1], plainSet [], plainSet [2, 3], plainSet [4]]).run World.idle =
          .ok [0, 1, 2, 3] w' ∧
      newestOffset.run w' = .ok 4 w' ∧
      LogInvariant (Ledger.stampFrom 0 [plainSet [1], plainSet [], plainSet [2, 3], plainSet [4]])
        w' segs :=
  runAppends_invariant (fun _ => 0) (by decide) (by decide) (by decide) (by decide) rfl rfl
    (by decide)

end Jocko.Commitlog
