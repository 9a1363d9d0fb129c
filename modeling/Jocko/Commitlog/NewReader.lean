import Jocko.Commitlog.EntrySearch
import Jocko.Commitlog.ReaderSession
import Jocko.Commitlog.RecordWalk

namespace Jocko.Commitlog

open Go World List

/-- `findSegment` where the next offsets pass the wanted one at the place `k`. -/
theorem findSegment_run {w : World} {segments : List Nat} {offset : Int} {k r : Nat}
    (turns : ∀ h, h < segments.length → ∃ r s, segments[h]? = some r ∧ w.segs[r]? = some s ∧
      (offset < s.nextOffset ↔ k ≤ h)) (here : segments[k]? = some r) :
    (findSegment segments offset).run w = .ok (some r, k) w := by
  have bound : k < segments.length := (List.getElem?_eq_some_iff.mp here).1
  have probe (h : Nat) (u : Unit) (inside : h < segments.length) :
      (probeSegment segments offset h u).run w = .ok (decide (k ≤ h), ()) w := by
    obtain ⟨r, s, listed, object, next⟩ := turns h inside
    have reached : (segmentAt segments h).run w = .ok r w := by
      simp only [segmentAt, listed]
    unfold probeSegment
    rw [bind_ok reached, bind_ok (seg_ok object), run_pure, decide_eq_decide.mpr next]
  have searched : (search segments.length (probeSegment segments offset) ()).run w =
      .ok (search (m := Id) segments.length (fun h _ => (decide (k ≤ h), ())) ()) w :=
    searchFrom_reader probe segments.length 0 segments.length () (Nat.le_refl _)
  have place : (search (m := Id) segments.length (fun h _ => (decide (k ≤ h), ())) ()).1 = k := by
    apply searchFrom_threshold segments.length 0 segments.length ()
    · intro h e _ _ _
      rfl
    · omega
    · exact Nat.zero_le k
    · exact Nat.le_of_lt bound
  have reached : (segmentAt segments k).run w = .ok r w := by
    simp only [segmentAt, here]
  unfold findSegment
  rw [bind_ok searched]
  generalize search (m := Id) segments.length (fun h _ => (decide (k ≤ h), ())) () = found at place
  obtain ⟨idx, u⟩ := found
  obtain rfl : idx = k := place
  simp only [Nat.ne_of_lt bound, ↓reduceIte]
  rw [bind_ok reached]
  rfl

variable {c : Chunk}

theorem Chunk.getElem?_stored (room : c.recs.length * entryWidth ≤ indexBytes) (h : Nat) :
    (c.entries.map fun e => e.stored c.base)[h]? =
      if h < c.recs.length then some ⟨((c.base + h : Nat) : Int), int32 (c.start h)⟩ else none := by
  by_cases inside : h < c.recs.length
  · rw [if_pos inside]
    simp only [Chunk.entries, map_map, getElem?_map, getElem?_range inside, Option.map_some,
      Function.comp_apply, Chunk.stored_entry room inside]
  · rw [if_neg inside]
    simpa using inside

theorem Chunk.consecutive_stored (room : c.recs.length * entryWidth ≤ indexBytes) :
    Consecutive c.base (c.entries.map fun e => e.stored c.base) := by
  intro h e here
  rw [Chunk.getElem?_stored room] at here
  split at here
  · cases here
    rfl
  · cases here

/-- The record at an offset of a run can be found, and its position fits an index entry. -/
def Chunk.Finds (c : Chunk) (o : Nat) : Prop :=
  Findable c.base c.recs.length (o - c.base) ∧ c.start (o - c.base) < 2147483648

instance (c : Chunk) (o : Nat) : Decidable (c.Finds o) := inferInstanceAs (Decidable (_ ∧ _))

variable {v : View} {o : Nat}

/-- `findEntry` gives the entry that `Append` wrote exactly for the records that can be
found. -/
theorem View.Open.findEntry_iff {opts : Options} {w : World} (opened : v.Open opts w)
    (c : Nat) (low : v.chunk.base ≤ o) (high : o < v.chunk.next) :
    ((v.segment opts c).findEntry o).run w.disk =
        .ok ⟨o, v.chunk.start (o - v.chunk.base)⟩ w.disk ↔ v.chunk.Finds o := by
  have room := opened.room
  have count : (v.chunk.entries.map fun e => e.stored v.chunk.base).length =
      v.chunk.recs.length := by
    rw [length_map, Chunk.length_entries]
  have full : (v.chunk.entries.map fun e => e.stored v.chunk.base).length ≤ slots := by
    rw [count]
    simp only [slots, entryWidth, indexBytes] at room ⊢
    omega
  have offset : v.chunk.base + (o - v.chunk.base) = o := by omega
  have inside : o - v.chunk.base < v.chunk.recs.length := by
    simp only [Chunk.next] at high
    omega
  have here := Chunk.getElem?_stored room (o - v.chunk.base)
  rw [if_pos inside] at here
  have consecutive := Chunk.consecutive_stored room
  constructor
  · intro returned
    cases looked : lookupEntry (v.chunk.entries.map fun e => e.stored v.chunk.base) o with
    | error cause =>
      have failed := Segment.findEntry_error (s := v.segment opts c) opened.index rfl looked
      rw [failed] at returned
      cases returned
    | ok e =>
      have found := Segment.findEntry_ok (s := v.segment opts c) opened.index rfl looked
      obtain rfl := (Result.ok.inj (found.symm.trans returned)).1
      have findable := findable_of_lookupEntry consecutive (by rw [count]; exact inside) full
        (by rw [offset]; exact looked) (by rw [offset])
      have again := lookupEntry_findable consecutive here full findable
      rw [count] at findable
      refine ⟨findable, ?_⟩
      have cut : int32 (v.chunk.start (o - v.chunk.base)) = v.chunk.start (o - v.chunk.base) := by
        rw [offset, looked] at again
        simp only [Except.ok.injEq, Entry.mk.injEq] at again
        exact again.2.symm
      have upper := int32_upper (v.chunk.start (o - v.chunk.base))
      omega
  · rintro ⟨findable, small⟩
    rw [← count] at findable
    have looked := lookupEntry_findable consecutive here full findable
    rw [offset, int32_of_lt (by omega) (by omega)] at looked
    exact Segment.findEntry_ok (s := v.segment opts c) opened.index rfl looked

/-- Where the record of an offset starts in a file that begins with the record of `base`. -/
def recordStart (rs : List Bytes) (base o : Nat) : Nat := ((rs.drop base).take (o - base)).flatten.length

/-- The log can be read from an offset on: `findEntry` of the segment that has the offset
returns the entry with the record's place, and a new reader's first `Read`, whatever the
length of its buffer, returns the record as far as the buffer goes. -/
structure ReadsFrom (w : World) (rs : List Bytes) (o : Nat) : Prop where
  entry : ∀ r ∈ w.log.segments, ∀ s, w.segs[r]? = some s → ∀ base : Nat, s.baseOffset = base →
    base ≤ o → (o : Int) < s.nextOffset →
      (s.findEntry o).run w.disk = .ok ⟨o, recordStart rs base o⟩ w.disk
  record : ∀ r, rs[o]? = some r → ∃ reader, (newReader o).run w = .ok reader w ∧
    ∀ length, ∃ reader' p err, (reader.read length).run w = .ok (reader', p, err) w ∧
      p.take r.length = r.take length

theorem Ledger.Records.start {l : Ledger} {rs : List Bytes} (records : l.Records rs)
    (inside : c ∈ l.chunks) (low : c.base ≤ o) (high : o < c.next) :
    recordStart rs c.base o = c.start (o - c.base) ∧ c.recs[o - c.base]? = rs[o]? := by
  obtain ⟨more, whole⟩ := records.within c inside
  have count : o - c.base < c.recs.length := by
    simp only [Chunk.next] at high
    omega
  constructor
  · rw [recordStart, ← whole, take_append_of_le_length (Nat.le_of_lt count)]
    rfl
  · have place : (rs.drop c.base)[o - c.base]? = rs[o]? := by
      rw [getElem?_drop]
      congr 1
      omega
    rw [← place, ← whole, getElem?_append_left count]

section

variable {w : World} {offset : Int} {r k : Nat} {s : Segment} {e : Entry}
  (object : w.segs[r]? = some s)

include object

theorem newReader_zero (first : w.log.segments[0]? = some r)
    (found : (s.findEntry 0).run w.disk = .ok e w.disk) :
    (newReader 0).run w = .ok ⟨0, e.position⟩ w := by
  have reached : (segmentAt w.log.segments 0).run w = .ok r w := by
    simp only [segmentAt, first]
  unfold newReader
  rw [bind_ok (getLog_run w)]
  simp only [↓reduceIte]
  rw [bind_ok reached, bind_ok (run_pure _ w)]
  simp only
  rw [bind_ok (seg_ok object), bind_ok (onDisk_ok found)]
  rfl

theorem newReader_found (nonzero : offset ≠ 0)
    (selected : (findSegment w.log.segments offset).run w = .ok (some r, k) w)
    (found : (s.findEntry offset).run w.disk = .ok e w.disk) :
    (newReader offset).run w = .ok ⟨k, e.position⟩ w := by
  unfold newReader
  rw [bind_ok (getLog_run w)]
  simp only [nonzero, ↓reduceIte]
  rw [bind_ok selected]
  simp only
  rw [bind_ok (seg_ok object), bind_ok (onDisk_ok found)]
  rfl

end

namespace LogRep

variable {opts : Options} {cleaner : Cleaner} {ghost : Option Nat} {older : List View}
  {active : View} {w : World}

variable {i : Nat}

theorem segments_view (rep : LogRep opts cleaner ghost older active w)
    (here : (older ++ [active])[i]? = some v) :
    w.log.segments[ghost.toList.length + i]? = some v.ref := by
  rw [rep.segments, getElem?_append_right (Nat.le_add_right _ _), Nat.add_sub_cancel_left,
    getElem?_map, here]
  rfl

theorem findSegment (rep : LogRep opts cleaner ghost older active w)
    (valid : (ledger ghost older active).Valid opts)
    (here : (older ++ [active])[i]? = some v) (low : v.chunk.base ≤ o) (high : o < v.chunk.next) :
    (findSegment w.log.segments o).run w = .ok (some v.ref, ghost.toList.length + i) w := by
  have chunks := chunks_ledger ghost older active
  have ordered := valid.linked.ordered
  rw [chunks, List.pairwise_map, List.pairwise_iff_getElem] at ordered
  obtain ⟨bound, rfl⟩ := List.getElem?_eq_some_iff.mp here
  have count : w.log.segments.length = ghost.toList.length + (older ++ [active]).length := by
    rw [rep.segments, List.length_append, List.length_map]
  -- The next offsets in the order of the list; a phantom has stored nothing.
  have turns : ∀ h, h < w.log.segments.length → ∃ r s, w.log.segments[h]? = some r ∧
      w.segs[r]? = some s ∧ ((o : Int) < s.nextOffset ↔ ghost.toList.length + i ≤ h) := by
    intro h inside
    by_cases real : ghost.toList.length ≤ h
    · obtain ⟨q, rfl⟩ := Nat.exists_eq_add_of_le real
      have within : q < (older ++ [active]).length := by omega
      have listed := rep.segments_view (getElem?_eq_getElem within)
      obtain ⟨c, object⟩ := (rep.files.opened _ (getElem_mem within)).object
      refine ⟨_, _, listed, object, ?_⟩
      rw [View.nextOffset_segment]
      rcases Nat.lt_trichotomy q i with before | rfl | behind
      · have earlier := ordered q i within bound before
        omega
      · omega
      · have later := ordered i q bound within behind
        have grows : ((older ++ [active])[q]).chunk.base ≤ ((older ++ [active])[q]).chunk.next :=
          Nat.le_add_right _ _
        omega
    · cases ghost with
      | none => exact absurd (Nat.zero_le h) real
      | some g =>
        obtain rfl : h = 0 := by simpa using real
        obtain ⟨u, vs, -, ⟨-, c, object⟩, -⟩ := rep.first_phantom
        refine ⟨g, _, by rw [rep.segments]; rfl, object, ?_⟩
        simp [Segment.opened]
  exact findSegment_run turns (rep.segments_view here)

theorem first_of_zero (valid : (ledger ghost older active).Valid opts)
    (here : (older ++ [active])[i]? = some v) (zero : v.chunk.base = 0) : i = 0 := by
  have chunks := chunks_ledger ghost older active
  have bases := valid.linked.bases
  rw [chunks, List.pairwise_map, List.pairwise_iff_getElem] at bases
  obtain ⟨bound, rfl⟩ := List.getElem?_eq_some_iff.mp here
  by_cases first : i = 0
  · exact first
  · have less := bases 0 i (by omega) bound (by omega)
    omega

/-- A new reader at an offset that can be found stands at the start of its record. -/
theorem newReader (rep : LogRep opts cleaner ghost older active w)
    (valid : (ledger ghost older active).Valid opts)
    (here : (older ++ [active])[i]? = some v) (low : v.chunk.base ≤ o) (high : o < v.chunk.next)
    (finds : v.chunk.Finds o) :
    ∃ k r : Nat, (newReader o).run w = .ok ⟨k, v.chunk.start (o - v.chunk.base)⟩ w ∧
      w.log.segments[k]? = some r ∧ w.content r = v.chunk.recs.flatten := by
  have opened := rep.files.opened v (mem_of_getElem? here)
  obtain ⟨c, object⟩ := opened.object
  have found := (opened.findEntry_iff c low high).mpr finds
  have listed := rep.segments_view here
  by_cases zero : o = 0
  · subst zero
    have base : v.chunk.base = 0 := by omega
    obtain rfl := first_of_zero valid here base
    rw [Int.natCast_zero] at found ⊢
    cases ghost with
    | none => exact ⟨0, v.ref, newReader_zero object listed found, listed, opened.content⟩
    | some g =>
      obtain ⟨u, vs, shape, ⟨-, c', object'⟩, -⟩ := rep.first_phantom
      obtain rfl : u = v := by
        rw [shape] at here
        exact Option.some.inj here
      have first : w.log.segments[0]? = some g := by
        rw [rep.segments]
        rfl
      -- The phantom's index is empty, and an empty index gives the entry of offset 0.
      have holds : (Segment.opened opts.path 0 opts.maxSegmentBytes [] u.logInode u.indexInode c' 0
          0).index.Holds w.disk [] :=
        ⟨opened.indexInside, rfl, opened.index.size, Nat.zero_le _, by simp [encodeEntries]⟩
      have looked := Segment.findEntry_ok holds rfl lookupEntry_nil
      have content : w.content g = u.chunk.recs.flatten := by
        simp only [World.content, object', Segment.opened, opened.stored, File.content_plain]
      have start : u.chunk.start (0 - u.chunk.base) = 0 := by
        rw [Nat.zero_sub]
        rfl
      rw [start]
      exact ⟨0, g, newReader_zero object' first looked, first, content⟩
  · exact ⟨_, v.ref, newReader_found object (by omega) (rep.findSegment valid here low high) found,
      listed, opened.content⟩

end LogRep

theorem remaining_record {contents recs : List Bytes} {k t : Nat} {r : Bytes}
    (here : contents[k]? = some recs.flatten) (record : recs[t]? = some r) :
    ∃ more, remaining contents k (recs.take t).flatten.length = r ++ more := by
  obtain ⟨more, rest⟩ := Chunk.record_at (c := ⟨0, recs⟩) record
  refine ⟨more ++ remaining contents (k + 1) 0, ?_⟩
  rw [remaining_file here, ← append_assoc, ← rest]
  rfl

namespace LogRep

variable {opts : Options} {cleaner : Cleaner} {ghost : Option Nat} {older : List View}
  {active : View} {w : World}

theorem oldestOffset (rep : LogRep opts cleaner ghost older active w) {u : View} {vs : List View}
    (shape : older ++ [active] = u :: vs) : oldestOffset.run w = .ok (u.chunk.base : Int) w := by
  unfold Commitlog.oldestOffset
  rw [bind_ok (getLog_run w), rep.segments, shape]
  cases ghost with
  | none =>
    obtain ⟨c, object⟩ := (rep.files.opened u (by rw [shape]; exact mem_cons_self ..)).object
    simp only [Option.toList_none, nil_append, map_cons]
    rw [bind_ok (seg_ok object)]
    rfl
  | some g =>
    obtain ⟨base, c, object⟩ := (rep.phantom g rfl).1 u (by rw [shape]; rfl)
    simp only [Option.toList_some, singleton_append]
    rw [bind_ok (seg_ok object), base]
    rfl

/-- A log can be read from an offset on exactly if the entry of its record can be found. -/
theorem readsFrom_iff {rs : List Bytes} {u : View} {vs : List View}
    (rep : LogRep opts cleaner ghost older active w)
    (valid : (ledger ghost older active).Valid opts)
    (records : (ledger ghost older active).Records rs) (shape : older ++ [active] = u :: vs)
    (low : u.chunk.base ≤ o) (high : o < active.chunk.next) :
    ReadsFrom w rs o ↔ ∀ c ∈ (ledger ghost older active).chunks, c.base ≤ o → o < c.next →
      c.Finds o := by
  have chunks := chunks_ledger ghost older active
  constructor
  · intro reads c inside lower upper
    rw [chunks] at inside
    obtain ⟨v, here, rfl⟩ := mem_map.mp inside
    have opened := rep.files.opened v here
    obtain ⟨cursor, object⟩ := opened.object
    have listed : v.ref ∈ w.log.segments := by
      rw [rep.segments]
      exact mem_append_right _ (mem_map_of_mem here)
    have entry := reads.entry v.ref listed _ object v.chunk.base rfl lower
      (by rw [View.nextOffset_segment]; omega)
    rw [(records.start (chunk_mem_ledger here) lower upper).1] at entry
    exact (opened.findEntry_iff cursor lower upper).mp entry
  · intro finds
    constructor
    · intro r listed s object base offset lower upper
      rw [rep.segments] at listed
      rcases mem_append.mp listed with phantom | real
      · obtain ⟨g, rfl⟩ : ∃ g, ghost = some g := by
          cases ghost with
          | none => cases phantom
          | some g => exact ⟨g, rfl⟩
        obtain rfl : r = g := by simpa using phantom
        obtain ⟨u, vs, -, ⟨-, c, object'⟩, -⟩ := rep.first_phantom
        obtain rfl := Option.some.inj (object'.symm.trans object)
        simp only [Segment.opened] at upper
        omega
      · obtain ⟨v, here, rfl⟩ := mem_map.mp real
        have opened := rep.files.opened v here
        obtain ⟨cursor, object'⟩ := opened.object
        obtain rfl := Option.some.inj (object'.symm.trans object)
        obtain rfl : v.chunk.base = base := Int.ofNat.inj offset
        rw [View.nextOffset_segment] at upper
        have bound : o < v.chunk.next := by omega
        rw [(records.start (chunk_mem_ledger here) lower bound).1]
        exact (opened.findEntry_iff cursor lower bound).mpr (finds _ (chunk_mem_ledger here) lower bound)
    · intro r record
      obtain ⟨i, c, here, lower, upper⟩ := @exists_chunk _ u.chunk active.chunk o valid.chained
        (by rw [chunks, shape]; rfl) (by rw [chunks]; simp) low high
      rw [chunks, getElem?_map] at here
      obtain ⟨v, place, rfl⟩ := Option.map_eq_some_iff.mp here
      have inside : v.chunk ∈ (ledger ghost older active).chunks :=
        chunk_mem_ledger (mem_of_getElem? place)
      have stored := (records.start inside lower upper).2.trans record
      obtain ⟨k, ref, made, listed, content⟩ := rep.newReader valid place lower upper
        (finds _ inside lower upper)
      have file : w.contents[k]? = some v.chunk.recs.flatten := by
        rw [World.contents, getElem?_map, listed, ← content]
        rfl
      obtain ⟨more, stream⟩ := remaining_record file stored
      have within : v.chunk.start (o - v.chunk.base) ≤ (w.content ref).length := by
        have parts := congrArg (fun rs => rs.flatten.length)
          (take_append_drop (o - v.chunk.base) v.chunk.recs)
        simp only [flatten_append, length_append] at parts
        rw [content, Chunk.start]
        omega
      refine ⟨_, made, ?_⟩
      intro length
      obtain ⟨idx', pos', segment', ran, -⟩ :=
        Reader.read_run rep.files.quiet rep.live listed within length
      refine ⟨_, _, _, ran, ?_⟩
      rw [show remaining w.contents k (v.chunk.start (o - v.chunk.base)) = r ++ more from stream,
        take_take, take_append_of_le_length (Nat.min_le_left _ _), Nat.min_comm,
        ← take_take, take_length]

end LogRep

/-- Which offsets of a log can be read: those whose index entry is within the reach of the
search, but not offset 1 in a segment that starts at 0, and only while the record starts
below the range of a 32-bit position. -/
theorem runAppends_reads_iff {opts : Options} {w w₁ : World} {bs : List Bytes} {offsets : List Int}
    {o : Nat} {oldest newest : Int} (hash : Bytes → UInt64) (named : opts.path ≠ "")
    (policy : opts.resolved.cleanupPolicy = deleteCleanupPolicy) (quiet : w.disk.script = [])
    (empty : w.disk.listing opts.path = [])
    (ran : (runAppends hash opts bs).run w = .ok offsets w₁)
    (first : oldestOffset.run w₁ = .ok oldest w₁) (low : oldest ≤ o)
    (last : newestOffset.run w₁ = .ok newest w₁) (high : o < newest) :
    ReadsFrom w₁ (Ledger.stampFrom 0 bs) o ↔
      ∀ l ∈ Ledger.start.appendAll opts.resolved bs, ∀ c ∈ l.chunks, c.base ≤ o → o < c.next →
        c.Finds o := by
  obtain ⟨l, all, valid, ghost, older, active, rep, rfl⟩ :=
    runAppends_rep named policy quiet empty ran
  have records := (Ledger.valid_records_of_appendAll all).2
  obtain ⟨u, vs, shape⟩ := exists_cons_of_ne_nil (l := older ++ [active]) (by simp)
  have lower : u.chunk.base ≤ o := by
    have base := (Result.ok.inj ((rep.oldestOffset shape).symm.trans first)).1
    omega
  have upper : o < active.chunk.next := by
    have next := (Result.ok.inj (rep.newestOffset.symm.trans last)).1
    omega
  rw [rep.readsFrom_iff valid records shape lower upper, all]
  simp only [Option.mem_def, Option.some.injEq, forall_eq']

theorem runAppends_reads_third :
    ∃ w₁, (runAppends (fun _ => 0) ⟨"log", 20, -1, "delete"⟩
        [plainSet [1], plainSet [2, 3], plainSet [4]]).run World.idle = .ok [0, 1, 2] w₁ ∧
      ReadsFrom w₁ (Ledger.stampFrom 0 [plainSet [1], plainSet [2, 3], plainSet [4]]) 2 := by
  obtain ⟨w₁, ran, first, last⟩ : ∃ w₁, (runAppends (fun _ => 0) ⟨"log", 20, -1, "delete"⟩
      [plainSet [1], plainSet [2, 3], plainSet [4]]).run World.idle = .ok [0, 1, 2] w₁ ∧
      oldestOffset.run w₁ = .ok 0 w₁ ∧ newestOffset.run w₁ = .ok 3 w₁ :=
    ⟨_, Result.eq_ok_of_returned (by decide +kernel), by decide +kernel, by decide +kernel⟩
  exact ⟨w₁, ran, (runAppends_reads_iff (fun _ => 0) (by decide) rfl rfl rfl ran first (by decide)
    last (by decide)).mpr (by decide +kernel)⟩

/-- A reader at offset 7 of eight records in one segment begins with record 5. -/
theorem newReader_too_early :
    ((do
      let _ ← runAppends (fun _ => 0) ⟨"log", 1000, -1, "delete"⟩ [plainSet [10], plainSet [11],
        plainSet [12], plainSet [13], plainSet [14], plainSet [15], plainSet [16], plainSet [17]]
      let reader ← newReader 7
      let (_, p, _) ← reader.read 13
      return p : Call World Bytes).run World.idle).returned =
        some (MessageSet.stamp 5 (plainSet [15])) := by
  decide +kernel

end Jocko.Commitlog
