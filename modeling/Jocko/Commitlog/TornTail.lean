import Jocko.Commitlog.LinkedRefines
import Jocko.Commitlog.NewReader
import Jocko.Commitlog.Recovery

namespace Jocko.Commitlog

open Go World List

/-- The record of an offset is found by its entry in the index of the segment that begins at
`base`: at `position` the segment's file goes on with the record. -/
def Located (w : World) (base offset position : Nat) (r : Bytes) : Prop :=
  ∃ ref ∈ w.log.segments, ∃ s, w.segs[ref]? = some s ∧ s.baseOffset = base ∧
    (s.index.readEntryAtLogOffset (offset - base)).run w.disk = .ok ⟨offset, position⟩ w.disk ∧
    r <+: (w.disk.file s.log.inode).content.drop position

/-- The log has the records `rs` of a reopened segment and the sets `bs` that were appended
since, and no others. What was not deleted is found: the old records where they start in the
segment, the new ones behind all that was there, the `torn` bytes included. -/
structure Regained (base : Nat) (rs : List Bytes) (torn : Bytes) (bs : List Bytes) (oldest : Int)
    (w : World) : Prop where
  newest : newestOffset.run w = .ok ((base + rs.length + bs.length : Nat) : Int) w
  first : oldestOffset.run w = .ok oldest w
  old : ∀ j r, rs[j]? = some r → oldest ≤ (base + j : Nat) →
    Located w base (base + j) (rs.take j).flatten.length r
  new : ∀ k b, bs[k]? = some b → oldest ≤ (base + rs.length + k : Nat) → ∃ start position,
    Located w start (base + rs.length + k) position
      (MessageSet.stamp (base + rs.length + k : Nat) b) ∧
    (start = base → (rs.flatten ++ torn).length ≤ position)

/-- `New` opens the directory, and whatever is appended then, the log has what it should. -/
def Recovers (path : String) (base : Nat) (rs : List Bytes) (torn : Bytes) (w : World) : Prop :=
  ∀ (hash : Bytes → UInt64) (opts : Options), opts.path = path →
    opts.resolved.cleanupPolicy = deleteCleanupPolicy → 0 < opts.maxSegmentBytes →
    opts.maxSegmentBytes ≤ 2147483648 →
    ∃ w₁, (new opts).run w = .ok () w₁ ∧ ∀ bs offsets w₂, (∀ b ∈ bs, WellFormed b) →
      (appendAll hash bs).run w₁ = .ok offsets w₂ → ∃ oldest, Regained base rs torn bs oldest w₂

/-- The directory of a log whose process died in `Append`: whole records and a first part of
one more, within the reach of an index. -/
structure TornSegment (path : String) (base : Nat) (rs : List Bytes) (torn : Bytes)
    (logInode indexInode : Nat) (d : Disk) : Prop where
  quiet : d.script = []
  listing : d.listing path =
    [(logPath path base [], logInode), (indexPath path base [], indexInode)]
  stored : d.file logInode = ⟨rs.flatten ++ torn, 0⟩
  inside : logInode < d.inodes.length
  indexInside : indexInode < d.inodes.length
  apart : indexInode ≠ logInode
  sane : SaneIndex (d.file indexInode)
  blank : rs = [] → (d.file indexInode).bytes = []
  formed : ∀ r ∈ rs, WellFormed r
  cut : ∃ rest, rest ≠ [] ∧ WellFormed (torn ++ rest)
  fits : base < 2 ^ 63
  length : (rs.flatten ++ torn).length < 2147483648
  count : (rs.length + 1) * entryWidth ≤ indexBytes

/-- The records of a reopened segment are at its front; the other runs begin behind them. -/
def Ledger.Since (base : Nat) (rs : List Bytes) (l : Ledger) : Prop :=
  ∀ c ∈ l.chunks, (c.base = base ∧ rs <+: c.recs) ∨ base + rs.length ≤ c.base

variable {opts : Options} {b : Bytes} {base : Nat} {rs : List Bytes}

theorem Ledger.Since.append {l l' : Ledger}
    (since : l.Since base rs) (positive : 0 < opts.maxSegmentBytes)
    (solid : l.phantom = false) (reached : base + rs.length ≤ l.next)
    (appended : l.append opts b = some l') : l'.Since base rs := by
  rcases append_positive positive solid appended with ⟨-, rfl⟩ | ⟨-, -, rfl⟩
  · refine forall_push since fun last => ?_
    rcases last with ⟨here, front⟩ | behind
    · exact .inl ⟨here, front.trans (prefix_append _ _)⟩
    · exact .inr behind
  · exact forall_push (forall_renew since (.inr reached) _ false) fun _ => .inr reached

/-- What appends to a reopened log keep. -/
structure Ledger.Grown (base : Nat) (rs : List Bytes) (l : Ledger) (history : List Bytes) :
    Prop where
  solid : l.phantom = false
  linked : l.Linked
  records : l.Records history
  low : l.Low
  since : l.Since base rs
  reached : base + rs.length ≤ history.length

theorem Ledger.Grown.append {l l' : Ledger} {history : List Bytes} (grown : l.Grown base rs history)
    (positive : 0 < opts.maxSegmentBytes) (bounded : opts.maxSegmentBytes ≤ 2147483648)
    (appended : l.append opts b = some l') :
    l'.Grown base rs (history ++ [MessageSet.stamp history.length b]) where
  solid := by
    rcases append_positive positive grown.solid appended with ⟨-, rfl⟩ | ⟨-, -, rfl⟩
    · exact grown.solid
    · rfl
  linked := grown.linked.append positive grown.solid appended
  records := grown.records.append_linked positive grown.solid appended
  low := grown.low.append positive bounded grown.solid appended
  since := grown.since.append positive grown.solid (by rw [grown.records.next]; exact grown.reached)
    appended
  reached := by
    rw [length_append]
    exact Nat.le_trans grown.reached (Nat.le_add_right _ _)

section

variable {opts : Options} {cleaner : Cleaner} {older : List View} {active : View} {w : World}

theorem LogRep.located {history : List Bytes} {u : View} {vs : List View} {o : Nat} {r : Bytes}
    (rep : LogRep opts cleaner none older active w) (linked : (ledger none older active).Linked)
    (records : (ledger none older active).Records history) (low : (ledger none older active).Low)
    (shape : older ++ [active] = u :: vs) (reached : u.chunk.base ≤ o)
    (record : history[o]? = some r) : ∃ v ∈ older ++ [active], v.chunk.base ≤ o ∧ o < v.chunk.next ∧
      Located w v.chunk.base o (v.chunk.start (o - v.chunk.base)) r := by
  have chunks := chunks_ledger none older active
  have high : o < active.chunk.next := by
    have inside := (List.getElem?_eq_some_iff.mp record).1
    rw [← records.next] at inside
    exact inside
  obtain ⟨k, c, here, base, next⟩ := exists_chunk linked.chained
    (by rw [chunks, shape]; rfl) (by rw [chunks]; simp) reached high
  rw [chunks, getElem?_map] at here
  obtain ⟨v, place, rfl⟩ := Option.map_eq_some_iff.mp here
  have inside := mem_of_getElem? place
  have opened := rep.files.opened v inside
  obtain ⟨cursor, object⟩ := opened.object
  have stores := opened.stores cursor (low _ (chunk_mem_ledger inside))
  have within : o - v.chunk.base < v.chunk.recs.length := by
    simp only [Chunk.next] at next
    omega
  have stored := (records.start (chunk_mem_ledger inside) base next).2.trans record
  obtain ⟨more, rest⟩ := Chunk.record_at stored
  refine ⟨v, inside, base, next, v.ref, ?_, _, object, rfl, ?_, more, ?_⟩
  · rw [rep.segments]
    exact mem_map_of_mem inside
  · have entry := stores.entry _ within
    have offset : v.chunk.base + (o - v.chunk.base) = o := by omega
    rw [offset] at entry
    exact entry
  · rw [stores.file, rest]

/-- A log that has grown from a reopened segment has all it should. -/
theorem LogRep.regained {bs : List Bytes} (rep : LogRep opts cleaner none older active w)
    (grown : (ledger none older active).Grown base rs
      (List.replicate base [] ++ rs ++ Ledger.stampFrom (base + rs.length) bs)) :
    ∃ oldest, Regained base rs [] bs oldest w := by
  obtain ⟨u, vs, shape⟩ := exists_cons_of_ne_nil (l := older ++ [active]) (by simp)
  have count : (replicate base [] ++ rs).length = base + rs.length := by simp
  have locate {o : Nat} {r : Bytes} (reached : (u.chunk.base : Int) ≤ (o : Nat)) :=
    rep.located (r := r) grown.linked grown.records grown.low shape (Int.ofNat_le.mp reached)
  refine ⟨u.chunk.base, ?_, rep.oldestOffset shape, fun j r record reached => ?_,
    fun k b appended reached => ?_⟩
  · have next : active.chunk.next = _ := grown.records.next
    rw [rep.newestOffset, next, List.length_append, count, Ledger.length_stampFrom]
  · have inside := (List.getElem?_eq_some_iff.mp record).1
    obtain ⟨v, present, low, high, located⟩ := locate (r := r) reached (by
      rw [List.append_assoc, List.getElem?_append_right (by simp)]
      simp [getElem?_append_left inside, record])
    rcases grown.since _ (chunk_mem_ledger present) with ⟨here, front⟩ | behind
    · have start : v.chunk.start (base + j - v.chunk.base) = (rs.take j).flatten.length := by
        obtain ⟨more, whole⟩ := front
        rw [here, Nat.add_sub_cancel_left, Chunk.start, ← whole,
          take_append_of_le_length (Nat.le_of_lt inside)]
      rw [start, here] at located
      exact located
    · omega
  · obtain ⟨v, present, low, high, located⟩ := locate
      (r := MessageSet.stamp (base + rs.length + k : Nat) b) reached (by
        rw [getElem?_append_right (by simp), count, Nat.add_sub_cancel_left]
        exact Ledger.getElem?_stampFrom appended)
    refine ⟨v.chunk.base, _, located, fun here => ?_⟩
    rcases grown.since _ (chunk_mem_ledger present) with ⟨-, front⟩ | behind
    · obtain ⟨more, whole⟩ := front
      have reach : rs.length ≤ base + rs.length + k - v.chunk.base := by omega
      rw [append_nil, Chunk.start, ← whole, take_append, take_of_length_le reach,
        flatten_append, length_append]
      exact Nat.le_add_right _ _
    · obtain rfl : rs = [] := length_eq_zero_iff.mp (by omega)
      exact Nat.zero_le _

end

variable {w : World}

namespace TornSegment

variable {path : String} {base : Nat} {rs : List Bytes} {torn : Bytes} {logInode indexInode : Nat}

theorem left {d : Disk} {recs : List Bytes} (ref : Nat)
    (segment : TornSegment path base rs torn logInode indexInode d) (here : opts.path = path)
    (bytes : recs.flatten = rs.flatten ++ torn) (blank : recs = [] → rs = []) :
    View.Left opts ⟨⟨base, recs⟩, ref, logInode, indexInode⟩ d where
  log := by
    subst here
    rw [Disk.lookup_listing]
    change (d.listing opts.path).lookup (logPath opts.path base []) = some logInode
    rw [segment.listing, lookup_cons_self]
  index := by
    subst here
    have other := (logPath_ne_indexPath opts.path base base).symm
    rw [Disk.lookup_listing]
    change (d.listing opts.path).lookup (indexPath opts.path base []) = some indexInode
    rw [segment.listing, lookup_cons, beq_false_of_ne other]
    exact lookup_cons_self
  stored := by rw [segment.stored, bytes]
  inside := segment.inside
  indexInside := segment.indexInside
  sane := segment.sane
  blank := fun empty => segment.blank (blank empty)
  apart := segment.apart
  fits := segment.fits

theorem new_run {recs : List Bytes}
    (segment : TornSegment path base rs torn logInode indexInode w.disk) (here : opts.path = path)
    (named : path ≠ "") (bytes : recs.flatten = rs.flatten ++ torn) (blank : recs = [] → rs = []) :
    (∃ w', (new opts).run w = .ok () w' ∧
      Restarted opts.resolved [⟨⟨base, recs⟩, w.segs.length, logInode, indexInode⟩] w') ∨
    (indexBytes < (Chunk.found ⟨base, recs⟩).1.length * entryWidth ∧
      ∃ why w', (new opts).run w = .error why w') := by
  have resolved : opts.resolved.path = path := by rw [Options.path_resolved, here]
  rcases @new_views opts [⟨⟨base, recs⟩, 0, logInode, indexInode⟩] w
      (by rw [here]; exact named) segment.quiet (by simp)
      (by simp [View.names, here, segment.listing])
      (fun v inside => by
        obtain rfl := mem_singleton.mp inside
        exact segment.left 0 resolved bytes blank)
      (pairwise_singleton _ _) (pairwise_singleton _ _) with
    ⟨w', made, restarted⟩ | ⟨⟨v, inside, full⟩, failed⟩
  · exact .inl ⟨w', made, restarted⟩
  · obtain rfl := mem_singleton.mp inside
    exact .inr ⟨full, failed⟩

/-- A segment that ends with a whole record, and has bare headers up to the last one, is
recovered. -/
theorem recovers
    (segment : TornSegment path base rs [] logInode indexInode w.disk) (named : path ≠ "")
    (bare : ∀ r ∈ rs.dropLast, r.length = msgSetHeaderLen) : Recovers path base rs [] w := by
  intro hash opts here policy positive bounded
  have whole := Chunk.found_bare (c := ⟨base, rs⟩) segment.formed bare
  rcases segment.new_run here named (append_nil _).symm id with
    ⟨w₁, made, restarted⟩ | ⟨full, -⟩
  · refine ⟨w₁, made, fun bs offsets w₂ formed ran => ?_⟩
    have rep := @Restarted.rep opts.resolved [] ⟨⟨base, rs⟩, 0, logInode, indexInode⟩
      w.segs.length w₁ restarted (by simpa using whole)
    rw [newCleaner_delete policy] at rep
    have grown : (ledger none [] ⟨⟨base, rs⟩, w.segs.length, logInode, indexInode⟩).Grown base rs
        (replicate base [] ++ rs) := by
      refine ⟨rfl, ⟨by simp [ledger, Ledger.chunks], by simp [ledger]⟩, ⟨?_, ?_⟩, ?_, ?_, ?_⟩
      · simp [ledger, Ledger.next, Chunk.next]
      · simp [ledger, Ledger.chunks]
      · intro c inside j within
        obtain rfl : c = ⟨base, rs⟩ := by simpa [ledger, Ledger.chunks] using inside
        have length := segment.length
        rw [append_nil] at length
        refine Nat.lt_of_le_of_lt ?_ length
        have whole := congrArg (fun rs => rs.flatten.length) (take_append_drop j rs)
        simp only [flatten_append, length_append] at whole
        exact Nat.le.intro whole
      · intro c inside
        obtain rfl : c = ⟨base, rs⟩ := by simpa [ledger, Ledger.chunks] using inside
        exact .inl ⟨rfl, prefix_rfl⟩
      · simp
    have positive' : 0 < opts.resolved.maxSegmentBytes := by simpa using positive
    have bounded' : opts.resolved.maxSegmentBytes ≤ 2147483648 := by simpa using bounded
    obtain ⟨older', active', all, rep'⟩ := rep.appendAll_linked grown.linked positive'
      (fun b inside => Nat.le_trans (by decide) (formed b inside).1) ran
    have grown' := Ledger.appendAll_induct (fun l history => l.Grown base rs history) _
      (fun l b l' history _ grown appended => grown.append positive' bounded' appended) grown all
    refine rep'.regained ?_
    simpa using grown'
  · rw [whole] at full
    have count := segment.count
    simp only [Chunk.length_entries, entryWidth] at full count
    omega

end TornSegment

theorem Chunk.found_le (c : Chunk) : c.found.2 ≤ c.size := by
  by_cases none : c.found.1 = []
  · have still : c.found.2 = 0 := walk_nothing none
    omega
  · have bound : c.found.2 + ((0 : Nat) : Int) ≤ c.recs.flatten.length + 0 := walk_position none
    simp only [Chunk.size]
    omega

section

variable {v : View} (reopened : v.Reopened opts w) (quiet : w.disk.script = [])
  (active : w.log.active = v.ref)
include reopened quiet active

/-- A record that is appended to a reopened segment gets the next offset that the walk has
counted, and an entry for the position at which the walk has ended. -/
theorem View.Reopened.appendActive
    (long : 8 ≤ b.length) (space : (v.chunk.found.1.length + 1) * entryWidth ≤ indexBytes) :
    ∃ offset s w', (Commitlog.appendActive b).run w = .ok offset w' ∧ w'.log = w.log ∧
      w'.segs[v.ref]? = some s ∧ s.baseOffset = v.chunk.base ∧
      (s.index.readEntryAtLogOffset v.chunk.found.1.length).run w'.disk =
        .ok (Entry.stored ⟨v.chunk.base + v.chunk.found.1.length, v.chunk.found.2⟩ v.chunk.base)
          w'.disk := by
  obtain ⟨c, object⟩ := reopened.object
  have inside : v.ref < w.segs.length := (List.getElem?_eq_some_iff.mp object).1
  have holds : (v.rebuilt opts c).index.Holds w.disk v.chunk.found.1 := reopened.index
  obtain ⟨f, appended, held, -⟩ := appendActive_indexed (s := v.rebuilt opts c) quiet
    (by rw [active]; exact object) rfl reopened.inside reopened.apart holds space long
  have read := held.readEntry v.chunk.found.1.length (by simp)
  rw [getElem_concat_length rfl] at read
  refine ⟨_, _, _, appended, rfl, (congrArg (fun r => (w.segs.set r _)[v.ref]?) active).trans
    (getElem?_set_self inside), rfl, ?_⟩
  simp only [View.rebuilt, Segment.opened] at read
  unfold Index.readEntryAtLogOffset
  exact read

theorem View.Reopened.append (hash : Bytes → UInt64) (long : 8 ≤ b.length)
    (space : (v.chunk.found.1.length + 1) * entryWidth ≤ indexBytes)
    (room : v.chunk.found.2 < opts.maxSegmentBytes) :
    ∃ offset s w', (appendAll hash [b]).run w = .ok [offset] w' ∧ w'.log = w.log ∧
      w'.segs[v.ref]? = some s ∧ s.baseOffset = v.chunk.base ∧
      (s.index.readEntryAtLogOffset v.chunk.found.1.length).run w'.disk =
        .ok (Entry.stored ⟨v.chunk.base + v.chunk.found.1.length, v.chunk.found.2⟩ v.chunk.base)
          w'.disk := by
  obtain ⟨offset, s, w', appended, log, object', entry⟩ := reopened.appendActive quiet active long
    space
  obtain ⟨c, object⟩ := reopened.object
  have checked := checkSplit_run (show w.segs[w.log.active]? = _ by rw [active]; exact object)
  have roomy : (v.rebuilt opts c).isFull = false := decide_eq_false (Int.not_le.mpr room)
  have one : (Commitlog.append hash b).run w = .ok offset w' := by
    unfold Commitlog.append
    rw [bind_ok checked, roomy]
    exact appended
  exact ⟨offset, s, w', bind_ok one, log, object', entry⟩

end

/-- Where a segment is recovered, the walk has counted its records and has ended with its file:
a set that is appended is written behind the file's end and entered where the walk has ended. -/
theorem TornSegment.walk_whole {path : String} {torn : Bytes} {logInode indexInode : Nat}
    (segment : TornSegment path base rs torn logInode indexInode w.disk) (named : path ≠ "")
    (recovers : Recovers path base rs torn w) :
    (Chunk.found ⟨base, rs ++ [torn]⟩).1.length = rs.length ∧
      (Chunk.found ⟨base, rs ++ [torn]⟩).2 = (rs.flatten ++ torn).length := by
  obtain ⟨opts, here, policy, size⟩ : ∃ opts : Options, opts.path = path ∧
      opts.resolved.cleanupPolicy = deleteCleanupPolicy ∧ opts.maxSegmentBytes = 2147483648 :=
    ⟨⟨path, 2147483648, -1, deleteCleanupPolicy⟩, rfl, rfl, rfl⟩
  obtain ⟨w₁, made, after⟩ := recovers (fun _ => 0) opts here policy (by omega) (by omega)
  have bytes : (rs ++ [torn]).flatten = rs.flatten ++ torn := by simp
  rcases segment.new_run here named bytes (by simp) with
    ⟨w₁', made', restarted⟩ | ⟨-, why, w', failed⟩
  · obtain ⟨-, rfl⟩ := Result.ok.inj (made'.symm.trans made)
    have reopened := restarted.opened _ (mem_singleton_self _)
    have active : w₁'.log.active = w.segs.length := by rw [restarted.log]; rfl
    obtain ⟨c, object⟩ := reopened.object
    have count : (Chunk.found ⟨base, rs ++ [torn]⟩).1.length = rs.length := by
      obtain ⟨_, regained⟩ := after [] [] w₁' (by simp) rfl
      have asked := newestOffset_run (show w₁'.segs[w₁'.log.active]? = _ by
        rw [active]; exact object)
      have next := (Result.ok.inj (asked.symm.trans regained.newest)).1
      simp only [View.rebuilt, Segment.opened, length_nil] at next
      omega
    have inside := Chunk.found_le ⟨base, rs ++ [torn]⟩
    have above : 0 ≤ (Chunk.found ⟨base, rs ++ [torn]⟩).2 := le_walk_position ..
    have length := segment.length
    rw [← bytes] at length
    simp only [Chunk.size] at inside
    obtain ⟨offset, s, w₂, ran, log, object₂, base₂, entry⟩ := reopened.append (b := plainSet [])
      restarted.quiet active (fun _ => 0) (by decide) (by rw [count]; exact segment.count)
      (by rw [Options.maxSegmentBytes_resolved, size]
          exact Int.lt_of_le_of_lt inside (Int.ofNat_lt.mpr length))
    obtain ⟨oldest, regained⟩ := after [plainSet []] [offset] w₂ (by decide) ran
    have segments : w₂.log.segments = [w.segs.length] := by
      rw [log, restarted.log]
      rfl
    have first : oldest = base := by
      have asked : oldestOffset.run w₂ = .ok s.baseOffset w₂ := by
        unfold oldestOffset
        rw [bind_ok (getLog_run w₂), segments]
        exact bind_ok (seg_ok object₂)
      rw [← (Result.ok.inj (asked.symm.trans regained.first)).1, base₂]
    obtain ⟨start, position, ⟨ref, listed, s', object₃, base₃, read, -⟩, behind⟩ :=
      regained.new 0 (plainSet []) rfl (by omega)
    rw [segments] at listed
    obtain rfl := mem_singleton.mp listed
    obtain rfl := Option.some.inj (object₂.symm.trans object₃)
    obtain rfl : start = base := Int.ofNat_inj.mp (base₃.symm.trans base₂)
    have slot : start + rs.length + 0 - start = (Chunk.found ⟨start, rs ++ [torn]⟩).1.length := by
      omega
    have reach := segment.count
    simp only [entryWidth, indexBytes] at reach
    have whole := @Entry.stored_eq ⟨start + (Chunk.found ⟨start, rs ++ [torn]⟩).1.length,
      (Chunk.found ⟨start, rs ++ [torn]⟩).2⟩ start (by simp) (by simp only; omega) above
      (by simp only; omega)
    rw [slot, entry, whole] at read
    have place : (Chunk.found ⟨start, rs ++ [torn]⟩).2 = position :=
      congrArg Entry.position (Result.ok.inj read).1
    have ends := behind rfl
    rw [bytes] at inside
    exact ⟨count, by omega⟩
  · rw [failed] at made
    cases made

/-- A segment is recovered exactly if nothing is torn and no record but the last has a payload:
the torn bytes stay in the file, and new records are written behind them and entered before. -/
theorem TornSegment.recovers_iff {path : String} {base : Nat} {rs : List Bytes} {torn : Bytes}
    {logInode indexInode : Nat} {w : World}
    (segment : TornSegment path base rs torn logInode indexInode w.disk) (named : path ≠ "") :
    Recovers path base rs torn w ↔
      torn = [] ∧ ∀ r ∈ rs.dropLast, r.length = msgSetHeaderLen := by
  constructor
  · intro recovers
    obtain ⟨count, ends⟩ := segment.walk_whole named recovers
    have whole := @bare_of_walk_torn rs [] torn ((rs ++ [torn]).flatten.length + 1) base
      segment.formed
    have bytes : (rs ++ [torn]).flatten = rs.flatten ++ torn := by simp
    rw [nil_append, length_nil, Nat.zero_add, ← length_append, ← bytes] at whole
    rw [← bytes] at ends
    exact (whole count ends).symm
  · rintro ⟨rfl, bare⟩
    exact segment.recovers named bare

/-- The machine after a crash: the two files of the segment of offset 5. -/
def World.crashed (log index : Bytes) : World :=
  ⟨⟨[⟨log, 0⟩, ⟨index, 0⟩],
    [(logPath "log" 5 [], 0), (indexPath "log" 5 [], 1)], []⟩, [], World.idle.log⟩

/-- A bare header and a set with a payload, and nothing torn. -/
theorem recovers_whole :
    Recovers "log" 5 [MessageSet.stamp 5 (plainSet []), MessageSet.stamp 6 (plainSet [1, 2])] []
      (World.crashed ([MessageSet.stamp 5 (plainSet []),
        MessageSet.stamp 6 (plainSet [1, 2])].flatten ++ []) []) := by
  have segment : TornSegment "log" 5
      [MessageSet.stamp 5 (plainSet []), MessageSet.stamp 6 (plainSet [1, 2])] [] 0 1
      (World.crashed ([MessageSet.stamp 5 (plainSet []),
        MessageSet.stamp 6 (plainSet [1, 2])].flatten ++ []) []).disk := by
    refine ⟨rfl, by decide +kernel, rfl, by decide, by decide, by decide, .inl rfl, by simp,
      by decide, ⟨plainSet [], by decide, by decide⟩, by decide, by decide, by decide⟩
  exact (segment.recovers_iff (by decide)).mpr ⟨rfl, by decide⟩

/-- Five bytes are torn behind a bare header. The next set gets offset 6 and an entry for byte
12, where the torn bytes still are. -/
theorem torn_bytes_found_as_record :
    ((do
      new ⟨"log", 100, -1, "delete"⟩
      let offset ← append (fun _ => 0) (plainSet [7])
      let s ← activeSegment
      let e ← onDisk (s.index.readEntryAtLogOffset 1)
      let (p, _) ← Segment.readAt (← getLog).active 18 e.position
      return (offset, e, p) : Call World (Int × Entry × Bytes)).run
        (World.crashed (MessageSet.stamp 5 (plainSet []) ++
          (MessageSet.stamp 6 (plainSet [1])).take 5) [])).returned =
      some (6, ⟨6, 12⟩, [0, 0, 0, 0, 0] ++ MessageSet.stamp 6 (plainSet [7])) := by
  decide +kernel

end Jocko.Commitlog
