import Jocko.Commitlog.Concurrent
import Jocko.Commitlog.RecordWalk

namespace Jocko.Commitlog

open Go World List

/-- The next `Append` has a slot of the index and a position that fits its field, or it leaves a
full segment that has records and the cleaner only deletes. -/
def World.roomy (w : World) : Bool :=
  (w.segs[w.log.active]?).any fun t =>
    if t.isFull then decide (0 < t.position) && match w.log.cleaner with
      | .delete _ => true
      | .compact _ => false
    else decide (t.index.position + entryWidth ≤ indexBytes ∧ t.position < 2147483648)

/-- Every one of several calls of `Append` finds room. -/
def roomyAll (hash : Bytes → UInt64) : List Bytes → World → Bool
  | [], _ => true
  | b :: bs, w => w.roomy && match (append hash b).run w with
    | .ok _ w' => roomyAll hash bs w'
    | .error _ _ => true

namespace Stored

variable {opts : Options} {rs bs : List Bytes} {w : World} {b : Bytes}

theorem push (stored : Stored opts rs w) {t : Segment} (object : w.segs[w.log.active]? = some t)
    (slot : t.index.position + entryWidth ≤ indexBytes) (low : t.position < 2147483648)
    (long : 8 ≤ b.length) : ∃ w', (Commitlog.appendActive b).run w = .ok (rs.length : Int) w' ∧
      Stored opts (rs ++ [MessageSet.stamp rs.length b]) w' := by
  obtain ⟨older, active, rep, -⟩ := stored.log
  obtain ⟨c, object'⟩ := rep.object
  obtain rfl := Option.some.inj (object'.symm.trans object)
  have space : (active.chunk.recs.length + 1) * entryWidth ≤ indexBytes := by
    rw [Nat.add_one_mul]
    exact slot
  obtain ⟨w', appended, -⟩ := rep.appendActive (b := b) long space
  obtain ⟨-, next, stored'⟩ := stored.appendActive object low long appended
  exact ⟨w', by rw [appended, next], stored'⟩

theorem append (stored : Stored opts rs w) (hash : Bytes → UInt64) (room : w.roomy = true)
    (long : 8 ≤ b.length) : ∃ w', (Commitlog.append hash b).run w = .ok (rs.length : Int) w' ∧
      Stored opts (rs ++ [MessageSet.stamp rs.length b]) w' := by
  obtain ⟨t, object, fits⟩ := (Option.any_eq_true _ _).mp room
  unfold Commitlog.append
  rw [bind_ok (checkSplit_run object)]
  split at fits
  · rename_i full
    rw [full]
    obtain ⟨filled, delete⟩ := Bool.and_eq_true_iff.mp fits
    split at delete
    · rename_i retention policy
      obtain ⟨w₁, t', splitted, object', position, entries, stored'⟩ :=
        stored.split hash object (of_decide_eq_true filled) policy
      simp only [↓reduceIte]
      rw [bind_ok splitted]
      exact stored'.push object' (by rw [entries]; decide) (by rw [position]; decide) long
    · cases delete
  · rename_i space
    obtain ⟨slot, low⟩ := of_decide_eq_true fits
    rw [Bool.eq_false_iff.mpr space]
    exact stored.push object slot low long

theorem appendAll (stored : Stored opts rs w) (hash : Bytes → UInt64)
    (long : ∀ b ∈ bs, 8 ≤ b.length) (room : roomyAll hash bs w = true) :
    ∃ w', (Commitlog.appendAll hash bs).run w =
        .ok ((List.range bs.length).map fun k => ((rs.length + k : Nat) : Int)) w' ∧
      Stored opts (rs ++ Ledger.stampFrom rs.length bs) w' := by
  induction bs generalizing rs w with
  | nil => exact ⟨w, rfl, by rwa [Ledger.stampFrom, append_nil]⟩
  | cons b bs ih =>
    obtain ⟨first, rest⟩ := Bool.and_eq_true_iff.mp room
    obtain ⟨w₁, appended, stored₁⟩ := stored.append hash first (long b (mem_cons_self ..))
    rw [appended] at rest
    obtain ⟨w', others, stored'⟩ := ih stored₁ (fun b inside => long b (mem_cons_of_mem _ inside))
      rest
    rw [length_append, length_singleton] at others stored'
    refine ⟨w', ?_, ?_⟩
    · have start : (Commitlog.appendAll hash (b :: bs)).run w = _ := bind_ok appended
      rw [start, bind_ok others, length_cons, offsets_succ]
      rfl
    · rwa [append_assoc] at stored'

end Stored

section

variable {opts : Options} {w w₁ : World} {bs : List Bytes}

/-- Calls of `Append` on a new log that all find room: they return one offset after the other,
and every entry of an index reads back as it was written. -/
theorem appends_indexed (hash : Bytes → UInt64) (named : opts.path ≠ "")
    (quiet : w.disk.script = []) (empty : w.disk.listing opts.path = [])
    (made : (new opts).run w = .ok () w₁) (long : ∀ b ∈ bs, 8 ≤ b.length)
    (room : roomyAll hash bs w₁ = true) : ∃ w' segs, (appendAll hash bs).run w₁ =
        .ok ((List.range bs.length).map fun k : Nat => (k : Int)) w' ∧
      LogInvariant (Ledger.stampFrom 0 bs) w' segs := by
  obtain ⟨w', returned, stored⟩ := (new_stored named quiet empty made).appendAll hash long room
  obtain ⟨segs, invariant⟩ := stored.invariant
  simp only [length_nil, Nat.zero_add] at returned
  exact ⟨w', segs, returned, invariant⟩

end

/-- The third set goes into a second segment. -/
theorem appends_indexed_second_segment : ∃ w' segs,
    (appendAll (fun _ => 0) [plainSet [1], plainSet [2], plainSet [3]]).run Appending.fresh =
        .ok [0, 1, 2] w' ∧
      LogInvariant (Ledger.stampFrom 0 [plainSet [1], plainSet [2], plainSet [3]]) w' segs := by
  have made : (new ⟨"log", 20, -1, "delete"⟩).run World.idle = .ok () Appending.fresh := by
    decide +kernel
  exact appends_indexed (fun _ => 0) (by decide) rfl rfl made (by decide) (by decide +kernel)

/-- A log with segments of a tebibyte. -/
def hugeOptions : Options := ⟨"log", 1099511627776, -1, "delete"⟩

/-- A set of 2 GiB. -/
def hugeSet : Bytes := plainSet (List.replicate 2147483636 0)

theorem length_hugeSet : hugeSet.length = 2147483648 := by
  simp only [hugeSet, plainSet, length_append, length_putUint, List.length_replicate]

/-- The entry of a record behind the first 2 GiB of a segment. -/
theorem append_behind {p : Bytes} (size : p.length = 2147483648) : ∃ (t : Segment) (w' : World),
    (runAppends (fun _ => 0) hugeOptions [p, plainSet []]).run World.idle = .ok [0, 1] w' ∧
      w'.segs[w'.log.active]? = some t ∧
      (t.index.readEntryAtLogOffset 1).run w'.disk = .ok ⟨1, -2147483648⟩ w'.disk := by
  have same : hugeOptions.resolved = hugeOptions := by decide
  have first : (MessageSet.stamp 0 p).length = 2147483648 := by
    rw [length_stamp (by omega), size]
  have stored : Ledger.start.appendAll hugeOptions [p, plainSet []] =
      some ⟨false, [], Chunk.push (Chunk.push ⟨0, []⟩ p) (plainSet [])⟩ := by
    simp [Ledger.appendAll, Ledger.append, Ledger.push, Ledger.start, Chunk.push, Chunk.size,
      Chunk.next, hugeOptions, entryWidth, indexBytes, first]
  rcases @runAppends_refines hugeOptions World.idle [p, plainSet []] (fun _ => 0) (by decide)
      (by decide) rfl rfl (by simp [size, plainSet]) with
    ⟨l, w', all, returned, -, ghost, older, v, rep, rfl⟩ | ⟨none, -⟩
  · rw [same] at all rep
    obtain ⟨solid, single, chunk⟩ := Ledger.mk.inj (Option.some.inj (stored.symm.trans all))
    obtain rfl := Option.isNone_iff_eq_none.mp (Option.isSome_eq_false_iff.mp solid.symm)
    obtain rfl := map_eq_nil_iff.mp single.symm
    obtain ⟨c, object⟩ := rep.object
    have entry := (rep.files.opened v Files.last_mem).readEntry (j := 1) (by simp [← chunk])
    have start : v.chunk.start 1 = 2147483648 := by
      simp [← chunk, Chunk.start, Chunk.next, first]
    rw [start, ← chunk] at entry
    exact ⟨_, w', returned, object, entry⟩
  · rw [same, stored] at none
    cases none

/-- The entry of a record behind the first 2 GiB of a segment reads back with a negative
position. -/
theorem append_position_wraps : ∃ w' t,
    (runAppends (fun _ => 0) hugeOptions [hugeSet, plainSet []]).run World.idle = .ok [0, 1] w' ∧
      w'.segs[w'.log.active]? = some t ∧
      (t.index.readEntryAtLogOffset 1).run w'.disk = .ok ⟨1, -2147483648⟩ w'.disk := by
  obtain ⟨t, w', returned, object, entry⟩ := append_behind length_hugeSet
  exact ⟨w', t, returned, object, entry⟩

end Jocko.Commitlog
