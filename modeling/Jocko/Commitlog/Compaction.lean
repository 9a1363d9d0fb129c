import Jocko.Commitlog.LogInvariant
import Jocko.Go.Moves

namespace Jocko.Commitlog

open Go World List

/-- No segment object is given up, and the log's fields stay as they are. -/
structure World.Allocates (w w' : World) : Prop where
  segs : w.segs.length ≤ w'.segs.length
  log : w'.log = w.log

instance : IsPreorder World World.Allocates where
  refl w := ⟨Nat.le_refl w.segs.length, rfl⟩
  trans _ _ _ first second := ⟨Nat.le_trans first.segs second.segs, second.log.trans first.log⟩

section

variable {α : Type} {r : Nat}

theorem onDisk_allocates (call : Call Disk α) : (onDisk call).Moves World.Allocates := by
  intro w
  cases ends : call.run w.disk with
  | ok value d =>
    rw [onDisk, zoom_ok ends]
    exact ⟨Nat.le_refl _, rfl⟩
  | error why d =>
    rw [onDisk, zoom_error ends]
    exact ⟨Nat.le_refl _, rfl⟩

theorem seg_allocates : (seg r).Moves World.Allocates := by
  apply Call.Moves.of_unchanged
  intro w
  cases object : w.segs[r]? with
  | none => simp only [seg, object, Result.state]
  | some s => simp only [seg, object, Result.state]

theorem setSeg_allocates (s : Segment) : (setSeg r s).Moves World.Allocates := by
  intro w
  exact ⟨Nat.le_of_eq (length_set ..).symm, rfl⟩

theorem write_allocates (p : Bytes) : (Segment.write r p).Moves World.Allocates := by
  unfold Segment.write
  apply seg_allocates.bind
  intro s
  apply (onDisk_allocates _).bind
  intro log
  exact (setSeg_allocates _).bind fun _ => .pure _

theorem readAt_allocates (count : Nat) (off : Int) :
    (Segment.readAt r count off).Moves World.Allocates := by
  unfold Segment.readAt
  exact seg_allocates.bind fun s => onDisk_allocates _

theorem close_allocates : (Segment.close r).Moves World.Allocates := by
  unfold Segment.close
  apply seg_allocates.bind
  intro s
  apply (onDisk_allocates _).bind
  intro log
  apply (setSeg_allocates _).bind
  intro _
  exact (onDisk_allocates _).bind fun index => setSeg_allocates _

theorem replace_allocates (old : Nat) : (Segment.replace r old).Moves World.Allocates := by
  unfold Segment.replace
  apply close_allocates.bind
  intro _
  apply close_allocates.bind
  intro _
  apply seg_allocates.bind
  intro s
  apply seg_allocates.bind
  intro o
  apply (onDisk_allocates _).bind
  intro _
  apply (onDisk_allocates _).bind
  intro _
  apply (onDisk_allocates _).bind
  intro log
  exact (onDisk_allocates _).bind fun s => setSeg_allocates _

theorem scan_allocates (is : IndexScanner) : (Segment.scan r is).Moves World.Allocates := by
  unfold Segment.scan
  apply seg_allocates.bind
  intro s
  apply (onDisk_allocates _).bind
  intro is
  apply (readAt_allocates _ _).bind
  rintro ⟨header, err⟩
  cases err with
  | some cause => exact .stop _
  | none =>
    refine .bind (.lift (MessageSet.size header)) fun size => ?_
    dsimp only
    split
    · exact .stop _
    · apply (readAt_allocates _ _).bind
      rintro ⟨payload, err⟩
      cases err with
      | some cause => exact .stop _
      | none => exact .pure _

theorem scanAll_allocates {body : α → Bytes → Call World α}
    (each : ∀ acc ms, (body acc ms).Moves World.Allocates) (fuel : Nat) (is : IndexScanner)
    (acc : α) : (CompactCleaner.scanAll r body fuel is acc).Moves World.Allocates := by
  induction fuel generalizing is acc with
  | zero => exact .stop _
  | succ fuel ih =>
    unfold CompactCleaner.scanAll
    apply (scan_allocates is).attempt.bind
    intro scanned
    cases scanned with
    | error cause => exact .pure _
    | ok found => exact (each acc found.1).bind fun acc => ih found.2 acc

theorem rounds_allocates : (CompactCleaner.rounds r).Moves World.Allocates := by
  unfold CompactCleaner.rounds
  exact seg_allocates.bind fun s => .pure _

/-- The cleaner's list has new objects only, one for each segment. -/
theorem cleanSegments_fresh {hash : Bytes → UInt64} {m : CompactCleaner.KeyMap} {refs : List Nat}
    {w w' : World} {cleaned : List Nat}
    (returned : (CompactCleaner.cleanSegments hash m refs).run w = .ok cleaned w') :
    ∀ cs ∈ cleaned, w.segs.length ≤ cs := by
  induction refs generalizing w cleaned with
  | nil =>
    cases returned
    simp
  | cons ds refs ih =>
    unfold CompactCleaner.cleanSegments at returned
    obtain ⟨s, w₁, found, returned⟩ := bind_eq_ok returned
    obtain ⟨new, w₂, made, returned⟩ := bind_eq_ok returned
    obtain ⟨cs, w₃, allocated, returned⟩ := bind_eq_ok returned
    obtain ⟨fuel, w₄, counted, returned⟩ := bind_eq_ok returned
    obtain ⟨_, w₅, copied, returned⟩ := bind_eq_ok returned
    obtain ⟨_, w₆, replaced, returned⟩ := bind_eq_ok returned
    obtain ⟨later, w₇, others, returned⟩ := bind_eq_ok returned
    cases returned
    have before : w.segs.length ≤ w₂.segs.length :=
      Nat.le_trans (seg_allocates.of_ok found).segs ((onDisk_allocates _).of_ok made).segs
    obtain ⟨rfl, rfl⟩ := Result.ok.inj allocated
    have filled := (scanAll_allocates (fun _ ms => by
      refine .bind (.lift (MessageSet.offset ms)) fun offset => ?_
      refine .bind (.lift (CompactCleaner.hashes hash ms)) fun keys => ?_
      split
      · exact (write_allocates ms).bind fun _ => .pure _
      · exact .pure _) _ _ _).of_ok copied
    have grown : w.segs.length ≤ w₆.segs.length := by
      have more : w₂.segs.length ≤ (w₂.segs ++ [new]).length := by simp
      have scanned := (rounds_allocates.of_ok counted).segs
      have swapped := ((replace_allocates ds).of_ok replaced).segs
      exact Nat.le_trans before (Nat.le_trans more (Nat.le_trans scanned
        (Nat.le_trans filled.segs swapped)))
    intro cs inside
    rcases mem_cons.mp inside with rfl | behind
    · exact before
    · exact Nat.le_trans grown (ih others cs behind)

theorem buildMap_allocates (hash : Bytes → UInt64) (refs : List Nat) (m : CompactCleaner.KeyMap) :
    (CompactCleaner.buildMap hash refs m).Moves World.Allocates := by
  induction refs generalizing m with
  | nil => exact .pure _
  | cons r refs ih =>
    unfold CompactCleaner.buildMap
    apply rounds_allocates.bind
    intro fuel
    refine .bind (scanAll_allocates (fun m ms => ?_) _ _ _) fun m => ih m
    refine .bind (.lift (MessageSet.offset ms)) fun offset => ?_
    exact .bind (.lift (CompactCleaner.hashes hash ms)) fun keys => .pure _

theorem getLog_allocates : getLog.Moves World.Allocates :=
  Call.Moves.of_unchanged fun _ => rfl

theorem activeSegment_allocates : activeSegment.Moves World.Allocates :=
  getLog_allocates.bind fun _ => seg_allocates

theorem appendActive_allocates (b : Bytes) : (appendActive b).Moves World.Allocates := by
  unfold appendActive
  apply activeSegment_allocates.bind
  intro s
  refine .bind (.lift _) fun ms => ?_
  apply getLog_allocates.bind
  intro l
  apply (write_allocates ms).bind
  intro _
  apply activeSegment_allocates.bind
  intro t
  apply (onDisk_allocates _).bind
  intro index
  apply getLog_allocates.bind
  intro l
  exact (setSeg_allocates _).bind fun _ => .pure _

end

section

variable {hash : Bytes → UInt64} {w w' : World} {m : CompactCleaner.KeyMap}

theorem clean_fresh {segments cleaned : List Nat} (policy : w.log.cleaner = .compact m)
    (some : segments ≠ []) (returned : (clean hash segments).run w = .ok cleaned w') :
    ∀ cs ∈ cleaned, w.segs.length ≤ cs := by
  unfold clean at returned
  rw [bind_ok (getLog_run w), policy] at returned
  simp only [CompactCleaner.clean, some, ↓reduceIte] at returned
  obtain ⟨m', w₁, built, returned⟩ := bind_eq_ok returned
  rw [bind_ok (getLog_run w₁)] at returned
  obtain ⟨_, w₂, set, returned⟩ := bind_eq_ok returned
  obtain ⟨-, rfl⟩ := Result.ok.inj set
  intro cs inside
  have grown := ((buildMap_allocates hash segments m).of_ok built).segs
  exact Nat.le_trans grown (cleanSegments_fresh returned cs inside)

/-- After a split that compacts, the active segment is none of the listed ones: it was
replaced by the cleaner before it became the active one. -/
theorem split_stale (policy : w.log.cleaner = .compact m)
    (returned : (split hash).run w = .ok () w') : w'.log.active ∉ w'.log.segments := by
  unfold split at returned
  rw [bind_ok (getLog_run w)] at returned
  obtain ⟨offset, w₁, asked, returned⟩ := bind_eq_ok returned
  obtain ⟨new, w₂, made, returned⟩ := bind_eq_ok returned
  obtain ⟨segment, w₃, allocated, returned⟩ := bind_eq_ok returned
  obtain ⟨rfl, rfl⟩ := Result.ok.inj allocated
  obtain ⟨cleaned, w₄, ran, final⟩ := bind_eq_ok returned
  have log : w₂.log = w.log :=
    ((onDisk_allocates _).of_ok made).log.trans
      ((activeSegment_allocates.bind fun _ => .pure _).of_ok asked).log
  have fresh := clean_fresh (by rw [← policy, ← log]) (by simp) ran
  obtain ⟨-, rfl⟩ := Result.ok.inj final
  intro listed
  have above := fresh _ listed
  simp at above

/-- So it is after an `Append` that finds the active segment full, if it returns. -/
theorem append_stale {s : Segment} {b : Bytes} {offset : Int}
    (policy : w.log.cleaner = .compact m) (object : w.segs[w.log.active]? = some s)
    (full : s.isFull = true) (returned : (append hash b).run w = .ok offset w') :
    w'.log.active ∉ w'.log.segments := by
  have checked := checkSplit_run object
  unfold append at returned
  rw [bind_ok checked, full] at returned
  obtain ⟨_, w₁, splitted, written⟩ := bind_eq_ok returned
  rw [((appendActive_allocates b).of_ok written).log]
  exact split_stale policy splitted

end

/-- The log takes records: its active segment is the last of the list and open. -/
structure Usable (w : World) : Prop where
  last : w.log.segments.getLast? = some w.log.active
  isOpen : ∃ s, w.segs[w.log.active]? = some s ∧ s.log.closed = false ∧
    s.index.file.closed = false

/-- Calls of `Append` that return one offset after the other and leave a usable log. -/
def Succeeds (hash : Bytes → UInt64) (w : World) (next : Nat) (bs : List Bytes) : Prop :=
  ∃ w', (appendAll hash bs).run w =
    .ok ((List.range bs.length).map fun k => ((next + k : Nat) : Int)) w' ∧ Usable w'

section

variable {hash : Bytes → UInt64} {w w₁ : World} {next : Nat} {b : Bytes} {bs : List Bytes}

theorem succeeds_nil : Succeeds hash w next [] ↔ Usable w := by
  constructor
  · rintro ⟨w', returned, usable⟩
    cases returned
    exact usable
  · intro usable
    exact ⟨w, rfl, usable⟩

theorem succeeds_cons (returned : (append hash b).run w = .ok (next : Int) w₁) :
    Succeeds hash w next (b :: bs) ↔ Succeeds hash w₁ (next + 1) bs := by
  have first : (appendAll hash (b :: bs)).run w = _ := bind_ok returned
  unfold Succeeds
  rw [first, length_cons, offsets_succ]
  constructor
  · rintro ⟨w', whole, usable⟩
    obtain ⟨others, w₂, rest, final⟩ := bind_eq_ok whole
    cases final
    exact ⟨w', rest, usable⟩
  · rintro ⟨w', rest, usable⟩
    exact ⟨w', bind_ok rest, usable⟩

end

namespace LogRep

variable {opts : Options} {cleaner : Cleaner} {older : List View} {active : View} {w : World}

theorem usable (rep : LogRep opts cleaner none older active w) : Usable w := by
  obtain ⟨c, object⟩ := rep.object
  refine ⟨?_, _, object, rfl, rfl⟩
  rw [rep.segments, rep.current]
  simp

theorem succeeds_step {b : Bytes} (hash : Bytes → UInt64)
    (rep : LogRep opts cleaner none older active w) (long : 8 ≤ b.length)
    (space : ¬ opts.maxSegmentBytes ≤ active.chunk.size) :
    ((active.chunk.recs.length + 1) * entryWidth ≤ indexBytes ∧
      ∃ w', (append hash b).run w = .ok (active.chunk.next : Int) w' ∧
        LogRep opts cleaner none older (active.push b) w') ∨
    (¬ (active.chunk.recs.length + 1) * entryWidth ≤ indexBytes ∧
      ∃ why w', (append hash b).run w = .error why w') := by
  have checked := rep.checkSplit
  rw [decide_eq_false space] at checked
  have goes : (append hash b).run w = (Commitlog.appendActive b).run w := bind_ok checked
  rw [goes]
  by_cases room : (active.chunk.recs.length + 1) * entryWidth ≤ indexBytes
  · exact Or.inl ⟨room, rep.appendActive long room⟩
  · obtain ⟨w', failed⟩ := rep.files.appendActive_full rep.current long (Nat.not_le.mp room)
    exact Or.inr ⟨room, _, w', failed⟩

/-- With a compacting cleaner the appends succeed as long as they all go into the first
segment. -/
theorem succeeds_iff {bs : List Bytes} (hash : Bytes → UInt64)
    (rep : LogRep opts (.compact []) none [] active w) (long : ∀ b ∈ bs, 8 ≤ b.length) :
    (∀ n, Succeeds hash w active.chunk.next (bs.take n)) ↔
      ∀ n < bs.length, ((active.chunk.size + (bs.take n).flatten.length : Nat) : Int) <
        opts.maxSegmentBytes ∧ (active.chunk.recs.length + n + 1) * entryWidth ≤ indexBytes := by
  induction bs generalizing active w with
  | nil => simp [succeeds_nil, rep.usable]
  | cons b bs ih =>
    obtain ⟨c, object⟩ := rep.object
    by_cases full : opts.maxSegmentBytes ≤ active.chunk.size
    · constructor
      · intro all
        obtain ⟨w', returned, usable⟩ := all 1
        obtain ⟨offset, w₁, first, rest⟩ := bind_eq_ok returned
        cases rest
        have stale := append_stale rep.cleaner object (decide_eq_true full) first
        exact absurd (mem_of_getLast? usable.last) stale
      · intro fits
        have := (fits 0 (by simp)).1
        simp at this
        omega
    · rcases rep.succeeds_step hash (long b (mem_cons_self ..)) full with
        ⟨room, w₁, returned, rep₁⟩ | ⟨none, why, w', failed⟩
      · have later := ih rep₁ fun b inside => long b (mem_cons_of_mem _ inside)
        have next : (active.push b).chunk.next = active.chunk.next + 1 := Chunk.next_push _ _
        have size : (active.push b).chunk.size = active.chunk.size + b.length := by
          simp [View.push, Chunk.size, length_stamp (long b (mem_cons_self ..))]
        have count : (active.push b).chunk.recs.length = active.chunk.recs.length + 1 := by
          simp [View.push]
        rw [next, size, count] at later
        constructor
        · intro all n below
          cases n with
          | zero => exact ⟨by simpa using full, room⟩
          | succ n =>
            have rest := later.mp (fun n => (succeeds_cons returned).mp (all (n + 1))) n
              (by simpa using below)
            rw [take_succ_cons, flatten_cons, length_append]
            refine ⟨?_, ?_⟩
            · rw [← Nat.add_assoc]
              exact rest.1
            · rw [← Nat.add_assoc, Nat.add_right_comm _ n 1]
              exact rest.2
        · intro fits n
          cases n with
          | zero => exact succeeds_nil.mpr rep.usable
          | succ n =>
            refine (succeeds_cons returned).mpr (later.mpr (fun n below => ?_) n)
            have rest := fits (n + 1) (by simpa using below)
            rw [take_succ_cons, flatten_cons, length_append,
              ← Nat.add_assoc, ← Nat.add_assoc, Nat.add_right_comm _ n 1] at rest
            exact rest
      · constructor
        · intro all
          obtain ⟨w', returned, -⟩ := all 1
          obtain ⟨offset, w₁, first, -⟩ := bind_eq_ok returned
          rw [failed] at first
          cases first
        · intro fits
          exact absurd (fits 0 (by simp)).2 none

end LogRep

/-- A log opened in an empty directory with the compact policy keeps taking records, one
offset after the other, exactly when no `Append` finds the active segment full and its index
has a slot for every record: the first split leaves an active segment that is not listed. -/
theorem runAppends_compact_iff {opts : Options} {w : World} {bs : List Bytes}
    (hash : Bytes → UInt64) (named : opts.path ≠ "")
    (policy : opts.resolved.cleanupPolicy ≠ deleteCleanupPolicy) (quiet : w.disk.script = [])
    (empty : w.disk.listing opts.path = []) (long : ∀ b ∈ bs, 8 ≤ b.length) :
    (∀ n, ∃ w', (runAppends hash opts (bs.take n)).run w =
        .ok ((List.range (bs.take n).length).map fun k : Nat => (k : Int)) w' ∧ Usable w') ↔
      ∀ n < bs.length, ((bs.take n).flatten.length : Int) < opts.maxSegmentBytes ∧
        (n + 1) * entryWidth ≤ indexBytes := by
  obtain ⟨w₁, opened, rep⟩ := new_empty named quiet empty
  have compacts : newCleaner opts.resolved = .compact [] := by simp [newCleaner, policy]
  rw [compacts] at rep
  have runs (bs : List Bytes) : (runAppends hash opts bs).run w = (appendAll hash bs).run w₁ :=
    bind_ok opened
  have inside := rep.succeeds_iff hash long
  simpa [runs, Succeeds, View.fresh, Chunk.next, Chunk.size] using inside

/-- One v0 message without key and value. The nil key hashes to 17241709254077376921. -/
def emptyMessage : Bytes := [167, 236, 104, 3, 0, 0, 255, 255, 255, 255, 255, 255, 255, 255]

/-- Two sets that fit into the first segment. -/
theorem runAppends_compact_one_segment :
    ∃ w', (runAppends (fun _ => 17241709254077376921) ⟨"log", 30, -1, "compact"⟩
        [plainSet emptyMessage, plainSet emptyMessage]).run World.idle = .ok [0, 1] w' ∧
      Usable w' :=
  (@runAppends_compact_iff _ _ [plainSet emptyMessage, plainSet emptyMessage] _ (by decide)
    (by decide) rfl rfl (by decide)).mpr (by decide) 2

/-- The second set needs a new segment, which compaction has closed when it is written. -/
theorem append_to_closed_segment :
    ((runAppends (fun _ => 17241709254077376921) ⟨"log", 20, -1, "compact"⟩
      [plainSet emptyMessage, plainSet emptyMessage]).run World.idle).stopped =
      some (.err (.wrap .closed "log write failed")) := by
  decide +kernel

end Jocko.Commitlog
