import Jocko.Commitlog.Ledger
import Jocko.Commitlog.SegmentTraces

namespace Jocko.Commitlog

open Go World List

/-- A segment of the running log: what it stores, its object and the inodes of its files. -/
structure View where
  chunk : Chunk
  ref : Nat
  logInode : Nat
  indexInode : Nat
  deriving DecidableEq

variable {v : View}

namespace View

def segment (opts : Options) (v : View) (cursor : Nat) : Segment :=
  Segment.opened opts.path v.chunk.base opts.maxSegmentBytes [] v.logInode v.indexInode cursor
    v.chunk.recs.length v.chunk.size

@[simp] theorem nextOffset_segment (opts : Options) (v : View) (cursor : Nat) :
    (v.segment opts cursor).nextOffset = (v.chunk.next : Int) := by
  simp [segment, Segment.opened, Chunk.next]

@[simp] theorem logInode_segment (opts : Options) (v : View) (cursor : Nat) :
    (v.segment opts cursor).log.inode = v.logInode := rfl

@[simp] theorem position_segment (opts : Options) (v : View) (cursor : Nat) :
    (v.segment opts cursor).position = (v.chunk.size : Int) := rfl

theorem index_segment (opts : Options) (v : View) (cursor : Nat) :
    (v.segment opts cursor).index = (v.segment opts 0).index := rfl

def names (opts : Options) (v : View) : List (FileName × Nat) :=
  [(logPath opts.path v.chunk.base [], v.logInode),
    (indexPath opts.path v.chunk.base [], v.indexInode)]

def push (v : View) (b : Bytes) : View := { v with chunk := v.chunk.push b }

/-- The view of an empty segment that is made next. -/
def fresh (w : World) (base : Nat) : View :=
  ⟨⟨base, []⟩, w.segs.length, w.disk.inodes.length, w.disk.inodes.length + 1⟩

/-- A segment object, its log file and its index agree with the view. -/
structure Backed (segment : Nat → Segment) (entries : List Entry) (v : View) (w : World) :
    Prop where
  object : ∃ cursor, w.segs[v.ref]? = some (segment cursor)
  stored : w.disk.file v.logInode = ⟨v.chunk.recs.flatten, 0⟩
  inside : v.logInode < w.disk.inodes.length
  index : (segment 0).index.Holds w.disk entries
  blank : v.chunk.recs = [] → w.disk.file v.indexInode = ⟨[], indexBytes⟩
  apart : v.indexInode ≠ v.logInode

/-- The segment of the process that wrote it. -/
abbrev Open (opts : Options) (v : View) (w : World) : Prop :=
  v.Backed (v.segment opts) v.chunk.entries w

/-- Two segments share neither object nor file. -/
structure Apart (u v : View) : Prop where
  ref : u.ref ≠ v.ref
  base : u.chunk.base ≠ v.chunk.base
  log : u.logInode ≠ v.logInode
  index : u.indexInode ≠ v.indexInode
  logIndex : u.logInode ≠ v.indexInode
  indexLog : u.indexInode ≠ v.logInode

theorem Apart.symm {u : View} (apart : u.Apart v) : v.Apart u :=
  ⟨apart.ref.symm, apart.base.symm, apart.log.symm, apart.index.symm, apart.indexLog.symm,
    apart.logIndex.symm⟩

instance : Std.Symm Apart := ⟨fun _ _ apart => apart.symm⟩

theorem Backed.frame {segment : Nat → Segment} {entries : List Entry} {w w' : World}
    (opened : v.Backed segment entries w)
    (length : w.disk.inodes.length ≤ w'.disk.inodes.length)
    (object : w'.segs[v.ref]? = w.segs[v.ref]?)
    (log : w'.disk.file v.logInode = w.disk.file v.logInode)
    (index : w'.disk.file v.indexInode = w.disk.file v.indexInode)
    (own : (segment 0).index.file.inode = v.indexInode := by rfl) :
    v.Backed segment entries w' where
  object := by rw [object]; exact opened.object
  stored := by rw [log]; exact opened.stored
  inside := Nat.lt_of_lt_of_le opened.inside length
  index := opened.index.frame length (by rw [own, index])
  blank := fun empty => by rw [index]; exact opened.blank empty
  apart := opened.apart

theorem Open.indexInside {opts : Options} {w : World} (opened : v.Open opts w) :
    v.indexInode < w.disk.inodes.length := opened.index.inside

theorem Open.room {opts : Options} {w : World} (opened : v.Open opts w) :
    v.chunk.recs.length * entryWidth ≤ indexBytes := by
  have room := opened.index.room
  rw [Chunk.length_entries] at room
  exact room

theorem Open.refInside {opts : Options} {w : World} (opened : v.Open opts w) :
    v.ref < w.segs.length := by
  obtain ⟨_, object⟩ := opened.object
  exact (List.getElem?_eq_some_iff.mp object).1

end View

/-- The segments of a log with their files, which are all there is in its directory. -/
structure Files (opts : Options) (vs : List View) (w : World) : Prop where
  quiet : w.disk.script = []
  listing : w.disk.listing opts.path = vs.flatMap (View.names opts)
  opened : ∀ v ∈ vs, v.Open opts w
  apart : vs.Pairwise View.Apart

namespace Files

variable {opts : Options} {vs : List View} {w : World}

/-- The claim is about the files and objects, not about the log that lists them. -/
theorem relog (files : Files opts vs w) (log : CommitLog) : Files opts vs { w with log } :=
  ⟨files.quiet, files.listing, fun v inside =>
    (files.opened v inside).frame (Nat.le_refl _) rfl rfl rfl, files.apart⟩

theorem lookup_eq (files : Files opts vs w) {path : FileName} (here : path.dir = opts.path) :
    w.disk.lookup path = (vs.flatMap (View.names opts)).lookup path := by
  rw [Disk.lookup_listing, here, files.listing]

theorem lookup (files : Files opts vs w) (base : Nat) :
    w.disk.lookup (logPath opts.path base []) =
      (vs.find? fun v => v.chunk.base = base).map View.logInode ∧
    w.disk.lookup (indexPath opts.path base []) =
      (vs.find? fun v => v.chunk.base = base).map View.indexInode := by
  rw [files.lookup_eq rfl, files.lookup_eq rfl]
  clear files
  induction vs with
  | nil => exact ⟨rfl, rfl⟩
  | cons v vs ih =>
    have across := logPath_ne_indexPath opts.path base v.chunk.base
    have across' := (logPath_ne_indexPath opts.path v.chunk.base base).symm
    by_cases same : v.chunk.base = base
    · subst same
      simp [View.names, lookup_cons, beq_false_of_ne across']
    · have log : logPath opts.path base [] ≠ logPath opts.path v.chunk.base [] :=
        fun equal => same (logPath_inj equal).symm
      have index : indexPath opts.path base [] ≠ indexPath opts.path v.chunk.base [] :=
        fun equal => same (indexPath_inj equal).symm
      simpa [View.names, lookup_cons, beq_false_of_ne across, beq_false_of_ne across',
        beq_false_of_ne log, beq_false_of_ne index, same] using ih

theorem filter_names (opts : Options) (vs : List View) (base : Nat) :
    ((vs.flatMap (View.names opts)).filter fun entry => entry.1 ≠ logPath opts.path base []).filter
        (fun entry => entry.1 ≠ indexPath opts.path base []) =
      (vs.filter fun v => v.chunk.base ≠ base).flatMap (View.names opts) := by
  induction vs with
  | nil => rfl
  | cons v vs ih =>
    have across := logPath_ne_indexPath opts.path v.chunk.base base
    have across' := (logPath_ne_indexPath opts.path base v.chunk.base).symm
    rw [flatMap_cons, filter_append, filter_append, ih]
    by_cases same : v.chunk.base = base
    · subst same
      simp [View.names]
    · have log : logPath opts.path v.chunk.base [] ≠ logPath opts.path base [] :=
        fun equal => same (logPath_inj equal)
      have index : indexPath opts.path v.chunk.base [] ≠ indexPath opts.path base [] :=
        fun equal => same (indexPath_inj equal)
      simp [View.names, same, across, across', log, index]

/-- `NewSegment` for a base offset that has no files yet. -/
theorem newSegment_run (files : Files opts vs w) (base : Nat)
    (unused : ∀ v ∈ vs, v.chunk.base ≠ base) :
    ∃ c, (newSegment opts.path base opts.maxSegmentBytes []).run w.disk =
      .ok ((View.fresh w base).segment opts c) (createdDisk w.disk opts.path base) := by
  have absent : (vs.find? fun v => v.chunk.base = base) = none := by
    simpa using unused
  have noLog : w.disk.lookup (logPath opts.path base []) = none := by
    rw [(files.lookup base).1, absent]
    rfl
  have noIndex : w.disk.lookup (indexPath opts.path base []) = none := by
    rw [(files.lookup base).2, absent]
    rfl
  exact newSegment_new opts.maxSegmentBytes files.quiet noLog noIndex

theorem create (files : Files opts vs w) (base : Nat)
    (unused : ∀ v ∈ vs, v.chunk.base ≠ base) :
    ∃ c d', (newSegment opts.path base opts.maxSegmentBytes []).run w.disk =
        .ok ((View.fresh w base).segment opts c) d' ∧
      Files opts (vs ++ [View.fresh w base])
        { w with disk := d', segs := w.segs ++ [(View.fresh w base).segment opts c] } := by
  obtain ⟨c, made⟩ := files.newSegment_run base unused
  have newLog : (createdDisk w.disk opts.path base).file w.disk.inodes.length = ⟨[], 0⟩ := by
    rw [createdDisk, Disk.file_setFile_ne _ (by omega), Disk.file_create_old _ (by simp),
      Disk.file_create_new]
  have newIndex : (createdDisk w.disk opts.path base).file (w.disk.inodes.length + 1) =
      ⟨[], indexBytes⟩ := Disk.file_setFile_same _ (by simp)
  refine ⟨c, _, made, files.quiet, ?_, fun v inside => ?_, ?_⟩
  · have log := Disk.listing_create (d := w.disk) (logPath opts.path base [])
    have index := Disk.listing_create (d := w.disk.create (logPath opts.path base []))
      (indexPath opts.path base [])
    simp only [logPath, indexPath] at log index
    simp only [createdDisk, Disk.listing_setFile, logPath, indexPath, index, log, files.listing,
      Disk.length_inodes_create, flatMap_append, append_assoc]
    rfl
  · rcases mem_append.mp inside with present | new
    · have opened := files.opened v present
      exact opened.frame (by simp) (getElem?_append_left opened.refInside)
        (file_createdDisk opened.inside base) (file_createdDisk opened.indexInside base)
    · obtain rfl := mem_singleton.mp new
      refine ⟨⟨c, ?_⟩, newLog, ?_, ⟨?_, ?_, ?_, ?_, ?_⟩, fun _ => newIndex, ?_⟩
      · simp [View.fresh]
      · simp [View.fresh]
      · simp [View.fresh, View.segment, Segment.opened]
      · simp [View.fresh, View.segment, Segment.opened, Chunk.entries]
      · simp only [View.fresh, View.segment, Segment.opened, newIndex]
        rfl
      · simp [View.fresh, Chunk.entries]
      · simp [View.fresh, Chunk.entries, encodeEntries]
      · simp [View.fresh]
  · rw [pairwise_append]
    refine ⟨files.apart, pairwise_singleton _ _, fun v present u new => ?_⟩
    obtain rfl := mem_singleton.mp new
    have opened := files.opened v present
    have ref := opened.refInside
    have log := opened.inside
    have index := opened.indexInside
    refine ⟨?_, unused v present, ?_, ?_, ?_, ?_⟩ <;> simp only [View.fresh] <;> omega

theorem last_mem : v ∈ vs ++ [v] := by simp

theorem apart_last (files : Files opts (vs ++ [v]) w) : ∀ u ∈ vs, u.Apart v :=
  fun u present => (pairwise_append.mp files.apart).2.2 u present v (by simp)

/-- A record written behind the others of the last segment, and its index entry. -/
theorem write_last (files : Files opts (vs ++ [v]) w) {w' : World} {b : Bytes} {f : File} {c : Nat}
    (disk : w'.disk = (w.disk.setFile v.logInode ⟨(v.push b).chunk.recs.flatten, 0⟩).setFile
      v.indexInode f) (segs : w'.segs = w.segs.set v.ref ((v.push b).segment opts c))
    (holds : ((v.push b).segment opts 0).index.Holds w'.disk (v.push b).chunk.entries) :
    Files opts (vs ++ [v.push b]) w' := by
  have opened := files.opened v last_mem
  have length : w'.disk.inodes.length = w.disk.inodes.length := by
    rw [disk, Disk.length_inodes_setFile, Disk.length_inodes_setFile]
  refine ⟨by rw [disk]; exact files.quiet, ?_, fun u inside => ?_, ?_⟩
  · rw [disk, Disk.listing_setFile, Disk.listing_setFile, files.listing, flatMap_append,
      flatMap_append]
    rfl
  · rcases mem_append.mp inside with present | new
    · have apart := files.apart_last u present
      refine (files.opened u (mem_append_left _ present)).frame (Nat.le_of_eq length.symm)
        ?_ ?_ ?_
      · rw [segs, getElem?_set_ne apart.ref.symm]
      · rw [disk, Disk.file_setFile_ne _ apart.logIndex.symm, Disk.file_setFile_ne _ apart.log.symm]
      · rw [disk, Disk.file_setFile_ne _ apart.index.symm, Disk.file_setFile_ne _ apart.indexLog.symm]
    · obtain rfl := mem_singleton.mp new
      refine ⟨⟨c, ?_⟩, ?_, by rw [length]; exact opened.inside, holds, fun empty => ?_,
        opened.apart⟩
      · rw [segs]
        exact getElem?_set_self opened.refInside
      · rw [disk]
        exact (Disk.file_setFile_ne _ opened.apart).trans
          (Disk.file_setFile_same _ opened.inside)
      · simp [View.push] at empty
  · have pairs := pairwise_append.mp files.apart
    refine pairwise_append.mpr ⟨pairs.1, pairwise_singleton _ _, fun u present v' new => ?_⟩
    obtain rfl := mem_singleton.mp new
    have apart := files.apart_last u present
    exact ⟨apart.ref, apart.base, apart.log, apart.index, apart.logIndex, apart.indexLog⟩

end Files

namespace Files

variable {opts : Options} {vs : List View} {v : View} {w : World} {b : Bytes}

theorem holds_last (files : Files opts (vs ++ [v]) w) (f : File) :
    (v.segment opts 0).index.Holds (w.disk.setFile v.logInode f) v.chunk.entries := by
  have opened := files.opened v last_mem
  exact opened.index.frame (by simp) (Disk.file_setFile_ne _ opened.apart.symm)

/-- What a write of the stamped record makes of the active segment's object and file. -/
theorem grown_last (files : Files opts (vs ++ [v]) w) (c : Nat) :
    (w.disk.file v.logInode).append (MessageSet.stamp v.chunk.next b) =
        ⟨(v.push b).chunk.recs.flatten, 0⟩ ∧
      (v.segment opts c).grown (MessageSet.stamp v.chunk.next b)
          (v.push b).chunk.recs.flatten.length =
        { (v.push b).segment opts (v.push b).chunk.recs.flatten.length with
          index := (v.segment opts 0).index } := by
  constructor
  · rw [(files.opened v last_mem).stored]
    simp [View.push, File.append]
  · simp [View.segment, View.push, Segment.opened, Segment.grown, Chunk.size, Int.add_assoc]

section

variable (files : Files opts (vs ++ [v]) w) (active : w.log.active = v.ref) (long : 8 ≤ b.length)
include files active long

theorem appendActive_run (space : (v.chunk.recs.length + 1) * entryWidth ≤ indexBytes) :
    ∃ f c, (appendActive b).run w = .ok (v.chunk.next : Int) { w with
        disk := (w.disk.setFile v.logInode ⟨(v.push b).chunk.recs.flatten, 0⟩).setFile v.indexInode f
        segs := w.segs.set v.ref ((v.push b).segment opts c) } ∧
      ((v.push b).segment opts 0).index.Holds
        ((w.disk.setFile v.logInode ⟨(v.push b).chunk.recs.flatten, 0⟩).setFile v.indexInode f)
        (v.push b).chunk.entries ∧
      f = (w.disk.file v.indexInode).overwrite (v.chunk.recs.length * entryWidth)
        (newRelEntry ⟨v.chunk.next, v.chunk.size⟩ v.chunk.base).encode := by
  have opened := files.opened v last_mem
  obtain ⟨c, object⟩ := opened.object
  obtain ⟨f, appended, held, place⟩ := appendActive_indexed (s := v.segment opts c) files.quiet
    (by rw [active]; exact object) rfl opened.inside opened.apart opened.index
    (by rw [Chunk.length_entries]; exact space) long
  obtain ⟨bytes, object'⟩ := files.grown_last (b := b) c
  have index : { (v.segment opts 0).index with
      position := (v.segment opts 0).index.position + entryWidth } =
        ((v.push b).segment opts 0).index := by
    simp [View.segment, View.push, Segment.opened, Nat.add_one_mul]
  simp only [View.nextOffset_segment, View.logInode_segment, View.position_segment,
    View.index_segment, bytes, File.size_plain, object', index, active] at appended held place
  rw [← Chunk.entries_push] at held
  exact ⟨f, (v.push b).chunk.recs.flatten.length, appended, held, place⟩

/-- `Append` stores the record behind the others of the active segment. -/
theorem appendActive_ok (space : (v.chunk.recs.length + 1) * entryWidth ≤ indexBytes) :
    ∃ w', (appendActive b).run w = .ok (v.chunk.next : Int) w' ∧ w'.log = w.log ∧
      (∀ r, r ≠ v.ref → w'.segs[r]? = w.segs[r]?) ∧ Files opts (vs ++ [v.push b]) w' := by
  obtain ⟨f, c, appended, held, -⟩ := files.appendActive_run active long space
  exact ⟨_, appended, rfl, fun r other => getElem?_set_ne other.symm,
    files.write_last rfl rfl held⟩

/-- `Append` panics when the index of the active segment has no slot left. -/
theorem appendActive_full (full : indexBytes < (v.chunk.recs.length + 1) * entryWidth) :
    ∃ w', (appendActive b).run w = .error (.panic "slice bounds out of range") w' := by
  have opened := files.opened v last_mem
  obtain ⟨c, object⟩ := opened.object
  have start := appendActive_start files.quiet (by rw [active]; exact object) rfl opened.inside long
  have stuck := (files.holds_last ((w.disk.file v.logInode).append
    (MessageSet.stamp (v.segment opts c).nextOffset b))).writeEntry_full
      ⟨(v.segment opts c).nextOffset, v.chunk.size⟩ (by rw [Chunk.length_entries]; exact full)
  exact ⟨_, by rw [start, bind_error (onDisk_error stuck)]⟩

end

end Files

namespace Files

variable {opts : Options} {us ks : List View} {v : View} {w : World}

section

variable (files : Files opts (us ++ v :: ks) w)
include files

theorem find_base :
    ((us ++ v :: ks).find? fun u => u.chunk.base = v.chunk.base) = some v := by
  have others : ∀ u ∈ us, u.chunk.base ≠ v.chunk.base := fun u present =>
    ((pairwise_append.mp files.apart).2.2 u present v (by simp)).base
  rw [find?_append, find?_eq_none.mpr (by simpa using others)]
  simp

theorem apart_middle {u : View} (present : u ∈ us ++ ks) :
    u ∈ us ++ v :: ks ∧ u.Apart v := by
  have pairs := pairwise_append.mp files.apart
  rcases mem_append.mp present with before | behind
  · exact ⟨mem_append_left _ before, pairs.2.2 u before v (by simp)⟩
  · exact ⟨mem_append_right _ (mem_cons_of_mem _ behind),
      ((pairwise_cons.mp pairs.2.1).1 u behind).symm⟩

theorem named :
    w.disk.lookup (logPath opts.path v.chunk.base []) = some v.logInode ∧
      w.disk.lookup (indexPath opts.path v.chunk.base []) = some v.indexInode := by
  obtain ⟨log, index⟩ := files.lookup v.chunk.base
  rw [files.find_base] at log index
  exact ⟨log, index⟩

theorem delete :
    ∃ w', (Segment.delete v.ref).run w = .ok () w' ∧ w'.log = w.log ∧
      (∀ r, r ≠ v.ref → w'.segs[r]? = w.segs[r]?) ∧ Files opts (us ++ ks) w' := by
  have opened := files.opened v (by simp)
  obtain ⟨c, object⟩ := opened.object
  obtain ⟨logNamed, indexNamed⟩ := files.named
  have deleted := Segment.delete_live object rfl rfl logNamed indexNamed
    (logPath_ne_indexPath _ _ _).symm files.quiet
  refine ⟨_, deleted, rfl, fun r other => getElem?_set_ne other.symm, files.quiet, ?_,
    fun u present => ?_, ?_⟩
  · have kept : (us ++ v :: ks).filter (fun u => u.chunk.base ≠ v.chunk.base) = us ++ ks := by
      rw [filter_append, filter_cons_of_neg (by simp), ← filter_append,
        filter_eq_self]
      intro u present
      simpa using (files.apart_middle present).2.base
    rw [Disk.listing_unlink, Disk.listing_unlink, Segment.closedIn, Disk.listing_setFile, files.listing]
    rw [← kept]
    exact filter_names opts (us ++ v :: ks) v.chunk.base
  · obtain ⟨inside, away⟩ := files.apart_middle present
    exact (files.opened u inside).frame (by simp) (getElem?_set_ne away.ref.symm)
      (Disk.file_setFile_ne _ away.logIndex.symm) (Disk.file_setFile_ne _ away.index.symm)
  · exact files.apart.sublist (Sublist.append_left (sublist_cons_self v ks) us)

end

end Files

end Jocko.Commitlog
