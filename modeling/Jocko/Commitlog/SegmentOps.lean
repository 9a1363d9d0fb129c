import Jocko.Commitlog.Log
import Jocko.Commitlog.SegmentOpen

namespace Jocko.Commitlog

open Go World List

variable {w : World} {d : Disk}

theorem World.onDisk_ok {α : Type} {call : Call Disk α} {value : α}
    (returned : call.run w.disk = .ok value d) :
    (onDisk call).run w = .ok value { w with disk := d } :=
  zoom_ok returned

theorem World.onDisk_error {α : Type} {call : Call Disk α} {why : Stop}
    (stopped : call.run w.disk = .error why d) :
    (onDisk call).run w = .error why { w with disk := d } :=
  zoom_error stopped

variable {r : Nat} {s : Segment}

theorem World.seg_ok (found : w.segs[r]? = some s) : (seg r).run w = .ok s w := by
  simp only [seg, found]

theorem logPath_ne_indexPath (path : String) (base base' : Int) :
    logPath path base [] ≠ indexPath path base' [] := by
  intro same
  have ends := congrArg (fun p : FileName => p.base.getLast?) same
  have log : logSuffix.getLast? = some 'g' := by decide
  have index : indexSuffix.getLast? = some 'x' := by decide
  simp only [logPath, indexPath, append_nil, getLast?_append, log, index,
    Option.some_or] at ends
  exact absurd ends (by decide)

variable {path : String}

theorem logPath_inj {base base' : Nat} (same : logPath path base [] =
    logPath path base' []) : base = base' := by
  simp only [logPath, append_nil, FileName.mk.injEq, true_and] at same
  exact sprintf020d_inj (append_cancel_right same)

theorem indexPath_inj {base base' : Nat} (same : indexPath path base [] =
    indexPath path base' []) : base = base' := by
  simp only [indexPath, append_nil, FileName.mk.injEq, true_and] at same
  exact sprintf020d_inj (append_cancel_right same)

/-- The disk with the two files of a new segment. -/
def createdDisk (d : Disk) (path : String) (base : Int) : Disk :=
  ((d.create (logPath path base [])).create (indexPath path base [])).setFile
    (d.inodes.length + 1) ⟨[], indexBytes⟩

@[simp] theorem length_inodes_createdDisk (d : Disk) (path : String) (base : Int) :
    (createdDisk d path base).inodes.length = d.inodes.length + 2 := by
  simp [createdDisk]

theorem file_createdDisk {i : Nat} (inside : i < d.inodes.length) (base : Int) :
    (createdDisk d path base).file i = d.file i := by
  rw [createdDisk, Disk.file_setFile_ne _ (by omega), Disk.file_create_old _ (by simp; omega),
    Disk.file_create_old _ inside]

theorem newSegment_new {base : Int} (maxBytes : Int) (quiet : d.script = [])
    (noLog : d.lookup (logPath path base []) = none)
    (noIndex : d.lookup (indexPath path base []) = none) :
    ∃ c, (newSegment path base maxBytes []).run d =
      .ok (Segment.opened path base maxBytes [] d.inodes.length (d.inodes.length + 1) c 0 0)
        (createdDisk d path base) := by
  have logOpened := Disk.openFile_new quiet noLog
  have stillNone : (d.create (logPath path base [])).lookup (indexPath path base []) = none := by
    rw [Disk.lookup_create_ne (logPath_ne_indexPath path base base).symm, noIndex]
  have indexOpened := Disk.openFile_new (d := d.create (logPath path base [])) quiet stillNone
  rw [Disk.length_inodes_create] at indexOpened
  have newLog : ((d.create (logPath path base [])).create (indexPath path base [])).file
      d.inodes.length = ⟨[], 0⟩ := by
    rw [Disk.file_create_old _ (by simp), Disk.file_create_new]
  have newIndex : ((d.create (logPath path base [])).create (indexPath path base [])).file
      (d.inodes.length + 1) = ⟨[], 0⟩ := by
    have := Disk.file_create_new (d := d.create (logPath path base [])) (indexPath path base [])
    rwa [Disk.length_inodes_create] at this
  have made := newSegment_walk maxBytes logOpened indexOpened quiet (by omega) (by simp)
    (by rw [newIndex]; exact Or.inl rfl)
  simp only [newLog, newIndex, File.content_plain, walk_nil] at made
  rcases made with ⟨-, c, f, s, made, shape, -, idle⟩ | ⟨full, -⟩
  · refine ⟨c, ?_⟩
    rw [made, shape, idle trivial]
    rfl
  · exact absurd full (by simp)

/-- The object of a segment after a write of `p` that made its log `size` bytes long. -/
def Segment.grown (s : Segment) (p : Bytes) (size : Nat) : Segment := { s with
  log := { s.log with cursor := size }
  nextOffset := s.nextOffset + 1
  position := s.position + p.length }

theorem Segment.write_live {p : Bytes}
    (quiet : w.disk.script = []) (object : w.segs[r]? = some s) (live : s.log.closed = false)
    (inside : s.log.inode < w.disk.inodes.length) :
    (Segment.write r p).run w = .ok p.length { w with
      disk := w.disk.setFile s.log.inode ((w.disk.file s.log.inode).append p)
      segs := w.segs.set r (s.grown p ((w.disk.file s.log.inode).append p).size) } := by
  unfold Segment.write
  rw [bind_ok (seg_ok object),
    bind_ok (onDisk_ok (wrap_ok (OsFile.write_live quiet live p inside)))]
  rfl

theorem getLog_run (w : World) : getLog.run w = .ok w.log w := rfl

theorem activeSegment_run (object : w.segs[w.log.active]? = some s) :
    activeSegment.run w = .ok s w := by
  unfold activeSegment
  rw [bind_ok (getLog_run w)]
  exact seg_ok object

theorem activeSegment_none (gone : w.segs[w.log.active]? = none) : activeSegment.run w =
      .error (.panic "invalid memory address or nil pointer dereference") w := by
  unfold activeSegment
  rw [bind_ok (getLog_run w)]
  simp only [seg, gone]

variable {b : Bytes}

/-- `Append` into an open active segment, up to the index entry. -/
theorem appendActive_start (quiet : w.disk.script = [])
    (object : w.segs[w.log.active]? = some s) (live : s.log.closed = false)
    (inside : s.log.inode < w.disk.inodes.length) (long : 8 ≤ b.length) :
    let p := MessageSet.stamp s.nextOffset b
    let f := (w.disk.file s.log.inode).append p
    (appendActive b).run w = (do
      let index ← onDisk (s.index.writeEntry ⟨s.nextOffset, s.position⟩)
      setSeg (← getLog).active { s.grown p f.size with index }
      return s.nextOffset : Call World Int).run { w with
        disk := w.disk.setFile s.log.inode f
        segs := w.segs.set w.log.active (s.grown p f.size) } := by
  intro p f
  have stamped : (lift (MessageSet.putOffset b s.nextOffset) : Call World Bytes).run w =
      .ok p w := by
    simp only [lift, MessageSet.putOffset, Nat.not_lt.mpr long, ↓reduceIte, p]
  have written := Segment.write_live (p := p) quiet object live inside
  have again := List.getElem?_set_self (a := s.grown p f.size)
    (List.getElem?_eq_some_iff.mp object).1
  unfold appendActive
  rw [bind_ok (activeSegment_run object), bind_ok stamped, bind_ok (getLog_run w),
    bind_ok written, bind_ok (activeSegment_run again)]
  rfl

/-- `Append` into an open active segment whose index has a slot left. -/
theorem appendActive_indexed {es : List Entry}
    (quiet : w.disk.script = []) (object : w.segs[w.log.active]? = some s)
    (live : s.log.closed = false) (inside : s.log.inode < w.disk.inodes.length)
    (apart : s.index.file.inode ≠ s.log.inode) (holds : s.index.Holds w.disk es)
    (space : (es.length + 1) * entryWidth ≤ s.index.mapped) (long : 8 ≤ b.length) :
    let p := MessageSet.stamp s.nextOffset b
    let g := (w.disk.file s.log.inode).append p
    let index := { s.index with position := s.index.position + entryWidth }
    ∃ f, (appendActive b).run w = .ok s.nextOffset { w with
        disk := (w.disk.setFile s.log.inode g).setFile s.index.file.inode f
        segs := w.segs.set w.log.active { s.grown p g.size with index } } ∧
      index.Holds ((w.disk.setFile s.log.inode g).setFile s.index.file.inode f)
        (es ++ [⟨s.nextOffset, s.position⟩]) ∧
      f = (w.disk.file s.index.file.inode).overwrite s.index.position
        (newRelEntry ⟨s.nextOffset, s.position⟩ s.index.baseOffset).encode := by
  intro p g index
  have unread : s.index.Holds (w.disk.setFile s.log.inode g) es :=
    holds.frame (by simp) (Disk.file_setFile_ne _ apart.symm)
  obtain ⟨f, written, held, place⟩ := unread.writeEntry ⟨s.nextOffset, s.position⟩ space
  rw [Disk.file_setFile_ne _ apart.symm] at place
  refine ⟨f, ?_, held, place⟩
  rw [appendActive_start quiet object live inside long, bind_ok (onDisk_ok written),
    bind_ok (getLog_run _)]
  simp only [set_set, bind, setSeg, run_pure]
  rfl

/-- `Append` faults when the active segment's index file was cut under its mapping. -/
theorem appendActive_fault (quiet : w.disk.script = [])
    (object : w.segs[w.log.active]? = some s) (live : s.log.closed = false)
    (inside : s.log.inode < w.disk.inodes.length) (long : 8 ≤ b.length)
    (apart : s.index.file.inode ≠ s.log.inode)
    (lost : (w.disk.file s.index.file.inode).size < s.index.position + entryWidth) :
    ∃ why w', (appendActive b).run w = .error why w' := by
  obtain ⟨why, faulted⟩ := Index.writeEntry_fault (d := w.disk.setFile s.log.inode
      ((w.disk.file s.log.inode).append (MessageSet.stamp s.nextOffset b)))
    s.index ⟨s.nextOffset, s.position⟩ (by rwa [Disk.file_setFile_ne _ apart.symm])
  exact ⟨why, _, by
    rw [appendActive_start quiet object live inside long, bind_error (onDisk_error faulted)]⟩

/-- The object of a segment after `Close`. -/
def Segment.shut (s : Segment) : Segment := { s with
  log := { s.log with closed := true }
  index := { s.index with file := { s.index.file with closed := true } } }

end Jocko.Commitlog
