import Jocko.Commitlog.SegmentOps
import Jocko.Go.Traces

namespace Jocko.Commitlog

open Go World Scripted

instance : Scripted World := ⟨fun w script => { w with disk := put w.disk script }⟩

theorem World.put_quiet {w : World} (quiet : w.disk.script = []) : put w [] = w := by
  obtain ⟨disk, segs, log⟩ := w
  exact congrArg (World.mk · segs log) (Disk.put_quiet quiet)

section

variable {w : World} {α : Type}

theorem onDisk_traced {call : Call Disk α} {before : List Disk} {value : α} {d : Disk}
    (traced : call.Traced w.disk before value d) :
    (onDisk call).Traced w (before.map fun d => { w with disk := d }) value { w with disk := d } where
  quiet := onDisk_ok traced.quiet
  done rest := by
    rw [List.length_map]
    exact onDisk_ok (traced.done rest)
  crash k t here rest := by
    rw [List.getElem?_map] at here
    obtain ⟨d, place, rfl⟩ := Option.map_eq_some_iff.mp here
    exact onDisk_error (traced.crash k d place rest)
  fault k t o here fails rest := by
    rw [List.getElem?_map] at here
    obtain ⟨d, place, rfl⟩ := Option.map_eq_some_iff.mp here
    obtain ⟨cause, failed⟩ := traced.fault k d o place fails rest
    exact ⟨cause, onDisk_error failed⟩

theorem seg_traced {r : Nat} {s : Segment} (object : w.segs[r]? = some s) :
    (seg r).Traced w [] s w :=
  .silent fun _ => seg_ok object

theorem setSeg_traced (r : Nat) (s : Segment) :
    (setSeg r s).Traced w [] () { w with segs := w.segs.set r s } :=
  .silent fun _ => rfl

end

/-- `Index.Close`: flush twice, cut the file, close it. -/
theorem Index.close_traced {d : Disk} {idx : Index} (live : idx.file.closed = false) :
    idx.close.Traced d
      [d, d, d, d.setFile idx.file.inode ((d.file idx.file.inode).truncate idx.position)]
      { idx with file := { idx.file with closed := true } }
      (d.setFile idx.file.inode ((d.file idx.file.inode).truncate idx.position)) := by
  have synced : idx.sync.Traced d [d, d] () d :=
    ((OsFile.guard_traced live).wrap _).bind (Disk.tick_traced.wrap _)
  exact synced.bind ((OsFile.truncate_traced live idx.position).bind
    ((OsFile.close_traced live).bind (.pure _ _)))

namespace Segment

variable {w : World} {r : Nat} {s : Segment}

/-- The segment's log file is closed, its index not yet. -/
def halfShut (s : Segment) : Segment := { s with log := { s.log with closed := true } }

/-- The world after `Close` of a segment. -/
def closedIn (s : Segment) (r : Nat) (w : World) : World := { w with
  disk := w.disk.setFile s.index.file.inode
    ((w.disk.file s.index.file.inode).truncate s.index.position)
  segs := w.segs.set r s.shut }

@[simp] theorem length_inodes_closedIn :
    (s.closedIn r w).disk.inodes.length = w.disk.inodes.length := by
  rw [closedIn, Disk.length_inodes_setFile]

section

variable (object : w.segs[r]? = some s) (logLive : s.log.closed = false)
  (indexLive : s.index.file.closed = false)
include object logLive indexLive

theorem close_traced : (Segment.close r).Traced w
      [w, { w with segs := w.segs.set r s.halfShut }, { w with segs := w.segs.set r s.halfShut },
        { w with segs := w.segs.set r s.halfShut },
        { s.closedIn r w with segs := w.segs.set r s.halfShut }] () (s.closedIn r w) := by
  have first : (onDisk s.log.close).Traced w [w] _ w := onDisk_traced (OsFile.close_traced logLive)
  have second := @onDisk_traced { w with segs := w.segs.set r s.halfShut } _ _ _ _ _
    (Index.close_traced (d := w.disk) indexLive)
  have last := @setSeg_traced { s.closedIn r w with segs := w.segs.set r s.halfShut } r s.shut
  simp only [List.set_set] at last
  exact (seg_traced object).bind (first.bind ((setSeg_traced r s.halfShut).bind (second.bind last)))

theorem close_live (quiet : w.disk.script = []) :
    (Segment.close r).run w = .ok () (s.closedIn r w) := by
  have ran := (close_traced object logLive indexLive).quiet
  rwa [World.put_quiet quiet, World.put_quiet (by exact quiet)] at ran

variable {logInode indexInode : Nat} (logNamed : w.disk.lookup s.log.path = some logInode)
  (indexNamed : w.disk.lookup s.index.file.path = some indexInode)
  (differ : s.index.file.path ≠ s.log.path)
include logNamed indexNamed differ

theorem delete_traced : (Segment.delete r).Traced w
      [w, { w with segs := w.segs.set r s.halfShut }, { w with segs := w.segs.set r s.halfShut },
        { w with segs := w.segs.set r s.halfShut },
        { s.closedIn r w with segs := w.segs.set r s.halfShut },
        s.closedIn r w,
        { s.closedIn r w with disk := (s.closedIn r w).disk.unlink s.log.path }] ()
      { s.closedIn r w with
        disk := ((s.closedIn r w).disk.unlink s.log.path).unlink s.index.file.path } := by
  have inside : r < w.segs.length := (List.getElem?_eq_some_iff.mp object).1
  have shut : (s.closedIn r w).segs[r]? = some s.shut := List.getElem?_set_self inside
  have still : ((s.closedIn r w).disk.unlink s.log.path).lookup s.index.file.path =
      some indexInode := by
    rw [Disk.lookup_unlink_ne differ]
    exact indexNamed
  have named : (s.closedIn r w).disk.lookup s.log.path = some logInode := logNamed
  exact (close_traced object logLive indexLive).bind ((seg_traced shut).bind
    ((onDisk_traced (Disk.remove_traced named)).bind (onDisk_traced (Disk.remove_traced still))))

theorem delete_live (quiet : w.disk.script = []) :
    (Segment.delete r).run w = .ok () { s.closedIn r w with
      disk := ((s.closedIn r w).disk.unlink s.log.path).unlink s.index.file.path } := by
  have ran := (delete_traced object logLive indexLive logNamed indexNamed differ).quiet
  rwa [World.put_quiet quiet, World.put_quiet (by exact quiet)] at ran

end

end Segment

end Jocko.Commitlog
