import Jocko.Commitlog.Segment

namespace Jocko.Commitlog

open Go

def deleteCleanupPolicy : String := "delete"
def compactCleanupPolicy : String := "compact"

structure Options where
  path : String
  maxSegmentBytes : Int
  maxLogBytes : Int
  cleanupPolicy : String
  deriving DecidableEq

/-- The two implementations of the `Cleaner` interface: the retention size of the
delete cleaner, and the compact cleaner's map from key hash to offset. -/
inductive Cleaner where
  | delete (retentionBytes : Int)
  | compact (m : List (UInt64 × Int))
  deriving DecidableEq

/-- Segments are held by reference: a number in `segments` and `active` names a
segment object of the heap. -/
structure CommitLog where
  opts : Options
  cleaner : Cleaner
  segments : List Nat
  active : Nat
  deriving DecidableEq

/-- A process with one commit log: the machine's files, the segment objects it has
allocated, and the log. -/
structure World where
  disk : Disk
  segs : List Segment
  log : CommitLog
  deriving DecidableEq

namespace World

def onDisk {α : Type} (call : Call Disk α) : Call World α :=
  zoom (fun w => w.disk) (fun w disk => { w with disk }) call

def seg (r : Nat) : Call World Segment := ⟨fun w =>
  match w.segs[r]? with
  | some s => .ok s w
  | none => .error (.panic "invalid memory address or nil pointer dereference") w⟩

def setSeg (r : Nat) (s : Segment) : Call World Unit := ⟨fun w =>
  .ok () { w with segs := w.segs.set r s }⟩

/-- A pointer to a new segment object. -/
def alloc (s : Segment) : Call World Nat := ⟨fun w =>
  .ok w.segs.length { w with segs := w.segs ++ [s] }⟩

def getLog : Call World CommitLog := ⟨fun w => .ok w.log w⟩

def setLog (log : CommitLog) : Call World Unit := ⟨fun w => .ok () { w with log }⟩

end World

open World

namespace Segment

def write (r : Nat) (p : Bytes) : Call World Nat := do
  let s ← seg r
  let log ← onDisk (wrap "log write failed" (s.log.write p))
  setSeg r { s with log, nextOffset := s.nextOffset + 1, position := s.position + p.length }
  return p.length

def readAt (r : Nat) (count : Nat) (off : Int) : Call World (Bytes × Option Err) := do
  let s ← seg r
  onDisk (s.log.readAt count off)

def close (r : Nat) : Call World Unit := do
  let s ← seg r
  let log ← onDisk s.log.close
  setSeg r { s with log }
  let index ← onDisk s.index.close
  setSeg r { s with log, index }

/-- `s.Replace(old)` -/
def replace (r old : Nat) : Call World Unit := do
  close old
  close r
  let s ← seg r
  let o ← seg old
  onDisk (Disk.rename (logPath s.path s.baseOffset s.suffix)
    (logPath o.path o.baseOffset o.suffix))
  onDisk (Disk.rename (indexPath s.path s.baseOffset s.suffix)
    (indexPath o.path o.baseOffset o.suffix))
  let log ← onDisk (wrap "open file failed" (Disk.openFile (logPath s.path s.baseOffset [])))
  let s ← onDisk (setupIndex log s.baseOffset s.nextOffset s.position s.maxBytes s.path [])
  setSeg r s

/-- Close the segment, then remove its log and index files. -/
def delete (r : Nat) : Call World Unit := do
  close r
  let s ← seg r
  onDisk (Disk.remove s.log.path)
  onDisk (Disk.remove s.index.file.path)

/-- `SegmentScanner.Scan`: the next message set and the scanner behind it. -/
def scan (r : Nat) (is : IndexScanner) : Call World (Bytes × IndexScanner) := do
  let s ← seg r
  let is ← onDisk (is.scan s.index)
  let (header, err) ← readAt r msgSetHeaderLen is.entry.position
  match err with
  | some cause => fail cause
  | none =>
    let size := int32 ((← lift (MessageSet.size header)) - msgSetHeaderLen)
    if size < 0 then stop (.panic "makeslice: len out of range") else
    let (payload, err) ← readAt r size.toNat (is.entry.position + msgSetHeaderLen)
    match err with
    | some cause => fail cause
    | none => return (header ++ payload, is)

end Segment

end Jocko.Commitlog
