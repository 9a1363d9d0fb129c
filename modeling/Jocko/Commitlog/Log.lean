import Jocko.Commitlog.Cleaner

namespace Jocko.Commitlog

open Go World

def logFileSuffix : List Char := ".log".toList
def indexFileSuffix : List Char := ".index".toList

/-- The loop of `open` over the names of the directory: the segments of its log files,
in that order. An index file without a log file is removed, by its bare name and so
from the working directory. -/
def openFiles (opts : Options) : List (List Char) → Call World (List Nat)
  | [] => return []
  | name :: files => do
    if hasSuffix name indexFileSuffix then
      let found ← onDisk (wrap "stat file failed"
        (Disk.exists? ⟨opts.path, replaceFirst indexFileSuffix logFileSuffix name⟩))
      if found then openFiles opts files
      else do
        onDisk (Disk.remove ⟨".", name⟩)
        openFiles opts files
    else if hasSuffix name logFileSuffix then
      match atoi (trimSuffix name logFileSuffix) with
      | none => fail (.wrap (.new "strconv.Atoi") "invalid syntax or value out of range")
      | some baseOffset => do
        let segment ← alloc (← onDisk (newSegment opts.path baseOffset opts.maxSegmentBytes []))
        return segment :: (← openFiles opts files)
    else openFiles opts files

def openLog : Call World Unit := do
  let l ← getLog
  let files ← onDisk (wrap "read dir failed" (Disk.readDir l.opts.path))
  let segments ← openFiles l.opts files
  let segments ←
    if segments = [] then do
      let segment ← alloc (← onDisk (newSegment l.opts.path 0 l.opts.maxSegmentBytes []))
      pure [segment]
    else pure segments
  setLog { l with segments, active := segments.getLastD 0 }

/-- The cleaner that `New` chooses: every policy but `delete` compacts. -/
def newCleaner (opts : Options) : Cleaner :=
  if opts.cleanupPolicy = deleteCleanupPolicy then .delete opts.maxLogBytes else .compact []

/-- `New`; the log it returns becomes the log of the process. -/
def new (opts : Options) : Call World Unit := do
  if opts.path = "" then fail (.new "path is empty")
  else
    let opts := if opts.cleanupPolicy = "" then { opts with cleanupPolicy := deleteCleanupPolicy }
      else opts
    setLog ⟨opts, newCleaner opts, [], 0⟩
    onDisk (wrap "mkdir failed" Disk.tick)
    openLog

def activeSegment : Call World Segment := do
  seg (← getLog).active

def newestOffset : Call World Int := do
  return (← activeSegment).nextOffset

def oldestOffset : Call World Int := do
  match (← getLog).segments with
  | [] => stop (.panic "index out of range")
  | r :: _ => return (← seg r).baseOffset

def checkSplit : Call World Bool := do
  return (← activeSegment).isFull

section

variable (hash : Bytes → UInt64)

def split : Call World Unit := do
  let l ← getLog
  let segment ← alloc (← onDisk
    (newSegment l.opts.path (← newestOffset) l.opts.maxSegmentBytes []))
  let segments ← clean hash (l.segments ++ [segment])
  setLog { ← getLog with segments }
  setLog { ← getLog with active := segment }

/-- What `Append` does once there is room in the active segment. -/
def appendActive (b : Bytes) : Call World Int := do
  let s ← activeSegment
  let ms ← lift (MessageSet.putOffset b s.nextOffset)
  let _ ← Segment.write (← getLog).active ms
  let t ← activeSegment
  let index ← onDisk (t.index.writeEntry ⟨s.nextOffset, s.position⟩)
  setSeg (← getLog).active { t with index }
  return s.nextOffset

def append (b : Bytes) : Call World Int := do
  if ← checkSplit then
    split hash
    appendActive b
  else appendActive b

/-- Several calls of `Append`, one after the other: the offsets they return. -/
def appendAll : List Bytes → Call World (List Int)
  | [] => return []
  | b :: bs => do
    let offset ← append hash b
    return offset :: (← appendAll bs)

end

def closeAll : List Nat → Call World Unit
  | [] => return ()
  | r :: segments => do
    Segment.close r
    closeAll segments

def close : Call World Unit := do
  closeAll (← getLog).segments

/-- The loop of `Truncate`: the segments that begin before the offset are deleted. -/
def truncateSegments (offset : Int) : List Nat → Call World (List Nat)
  | [] => return []
  | r :: segments => do
    if (← seg r).baseOffset < offset then
      Segment.delete r
      truncateSegments offset segments
    else return r :: (← truncateSegments offset segments)

def truncate (offset : Int) : Call World Unit := do
  let segments ← truncateSegments offset (← getLog).segments
  setLog { ← getLog with segments }

end Jocko.Commitlog
