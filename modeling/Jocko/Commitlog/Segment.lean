import Jocko.Commitlog.Index
import Jocko.Commitlog.MessageSet
import Jocko.Go.Search

namespace Jocko.Commitlog

open Go

def logSuffix : List Char := ".log".toList
def indexSuffix : List Char := ".index".toList
def cleanedSuffix : List Char := ".cleaned".toList

/-- A segment object. `writer` and `reader` are always `log`. -/
structure Segment where
  log : OsFile
  index : Index
  baseOffset : Int
  nextOffset : Int
  position : Int
  maxBytes : Int
  path : String
  suffix : List Char
  deriving DecidableEq

def logPath (path : String) (baseOffset : Int) (suffix : List Char) : FileName :=
  ⟨path, sprintf020d baseOffset ++ (logSuffix ++ suffix)⟩

def indexPath (path : String) (baseOffset : Int) (suffix : List Char) : FileName :=
  ⟨path, sprintf020d baseOffset ++ (indexSuffix ++ suffix)⟩

/-- The variables of the loop in `BuildIndex`. -/
structure Walk where
  log : OsFile
  index : Index
  b : Bytes
  nextOffset : Int
  position : Int

/-- The loop of `BuildIndex`. It is left through the first copy that meets the end of
the file; other failures leave the function. -/
def Walk.loop : Nat → Walk → Call Disk Walk
  | 0, _ => stop .diverge
  | fuel + 1, k => do
    -- get offset and size
    let (head, log) ← k.log.copyN 8
    let k := { k with log, b := k.b ++ head }
    if head.length < 8 then return k else
    let (field, log) ← k.log.copyN 4
    let k := { k with log, b := k.b ++ field }
    if field.length < 4 then return k else
    let size := getUint ((k.b.drop 8).take 4)
    let (payload, log) ← k.log.copyN size
    let k := { k with log, b := k.b ++ payload }
    if payload.length < size then return k else
    -- b.Truncate(0)
    let k := { k with b := [] }
    let index ← k.index.writeEntry ⟨k.nextOffset, k.position⟩
    let k := { k with
      index
      position := k.position + (size + msgSetHeaderLen : Nat)
      nextOffset := k.nextOffset + 1 }
    let log ← k.log.seekCurrent size
    Walk.loop fuel { k with log }

namespace Segment

def buildIndex (s : Segment) : Call Disk Segment := do
  s.index.sanityCheck
  let index ← s.index.truncateEntries 0
  let log ← s.log.seekStart 0
  -- A round that goes on has copied a header, so the file's length bounds the rounds.
  let length ← ⟨fun d => .ok (d.file log.inode).size d⟩
  let k ← Walk.loop (length + 1) ⟨log, index, [], s.baseOffset, 0⟩
  return { s with
    log := k.log, index := k.index, nextOffset := k.nextOffset, position := k.position }

/-- `SetupIndex` for a segment whose log file is open. -/
def setupIndex (log : OsFile) (baseOffset nextOffset position maxBytes : Int) (path : String)
    (suffix : List Char) : Call Disk Segment := do
  let index ← newIndex (indexPath path baseOffset suffix) 0 baseOffset
  buildIndex { log, index, baseOffset, nextOffset, position, maxBytes, path, suffix }

end Segment

def newSegment (path : String) (baseOffset maxBytes : Int) (suffix : List Char) :
    Call Disk Segment := do
  let log ← wrap "open file failed" (Disk.openFile (logPath path baseOffset suffix))
  Segment.setupIndex log baseOffset baseOffset 0 maxBytes path suffix

namespace Segment

def isFull (s : Segment) : Bool := s.maxBytes ≤ s.position

/-- One probe of the search in `findEntry`. The entry variable is shared by all probes
and a slot that cannot be read leaves it as it is. -/
def probeEntry (index : Index) (offset : Int) (i : Nat) (e : Entry) :
    Call Disk (Bool × Entry) := do
  let e := match ← attempt (index.readEntryAtFileOffset (i * entryWidth)) with
    | .ok read => read
    | .error _ => e
  return (offset ≤ e.offset || e.offset == 0, e)

/-- The nearest entry whose offset is at least the given one, by its comment. -/
def findEntry (s : Segment) (offset : Int) : Call Disk Entry := do
  let n := s.index.bytes / entryWidth
  let (idx, e) ← search n (probeEntry s.index offset) ⟨0, 0⟩
  if idx = n then fail (.new "entry not found")
  else
    match ← attempt (s.index.readEntryAtFileOffset (idx * entryWidth)) with
    | .ok read => return read
    | .error _ => return e

end Segment

end Jocko.Commitlog
