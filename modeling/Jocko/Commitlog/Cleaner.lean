import Jocko.Commitlog.World

namespace Jocko.Commitlog

open Go World

namespace DeleteCleaner

/-- The first loop of `Clean`, over the segments before the last, newest first:
the segments to keep, and the rest of the way back. -/
def keep (retentionBytes : Int) : Int → List Nat → List Nat → Call World (List Nat × List Nat)
  | _, kept, [] => return (kept, [])
  | totalBytes, kept, r :: older => do
    let s ← seg r
    let totalBytes := totalBytes + s.position
    if retentionBytes < totalBytes then return (kept, r :: older)
    else keep retentionBytes totalBytes (r :: kept) older

/-- The second loop: delete what was not kept, newest first. -/
def deleteAll : List Nat → Call World Unit
  | [] => return ()
  | r :: older => do
    Segment.delete r
    deleteAll older

/-- We start at the most recent segment and work our way backwards until we meet the
retention size. -/
def clean (retentionBytes : Int) (segments : List Nat) : Call World (List Nat) :=
  if segments = [] ∨ retentionBytes = -1 then return segments
  else
    match segments.reverse with
    | [] => return segments
    | last :: older => do
      let s ← seg last
      let (kept, dropped) ← keep retentionBytes s.position [last] older
      deleteAll dropped
      return kept

end DeleteCleaner

namespace CompactCleaner

/-- A Go map as an association list, later writes first. -/
abbrev KeyMap := List (UInt64 × Int)

/-- `m[h]`, the zero value for a missing key. -/
def lookup (m : KeyMap) (h : UInt64) : Int := (m.lookup h).getD 0

/-- `c.m[h] = offset` -/
def insert (m : KeyMap) (h : UInt64) (offset : Int) : KeyMap :=
  (h, offset) :: m.filter (fun entry => entry.1 ≠ h)

section

-- `Hash`, the 64-bit xxHash of a key; the nil key hashes as the empty one.
variable (hash : Bytes → UInt64)

/-- The hashes of the keys of a set's messages, in order. -/
def hashes (ms : Bytes) : Except Stop (List UInt64) := do
  let msgs ← MessageSet.messages ms
  msgs.mapM fun msg => do
    let key ← Message.key msg
    return hash (key.getD [])

/-- Run `body` on the sets that repeated `Scan` calls return, until one fails. -/
def scanAll {α : Type} (r : Nat) (body : α → Bytes → Call World α) :
    Nat → IndexScanner → α → Call World α
  | 0, _, _ => stop .diverge
  | fuel + 1, is, acc => do
    match ← attempt (Segment.scan r is) with
    | .error _ => return acc
    | .ok (ms, is) => scanAll r body fuel is (← body acc ms)

/-- A scan ends with the index, at the latest. -/
def rounds (r : Nat) : Call World Nat := do
  let s ← seg r
  return s.index.position / entryWidth + 1

/-- Build the map of keys to their latest offsets. -/
def buildMap : List Nat → KeyMap → Call World KeyMap
  | [], m => return m
  | r :: segments, m => do
    let m ← scanAll r (fun m ms => do
      let offset ← lift (MessageSet.offset ms)
      let keys ← lift (hashes hash ms)
      return keys.foldl (fun m h => insert m h offset) m) (← rounds r) newIndexScanner m
    buildMap segments m

/-- Copy the sets to retain into a new segment, then put it in the old one's place. -/
def cleanSegments (m : KeyMap) : List Nat → Call World (List Nat)
  | [] => return []
  | ds :: segments => do
    let s ← seg ds
    let cs ← alloc (← onDisk (newSegment s.path s.baseOffset s.maxBytes cleanedSuffix))
    scanAll ds (fun () ms => do
      let offset ← lift (MessageSet.offset ms)
      let keys ← lift (hashes hash ms)
      if keys.any (fun h => decide (lookup m h ≤ offset)) then
        let _ ← Segment.write cs ms
        return ()
      else return ()) (← rounds ds) newIndexScanner ()
    Segment.replace cs ds
    return cs :: (← cleanSegments m segments)

/-- The map of the cleaner is kept from one call to the next. -/
def clean (m : KeyMap) (segments : List Nat) : Call World (List Nat) :=
  if segments = [] then return segments
  else do
    let m ← buildMap hash segments m
    setLog { ← getLog with cleaner := .compact m }
    cleanSegments hash m segments

end

end CompactCleaner

/-- `l.cleaner.Clean(segments)` -/
def clean (hash : Bytes → UInt64) (segments : List Nat) : Call World (List Nat) := do
  match (← getLog).cleaner with
  | .delete retentionBytes => DeleteCleaner.clean retentionBytes segments
  | .compact m => CompactCleaner.clean hash m segments

end Jocko.Commitlog
