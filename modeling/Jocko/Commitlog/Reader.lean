import Jocko.Commitlog.Log

namespace Jocko.Commitlog

open Go World

def errSegmentNotFound : Err := .new "segment not found"

/-- A reader's place: a position in the list of segments and a byte of that segment. -/
structure Reader where
  idx : Nat
  pos : Int
  deriving DecidableEq

/-- `segments[i]` -/
def segmentAt (segments : List Nat) (i : Nat) : Call World Nat := ⟨fun w =>
  match segments[i]? with
  | some r => .ok r w
  | none => .error (.panic "index out of range") w⟩

/-- The loop of `Read`, with `room` bytes of the buffer still free: the reader's new
place, the bytes read, and the error returned with them. -/
def Reader.loop (segments : List Nat) : Nat → Reader → Nat → Nat →
    Call World (Reader × Bytes × Option Err)
  | 0, _, _, _ => stop .diverge
  | fuel + 1, r, segment, room => do
    match ← attempt (Segment.readAt segment room r.pos) with
    | .error cause =>
      -- no bytes and an error that is not the end of the file
      return (r, [], some cause)
    | .ok (p, err) =>
      let r := { r with pos := r.pos + p.length }
      let room := room - p.length
      if p ≠ [] ∧ err = none then do
        let (r, q, err) ← Reader.loop segments fuel r segment room
        return (r, p ++ q, err)
      else if room = 0 ∨ err ≠ some .eof then return (r, p, err)
      else if segments.length ≤ r.idx + 1 then return (r, p, some .eof)
      else do
        let r := { idx := r.idx + 1, pos := 0 }
        let segment ← segmentAt segments r.idx
        let (r, q, err) ← Reader.loop segments fuel r segment room
        return (r, p ++ q, err)

/-- `r.Read(p)` with a buffer of `length` bytes. Every round but the last fills the
buffer or moves to the next segment. -/
def Reader.read (r : Reader) (length : Nat) : Call World (Reader × Bytes × Option Err) := do
  let segments := (← getLog).segments
  let segment ← segmentAt segments r.idx
  Reader.loop segments (segments.length + 2) r segment length

/-- One probe of `findSegment`. -/
def probeSegment (segments : List Nat) (offset : Int) (i : Nat) (_ : Unit) :
    Call World (Bool × Unit) := do
  let s ← seg (← segmentAt segments i)
  return (decide (offset < s.nextOffset), ())

def findSegment (segments : List Nat) (offset : Int) : Call World (Option Nat × Nat) := do
  let n := segments.length
  let (idx, _) ← search n (probeSegment segments offset) ()
  if idx = n then return (none, idx) else return (some (← segmentAt segments idx), idx)

/-- `NewReader`; its `maxBytes` argument is not used. -/
def newReader (offset : Int) : Call World Reader := do
  let segments := (← getLog).segments
  let (s, idx) ←
    if offset = 0 then do
      let r ← segmentAt segments 0
      pure (some r, 0)
    else findSegment segments offset
  match s with
  | none => fail (.wrap errSegmentNotFound
      ("segments: " ++ toString segments.length ++ ", offset: " ++ toString offset))
  | some r => do
    let e ← onDisk ((← seg r).findEntry offset)
    return ⟨idx, e.position⟩

end Jocko.Commitlog
