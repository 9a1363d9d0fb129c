import Jocko.Commitlog.Log
import Jocko.Go.Laws

namespace Jocko.Commitlog

open Go World

/-- The first of the steps of `Append` between which other goroutines can run. -/
def roll (hash : Bytes → UInt64) : Call World Unit := do
  if ← checkSplit then split hash

/-- The position and the offset that the record is to have. -/
def reserve : Call World (Int × Int) := do
  let s ← activeSegment
  return (s.position, s.nextOffset)

/-- The record is written with its offset. -/
def store (b : Bytes) (offset : Int) : Call World Unit := do
  let ms ← lift (MessageSet.putOffset b offset)
  let _ ← Segment.write (← getLog).active ms

/-- The index gets its entry. -/
def enter (position offset : Int) : Call World Unit := do
  let t ← activeSegment
  let index ← onDisk (t.index.writeEntry ⟨offset, position⟩)
  setSeg (← getLog).active { t with index }

theorem append_steps (hash : Bytes → UInt64) (b : Bytes) :
    append hash b = (do
      roll hash
      appendActive b) := by
  unfold append roll
  rw [bind_assoc]
  congr 1
  funext full
  cases full with
  | true => rfl
  | false => rfl

theorem appendActive_steps (b : Bytes) :
    appendActive b = (do
      let (position, offset) ← reserve
      store b offset
      enter position offset
      return offset) := by
  unfold appendActive reserve store enter
  simp only [bind_assoc, pure_bind]

end Jocko.Commitlog
