import Jocko.Commitlog.Reader
import Jocko.Commitlog.SegmentOps

namespace Jocko.Commitlog

open Go World List

/-- The bytes behind a place in a row of files. -/
def remaining (contents : List Bytes) (idx pos : Nat) : Bytes :=
  match contents.drop idx with
  | [] => []
  | content :: later => content.drop pos ++ later.flatten

section

variable {contents : List Bytes} {content : Bytes} {idx pos : Nat}

theorem remaining_end (outside : contents.length ≤ idx) : remaining contents idx pos = [] := by
  simp only [remaining, drop_of_length_le outside]

theorem remaining_file (here : contents[idx]? = some content) :
    remaining contents idx pos = content.drop pos ++ remaining contents (idx + 1) 0 := by
  obtain ⟨inside, same⟩ := List.getElem?_eq_some_iff.mp here
  have split : contents.drop idx = content :: contents.drop (idx + 1) := by
    rw [← same]
    exact drop_eq_getElem_cons inside
  simp only [remaining, split]
  cases contents.drop (idx + 1) with
  | nil => rfl
  | cons first later => simp

theorem remaining_add (here : contents[idx]? = some content) {count : Nat}
    (within : pos + count ≤ content.length) :
    remaining contents idx (pos + count) = (remaining contents idx pos).drop count := by
  rw [remaining_file here, remaining_file here, drop_append_of_le_length, drop_drop]
  rw [length_drop]
  omega

end

/-- The log file of a segment object. -/
def World.content (w : World) (r : Nat) : Bytes :=
  match w.segs[r]? with
  | some s => (w.disk.file s.log.inode).content
  | none => []

/-- The log files of the segments, in order. -/
def World.contents (w : World) : List Bytes := w.log.segments.map w.content

/-- A segment object whose log file is open. -/
def World.Live (w : World) (r : Nat) : Prop := ∃ s, w.segs[r]? = some s ∧ s.log.closed = false

theorem Segment.readAt_live {w : World} {r : Nat} (quiet : w.disk.script = []) (live : w.Live r)
    (count pos : Nat) :
    (Segment.readAt r count pos).run w = .ok (((w.content r).drop pos).take count,
      if (((w.content r).drop pos).take count).length < count then some Err.eof else none) w := by
  obtain ⟨s, object, isOpen⟩ := live
  have content : w.content r = (w.disk.file s.log.inode).content := by
    simp only [World.content, object]
  have read := OsFile.readAt_live quiet isOpen count pos
  rw [File.read_eq, ← content] at read
  unfold Segment.readAt
  rw [bind_ok (seg_ok object)]
  exact onDisk_ok read

namespace Reader

variable {w : World} {segment : Nat} (segments : List Nat)

section

variable (quiet : w.disk.script = []) (live : w.Live segment)
include quiet live

theorem loop_full (fuel idx pos : Nat) :
    (Reader.loop segments (fuel + 1) ⟨idx, pos⟩ segment 0).run w =
      .ok (⟨idx, pos⟩, [], none) w := by
  have read := attempt_ok (Segment.readAt_live quiet live 0 pos)
  simp only [take_zero, length_nil, Nat.lt_irrefl, ↓reduceIte] at read
  rw [Reader.loop, bind_ok read]
  simp

theorem loop_fill (fuel idx pos room : Nat)
    (enough : room ≤ ((w.content segment).drop pos).length) :
    (Reader.loop segments (fuel + 2) ⟨idx, pos⟩ segment room).run w =
      .ok (⟨idx, (pos + room : Nat)⟩, ((w.content segment).drop pos).take room, none) w := by
  by_cases none : room = 0
  · subst none
    exact loop_full segments quiet live (fuel + 1) idx pos
  · have length : (((w.content segment).drop pos).take room).length = room := by
      rw [length_take]
      omega
    have some : ((w.content segment).drop pos).take room ≠ [] := by
      intro empty
      rw [empty] at length
      exact none length.symm
    have read := attempt_ok (Segment.readAt_live quiet live room pos)
    simp only [length, Nat.lt_irrefl, ↓reduceIte] at read
    have next := loop_full segments quiet live fuel idx (pos + room)
    rw [Reader.loop, bind_ok read]
    simp only [length, some, ne_eq, not_false_eq_true, and_self, ↓reduceIte, Nat.sub_self]
    rw [bind_ok (by simpa using next)]
    simp

theorem loop_short (fuel idx pos room : Nat)
    (short : ((w.content segment).drop pos).length < room) :
    (Reader.loop segments (fuel + 1) ⟨idx, pos⟩ segment room).run w =
      (if segments.length ≤ idx + 1 then
        .ok (⟨idx, (pos + ((w.content segment).drop pos).length : Nat)⟩,
          (w.content segment).drop pos, some .eof) w
      else (do
        let next ← segmentAt segments (idx + 1)
        let (r, q, err) ← Reader.loop segments fuel ⟨idx + 1, 0⟩ next
          (room - ((w.content segment).drop pos).length)
        return (r, (w.content segment).drop pos ++ q, err) :
          Call World (Reader × Bytes × Option Err)).run w) := by
  have whole : ((w.content segment).drop pos).take room = (w.content segment).drop pos :=
    take_of_length_le (Nat.le_of_lt short)
  have read := attempt_ok (Segment.readAt_live quiet live room pos)
  simp only [whole, short, ↓reduceIte] at read
  have space : ¬ room - ((w.content segment).drop pos).length = 0 := by omega
  rw [Reader.loop, bind_ok read]
  simp only [reduceCtorEq, and_false, space, ne_eq, not_true_eq_false, or_self, ↓reduceIte]
  split
  · simp
  · rfl

end

/-- The loop delivers what lies before the reader, as far as the buffer goes, and the end
of the file exactly when the buffer was not filled. -/
theorem loop_run (quiet : w.disk.script = []) (live : ∀ r ∈ segments, w.Live r)
    (fuel idx pos room : Nat) (here : segments[idx]? = some segment)
    (enough : segments.length < fuel + idx) (inside : pos ≤ (w.content segment).length) :
    let stream := remaining (segments.map w.content) idx pos
    ∃ idx' pos' segment' : Nat,
      (Reader.loop segments fuel ⟨idx, pos⟩ segment room).run w =
        .ok (⟨idx', pos'⟩, stream.take room, if stream.length < room then some .eof else none) w ∧
      segments[idx']? = some segment' ∧ pos' ≤ (w.content segment').length ∧
      remaining (segments.map w.content) idx' pos' = stream.drop room := by
  induction fuel generalizing idx pos room segment with
  | zero =>
    have bound := (List.getElem?_eq_some_iff.mp here).1
    omega
  | succ fuel ih =>
    intro stream
    have bound := (List.getElem?_eq_some_iff.mp here).1
    have alive := live segment (List.mem_of_getElem? here)
    have file : (segments.map w.content)[idx]? = some (w.content segment) := by
      rw [getElem?_map, here]
      rfl
    have split : stream = (w.content segment).drop pos ++
        remaining (segments.map w.content) (idx + 1) 0 := remaining_file file
    have length := congrArg length split
    rw [length_append, length_drop] at length
    by_cases fits : room ≤ ((w.content segment).drop pos).length
    · -- The segment's file fills the buffer.
      obtain ⟨fuel, rfl⟩ := Nat.exists_eq_succ_of_ne_zero (by omega : fuel ≠ 0)
      have filled := loop_fill segments quiet alive fuel idx pos room fits
      rw [length_drop] at fits
      refine ⟨idx, pos + room, segment, ?_, here, by omega, remaining_add file (by omega)⟩
      rw [filled, split, take_append_of_le_length (by rw [length_drop]; omega)]
      have whole : ¬ stream.length < room := by omega
      simp only [← split, whole, ↓reduceIte]
    · have short : ((w.content segment).drop pos).length < room := Nat.not_le.mp fits
      rw [loop_short segments quiet alive fuel idx pos room short]
      by_cases last : segments.length ≤ idx + 1
      · -- There is no segment behind this one.
        have nothing : remaining (segments.map w.content) (idx + 1) 0 = [] :=
          remaining_end (by simpa using last)
        rw [nothing, append_nil] at split
        rw [← split] at short ⊢
        refine ⟨idx, pos + stream.length, segment, ?_, here, ?_, ?_⟩
        · rw [if_pos last, if_pos short, take_of_length_le (Nat.le_of_lt short)]
        · rw [split, length_drop]
          omega
        · rw [remaining_file file, nothing, split]
          simp
          omega
      · obtain ⟨next, follows⟩ : ∃ next, segments[idx + 1]? = some next :=
          ⟨_, getElem?_eq_getElem (by omega)⟩
        have reached : (segmentAt segments (idx + 1)).run w = .ok next w := by
          simp only [segmentAt, follows]
        obtain ⟨idx', pos', segment', ran, place, within, rest⟩ := ih (idx + 1) 0
          (room - ((w.content segment).drop pos).length) follows (by omega) (Nat.zero_le _)
        have ends : stream.length < room ↔ (remaining (segments.map w.content) (idx + 1) 0).length <
            room - ((w.content segment).drop pos).length := by
          rw [length_drop] at short ⊢
          omega
        refine ⟨idx', pos', segment', ?_, place, within, ?_⟩
        · rw [if_neg last, bind_ok reached, bind_ok (by simpa using ran), run_pure]
          simp only [ends]
          rw [split, take_append, take_of_length_le (Nat.le_of_lt short)]
          simp only [length_drop]
        · rw [rest, split, drop_append, drop_of_length_le (Nat.le_of_lt short),
            nil_append]

/-- `Read` delivers what lies before the reader, as far as the buffer goes, and the end of
the file exactly when the buffer was not filled. -/
theorem read_run {idx pos : Nat} (quiet : w.disk.script = [])
    (live : ∀ r ∈ w.log.segments, w.Live r) (here : w.log.segments[idx]? = some segment)
    (inside : pos ≤ (w.content segment).length) (length : Nat) :
    let stream := remaining w.contents idx pos
    ∃ idx' pos' segment' : Nat,
      (Reader.read ⟨idx, pos⟩ length).run w =
        .ok (⟨idx', pos'⟩, stream.take length,
          if stream.length < length then some .eof else none) w ∧
      w.log.segments[idx']? = some segment' ∧ pos' ≤ (w.content segment').length ∧
      remaining w.contents idx' pos' = stream.drop length := by
  have reached : (segmentAt w.log.segments idx).run w = .ok segment w := by
    simp only [segmentAt, here]
  unfold Reader.read
  rw [bind_ok (getLog_run w), bind_ok reached]
  exact loop_run w.log.segments quiet live _ idx pos length here (by omega) inside

end Reader

end Jocko.Commitlog
