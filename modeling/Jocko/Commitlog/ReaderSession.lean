import Jocko.Commitlog.LogInvariant
import Jocko.Commitlog.Stream

namespace Jocko.Commitlog

open Go World List

/-- The files become longer at the end only: whatever lies before a reader is followed by
the same bytes, wherever in the old files the reader is. -/
def Grows (more : Bytes) (old new : List Bytes) : Prop :=
  ∀ idx pos content, old[idx]? = some content → pos ≤ content.length →
    remaining new idx pos = remaining old idx pos ++ more ∧
      ∃ content', new[idx]? = some content' ∧ pos ≤ content'.length

theorem grows_file (old : List Bytes) (p : Bytes) : Grows p old (old ++ [p]) := by
  intro idx pos content here inside
  have bound : idx < old.length := (List.getElem?_eq_some_iff.mp here).1
  refine ⟨?_, content, ?_, inside⟩
  · have first : (old ++ [p]).drop idx = old.drop idx ++ [p] :=
      drop_append_of_le_length (Nat.le_of_lt bound)
    simp only [remaining, first]
    cases rest : old.drop idx with
    | nil =>
      rw [drop_eq_nil_iff] at rest
      omega
    | cons content later => simp
  · rw [getElem?_append_left bound]
    exact here

theorem grows_last (old : List Bytes) (content p : Bytes) :
    Grows p (old ++ [content]) (old ++ [content ++ p]) := by
  intro idx pos found here inside
  by_cases last : idx < old.length
  · rw [getElem?_append_left last] at here
    refine ⟨?_, found, by rw [getElem?_append_left last]; exact here, inside⟩
    simp only [remaining, drop_append_of_le_length (Nat.le_of_lt last)]
    cases rest : old.drop idx with
    | nil =>
      rw [drop_eq_nil_iff] at rest
      omega
    | cons content later => simp
  · have bound := (List.getElem?_eq_some_iff.mp here).1
    simp only [List.length_append, List.length_singleton] at bound
    obtain rfl : idx = old.length := by omega
    simp only [getElem?_append_right (Nat.le_refl _), Nat.sub_self,
      getElem?_cons_zero, Option.some.injEq] at here
    subst here
    refine ⟨?_, content ++ p, ?_, by rw [length_append]; omega⟩
    · simp [remaining, drop_append_of_le_length inside]
    · simp

/-- The first record of a log whose segments hold nothing is in two files of the list. -/
theorem grows_twice (p : Bytes) : Grows (p ++ p) [[]] [p, p] := by
  intro idx pos content here inside
  have bound := (List.getElem?_eq_some_iff.mp here).1
  obtain rfl : idx = 0 := by simpa using bound
  obtain rfl : [] = content := by simpa using here
  obtain rfl : pos = 0 := by simpa using inside
  exact ⟨by simp [remaining], p, rfl, Nat.zero_le _⟩

/-- The files of a log, that of a phantom included. -/
def Ledger.contents (l : Ledger) : List Bytes :=
  ((if l.phantom then l.chunks.take 1 else []) ++ l.chunks).map fun c => c.recs.flatten

variable {opts : Options} {b : Bytes}

/-- An append that drops nothing only adds to the files: the new record, which the first
append to a log whose segments hold nothing adds twice. -/
theorem Ledger.Valid.grows {l l' : Ledger} (valid : l.Valid opts)
    (kept : opts.maxSegmentBytes ≤ l.active.size →
      retained opts.maxLogBytes l.chunks = l.chunks.length) (appended : l.append opts b = some l') :
    ∃ more, Grows more l.contents l'.contents ∧
      (0 < opts.maxSegmentBytes → more = MessageSet.stamp l.next b) := by
  rcases append_cases (fun _ => valid.blank) appended with
    ⟨space, rfl⟩ | ⟨size, rfl, rfl⟩ | ⟨full, -, -, rfl⟩
  · have solid : l.phantom = false := by
      cases haunted : l.phantom with
      | false => rfl
      | true =>
        have size := (valid.phantom haunted).1
        omega
    refine ⟨MessageSet.stamp l.next b, ?_, fun _ => rfl⟩
    simp only [contents, chunks, solid, Bool.false_eq_true, ↓reduceIte, nil_append,
      map_append, map_cons, map_nil, Chunk.recs_push, flatten_append,
      flatten_cons, flatten_nil, append_nil]
    exact grows_last _ _ _
  · refine ⟨_, grows_twice _, fun positive => ?_⟩
    omega
  · have first : (l.chunks ++ [Chunk.push ⟨l.next, []⟩ b]).take 1 = l.chunks.take 1 := by
      rw [take_append_of_le_length]
      simp [chunks]
    have behind : Ledger.chunks ⟨l.phantom, l.chunks, Chunk.push ⟨l.next, []⟩ b⟩ =
        l.chunks ++ [Chunk.push ⟨l.next, []⟩ b] := rfl
    have split : Ledger.contents ⟨l.phantom, l.chunks, Chunk.push ⟨l.next, []⟩ b⟩ =
        l.contents ++ [(Chunk.push ⟨l.next, []⟩ b).recs.flatten] := by
      simp only [contents, behind, first]
      rw [← append_assoc, map_append]
      rfl
    rw [retain_all (kept full), split]
    refine ⟨_, grows_file _ _, fun _ => ?_⟩
    simp [Chunk.next]

variable {w : World}

theorem View.Open.content {v : View} (opened : v.Open opts w) :
    w.content v.ref = v.chunk.recs.flatten := by
  obtain ⟨c, object⟩ := opened.object
  simp only [World.content, object, View.logInode_segment, opened.stored, File.content_plain]

theorem View.Open.live {v : View} (opened : v.Open opts w) : w.Live v.ref := by
  obtain ⟨c, object⟩ := opened.object
  exact ⟨_, object, rfl⟩

namespace LogRep

variable {opts : Options} {cleaner : Cleaner} {ghost : Option Nat} {older : List View}
  {active : View} {w : World}

theorem contents (rep : LogRep opts cleaner ghost older active w) :
    w.contents = (ledger ghost older active).contents := by
  have chunks := chunks_ledger ghost older active
  have files : ((older ++ [active]).map View.ref).map w.content =
      ((older ++ [active]).map View.chunk).map fun c => c.recs.flatten := by
    rw [map_map, map_map]
    apply map_congr_left
    intro v inside
    exact (rep.files.opened v inside).content
  unfold World.contents Ledger.contents
  rw [rep.segments, chunks, map_append, files,
    map_append (f := fun c : Chunk => c.recs.flatten)]
  congr 1
  cases ghost with
  | none => rfl
  | some g =>
    obtain ⟨u, vs, shape, ⟨-, c, object⟩, -⟩ := rep.first_phantom
    have opened := rep.files.opened u (by rw [shape]; exact mem_cons_self ..)
    have content : w.content g = u.chunk.recs.flatten := by
      simp only [World.content, object, Segment.opened, opened.stored, File.content_plain]
    rw [shape]
    simp [ledger, content]

theorem live (rep : LogRep opts cleaner ghost older active w) : ∀ r ∈ w.log.segments, w.Live r := by
  intro r present
  rw [rep.segments] at present
  rcases mem_append.mp present with phantom | real
  · cases ghost with
    | none => cases phantom
    | some g =>
      obtain rfl : r = g := by simpa using phantom
      obtain ⟨u, vs, -, ⟨-, c, object⟩, -⟩ := rep.first_phantom
      exact ⟨_, object, rfl⟩
  · obtain ⟨v, inside, rfl⟩ := mem_map.mp real
    exact (rep.files.opened v inside).live

end LogRep

variable {hash : Bytes → UInt64}

/-- The calls that are interleaved: `Append` of some bytes and `Read` into a buffer of some
length. -/
inductive Op where
  | append (b : Bytes)
  | read (length : Nat)

/-- A sequence of calls on a log and one of its readers: where the reader ends and all the
bytes it has returned. A `Read` that meets the end of the file may be followed by others. -/
def session (hash : Bytes → UInt64) : List Op → Reader → Bytes → Call World (Reader × Bytes)
  | [], reader, got => return (reader, got)
  | .append b :: ops, reader, got => do
    let _ ← append hash b
    session hash ops reader got
  | .read length :: ops, reader, got => do
    let (reader, p, _) ← reader.read length
    session hash ops reader (got ++ p)

/-- A byte of the files, or their end. -/
def Place (w : World) (idx pos : Nat) : Prop :=
  ∃ content, w.contents[idx]? = some content ∧ pos ≤ content.length

/-- A reader that started at a place of a log without retention: what it has returned and
what lies before it now make up what lies behind its start. -/
structure Following (opts : Options) (idx pos : Nat) (w : World) (reader : Reader) (got : Bytes) :
    Prop where
  rep : ∃ l, Rep opts (.delete opts.maxLogBytes) l w
  start : Place w idx pos
  place : ∃ idx' pos' : Nat, reader = ⟨idx', pos'⟩ ∧ Place w idx' pos' ∧
    remaining w.contents idx pos = got ++ remaining w.contents idx' pos'

theorem Place.segment {idx pos : Nat} (place : Place w idx pos) :
    ∃ segment, w.log.segments[idx]? = some segment ∧ pos ≤ (w.content segment).length := by
  obtain ⟨content, here, inside⟩ := place
  rw [World.contents, getElem?_map] at here
  obtain ⟨segment, listed, rfl⟩ := Option.map_eq_some_iff.mp here
  exact ⟨segment, listed, inside⟩

theorem place_of_segment {w : World} {idx pos segment : Nat}
    (listed : w.log.segments[idx]? = some segment) (inside : pos ≤ (w.content segment).length) :
    Place w idx pos := by
  refine ⟨w.content segment, ?_, inside⟩
  rw [World.contents, getElem?_map, listed]
  rfl

namespace Following

variable {opts : Options} {idx pos : Nat} {w w' : World} {reader : Reader} {got : Bytes}

/-- One `Read`: it returns the next bytes, all that the buffer takes unless it reports the
end of the file, and that only behind the last byte. -/
theorem read (following : Following opts idx pos w reader got) (length : Nat) :
    ∃ reader' p err, (reader.read length).run w = .ok (reader', p, err) w ∧
      Following opts idx pos w reader' (got ++ p) ∧ (err = none ∧ p.length = length ∨
        err = some .eof ∧ got ++ p = remaining w.contents idx pos) := by
  obtain ⟨l, rep⟩ := following.rep
  obtain ⟨-, ghost, older, active, rep', -⟩ := id rep
  obtain ⟨idx', pos', rfl, place, stream⟩ := following.place
  obtain ⟨segment, listed, inside⟩ := place.segment
  obtain ⟨idx'', pos'', segment'', ran, listed', inside', rest⟩ :=
    Reader.read_run rep'.files.quiet rep'.live listed inside length
  refine ⟨_, _, _, ran, ⟨⟨l, rep⟩, following.start, idx'', pos'', rfl,
    place_of_segment listed' inside', ?_⟩, ?_⟩
  · rw [rest, append_assoc, take_append_drop]
    exact stream
  · by_cases short : (remaining w.contents idx' pos').length < length
    · right
      rw [if_pos short, take_of_length_le (Nat.le_of_lt short)]
      exact ⟨rfl, stream.symm⟩
    · left
      rw [if_neg short, length_take]
      exact ⟨rfl, by omega⟩

theorem append {offset : Int}
    (following : Following opts idx pos w reader got) (unbounded : opts.maxLogBytes = -1)
    (returned : (append hash b).run w = .ok offset w') : Following opts idx pos w' reader got := by
  obtain ⟨l, rep⟩ := following.rep
  rcases append_refines hash rep (long_of_append returned) with
    ⟨l', w'', appended, ran, rep'⟩ | ⟨-, why, w'', failed⟩
  · obtain rfl : w'' = w' := (Result.ok.inj (ran.symm.trans returned)).2
    obtain ⟨more, grown, -⟩ := rep.1.grows
      (fun _ => by simp only [retained, unbounded, ↓reduceIte]) appended
    obtain ⟨-, ghost, older, active, before, rfl⟩ := rep
    obtain ⟨valid', ghost', older', active', after, rfl⟩ := rep'
    rw [← before.contents, ← after.contents] at grown
    obtain ⟨content, here, inside⟩ := following.start
    obtain ⟨idx', pos', rfl, ⟨content', here', inside'⟩, stream⟩ := following.place
    obtain ⟨longer, start⟩ := grown idx pos content here inside
    obtain ⟨longer', place⟩ := grown idx' pos' content' here' inside'
    refine ⟨⟨_, valid', ghost', older', active', after, rfl⟩, start, idx', pos', rfl, place, ?_⟩
    rw [longer, longer', stream, append_assoc]
  · rw [failed] at returned
    cases returned

theorem session {ops : List Op} {reader' : Reader} {got' : Bytes}
    (following : Following opts idx pos w reader got) (unbounded : opts.maxLogBytes = -1)
    (played : (session hash ops reader got).run w = .ok (reader', got') w') :
    Following opts idx pos w' reader' got' := by
  induction ops generalizing w reader got with
  | nil =>
    cases played
    exact following
  | cons op ops ih =>
    cases op with
    | append b =>
      obtain ⟨offset, w₁, first, rest⟩ := bind_eq_ok played
      exact ih (following.append unbounded first) rest
    | read length =>
      obtain ⟨⟨reader₁, p, err⟩, w₁, first, rest⟩ := bind_eq_ok played
      obtain ⟨reader₂, p₂, err₂, ran, next, -⟩ := following.read length
      rw [ran] at first
      cases first
      exact ih next rest

end Following

/-- A reader of a log without retention that starts at any place of its files, the start of
a record among them, delivers the files' bytes from there on, whatever calls of `Append` and
`Read` came before: the next `Read` fills its buffer unless it reports the end of the file,
which it does only when all bytes have been delivered. -/
theorem session_delivers {opts : Options} {w w₁ w₂ : World} {bs : List Bytes} {offsets : List Int}
    {ops : List Op} {idx pos : Nat} {reader : Reader} {got : Bytes} (hash : Bytes → UInt64)
    (named : opts.path ≠ "") (policy : opts.resolved.cleanupPolicy = deleteCleanupPolicy)
    (unbounded : opts.maxLogBytes = -1) (quiet : w.disk.script = [])
    (empty : w.disk.listing opts.path = [])
    (ran : (runAppends hash opts bs).run w = .ok offsets w₁) (start : Place w₁ idx pos)
    (played : (session hash ops ⟨idx, pos⟩ []).run w₁ = .ok (reader, got) w₂) (length : Nat) :
    ∃ reader' p err, (reader.read length).run w₂ = .ok (reader', p, err) w₂ ∧
      got ++ p <+: remaining w₂.contents idx pos ∧
      (err = none ∧ p.length = length ∨
        err = some .eof ∧ got ++ p = remaining w₂.contents idx pos) := by
  obtain ⟨l, -, rep⟩ := runAppends_rep named policy quiet empty ran
  have begun : Following opts.resolved idx pos w₁ ⟨idx, pos⟩ [] :=
    ⟨⟨l, rep⟩, start, idx, pos, rfl, start, rfl⟩
  have following := begun.session (by simpa using unbounded) played
  obtain ⟨reader', p, err, read, next, ends⟩ := following.read length
  obtain ⟨idx', pos', -, -, stream⟩ := next.place
  exact ⟨reader', p, err, read, ⟨_, stream.symm⟩, ends⟩

/-- A reader at the second record of two meets a split between its reads. -/
theorem session_delivers_across_split :
    ∃ w₁ w₂ reader got,
      (runAppends (fun _ => 0) ⟨"log", 20, -1, "delete"⟩ [plainSet [1], plainSet [2, 3]]).run
        World.idle = .ok [0, 1] w₁ ∧
      (session (fun _ => 0) [.read 5, .append (plainSet [4]), .read 30, .append (plainSet [])]
        ⟨0, 13⟩ []).run w₁ = .ok (reader, got) w₂ ∧
      ∃ reader' p err, (reader.read 7).run w₂ = .ok (reader', p, err) w₂ ∧
        got ++ p <+: remaining w₂.contents 0 13 ∧
        (err = none ∧ p.length = 7 ∨
          err = some .eof ∧ got ++ p = remaining w₂.contents 0 13) := by
  obtain ⟨w₁, w₂, ran, start, played⟩ : ∃ w₁ w₂, (runAppends (fun _ => 0)
      ⟨"log", 20, -1, "delete"⟩ [plainSet [1], plainSet [2, 3]]).run World.idle = .ok [0, 1] w₁ ∧
      Place w₁ 0 13 ∧ (session (fun _ => 0) [.read 5, .append (plainSet [4]), .read 30,
        .append (plainSet [])] ⟨0, (13 : Nat)⟩ []).run w₁ = .ok (⟨1, 13⟩, [0, 0, 0, 0, 0, 0, 0, 1, 0,
          0, 0, 2, 2, 3, 0, 0, 0, 0, 0, 0, 0, 2, 0, 0, 0, 1, 4]) w₂ :=
    ⟨_, _, Result.eq_ok_of_returned (by decide +kernel),
      ⟨plainSet [1] ++ MessageSet.stamp 1 (plainSet [2, 3]), by decide +kernel, by decide +kernel⟩,
      Result.eq_ok_of_returned (by decide +kernel)⟩
  exact ⟨w₁, w₂, _, _, ran, played, session_delivers (fun _ => 0) (by decide) rfl rfl rfl rfl ran
    start played 7⟩

end Jocko.Commitlog
