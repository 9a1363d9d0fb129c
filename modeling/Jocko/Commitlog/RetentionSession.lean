import Jocko.Commitlog.ReaderSession
import Mathlib.Algebra.Order.BigOperators.Group.List

namespace Jocko.Commitlog

open Go World List

/-- The sizes of the listed segments together. -/
def World.logBytes (w : World) : Int :=
  (w.log.segments.map fun r => (w.segs[r]?.map Segment.position).getD 0).sum

/-- The next `Append` leaves the reader's place alone: it goes into the active segment, or
a split has nothing to drop, or the reader is still at the very start of the list. The
index of a segment that takes the record has a slot left. -/
def World.spares (w : World) (reader : Reader) : Bool :=
  match w.segs[w.log.active]? with
  | none => false
  | some s =>
    if s.isFull then decide (reader = ⟨0, 0⟩ ∨ w.logBytes ≤ w.log.opts.maxLogBytes)
    else decide ((s.nextOffset - s.baseOffset + 1) * entryWidth ≤ indexBytes)

/-- Every `Append` of a session leaves the reader's place alone. -/
def spared (hash : Bytes → UInt64) : List Op → Reader → World → Bool
  | [], _, _ => true
  | .append b :: ops, reader, w =>
    decide (8 ≤ b.length) && w.spares reader &&
      match (append hash b).run w with
      | .ok _ w' => spared hash ops reader w'
      | .error _ _ => true
  | .read length :: ops, reader, w =>
    match (reader.read length).run w with
    | .ok (reader', _, _) w' => spared hash ops reader' w'
    | .error _ _ => true

/-- The sets that a session appends. -/
def appended : List Op → List Bytes
  | [] => []
  | .append b :: ops => b :: appended ops
  | .read _ :: ops => appended ops

/-- The bytes are whole records in increasing order of their offsets, the last one possibly
cut, and a record left out between two others is in none of the listed segments any more. -/
def Intact (w : World) (rs : List Bytes) (got : Bytes) : Prop :=
  ∃ (ks : List Nat) (cut : Bytes),
    got ++ cut = (ks.map fun k => rs.getD k []).flatten ∧ (ks = [] → cut = []) ∧
    (∀ k ∈ ks.getLast?, cut.length < (rs.getD k []).length) ∧
    (∀ k ∈ ks, k < rs.length) ∧ ks.Pairwise (· < ·) ∧
    ∀ o : Nat, o ∉ ks → (∃ k ∈ ks, k < o) → (∃ k ∈ ks, o < k) →
      ∀ r ∈ w.log.segments, ∀ s, w.segs[r]? = some s → (o : Int) < s.baseOffset

/-- Before the reader's place lie exactly the records from an offset on. -/
structure Stands (w : World) (rs : List Bytes) (idx pos a : Nat) : Prop where
  bound : a ≤ rs.length
  place : Place w idx pos
  stream : remaining w.contents idx pos = (rs.drop a).flatten

theorem whole_of_prefix {xs : List Bytes} {p : Bytes} (here : p <+: xs.flatten) :
    ∃ n cut, n ≤ xs.length ∧ p ++ cut = (xs.take n).flatten ∧ (n = 0 → cut = []) ∧
      ∀ x ∈ (xs.take n).getLast?, cut.length < x.length := by
  induction xs generalizing p with
  | nil =>
    obtain rfl : p = [] := by simpa using here
    exact ⟨0, [], Nat.le_refl _, rfl, fun _ => rfl, by simp⟩
  | cons x xs ih =>
    by_cases none : p = []
    · subst none
      exact ⟨0, [], Nat.zero_le _, rfl, fun _ => rfl, by simp⟩
    · have some : 0 < p.length := length_pos_iff.mpr none
      rw [flatten_cons] at here
      by_cases short : p.length ≤ x.length
      · have within : p <+: x := prefix_of_prefix_length_le here (prefix_append _ _) short
        obtain ⟨cut, rfl⟩ := within
        refine ⟨1, cut, by simp, by simp, by simp, ?_⟩
        intro y last
        obtain rfl : p ++ cut = y := by simpa using last
        simp only [length_append]
        omega
      · obtain ⟨q, rfl⟩ : x <+: p :=
          prefix_of_prefix_length_le (prefix_append _ _) here (by omega)
        obtain ⟨n, cut, bound, whole, -, last⟩ := ih ((prefix_append_right_inj x).mp here)
        have later : xs.take n ≠ [] := by
          intro nothing
          rw [nothing] at whole
          have q : q = [] := (append_eq_nil_iff.mp whole).1
          rw [q, append_nil] at short
          omega
        refine ⟨n + 1, cut, by simpa using bound, by simp [whole], by simp, ?_⟩
        intro y inside
        rw [take_succ_cons, getLast?_cons] at inside
        apply last
        have found := getLast?_eq_some_getLast later
        simpa [found] using inside

/-- What has been read of the records from an offset on is intact. -/
theorem intact_of_prefix {w : World} {rs : List Bytes} {got : Bytes} {a : Nat}
    (here : got <+: (rs.drop a).flatten) : Intact w rs got := by
  obtain ⟨n, cut, bound, whole, none, last⟩ := whole_of_prefix here
  rw [length_drop] at bound
  have records : (range' a n).map (fun k => rs.getD k []) = (rs.drop a).take n := by
    apply ext_getElem
    · simp only [length_map, length_range', length_take, length_drop]
      omega
    · intro i low high
      simp only [length_map, length_range'] at low
      have inside : a + i < rs.length := by omega
      simp [getD_eq_getElem?_getD, inside]
  refine ⟨range' a n, cut, by rw [records]; exact whole, ?_, ?_, ?_, pairwise_lt_range', ?_⟩
  · intro empty
    exact none (range'_eq_nil_iff.mp empty)
  · intro k final
    apply last
    rw [← records, getLast?_map, final]
    rfl
  · intro k inside
    have := mem_range'_1.mp inside
    omega
  · rintro o outside ⟨k, left, below⟩ ⟨k', right, above⟩
    rw [mem_range'_1] at left right outside
    omega

/-- Runs that follow each other to the end of a history are its records from the first
offset on. -/
theorem recs_of_chain {rs : List Bytes} {cs : List Chunk} {first last : Chunk}
    (chained : cs.IsChain fun c c' => c.next = c'.base)
    (within : ∀ c ∈ cs, c.recs <+: rs.drop c.base) (head : cs.head? = some first)
    (tail : cs.getLast? = some last) (ends : last.next = rs.length) :
    (cs.map Chunk.recs).flatten = rs.drop first.base := by
  induction cs generalizing first with
  | nil => cases head
  | cons c cs ih =>
    obtain rfl : c = first := Option.some.inj head
    have here := within c (mem_cons_self ..)
    cases cs with
    | nil =>
      obtain rfl : c = last := Option.some.inj tail
      simp only [map_cons, map_nil, flatten_cons, flatten_nil,
        append_nil]
      apply here.eq_of_length
      simp only [Chunk.next] at ends
      rw [length_drop]
      omega
    | cons c' cs =>
      rw [isChain_cons_cons] at chained
      have later := ih chained.2 (fun c inside => within c (mem_cons_of_mem _ inside)) rfl
        (by simpa using tail)
      obtain ⟨more, whole⟩ := here
      rw [map_cons, flatten_cons, later, ← chained.1, Chunk.next, ← drop_drop,
        ← whole, drop_left]

theorem remaining_start (contents : List Bytes) : remaining contents 0 0 = contents.flatten := by
  cases contents with
  | nil => rfl
  | cons content later => rfl

theorem length_remaining_le (contents : List Bytes) (idx pos : Nat) :
    (remaining contents idx pos).length ≤ contents.flatten.length := by
  have split : contents.flatten = (contents.take idx).flatten ++ (contents.drop idx).flatten := by
    rw [← flatten_append, take_append_drop]
  rw [split, remaining]
  cases contents.drop idx with
  | nil => simp
  | cons content later =>
    simp only [flatten_cons, length_append, length_drop]
    omega

namespace Ledger

variable {opts : Options} {l l' : Ledger} {rs : List Bytes}

theorem Valid.solid (valid : l.Valid opts) (positive : 0 < opts.maxSegmentBytes) :
    l.phantom = false := by
  cases haunted : l.phantom with
  | false => rfl
  | true =>
    have := (valid.phantom haunted).1
    omega

/-- A reader at the very start has the records of the oldest segment and all later ones
before it. -/
theorem Records.from_start (records : l.Records rs) (valid : l.Valid opts)
    (positive : 0 < opts.maxSegmentBytes) :
    ∃ a, a ≤ rs.length ∧ remaining l.contents 0 0 = (rs.drop a).flatten := by
  obtain ⟨first, later, shape⟩ := exists_cons_of_ne_nil (l := l.chunks) (by simp [chunks])
  have head : l.chunks.head? = some first := by rw [shape]; rfl
  have inside : first ∈ l.chunks := mem_of_head? head
  have below := valid.linked.next_le inside
  have stored := recs_of_chain valid.chained records.within head
    (by simp [chunks] : l.chunks.getLast? = some l.active) records.next
  refine ⟨first.base, ?_, ?_⟩
  · rw [← records.next]
    simp only [Chunk.next] at below
    omega
  · rw [remaining_start, contents, valid.solid positive, ← stored]
    simp [flatten_flatten, Function.comp_def]

end Ledger

theorem keepCount_all {retention total : Int} {sizes : List Nat}
    (fits : total + (sizes.map fun size : Nat => (size : Int)).sum ≤ retention) :
    keepCount retention total sizes = sizes.length := by
  induction sizes generalizing total with
  | nil => rfl
  | cons size sizes ih =>
    rw [map_cons, sum_cons] at fits
    have rest : 0 ≤ (sizes.map fun size : Nat => (size : Int)).sum := by
      apply sum_nonneg
      intro x inside
      obtain ⟨n, -, rfl⟩ := mem_map.mp inside
      exact Int.natCast_nonneg n
    have below : ¬ retention < total + size := by omega
    rw [keepCount, if_neg below, ih (by omega), length_cons]

theorem retained_all {retention : Int} {cs : List Chunk}
    (fits : (cs.map fun c => (c.size : Int)).sum ≤ retention) :
    retained retention cs = cs.length := by
  unfold retained
  split
  · rfl
  · rw [keepCount_all]
    · simp
    · have sum := ((reverse_perm cs).map fun c => (c.size : Int)).sum_eq
      rw [map_map, Int.zero_add]
      exact sum.trans_le fits

namespace LogRep

variable {opts : Options} {cleaner : Cleaner} {older : List View} {active : View} {w : World}

theorem place_start {ghost : Option Nat} (rep : LogRep opts cleaner ghost older active w) :
    Place w 0 0 := by
  obtain ⟨r, rs, shape⟩ := exists_cons_of_ne_nil (l := w.log.segments)
    (by rw [rep.segments]; simp)
  refine @place_of_segment w 0 0 r ?_ (Nat.zero_le _)
  rw [shape]
  rfl

theorem logBytes (rep : LogRep opts cleaner none older active w) :
    w.logBytes = ((ledger none older active).chunks.map fun c => (c.size : Int)).sum := by
  have chunks := chunks_ledger none older active
  rw [World.logBytes, rep.segments, chunks]
  simp only [Option.toList_none, nil_append, map_map]
  congr 1
  apply map_congr_left
  intro v inside
  obtain ⟨c, object⟩ := (rep.files.opened v inside).object
  simp only [Function.comp_apply, object, Option.map_some, Option.getD_some,
    View.position_segment]

/-- An `Append` that spares a reader returns, and it drops nothing unless the reader is at
the very start. -/
theorem spares (rep : LogRep opts cleaner none older active w)
    (positive : 0 < opts.maxSegmentBytes) {reader : Reader} (spares : w.spares reader = true)
    (b : Bytes) :
    (∃ l', (ledger none older active).append opts b = some l') ∧
      (reader = ⟨0, 0⟩ ∨ (opts.maxSegmentBytes ≤ active.chunk.size →
        retained opts.maxLogBytes (ledger none older active).chunks =
          (ledger none older active).chunks.length)) := by
  obtain ⟨c, object⟩ := rep.object
  simp only [World.spares, object] at spares
  by_cases full : opts.maxSegmentBytes ≤ active.chunk.size
  · have isFull : (active.segment opts c).isFull = true := decide_eq_true full
    rw [if_pos isFull, decide_eq_true_eq, rep.options, rep.logBytes] at spares
    have filled : active.chunk.recs ≠ [] := by
      intro none
      have size : active.chunk.size = 0 := by simp [Chunk.size, none]
      omega
    constructor
    · simp [Ledger.append, ledger, full, Ledger.split, filled, Ledger.push, entryWidth, indexBytes]
    · rcases spares with start | fits
      · exact .inl start
      · exact .inr fun _ => retained_all fits
  · have notFull : ¬ (active.segment opts c).isFull = true := fun isFull =>
      full (of_decide_eq_true isFull)
    rw [if_neg notFull, decide_eq_true_eq] at spares
    have room : (active.chunk.recs.length + 1) * entryWidth ≤ indexBytes := by
      have base : (active.segment opts c).baseOffset = (active.chunk.base : Int) := rfl
      simp only [View.nextOffset_segment, base, Chunk.next, entryWidth, indexBytes] at spares
      simp only [entryWidth, indexBytes]
      omega
    constructor
    · refine ⟨ledger none older (active.push b), ?_⟩
      simp only [Ledger.append, ledger, full, Ledger.push, room, ↓reduceIte]
      rfl
    · exact .inr fun wrong => absurd wrong full

end LogRep

/-- A reader of a log with retention: what it has returned and what lies before it now are
the records from some offset on, and no more than the listed segments hold. -/
structure Chasing (opts : Options) (w : World) (rs : List Bytes) (reader : Reader) (got : Bytes) :
    Prop where
  rep : ∃ l, Rep opts (.delete opts.maxLogBytes) l w ∧ l.Records rs
  place : ∃ a idx pos : Nat, a ≤ rs.length ∧ reader = ⟨idx, pos⟩ ∧ Place w idx pos ∧
    (rs.drop a).flatten = got ++ remaining w.contents idx pos ∧
    (rs.drop a).flatten.length ≤ (remaining w.contents 0 0).length

namespace Chasing

variable {opts : Options} {w w' : World} {rs : List Bytes} {reader : Reader} {got : Bytes}

theorem intact (chasing : Chasing opts w rs reader got) : Intact w rs got := by
  obtain ⟨a, idx, pos, -, -, -, stream, -⟩ := chasing.place
  exact intact_of_prefix ⟨_, stream.symm⟩

/-- A reader at the very start has returned nothing yet. -/
theorem fresh (chasing : Chasing opts w rs ⟨0, 0⟩ got) : got = [] := by
  obtain ⟨a, idx, pos, -, same, -, stream, most⟩ := chasing.place
  obtain ⟨rfl, rfl⟩ : idx = 0 ∧ pos = 0 := by
    rw [Reader.mk.injEq] at same
    omega
  rw [stream, length_append] at most
  apply length_eq_zero_iff.mp
  omega

theorem read (chasing : Chasing opts w rs reader got) (length : Nat) :
    ∃ reader' p err, (reader.read length).run w = .ok (reader', p, err) w ∧
      Chasing opts w rs reader' (got ++ p) := by
  obtain ⟨l, rep, records⟩ := chasing.rep
  obtain ⟨-, ghost, older, active, rep', -⟩ := id rep
  obtain ⟨a, idx, pos, bound, rfl, place, stream, most⟩ := chasing.place
  obtain ⟨segment, listed, inside⟩ := place.segment
  obtain ⟨idx', pos', segment', ran, listed', inside', rest⟩ :=
    Reader.read_run rep'.files.quiet rep'.live listed inside length
  refine ⟨_, _, _, ran, ⟨l, rep, records⟩, a, idx', pos', bound, rfl,
    place_of_segment listed' inside', ?_, most⟩
  rw [rest, append_assoc, take_append_drop]
  exact stream

/-- One `Append` that spares the reader returns, and the reader goes on behind what it has
returned. -/
theorem append {b : Bytes} (hash : Bytes → UInt64) (chasing : Chasing opts w rs reader got)
    (positive : 0 < opts.maxSegmentBytes) (long : 8 ≤ b.length) (spares : w.spares reader = true) :
    ∃ w', (append hash b).run w = .ok (rs.length : Int) w' ∧
      Chasing opts w' (rs ++ [MessageSet.stamp rs.length b]) reader got := by
  obtain ⟨l, rep, records⟩ := chasing.rep
  obtain ⟨valid, ghost, older, active, before, rfl⟩ := id rep
  obtain rfl : ghost = none := by
    have solid := valid.solid positive
    simpa [ledger] using solid
  obtain ⟨⟨l', appended⟩, kept⟩ := before.spares positive spares b
  rcases append_refines hash rep long with ⟨l'', w', appended', ran, rep'⟩ | ⟨stuck, -⟩
  · obtain rfl : l'' = l' := Option.some.inj (appended'.symm.trans appended)
    have records' := records.append valid appended
    rw [records.next] at ran
    refine ⟨w', ran, ⟨l'', rep', records'⟩, ?_⟩
    obtain ⟨valid', ghost', older', active', after, rfl⟩ := rep'
    rcases kept with rfl | all
    · obtain rfl := chasing.fresh
      obtain ⟨a, bound, stream⟩ := records'.from_start valid' positive
      rw [← after.contents] at stream
      refine ⟨a, 0, 0, bound, rfl, after.place_start, ?_, ?_⟩
      · rw [stream]
        rfl
      · rw [stream]
    · obtain ⟨more, grown, single⟩ := valid.grows all appended
      obtain rfl := single positive
      rw [← before.contents, ← after.contents, records.next] at grown
      obtain ⟨a, idx, pos, bound, rfl, ⟨content, here, inside⟩, stream, most⟩ := chasing.place
      obtain ⟨first, zero, -⟩ := before.place_start
      obtain ⟨longer, place⟩ := grown idx pos content here inside
      obtain ⟨whole, -⟩ := grown 0 0 first zero (Nat.zero_le _)
      refine ⟨a, idx, pos, by simp; omega, rfl, place, ?_, ?_⟩
      · rw [longer, drop_append_of_le_length bound, flatten_append, stream]
        simp
      · rw [whole, drop_append_of_le_length bound, flatten_append]
        simpa using most
  · rw [stuck] at appended
    cases appended

theorem session {ops : List Op} (hash : Bytes → UInt64) (chasing : Chasing opts w rs reader got)
    (positive : 0 < opts.maxSegmentBytes) (spares : spared hash ops reader w = true) :
    ∃ w' reader' got', (session hash ops reader got).run w = .ok (reader', got') w' ∧
      Chasing opts w' (rs ++ Ledger.stampFrom rs.length (appended ops)) reader' got' := by
  induction ops generalizing w rs reader got with
  | nil => exact ⟨w, reader, got, rfl, by simpa [appended, Ledger.stampFrom] using chasing⟩
  | cons op ops ih =>
    cases op with
    | append b =>
      simp only [spared, Bool.and_eq_true, decide_eq_true_eq] at spares
      obtain ⟨⟨long, first⟩, later⟩ := spares
      obtain ⟨w₁, ran, next⟩ := chasing.append hash positive long first
      rw [ran] at later
      obtain ⟨w', reader', got', played, reached⟩ := ih next later
      refine ⟨w', reader', got', (bind_ok ran).trans played, ?_⟩
      simpa [appended, Ledger.stampFrom] using reached
    | read length =>
      obtain ⟨reader₁, p, err, ran, next⟩ := chasing.read length
      simp only [spared, ran] at spares
      obtain ⟨w', reader', got', played, reached⟩ := ih next spares
      exact ⟨w', reader', got', (bind_ok ran).trans played, reached⟩

end Chasing

theorem stampFrom_append (offset : Nat) (bs bs' : List Bytes) :
    Ledger.stampFrom offset (bs ++ bs') =
      Ledger.stampFrom offset bs ++ Ledger.stampFrom (offset + bs.length) bs' := by
  induction bs generalizing offset with
  | nil => rfl
  | cons b bs ih =>
    simp only [cons_append, Ledger.stampFrom, ih, length_cons]
    rw [Nat.add_assoc, Nat.add_comm 1]

/-- A reader that starts at a record of a log with retention, and whose place every `Append`
leaves alone, delivers intact records: all calls return, what the reader has returned is
intact, and so it is after one more `Read`, which does not leave the list of segments. -/
theorem session_intact {opts : Options} {w w₁ : World} {bs : List Bytes} {offsets : List Int}
    {ops : List Op} {idx pos a : Nat} (hash : Bytes → UInt64) (named : opts.path ≠ "")
    (policy : opts.resolved.cleanupPolicy = deleteCleanupPolicy)
    (positive : 0 < opts.maxSegmentBytes) (quiet : w.disk.script = [])
    (empty : w.disk.listing opts.path = [])
    (ran : (runAppends hash opts bs).run w = .ok offsets w₁)
    (start : Stands w₁ (Ledger.stampFrom 0 bs) idx pos a)
    (spares : spared hash ops ⟨idx, pos⟩ w₁ = true) (length : Nat) :
    let rs := Ledger.stampFrom 0 (bs ++ appended ops)
    ∃ w₂ reader got, (session hash ops ⟨idx, pos⟩ []).run w₁ = .ok (reader, got) w₂ ∧
      Intact w₂ rs got ∧
      ∃ reader' p err, (reader.read length).run w₂ = .ok (reader', p, err) w₂ ∧
        Intact w₂ rs (got ++ p) := by
  obtain ⟨l, whole, rep⟩ := runAppends_rep named policy quiet empty ran
  have records := (Ledger.valid_records_of_appendAll whole).2
  obtain ⟨bound, place, stream⟩ := start
  have begun : Chasing opts.resolved w₁ (Ledger.stampFrom 0 bs) ⟨idx, pos⟩ [] := by
    refine ⟨⟨l, rep, records⟩, a, idx, pos, bound, rfl, place, stream.symm, ?_⟩
    rw [← stream, remaining_start]
    exact length_remaining_le _ _ _
  obtain ⟨w₂, reader, got, played, chasing⟩ := begun.session hash (by simpa using positive) spares
  rw [Ledger.length_stampFrom, ← Nat.zero_add bs.length, ← stampFrom_append] at chasing
  obtain ⟨reader', p, err, read, next⟩ := chasing.read length
  exact ⟨w₂, reader, got, played, chasing.intact, reader', p, err, read, next.intact⟩

/-- The reader waits at the very start while old segments are dropped, then reads. -/
theorem session_intact_waiting :
    ∃ w₁, (runAppends (fun _ => 0) ⟨"log", 12, 40, "delete"⟩ [plainSet [], plainSet [1]]).run
        World.idle = .ok [0, 1] w₁ ∧
      ∃ w₂ reader got, (session (fun _ => 0) [.append (plainSet [2]), .append (plainSet [7]),
          .append (plainSet [3]), .read 20] ⟨0, 0⟩ []).run w₁ = .ok (reader, got) w₂ ∧
        Intact w₂ (Ledger.stampFrom 0 [plainSet [], plainSet [1], plainSet [2], plainSet [7],
          plainSet [3]]) got ∧
        ∃ reader' p err, (reader.read 100).run w₂ = .ok (reader', p, err) w₂ ∧
          Intact w₂ (Ledger.stampFrom 0 [plainSet [], plainSet [1], plainSet [2], plainSet [7],
            plainSet [3]]) (got ++ p) := by
  obtain ⟨w₁, ran, start, spares⟩ : ∃ w₁, (runAppends (fun _ => 0) ⟨"log", 12, 40, "delete"⟩
      [plainSet [], plainSet [1]]).run World.idle = .ok [0, 1] w₁ ∧
      Stands w₁ (Ledger.stampFrom 0 [plainSet [], plainSet [1]]) 0 0 0 ∧
      spared (fun _ => 0) [.append (plainSet [2]), .append (plainSet [7]), .append (plainSet [3]),
        .read 20] ⟨0, (0 : Nat)⟩ w₁ = true :=
    ⟨_, Result.eq_ok_of_returned (by decide +kernel),
      ⟨Nat.zero_le _, ⟨plainSet [], by decide +kernel, Nat.zero_le _⟩, by decide +kernel⟩,
      by decide +kernel⟩
  exact ⟨w₁, ran, session_intact (fun _ => 0) (by decide) rfl (by decide) rfl rfl ran start spares
    100⟩

/-- A reader at the end of the second of two segments: the next `Append` drops both, and the
reader's index is behind the list. -/
theorem read_behind_retention :
    ((do
      let _ ← runAppends (fun _ => 0) ⟨"log", 12, 12, "delete"⟩ [plainSet [], plainSet [1]]
      session (fun _ => 0) [.read 12, .read 13, .append (plainSet [2]), .read 1] ⟨0, 0⟩ []
        : Call World (Reader × Bytes)).run World.idle).stopped =
      some (.panic "index out of range") := by
  decide +kernel

end Jocko.Commitlog
