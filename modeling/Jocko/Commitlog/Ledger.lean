import Jocko.Commitlog.World
import Mathlib.Data.List.Chain

namespace Jocko.Commitlog

open Go List Option

/-- What a segment is for: the records from an offset on. -/
structure Chunk where
  base : Nat
  recs : List Bytes
  deriving DecidableEq

variable {c : Chunk}

namespace Chunk

/-- The offset behind the last record. -/
def next (c : Chunk) : Nat := c.base + c.recs.length

def size (c : Chunk) : Nat := c.recs.flatten.length

/-- Where a record starts in the segment's file. -/
def start (c : Chunk) (j : Nat) : Nat := (c.recs.take j).flatten.length

/-- One index entry a record: its offset and the byte it starts at. -/
def entries (c : Chunk) : List Entry :=
  (List.range c.recs.length).map fun j => ⟨(c.base + j : Nat), c.start j⟩

def push (c : Chunk) (b : Bytes) : Chunk := ⟨c.base, c.recs ++ [MessageSet.stamp c.next b]⟩

@[simp] theorem base_push (c : Chunk) (b : Bytes) : (c.push b).base = c.base := rfl

@[simp] theorem recs_push (c : Chunk) (b : Bytes) :
    (c.push b).recs = c.recs ++ [MessageSet.stamp c.next b] := rfl

@[simp] theorem length_entries (c : Chunk) : c.entries.length = c.recs.length := by
  simp only [entries, length_map, length_range]

@[simp] theorem next_push (c : Chunk) (b : Bytes) : (c.push b).next = c.next + 1 := by
  simp only [next, push, length_append, length_singleton, Nat.add_assoc]

theorem entries_push (c : Chunk) (b : Bytes) :
    (c.push b).entries = c.entries ++ [⟨c.next, c.size⟩] := by
  have last : (c.push b).start c.recs.length = c.size := by
    simp only [start, recs_push, take_left, size]
  have same : ∀ j ∈ range c.recs.length,
      (⟨(c.base + j : Nat), (c.push b).start j⟩ : Entry) = ⟨(c.base + j : Nat), c.start j⟩ := by
    intro j inside
    have below : j ≤ c.recs.length := Nat.le_of_lt (mem_range.mp inside)
    simp only [start, recs_push, take_append_of_le_length below]
  simp only [entries, recs_push, length_append, length_singleton, range_succ,
    map_append, map_cons, map_nil, base_push, last]
  rw [map_congr_left same]
  rfl

theorem record_at {j : Nat} {r : Bytes} (record : c.recs[j]? = some r) :
    ∃ more, c.recs.flatten.drop (c.start j) = r ++ more := by
  obtain ⟨inside, rfl⟩ := List.getElem?_eq_some_iff.mp record
  have split : c.recs.flatten =
      (c.recs.take j).flatten ++ (c.recs[j] ++ (c.recs.drop (j + 1)).flatten) := by
    rw [← flatten_cons, ← flatten_append, getElem_cons_drop, take_append_drop]
  refine ⟨(c.recs.drop (j + 1)).flatten, ?_⟩
  rw [split, start, drop_left]

theorem start_push_lt {c : Chunk} {bound : Int} (b : Bytes) (size : (c.size : Int) < bound)
    (starts : ∀ j, j < c.recs.length → (c.start j : Int) < bound) (j : Nat)
    (inside : j < (c.push b).recs.length) : ((c.push b).start j : Int) < bound := by
  simp only [push, length_append, length_singleton] at inside
  have reach : j ≤ c.recs.length := by omega
  have same : (c.push b).start j = c.start j := by
    simp only [start, push, take_append_of_le_length reach]
  rw [same]
  by_cases last : j = c.recs.length
  · rw [last, start, take_length]
    exact size
  · exact starts j (by omega)

end Chunk

/-- Runs that follow each other cover every offset from the first to the last. -/
theorem exists_chunk {cs : List Chunk} {first last : Chunk} {o : Nat}
    (chained : cs.IsChain fun c c' => c.next = c'.base) (head : cs.head? = some first)
    (tail : cs.getLast? = some last) (low : first.base ≤ o) (high : o < last.next) :
    ∃ (k : Nat) (c : Chunk), cs[k]? = some c ∧ c.base ≤ o ∧ o < c.next := by
  induction cs generalizing first with
  | nil => cases head
  | cons c cs ih =>
    obtain rfl : c = first := some.inj head
    by_cases inside : o < c.next
    · exact ⟨0, c, rfl, low, inside⟩
    · cases cs with
      | nil =>
        obtain rfl : c = last := some.inj tail
        exact absurd high inside
      | cons d cs =>
        rw [isChain_cons_cons] at chained
        obtain ⟨k, e, here, bounds⟩ := ih chained.2 rfl (by simpa using tail)
          (by rw [← chained.1]; omega)
        exact ⟨k + 1, e, here, bounds⟩

theorem length_stamp {b : Bytes} (long : 8 ≤ b.length) (offset : Int) :
    (MessageSet.stamp offset b).length = b.length := by
  simp only [MessageSet.stamp, length_append, length_putUint, length_drop]
  omega

/-- What a commit log is for: runs of records, the oldest first, and the one that takes
new records. A log whose segments are full while empty starts with one segment object too
many, which has the files of the next one: the `phantom`. -/
structure Ledger where
  phantom : Bool
  older : List Chunk
  active : Chunk
  deriving DecidableEq

/-- How many segments the delete cleaner keeps, by their sizes, newest first. `total`
counts the bytes of those kept already. -/
def keepCount (retention : Int) : Int → List Nat → Nat
  | _, [] => 0
  | total, size :: sizes =>
    if retention < total + size then 0 else keepCount retention (total + size) sizes + 1

/-- How many of the runs before a new, empty one survive the cleaner. -/
def retained (retention : Int) (older : List Chunk) : Nat :=
  if retention = -1 then older.length else keepCount retention 0 (older.reverse.map Chunk.size)

/-- The runs that survive. -/
def retain (retention : Int) (older : List Chunk) : List Chunk :=
  older.drop (older.length - retained retention older)

namespace Ledger

def start : Ledger := ⟨false, [], ⟨0, []⟩⟩

def chunks (l : Ledger) : List Chunk := l.older ++ [l.active]

def next (l : Ledger) : Nat := l.active.next

/-- A new run behind a full one. An empty run that is full is opened a second time; the
retention may not touch the files while two objects have them. -/
def split (opts : Options) (l : Ledger) : Option Ledger :=
  if l.active.recs = [] then
    if opts.maxLogBytes = -1 ∨ 0 ≤ opts.maxLogBytes then some { l with phantom := true } else none
  else
    if l.phantom = true ∧ retained opts.maxLogBytes l.chunks ≠ l.chunks.length then none
    else some ⟨l.phantom, retain opts.maxLogBytes l.chunks, ⟨l.next, []⟩⟩

/-- One more record, while the index has a slot for it. -/
def push (l : Ledger) (b : Bytes) : Option Ledger :=
  if (l.active.recs.length + 1) * entryWidth ≤ indexBytes then
    some { l with active := l.active.push b }
  else none

def append (opts : Options) (l : Ledger) (b : Bytes) : Option Ledger :=
  if opts.maxSegmentBytes ≤ l.active.size then (l.split opts).bind fun l => l.push b
  else l.push b

/-- `none` once an append has failed. -/
def appendAll (opts : Options) : Ledger → List Bytes → Option Ledger
  | l, [] => some l
  | l, b :: bs => (l.append opts b).bind fun l => appendAll opts l bs

end Ledger

theorem keepCount_le (retention total : Int) (sizes : List Nat) :
    keepCount retention total sizes ≤ sizes.length := by
  induction sizes generalizing total with
  | nil => simp [keepCount]
  | cons size sizes ih =>
    simp only [keepCount, length_cons]
    split
    · omega
    · exact Nat.succ_le_succ (ih _)

theorem retained_le (retention : Int) (older : List Chunk) :
    retained retention older ≤ older.length := by
  unfold retained
  split
  · exact Nat.le_refl _
  · simpa using keepCount_le retention 0 (older.reverse.map Chunk.size)

theorem retain_suffix (retention : Int) (older : List Chunk) : retain retention older <:+ older :=
  drop_suffix _ _

theorem retain_all {retention : Int} {older : List Chunk}
    (all : retained retention older = older.length) : retain retention older = older := by
  rw [retain, all, Nat.sub_self, drop_zero]

namespace Ledger

/-- What every sequence of appends keeps. A full run that is empty occurs only at the
start, and only if the segment size is not positive. -/
structure Valid (opts : Options) (l : Ledger) : Prop where
  chained : l.chunks.IsChain fun c c' => c.next = c'.base
  filled : ∀ c ∈ l.older, c.recs ≠ []
  blank : l.active.recs = [] → l = start
  phantom : l.phantom = true → opts.maxSegmentBytes ≤ 0 ∧
    (∀ c ∈ l.chunks.head?, c.base = 0) ∧ ∀ c ∈ l.chunks, c.recs.length = 1
  degenerate : opts.maxSegmentBytes ≤ 0 → l = start ∨ l.phantom = true

/-- The runs follow each other, and only the last one may be empty. -/
structure Linked (l : Ledger) : Prop where
  chained : l.chunks.IsChain fun c c' => c.next = c'.base
  filled : ∀ c ∈ l.older, c.recs ≠ []

variable {opts : Options} {l l' : Ledger} {b : Bytes}

theorem Valid.linked (valid : l.Valid opts) : l.Linked := ⟨valid.chained, valid.filled⟩

theorem push_eq_some (pushed : l.push b = some l') :
    (l.active.recs.length + 1) * entryWidth ≤ indexBytes ∧
      l' = { l with active := l.active.push b } := by
  unfold push at pushed
  split at pushed
  · exact ⟨‹_›, (some.inj pushed).symm⟩
  · cases pushed

/-- The four ways an append can go: into the active run, into the first run of a log
whose segments hold nothing, or into a new run, with or without a phantom. -/
theorem append_cases (blank : opts.maxSegmentBytes ≤ 0 → l.active.recs = [] → l = start)
    (appended : l.append opts b = some l') :
    (l.active.size < opts.maxSegmentBytes ∧ l' = { l with active := l.active.push b }) ∨
    (opts.maxSegmentBytes ≤ 0 ∧ l = start ∧ l' = ⟨true, [], Chunk.push ⟨0, []⟩ b⟩) ∨
    (opts.maxSegmentBytes ≤ l.active.size ∧ l.active.recs ≠ [] ∧
      (l.phantom = true → retained opts.maxLogBytes l.chunks = l.chunks.length) ∧
      l' = ⟨l.phantom, retain opts.maxLogBytes l.chunks, Chunk.push ⟨l.next, []⟩ b⟩) := by
  unfold append at appended
  split at appended
  · rename_i full
    obtain ⟨m, splitted, pushed⟩ := bind_eq_some_iff.mp appended
    obtain ⟨-, rfl⟩ := push_eq_some pushed
    unfold split at splitted
    split at splitted
    · rename_i empty
      have none : l.active.size = 0 := by simp only [Chunk.size, empty]; rfl
      have first := blank (by omega) empty
      split at splitted
      · obtain rfl := some.inj splitted
        refine .inr (.inl ⟨by omega, first, ?_⟩)
        rw [first]
        rfl
      · cases splitted
    · rename_i filled
      split at splitted
      · cases splitted
      · rename_i whole
        obtain rfl := some.inj splitted
        refine .inr (.inr ⟨full, filled, fun haunted => ?_, rfl⟩)
        exact Classical.not_not.mp fun fewer => whole ⟨haunted, fewer⟩
  · rename_i space
    obtain ⟨-, rfl⟩ := push_eq_some appended
    exact .inl ⟨by omega, rfl⟩

theorem valid_start : start.Valid opts where
  chained := by simp [chunks, start]
  filled := by simp [start]
  blank := fun _ => rfl
  phantom := by simp [start]
  degenerate := fun _ => .inl rfl

theorem Linked.chained_next (linked : l.Linked) (base : c.base = l.next) :
    (l.chunks ++ [c]).IsChain fun c c' => c.next = c'.base := by
  rw [isChain_append]
  refine ⟨linked.chained, by simp, ?_⟩
  simp [chunks, base, next]

theorem mem_chunks : c ∈ l.chunks ↔ c ∈ l.older ∨ c = l.active := by
  simp only [chunks, mem_append, mem_singleton]

theorem Linked.recs_ne_nil (linked : l.Linked) (active : l.active.recs ≠ [])
    (inside : c ∈ l.chunks) : c.recs ≠ [] := by
  rcases mem_chunks.mp inside with older | rfl
  · exact linked.filled c older
  · exact active

theorem Linked.renew (linked : l.Linked) (filled : l.active.recs ≠ []) (retention : Int)
    (phantom : Bool) : Linked ⟨phantom, retain retention l.chunks, ⟨l.next, []⟩⟩ := by
  have kept := retain_suffix retention l.chunks
  refine ⟨?_, fun c inside => linked.recs_ne_nil filled (kept.mem inside)⟩
  exact (linked.chained_next rfl).suffix ((suffix_append_inj_of_length_eq rfl).mpr ⟨kept, rfl⟩)

theorem Linked.push (linked : l.Linked) (b : Bytes) :
    Linked { l with active := l.active.push b } := by
  refine ⟨?_, linked.filled⟩
  have chained := linked.chained
  simp only [chunks, isChain_append] at chained ⊢
  refine ⟨chained.1, isChain_singleton _, ?_⟩
  simpa using chained.2.2

theorem Valid.append (valid : l.Valid opts) (appended : l.append opts b = some l') :
    l'.Valid opts := by
  rcases append_cases (fun _ => valid.blank) appended with
    ⟨space, rfl⟩ | ⟨none, -, rfl⟩ | ⟨full, filled, whole, rfl⟩
  · have size : 0 < opts.maxSegmentBytes := by omega
    have linked := valid.linked.push b
    refine ⟨linked.chained, linked.filled, fun empty => ?_, fun haunted => ?_, fun none => ?_⟩
    · simp at empty
    · exact absurd (valid.phantom haunted).1 (by omega)
    · omega
  · refine ⟨by simp [chunks], by simp, fun empty => ?_, fun _ => ?_, fun _ => .inr rfl⟩
    · simp at empty
    · simpa [chunks] using none
  · have linked := (valid.linked.renew filled opts.maxLogBytes l.phantom).push b
    refine ⟨linked.chained, linked.filled, fun empty => ?_, fun haunted => ?_, fun none => ?_⟩
    · simp at empty
    · obtain ⟨size, base, single⟩ := valid.phantom haunted
      rw [retain_all (whole haunted)]
      refine ⟨size, by simpa [chunks] using base, fun c inside => ?_⟩
      rcases mem_chunks.mp inside with old | rfl
      · exact single c old
      · simp
    · rcases valid.degenerate none with rfl | haunted
      · exact absurd rfl filled
      · exact .inr haunted

theorem Linked.ordered (linked : l.Linked) : l.chunks.Pairwise fun c c' => c.next ≤ c'.base := by
  have trans : Trans (fun c c' : Chunk => c.next ≤ c'.base) (fun c c' : Chunk => c.next ≤ c'.base)
      (fun c c' : Chunk => c.next ≤ c'.base) := by
    refine ⟨fun {c c' c''} first second => ?_⟩
    simp only [Chunk.next] at *
    omega
  rw [← isChain_iff_pairwise]
  exact linked.chained.imp fun c c' next => Nat.le_of_eq next

theorem Linked.next_le (linked : l.Linked) (inside : c ∈ l.chunks) : c.next ≤ l.next := by
  rcases mem_chunks.mp inside with older | rfl
  · have before := (pairwise_append.mp linked.ordered).2.2 c older l.active (by simp)
    exact Nat.le_trans before (Nat.le_add_right _ _)
  · exact Nat.le_refl _

theorem Linked.bases (linked : l.Linked) : l.chunks.Pairwise fun c c' => c.base < c'.base := by
  have ordered := linked.ordered
  have grows (c : Chunk) (older : c ∈ l.older) : c.base < c.next := by
    have := length_pos_iff.mpr (linked.filled c older)
    simp only [Chunk.next]
    omega
  rw [chunks, pairwise_append] at ordered ⊢
  refine ⟨ordered.1.imp_of_mem fun older _ le => Nat.lt_of_lt_of_le (grows _ older) le,
    pairwise_singleton _ _, fun c older c' last => ?_⟩
  exact Nat.lt_of_lt_of_le (grows c older) (ordered.2.2 c older c' last)

/-- The offset of a new record is above the base of every run. -/
theorem Linked.base_lt_next (linked : l.Linked) (filled : l.active.recs ≠ [])
    (inside : c ∈ l.chunks) : c.base < l.next := by
  have last : l.active.base < l.next := by
    have := length_pos_iff.mpr filled
    simp only [Ledger.next, Chunk.next]
    omega
  rcases mem_chunks.mp inside with older | rfl
  · have := (pairwise_append.mp linked.bases).2.2 c older l.active (by simp)
    omega
  · exact last

theorem next_append (valid : l.Valid opts) (appended : l.append opts b = some l') :
    l'.next = l.next + 1 := by
  rcases append_cases (fun _ => valid.blank) appended with ⟨-, rfl⟩ | ⟨-, rfl, rfl⟩ | ⟨-, -, -, rfl⟩
  · exact Chunk.next_push _ _
  · rfl
  · rfl

section

variable {P : Chunk → Prop}

theorem forall_push (all : ∀ c ∈ l.chunks, P c) (pushed : P l.active → P (l.active.push b)) :
    ∀ c ∈ chunks { l with active := l.active.push b }, P c := by
  intro c inside
  rcases mem_chunks.mp inside with old | rfl
  · exact all c (mem_chunks.mpr (.inl old))
  · exact pushed (all _ (mem_chunks.mpr (.inr rfl)))

theorem forall_renew (all : ∀ c ∈ l.chunks, P c) (fresh : P ⟨l.next, []⟩) (retention : Int)
    (phantom : Bool) : ∀ c ∈ chunks ⟨phantom, retain retention l.chunks, ⟨l.next, []⟩⟩, P c := by
  intro c inside
  rcases mem_chunks.mp inside with old | rfl
  · exact all c ((retain_suffix _ _).mem old)
  · exact fresh

end

/-- Every record starts where an index entry can say so. -/
def Low (l : Ledger) : Prop :=
  ∀ c ∈ l.chunks, ∀ j, j < c.recs.length → c.start j < 2147483648

theorem Low.push (low : l.Low) (space : (l.active.size : Int) < 2147483648) (b : Bytes) :
    Low { l with active := l.active.push b } :=
  forall_push low fun starts j inside => Int.ofNat_lt.mp
    (Chunk.start_push_lt b space (fun j within => Int.ofNat_lt.mpr (starts j within)) j inside)

theorem Low.renew (low : l.Low) (retention : Int) :
    Low ⟨false, retain retention l.chunks, ⟨l.next, []⟩⟩ :=
  forall_renew low (by simp) retention false

/-- The runs are parts of a history of stored records, each in its place. -/
structure Records (l : Ledger) (rs : List Bytes) : Prop where
  next : l.next = rs.length
  within : ∀ c ∈ l.chunks, c.recs <+: rs.drop c.base

variable {rs : List Bytes}

theorem prefix_drop_concat {recs : List Bytes} {base : Nat} (r : Bytes)
    (within : recs <+: rs.drop base) : recs <+: (rs ++ [r]).drop base := by
  rw [drop_append]
  exact within.trans (prefix_append _ _)

theorem Records.push (records : l.Records rs) (b : Bytes) :
    Records { l with active := l.active.push b } (rs ++ [MessageSet.stamp rs.length b]) := by
  have next : l.active.next = rs.length := records.next
  refine ⟨?_, fun c inside => ?_⟩
  · rw [length_append, length_singleton, ← next]
    exact Chunk.next_push _ _
  rcases mem_chunks.mp inside with old | rfl
  · exact prefix_drop_concat _ (records.within c (mem_chunks.mpr (.inl old)))
  · have whole : l.active.recs = rs.drop l.active.base := by
      refine (records.within _ (mem_chunks.mpr (.inr rfl))).eq_of_length ?_
      simp only [Chunk.next] at next
      rw [length_drop]
      omega
    have below : l.active.base ≤ rs.length := by rw [← next]; exact Nat.le_add_right _ _
    have grown : l.active.recs ++ [MessageSet.stamp rs.length b] =
        (rs ++ [MessageSet.stamp rs.length b]).drop l.active.base := by
      rw [whole, drop_append_of_le_length below]
    simp only [Chunk.recs_push, Chunk.base_push, next]
    exact grown ▸ prefix_rfl

theorem Records.renew (records : l.Records rs) (retention : Int)
    (phantom : Bool) : Records ⟨phantom, retain retention l.chunks, ⟨l.next, []⟩⟩ rs :=
  ⟨records.next, forall_renew records.within nil_prefix retention phantom⟩

theorem Records.append (records : l.Records rs) (valid : l.Valid opts)
    (appended : l.append opts b = some l') : l'.Records (rs ++ [MessageSet.stamp rs.length b]) := by
  rcases append_cases (fun _ => valid.blank) appended with ⟨-, rfl⟩ | ⟨-, rfl, rfl⟩ | ⟨-, -, -, rfl⟩
  · exact records.push b
  · exact ⟨(records.push b).next, (records.push b).within⟩
  · exact (records.renew opts.maxLogBytes l.phantom).push b

/-- The stored form of sets appended from an offset on. -/
def stampFrom : Nat → List Bytes → List Bytes
  | _, [] => []
  | offset, b :: bs => MessageSet.stamp offset b :: stampFrom (offset + 1) bs

@[simp] theorem length_stampFrom (offset : Nat) (bs : List Bytes) :
    (stampFrom offset bs).length = bs.length := by
  induction bs generalizing offset with
  | nil => rfl
  | cons b bs ih => simp only [stampFrom, length_cons, ih]

variable {bs : List Bytes}

theorem getElem?_stampFrom {offset k : Nat} {b : Bytes} (here : bs[k]? = some b) :
    (stampFrom offset bs)[k]? = some (MessageSet.stamp (offset + k : Nat) b) := by
  induction bs generalizing offset k with
  | nil => cases here
  | cons b' bs ih =>
    cases k with
    | zero =>
      obtain rfl := some.inj here
      rfl
    | succ k =>
      have later := @ih (offset + 1) k here
      rw [Nat.add_right_comm, Nat.add_assoc] at later
      exact later

/-- A property that every append keeps holds after any number of them. -/
theorem appendAll_induct (P : Ledger → List Bytes → Prop) (rs : List Bytes)
    (step : ∀ l b l' rs, b ∈ bs → P l rs → l.append opts b = some l' →
      P l' (rs ++ [MessageSet.stamp rs.length b]))
    (holds : P l rs) (appended : l.appendAll opts bs = some l') :
    P l' (rs ++ stampFrom rs.length bs) := by
  induction bs generalizing l rs with
  | nil =>
    obtain rfl := some.inj appended
    simpa [stampFrom] using holds
  | cons b bs ih =>
    obtain ⟨m, first, rest⟩ := bind_eq_some_iff.mp appended
    have later := ih _ (fun l b l' rs inside => step l b l' rs (mem_cons_of_mem _ inside))
      (step l b m rs (mem_cons_self ..) holds first) rest
    simpa [stampFrom] using later

theorem records_start : start.Records [] := ⟨rfl, by simp [start, chunks]⟩

theorem valid_records_of_appendAll (appended : start.appendAll opts bs = some l') :
    l'.Valid opts ∧ l'.Records (stampFrom 0 bs) := by
  have reached := appendAll_induct (fun l rs => l.Valid opts ∧ l.Records rs) []
    (fun l b l' rs _ holds appended =>
      ⟨holds.1.append appended, holds.2.append holds.1 appended⟩)
    ⟨valid_start, records_start⟩ appended
  simpa using reached

end Ledger

end Jocko.Commitlog
