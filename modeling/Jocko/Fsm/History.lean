import Jocko.Fsm.Snapshot
import Mathlib.Data.List.Induction

namespace Jocko.Fsm

open Go MemDB Store List

variable {ι α : Type}

namespace Kind

section

variable (lower : Str → Str) (kind : Kind ι α) (op : Command → Option (Op α))

/-- What a command does to a key. One that fails does nothing, as a register whose row has no
key. -/
def touch (key : Bytes) (entry : UInt64 × Command) : Option (UInt64 × Op α) :=
  match op entry.2 with
  | some (.register row) =>
    if kind.schema.id row = some key then some (entry.1, .register row) else none
  | some (.deregister k) => if k = key then some (entry.1, .deregister k) else none
  | none => none

/-- The commands for a key that did not fail. -/
def touching (key : Bytes) (entries : List (UInt64 × Command)) : List (UInt64 × Op α) :=
  entries.filterMap (kind.touch op key)

end

def stand (held : List (UInt64 × α)) (event : UInt64 × Op α) : List (UInt64 × α) :=
  match event.2 with
  | .register row => held ++ [(event.1, row)]
  | .deregister _ => []

section

variable (lower : Str → Str) (kind : Kind ι α) (op : Command → Option (Op α))

/-- The registers of a key since it was last absent. -/
def standing (key : Bytes) (entries : List (UInt64 × Command)) : List (UInt64 × α) :=
  (kind.touching op key entries).foldl stand []

/-- The rows of the table differ. -/
def Changed (s s' : Store) : Prop := (kind.rows s').content ≠ (kind.rows s).content

/-- The last command that changed the table has the index. -/
def LastChange (entries : List (UInt64 × Command)) (idx : UInt64) : Prop :=
  ∃ before command after, entries = before ++ (idx, command) :: after ∧
    kind.Changed (applyAll lower before new) (applyAll lower (before ++ [(idx, command)]) new) ∧
    ∀ early entry late, after = early ++ entry :: late →
      ¬ kind.Changed (applyAll lower (before ++ (idx, command) :: early) new)
        (applyAll lower (before ++ (idx, command) :: early ++ [entry]) new)

/-- What a table says of the commands that have been applied. -/
structure Recorded (entries : List (UInt64 × Command)) (s : Store) : Prop where
  present : ∀ key, (kind.row? s key).isSome = true ↔
    ∃ idx row, (kind.touching op key entries).getLast? = some (idx, .register row)
  modifyIndex : ∀ key row, kind.row? s key = some row →
    (kind.standing op key entries).getLast?.map Prod.fst = some (kind.modifyIndex row)
  createIndex : ∀ key row, kind.row? s key = some row →
    (kind.standing op key entries).head?.map Prod.fst = some (kind.createIndex row)
  ordered : ∀ key row, kind.row? s key = some row →
    kind.createIndex row ≤ kind.modifyIndex row ∧
      ∃ idx, entry lower s kind.table = some idx ∧ kind.modifyIndex row ≤ idx
  entry : ∀ idx, entry lower s kind.table = some idx ↔ kind.LastChange lower entries idx
  fails : ∀ idx command, op command ≠ none → ((apply lower idx command s).2 ≠ none ↔
    ∃ row, op command = some (.register row) ∧ kind.schema.id row = none)
  others : ∀ idx command, command.table ≠ kind.table →
    kind.Apart lower s (apply lower idx command s).1

/-- The row that the registers since a key was absent leave. -/
def expected : List (UInt64 × α) → Option α
  | [] => none
  | first :: rest =>
    let last := (first :: rest).getLast (List.cons_ne_nil first rest)
    some (kind.stamp last.2 first.1 last.1)

end

theorem stand_ne_nil_iff (events : List (UInt64 × Op α)) :
    events.foldl stand [] ≠ [] ↔ ∃ idx row, events.getLast? = some (idx, .register row) := by
  induction events using reverseRecOn with
  | nil => simp
  | append_singleton events event ih =>
    obtain ⟨idx, asked⟩ := event
    cases asked with
    | register row => simp [stand]
    | deregister key => simp [stand]

theorem stand_sublist (events : List (UInt64 × Op α)) :
    ((events.foldl stand []).map Prod.fst).Sublist (events.map Prod.fst) := by
  induction events using reverseRecOn with
  | nil => simp
  | append_singleton events event ih =>
    obtain ⟨idx, asked⟩ := event
    cases asked with
    | register row => simpa [stand] using ih
    | deregister key => simp [stand]

variable {lower : Str → Str} {kind : Kind ι α} {op : Command → Option (Op α)}
variable {key : Bytes}

theorem fst_of_touch {entry : UInt64 × Command} {event : UInt64 × Op α}
    (found : kind.touch op key entry = some event) : event.1 = entry.1 := by
  unfold touch at found
  split at found
  · split at found <;> cases found
    rfl
  · split at found <;> cases found
    rfl
  · cases found

theorem touching_sublist (key : Bytes) (entries : List (UInt64 × Command)) :
    ((kind.touching op key entries).map Prod.fst).Sublist (entries.map Prod.fst) := by
  induction entries with
  | nil => simp [touching]
  | cons entry entries ih =>
    simp only [touching, filterMap_cons] at ih ⊢
    split
    · exact ih.cons _
    · rename_i event found
      rw [map_cons, map_cons, fst_of_touch found]
      exact ih.cons_cons _

theorem standing_sublist (key : Bytes) (entries : List (UInt64 × Command)) :
    ((kind.standing op key entries).map Prod.fst).Sublist (entries.map Prod.fst) :=
  (stand_sublist _).trans (touching_sublist key entries)

theorem expected_concat (held : List (UInt64 × α)) (idx : UInt64) (row : α) :
    kind.expected (held ++ [(idx, row)]) =
      some (kind.stamp row (kind.created idx (kind.expected held)) idx) := by
  cases held with
  | nil => rfl
  | cons first rest =>
    simp [expected, created, kind.createIndex_stamp]

theorem expected_eq_none {held : List (UInt64 × α)} (none : kind.expected held = none) :
    held = [] := by
  cases held with
  | nil => rfl
  | cons first rest => cases none

theorem expected_eq_some {held : List (UInt64 × α)} {row : α}
    (some : kind.expected held = some row) : ∃ first last, held.head? = Option.some first ∧
      held.getLast? = Option.some last ∧ row = kind.stamp last.2 first.1 last.1 := by
  cases held with
  | nil => cases some
  | cons first rest =>
    cases some
    exact ⟨first, _, rfl, getLast?_eq_some_getLast _, rfl⟩

theorem standing_concat (key : Bytes) (entries : List (UInt64 × Command))
    (entry : UInt64 × Command) : kind.standing op key (entries ++ [entry]) =
      (kind.touch op key entry).toList.foldl stand (kind.standing op key entries) := by
  simp only [standing, touching, filterMap_append, foldl_append, filterMap_cons,
    filterMap_nil]
  cases kind.touch op key entry with
  | none => rfl
  | some event => rfl

theorem row?_eq (s : Store) (key : Bytes) :
    kind.row? s key = Radix.get? (kind.rows s).content.id key := by
  rw [Shared.content, Table.map, Radix.get?_map]
  rfl

theorem applyAll_concat (entries : List (UInt64 × Command)) (idx : UInt64) (command : Command)
    (s : Store) : applyAll lower (entries ++ [(idx, command)]) s =
      (apply lower idx command (applyAll lower entries s)).1 := by
  simp [applyAll]

theorem lastChange_concat (entries : List (UInt64 × Command)) (idx : UInt64) (command : Command)
    (i : UInt64) : kind.LastChange lower (entries ++ [(idx, command)]) i ↔
      kind.Changed (applyAll lower entries new)
          (applyAll lower (entries ++ [(idx, command)]) new) ∧ i = idx ∨
      ¬ kind.Changed (applyAll lower entries new)
          (applyAll lower (entries ++ [(idx, command)]) new) ∧ kind.LastChange lower entries i := by
  constructor
  · rintro ⟨before, c, after, split, changed, quiet⟩
    rcases eq_nil_or_concat after with rfl | ⟨early, last, rfl⟩
    · obtain ⟨rfl, here⟩ := append_inj' split rfl
      cases here
      exact .inl ⟨changed, rfl⟩
    · rw [concat_eq_append] at split quiet
      have assoc : before ++ (i, c) :: (early ++ [last]) = (before ++ (i, c) :: early) ++ [last] := by
        simp
      rw [assoc] at split
      obtain ⟨rfl, here⟩ := append_inj' split rfl
      cases here
      refine .inr ⟨quiet early _ [] rfl, before, c, early, rfl, changed, ?_⟩
      intro early' entry late same
      exact quiet early' entry (late ++ [(idx, command)]) (by simp [same])
  · rintro (⟨changed, rfl⟩ | ⟨quiet, before, c, after, rfl, changed, later⟩)
    · exact ⟨entries, command, [], rfl, changed, fun early entry late same => by simp at same⟩
    · refine ⟨before, c, after ++ [(idx, command)], by simp, changed, ?_⟩
      intro early entry late same
      rcases eq_nil_or_concat late with rfl | ⟨late', last, rfl⟩
      · obtain ⟨rfl, here⟩ := append_inj' same rfl
        cases here
        simpa using quiet
      · rw [concat_eq_append] at same
        have assoc : early ++ entry :: (late' ++ [last]) = (early ++ entry :: late') ++ [last] := by
          simp
        rw [assoc] at same
        obtain ⟨rfl, -⟩ := append_inj' same rfl
        exact later early entry late' rfl

/-- The store and the list of the commands say the same of the table. -/
structure Follows (lower : Str → Str) (kind : Kind ι α) (op : Command → Option (Op α))
    (entries : List (UInt64 × Command)) (s : Store) : Prop where
  row? : ∀ key, kind.row? s key = kind.expected (kind.standing op key entries)
  bound : ∀ key event, event ∈ kind.standing op key entries →
    ∃ idx, Store.entry lower s kind.table = some idx ∧ event.1 ≤ idx
  known : ∀ idx, Store.entry lower s kind.table = some idx → idx ∈ entries.map Prod.fst
  entry : ∀ idx, Store.entry lower s kind.table = some idx ↔ kind.LastChange lower entries idx

variable {entries : List (UInt64 × Command)} {s s' : Store} {idx : UInt64} {command : Command}

theorem Follows.new : kind.Follows lower op [] new where
  row? key := by
    rw [Kind.row?, Kind.first, kind.rows_new]
    rfl
  bound key event inside := by cases inside
  known idx found := by cases found
  entry idx := by
    constructor
    · intro found
      cases found
    · rintro ⟨before, command, after, split, -⟩
      simp at split

theorem Follows.modifyIndex_mem (follows : kind.Follows lower op entries s) {row : α}
    (found : kind.row? s key = some row) : kind.modifyIndex row ∈ entries.map Prod.fst := by
  rw [follows.row?] at found
  obtain ⟨first, last, -, late, rfl⟩ := expected_eq_some found
  rw [kind.modifyIndex_stamp]
  exact (standing_sublist key entries).subset (mem_map_of_mem (mem_of_getLast? late))

section

variable (follows : kind.Follows lower op entries s)
  (start : s = applyAll lower entries Store.new)
  (last : s' = applyAll lower (entries ++ [(idx, command)]) Store.new)
include follows start last

theorem Follows.quiet (apart : kind.Apart lower s s')
    (same : ∀ key, kind.standing op key (entries ++ [(idx, command)]) = kind.standing op key entries) :
    kind.Follows lower op (entries ++ [(idx, command)]) s' where
  row? key := by
    rw [same, Kind.row?, Kind.first, apart.1]
    exact follows.row? key
  bound key event inside := by
    rw [same] at inside
    rw [apart.2]
    exact follows.bound key event inside
  known i found := by
    rw [apart.2] at found
    rw [map_append]
    exact mem_append_left _ (follows.known i found)
  entry i := by
    have unchanged : ¬ kind.Changed s s' := by
      simp [Changed, apart.1]
    rw [lastChange_concat, ← start, ← last, apart.2, follows.entry]
    simp [unchanged]

theorem Follows.wrote {row : Option α} (wrote : kind.Wrote lower idx s s' key row)
    (increasing : ∀ i ∈ entries.map Prod.fst, i < idx)
    (here : row = kind.expected (kind.standing op key (entries ++ [(idx, command)])))
    (others : ∀ k, k ≠ key →
      kind.standing op k (entries ++ [(idx, command)]) = kind.standing op k entries)
    (changed : row ≠ kind.row? s key) :
    kind.Follows lower op (entries ++ [(idx, command)]) s' := by
  have written : Store.entry lower s' kind.table = some idx := by
    rw [wrote.entry, if_pos rfl]
  have differs : kind.Changed s s' := by
    intro same
    apply changed
    rw [row?_eq, ← same, ← row?_eq, wrote.row?, if_pos rfl]
  constructor
  case row? =>
    intro k
    rw [wrote.row?]
    by_cases this : k = key
    · rw [if_pos this, this, here]
    · rw [if_neg this, others k this]
      exact follows.row? k
  case bound =>
    intro k event inside
    refine ⟨idx, written, ?_⟩
    have member := (standing_sublist k _).subset (mem_map_of_mem inside)
    rw [map_append, mem_append] at member
    rcases member with old | new
    · exact UInt64.le_of_lt (increasing _ old)
    · simp at new
      simp [new]
  case known =>
    intro i found
    rw [written] at found
    cases found
    simp
  case entry =>
    intro i
    rw [lastChange_concat, ← start, ← last, written]
    simp [differs, eq_comm]

end

section

variable (reads : kind.Reads lower op)
include reads

theorem Reads.follows_concat (increasing : ∀ i ∈ entries.map Prod.fst, i < idx)
    (follows : kind.Follows lower op entries (applyAll lower entries Store.new)) :
    kind.Follows lower op (entries ++ [(idx, command)])
      (applyAll lower (entries ++ [(idx, command)]) Store.new) := by
  have clean := (@Clean.new lower).applyAll entries
  generalize start : applyAll lower entries Store.new = s at follows clean
  generalize last : applyAll lower (entries ++ [(idx, command)]) Store.new = s'
  have step : s' = (apply lower idx command s).1 := by
    rw [← last, applyAll_concat, start]
  have alone (silent : ∀ key, kind.touch op key (idx, command) = none) (key : Bytes) :
      kind.standing op key (entries ++ [(idx, command)]) = kind.standing op key entries := by
    rw [standing_concat, silent]
    rfl
  cases asked : op command with
  | none =>
    apply follows.quiet start.symm last.symm
    · rw [step]
      unfold Store.apply
      split
      · rename_i s' done
        exact reads.other asked clean done
      · exact ⟨rfl, rfl⟩
    · apply alone
      intro key
      simp only [touch, asked]
  | some action =>
    cases action with
    | register row =>
      cases primary : kind.schema.id row with
      | none =>
        obtain ⟨cause, failed⟩ := reads.apply_register_of_none s idx command asked primary
        rw [failed] at step
        apply follows.quiet start.symm last.symm
        · rw [step]
          exact ⟨rfl, rfl⟩
        · apply alone
          intro key
          simp [touch, asked, primary]
      | some key =>
        obtain ⟨s'', applied, wrote⟩ := reads.apply_register clean idx command asked primary
        rw [applied] at step
        subst step
        refine follows.wrote start.symm last.symm wrote increasing ?_ ?_ ?_
        · rw [standing_concat]
          simp only [touch, asked, primary, ↓reduceIte, Option.toList_some, foldl_cons,
            foldl_nil, stand]
          rw [expected_concat, ← follows.row?]
        · intro k other
          rw [standing_concat]
          simp [touch, asked, primary, Ne.symm other]
        · -- The old row was written by an earlier command.
          intro same
          have before := increasing _ (follows.modifyIndex_mem same.symm)
          rw [kind.modifyIndex_stamp] at before
          exact absurd before (UInt64.lt_irrefl idx)
    | deregister key =>
      cases present : kind.row? s key with
      | none =>
        rw [reads.apply_deregister_of_none idx command asked present] at step
        apply follows.quiet start.symm last.symm
        · rw [step]
          exact ⟨rfl, rfl⟩
        · intro k
          rw [standing_concat]
          by_cases this : k = key
          · have gone := expected_eq_none ((follows.row? key).symm.trans present)
            simp [touch, asked, stand, this, gone]
          · simp [touch, asked, Ne.symm this]
      | some row =>
        obtain ⟨s'', applied, wrote⟩ := reads.apply_deregister clean idx command asked present
        rw [applied] at step
        subst step
        refine follows.wrote start.symm last.symm wrote increasing ?_ ?_ ?_
        · rw [standing_concat]
          simp [touch, asked, stand, expected]
        · intro k other
          rw [standing_concat]
          simp [touch, asked, Ne.symm other]
        · rw [present]
          simp

theorem Reads.follows (increasing : (entries.map Prod.fst).Pairwise (· < ·)) :
    kind.Follows lower op entries (applyAll lower entries Store.new) := by
  induction entries using reverseRecOn with
  | nil => exact Follows.new
  | append_singleton entries entry ih =>
    rw [map_append, pairwise_append] at increasing
    obtain ⟨before, -, below⟩ := increasing
    exact reads.follows_concat (fun i inside => below i inside entry.1 (by simp)) (ih before)

/-- Only a register of a row without a key fails. -/
theorem Reads.fails (clean : s.Clean lower) (idx : UInt64)
    (command : Command) (here : op command ≠ none) : (apply lower idx command s).2 ≠ none ↔
      ∃ row, op command = some (.register row) ∧ kind.schema.id row = none := by
  cases asked : op command with
  | none => exact absurd asked here
  | some action =>
    cases action with
    | register row =>
      cases primary : kind.schema.id row with
      | none =>
        obtain ⟨cause, failed⟩ := reads.apply_register_of_none s idx command asked primary
        simp [failed, primary]
      | some key =>
        obtain ⟨s', applied, -⟩ := reads.apply_register clean idx command asked primary
        simp [applied, primary]
    | deregister key =>
      cases present : kind.row? s key with
      | none => simp [reads.apply_deregister_of_none idx command asked present]
      | some row =>
        obtain ⟨s', applied, -⟩ := reads.apply_deregister clean idx command asked present
        simp [applied]

theorem Follows.recorded (clean : s.Clean lower)
    (follows : kind.Follows lower op entries s)
    (increasing : (entries.map Prod.fst).Pairwise (· < ·))
    (others : ∀ idx command, command.table ≠ kind.table →
      kind.Apart lower s (apply lower idx command s).1) :
    kind.Recorded lower op entries s where
  present key := by
    rw [← stand_ne_nil_iff, follows.row?]
    change _ ↔ kind.standing op key entries ≠ []
    cases kind.standing op key entries with
    | nil => simp [expected]
    | cons first rest => simp [expected]
  modifyIndex key row found := by
    rw [follows.row?] at found
    obtain ⟨first, last, -, late, rfl⟩ := expected_eq_some found
    rw [late, kind.modifyIndex_stamp]
    rfl
  createIndex key row found := by
    rw [follows.row?] at found
    obtain ⟨first, last, early, -, rfl⟩ := expected_eq_some found
    rw [early, kind.createIndex_stamp]
    rfl
  ordered key row found := by
    rw [follows.row?] at found
    obtain ⟨first, last, early, late, rfl⟩ := expected_eq_some found
    rw [kind.createIndex_stamp, kind.modifyIndex_stamp]
    refine ⟨?_, follows.bound key last (mem_of_getLast? late)⟩
    have sorted := increasing.sublist (@standing_sublist _ _ kind op key entries)
    cases held : kind.standing op key entries with
    | nil =>
      rw [held] at early
      cases early
    | cons event rest =>
      rw [held] at early late sorted
      cases early
      rcases mem_cons.mp (mem_of_getLast? late) with same | after
      · rw [same]
        exact UInt64.le_refl _
      · exact UInt64.le_of_lt ((pairwise_cons.mp sorted).1 _ (mem_map_of_mem after))
  entry := follows.entry
  fails := reads.fails clean
  others := others

end

end Kind

variable {lower : Str → Str} {s : Store}

/-- The largest of the entries of some tables, zero if none has one. -/
def Store.Largest (lower : Str → Str) (s : Store) (tables : List TableName) (idx : UInt64) :
    Prop :=
  (∀ table ∈ tables, ∀ value, s.entry lower table = some value → value ≤ idx) ∧
    ((∃ table ∈ tables, s.entry lower table = some idx) ∨
      idx = 0 ∧ ∀ table ∈ tables, s.entry lower table = none)

theorem Store.Largest.raise {tables : List TableName} {idx : UInt64} (table : TableName)
    (largest : s.Largest lower tables idx) :
    s.Largest lower (tables ++ [table]) (s.raiseIndex lower idx table) := by
  obtain ⟨above, attained⟩ := largest
  unfold raiseIndex
  cases found : s.entry lower table with
  | none =>
    refine ⟨fun t inside value holds => ?_, ?_⟩
    · rcases mem_append.mp inside with old | new
      · exact above t old value holds
      · rw [mem_singleton.mp new, found] at holds
        cases holds
    · rcases attained with ⟨t, inside, holds⟩ | ⟨zero, none⟩
      · exact .inl ⟨t, mem_append_left _ inside, holds⟩
      · refine .inr ⟨zero, fun t inside => ?_⟩
        rcases mem_append.mp inside with old | new
        · exact none t old
        · rw [mem_singleton.mp new, found]
  | some value =>
    by_cases more : value > idx
    · simp only [more, ↓reduceIte]
      refine ⟨fun t inside v holds => ?_, .inl ⟨table, by simp, found⟩⟩
      rcases mem_append.mp inside with old | new
      · exact UInt64.le_of_lt (UInt64.lt_of_le_of_lt (above t old v holds) more)
      · rw [mem_singleton.mp new, found] at holds
        cases holds
        exact UInt64.le_refl _
    · simp only [more, ↓reduceIte]
      have less : value ≤ idx := UInt64.not_lt.mp more
      refine ⟨fun t inside v holds => ?_, ?_⟩
      · rcases mem_append.mp inside with old | new
        · exact above t old v holds
        · rw [mem_singleton.mp new, found] at holds
          cases holds
          exact less
      · rcases attained with ⟨t, inside, holds⟩ | ⟨zero, -⟩
        · exact .inl ⟨t, mem_append_left _ inside, holds⟩
        · have same : value = idx := by
            rw [zero] at less ⊢
            exact UInt64.le_antisymm less (UInt64.zero_le)
          exact .inl ⟨table, by simp, by rw [found, same]⟩

theorem Store.maxIndexTxn_largest (tables : List TableName) :
    s.Largest lower tables (s.maxIndexTxn lower tables) := by
  induction tables using reverseRecOn with
  | nil => simp [Largest, maxIndexTxn]
  | append_singleton tables table ih =>
    have raised := ih.raise table
    simp only [maxIndexTxn, foldl_append, foldl_cons, foldl_nil] at raised ⊢
    exact raised

/-- In every state that commands with increasing indexes reach, the tables tell the history of
their rows, and a command that fails changes nothing. -/
theorem applyAll_recorded (lower : Str → Str) (entries : List (UInt64 × Command))
    (increasing : (entries.map Prod.fst).Pairwise (· < ·)) :
    let s := applyAll lower entries new
    nodeKind.Recorded lower nodeOp entries s ∧
    (topicKind lower).Recorded lower (topicOp lower) entries s ∧
    partitionKind.Recorded lower partitionOp entries s ∧
    (groupKind lower).Recorded lower groupOp entries s ∧
    (∀ tables, s.Largest lower tables (s.maxIndexTxn lower tables)) ∧
    ∀ idx command, (apply lower idx command s).2 ≠ none → (apply lower idx command s).1 = s := by
  have clean := (@Clean.new lower).applyAll entries
  refine ⟨?_, ?_, ?_, ?_, maxIndexTxn_largest, fun idx command failed => ?_⟩
  · exact Kind.Follows.recorded nodeKind_reads clean (nodeKind_reads.follows increasing) increasing
      (clean.apart_of_wrote nodeKind (·.apart.1))
  · exact Kind.Follows.recorded topicKind_reads clean (topicKind_reads.follows increasing) increasing
      (clean.apart_of_wrote (topicKind lower) (·.apart.2.1))
  · exact Kind.Follows.recorded partitionKind_reads clean (partitionKind_reads.follows increasing)
      increasing (clean.apart_of_wrote partitionKind (·.apart.2.2.1))
  · exact Kind.Follows.recorded groupKind_reads clean (groupKind_reads.follows increasing) increasing
      (clean.apart_of_wrote (groupKind lower) (·.apart.2.2.2))
  · unfold apply at failed ⊢
    split
    · rename_i done
      rw [done] at failed
      exact absurd rfl failed
    · rfl

/-- A node is registered, deregistered, and registered twice again. -/
theorem applyAll_recorded_node :
    nodeKind.Recorded id nodeOp
      [(1, .registerNode ⟨1, 1, [], none, none, 0, 0⟩),
        (3, .deregisterNode ⟨1, 1, [], none, none, 0, 0⟩),
        (4, .registerNode ⟨1, 1, [], none, none, 0, 0⟩),
        (7, .registerNode ⟨1, 1, [], none, none, 0, 0⟩)]
      (applyAll id
        [(1, .registerNode ⟨1, 1, [], none, none, 0, 0⟩),
          (3, .deregisterNode ⟨1, 1, [], none, none, 0, 0⟩),
          (4, .registerNode ⟨1, 1, [], none, none, 0, 0⟩),
          (7, .registerNode ⟨1, 1, [], none, none, 0, 0⟩)] new) :=
  (applyAll_recorded _ _ (by decide)).1

end Jocko.Fsm
