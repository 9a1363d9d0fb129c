import Jocko.Fsm.Store

namespace Jocko.Fsm

open Go MemDB
open Radix (get?)

theorem toLower_str (lower : Str → Str) (table : TableName) :
    toLower lower table.str = table.str := by
  cases table <;> rfl

theorem lowerKey_str_inj {lower : Str → Str} {t t' : TableName}
    (same : lowerKey lower t.str = lowerKey lower t'.str) : t = t' := by
  rw [lowerKey, lowerKey, toLower_str, toLower_str] at same
  have strings := stringKey_inj same
  revert strings
  cases t <;> cases t' <;> decide

namespace Store

variable {lower : Str → Str} {s s' : Store}

/-- Updating the index entry of a table cannot fail and touches nothing else. -/
theorem insertIndex_ok (exact : s.index.Exact (indexTableSchema lower) fun entry => entry)
    (table : TableName) (idx : UInt64) :
    ∃ index, insertIndex lower table idx s = .ok { s with index } ∧
      index.Exact (indexTableSchema lower) (fun entry => entry) ∧
      ∀ t, entry lower { s with index } t = if t = table then some idx else entry lower s t := by
  have filled : table.str ≠ [] := by
    cases table <;> decide
  have primary : (indexTableSchema lower).id ⟨table.str, idx⟩ =
      some (lowerKey lower table.str) := if_neg filled
  cases done : s.index.insert (indexTableSchema lower) (fun entry => entry) ⟨table.str, idx⟩ with
  | error cause =>
    simp only [Table.insert, primary] at done
    cases done
  | ok index =>
    refine ⟨index, by rw [insertIndex, done]; rfl,
      exact.insert (indexTable_separated lower) done, fun t => ?_⟩
    obtain ⟨k, primary', byId⟩ := exact.get?_insert done
    obtain rfl := Option.some.inj (primary.symm.trans primary')
    simp only [entry, byId]
    by_cases same : t = table
    · rw [if_pos same, if_pos (by rw [same])]
      rfl
    · rw [if_neg same, if_neg]
      intro keys
      exact same (lowerKey_str_inj keys)

end Store

namespace Kind

open Store

variable {lower : Str → Str} {ι α : Type} (kind : Kind ι α) {s s' : Store}

/-- The part of the store's invariant that a table of rows needs. -/
structure Sound (lower : Str → Str) (s : Store) : Prop where
  rows : (kind.rows s).Clean kind.schema
  index : s.index.Exact (indexTableSchema lower) fun entry => entry

/-- What the store says of the table's own rows after a step, and of all index entries. -/
structure Wrote (lower : Str → Str) (idx : UInt64) (s s' : Store) (key : Bytes)
    (row : Option α) : Prop where
  shape : ∃ m index, s' = { kind.put s m with index }
  sound : kind.Sound lower s'
  row? : ∀ j, kind.row? s' j = if j = key then row else kind.row? s j
  entry : ∀ t, Store.entry lower s' t =
    if t = kind.table then some idx else Store.entry lower s t

variable {kind}
variable {key : Bytes}

/-- A table's rows and its index entry are written together. -/
theorem Sound.wrote (sound : kind.Sound lower s) (idx : UInt64) {m : Shared MemDB.Tree ι α}
    {row : Option α} (clean : m.Clean kind.schema)
    (byId : ∀ j, (get? m.rows.id j).map Obj.val = if j = key then row else kind.row? s j) :
    ∃ s', insertIndex lower kind.table idx (kind.put s m) = .ok s' ∧
      kind.Wrote lower idx s s' key row := by
  have exact : (kind.put s m).index.Exact (indexTableSchema lower) fun entry => entry := by
    rw [kind.index_put]
    exact sound.index
  obtain ⟨index, done, exact', entries⟩ := insertIndex_ok exact kind.table idx
  refine ⟨_, done, ⟨m, index, rfl⟩, ⟨?_, exact'⟩, fun j => ?_, fun t => ?_⟩
  · rw [kind.rows_index, kind.rows_put]
    exact clean
  · rw [Kind.row?, Kind.first, kind.rows_index, kind.rows_put]
    exact byId j
  · rw [entries t]
    simp only [Store.entry, kind.index_put]

theorem ensureTxn_of_none {row : α} (lower : Str → Str) (s : Store) (idx : UInt64)
    (missing : kind.schema.id row = none) :
    ∃ cause, kind.ensureTxn lower idx row s = .error cause := by
  refine ⟨errorf ("failed inserting " ++ kind.noun) (.new "object missing primary index"), ?_⟩
  simp only [ensureTxn, Shared.insert, Table.insert, kind.id_stamp, missing]
  rfl

/-- A registration writes to its own table and to the indexes, or to nothing. -/
theorem ensureTxn_frame (kind : Kind ι α)
    (exact : s.index.Exact (indexTableSchema lower) fun entry => entry) (idx : UInt64) (row : α) :
    (∃ cause, kind.ensureTxn lower idx row s = .error cause) ∨
      ∃ m index, kind.ensureTxn lower idx row s = .ok { kind.put s m with index } ∧
        index.Exact (indexTableSchema lower) fun entry => entry := by
  cases inserted : (kind.rows s).insert kind.schema
      (kind.stamp row (kind.created idx (kind.row? s (kind.key row))) idx) with
  | error cause =>
    refine Or.inl ⟨errorf ("failed inserting " ++ kind.noun) cause, ?_⟩
    simp only [Kind.ensureTxn, inserted]
    rfl
  | ok m =>
    have exact' : (kind.put s m).index.Exact (indexTableSchema lower) fun entry => entry := by
      rw [kind.index_put]
      exact exact
    obtain ⟨index, done, exact'', -⟩ := insertIndex_ok exact' kind.table idx
    refine Or.inr ⟨m, index, ?_, exact''⟩
    simp only [Kind.ensureTxn, inserted, Except.mapError, bind, Except.bind, done]

theorem Sound.ensureTxn (sound : kind.Sound lower s) (idx : UInt64) {row : α}
    (primary : kind.schema.id row = some key) :
    ∃ s', kind.ensureTxn lower idx row s = .ok s' ∧ kind.Wrote lower idx s s' key
      (some (kind.stamp row (kind.created idx (kind.row? s key)) idx)) := by
  obtain ⟨lookup, -⟩ := kind.complete row key primary
  have stamped := (kind.id_stamp row (kind.created idx (kind.row? s key)) idx).trans primary
  obtain ⟨-, present⟩ := kind.complete _ key stamped
  cases done : (kind.rows s).insert kind.schema
      (kind.stamp row (kind.created idx (kind.row? s key)) idx) with
  | error cause =>
    simp only [Shared.insert, Table.insert, stamped, present] at done
    cases done
  | ok m =>
    obtain ⟨-, inserted⟩ := Shared.insert_eq_ok done
    obtain ⟨k, primary', byId⟩ := sound.rows.exact.get?_insert inserted
    obtain rfl := Option.some.inj (stamped.symm.trans primary')
    obtain ⟨s', written, wrote⟩ := sound.wrote idx
      (sound.rows.insert kind.separated done) (fun j => by
        rw [byId]
        by_cases here : j = key
        · rw [if_pos here, if_pos here]
        · rw [if_neg here, if_neg here, Kind.row?, Kind.first])
    refine ⟨s', ?_, wrote⟩
    simp only [Kind.ensureTxn, lookup, done, Except.mapError, bind, Except.bind, written]

variable {idx : UInt64}

theorem deleteTxn_of_none (absent : kind.row? s key = none) :
    kind.deleteTxn lower idx key s = .ok s := by
  rw [Kind.deleteTxn, Option.map_eq_none_iff.mp absent]

theorem Sound.deleteTxn (sound : kind.Sound lower s) (idx : UInt64) {row : α}
    (present : kind.row? s key = some row) :
    ∃ s', kind.deleteTxn lower idx key s = .ok s' ∧ kind.Wrote lower idx s s' key none := by
  obtain ⟨obj, found, rfl⟩ := Option.map_eq_some_iff.mp present
  have primary := sound.rows.exact.id key obj found
  cases done : (kind.rows s).delete kind.schema obj.val with
  | error cause =>
    have stored : get? (kind.rows s).rows.id key = some obj := found
    simp only [Shared.delete, Table.delete, primary, stored] at done
    cases done
  | ok m =>
    have clean := sound.rows.delete kind.separated done
    have byId (j : Bytes) : get? m.rows.id j =
        if j = key then none else get? (kind.rows s).rows.id j := by
      unfold Shared.delete at done
      cases deleted : (kind.rows s).rows.delete kind.schema Obj.val obj.val with
      | error cause =>
        rw [deleted] at done
        cases done
      | ok rows =>
        rw [deleted] at done
        cases done
        obtain ⟨-, k, primary', byId⟩ := sound.rows.exact.delete kind.separated deleted
        obtain rfl := Option.some.inj (primary.symm.trans primary')
        exact byId j
    obtain ⟨s', written, wrote⟩ := sound.wrote idx clean (fun j => by
      rw [byId]
      by_cases here : j = key
      · rw [if_pos here, if_pos here]
      · rw [if_neg here, if_neg here, Kind.row?, Kind.first])
    refine ⟨s', ?_, wrote⟩
    simp only [Kind.deleteTxn, found, done, bind, Except.bind, written]

/-- A transaction on a table leaves the store as it was, or writes the table's rows and its
index entry. -/
theorem Sound.ensureTxn_shape (sound : kind.Sound lower s) {row : α}
    (done : kind.ensureTxn lower idx row s = .ok s') :
    ∃ key new, kind.schema.id row = some key ∧ kind.Wrote lower idx s s' key new := by
  cases primary : kind.schema.id row with
  | none =>
    obtain ⟨cause, failed⟩ := ensureTxn_of_none lower s idx primary
    rw [failed] at done
    cases done
  | some key =>
    obtain ⟨s'', written, wrote⟩ := sound.ensureTxn idx primary
    obtain rfl := Except.ok.inj (done.symm.trans written)
    exact ⟨key, _, rfl, wrote⟩

theorem Sound.deleteTxn_shape (sound : kind.Sound lower s)
    (done : kind.deleteTxn lower idx key s = .ok s') :
    s' = s ∨ kind.Wrote lower idx s s' key none := by
  cases present : kind.row? s key with
  | none => exact Or.inl (Except.ok.inj (done.symm.trans (deleteTxn_of_none present)))
  | some row =>
    obtain ⟨s'', written, wrote⟩ := sound.deleteTxn idx present
    obtain rfl := Except.ok.inj (done.symm.trans written)
    exact Or.inr wrote

end Kind

end Jocko.Fsm
