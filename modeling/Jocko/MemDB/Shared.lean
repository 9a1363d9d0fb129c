import Jocko.MemDB.Table

namespace Jocko.MemDB

open Go Option
open Radix (get?)

/-- An object as a tree holds it, by reference: where it is, and what is there now. -/
structure Obj (α : Type) where
  addr : Nat
  val : α

/-- A write to the object at an address. -/
def Obj.edit {α : Type} (addr : Nat) (f : α → α) (o : Obj α) : Obj α :=
  if o.addr = addr then { o with val := f o.val } else o

/-- A table whose objects the callers share with it. -/
structure Shared (T : Type → Type) (ι α : Type) where
  next : Nat
  rows : Table T ι (Obj α)

namespace Shared

variable {T : Type → Type} [Radix T] {ι α : Type}

def empty : Shared T ι α := ⟨0, Table.empty⟩

/-- What the table says, whoever holds the objects. -/
def content (m : Shared T ι α) : Table T ι α := m.rows.map Obj.val

/-- The objects, in the order of their primary keys. -/
abbrev values (m : Shared T ι α) : List α := (Radix.values m.rows.id).map Obj.val

/-- Every reader of the address sees the write, and no tree is updated. -/
def edit (m : Shared T ι α) (addr : Nat) (f : α → α) : Shared T ι α :=
  { m with rows := m.rows.map (Obj.edit addr f) }

section

variable (schema : TableSchema ι α)

/-- Insert a new object. -/
def insert (m : Shared T ι α) (obj : α) : Except Err (Shared T ι α) :=
  (m.rows.insert schema Obj.val ⟨m.next, obj⟩).map fun rows => ⟨m.next + 1, rows⟩

def delete (m : Shared T ι α) (obj : α) : Except Err (Shared T ι α) :=
  (m.rows.delete schema Obj.val obj).map fun rows => { m with rows }

/-- The indexes are exact, and each object stands under one primary key. -/
structure Clean (m : Shared T ι α) : Prop where
  exact : m.rows.Exact schema Obj.val
  below : ∀ k o, get? m.rows.id k = some o → o.addr < m.next
  apart : ∀ k k' o o', get? m.rows.id k = some o → get? m.rows.id k' = some o' →
    o.addr = o'.addr → k = k'

end

variable {schema : TableSchema ι α} {m m' : Shared T ι α} {obj : α}

theorem insert_eq_ok (inserted : m.insert schema obj = .ok m') :
    m'.next = m.next + 1 ∧ m.rows.insert schema Obj.val ⟨m.next, obj⟩ = .ok m'.rows := by
  unfold insert at inserted
  cases done : m.rows.insert schema Obj.val ⟨m.next, obj⟩ with
  | error cause =>
    rw [done] at inserted
    cases inserted
  | ok rows =>
    rw [done] at inserted
    cases inserted
    exact ⟨rfl, rfl⟩

namespace Clean

theorem empty : (Shared.empty : Shared T ι α).Clean schema where
  exact := Table.Exact.empty
  below k o found := by simp [Shared.empty, Table.empty] at found
  apart k k' o o' found := by simp [Shared.empty, Table.empty] at found

theorem insert (clean : m.Clean schema) (separated : schema.Separated)
    (inserted : m.insert schema obj = .ok m') : m'.Clean schema := by
  obtain ⟨next, done⟩ := insert_eq_ok inserted
  obtain ⟨idVal, -, byId⟩ := clean.exact.get?_insert done
  refine ⟨clean.exact.insert separated done, fun k o found => ?_, fun k k' o o' found found' same => ?_⟩
  · rw [byId] at found
    rw [next]
    split at found
    · cases found
      exact Nat.lt_succ_self _
    · exact Nat.lt_succ_of_lt (clean.below k o found)
  · rw [byId] at found found'
    split at found
    · cases found
      split at found'
      · subst_vars
        rfl
      · exact absurd (clean.below k' o' found') (by rw [← same]; exact Nat.lt_irrefl _)
    · split at found'
      · cases found'
        exact absurd (clean.below k o found) (by rw [same]; exact Nat.lt_irrefl _)
      · exact clean.apart k k' o o' found found' same

theorem delete (clean : m.Clean schema) (separated : schema.Separated)
    (deleted : m.delete schema obj = .ok m') : m'.Clean schema := by
  unfold Shared.delete at deleted
  cases done : m.rows.delete schema Obj.val obj with
  | error cause =>
    rw [done] at deleted
    cases deleted
  | ok rows =>
    rw [done] at deleted
    cases deleted
    obtain ⟨exact, idVal, -, byId⟩ := clean.exact.delete separated done
    have old {k : Bytes} {o : Obj α} (found : get? rows.id k = some o) :
        get? m.rows.id k = some o := by
      rw [byId] at found
      split at found
      · cases found
      · exact found
    exact ⟨exact, fun k o found => clean.below k o (old found),
      fun k k' o o' found found' same => clean.apart k k' o o' (old found) (old found') same⟩

theorem edit (clean : m.Clean schema) {f : α → α} (addr : Nat) (id : ∀ a, schema.id (f a) = schema.id a)
    (keys : ∀ i a, (schema.index i).keys (f a) = (schema.index i).keys a) :
    (m.edit addr f).Clean schema := by
  have kept (o : Obj α) : (o.edit addr f).addr = o.addr ∧
      schema.id (o.edit addr f).val = schema.id o.val ∧
      ∀ i k, (schema.index i).fullKeys (o.edit addr f).val k = (schema.index i).fullKeys o.val k := by
    unfold Obj.edit
    split
    · exact ⟨rfl, id o.val, fun i k => by simp only [IndexSchema.fullKeys, keys]⟩
    · exact ⟨rfl, rfl, fun i k => rfl⟩
  simp only [Shared.edit, Table.map]
  refine ⟨⟨fun k v found => ?_, fun i g v => ?_⟩, fun k o found => ?_,
    fun k k' o o' found found' same => ?_⟩
  · rw [Radix.get?_map] at found
    obtain ⟨o, stored, rfl⟩ := map_eq_some_iff.mp found
    rw [(kept o).2.1]
    exact clean.exact.id k o stored
  · simp only [Radix.get?_map, map_eq_some_iff]
    constructor
    · rintro ⟨o, found, rfl⟩
      obtain ⟨k, stored, key⟩ := (clean.exact.index i g o).mp found
      exact ⟨k, ⟨o, stored, rfl⟩, by rwa [(kept o).2.2]⟩
    · rintro ⟨k, ⟨o, stored, rfl⟩, key⟩
      rw [(kept o).2.2] at key
      exact ⟨o, (clean.exact.index i g o).mpr ⟨k, stored, key⟩, rfl⟩
  · rw [Radix.get?_map] at found
    obtain ⟨o, stored, rfl⟩ := map_eq_some_iff.mp found
    rw [(kept o).1]
    exact clean.below k o stored
  · rw [Radix.get?_map] at found found'
    obtain ⟨o, stored, rfl⟩ := map_eq_some_iff.mp found
    obtain ⟨o', stored', rfl⟩ := map_eq_some_iff.mp found'
    rw [(kept o).1, (kept o').1] at same
    exact clean.apart k k' o o' stored stored' same

/-- An insertion under the key of an object hides what was written to the object. -/
theorem insert_edit (clean : m.Clean schema) {f : α → α} {k : Bytes} {o : Obj α}
    (stored : get? m.rows.id k = some o) (id : ∀ a, schema.id (f a) = schema.id a)
    (keys : ∀ i a, (schema.index i).keys (f a) = (schema.index i).keys a)
    (primary : schema.id obj = some k) :
    (m.edit o.addr f).insert schema obj = m.insert schema obj := by
  have key := clean.exact.id k o stored
  have edited : get? (m.edit o.addr f).rows.id k = some (o.edit o.addr f) := by
    rw [Shared.edit, Table.map, Radix.get?_map, stored]
    rfl
  have written : (o.edit o.addr f).val = f o.val := by
    rw [Obj.edit, if_pos rfl]
  have elsewhere {j : Bytes} {u : Obj α} (other : j ≠ k) (found : get? m.rows.id j = some u) :
      u.edit o.addr f = u := by
    rw [Obj.edit, if_neg]
    intro same
    exact other (clean.apart j k u o found stored same)
  simp only [Shared.insert, Table.insert, primary]
  cases schema.names.find? fun i => (schema.index i).missing obj with
  | some i => rfl
  | none =>
    simp only [Except.map, edited, stored, toList_some, List.flatMap_cons,
      List.flatMap_nil, List.append_nil, written, id, key]
    simp only [Shared.edit]
    congr 2
    apply Table.ext
    · apply Radix.ext_get?
      intro j
      simp only [Radix.get?_swap, Table.map, Radix.get?_map, List.mem_singleton]
      by_cases here : j = k
      · simp only [here, ↓reduceIte]
      · simp only [here, ↓reduceIte]
        cases found : get? m.rows.id j with
        | none => rfl
        | some u => rw [map_some, elsewhere here found]
    · funext i
      apply Radix.ext_get?
      intro g
      have same : (schema.index i).fullKeys (f o.val) k = (schema.index i).fullKeys o.val k := by
        simp only [IndexSchema.fullKeys, keys]
      simp only [Radix.get?_swap, Table.map, Radix.get?_map, same]
      split
      · rfl
      · split
        · rfl
        · rename_i gone
          cases found : get? (m.rows.index i) g with
          | none => rfl
          | some u =>
            obtain ⟨j, held, inside⟩ := (clean.exact.index i g u).mp found
            have other : j ≠ k := by
              rintro rfl
              obtain rfl := some.inj (stored.symm.trans held)
              exact gone inside
            rw [map_some, elsewhere other held]

end Clean

end Shared

end Jocko.MemDB
