import Jocko.MemDB.Tree
import Jocko.Go.Outcome

namespace Jocko.MemDB

open Go
open Radix (get?)

/-- A secondary index: the keys that its indexer finds in an object, none if the value is
missing. -/
structure IndexSchema (α : Type) where
  name : String
  allowMissing : Bool
  unique : Bool
  keys : α → List Bytes

/-- A table: the primary key of an object, if it has one, and the secondary indexes. -/
structure TableSchema (ι α : Type) where
  id : α → Option Bytes
  names : List ι
  index : ι → IndexSchema α

/-- An index that is not unique is made so by the primary key. -/
def IndexSchema.fullKeys {α : Type} (schema : IndexSchema α) (obj : α) (idVal : Bytes) :
    List Bytes :=
  (schema.keys obj).map fun k => if schema.unique then k else k ++ idVal

def IndexSchema.missing {α : Type} (schema : IndexSchema α) (obj : α) : Bool :=
  (schema.keys obj).isEmpty && !schema.allowMissing

variable {T : Type → Type} [Radix T] {ι α ν μ : Type}

/-- Take some keys out and put a value under others. -/
def Radix.swap (t : T ν) (olds news : List Bytes) (v : ν) : T ν :=
  news.foldl (fun t k => insert t k v) (olds.foldl erase t)

/-- The trees of a table. -/
@[ext] structure Table (T : Type → Type) (ι ν : Type) where
  id : T ν
  index : ι → T ν

namespace Table

def empty : Table T ι ν := ⟨Radix.empty, fun _ => Radix.empty⟩

def map (f : ν → μ) (t : Table T ι ν) : Table T ι μ :=
  ⟨Radix.map f t.id, fun i => Radix.map f (t.index i)⟩

section

-- What a tree holds for an object, and how to look at the object.
variable (schema : TableSchema ι α) (deref : ν → α)

/-- `txn.Insert`: an object with the same primary key is replaced, and its entries in the
secondary indexes are those that it would have now. -/
def insert (t : Table T ι ν) (v : ν) : Except Err (Table T ι ν) :=
  match schema.id (deref v) with
  | none => .error (.new "object missing primary index")
  | some idVal =>
    match schema.names.find? fun i => (schema.index i).missing (deref v) with
    | some i => .error (.new ("missing value for index '" ++ (schema.index i).name ++ "'"))
    | none =>
      let existing := (get? t.id idVal).toList
      .ok {
        id := Radix.swap t.id (existing.flatMap fun e => (schema.id (deref e)).toList) [idVal] v
        index := fun i => Radix.swap (t.index i)
          (existing.flatMap fun e => (schema.index i).fullKeys (deref e) idVal)
          ((schema.index i).fullKeys (deref v) idVal) v }

/-- `txn.Delete` -/
def delete (t : Table T ι ν) (obj : α) : Except Err (Table T ι ν) :=
  match schema.id obj with
  | none => .error (.new "object missing primary index")
  | some idVal =>
    match get? t.id idVal with
    | none => .error (.new "not found")
    | some existing => .ok {
        id := (schema.id (deref existing)).toList.foldl Radix.erase t.id
        index := fun i =>
          ((schema.index i).fullKeys (deref existing) idVal).foldl Radix.erase (t.index i) }

/-- Every entry is one that its object would get now, and every object has its entries. -/
structure Exact (t : Table T ι ν) : Prop where
  id : ∀ k v, get? t.id k = some v → schema.id (deref v) = some k
  index : ∀ i f v, get? (t.index i) f = some v ↔
    ∃ k, get? t.id k = some v ∧ f ∈ (schema.index i).fullKeys (deref v) k

end

end Table

/-- Objects with different primary keys have different keys in every index. -/
def TableSchema.Separated {ι α : Type} (schema : TableSchema ι α) : Prop :=
  ∀ i a b x y f, schema.id a = some x → schema.id b = some y →
    f ∈ (schema.index i).fullKeys a x → f ∈ (schema.index i).fullKeys b y → x = y

namespace Radix

theorem get?_eraseAll (t : T ν) (olds : List Bytes) (f : Bytes) :
    get? (olds.foldl erase t) f = if f ∈ olds then none else get? t f := by
  induction olds generalizing t with
  | nil => simp
  | cons k olds ih =>
    rw [List.foldl_cons, ih, get?_erase]
    by_cases here : f = k
    · simp [here]
    · simp [here]

theorem get?_swap (t : T ν) (olds news : List Bytes) (v : ν) (f : Bytes) :
    get? (swap t olds news v) f =
      if f ∈ news then some v else if f ∈ olds then none else get? t f := by
  have inserts (s : T ν) : get? (news.foldl (fun t k => insert t k v) s) f =
      if f ∈ news then some v else get? s f := by
    induction news generalizing s with
    | nil => simp
    | cons k news ih =>
      rw [List.foldl_cons, ih, get?_insert]
      by_cases here : f = k
      · simp [here]
      · simp [here]
  rw [swap, inserts, get?_eraseAll]

end Radix

namespace Table

variable {schema : TableSchema ι α} {deref : ν → α} {t t' : Table T ι ν} {v : ν}

theorem insert_eq_ok (inserted : t.insert schema deref v = .ok t') :
    ∃ idVal, schema.id (deref v) = some idVal ∧ (∀ f, get? t'.id f = if f = idVal then some v else
        if f ∈ (get? t.id idVal).toList.flatMap fun e => (schema.id (deref e)).toList then none
        else get? t.id f) ∧ ∀ i f, get? (t'.index i) f =
        if f ∈ (schema.index i).fullKeys (deref v) idVal then some v else
        if f ∈ (get? t.id idVal).toList.flatMap fun e =>
            (schema.index i).fullKeys (deref e) idVal then none else get? (t.index i) f := by
  unfold insert at inserted
  split at inserted
  · cases inserted
  · rename_i idVal primary
    split at inserted
    · cases inserted
    · cases inserted
      refine ⟨idVal, primary, fun f => ?_, fun i f => ?_⟩
      · rw [Radix.get?_swap]
        simp
      · rw [Radix.get?_swap]

namespace Exact

theorem empty : (Table.empty : Table T ι ν).Exact schema deref where
  id k v found := by simp [Table.empty] at found
  index i f v := by simp [Table.empty]

theorem get?_insert (exact : t.Exact schema deref) (inserted : t.insert schema deref v = .ok t') :
    ∃ idVal, schema.id (deref v) = some idVal ∧
      ∀ k, get? t'.id k = if k = idVal then some v else get? t.id k := by
  obtain ⟨idVal, primary, byId, -⟩ := insert_eq_ok inserted
  refine ⟨idVal, primary, fun k => ?_⟩
  rw [byId]
  split
  · rfl
  · rename_i other
    have kept : k ∉ (get? t.id idVal).toList.flatMap fun e => (schema.id (deref e)).toList := by
      intro inside
      obtain ⟨e, found, key⟩ := List.mem_flatMap.mp inside
      rw [exact.id idVal e (Option.mem_toList.mp found)] at key
      exact other (by simpa using key)
    rw [if_neg kept]

theorem insert (exact : t.Exact schema deref) (separated : schema.Separated)
    (inserted : t.insert schema deref v = .ok t') : t'.Exact schema deref := by
  obtain ⟨idVal, primary, byId⟩ := exact.get?_insert inserted
  obtain ⟨idVal', primary', -, byIndex⟩ := insert_eq_ok inserted
  obtain rfl : idVal = idVal' := Option.some.inj (primary.symm.trans primary')
  have keyed : ∀ k u, get? t'.id k = some u → schema.id (deref u) = some k := by
    intro k u found
    rw [byId] at found
    split at found
    · rename_i same
      cases found
      rw [primary, same]
    · exact exact.id k u found
  refine ⟨keyed, fun i f u => ?_⟩
  rw [byIndex]
  constructor
  · intro found
    by_cases new : f ∈ (schema.index i).fullKeys (deref v) idVal
    · rw [if_pos new] at found
      cases found
      exact ⟨idVal, by rw [byId, if_pos rfl], new⟩
    · rw [if_neg new] at found
      split at found
      · cases found
      · rename_i kept
        obtain ⟨k, stored, key⟩ := (exact.index i f u).mp found
        have other : k ≠ idVal := by
          rintro rfl
          exact kept (List.mem_flatMap.mpr ⟨u, Option.mem_toList.mpr stored, key⟩)
        exact ⟨k, by rw [byId, if_neg other]; exact stored, key⟩
  · rintro ⟨k, stored, key⟩
    have here := keyed k u stored
    by_cases same : k = idVal
    · subst same
      rw [byId, if_pos rfl] at stored
      cases stored
      rw [if_pos key]
    · -- The keys of an object with another primary key are touched by neither.
      rw [byId, if_neg same] at stored
      have notNew : f ∉ (schema.index i).fullKeys (deref v) idVal := fun new =>
        same (separated i _ _ _ _ f here primary key new)
      have notOld : f ∉ (get? t.id idVal).toList.flatMap fun e =>
          (schema.index i).fullKeys (deref e) idVal := by
        intro old
        obtain ⟨e, found, old⟩ := List.mem_flatMap.mp old
        exact same (separated i _ _ _ _ f here (exact.id idVal e (Option.mem_toList.mp found)) key old)
      rw [if_neg notNew, if_neg notOld]
      exact (exact.index i f u).mpr ⟨k, stored, key⟩

theorem delete {obj : α} (exact : t.Exact schema deref) (separated : schema.Separated)
    (deleted : t.delete schema deref obj = .ok t') :
    t'.Exact schema deref ∧ ∃ idVal, schema.id obj = some idVal ∧
      ∀ k, get? t'.id k = if k = idVal then none else get? t.id k := by
  unfold Table.delete at deleted
  split at deleted
  · cases deleted
  · rename_i idVal primary
    split at deleted
    · cases deleted
    · rename_i existing present
      have key := exact.id idVal existing present
      cases deleted
      have byId (k : Bytes) : get? ((schema.id (deref existing)).toList.foldl Radix.erase t.id) k =
          if k = idVal then none else get? t.id k := by
        rw [Radix.get?_eraseAll, key]
        simp
      refine ⟨⟨fun k u found => ?_, fun i f u => ?_⟩, idVal, primary, byId⟩
      · rw [byId] at found
        split at found
        · cases found
        · exact exact.id k u found
      · simp only [Radix.get?_eraseAll, byId]
        constructor
        · intro found
          split at found
          · cases found
          · rename_i kept
            obtain ⟨k, stored, here⟩ := (exact.index i f u).mp found
            refine ⟨k, ?_, here⟩
            rw [if_neg]
            · exact stored
            · rintro rfl
              obtain rfl := Option.some.inj (present.symm.trans stored)
              exact kept here
        · rintro ⟨k, stored, here⟩
          split at stored
          · cases stored
          · rename_i other
            rw [if_neg]
            · exact (exact.index i f u).mpr ⟨k, stored, here⟩
            · intro gone
              exact other (separated i _ _ _ _ f (exact.id k u stored) key here gone)

end Exact

end Table

end Jocko.MemDB
