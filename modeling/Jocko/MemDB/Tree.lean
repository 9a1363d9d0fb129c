import Jocko.Go.Bytes

namespace Jocko.MemDB

open Go List

/-- The order of the keys in a radix tree: byte by byte, a prefix first. -/
def before : Bytes → Bytes → Bool
  | _, [] => false
  | [], _ :: _ => true
  | a :: as, b :: bs => decide (a < b) || (decide (a = b) && before as bs)

theorem before_irrefl (k : Bytes) : before k k = false := by
  induction k with
  | nil => rfl
  | cons a as ih => simp [before, ih]

theorem before_trans {j k l : Bytes} (first : before j k = true) (second : before k l = true) :
    before j l = true := by
  induction j generalizing k l with
  | nil =>
    cases k with
    | nil => simp [before] at first
    | cons b bs =>
      cases l with
      | nil => simp [before] at second
      | cons c cs => rfl
  | cons a as ih =>
    cases k with
    | nil => simp [before] at first
    | cons b bs =>
      cases l with
      | nil => simp [before] at second
      | cons c cs =>
        simp only [before, Bool.or_eq_true, Bool.and_eq_true, decide_eq_true_eq] at *
        rcases first with less | ⟨rfl, first⟩
        · rcases second with less' | ⟨rfl, -⟩
          · exact .inl (UInt8.lt_trans less less')
          · exact .inl less
        · rcases second with less' | ⟨rfl, second⟩
          · exact .inl less'
          · exact .inr ⟨rfl, ih first second⟩

theorem before_total {k l : Bytes} (ne : k ≠ l) : before k l = true ∨ before l k = true := by
  induction k generalizing l with
  | nil =>
    cases l with
    | nil => exact absurd rfl ne
    | cons b bs => exact .inl rfl
  | cons a as ih =>
    cases l with
    | nil => exact .inr rfl
    | cons b bs =>
      simp only [before, Bool.or_eq_true, Bool.and_eq_true, decide_eq_true_eq]
      by_cases same : a = b
      · subst same
        have rest : as ≠ bs := by
          intro equal
          exact ne (by rw [equal])
        rcases ih rest with less | less
        · exact .inl (.inr ⟨rfl, less⟩)
        · exact .inr (.inr ⟨rfl, less⟩)
      · rcases UInt8.lt_or_lt_of_ne same with less | less
        · exact .inl (.inl less)
        · exact .inr (.inl less)

/-- The immutable radix trees that the database keeps: their entries in the order of the keys, after
every operation. What the database itself does with a tree is to look up, insert and erase; `map`
writes to the values in place. -/
class Radix (T : Type → Type) where
  entries {ν : Type} : T ν → List (Bytes × ν)
  empty {ν : Type} : T ν
  insert {ν : Type} : T ν → Bytes → ν → T ν
  erase {ν : Type} : T ν → Bytes → T ν
  map {ν μ : Type} : (ν → μ) → T ν → T μ
  sorted {ν : Type} (t : T ν) : (entries t).Pairwise fun e e' => before e.1 e'.1 = true
  entries_empty {ν : Type} : entries (empty : T ν) = []
  lookup_insert {ν : Type} (t : T ν) (k j : Bytes) (v : ν) :
    (entries (insert t k v)).lookup j = if j = k then some v else (entries t).lookup j
  entries_erase {ν : Type} (t : T ν) (k : Bytes) :
    entries (erase t k) = (entries t).filter fun e => e.1 ≠ k
  entries_map {ν μ : Type} (f : ν → μ) (t : T ν) :
    entries (map f t) = (entries t).map fun e => (e.1, f e.2)
  ext_entries {ν : Type} {t t' : T ν} (same : entries t = entries t') : t = t'

theorem lookup_cons_ne {ν : Type} {k j : Bytes} (ne : j ≠ k) (v : ν) (entries : List (Bytes × ν)) :
    ((k, v) :: entries).lookup j = entries.lookup j := by
  have other : (j == k) = false := by simpa using ne
  rw [lookup_cons, other]

namespace Radix

variable {T : Type → Type} [Radix T] {ν μ : Type} {t t' : T ν}

def get? (t : T ν) (k : Bytes) : Option ν := (entries t).lookup k

/-- What an iterator over the whole tree returns. -/
def values (t : T ν) : List ν := (entries t).map Prod.snd

/-- What an iterator returns once it has sought a key's beginning. -/
def scan (t : T ν) (p : Bytes) : List ν :=
  ((entries t).filter fun e => p.isPrefixOf e.1).map Prod.snd

theorem get?_eq_some {k : Bytes} {v : ν} : get? t k = some v ↔ (k, v) ∈ entries t := by
  have sorted := sorted t
  rw [get?]
  generalize entries t = entries at sorted ⊢
  induction entries with
  | nil => simp
  | cons first entries ih =>
    obtain ⟨k', v'⟩ := first
    obtain ⟨above, rest⟩ := pairwise_cons.mp sorted
    by_cases same : k = k'
    · subst same
      constructor
      · intro found
        obtain rfl : v' = v := by simpa [lookup_cons] using found
        exact mem_cons_self ..
      · intro inside
        rcases mem_cons.mp inside with here | later
        · cases here
          simp
        · exact absurd (above _ later) (by simp [before_irrefl])
    · rw [lookup_cons_ne same, mem_cons]
      simpa [same] using ih rest

@[simp] theorem get?_empty (k : Bytes) : get? (empty : T ν) k = none := by
  rw [get?, entries_empty, lookup_nil]

theorem get?_insert (t : T ν) (k j : Bytes) (v : ν) :
    get? (insert t k v) j = if j = k then some v else get? t j := lookup_insert t k j v

theorem get?_erase (t : T ν) (k j : Bytes) :
    get? (erase t k) j = if j = k then none else get? t j := by
  rw [get?, get?, entries_erase]
  induction entries t with
  | nil => simp
  | cons first entries ih =>
    obtain ⟨k', v'⟩ := first
    by_cases gone : k' = k
    · subst gone
      by_cases same : j = k'
      · subst same
        simpa using ih
      · simpa [same, lookup_cons_ne same] using ih
    · by_cases first : j = k'
      · subst first
        simp [gone]
      · simpa [gone, lookup_cons_ne first] using ih

theorem get?_map (f : ν → μ) (t : T ν) (k : Bytes) : get? (map f t) k = (get? t k).map f := by
  rw [get?, get?, entries_map]
  induction entries t with
  | nil => rfl
  | cons first entries ih =>
    obtain ⟨k', v'⟩ := first
    by_cases same : k = k'
    · simp [same]
    · simpa [lookup_cons_ne same] using ih

theorem ext_get? (same : ∀ k, get? t k = get? t' k) : t = t' := by
  have members (e : Bytes × ν) : e ∈ entries t ↔ e ∈ entries t' := by
    rw [← get?_eq_some, ← get?_eq_some, same]
  have irrefl (e e' : Bytes × ν) (less : before e.1 e'.1 = true) : e ≠ e' := by
    intro equal
    rw [equal, before_irrefl] at less
    cases less
  have perm : (entries t).Perm (entries t') :=
    (perm_ext_iff_of_nodup ((sorted t).imp (irrefl _ _)) ((sorted t').imp (irrefl _ _))).mpr members
  refine ext_entries (perm.eq_of_pairwise (fun e e' _ _ less less' => ?_) (sorted t) (sorted t'))
  have loop := before_trans less less'
  rw [before_irrefl] at loop
  cases loop

theorem mem_values {v : ν} : v ∈ values t ↔ ∃ k, get? t k = some v := by
  simp only [values, mem_map, get?_eq_some, Prod.exists, exists_eq_right]

theorem mem_scan {p : Bytes} {v : ν} : v ∈ scan t p ↔ ∃ k, p <+: k ∧ get? t k = some v := by
  simp only [scan, mem_map, mem_filter, isPrefixOf_iff_prefix, get?_eq_some,
    Prod.exists, exists_eq_right]
  constructor
  · rintro ⟨k, inside, begins⟩
    exact ⟨k, begins, inside⟩
  · rintro ⟨k, begins, inside⟩
    exact ⟨k, inside, begins⟩

theorem values_map (f : ν → μ) (t : T ν) : values (map f t) = (values t).map f := by
  simp [values, entries_map]

end Radix

/-- A tree as the list of its entries. -/
@[ext] structure Tree (ν : Type) where
  entries : List (Bytes × ν)
  sorted : entries.Pairwise fun e e' => before e.1 e'.1 = true

namespace Tree

variable {ν : Type}

def put (k : Bytes) (v : ν) : List (Bytes × ν) → List (Bytes × ν)
  | [] => [(k, v)]
  | (k', v') :: entries =>
    if k = k' then (k, v) :: entries
    else if before k k' then (k, v) :: (k', v') :: entries
    else (k', v') :: put k v entries

theorem mem_put {k : Bytes} {v : ν} {entries : List (Bytes × ν)} {e : Bytes × ν}
    (inside : e ∈ put k v entries) : e = (k, v) ∨ e ∈ entries := by
  induction entries with
  | nil => exact .inl (mem_singleton.mp inside)
  | cons first entries ih =>
    unfold put at inside
    split at inside
    · rcases mem_cons.mp inside with new | old
      · exact .inl new
      · exact .inr (mem_cons_of_mem _ old)
    · split at inside
      · rcases mem_cons.mp inside with new | old
        · exact .inl new
        · exact .inr old
      · rcases mem_cons.mp inside with here | later
        · exact .inr (here ▸ mem_cons_self ..)
        · rcases ih later with new | old
          · exact .inl new
          · exact .inr (mem_cons_of_mem _ old)

theorem sorted_put {entries : List (Bytes × ν)} (k : Bytes) (v : ν)
    (sorted : entries.Pairwise fun e e' => before e.1 e'.1 = true) :
    (put k v entries).Pairwise fun e e' => before e.1 e'.1 = true := by
  induction entries with
  | nil => exact pairwise_singleton _ _
  | cons first entries ih =>
    obtain ⟨above, rest⟩ := pairwise_cons.mp sorted
    unfold put
    split
    · rename_i same
      refine pairwise_cons.mpr ⟨fun e inside => ?_, rest⟩
      rw [same]
      exact above e inside
    · split
      · rename_i below
        refine pairwise_cons.mpr ⟨fun e inside => ?_, sorted⟩
        rcases mem_cons.mp inside with rfl | later
        · exact below
        · exact before_trans below (above e later)
      · rename_i other notBelow
        refine pairwise_cons.mpr ⟨fun e inside => ?_, ih rest⟩
        rcases mem_put inside with rfl | old
        · exact (before_total other).resolve_left notBelow
        · exact above e old

theorem lookup_put (k j : Bytes) (v : ν) (entries : List (Bytes × ν)) :
    (put k v entries).lookup j = if j = k then some v else entries.lookup j := by
  induction entries with
  | nil =>
    by_cases same : j = k
    · simp [put, same]
    · simp [put, same, lookup_cons_ne same]
  | cons first entries ih =>
    obtain ⟨k', v'⟩ := first
    unfold put
    by_cases here : k = k'
    · subst here
      by_cases same : j = k
      · simp [same]
      · simp [same, lookup_cons_ne same]
    · rw [if_neg here]
      by_cases below : before k k' = true
      · rw [if_pos below]
        by_cases same : j = k
        · simp [same]
        · simp [same, lookup_cons_ne same]
      · rw [if_neg below]
        by_cases first : j = k'
        · subst first
          simp [Ne.symm here]
        · rw [lookup_cons_ne first, lookup_cons_ne first]
          exact ih

instance : Radix Tree where
  entries := Tree.entries
  empty := ⟨[], .nil⟩
  insert t k v := ⟨put k v t.entries, sorted_put k v t.sorted⟩
  erase t k := ⟨t.entries.filter fun e => e.1 ≠ k, t.sorted.filter _⟩
  map f t := ⟨t.entries.map fun e => (e.1, f e.2), pairwise_map.mpr t.sorted⟩
  sorted := Tree.sorted
  entries_empty := rfl
  lookup_insert t k j v := lookup_put k j v t.entries
  entries_erase _ _ := rfl
  entries_map _ _ := rfl
  ext_entries := Tree.ext

end Tree

end Jocko.MemDB
