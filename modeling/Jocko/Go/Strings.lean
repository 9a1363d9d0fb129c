import Jocko.Go.Bytes

namespace Jocko.Go

open List

/-- A Go string: any bytes. -/
abbrev Str := Bytes

/-- The bytes of an ASCII literal. -/
def ascii (s : String) : Str := s.toList.map fun c => UInt8.ofNat c.toNat

def lowerByte (b : UInt8) : UInt8 := if 65 ≤ b ∧ b ≤ 90 then b + 32 else b

/-- `strings.ToLower`. What becomes of a string with other bytes than ASCII is in the
tables of the `unicode` package. -/
def toLower (lower : Str → Str) (s : Str) : Str :=
  if s.all (· < 128) then s.map lowerByte else lower s

/-- `net.SplitHostPort`, with none for its errors: the port is behind the last colon, and a host
with colons is in brackets. -/
def splitHostPort (hostport : Str) : Option (Str × Str) :=
  let port := (hostport.reverse.takeWhile (· ≠ 58)).reverse
  let front := hostport.take (hostport.length - port.length - 1)
  let host := if front.head? = some 91 then front.tail.dropLast else front
  if 58 ∉ hostport then none
  else if front.head? = some 91 ∧ (front.tail = [] ∨ front.getLast? ≠ some 93) then none
  else if front.head? ≠ some 91 ∧ 58 ∈ host then none
  else if 91 ∈ host ++ port ∨ 93 ∈ host ++ port then none
  else some (host, port)

/-- A Go map; `none` is the nil map. -/
abbrev GoMap (κ ν : Type) := Option (List (κ × ν))

namespace GoMap

variable {κ ν : Type} [DecidableEq κ]

/-- `make(map[κ]ν)` -/
def make : GoMap κ ν := some []

/-- `v, ok := m[k]` -/
def get? (m : GoMap κ ν) (k : κ) : Option ν := (m.getD []).lookup k

/-- `m[k] = v`; there is none for the nil map, where the assignment panics. -/
def set (m : GoMap κ ν) (k : κ) (v : ν) : Option (GoMap κ ν) :=
  m.map fun entries => some ((k, v) :: entries.filter fun e => e.1 ≠ k)

/-- `delete(m, k)` -/
def delete (m : GoMap κ ν) (k : κ) : GoMap κ ν := m.map fun entries => entries.filter fun e => e.1 ≠ k

/-- The entries in the order in which a `range` meets them. -/
def entries (m : GoMap κ ν) : List (κ × ν) := m.getD []

omit [DecidableEq κ] in
theorem entries_some (es : List (κ × ν)) : entries (some es) = es := rfl

theorem get?_ne_none {m : GoMap κ ν} {k : κ} : m.get? k ≠ none ↔ ∃ e ∈ m.entries, e.1 = k := by
  change lookup k (m.getD []) ≠ none ↔ _
  simp only [ne_eq, lookup_eq_none_iff, not_forall, entries]
  constructor
  · rintro ⟨e, inside, here⟩
    exact ⟨e, inside, (beq_iff_eq.mp (by simpa using here)).symm⟩
  · rintro ⟨e, inside, rfl⟩
    exact ⟨e, inside, by simp⟩

theorem mem_delete {m : GoMap κ ν} {k : κ} {e : κ × ν} :
    e ∈ (m.delete k).entries ↔ e ∈ m.entries ∧ e.1 ≠ k := by
  cases m with
  | none => simp [delete, entries]
  | some entries => simp [delete, GoMap.entries]

/-- The entries of a map after the assignments `es`. -/
def assign (m : List (κ × ν)) : List (κ × ν) → List (κ × ν)
  | [] => m
  | (k, v) :: es => assign ((k, v) :: m.filter fun e => e.1 ≠ k) es

/-- The map that the assignments `es` make. -/
def assigned (es : List (κ × ν)) : GoMap κ ν := some (assign [] es)

theorem mem_assign {e : κ × ν} {m es : List (κ × ν)} (inside : e ∈ assign m es) :
    e ∈ m ∨ e ∈ es := by
  induction es generalizing m with
  | nil => exact .inl inside
  | cons first es ih =>
    rcases ih inside with old | new
    · rcases mem_cons.mp old with rfl | kept
      · exact .inr (mem_cons_self ..)
      · exact .inl (mem_filter.mp kept).1
    · exact .inr (mem_cons_of_mem _ new)

theorem length_assign_le (m es : List (κ × ν)) : (assign m es).length ≤ m.length + es.length := by
  induction es generalizing m with
  | nil => exact Nat.le_refl _
  | cons first es ih =>
    have rest := ih (first :: m.filter fun e => e.1 ≠ first.1)
    have fewer := length_filter_le (fun e => decide (e.1 ≠ first.1)) m
    simp only [length_cons] at rest ⊢
    exact Nat.le_trans rest (by omega)

/-- Assignments to distinct keys all stay, the last in front. -/
theorem assign_of_nodup {m es : List (κ × ν)} (distinct : ((es ++ m).map Prod.fst).Nodup) :
    assign m es = es.reverse ++ m := by
  induction es generalizing m with
  | nil => rfl
  | cons first es ih =>
    rw [cons_append, map_cons, nodup_cons] at distinct
    obtain ⟨fresh, distinct⟩ := distinct
    have kept : m.filter (fun e => e.1 ≠ first.1) = m := by
      rw [filter_eq_self]
      intro e inside
      rw [decide_eq_true_eq]
      intro same
      apply fresh
      rw [← same]
      exact mem_map_of_mem (mem_append_right _ inside)
    have moved : ((es ++ first :: m).map Prod.fst).Nodup := by
      rw [perm_middle.map Prod.fst |>.nodup_iff, map_cons, nodup_cons]
      exact ⟨fresh, distinct⟩
    change assign (first :: m.filter fun e => e.1 ≠ first.1) es = _
    rw [kept, ih moved, reverse_cons, append_assoc]
    rfl

end GoMap

theorem related_of_mem {α β : Type} {R : α → β → Prop} {xs : List α} {ys : List β}
    (related : List.Forall₂ R xs ys) {y : β} (inside : y ∈ ys) : ∃ x ∈ xs, R x y := by
  induction related with
  | nil => cases inside
  | cons head _ ih =>
    rcases mem_cons.mp inside with rfl | later
    · exact ⟨_, mem_cons_self .., head⟩
    · obtain ⟨x, there, holds⟩ := ih later
      exact ⟨x, mem_cons_of_mem _ there, holds⟩

theorem related_trans {α : Type} {R : α → α → Prop} (trans : ∀ {x y z}, R x y → R y z → R x z)
    {xs ys zs : List α} (first : List.Forall₂ R xs ys) (second : List.Forall₂ R ys zs) :
    List.Forall₂ R xs zs := by
  induction first generalizing zs with
  | nil => exact second
  | cons head _ ih =>
    cases second with
    | cons head' tail' => exact .cons (trans head head') (ih tail')

/-- A key that stands in a list once has the value that stands there with it. -/
theorem lookup_eq_some_iff_mem {κ ν : Type} [BEq κ] [LawfulBEq κ] {m : List (κ × ν)} {k : κ} {v : ν}
    (distinct : (m.map Prod.fst).Nodup) : m.lookup k = some v ↔ (k, v) ∈ m := by
  rw [lookup_eq_some_iff]
  constructor
  · rintro ⟨before, behind, rfl, -⟩
    simp
  · intro inside
    obtain ⟨before, behind, rfl⟩ := append_of_mem inside
    refine ⟨before, behind, rfl, fun e early => ?_⟩
    rw [map_append, nodup_append] at distinct
    simpa using (distinct.2.2 e.1 (mem_map_of_mem early) k (by simp)).symm

theorem lookup_replace {κ ν : Type} [DecidableEq κ] [BEq κ] [LawfulBEq κ] (m : List (κ × ν))
    (k k' : κ) (v : ν) :
    ((k, v) :: m.filter fun e => e.1 ≠ k).lookup k' = if k' = k then some v else m.lookup k' := by
  by_cases here : k' = k
  · simp [here]
  · have kept : (m.filter fun e => e.1 ≠ k).lookup k' = m.lookup k' := by
      induction m with
      | nil => rfl
      | cons e m ih =>
        obtain ⟨key, value⟩ := e
        by_cases gone : key = k
        · have skip : (k' == key) = false := by simpa [gone] using here
          rw [filter_cons_of_neg (by simpa using gone), ih, lookup_cons, skip]
        · rw [filter_cons_of_pos (by simpa using gone), lookup_cons, lookup_cons, ih]
    have other : (k' == k) = false := by simpa using here
    rw [lookup_cons, other, if_neg here]
    exact kept

end Jocko.Go
