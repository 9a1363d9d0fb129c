import Jocko.Commitlog.Ledger
import Jocko.Commitlog.SegmentOpen

namespace Jocko.Commitlog

open Go List

/-- A stored message set: a whole header whose size field counts the rest. -/
def WellFormed (r : Bytes) : Prop :=
  msgSetHeaderLen ≤ r.length ∧ getUint ((r.drop 8).take 4) = r.length - msgSetHeaderLen

instance (r : Bytes) : Decidable (WellFormed r) :=
  inferInstanceAs (Decidable (_ ∧ _))

/-- The offset is not part of what makes a set well formed. -/
theorem wellFormed_stamp {b : Bytes} (formed : WellFormed b) (offset : Int) :
    WellFormed (MessageSet.stamp offset b) := by
  have length := length_stamp (Nat.le_trans (by decide) formed.1) offset
  have rest : (MessageSet.stamp offset b).drop 8 = b.drop 8 := by
    simp only [MessageSet.stamp]
    exact drop_left' (length_putUint 8 _)
  constructor
  · rw [length]
    exact formed.1
  · rw [rest, length]
    exact formed.2

theorem stampFrom_wellFormed {bs : List Bytes} (formed : ∀ b ∈ bs, WellFormed b) (offset : Nat) :
    ∀ r ∈ Ledger.stampFrom offset bs, WellFormed r := by
  induction bs generalizing offset with
  | nil => simp [Ledger.stampFrom]
  | cons b bs ih =>
    intro r inside
    rcases mem_cons.mp inside with rfl | later
    · exact wellFormed_stamp (formed b (mem_cons_self ..)) offset
    · exact ih (fun b inside => formed b (mem_cons_of_mem _ inside)) _ r later

theorem size_at {r rest before : Bytes} (formed : WellFormed r) :
    getUint (((before ++ (r ++ rest)).drop (before.length + 8)).take 4) =
      r.length - msgSetHeaderLen := by
  have reach : 8 + 4 ≤ r.length := formed.1
  rw [drop_length_add_append, drop_append_of_le_length (by omega),
    take_append_of_le_length (by rw [length_drop]; omega), formed.2]

variable {offset position : Int}

/-- A walk at the start of a record writes its entry and goes on behind it, further by
the payload's length. -/
theorem walk_record {r rest before : Bytes} {fuel : Nat} (formed : WellFormed r) :
    walk (before ++ (r ++ rest)) (fuel + 1) before.length offset position =
      (⟨offset, position⟩ :: (walk (before ++ (r ++ rest)) fuel
          (before.length + r.length + (r.length - msgSetHeaderLen)) (offset + 1)
          (position + r.length)).1, (walk (before ++ (r ++ rest)) fuel
          (before.length + r.length + (r.length - msgSetHeaderLen)) (offset + 1)
          (position + r.length)).2) := by
  have header := formed.1
  have whole : before.length + msgSetHeaderLen + (r.length - msgSetHeaderLen) =
      before.length + r.length := by omega
  have advance : r.length - msgSetHeaderLen + msgSetHeaderLen = r.length := by omega
  have inside : ¬ ((before ++ (r ++ rest)).length < before.length + r.length ∨
      (before ++ (r ++ rest)).length < before.length + msgSetHeaderLen) := by
    simp only [length_append]
    omega
  rw [walk, size_at formed]
  simp only [whole, advance, inside, ↓reduceIte]

/-- A walk whose cursor is at the end or behind it finds nothing. -/
theorem walk_end {content : Bytes} {cursor : Nat} (fuel : Nat) (offset position : Int)
    (behind : content.length ≤ cursor) :
    walk content fuel cursor offset position = ([], position) := by
  cases fuel with
  | zero => rfl
  | succ fuel =>
    have short : content.length < cursor + msgSetHeaderLen +
        getUint ((content.drop (cursor + 8)).take 4) ∨
        content.length < cursor + msgSetHeaderLen := by
      simp only [msgSetHeaderLen]
      omega
    simp only [walk, short, ↓reduceIte]

/-- The entries of records written one behind the other. -/
def layout : Nat → Nat → List Bytes → List Entry
  | _, _, [] => []
  | offset, position, r :: rs =>
    ⟨offset, position⟩ :: layout (offset + 1) (position + r.length) rs

theorem layout_eq (offset position : Nat) (rs : List Bytes) :
    layout offset position rs = (List.range rs.length).map fun j =>
      ⟨(offset + j : Nat), (position + (rs.take j).flatten.length : Nat)⟩ := by
  induction rs generalizing offset position with
  | nil => rfl
  | cons r rs ih =>
    rw [layout, ih, length_cons, range_succ_eq_map, map_cons, map_map]
    congr 1
    refine map_congr_left fun j _ => ?_
    simp only [Function.comp_apply, take_succ_cons, flatten_cons, length_append]
    congr 2 <;> omega

theorem Chunk.entries_eq_layout (c : Chunk) : c.entries = layout c.base 0 c.recs := by
  simp only [layout_eq, Chunk.entries, Chunk.start, Nat.zero_add]

/-- Where all records but the last are bare headers, the walk finds every record. -/
theorem walk_bare {rs : List Bytes} {before : Bytes} {fuel offset : Nat}
    (formed : ∀ r ∈ rs, WellFormed r) (bare : ∀ r ∈ rs.dropLast, r.length = msgSetHeaderLen)
    (enough : rs.flatten.length ≤ fuel) :
    walk (before ++ rs.flatten) fuel before.length offset before.length =
      (layout offset before.length rs, ((before.length + rs.flatten.length : Nat) : Int)) := by
  induction rs generalizing before fuel offset with
  | nil => simpa [layout] using walk_end fuel offset before.length (by simp)
  | cons r rs ih =>
    have header := (formed r (mem_cons_self ..))
    have wide : 0 < r.length := Nat.lt_of_lt_of_le (by decide) header.1
    rw [flatten_cons, length_append] at enough
    obtain ⟨fuel, rfl⟩ := Nat.exists_eq_succ_of_ne_zero (by omega : fuel ≠ 0)
    have later := fun r inside => formed r (mem_cons_of_mem _ inside)
    rw [flatten_cons, walk_record header, layout]
    cases rs with
    | nil =>
      have ended := @walk_end (before ++ (r ++ [].flatten))
        (before.length + r.length + (r.length - msgSetHeaderLen)) fuel
        ((offset : Int) + 1) ((before.length : Int) + r.length) (by simp)
      rw [ended]
      simp [layout]
    | cons s rs =>
      have first : r.length = msgSetHeaderLen := bare r (by simp)
      have rest := @ih (before ++ r) fuel (offset + 1) later
        (fun x inside => bare x (by simpa using Or.inr inside)) (by omega)
      simp only [length_append, append_assoc, Int.natCast_add, Int.natCast_one] at rest
      rw [first, Nat.sub_self, Nat.add_zero, ← first, rest]
      simp only [length_append, flatten_cons, Int.natCast_add, Int.add_assoc]

theorem walk_nothing {content : Bytes} {fuel cursor : Nat}
    (none : (walk content fuel cursor offset position).1 = []) :
    (walk content fuel cursor offset position).2 = position := by
  cases fuel with
  | zero => rfl
  | succ fuel =>
    simp only [walk] at none ⊢
    split at none
    · rename_i short
      simp only [short, ↓reduceIte]
    · cases none

theorem le_walk_position (content : Bytes) (fuel cursor : Nat) (offset position : Int) :
    position ≤ (walk content fuel cursor offset position).2 := by
  induction fuel generalizing cursor offset position with
  | zero => exact Int.le_refl position
  | succ fuel ih =>
    simp only [walk]
    split
    · exact Int.le_refl position
    · exact Int.le_trans (by omega) (ih _ _ _)

/-- The position never catches up with a cursor that has run ahead of it. -/
theorem walk_position {content : Bytes} {fuel cursor : Nat}
    (found : (walk content fuel cursor offset position).1 ≠ []) :
    (walk content fuel cursor offset position).2 + cursor ≤ content.length + position := by
  induction fuel generalizing cursor offset position with
  | zero => exact absurd rfl found
  | succ fuel ih =>
    by_cases short : content.length < cursor + msgSetHeaderLen +
        getUint ((content.drop (cursor + 8)).take 4) ∨ content.length < cursor + msgSetHeaderLen
    · simp only [walk, short, ↓reduceIte, ne_eq, not_true_eq_false] at found
    · simp only [walk, short, ↓reduceIte]
      generalize getUint ((content.drop (cursor + 8)).take 4) = size at short
      by_cases last : (walk content fuel (cursor + msgSetHeaderLen + size + size) (offset + 1)
          (position + (size + msgSetHeaderLen : Nat))).1 = []
      · rw [walk_nothing last]
        simp only [msgSetHeaderLen] at short ⊢
        omega
      · have bound := ih last
        omega

/-- A walk over whole records and a rest that finds as many records as there are and ends at the
end of the file has met bare headers only, up to the last record, and no rest. -/
theorem bare_of_walk_torn {rs : List Bytes} {before torn : Bytes} {fuel : Nat} {offset : Int}
    (formed : ∀ r ∈ rs, WellFormed r)
    (count : (walk (before ++ (rs.flatten ++ torn)) fuel before.length offset
      before.length).1.length = rs.length)
    (ends : (walk (before ++ (rs.flatten ++ torn)) fuel before.length offset before.length).2 =
      ((before.length + (rs.flatten.length + torn.length) : Nat) : Int)) :
    (∀ r ∈ rs.dropLast, r.length = msgSetHeaderLen) ∧ torn = [] := by
  induction rs generalizing before fuel offset with
  | nil =>
    rw [walk_nothing (length_eq_zero_iff.mp count)] at ends
    refine ⟨by simp, length_eq_zero_iff.mp ?_⟩
    simp only [flatten_nil, length_nil] at ends
    omega
  | cons r rs ih =>
    have header := formed r (mem_cons_self ..)
    cases fuel with
    | zero => simp [walk] at count
    | succ fuel =>
      rw [flatten_cons, append_assoc, walk_record header] at count ends
      simp only [length_cons, Nat.add_right_cancel_iff, length_append] at count ends
      cases rs with
      | nil =>
        rw [walk_nothing (length_eq_zero_iff.mp count)] at ends
        refine ⟨by simp, length_eq_zero_iff.mp ?_⟩
        simp only [flatten_nil, length_nil] at ends
        omega
      | cons s rs =>
        -- The second record was found, so the cursor did not run ahead at the first.
        have found : (walk (before ++ (r ++ ((s :: rs).flatten ++ torn))) fuel
            (before.length + r.length + (r.length - msgSetHeaderLen)) (offset + 1)
            (before.length + r.length)).1 ≠ [] := by
          intro none
          rw [none] at count
          cases count
        have bound := walk_position found
        rw [ends] at bound
        simp only [length_append] at bound
        have wide := header.1
        have first : r.length = msgSetHeaderLen := by omega
        have rest := @ih (before ++ r) fuel (offset + 1)
          (fun r inside => formed r (mem_cons_of_mem _ inside))
        have cursor : before.length + r.length + (r.length - msgSetHeaderLen) =
            before.length + r.length := by omega
        rw [cursor] at count ends
        simp only [length_append, append_assoc, Int.natCast_add] at rest
        obtain ⟨bare, none⟩ := rest count (by rw [ends]; omega)
        refine ⟨fun x inside => ?_, none⟩
        rcases mem_cons.mp inside with rfl | later
        · exact first
        · exact bare x later

/-- A walk that finds as many records as there are and ends at the end of the file has
met bare headers only, up to the last record. -/
theorem bare_of_walk {rs : List Bytes} {before : Bytes} {fuel : Nat} {offset : Int}
    (formed : ∀ r ∈ rs, WellFormed r)
    (count : (walk (before ++ rs.flatten) fuel before.length offset before.length).1.length =
      rs.length) (ends : (walk (before ++ rs.flatten) fuel before.length offset before.length).2 =
      ((before.length + rs.flatten.length : Nat) : Int)) :
    ∀ r ∈ rs.dropLast, r.length = msgSetHeaderLen := by
  have whole := @bare_of_walk_torn rs before [] fuel offset formed
  rw [append_nil] at whole
  exact (whole count ends).1

end Jocko.Commitlog
