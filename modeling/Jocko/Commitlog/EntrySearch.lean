import Jocko.Commitlog.Segment
import Jocko.Commitlog.IndexEntries

namespace Jocko.Commitlog

open Go List

/-- The number of slots that `findEntry` searches. -/
def slots : Nat := indexBytes / entryWidth

/-- A probe of `findEntry` on an index with these entries. Behind the last one the entry
variable keeps what the last probe left there. -/
def slotProbe (es : List Entry) (offset : Int) (h : Nat) (e : Entry) : Id (Bool × Entry) :=
  (offset ≤ (es[h]?.getD e).offset || (es[h]?.getD e).offset == 0, es[h]?.getD e)

/-- The entries of an index without gaps. -/
def Consecutive (base : Nat) (es : List Entry) : Prop :=
  ∀ h e, es[h]? = some e → e.offset = ((base + h : Nat) : Int)

/-- Where the interval `[0, j)` ends when the search first meets one of `count` entries:
as long as it asks behind them the answer is yes, and the interval is halved. -/
def narrow (count : Nat) : Nat → Nat → Nat
  | 0, j => j
  | fuel + 1, j => if count ≤ j / 2 then narrow count fuel (j / 2) else j

/-- The last of `count` entries that is looked at when every answer is no: the search goes
up towards `j` until it asks behind the entries. -/
def climb (count : Nat) : Nat → Nat → Nat → Nat → Nat
  | 0, _, _, last => last
  | fuel + 1, i, j, last =>
    if i < j ∧ (i + j) / 2 < count then climb count fuel ((i + j) / 2 + 1) j ((i + j) / 2)
    else last

/-- The last entry that `findEntry` can find among `count` of them. -/
def reach (count : Nat) : Nat := climb count slots 0 (narrow count slots slots) 0

/-- With eight records in a segment the last two are out of reach. -/
example : reach 8 = 5 := by decide +kernel

theorem le_climb {count i j last : Nat} (fuel : Nat) (below : last < i ∨ last = 0) :
    last ≤ climb count fuel i j last := by
  induction fuel generalizing i last with
  | zero => exact Nat.le_refl _
  | succ fuel ih =>
    unfold climb
    split
    · have rest := @ih ((i + j) / 2 + 1) ((i + j) / 2) (.inl (Nat.lt_succ_self _))
      omega
    · exact Nat.le_refl _

/-- More rounds than the interval has slots change nothing. -/
theorem climb_enough {count i j : Nat} (fuel fuel' last : Nat) (enough : j ≤ fuel + i)
    (enough' : j ≤ fuel' + i) : climb count fuel i j last = climb count fuel' i j last := by
  induction fuel generalizing i fuel' last with
  | zero =>
    cases fuel' with
    | zero => rfl
    | succ fuel' =>
      have empty : ¬ (i < j ∧ (i + j) / 2 < count) := by omega
      simp only [climb, empty, ↓reduceIte]
  | succ fuel ih =>
    cases fuel' with
    | zero =>
      have empty : ¬ (i < j ∧ (i + j) / 2 < count) := by omega
      simp only [climb, empty, ↓reduceIte]
    | succ fuel' =>
      unfold climb
      split
      · exact ih fuel' _ (by omega) (by omega)
      · rfl

variable {t : Nat}

section

variable {base : Nat} {es : List Entry} (consecutive : Consecutive base es)

include consecutive

theorem slotProbe_inside {h : Nat} (t : Nat) (e : Entry) (inside : h < es.length) :
    (slotProbe es ((base + t : Nat) : Int) h e).1 = decide (t ≤ h ∨ base + h = 0) ∧
      es[h]? = some (slotProbe es ((base + t : Nat) : Int) h e).2 := by
  have read : es[h]? = some es[h] := getElem?_eq_getElem inside
  have offset := consecutive h _ read
  simp only [slotProbe, read, Option.getD_some, offset, and_true]
  rw [Bool.eq_iff_iff]
  simp only [Bool.or_eq_true, decide_eq_true_eq, beq_iff_eq]
  omega

/-- Among the entries the search finds the right one, unless that is the second of a log
that starts at 0: the offset 0 of the first is taken for an unwritten slot. -/
theorem search_inside (fuel i j : Nat) (e : Entry) (written : j ≤ es.length)
    (usual : ¬ (base = 0 ∧ t = 1)) (enough : j ≤ fuel + i) (low : i ≤ t) (high : t ≤ j) :
    (searchFrom (m := Id) (slotProbe es ((base + t : Nat) : Int)) fuel i j e).1 = t := by
  apply searchFrom_threshold fuel i j e ?_ enough low high
  intro h e' _ upper asked
  rw [(slotProbe_inside consecutive t e' (by omega)).1, decide_eq_decide]
  omega

omit consecutive in
/-- Behind the entries every answer is the one the last entry gave. -/
theorem search_outside (fuel i j : Nat) (e : Entry) (outside : es.length ≤ (i + j) / 2)
    (below : e.offset < ((base + t : Nat) : Int)) (nonzero : e.offset ≠ 0) (enough : j ≤ fuel + i)
    (low : i ≤ j) :
    searchFrom (m := Id) (slotProbe es ((base + t : Nat) : Int)) fuel i j e = (j, e) := by
  induction fuel generalizing i with
  | zero =>
    obtain rfl : i = j := by omega
    exact searchFrom_empty 0 e (Nat.le_refl _)
  | succ fuel ih =>
    by_cases nonempty : i < j
    · have unread : es[(i + j) / 2]? = none := getElem?_eq_none outside
      have answer : slotProbe es ((base + t : Nat) : Int) ((i + j) / 2) e = (false, e) := by
        simp only [slotProbe, unread, Option.getD_none]
        rw [decide_eq_false (Int.not_le.mpr below), beq_false_of_ne nonzero]
        rfl
      rw [searchFrom_step fuel e nonempty, answer]
      exact ih ((i + j) / 2 + 1) (by omega) (by omega) (by omega)
    · obtain rfl : i = j := by omega
      exact searchFrom_empty _ e (Nat.le_refl _)

/-- The search from the first entry it looks at on: it ends at an entry that the climb
passes or reaches, and is lost behind the entries for any other. -/
theorem search_climb (fuel i j last : Nat) (e : Entry) (written : t < es.length)
    (beyond : es.length ≤ j) (usual : ¬ (base = 0 ∧ t = 1)) (enough : j ≤ fuel + i) (low : i ≤ t)
    (first : i = 0 → j / 2 < es.length ∧ last = 0)
    (later : i ≠ 0 → last < i ∧ es[last]? = some e ∧ 0 < base + last) :
    (t ≤ climb es.length fuel i j last →
      (searchFrom (m := Id) (slotProbe es ((base + t : Nat) : Int)) fuel i j e).1 = t) ∧
    (climb es.length fuel i j last < t → ∃ e', es[climb es.length fuel i j last]? = some e' ∧
        searchFrom (m := Id) (slotProbe es ((base + t : Nat) : Int)) fuel i j e = (j, e')) := by
  induction fuel generalizing i last e with
  | zero => omega
  | succ fuel ih =>
    have nonempty : i < j := by omega
    by_cases inside : (i + j) / 2 < es.length
    · obtain ⟨answer, read⟩ := slotProbe_inside consecutive t e inside
      simp only [climb, nonempty, inside, and_self, ↓reduceIte]
      rw [searchFrom_step fuel e nonempty, answer]
      by_cases above : t ≤ (i + j) / 2
      · -- From here on the search stays among the entries.
        have passed := @le_climb es.length ((i + j) / 2 + 1) j ((i + j) / 2) fuel
          (.inl (Nat.lt_succ_self _))
        rw [decide_eq_true (.inl above), if_pos rfl]
        constructor
        · intro _
          exact search_inside consecutive fuel i _ _ (Nat.le_of_lt inside) usual (by omega) low
            above
        · intro lost
          omega
      · have nonzero : ¬ (t ≤ (i + j) / 2 ∨ base + (i + j) / 2 = 0) := by omega
        rw [decide_eq_false nonzero, if_neg (by simp)]
        apply ih
        · omega
        · omega
        · omega
        · intro _
          exact ⟨Nat.lt_succ_self _, read, by omega⟩
    · have started : i ≠ 0 := by
        intro zero
        have := (first zero).1
        subst zero
        rw [Nat.zero_add] at inside
        omega
      obtain ⟨before, held, positive⟩ := later started
      have offset := consecutive last e held
      have lost : searchFrom (m := Id) (slotProbe es ((base + t : Nat) : Int)) (fuel + 1) i j e =
          (j, e) := by
        apply search_outside (fuel + 1) i j e (Nat.not_lt.mp inside) ?_ ?_ enough
          (Nat.le_of_lt nonempty)
        · rw [offset]
          omega
        · rw [offset]
          omega
      simp only [climb, nonempty, inside, and_false, ↓reduceIte]
      exact ⟨fun reached => by omega, fun _ => ⟨e, held, lost⟩⟩

omit consecutive in
theorem search_narrow (fuel fuel' j : Nat) (offset : Int) (some : 0 < es.length)
    (beyond : es.length ≤ j) (enough : j ≤ fuel) (enough' : j ≤ fuel') :
    ∃ rounds, narrow es.length fuel' j ≤ rounds ∧ es.length ≤ narrow es.length fuel' j ∧
      narrow es.length fuel' j / 2 < es.length ∧ narrow es.length fuel' j ≤ j ∧
      searchFrom (m := Id) (slotProbe es offset) fuel 0 j ⟨0, 0⟩ =
        searchFrom (m := Id) (slotProbe es offset) rounds 0 (narrow es.length fuel' j) ⟨0, 0⟩ := by
  induction fuel generalizing fuel' j with
  | zero => omega
  | succ fuel ih =>
    obtain ⟨fuel', rfl⟩ := Nat.exists_eq_succ_of_ne_zero (by omega : fuel' ≠ 0)
    by_cases outside : es.length ≤ j / 2
    · have unread : es[(0 + j) / 2]? = none := getElem?_eq_none (by omega)
      have answer : slotProbe es offset ((0 + j) / 2) ⟨0, 0⟩ = (true, ⟨0, 0⟩) := by
        simp only [slotProbe, unread, Option.getD_none, BEq.rfl, Bool.or_true]
      obtain ⟨rounds, bound, above, half, smaller, same⟩ := ih fuel' (j / 2) outside (by omega)
        (by omega)
      rw [Nat.succ_eq_add_one]
      simp only [narrow, outside, ↓reduceIte]
      refine ⟨rounds, bound, above, half, by omega, ?_⟩
      rw [searchFrom_step fuel _ (by omega), answer, ← same, Nat.zero_add]
      rfl
    · rw [Nat.succ_eq_add_one]
      simp only [narrow, outside, ↓reduceIte]
      exact ⟨fuel + 1, enough, beyond, Nat.not_le.mp outside, Nat.le_refl _, rfl⟩

/-- The whole search for the entry `t`: right up to the reach, and lost behind it. -/
theorem search_slots (written : t < es.length) (room : es.length ≤ slots)
    (usual : ¬ (base = 0 ∧ t = 1)) : (t ≤ reach es.length →
      (search (m := Id) slots (slotProbe es ((base + t : Nat) : Int)) ⟨0, 0⟩).1 = t) ∧
    (reach es.length < t → ∃ j e, es.length ≤ j ∧ es[reach es.length]? = some e ∧
      search (m := Id) slots (slotProbe es ((base + t : Nat) : Int)) ⟨0, 0⟩ = (j, e)) := by
  obtain ⟨rounds, bound, above, half, smaller, same⟩ := search_narrow slots slots slots
    ((base + t : Nat) : Int) (by omega) room (Nat.le_refl _) (Nat.le_refl _)
  have steps : reach es.length = climb es.length rounds 0 (narrow es.length slots slots) 0 :=
    climb_enough slots rounds 0 (by omega) (by omega)
  have climbed := search_climb consecutive rounds 0 (narrow es.length slots slots) 0 ⟨0, 0⟩ written
    above usual (by omega) (Nat.zero_le _) (fun _ => ⟨half, rfl⟩) (fun started => absurd rfl started)
  rw [← steps] at climbed
  unfold search
  rw [same]
  refine ⟨climbed.1, ?_⟩
  intro lost
  obtain ⟨e, held, ended⟩ := climbed.2 lost
  exact ⟨_, e, above, held, ended⟩

/-- The search for offset 1 in a log that starts at offset 0 ends at the first entry. -/
theorem search_second (zero : base = 0) (written : 1 < es.length) (room : es.length ≤ slots) :
    (search (m := Id) slots (slotProbe es ((base + 1 : Nat) : Int)) ⟨0, 0⟩).1 = 0 := by
  obtain ⟨rounds, bound, above, half, smaller, same⟩ := search_narrow slots slots slots
    ((base + 1 : Nat) : Int) (by omega) room (Nat.le_refl _) (Nat.le_refl _)
  have yes (h : Nat) (e : Entry) (inside : h < es.length) :
      (slotProbe es ((base + 1 : Nat) : Int) h e).1 = true := by
    rw [(slotProbe_inside consecutive 1 e inside).1, decide_eq_true]
    omega
  unfold search
  rw [same]
  generalize narrow es.length slots slots = j at *
  obtain ⟨rounds, rfl⟩ := Nat.exists_eq_succ_of_ne_zero (by omega : rounds ≠ 0)
  rw [Nat.succ_eq_add_one, searchFrom_step rounds _ (by omega), yes _ _ (by omega), if_pos rfl]
  apply searchFrom_threshold rounds 0 _ _ ?_ (by omega) (Nat.zero_le _) (Nat.zero_le _)
  intro h e _ upper _
  rw [yes h e (by omega)]
  exact (decide_eq_true (Nat.zero_le h)).symm

end

/-- `findEntry` in terms of the entries that the index gives back. -/
def lookupEntry (stored : List Entry) (offset : Int) : Except Err Entry :=
  let found := search (m := Id) slots (slotProbe stored offset) ⟨0, 0⟩
  if found.1 = slots then .error (.new "entry not found") else .ok (stored[found.1]?.getD found.2)

/-- The entries that `findEntry` finds, by the number of entries and their base offset. -/
def Findable (base count t : Nat) : Prop := ¬ (base = 0 ∧ t = 1) ∧ t ≤ reach count

instance (base count t : Nat) : Decidable (Findable base count t) :=
  inferInstanceAs (Decidable (_ ∧ _))

variable {es : List Entry} {e : Entry}

theorem lookupEntry_findable {base : Nat}
    (consecutive : Consecutive base es) (here : es[t]? = some e) (room : es.length ≤ slots)
    (findable : Findable base es.length t) : lookupEntry es ((base + t : Nat) : Int) = .ok e := by
  have written : t < es.length := (List.getElem?_eq_some_iff.mp here).1
  have ended := (search_slots consecutive written room findable.1).1 findable.2
  have inside : ¬ t = slots := by omega
  simp only [lookupEntry, ended, inside, ↓reduceIte, here, Option.getD_some]

/-- An entry of the right offset is found only within reach. -/
theorem findable_of_lookupEntry {base : Nat}
    (consecutive : Consecutive base es) (written : t < es.length) (room : es.length ≤ slots)
    (found : lookupEntry es ((base + t : Nat) : Int) = .ok e)
    (offset : e.offset = ((base + t : Nat) : Int)) : Findable base es.length t := by
  by_cases usual : base = 0 ∧ t = 1
  · obtain ⟨zero, rfl⟩ := usual
    have first := search_second consecutive zero written room
    obtain ⟨e₀, head⟩ : ∃ e₀, es[0]? = some e₀ :=
      ⟨_, getElem?_eq_getElem (Nat.lt_trans Nat.zero_lt_one written)⟩
    have offset₀ := consecutive 0 e₀ head
    have some : ¬ 0 = slots := by decide
    simp only [lookupEntry, first, some, ↓reduceIte, head, Option.getD_some,
      Except.ok.injEq] at found
    rw [found, offset] at offset₀
    omega
  · refine ⟨usual, ?_⟩
    by_cases reached : t ≤ reach es.length
    · exact reached
    · obtain ⟨j, e', outside, held, ended⟩ :=
        (search_slots consecutive written room usual).2 (Nat.not_le.mp reached)
      have offset' := consecutive _ e' held
      have unread : es[j]? = none := getElem?_eq_none outside
      by_cases all : j = slots
      · simp only [lookupEntry, ended, all, ↓reduceIte, reduceCtorEq] at found
      · simp only [lookupEntry, ended, all, ↓reduceIte, unread, Option.getD_none,
          Except.ok.injEq] at found
        rw [found, offset] at offset'
        omega

/-- Nothing was written: every answer is yes and the search ends at the first slot. -/
theorem lookupEntry_nil : lookupEntry [] 0 = .ok ⟨0, 0⟩ := by
  decide +kernel

variable {s : Segment} {d : Disk}

theorem Segment.findEntry_run (offset : Int)
    (holds : s.index.Holds d es) (bytes : s.index.bytes = indexBytes) :
    (s.findEntry offset).run d =
      match lookupEntry (es.map fun e => e.stored s.index.baseOffset) offset with
      | .ok e => .ok e d
      | .error cause => .error (.err cause) d := by
  generalize shape : es.map (fun e => e.stored s.index.baseOffset) = stored
  have read (h : Nat) : (attempt (s.index.readEntryAtFileOffset (h * entryWidth))).run d =
      .ok (match stored[h]? with | some e => .ok e | none => .error .eof) d := by
    by_cases inside : h < es.length
    · have slot : stored[h]? = some (es[h].stored s.index.baseOffset) := by
        simp [← shape, inside]
      simp only [attempt, holds.readEntry h inside, slot]
    · have slot : stored[h]? = none := by
        simpa [← shape] using inside
      simp only [attempt, holds.readEntry_eof h (Nat.not_lt.mp inside), slot]
  have probe (h : Nat) (e : Entry) :
      (probeEntry s.index offset h e).run d = .ok (slotProbe stored offset h e) d := by
    unfold probeEntry slotProbe
    rw [bind_ok (read h)]
    cases stored[h]? with
    | none => rfl
    | some e' => rfl
  have searched : (search slots (probeEntry s.index offset) ⟨0, 0⟩).run d =
      .ok (search (m := Id) slots (slotProbe stored offset) ⟨0, 0⟩) d :=
    searchFrom_reader (fun h e _ => probe h e) slots 0 slots ⟨0, 0⟩ (Nat.le_refl _)
  have count : s.index.bytes / entryWidth = slots := by rw [bytes]; rfl
  unfold Segment.findEntry lookupEntry
  rw [count, bind_ok searched]
  rcases search (m := Id) slots (slotProbe stored offset) ⟨0, 0⟩ with ⟨idx, e⟩
  by_cases missing : idx = slots
  · simp only [missing, ↓reduceIte, run_fail]
  · simp only [missing, ↓reduceIte]
    rw [bind_ok (read idx)]
    cases stored[idx]? with
    | none => rfl
    | some e' => rfl

theorem Segment.findEntry_ok {offset : Int}
    (holds : s.index.Holds d es) (bytes : s.index.bytes = indexBytes)
    (looked : lookupEntry (es.map fun e => e.stored s.index.baseOffset) offset = .ok e) :
    (s.findEntry offset).run d = .ok e d := by
  rw [Segment.findEntry_run offset holds bytes, looked]

theorem Segment.findEntry_error {offset : Int}
    {cause : Err} (holds : s.index.Holds d es) (bytes : s.index.bytes = indexBytes)
    (looked : lookupEntry (es.map fun e => e.stored s.index.baseOffset) offset = .error cause) :
    (s.findEntry offset).run d = .error (.err cause) d := by
  rw [Segment.findEntry_run offset holds bytes, looked]

end Jocko.Commitlog
