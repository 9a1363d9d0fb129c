import Jocko.Protocol.Codec

namespace Jocko.Protocol

open Go ByteDecoder List

variable {α β : Type}

/-- A list and lists of its elements that `ArrayLength` allows. -/
abbrev Short (parts : α → List β) (xs : List α) : Prop :=
  xs.length ≤ maxArrayLength ∧ ∀ x ∈ xs, (parts x).length ≤ maxArrayLength

/-- The decoder returns nothing where `p` is in front of it. -/
def Refuses (dec : Call ByteDecoder α) (p : Bytes) : Prop :=
  ∀ (d : ByteDecoder) (rest : Bytes), d.Rest (p ++ rest) → ∀ x d', dec.run d ≠ .ok x d'

namespace Refuses

theorem first {first : Call ByteDecoder α} {p : Bytes} (refuses : Refuses first p)
    (next : α → Call ByteDecoder β) (q : Bytes) : Refuses (first >>= next) (p ++ q) := by
  intro d rest here y d' ran
  rw [append_assoc] at here
  obtain ⟨x, d₁, ran₁, -⟩ := bind_eq_ok ran
  exact refuses d _ here x d₁ ran₁

theorem second {first : Call ByteDecoder α} {next : α → Call ByteDecoder β} {p q : Bytes} {x : α}
    (reads : Reads first p x) (refuses : Refuses (next x) q) :
    Refuses (first >>= next) (p ++ q) := by
  intro d rest here y d' ran
  rw [append_assoc] at here
  rw [bind_ok (reads d _ here)] at ran
  exact refuses _ rest here.skip y d' ran

end Refuses

/-- The decoder consumes exactly what the calls store if `ok` holds, and refuses it otherwise. -/
structure Parses (dec : Call ByteDecoder α) (puts : List Put) (ok : Prop) : Prop where
  plain : ∀ op ∈ puts, op.Plain
  reads : (∀ op ∈ puts, op.Fits) → ok → ∃ x, Reads dec (rawOf puts) x
  refuses : (∀ op ∈ puts, op.Fits) → ¬ ok → Refuses dec (rawOf puts)

namespace Parses

variable {dec : Call ByteDecoder α} {puts : List Put} {ok : Prop}

theorem congr (parses : Parses dec puts ok) {puts' : List Put} {ok' : Prop}
    (same : puts' = puts) (iff : ok' ↔ ok) : Parses dec puts' ok' := by
  subst same
  exact ⟨parses.plain, fun fits ok => parses.reads fits (iff.mp ok),
    fun fits bad => parses.refuses fits fun ok => bad (iff.mpr ok)⟩

theorem prim {put : Put} (plain : put.Plain) (reads : put.Fits → ∃ x, Reads dec put.raw x) :
    Parses dec [put] True where
  plain op inside := by
    rw [mem_singleton.mp inside]
    exact plain
  reads fits _ := by
    simpa using reads (fits put (mem_singleton_self put))
  refuses _ bad := (bad trivial).elim

theorem pure (value : α) : Parses (Pure.pure value) [] True where
  plain _ inside := (not_mem_nil inside).elim
  reads _ _ := ⟨value, Reads.pure value⟩
  refuses _ bad := (bad trivial).elim

theorem fits_append {more : List Put} (fits : ∀ op ∈ puts ++ more, op.Fits) :
    (∀ op ∈ puts, op.Fits) ∧ ∀ op ∈ more, op.Fits :=
  ⟨fun op inside => fits op (mem_append_left _ inside),
    fun op inside => fits op (mem_append_right _ inside)⟩

/-- One decoder after the other, of which the second does not depend on what was read. -/
theorem bind [Nonempty α] {next : α → Call ByteDecoder β} {more : List Put} {okNext : Prop}
    (first : Parses dec puts ok) (rest : ∀ x, Parses (next x) more okNext) :
    Parses (dec >>= next) (puts ++ more) (ok ∧ okNext) where
  plain op inside := by
    rcases mem_append.mp inside with here | later
    · exact first.plain op here
    · exact (rest (Classical.arbitrary α)).plain op later
  reads fits := by
    rintro ⟨good, goodNext⟩
    obtain ⟨fitsHere, fitsLater⟩ := fits_append fits
    obtain ⟨x, reads⟩ := first.reads fitsHere good
    obtain ⟨y, readsNext⟩ := (rest x).reads fitsLater goodNext
    rw [rawOf_append]
    exact ⟨y, reads.bind readsNext⟩
  refuses fits bad := by
    obtain ⟨fitsHere, fitsLater⟩ := fits_append fits
    rw [rawOf_append]
    by_cases good : ok
    · obtain ⟨x, reads⟩ := first.reads fitsHere good
      exact .second reads ((rest x).refuses fitsLater fun goodNext => bad ⟨good, goodNext⟩)
    · exact (first.refuses fitsHere good).first next _

theorem next [Nonempty α] {next : α → Call ByteDecoder β} {more : List Put}
    (first : Parses dec puts True) (rest : ∀ x, Parses (next x) more ok) :
    Parses (dec >>= next) (puts ++ more) ok :=
  (first.bind rest).congr rfl (true_and _).symm.to_iff

theorem field [Nonempty α] {put : Put} {next : α → Call ByteDecoder β} {more : List Put}
    (first : Parses dec [put] True) (rest : ∀ x, Parses (next x) more ok) :
    Parses (dec >>= next) (put :: more) ok := first.next rest

theorem map (parses : Parses dec puts ok) (f : α → β) :
    Parses (dec >>= fun x => Pure.pure (f x)) puts ok where
  plain := parses.plain
  reads fits good := by
    obtain ⟨x, reads⟩ := parses.reads fits good
    exact ⟨f x, reads.map f⟩
  refuses fits bad := by
    have refuses := (parses.refuses fits bad).first (fun x => Pure.pure (f x)) []
    rwa [append_nil] at refuses

theorem when {p : Prop} [Decidable p] (parses : p → Parses dec puts True) (zero : α) :
    Parses (ByteDecoder.when p dec zero) (if p then puts else []) True := by
  unfold ByteDecoder.when
  split
  · rename_i here
    exact parses here
  · exact pure zero

/-- A field that is there in some versions only, and may be refused there. -/
theorem optional {p : Prop} [Decidable p] (parses : Parses dec puts ok) (zero : α) :
    Parses (ByteDecoder.when p dec zero) (if p then puts else []) (p → ok) := by
  unfold ByteDecoder.when
  split
  · rename_i here
    exact parses.congr rfl ⟨fun good => good here, fun good _ => good⟩
  · rename_i absent
    exact (pure zero).congr rfl ⟨fun _ => trivial, fun _ here => (absent here).elim⟩

theorem int16 (i : Int16) : Parses ByteDecoder.int16 [.int16 i] True :=
  prim trivial fun _ => ⟨i, Reads.int16 i⟩

theorem int32 (i : Int32) : Parses ByteDecoder.int32 [.int32 i] True :=
  prim trivial fun _ => ⟨i, Reads.int32 i⟩

theorem rawInt64_bmod (i : Int) : Put.rawInt64 (i.bmod (2 ^ 64)) = Put.rawInt64 i := by
  have same : i.bmod (2 ^ 64) % 2 ^ 64 = i % 2 ^ 64 := by
    simp only [Int.bmod]
    omega
  unfold Put.rawInt64
  rw [same]

theorem bmod_range (i : Int) : -2 ^ 63 ≤ i.bmod (2 ^ 64) ∧ i.bmod (2 ^ 64) < 2 ^ 63 := by
  simp only [Int.bmod]
  omega

theorem int64 (i : Int) : Parses ByteDecoder.int64 [.int64 i] True := by
  refine prim trivial fun _ => ⟨i.bmod (2 ^ 64), ?_⟩
  have reads := Reads.int64 (bmod_range i).1 (bmod_range i).2
  rwa [show (Put.int64 (i.bmod (2 ^ 64))).raw = (Put.int64 i).raw from rawInt64_bmod i] at reads

theorem string (s : Str) : Parses ByteDecoder.string [.string s] True :=
  prim trivial fun fits => ⟨s, Reads.string fits⟩

theorem nullableString (s : Option Str) :
    Parses ByteDecoder.nullableString [.nullableString s] True := by
  refine prim trivial fun fits => ⟨s, Reads.nullableString ?_⟩
  exact fits

theorem bytes (p : Option Bytes) : Parses ByteDecoder.bytes [.bytes p] True := by
  refine prim trivial fun fits => ⟨p, Reads.bytes ?_⟩
  exact fits

theorem lt_of_fits {n : Nat} (fits : n ≤ maxInt32) : n < 256 ^ 4 := by
  have limit : maxInt32 < 256 ^ 4 := by decide
  omega

theorem int32Array (is : List Int32) : Parses ByteDecoder.int32Array [.int32Array is] True := by
  refine prim trivial fun fits => ⟨is, Reads.int32Array (lt_of_fits ?_)⟩
  exact fits

theorem int64Array (is : List Int) : Parses ByteDecoder.int64Array [.int64Array is] True := by
  refine prim trivial fun fits => ⟨is.map fun i => i.bmod (2 ^ 64), ?_⟩
  have reads : Reads ByteDecoder.int64Array
      (Put.int64Array (is.map fun i => i.bmod (2 ^ 64))).raw (is.map fun i => i.bmod (2 ^ 64)) := by
    refine Reads.int64Array ?_ ?_
    · rw [length_map]
      exact lt_of_fits fits
    · intro i inside
      obtain ⟨j, -, rfl⟩ := mem_map.mp inside
      exact bmod_range j
  have same : (Put.int64Array (is.map fun i => i.bmod (2 ^ 64))).raw = (Put.int64Array is).raw := by
    simp only [Put.raw, length_map, flatMap_map, rawInt64_bmod]
  rwa [same] at reads

theorem attempt (parses : Parses dec puts True) : Parses (Go.attempt dec) puts True where
  plain := parses.plain
  reads fits _ := by
    obtain ⟨x, reads⟩ := parses.reads fits trivial
    exact ⟨.ok x, fun d rest here => attempt_ok (reads d rest here)⟩
  refuses _ bad := (bad trivial).elim

section Arrays

variable {item : Call ByteDecoder α} {γ : Type} {lay : γ → List Put} {good : γ → Prop}

theorem times {xs : List γ} (one : ∀ x ∈ xs, Parses item (lay x) (good x)) :
    Parses (ByteDecoder.times item xs.length) (xs.flatMap lay) (∀ x ∈ xs, good x) := by
  refine ⟨?_, ?_, ?_⟩
  · intro op inside
    obtain ⟨x, member, here⟩ := mem_flatMap.mp inside
    exact (one x member).plain op here
  · induction xs with
    | nil => exact fun _ _ => ⟨[], Reads.pure []⟩
    | cons x xs ih =>
      intro fits all
      obtain ⟨fitsHere, fitsLater⟩ := fits_append (flatMap_cons ▸ fits)
      obtain ⟨y, reads⟩ := (one x (mem_cons_self ..)).reads fitsHere
        (all x (mem_cons_self ..))
      obtain ⟨ys, readsRest⟩ := ih (fun z inside => one z (mem_cons_of_mem _ inside))
        fitsLater fun z inside => all z (mem_cons_of_mem _ inside)
      rw [flatMap_cons, rawOf_append]
      exact ⟨y :: ys, reads.bind (readsRest.map (y :: ·))⟩
  · induction xs with
    | nil => exact fun _ bad => (bad fun _ inside => (not_mem_nil inside).elim).elim
    | cons x xs ih =>
      intro fits bad
      have here := one x (mem_cons_self ..)
      obtain ⟨fitsHere, fitsLater⟩ := fits_append (flatMap_cons ▸ fits)
      rw [flatMap_cons, rawOf_append]
      by_cases first : good x
      · obtain ⟨y, reads⟩ := here.reads fitsHere first
        have later : ¬ ∀ z ∈ xs, good z := fun all => bad fun z inside => by
          rcases mem_cons.mp inside with rfl | rest
          · exact first
          · exact all z rest
        have refuses := (ih (fun z inside => one z (mem_cons_of_mem _ inside))
          fitsLater later).first (fun ys => Pure.pure (y :: ys)) []
        rw [append_nil] at refuses
        exact .second reads refuses
      · exact (here.refuses fitsHere first).first _ _

/-- `ArrayLength` wants as many bytes behind it as it announces elements, and not too many. -/
theorem le_of_arrayLength {n m : Nat} {d d' : ByteDecoder} {q : Bytes} (fits : n ≤ maxInt32)
    (here : d.Rest ((Put.arrayLength n).raw ++ q)) (ran : arrayLength.run d = .ok m d') :
    n ≤ q.length ∧ n ≤ maxArrayLength := by
  have width : (Put.arrayLength n).raw = putUint 4 n := by
    change Put.rawInt32 (Int32.ofInt n) = _
    rw [Int32.ofInt_eq_ofNat, Reads.raw_length (lt_of_fits fits)]
  rw [width] at here
  unfold arrayLength at ran
  obtain ⟨_, d₁, needed, field⟩ := bind_eq_ok ran
  obtain ⟨rfl, -⟩ := Uses.need_eq_ok needed
  rw [bind_ok (Reads.number (lt_of_fits fits) _ _ here)] at field
  obtain ⟨_, d₂, announced, checked⟩ := bind_eq_ok field
  obtain ⟨-, enough⟩ := Uses.need_eq_ok announced
  have length := here.skip.length
  refine ⟨by omega, ?_⟩
  by_contra many
  rw [if_pos (by omega)] at checked
  cases checked

variable {op : γ → Put} {ops : γ → List Put} [∀ x, (op x).Leads]

/-- Elements behind their `ArrayLength`, each of which takes a byte at least. -/
theorem array (xs : List γ) (one : ∀ x ∈ xs, Parses item (lay x) (good x))
    (lays : ∀ x, lay x = op x :: ops x) :
    Parses (ByteDecoder.array item) (.arrayLength xs.length :: xs.flatMap lay)
      (xs.length ≤ maxArrayLength ∧ ∀ x ∈ xs, good x) := by
  have all := times one
  have enough : xs.length ≤ (rawOf (xs.flatMap lay)).length := by
    clear one all
    induction xs with
    | nil => exact Nat.zero_le _
    | cons x xs ih =>
      have first : 0 < (rawOf (lay x)).length := sizeOf_pos lays x
      rw [flatMap_cons, rawOf_append, length_append, length_cons]
      omega
  have number (few : xs.length ≤ maxArrayLength) {d : ByteDecoder} {rest : Bytes}
      (here : d.Rest ((Put.arrayLength xs.length).raw ++ (rawOf (xs.flatMap lay) ++ rest))) :
      arrayLength.run d = .ok xs.length (d.skip 4) :=
    Reads.arrayLength_run few here (by rw [length_append]; omega)
  refine ⟨?_, ?_, ?_⟩
  · intro op inside
    rcases mem_cons.mp inside with rfl | later
    · trivial
    · exact all.plain op later
  · intro fits ⟨few, ok⟩
    obtain ⟨ys, reads⟩ := all.reads (fun op inside => fits op (mem_cons_of_mem _ inside)) ok
    refine ⟨ys, fun d rest here => ?_⟩
    rw [rawOf_cons, append_assoc] at here
    unfold ByteDecoder.array
    rw [bind_ok (number few here)]
    refine (reads _ rest here.skip).trans ?_
    rw [skip_skip, rawOf_cons, length_append]
  · intro fits bad
    have fitsLength : xs.length ≤ maxInt32 := by
      have fitsNumber := fits _ (mem_cons_self ..)
      change (xs.length : Int) ≤ maxInt32 at fitsNumber
      omega
    rw [rawOf_cons]
    by_cases few : xs.length ≤ maxArrayLength
    · intro d rest here ys d' ran
      rw [append_assoc] at here
      unfold ByteDecoder.array at ran
      rw [bind_ok (number few here)] at ran
      exact all.refuses (fun op inside => fits op (mem_cons_of_mem _ inside))
        (fun ok => bad ⟨few, ok⟩) _ rest here.skip ys d' ran
    · intro d rest here ys d' ran
      obtain ⟨_, _, counted, -⟩ := bind_eq_ok ran
      rw [append_assoc] at here
      exact few (le_of_arrayLength fitsLength here counted).2

theorem list {xs : List γ} (one : ∀ x, Parses item (lay x) True)
    (lays : ∀ x, lay x = op x :: ops x) :
    Parses (ByteDecoder.array item) (.arrayLength xs.length :: xs.flatMap lay)
      (xs.length ≤ maxArrayLength) :=
  (array xs (fun x _ => one x) lays).congr rfl (by simp)

end Arrays

/-- Decoding what `Encode` returned ends exactly at its end if and only if `ok` holds. -/
theorem consumes_iff (parses : Parses dec puts ok) {b : Bytes} (encoded : encode puts = .ok b) :
    (∃ x, dec.run (newDecoder b) = .ok x ⟨b, b.length, []⟩) ↔ ok := by
  have fits := fits_of_encode encoded
  have raw := encode_plain parses.plain fits
  rw [encoded] at raw
  cases raw
  constructor
  · rintro ⟨x, ran⟩
    by_contra bad
    have here : (newDecoder (rawOf puts)).Rest (rawOf puts ++ []) := by
      rw [append_nil]
      exact rest_newDecoder _
    exact parses.refuses fits bad _ [] here x _ ran
  · intro good
    obtain ⟨x, reads⟩ := parses.reads fits good
    exact ⟨x, reads.whole⟩

end Parses

end Jocko.Protocol
