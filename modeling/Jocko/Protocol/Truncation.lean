import Jocko.Protocol.Coordinators

namespace Jocko.Protocol

open Go ByteDecoder List

variable {α β : Type}
variable {d : ByteDecoder} {q : Bytes}

namespace ByteDecoder

/-- The same decoder with more bytes behind its own. -/
def more (d : ByteDecoder) (p : Bytes) : ByteDecoder := { d with b := d.b ++ p }

@[simp] theorem more_b (d : ByteDecoder) (p : Bytes) : (d.more p).b = d.b ++ p := rfl

@[simp] theorem more_off (d : ByteDecoder) (p : Bytes) : (d.more p).off = d.off := rfl

theorem Rest.more (here : d.Rest q) (p : Bytes) : (d.more p).Rest (q ++ p) := by
  obtain ⟨inside, rfl⟩ := here
  refine ⟨?_, drop_append_of_le_length inside⟩
  rw [more_off, more_b, length_append]
  omega

end ByteDecoder

/-- A decoder that returns does not look behind what it takes: it returns the same with more bytes
behind. -/
def Stable (dec : Call ByteDecoder α) : Prop :=
  ∀ (d d' : ByteDecoder) (x : α), d.off ≤ d.b.length → dec.run d = .ok x d' →
    d'.b = d.b ∧ d'.off ≤ d.b.length ∧ ∀ p, dec.run (d.more p) = .ok x (d'.more p)

namespace Stable

variable {dec : Call ByteDecoder α}

theorem pure (value : α) : Stable (Pure.pure value) := by
  rintro d d' x inside ⟨⟩
  exact ⟨rfl, inside, fun _ => rfl⟩

theorem stop (why : Stop) : Stable (Go.stop why : Call ByteDecoder α) := by
  rintro d d' x inside ⟨⟩

theorem bind {next : α → Call ByteDecoder β} (stable : Stable dec)
    (rest : ∀ x, Stable (next x)) : Stable (dec >>= next) := by
  intro d d' y inside ran
  obtain ⟨x, d₁, ran₁, ran₂⟩ := bind_eq_ok ran
  obtain ⟨same₁, inside₁, longer₁⟩ := stable d d₁ x inside ran₁
  rw [← same₁] at inside₁
  obtain ⟨same₂, inside₂, longer₂⟩ := rest x d₁ d' y inside₁ ran₂
  refine ⟨same₂.trans same₁, same₁ ▸ inside₂, fun p => ?_⟩
  rw [bind_ok (longer₁ p)]
  exact longer₂ p

theorem ite {p : Prop} [Decidable p] {other : Call ByteDecoder α} (stable : Stable dec)
    (stable' : Stable other) : Stable (if p then dec else other) := by
  split
  · exact stable
  · exact stable'

theorem taken {n : Nat} {f : Bytes → α} {why : Stop} (run : ∀ d, dec.run d =
    if d.off + n ≤ d.b.length then .ok (f ((d.b.drop d.off).take n)) { d with off := d.off + n }
    else .error why d) : Stable dec := by
  intro d d' x inside ran
  rw [run] at ran
  split at ran
  · rename_i enough
    cases ran
    refine ⟨rfl, enough, fun p => ?_⟩
    have longer : d.off + n ≤ (d.b ++ p).length := by
      rw [length_append]
      omega
    have front : ((d.b ++ p).drop d.off).take n = (d.b.drop d.off).take n := by
      rw [drop_append_of_le_length inside, take_append_of_le_length]
      rw [length_drop]
      omega
    rw [run, more_b, more_off, if_pos longer, front]
    rfl
  · cases ran

theorem fixed (width : Nat) : Stable (fixed width) := taken fun _ => rfl

theorem slice (n : Nat) : Stable (slice n) := taken (f := id) fun _ => rfl

theorem need (n : Int) : Stable (need n) := by
  intro d d' x inside ran
  obtain ⟨rfl, enough⟩ := Uses.need_eq_ok ran
  refine ⟨rfl, inside, fun p => ?_⟩
  have longer : ¬ (((d'.b ++ p).length : Nat) : Int) - d'.off < n := by
    rw [length_append]
    omega
  change ((if (((d'.b ++ p).length : Nat) : Int) - d'.off < n then insufficient else
    Pure.pure () : Call ByteDecoder Unit).run (d'.more p)) = _
  rw [if_neg longer]
  rfl

theorem int8 : Stable int8 := .bind (fixed 1) fun _ => .pure _

theorem bool : Stable bool := .bind int8 fun _ => .pure _

theorem int16 : Stable int16 := .bind (fixed 2) fun _ => .pure _

theorem int32 : Stable int32 := .bind (need 4) fun _ => .bind (fixed 4) fun _ => .pure _

theorem int64 : Stable int64 := .bind (need 8) fun _ => .bind (fixed 8) fun _ => .pure _

theorem arrayLength : Stable arrayLength :=
  .bind (need 4) fun _ => .bind (fixed 4) fun n => .bind (need n) fun _ => .ite (.stop _) (.pure _)

theorem bytes : Stable bytes :=
  .bind int32 fun n => .ite (.stop _) (.ite (.pure _) (.ite (.pure _)
    (.bind (need n.toInt) fun _ => .bind (slice n.toInt.toNat) fun _ => .pure _)))

theorem string : Stable string :=
  .bind int16 fun n => .ite (.stop _) (.ite (.pure _) (.ite (.pure _)
    (.bind (need n.toInt) fun _ => slice n.toInt.toNat)))

theorem nullableString : Stable nullableString :=
  .bind (.bind int16 fun n => .ite (.stop _) (.bind (need n.toInt) fun _ => .pure _)) fun n =>
    .ite (.pure _) (.bind (slice n.toNat) fun _ => .pure _)

theorem times (one : Stable dec) (n : Nat) : Stable (times dec n) := by
  induction n with
  | zero => exact .pure _
  | succ n ih => exact one.bind fun _ => ih.bind fun _ => .pure _

theorem array (one : Stable dec) : Stable (array dec) := arrayLength.bind one.times

theorem count : Stable count := .bind (need 4) fun _ => fixed 4

theorem int32Array : Stable int32Array :=
  .bind count fun n => .bind (need (4 * n)) fun _ => times (.bind (fixed 4) fun _ => .pure _) n

theorem stringArray : Stable stringArray := count.bind string.times

theorem when {p : Prop} [Decidable p] (stable : Stable dec) (zero : α) :
    Stable (when p dec zero) := stable.ite (.pure zero)

end Stable

/-- On a front part of what the calls store, the decoder returns just where at most `slack` bytes
are missing, and then it leaves nothing. -/
def Tears (dec : Call ByteDecoder α) (puts : List Put) (slack : Nat) : Prop :=
  (∀ op ∈ puts, op.Fits) → ∀ (d : ByteDecoder) (q : Bytes), d.Rest q → q <+: rawOf puts →
    q.length < sizeOf puts →
      ((∃ x d', dec.run d = .ok x d') ↔ sizeOf puts ≤ q.length + slack) ∧
        ∀ x d', dec.run d = .ok x d' → d'.Rest []

namespace Tears

variable {dec : Call ByteDecoder α} {puts more : List Put} {ok : Prop} {slack : Nat}

theorem congr (tears : Tears dec puts slack) {puts' : List Put} {slack' : Nat}
    (same : puts' = puts) (size : slack' = slack) : Tears dec puts' slack' := by
  subst same size
  exact tears

theorem refused {size left : Nat} (stops : ∀ x d', dec.run d ≠ .ok x d') (missing : left < size) :
    ((∃ x d', dec.run d = .ok x d') ↔ size ≤ left) ∧ ∀ x d', dec.run d = .ok x d' → d'.Rest [] := by
  refine ⟨⟨?_, fun enough => by omega⟩, fun x d' ran => (stops x d' ran).elim⟩
  rintro ⟨x, d', ran⟩
  exact (stops x d' ran).elim

theorem never (stops : (∀ op ∈ puts, op.Fits) → ∀ (d : ByteDecoder) (q : Bytes), d.Rest q →
    q <+: rawOf puts → q.length < sizeOf puts → ∀ x d', dec.run d ≠ .ok x d') :
    Tears dec puts 0 := by
  intro fits d q here front short
  exact refused (stops fits d q here front short) short

/-- A decoder that does not look behind what it takes needs all of it. -/
theorem of_stable (stable : Stable dec) (parses : Parses dec puts ok) : Tears dec puts 0 := by
  refine never fun fits d q here front short x d' ran => ?_
  obtain ⟨t, whole⟩ := front
  obtain ⟨-, inside, longer⟩ := stable d d' x here.1 ran
  have all : (d.more t).Rest (rawOf puts ++ []) := by
    rw [append_nil, ← whole]
    exact here.more t
  by_cases good : ok
  · obtain ⟨y, reads⟩ := parses.reads fits good
    have ends := congrArg ByteDecoder.off (Result.ok.inj ((longer t).symm.trans (reads _ _ all))).2
    simp only [more_off, skip_off] at ends
    have length := here.length
    have size : sizeOf puts = (rawOf puts).length := rfl
    omega
  · exact parses.refuses fits good _ _ all x _ (longer t)

/-- A front part either ends inside the first half or goes through all of it. -/
theorem split {q first rest : Bytes} (front : q <+: first ++ rest) :
    (q.length < first.length ∧ q <+: first) ∨ ∃ q', q = first ++ q' ∧ q' <+: rest := by
  by_cases short : q.length < first.length
  · exact .inl ⟨short, prefix_of_prefix_length_le front (prefix_append ..) short.le⟩
  · obtain ⟨q', rfl⟩ := prefix_of_prefix_length_le (prefix_append first rest) front
      (not_lt.mp short)
    exact .inr ⟨q', rfl, (prefix_append_right_inj first).mp front⟩

/-- With no bytes left the decoder does not return, if some are needed. -/
theorem empty (tears : Tears dec puts slack) (fits : ∀ op ∈ puts, op.Fits)
    (small : slack < sizeOf puts) (here : d.Rest []) (x : α)
    (d' : ByteDecoder) : dec.run d ≠ .ok x d' := by
  intro ran
  have all := (tears fits d [] here nil_prefix (by rw [length_nil]; omega)).1.mp
    ⟨x, d', ran⟩
  rw [length_nil] at all
  omega

/-- One decoder after the other: bytes may be missing from the second half only, where the first
was read. -/
theorem bind {next : α → Call ByteDecoder β} {slackFirst total : Nat}
    (first : Tears dec puts slackFirst) (parses : Parses dec puts ok)
    (rest : ∀ x, Tears (next x) more slack) (small : slack ≤ sizeOf more)
    (needed : 0 < slackFirst → slack < sizeOf more) (good : ok → total = slack)
    (bad : ¬ ok → total = 0) : Tears (dec >>= next) (puts ++ more) total := by
  intro fits d q here front short
  obtain ⟨fitsHere, fitsLater⟩ := Parses.fits_append fits
  rw [rawOf_append] at front
  rw [sizeOf_append] at short ⊢
  rcases split front with ⟨inside, within⟩ | ⟨q', rfl, later⟩
  · change q.length < sizeOf puts at inside
    have below : total ≤ sizeOf more := by
      by_cases all : ok
      · exact good all ▸ small
      · exact bad all ▸ Nat.zero_le _
    refine refused (fun y d' ran => ?_) (by omega)
    obtain ⟨x, d₁, ran₁, ran₂⟩ := bind_eq_ok ran
    obtain ⟨returns, ends⟩ := first fitsHere d q here within inside
    have enough := returns.mp ⟨x, d₁, ran₁⟩
    exact (rest x).empty fitsLater (needed (by omega)) (ends x d₁ ran₁) y d' ran₂
  · have length : (rawOf puts ++ q').length = sizeOf puts + q'.length := length_append
    by_cases all : ok
    · obtain ⟨x, reads⟩ := parses.reads fitsHere all
      rw [bind_ok (reads d q' here), good all, length]
      obtain ⟨returns, ends⟩ := rest x fitsLater _ q' here.skip later (by omega)
      exact ⟨returns.trans (by omega), ends⟩
    · refine refused (fun y d' ran => ?_) (by rw [bad all]; omega)
      obtain ⟨x, d₁, ran₁, -⟩ := bind_eq_ok ran
      exact parses.refuses fitsHere all d q' here x d₁ ran₁

theorem seq {next : α → Call ByteDecoder β} (first : Stable dec) (parses : Parses dec puts True)
    (rest : ∀ x, Tears (next x) more slack) (small : slack ≤ sizeOf more) :
    Tears (dec >>= next) (puts ++ more) slack :=
  (of_stable first parses).bind parses rest small (fun none => (Nat.lt_irrefl _ none).elim)
    (fun _ => rfl) fun bad => (bad trivial).elim

theorem map (tears : Tears dec puts slack) (f : α → β) :
    Tears (dec >>= fun x => Pure.pure (f x)) puts slack := by
  intro fits d q here front short
  obtain ⟨returns, ends⟩ := tears fits d q here front short
  refine ⟨Iff.trans ⟨?_, ?_⟩ returns, ?_⟩
  · rintro ⟨y, d', ran⟩
    obtain ⟨x, d₁, ran₁, -⟩ := bind_eq_ok ran
    exact ⟨x, d₁, ran₁⟩
  · rintro ⟨x, d', ran⟩
    exact ⟨f x, d', bind_ok ran⟩
  · intro y d' ran
    obtain ⟨x, d₁, ran₁, ran₂⟩ := bind_eq_ok ran
    cases ran₂
    exact ends x _ ran₁

section Arrays

variable {item : Call ByteDecoder α} {γ : Type} {lay : γ → List Put} (good : γ → Prop)
  [DecidablePred good] {slackOf : γ → Nat}

/-- What may be missing at the end of elements, of which all but the last must be good. -/
def lastSlack (slackOf : γ → Nat) : List γ → Nat
  | [] => 0
  | [x] => slackOf x
  | x :: y :: ys => if good x then lastSlack slackOf (y :: ys) else 0

theorem length_add_lastSlack {xs : List γ} (small : ∀ x ∈ xs, slackOf x < sizeOf (lay x)) :
    xs.length + lastSlack good slackOf xs ≤ sizeOf (xs.flatMap lay) := by
  induction xs with
  | nil => exact Nat.le_refl _
  | cons x xs ih =>
    have first := small x (mem_cons_self ..)
    have later := ih fun z inside => small z (mem_cons_of_mem _ inside)
    rw [flatMap_cons, sizeOf_append, length_cons]
    cases xs with
    | nil =>
      simp only [lastSlack, length_nil, flatMap_nil, sizeOf_nil]
      omega
    | cons y ys =>
      simp only [lastSlack]
      split <;> omega

/-- Elements one after the other: bytes may be missing from the last one. -/
theorem times {xs : List γ} (parses : ∀ x ∈ xs, Parses item (lay x) (good x))
    (tears : ∀ x ∈ xs, Tears item (lay x) (slackOf x))
    (small : ∀ x ∈ xs, slackOf x < sizeOf (lay x)) :
    Tears (ByteDecoder.times item xs.length) (xs.flatMap lay) (lastSlack good slackOf xs) := by
  induction xs with
  | nil => exact fun _ _ q _ _ short => (Nat.not_lt_zero _ short).elim
  | cons x xs ih =>
    have parsesLater z (inside : z ∈ xs) := parses z (mem_cons_of_mem _ inside)
    have tearsLater z (inside : z ∈ xs) := tears z (mem_cons_of_mem _ inside)
    have smallLater z (inside : z ∈ xs) := small z (mem_cons_of_mem _ inside)
    have first := tears x (mem_cons_self ..)
    have room := length_add_lastSlack good smallLater
    have rest := ih parsesLater tearsLater smallLater
    rw [flatMap_cons]
    cases xs with
    | nil =>
      rw [flatMap_nil, append_nil]
      exact first.map fun y => [y]
    | cons y ys =>
      rw [length_cons] at room
      refine first.bind (parses x (mem_cons_self ..)) (fun z => rest.map (z :: ·))
        (by omega) (fun _ => by omega) (fun here => ?_) fun bad => ?_
      · rw [lastSlack, if_pos here]
      · rw [lastSlack, if_neg bad]

theorem array {xs : List γ} (parses : ∀ x ∈ xs, Parses item (lay x) (good x))
    (tears : ∀ x ∈ xs, Tears item (lay x) (slackOf x))
    (small : ∀ x ∈ xs, slackOf x < sizeOf (lay x)) :
    Tears (ByteDecoder.array item) (.arrayLength xs.length :: xs.flatMap lay)
      (if xs.length ≤ maxArrayLength then lastSlack good slackOf xs else 0) := by
  have elements := times good parses tears small
  have room := length_add_lastSlack good small
  intro fits d q here front short
  have fitsLater op (inside : op ∈ xs.flatMap lay) := fits op (mem_cons_of_mem _ inside)
  have fitsNumber : xs.length ≤ maxInt32 := by
    have number := fits _ (mem_cons_self ..)
    change (xs.length : Int) ≤ maxInt32 at number
    omega
  have width : (Put.arrayLength xs.length).raw.length = 4 := Put.length_rawInt32 _
  rw [rawOf_cons] at front
  rw [sizeOf_cons, width] at short ⊢
  have stopped (stops : ∀ n d', arrayLength.run d ≠ .ok n d') (y : List α) (d' : ByteDecoder) :
      (ByteDecoder.array item).run d ≠ .ok y d' := by
    intro ran
    obtain ⟨n, d₁, ran₁, -⟩ := bind_eq_ok ran
    exact stops n d₁ ran₁
  rcases split front with ⟨inside, -⟩ | ⟨q', rfl, later⟩
  · rw [width] at inside
    refine refused (stopped fun n d' ran => ?_) (by split <;> omega)
    obtain ⟨_, d₁, needed, -⟩ := bind_eq_ok ran
    obtain ⟨-, enough⟩ := Uses.need_eq_ok needed
    have length := here.length
    omega
  · have length : ((Put.arrayLength xs.length).raw ++ q').length = 4 + q'.length := by
      rw [length_append, width]
    by_cases few : xs.length ≤ maxArrayLength
    · by_cases enough : xs.length ≤ q'.length
      · rw [if_pos few, length]
        unfold ByteDecoder.array
        rw [bind_ok (Reads.arrayLength_run few here enough)]
        have skipped : (d.skip 4).Rest q' := by
          have behind := here.skip
          rwa [width] at behind
        obtain ⟨returns, ends⟩ := elements fitsLater _ q' skipped later (by omega)
        exact ⟨returns.trans (by omega), ends⟩
      · refine refused (stopped fun n d' ran => ?_) (by rw [if_pos few]; omega)
        exact enough (Parses.le_of_arrayLength fitsNumber here ran).1
    · refine refused (stopped fun n d' ran => ?_) (by rw [if_neg few]; omega)
      exact few (Parses.le_of_arrayLength fitsNumber here ran).2

/-- Elements that are all good but perhaps the last, which is not torn if it is not good. -/
theorem lastSlack_eq (xs : List γ) (bad : ∀ x, ¬ good x → slackOf x = 0) :
    lastSlack good slackOf xs =
      if ∀ x ∈ xs, good x then (xs.getLast?.map slackOf).getD 0 else 0 := by
  induction xs with
  | nil => rfl
  | cons x xs ih =>
    by_cases here : good x
    · cases xs with
      | nil => simp [lastSlack, here]
      | cons y ys => simpa [lastSlack, here] using ih
    · cases xs with
      | nil => simp [lastSlack, here, bad x here]
      | cons y ys => simp [lastSlack, here]

theorem array_last {xs : List γ} (parses : ∀ x ∈ xs, Parses item (lay x) (good x))
    (tears : ∀ x ∈ xs, Tears item (lay x) (slackOf x))
    (small : ∀ x ∈ xs, slackOf x < sizeOf (lay x)) (bad : ∀ x, ¬ good x → slackOf x = 0) :
    let slack := if xs.length ≤ maxArrayLength ∧ ∀ x ∈ xs, good x then
      (xs.getLast?.map slackOf).getD 0 else 0
    Tears (ByteDecoder.array item) (.arrayLength xs.length :: xs.flatMap lay) slack ∧
      slack ≤ sizeOf (.arrayLength xs.length :: xs.flatMap lay) := by
  have room := length_add_lastSlack good small
  rw [lastSlack_eq good xs bad] at room
  refine ⟨(array good parses tears small).congr rfl ?_, ?_⟩
  · rw [lastSlack_eq good xs bad, ite_and]
  · rw [ite_and, sizeOf_cons]
    split <;> omega

end Arrays

theorem need_short (here : d.Rest q) {n : Int}
    (short : (q.length : Int) < n) :
    (need n).run d = .error errInsufficientData { d with off := d.b.length } := by
  unfold need
  rw [bind_ok (remaining_run here), if_pos short]
  rfl

/-- An array that is cut is refused, and the decoder is then at the end. -/
theorem int32Array_short {is : List Int32} (fits : is.length ≤ maxInt32)
    (here : d.Rest q) (front : q <+: (Put.int32Array is).raw)
    (short : q.length < (Put.int32Array is).raw.length) :
    int32Array.run d = .error errInsufficientData { d with off := d.b.length } := by
  have width : (Put.rawInt32 (Int32.ofNat is.length)).length = 4 := Put.length_rawInt32 _
  have elements : (is.flatMap fun i => Put.rawInt32 i).length = 4 * is.length := by
    rw [Put.length_flatMap_fixed Put.length_rawInt32]
  change q <+: Put.rawInt32 (Int32.ofNat is.length) ++ is.flatMap fun i => Put.rawInt32 i at front
  change q.length < (Put.rawInt32 (Int32.ofNat is.length) ++
    is.flatMap fun i => Put.rawInt32 i).length at short
  rw [length_append, width, elements] at short
  unfold int32Array
  rcases split front with ⟨inside, -⟩ | ⟨q', rfl, -⟩
  · rw [width] at inside
    refine bind_error ?_
    exact bind_error (need_short here (by omega))
  · rw [length_append, width] at short
    rw [bind_ok (Reads.count (Parses.lt_of_fits fits) d q' here)]
    exact bind_error (need_short here.skip (by omega))

/-- A read whose error is dropped returns on every front part, and is then at the end. -/
theorem attempt_int32Array (is : List Int32) :
    Tears (Go.attempt int32Array) [.int32Array is] (sizeOf [.int32Array is]) := by
  intro fits d q here front short
  have raw : rawOf [.int32Array is] = (Put.int32Array is).raw := append_nil _
  rw [raw] at front
  have refused := int32Array_short (fits _ (mem_singleton_self _)) here front
    (raw ▸ short)
  have returned := attempt_err refused
  refine ⟨⟨fun _ => Nat.le_add_left .., fun _ => ⟨_, _, returned⟩⟩, fun x d' ran => ?_⟩
  rw [returned] at ran
  cases ran
  exact ⟨Nat.le_refl _, drop_length⟩

theorem returns_iff (tears : Tears dec puts slack) (plain : ∀ op ∈ puts, op.Plain) {b : Bytes}
    (encoded : encode puts = .ok b) (front : q <+: b) (short : q.length < b.length) :
    (∃ x d', dec.run (newDecoder q) = .ok x d') ↔ b.length ≤ q.length + slack := by
  have fits := fits_of_encode encoded
  have raw := encode_plain plain fits
  rw [encoded] at raw
  cases raw
  exact (tears fits _ q (rest_newDecoder q) front short).1

end Tears

namespace Parses

theorem int8 (i : Int8) : Parses ByteDecoder.int8 [.int8 i] True :=
  prim trivial fun _ => ⟨i, Reads.int8 i⟩

theorem bool (b : Bool) : Parses ByteDecoder.bool [.bool b] True :=
  prim trivial fun _ => ⟨b, Reads.bool b⟩

theorem stringArray (ss : List Str) : Parses ByteDecoder.stringArray [.stringArray ss] True :=
  prim trivial fun fits => ⟨ss, Reads.stringArray (lt_of_fits fits.1) fits.2⟩

end Parses

section Produce

theorem Data.stable : Stable Data.decode := .bind .int32 fun _ => .bind .bytes fun _ => .pure _

theorem TopicData.stable : Stable TopicData.decode :=
  .bind .string fun _ => .bind (.array Data.stable) fun _ => .pure _

theorem ProduceRequest.stable (version : Int16) : Stable (decode version) :=
  .bind (.when .nullableString none) fun _ => .bind .int16 fun _ => .bind .int32 fun _ =>
    .bind (.array TopicData.stable) fun _ => .pure _

theorem Data.parses (d : Data) : Parses decode d.puts True :=
  .field (.int32 _) fun _ => .map (.bytes _) _

theorem TopicData.parses (td : TopicData) :
    Parses decode td.puts (td.data.length ≤ maxArrayLength) :=
  .field (.string _) fun _ => .map (.list Data.parses fun _ => rfl) _

theorem ProduceRequest.parses (r : ProduceRequest) :
    Parses (decode r.apiVersion) r.puts (Short TopicData.data r.topicData) := by
  rw [puts, append_assoc]
  exact .next (.when (fun _ => .nullableString _) none) fun _ => .field (.int16 _) fun _ =>
    .field (.int32 _) fun _ => .map (.array _ (fun td _ => td.parses) fun _ => rfl) _

end Produce

section Fetch

variable (version : Int16)

theorem FetchPartition.stable : Stable FetchPartition.decode :=
  .bind .int32 fun _ => .bind .int64 fun _ => .bind .int32 fun _ => .pure _

theorem FetchTopic.stable : Stable FetchTopic.decode :=
  .bind .string fun _ => .bind (.array FetchPartition.stable) fun _ => .pure _

theorem FetchRequest.stable : Stable (FetchRequest.decode version) :=
  .bind .int32 fun _ => .bind .int32 fun _ => .bind .int32 fun _ => .bind (.when .int32 0) fun _ =>
    .bind (.when .int8 0) fun _ => .bind (.array FetchTopic.stable) fun _ => .pure _

theorem FetchPartition.parses (p : FetchPartition) : Parses decode p.puts True :=
  .field (.int32 _) fun _ => .field (.int64 _) fun _ => .map (.int32 _) _

theorem FetchTopic.parses (t : FetchTopic) :
    Parses decode t.puts (t.partitions.length ≤ maxArrayLength) :=
  .field (.string _) fun _ => .map (.list FetchPartition.parses fun _ => rfl) _

theorem FetchRequest.parses (r : FetchRequest) :
    Parses (decode r.apiVersion) r.puts (Short FetchTopic.partitions r.topics) := by
  simp only [puts, append_assoc, cons_append, nil_append]
  exact .field (.int32 _) fun _ => .field (.int32 _) fun _ => .field (.int32 _) fun _ =>
    .next (.when (fun _ => .int32 _) 0) fun _ => .next (.when (fun _ => .int8 _) 0) fun _ =>
      .map (.array _ (fun t _ => FetchTopic.parses t) fun _ => rfl) _

theorem AbortedTransaction.stable : Stable AbortedTransaction.decode :=
  .bind .int64 fun _ => .bind .int64 fun _ => .pure _

theorem FetchPartitionResponse.stable : Stable (FetchPartitionResponse.decode version) :=
  .bind .int32 fun _ => .bind .int16 fun _ => .bind .int64 fun _ =>
    .bind (.when (.bind .int64 fun _ => .bind (.array AbortedTransaction.stable) fun _ =>
      .pure _) (0, [])) fun _ => .bind .bytes fun _ => .pure _

theorem FetchTopicResponse.stable : Stable (FetchTopicResponse.decode version) :=
  .bind .string fun _ => .bind (.array (FetchPartitionResponse.stable version)) fun _ => .pure _

theorem FetchResponse.stable : Stable (FetchResponse.decode version) :=
  .bind (.when (.bind .int32 fun _ => .pure _) 0) fun _ =>
    .bind (.array (FetchTopicResponse.stable version)) fun _ => .pure _

end Fetch

theorem MetadataRequest.stable (version : Int16) : Stable (decode version) :=
  .bind .stringArray fun _ => .bind (.when .bool false) fun _ => .pure _

theorem MetadataRequest.parses (r : MetadataRequest) :
    Parses (decode r.apiVersion) r.puts True :=
  .field (.stringArray _) fun _ => .map (.when (fun _ => .bool _) false) _

theorem LeaderAndISRPartition.stable : Stable LeaderAndISRPartition.decode :=
  .bind .string fun _ => .bind .int32 fun _ => .bind .int16 fun _ => .pure _

theorem LeaderAndISRResponse.stable (version : Int16) : Stable (decode version) :=
  .bind .int16 fun _ => .bind (.array LeaderAndISRPartition.stable) fun _ => .pure _

theorem TopicErrorCode.stable_created (version : Int16) : Stable (decodeCreated version) :=
  .bind .string fun _ => .bind .int16 fun _ => .bind (.when .nullableString none) fun _ => .pure _

theorem CreateTopicsResponse.stable (version : Int16) : Stable (decode version) :=
  .bind (.when (.bind .int32 fun _ => .pure _) 0) fun _ =>
    .bind (.array (TopicErrorCode.stable_created version)) fun _ => .pure _

theorem GroupAssignment.stable : Stable GroupAssignment.decode :=
  .bind .string fun _ => .bind .bytes fun _ => .pure _

theorem SyncGroupRequest.stable (version : Int16) : Stable (decode version) :=
  .bind .string fun _ => .bind .int32 fun _ => .bind .string fun _ =>
    .bind (.array GroupAssignment.stable) fun _ => .pure _

theorem GroupAssignment.parses (a : GroupAssignment) : Parses decode a.puts True :=
  .field (.string _) fun _ => .map (.bytes _) _

theorem SyncGroupRequest.parses (r : SyncGroupRequest) :
    Parses (decode r.apiVersion) r.puts (r.groupAssignments.length ≤ maxArrayLength) :=
  .field (.string _) fun _ => .field (.int32 _) fun _ => .field (.string _) fun _ =>
    .map (.list GroupAssignment.parses fun _ => rfl) _

section Configs

variable (version : Int16)

theorem DescribeConfigsSynonym.stable : Stable DescribeConfigsSynonym.decode :=
  .bind .string fun _ => .bind .nullableString fun _ => .bind .int8 fun _ => .pure _

theorem DescribeConfigsEntry.stable : Stable (DescribeConfigsEntry.decode version) :=
  .bind .string fun _ => .bind .nullableString fun _ => .bind .bool fun _ => .bind .bool fun _ =>
    .bind .bool fun _ => .bind (.when (.array DescribeConfigsSynonym.stable) []) fun _ => .pure _

theorem DescribeConfigsResourceResponse.stable :
    Stable (DescribeConfigsResourceResponse.decode version) :=
  .bind .int16 fun _ => .bind .nullableString fun _ => .bind .int8 fun _ => .bind .string fun _ =>
    .bind (.array (DescribeConfigsEntry.stable version)) fun _ => .pure _

theorem DescribeConfigsResponse.stable : Stable (DescribeConfigsResponse.decode version) :=
  .bind .int32 fun _ =>
    .bind (.array (DescribeConfigsResourceResponse.stable version)) fun _ => .pure _

theorem DescribeConfigsSynonym.parses (s : DescribeConfigsSynonym) : Parses decode s.puts True :=
  .field (.string _) fun _ => .field (.nullableString _) fun _ => .map (.int8 _) _

/-- The entries of which `ArrayLength` refuses nothing. -/
def DescribeConfigsEntry.Few (e : DescribeConfigsEntry) : Prop :=
  1 ≤ version → e.synonyms.length ≤ maxArrayLength

theorem DescribeConfigsEntry.parses (e : DescribeConfigsEntry) :
    Parses (decode version) (e.puts version) (e.Few version) :=
  .field (.string _) fun _ => .field (.nullableString _) fun _ => .field (.bool _) fun _ =>
    .field (.bool _) fun _ => .field (.bool _) fun _ => .map (.optional
      (.list DescribeConfigsSynonym.parses fun _ => rfl) []) _

theorem DescribeConfigsResourceResponse.parses (r : DescribeConfigsResourceResponse) :
    Parses (decode version) (r.puts version) (r.configEntries.length ≤ maxArrayLength ∧
      ∀ e ∈ r.configEntries, e.Few version) :=
  .field (.int16 _) fun _ => .field (.nullableString _) fun _ => .field (.int8 _) fun _ =>
    .field (.string _) fun _ =>
      .map (.array _ (fun e _ => e.parses version) fun _ => rfl) _

theorem DescribeConfigsResponse.parses (r : DescribeConfigsResponse) :
    Parses (decode r.apiVersion) r.puts (r.resources.length ≤ maxArrayLength ∧
      ∀ s ∈ r.resources, s.configEntries.length ≤ maxArrayLength ∧
        ∀ e ∈ s.configEntries, e.Few r.apiVersion) :=
  .field (.int32 _) fun _ =>
    .map (.array _ (fun s _ => s.parses r.apiVersion) fun _ => rfl) _

end Configs

section Metadata

/-- What may be missing of a partition: its `ISR`, with the number in front of it. -/
def PartitionMetadata.slack (p : PartitionMetadata) : Nat := 4 + 4 * p.isr.length

/-- What may be missing of a topic: the `ISR` of its last partition. -/
def TopicMetadata.slack (t : TopicMetadata) : Nat :=
  if t.partitionMetadata.length ≤ maxArrayLength then
    (t.partitionMetadata.getLast?.map PartitionMetadata.slack).getD 0
  else 0

/-- What may be missing of a response: the `ISR` of the last partition of its last topic, where
none of the arrays is too long for `ArrayLength`. -/
def MetadataResponse.slack (r : MetadataResponse) : Nat :=
  if r.brokers.length ≤ maxArrayLength ∧ r.topicMetadata.length ≤ maxArrayLength ∧
      ∀ t ∈ r.topicMetadata, t.partitionMetadata.length ≤ maxArrayLength then
    (r.topicMetadata.getLast?.map TopicMetadata.slack).getD 0
  else 0

theorem Broker.stable : Stable Broker.decode :=
  .bind .int32 fun _ => .bind .string fun _ => .bind .int32 fun _ => .pure _

variable (p : PartitionMetadata)

theorem PartitionMetadata.sizeOf_isr :
    sizeOf [.int32Array p.isr] = p.slack := by
  have width : (Put.int32Array p.isr).raw.length = 4 + (p.isr.map fun _ => 4).sum :=
    Codec.length_raw_int32Array p.isr
  have total : (p.isr.map fun _ => 4).sum = 4 * p.isr.length := by
    simp [Nat.mul_comm]
  rw [sizeOf_cons, sizeOf_nil, width, total, slack, Nat.add_zero]

theorem PartitionMetadata.slack_lt : p.slack < sizeOf p.puts := by
  have code : (Put.int16 p.partitionErrorCode).raw.length = 2 := length_putUint ..
  have isr := p.sizeOf_isr
  rw [sizeOf_cons, sizeOf_nil] at isr
  simp only [puts, sizeOf_cons, sizeOf_nil]
  omega

theorem PartitionMetadata.tears : Tears decode p.puts p.slack := by
  have isr := p.sizeOf_isr
  have last := Tears.attempt_int32Array p.isr
  rw [isr] at last
  rw [sizeOf_cons, sizeOf_nil] at isr
  refine .seq .int16 (.int16 p.partitionErrorCode) (fun _ => .seq .int32 (.int32 p.partitionID)
    (fun _ => .seq .int32 (.int32 p.leader) (fun _ => .seq .int32Array (.int32Array p.replicas)
      (fun _ => last.map _) ?_) ?_) ?_) ?_
  all_goals
    simp only [sizeOf_cons, sizeOf_nil]
    omega

section

variable (t : TopicMetadata)
include t

theorem TopicMetadata.slack_of_many
    (many : ¬ t.partitionMetadata.length ≤ maxArrayLength) : t.slack = 0 := if_neg many

theorem TopicMetadata.partitions_tears :
    Tears (array PartitionMetadata.decode) (.arrayLength t.partitionMetadata.length ::
      t.partitionMetadata.flatMap PartitionMetadata.puts) t.slack ∧
    t.slack ≤ sizeOf (.arrayLength t.partitionMetadata.length ::
      t.partitionMetadata.flatMap PartitionMetadata.puts) := by
  have partitions := Tears.array_last (fun _ => True) (fun p _ => p.parses)
    (fun p (_ : p ∈ t.partitionMetadata) => p.tears) (fun p _ => p.slack_lt)
    fun _ bad => (bad trivial).elim
  simpa [slack] using partitions

theorem TopicMetadata.slack_lt : t.slack < sizeOf t.puts := by
  have code : (Put.int16 t.topicErrorCode).raw.length = 2 := length_putUint ..
  have below := t.partitions_tears.2
  simp only [puts, cons_append, nil_append, sizeOf_cons] at below ⊢
  omega

theorem TopicMetadata.tears : Tears decode t.puts t.slack := by
  obtain ⟨partitions, below⟩ := t.partitions_tears
  refine (Tears.seq Stable.int16 (Parses.int16 t.topicErrorCode) (fun _ =>
    .seq Stable.string (Parses.string t.topic) (fun _ => partitions.map _) below)
    ?_).congr rfl rfl
  simp only [cons_append, nil_append, sizeOf_cons] at below ⊢
  omega

end

variable (r : MetadataResponse)

theorem MetadataResponse.tears :
    Tears (decode r.apiVersion) r.puts r.slack := by
  obtain ⟨topics, below⟩ := Tears.array_last
    (fun t : TopicMetadata => t.partitionMetadata.length ≤ maxArrayLength) (fun t _ => t.parses)
    (fun t (_ : t ∈ r.topicMetadata) => t.tears) (fun t _ => t.slack_lt)
    TopicMetadata.slack_of_many
  have brokers := Parses.array r.brokers (fun b _ => b.parses) fun _ => rfl
  have later (brokers : List Broker) := Tears.seq (Stable.int32.when (0 : Int32))
    (Parses.when (fun _ : 1 ≤ r.apiVersion => Parses.int32 r.controllerID) 0)
    (fun controllerID => topics.map fun topicMetadata =>
      (⟨r.apiVersion, brokers, controllerID, topicMetadata⟩ : MetadataResponse)) below
  refine ((Tears.of_stable Broker.stable.array brokers).bind brokers later ?_
    (fun none => (Nat.lt_irrefl _ none).elim) ?_ ?_).congr ?_ rfl
  · rw [sizeOf_append]
    omega
  · rintro ⟨few, -⟩
    simp only [slack, few, true_and]
  · intro bad
    have many : ¬ r.brokers.length ≤ maxArrayLength := fun few => bad ⟨few, fun _ _ => trivial⟩
    simp only [slack, many, false_and, if_false]
  · simp [puts]

end Metadata

/-- `Decode` returns a nil error on these bytes. -/
def Accepts (dec : Call ByteDecoder α) (q : Bytes) : Prop :=
  ∃ x d', dec.run (newDecoder q) = .ok x d'

/-- No strict front part of an encoding is accepted. -/
def Whole (puts : List Put) (dec : Call ByteDecoder α) : Prop :=
  ∀ b q, encode puts = .ok b → q <+: b → q.length < b.length → ¬ Accepts dec q

theorem Stable.whole {dec : Call ByteDecoder α} {puts : List Put} {ok : Prop} (stable : Stable dec)
    (parses : Parses dec puts ok) : Whole puts dec := by
  intro b q encoded front short returned
  have all := ((Tears.of_stable stable parses).returns_iff parses.plain encoded front short).mp
    returned
  omega

/-- Of a message that is cut somewhere `Decode` returns an error or panics, except for a
`MetadataResponse` of which only bytes of the last `ISR` are missing. -/
theorem truncated_refused_iff (produceRequest : ProduceRequest) (fetchRequest : FetchRequest)
    (fetchResponse : FetchResponse) (metadataRequest : MetadataRequest)
    (leaderAndISRResponse : LeaderAndISRResponse) (createTopicsResponse : CreateTopicsResponse)
    (describeConfigsResponse : DescribeConfigsResponse) (syncGroupRequest : SyncGroupRequest)
    (metadataResponse : MetadataResponse) :
    Whole produceRequest.puts (ProduceRequest.decode produceRequest.apiVersion) ∧
    Whole fetchRequest.puts (FetchRequest.decode fetchRequest.apiVersion) ∧
    Whole fetchResponse.puts (FetchResponse.decode fetchResponse.apiVersion) ∧
    Whole metadataRequest.puts (MetadataRequest.decode metadataRequest.apiVersion) ∧
    Whole leaderAndISRResponse.puts
      (LeaderAndISRResponse.decode leaderAndISRResponse.apiVersion) ∧
    Whole createTopicsResponse.puts
      (CreateTopicsResponse.decode createTopicsResponse.apiVersion) ∧
    Whole describeConfigsResponse.puts
      (DescribeConfigsResponse.decode describeConfigsResponse.apiVersion) ∧
    Whole syncGroupRequest.puts (SyncGroupRequest.decode syncGroupRequest.apiVersion) ∧
    ∀ b q, encode metadataResponse.puts = .ok b → q <+: b → q.length < b.length →
      (¬ Accepts (MetadataResponse.decode metadataResponse.apiVersion) q ↔
        q.length + metadataResponse.slack < b.length) := by
  refine ⟨(ProduceRequest.stable _).whole produceRequest.parses,
    (FetchRequest.stable _).whole fetchRequest.parses,
    (FetchResponse.stable _).whole fetchResponse.parses,
    (MetadataRequest.stable _).whole metadataRequest.parses,
    (LeaderAndISRResponse.stable _).whole leaderAndISRResponse.parses,
    (CreateTopicsResponse.stable _).whole createTopicsResponse.parses,
    (DescribeConfigsResponse.stable _).whole describeConfigsResponse.parses,
    (SyncGroupRequest.stable _).whole syncGroupRequest.parses, fun b q encoded front short => ?_⟩
  have returns := metadataResponse.tears.returns_iff metadataResponse.parses.plain encoded front
    short
  exact (not_congr returns).trans not_le

/-- One topic with one partition, whose replicas 1 and 2 have `isr` in sync. -/
def MetadataResponse.twoReplicas (isr : List Int32) : MetadataResponse where
  apiVersion := 0
  brokers := []
  controllerID := 0
  topicMetadata := [⟨0, [], [⟨0, 0, 1, [1, 2], isr⟩]⟩]

/-- Without its last byte the message is taken for one with no replica in sync. -/
theorem truncated_accepted :
    ∃ b q, encode (MetadataResponse.twoReplicas [1, 2]).puts = .ok b ∧ q <+: b ∧
      q.length < b.length ∧ ∃ d', (MetadataResponse.decode 0).run (newDecoder q) =
        .ok (MetadataResponse.twoReplicas []) d' :=
  ⟨_, _, rfl, dropLast_prefix _, by decide, _, rfl⟩

end Jocko.Protocol
