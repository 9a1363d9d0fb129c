import Jocko.Protocol.Requests
import Jocko.Protocol.Wire

namespace Jocko.Protocol

open Go ByteDecoder List

/-- A field of a message, as far as its length goes. -/
inductive Field where
  | fixed (width : Nat)
  | string
  | bytes
  | strings
  | int32s
  | array (items : List Field)

/-- The bytes end before or inside a field of one or two bytes (a flag, a small number or the
length of a string), behind whole fields. -/
inductive Cut : List Field → Bytes → Prop where
  | fixed {width : Nat} {fs : List Field} {b : Bytes} (narrow : width ≤ 2)
      (short : b.length < width) : Cut (.fixed width :: fs) b
  | string {fs : List Field} {b : Bytes} (short : b.length < 2) : Cut (.string :: fs) b
  | afterFixed {width : Nat} {fs : List Field} {b : Bytes} (whole : width ≤ b.length)
      (rest : Cut fs (b.drop width)) : Cut (.fixed width :: fs) b
  | afterString {fs : List Field} {b : Bytes} {n : Int} (header : 2 ≤ b.length)
      (length : (Int16.ofNat (getUint (b.take 2))).toInt = n) (valid : -1 ≤ n)
      (whole : n ≤ (b.drop 2).length) (rest : Cut fs ((b.drop 2).drop n.toNat)) :
      Cut (.string :: fs) b
  | afterBytes {fs : List Field} {b : Bytes} {n : Int} (header : 4 ≤ b.length)
      (length : (Int32.ofNat (getUint (b.take 4))).toInt = n) (valid : -1 ≤ n)
      (whole : n ≤ (b.drop 4).length) (rest : Cut fs ((b.drop 4).drop n.toNat)) :
      Cut (.bytes :: fs) b
  | inStrings {fs : List Field} {b : Bytes} (header : 4 ≤ b.length)
      (rest : Cut (List.replicate (getUint (b.take 4)) .string ++ fs) (b.drop 4)) :
      Cut (.strings :: fs) b
  | afterInt32s {fs : List Field} {b : Bytes} (header : 4 ≤ b.length)
      (whole : 4 * getUint (b.take 4) ≤ (b.drop 4).length)
      (rest : Cut fs ((b.drop 4).drop (4 * getUint (b.take 4)))) : Cut (.int32s :: fs) b
  | inArray {items fs : List Field} {b : Bytes} (header : 4 ≤ b.length)
      (enough : getUint (b.take 4) ≤ (b.drop 4).length)
      (few : getUint (b.take 4) ≤ maxArrayLength)
      (rest : Cut ((List.replicate (getUint (b.take 4)) items).flatten ++ fs) (b.drop 4)) :
      Cut (.array items :: fs) b

variable {width : Nat} {n : Int}

section Cases

variable {fs items : List Field} {b : Bytes}

theorem cut_fixed : Cut (.fixed width :: fs) b ↔
    width ≤ 2 ∧ b.length < width ∨ width ≤ b.length ∧ Cut fs (b.drop width) := by
  constructor
  · intro cut
    cases cut with
    | fixed narrow short => exact .inl ⟨narrow, short⟩
    | afterFixed whole rest => exact .inr ⟨whole, rest⟩
  · rintro (⟨narrow, short⟩ | ⟨whole, rest⟩)
    · exact .fixed narrow short
    · exact .afterFixed whole rest

theorem cut_string (header : 2 ≤ b.length)
    (length : (Int16.ofNat (getUint (b.take 2))).toInt = n) : Cut (.string :: fs) b ↔
      -1 ≤ n ∧ n ≤ (b.drop 2).length ∧ Cut fs ((b.drop 2).drop n.toNat) := by
  subst length
  constructor
  · intro cut
    cases cut with
    | string short => omega
    | afterString _ length valid whole rest =>
      subst length
      exact ⟨valid, whole, rest⟩
  · rintro ⟨valid, whole, rest⟩
    exact .afterString header rfl valid whole rest

theorem cut_bytes (length : (Int32.ofNat (getUint (b.take 4))).toInt = n) :
    Cut (.bytes :: fs) b ↔ 4 ≤ b.length ∧
      -1 ≤ n ∧ n ≤ (b.drop 4).length ∧ Cut fs ((b.drop 4).drop n.toNat) := by
  subst length
  constructor
  · intro cut
    cases cut with
    | afterBytes header length valid whole rest =>
      subst length
      exact ⟨header, valid, whole, rest⟩
  · rintro ⟨header, valid, whole, rest⟩
    exact .afterBytes header rfl valid whole rest

theorem cut_strings : Cut (.strings :: fs) b ↔ 4 ≤ b.length ∧
    Cut (List.replicate (getUint (b.take 4)) .string ++ fs) (b.drop 4) := by
  constructor
  · intro cut
    cases cut with
    | inStrings header rest => exact ⟨header, rest⟩
  · rintro ⟨header, rest⟩
    exact .inStrings header rest

theorem cut_int32s : Cut (.int32s :: fs) b ↔ 4 ≤ b.length ∧
    4 * getUint (b.take 4) ≤ (b.drop 4).length ∧
    Cut fs ((b.drop 4).drop (4 * getUint (b.take 4))) := by
  constructor
  · intro cut
    cases cut with
    | afterInt32s header whole rest => exact ⟨header, whole, rest⟩
  · rintro ⟨header, whole, rest⟩
    exact .afterInt32s header whole rest

theorem cut_array : Cut (.array items :: fs) b ↔ 4 ≤ b.length ∧
    getUint (b.take 4) ≤ (b.drop 4).length ∧ getUint (b.take 4) ≤ maxArrayLength ∧
    Cut ((List.replicate (getUint (b.take 4)) items).flatten ++ fs) (b.drop 4) := by
  constructor
  · intro cut
    cases cut with
    | inArray header enough few rest => exact ⟨header, enough, few, rest⟩
  · rintro ⟨header, enough, few, rest⟩
    exact .inArray header enough few rest

end Cases

section Runs

variable {α β : Type} {d : ByteDecoder}

/-- What the decoder has not read. -/
def ByteDecoder.left (d : ByteDecoder) : Bytes := d.b.drop d.off

theorem left_skip (d : ByteDecoder) (n : Nat) : (d.skip n).left = d.left.drop n := by
  rw [left, left, skip_b, skip_off, drop_drop]

theorem length_left (d : ByteDecoder) : d.left.length = d.b.length - d.off := length_drop ..

theorem rest_left (inside : d.off ≤ d.b.length) : d.Rest d.left := ⟨inside, rfl⟩

theorem inside_skip {n : Nat} (inside : d.off ≤ d.b.length) (enough : n ≤ d.left.length) :
    (d.skip n).off ≤ (d.skip n).b.length := by
  rw [length_left] at enough
  rw [skip_off, skip_b]
  omega

theorem fixed_enough (inside : d.off ≤ d.b.length) (enough : width ≤ d.left.length) :
    (fixed width).run d = .ok (getUint (d.left.take width)) (d.skip width) := by
  rw [length_left] at enough
  simp only [fixed, if_pos (show d.off + width ≤ d.b.length by omega)]
  rfl

theorem fixed_short (inside : d.off ≤ d.b.length) (short : d.left.length < width) :
    (fixed width).run d = .error (.panic "index out of range") d := by
  rw [length_left] at short
  simp only [fixed, if_neg (show ¬ d.off + width ≤ d.b.length by omega)]

theorem slice_enough {n : Nat} (inside : d.off ≤ d.b.length) (enough : n ≤ d.left.length) :
    (slice n).run d = .ok (d.left.take n) (d.skip n) := by
  rw [length_left] at enough
  simp only [slice, if_pos (show d.off + n ≤ d.b.length by omega)]
  rfl

theorem need_short (inside : d.off ≤ d.b.length) (short : d.left.length < n) :
    (need n).run d = .error errInsufficientData { d with off := d.b.length } := by
  unfold need
  rw [bind_ok (remaining_run (rest_left inside)), if_pos short]
  rfl

/-- The decoder meets the layout: it panics exactly where the bytes are cut, whatever follows, and
it never leaves the buffer. -/
def Guarded (dec : Call ByteDecoder α) (fs : List Field) : Prop :=
  ∀ (d : ByteDecoder) (next : List Field), d.off ≤ d.b.length →
    match dec.run d with
    | .ok _ d' => d'.b = d.b ∧ d'.off ≤ d'.b.length ∧ (Cut (fs ++ next) d.left ↔ Cut next d'.left)
    | .error why d' => d'.b = d.b ∧ d'.off ≤ d'.b.length ∧
        ((∃ cause, why = .err cause) ∧ ¬ Cut (fs ++ next) d.left ∨
          (∃ text, why = .panic text) ∧ Cut (fs ++ next) d.left)

namespace Guarded

variable {dec : Call ByteDecoder α} {fs gs : List Field}

theorem pure (value : α) : Guarded (Pure.pure value) [] := by
  intro d next inside
  exact ⟨rfl, inside, Iff.rfl⟩

theorem bind {next : α → Call ByteDecoder β} (first : Guarded dec fs)
    (second : ∀ x, Guarded (next x) gs) : Guarded (dec >>= next) (fs ++ gs) := by
  intro d after inside
  have one := first d (gs ++ after) inside
  rw [append_assoc]
  cases ran : dec.run d with
  | error why d' =>
    rw [bind_error ran]
    rwa [ran] at one
  | ok x d' =>
    rw [ran] at one
    obtain ⟨same, inside', cut⟩ := one
    have two := second x d' after inside'
    rw [bind_ok ran]
    cases ran' : (next x).run d' with
    | ok y d'' =>
      rw [ran'] at two
      obtain ⟨same', inside'', cut'⟩ := two
      exact ⟨same'.trans same, inside'', cut.trans cut'⟩
    | error why d'' =>
      rw [ran'] at two
      obtain ⟨same', inside'', ending⟩ := two
      rw [← cut] at ending
      exact ⟨same'.trans same, inside'', ending⟩

theorem field {next : α → Call ByteDecoder β} {f : Field} (first : Guarded dec [f])
    (second : ∀ x, Guarded (next x) gs) : Guarded (dec >>= next) (f :: gs) :=
  first.bind second

theorem map {f : α → β} (guarded : Guarded dec fs) :
    Guarded (dec >>= fun x => Pure.pure (f x)) fs := by
  have mapped : Guarded (dec >>= fun x => Pure.pure (f x)) (fs ++ []) :=
    guarded.bind fun x => pure (f x)
  rwa [append_nil] at mapped

theorem when {p : Prop} [Decidable p] {zero : α} (guarded : Guarded dec fs) :
    Guarded (ByteDecoder.when p dec zero) (if p then fs else []) := by
  unfold ByteDecoder.when
  split
  · exact guarded
  · exact pure zero

theorem narrow (small : width ≤ 2) : Guarded (fixed width) [.fixed width] := by
  intro d next inside
  by_cases enough : width ≤ d.left.length
  · rw [fixed_enough inside enough]
    refine ⟨rfl, inside_skip inside enough, ?_⟩
    rw [singleton_append, cut_fixed, left_skip]
    simp [enough]
  · rw [fixed_short inside (by omega)]
    exact ⟨rfl, inside, .inr ⟨⟨_, rfl⟩, .fixed small (by omega)⟩⟩

theorem wide (large : 2 < width) :
    Guarded (need width >>= fun _ => fixed width) [.fixed width] := by
  intro d next inside
  by_cases enough : width ≤ d.left.length
  · rw [bind_ok (need_run (rest_left inside) (by omega)), fixed_enough inside enough]
    refine ⟨rfl, inside_skip inside enough, ?_⟩
    rw [singleton_append, cut_fixed, left_skip]
    simp [enough]
  · rw [bind_error (need_short inside (by omega))]
    refine ⟨rfl, Nat.le_refl _, .inl ⟨⟨_, rfl⟩, ?_⟩⟩
    rw [singleton_append, cut_fixed]
    omega

theorem int8 : Guarded int8 [.fixed 1] := (narrow (by decide)).map

theorem bool : Guarded bool [.fixed 1] := int8.map

theorem int16 : Guarded int16 [.fixed 2] := (narrow (by decide)).map

theorem int32 : Guarded int32 [.fixed 4] := by
  have read : Guarded ((need 4 >>= fun _ => fixed 4) >>= fun tmp => Pure.pure (Int32.ofNat tmp))
      [.fixed 4] := (wide (by decide)).map
  rwa [bind_assoc] at read

theorem int64 : Guarded int64 [.fixed 8] := by
  have read : Guarded ((need 8 >>= fun _ => fixed 8) >>= fun (tmp : Nat) =>
      Pure.pure ((tmp : Int).bmod (2 ^ 64))) [.fixed 8] := (wide (by decide)).map
  rwa [bind_assoc] at read

/-- A call that takes `n` bytes if they are there. -/
def Takes (tail : Call ByteDecoder α) (n : Int) : Prop :=
  ∀ d : ByteDecoder, d.off ≤ d.b.length →
    (n ≤ d.left.length → ∃ x, tail.run d = .ok x (d.skip n.toNat)) ∧
    (d.left.length < n → ∃ cause, tail.run d = .error (.err cause) { d with off := d.b.length })

theorem Takes.pure (none : n ≤ 0) (value : α) : Takes (Pure.pure value) n := by
  intro d inside
  constructor
  · intro _
    rw [Int.toNat_of_nonpos none]
    exact ⟨value, rfl⟩
  · intro short
    omega

theorem Takes.needed {tail : Call ByteDecoder α}
    (takes : ∀ d : ByteDecoder, d.off ≤ d.b.length → n ≤ d.left.length →
      ∃ x, tail.run d = .ok x (d.skip n.toNat)) : Takes (need n >>= fun _ => tail) n := by
  intro d inside
  constructor
  · intro enough
    rw [bind_ok (need_run (rest_left inside) enough)]
    exact takes d inside enough
  · intro short
    exact ⟨_, bind_error (need_short inside short)⟩

variable {d : ByteDecoder}

theorem Takes.slice (n : Int) (f : Bytes → α) (inside : d.off ≤ d.b.length)
    (enough : n ≤ d.left.length) :
    ∃ x, (ByteDecoder.slice n.toNat >>= fun s => Pure.pure (f s)).run d = .ok x (d.skip n.toNat) :=
  ⟨_, bind_ok (slice_enough inside (by omega))⟩

theorem behind {tail : Call ByteDecoder α}
    (invalid : n < -1 → ∃ cause, tail = stop (.err cause)) (takes : -1 ≤ n → Takes tail n)
    (inside : d.off ≤ d.b.length) {cut : Prop} {next : List Field}
    (cases : cut ↔ -1 ≤ n ∧ n ≤ d.left.length ∧ Cut next (d.left.drop n.toNat)) :
    match tail.run d with
    | .ok _ d' => d'.b = d.b ∧ d'.off ≤ d'.b.length ∧ (cut ↔ Cut next d'.left)
    | .error why d' => d'.b = d.b ∧ d'.off ≤ d'.b.length ∧
        ((∃ cause, why = .err cause) ∧ ¬ cut ∨ (∃ text, why = .panic text) ∧ cut) := by
  by_cases valid : -1 ≤ n
  · by_cases enough : n ≤ d.left.length
    · obtain ⟨x, ran⟩ := (takes valid d inside).1 enough
      rw [ran]
      refine ⟨rfl, inside_skip inside (by omega), ?_⟩
      rw [cases, left_skip]
      simp [valid, enough]
    · obtain ⟨cause, ran⟩ := (takes valid d inside).2 (by omega)
      rw [ran]
      refine ⟨rfl, Nat.le_refl _, .inl ⟨⟨cause, rfl⟩, ?_⟩⟩
      rw [cases]
      omega
  · obtain ⟨cause, stops⟩ := invalid (by omega)
    rw [stops]
    refine ⟨rfl, inside, .inl ⟨⟨cause, rfl⟩, ?_⟩⟩
    rw [cases]
    omega

theorem text {tail : Int16 → Call ByteDecoder α}
    (invalid : ∀ l, l.toInt < -1 → ∃ cause, tail l = stop (.err cause))
    (takes : ∀ l, -1 ≤ l.toInt → Takes (tail l) l.toInt) :
    Guarded (ByteDecoder.int16 >>= tail) [.string] := by
  intro d next inside
  rw [singleton_append]
  by_cases header : 2 ≤ d.left.length
  · have ran : ByteDecoder.int16.run d = .ok (Int16.ofNat (getUint (d.left.take 2))) (d.skip 2) :=
      bind_ok (fixed_enough inside header)
    have cases : Cut (.string :: next) d.left ↔ _ := cut_string header rfl
    rw [← left_skip] at cases
    rw [bind_ok ran]
    exact behind (invalid _) (takes _) (inside_skip inside header) cases
  · have ran : ByteDecoder.int16.run d = .error (.panic "index out of range") d :=
      bind_error (fixed_short inside (by omega))
    rw [bind_error ran]
    exact ⟨rfl, inside, .inr ⟨⟨_, rfl⟩, .string (by omega)⟩⟩

theorem string : Guarded string [.string] := by
  refine text (fun l negative => ⟨_, if_pos negative⟩) fun l valid => ?_
  dsimp only
  rw [if_neg (by omega)]
  split
  · exact Takes.pure (by omega) []
  · split
    · exact Takes.pure (by omega) []
    · refine Takes.needed fun d inside enough => ?_
      exact ⟨_, slice_enough inside (by omega)⟩

theorem nullableString : Guarded nullableString [.string] := by
  unfold ByteDecoder.nullableString stringLength
  rw [bind_assoc]
  refine text (fun l negative => ⟨_, by rw [if_pos negative]; rfl⟩) fun l valid => ?_
  dsimp only
  rw [if_neg (by omega), bind_assoc]
  refine Takes.needed fun d inside enough => ?_
  rw [pure_bind]
  split
  · rw [Int.toNat_of_nonpos (by omega)]
    exact ⟨none, rfl⟩
  · exact Takes.slice _ some inside enough

theorem bytes : Guarded bytes [.bytes] := by
  intro d next inside
  rw [singleton_append]
  have cases : Cut (.bytes :: next) d.left ↔ _ := cut_bytes rfl
  unfold ByteDecoder.bytes
  by_cases header : 4 ≤ d.left.length
  · have ran : ByteDecoder.int32.run d = .ok (Int32.ofNat (getUint (d.left.take 4))) (d.skip 4) :=
      (bind_ok (need_run (rest_left inside) (by omega))).trans
        (bind_ok (fixed_enough inside header))
    rw [and_iff_right header, ← left_skip] at cases
    rw [bind_ok ran]
    refine behind (fun negative => ⟨_, if_pos negative⟩) (fun valid => ?_)
      (inside_skip inside header) cases
    rw [if_neg (by omega)]
    split
    · exact Takes.pure (by omega) none
    · split
      · exact Takes.pure (by omega) (some [])
      · exact Takes.needed fun d inside enough => Takes.slice _ some inside enough
  · have ran : ByteDecoder.int32.run d = .error errInsufficientData { d with off := d.b.length } :=
      bind_error (need_short inside (by omega))
    rw [bind_error ran]
    exact ⟨rfl, Nat.le_refl _, .inl ⟨⟨_, rfl⟩, fun cut => header (cases.mp cut).1⟩⟩

variable {items : List Field}

theorem times (one : Guarded dec items) (n : Nat) :
    Guarded (times dec n) (List.replicate n items).flatten := by
  induction n with
  | zero => exact pure []
  | succ n ih =>
    rw [replicate_succ, flatten_cons]
    exact one.bind fun x => ih.map

theorem counted {next : Nat → Call ByteDecoder α}
    (all : ∀ n, Guarded (next n) (List.replicate n items).flatten) :
    Guarded (arrayLength >>= next) [.array items] := by
  intro d after inside
  rw [singleton_append, cut_array, ← left_skip]
  by_cases header : 4 ≤ d.left.length
  · have inside' := inside_skip inside header
    have numbered : arrayLength.run d =
        (need (getUint (d.left.take 4)) >>= fun _ =>
          if maxArrayLength < getUint (d.left.take 4) then stop errInvalidArrayLength
          else Pure.pure (getUint (d.left.take 4))).run (d.skip 4) :=
      (bind_ok (need_run (rest_left inside) (by omega))).trans
        (bind_ok (fixed_enough inside header))
    generalize getUint (d.left.take 4) = n at numbered
    by_cases enough : n ≤ (d.skip 4).left.length
    · rw [bind_ok (need_run (rest_left inside') (by omega))] at numbered
      by_cases few : n ≤ maxArrayLength
      · rw [if_neg (by omega)] at numbered
        rw [bind_ok numbered, and_iff_right header, and_iff_right enough, and_iff_right few]
        exact all n (d.skip 4) after inside'
      · rw [if_pos (by omega)] at numbered
        rw [bind_error numbered]
        exact ⟨rfl, inside', .inl ⟨⟨_, rfl⟩, fun cut => few cut.2.2.1⟩⟩
    · rw [bind_error (need_short inside' (by omega))] at numbered
      rw [bind_error numbered]
      exact ⟨rfl, Nat.le_refl _, .inl ⟨⟨_, rfl⟩, fun cut => enough cut.2.1⟩⟩
  · have short : arrayLength.run d = .error errInsufficientData { d with off := d.b.length } :=
      bind_error (need_short inside (by omega))
    rw [bind_error short]
    exact ⟨rfl, Nat.le_refl _, .inl ⟨⟨_, rfl⟩, fun cut => header cut.1⟩⟩

theorem array (one : Guarded dec items) : Guarded (array dec) [.array items] := counted one.times

theorem count_enough (inside : d.off ≤ d.b.length) (header : 4 ≤ d.left.length) :
    count.run d = .ok (getUint (d.left.take 4)) (d.skip 4) :=
  (bind_ok (need_run (rest_left inside) (by omega))).trans (fixed_enough inside header)

theorem count_short (inside : d.off ≤ d.b.length)
    (short : d.left.length < 4) :
    count.run d = .error errInsufficientData { d with off := d.b.length } :=
  bind_error (need_short inside (by omega))

/-- The number of strings is not compared with anything. -/
theorem stringArray : Guarded stringArray [.strings] := by
  intro d next inside
  rw [singleton_append, cut_strings, ← left_skip]
  unfold ByteDecoder.stringArray
  by_cases header : 4 ≤ d.left.length
  · rw [bind_ok (count_enough inside header), and_iff_right header]
    have strings := string.times (getUint (d.left.take 4))
    rw [flatten_replicate_singleton] at strings
    exact strings _ next (inside_skip inside header)
  · rw [bind_error (count_short inside (by omega))]
    exact ⟨rfl, Nat.le_refl _, .inl ⟨⟨_, rfl⟩, fun cut => header cut.1⟩⟩

theorem words (inside : d.off ≤ d.b.length) {n : Nat}
    (enough : width * n ≤ d.left.length) (f : Nat → α) :
    ∃ xs, (ByteDecoder.times (fixed width >>= fun x => Pure.pure (f x)) n).run d =
      .ok xs (d.skip (width * n)) := by
  induction n generalizing d with
  | zero => exact ⟨[], rfl⟩
  | succ n ih =>
    rw [Nat.mul_succ] at enough
    have one : width ≤ d.left.length := by omega
    have others : width * n ≤ (d.skip width).left.length := by
      rw [left_skip, length_drop]
      omega
    obtain ⟨xs, rest⟩ := ih (inside_skip inside one) others
    have first : (fixed width >>= fun x => Pure.pure (f x)).run d =
        .ok (f (getUint (d.left.take width))) (d.skip width) :=
      bind_ok (fixed_enough inside one)
    refine ⟨f (getUint (d.left.take width)) :: xs, ?_⟩
    rw [ByteDecoder.times, bind_ok first, bind_ok rest, skip_skip, Nat.mul_succ,
      Nat.add_comm]
    rfl

theorem int32Array : Guarded int32Array [.int32s] := by
  intro d next inside
  rw [singleton_append, cut_int32s, ← left_skip]
  unfold ByteDecoder.int32Array
  by_cases header : 4 ≤ d.left.length
  · have inside' := inside_skip inside header
    rw [bind_ok (count_enough inside header), and_iff_right header]
    generalize getUint (d.left.take 4) = n
    by_cases enough : 4 * n ≤ (d.skip 4).left.length
    · obtain ⟨xs, ran⟩ := words inside' enough Int32.ofNat
      rw [bind_ok (need_run (rest_left inside') (by omega)), ran, and_iff_right enough]
      refine ⟨rfl, inside_skip inside' enough, ?_⟩
      rw [left_skip (d.skip 4)]
    · rw [bind_error (need_short inside' (by omega))]
      exact ⟨rfl, Nat.le_refl _, .inl ⟨⟨_, rfl⟩, fun cut => enough cut.1⟩⟩
  · rw [bind_error (count_short inside (by omega))]
    exact ⟨rfl, Nat.le_refl _, .inl ⟨⟨_, rfl⟩, fun cut => header cut.1⟩⟩

theorem lost {zero : β} (one : Guarded dec items) :
    Guarded (lost dec zero) [.array items] := counted fun n => (one.times n).map

theorem filled {κ ν : Type} [DecidableEq κ] {entry : Call ByteDecoder (κ × ν)}
    (one : Guarded entry items) : Guarded (filled entry) [.array items] := by
  rw [filled_eq]
  exact one.array.map

theorem attempt_bool : Guarded (attempt ByteDecoder.bool) [.fixed 1] := by
  intro d next inside
  have one := bool d next inside
  have unchecked : (∃ x d', ByteDecoder.bool.run d = .ok x d') ∨
      ByteDecoder.bool.run d = .error (.panic "index out of range") d := by
    by_cases enough : 1 ≤ d.left.length
    · exact .inl ⟨_, _, bind_ok (bind_ok (fixed_enough inside enough))⟩
    · exact .inr (bind_error (bind_error (fixed_short inside (by omega))))
  rcases unchecked with ⟨x, d', ran⟩ | ran
  · rw [ran] at one
    rw [attempt_ok ran]
    exact one
  · have panicked : (attempt ByteDecoder.bool).run d = .error (.panic "index out of range") d := by
      simp only [attempt, ran]
    rw [ran] at one
    rw [panicked]
    exact one

end Guarded

end Runs

/-- The fields of a `RequestHeader`. -/
def headerLayout : List Field := [.fixed 4, .fixed 2, .fixed 2, .fixed 4, .string]

/-- The fields of a request as `Decode` reads them at a version. -/
def RequestKind.layout (version : Int16) : RequestKind → List Field
  | produce => (if 3 ≤ version then [.string] else []) ++
      [.fixed 2, .fixed 4, .array [.string, .array [.fixed 4, .bytes]]]
  | fetch => [.fixed 4, .fixed 4, .fixed 4] ++ ((if 3 ≤ version then [.fixed 4] else []) ++
      ((if 4 ≤ version then [.fixed 1] else []) ++
        [.array [.string, .array [.fixed 4, .fixed 8, .fixed 4]]]))
  | offsets => [.fixed 4] ++ ((if 2 ≤ version then [.fixed 1] else []) ++
      [.array [.string, .array ([.fixed 4, .fixed 8] ++ if version = 0 then [.fixed 4] else [])]])
  | metadata => [.strings] ++ if 4 ≤ version then [.fixed 1] else []
  | leaderAndISR => [.fixed 4, .fixed 4, .array [.string, .fixed 4, .fixed 4, .fixed 4, .fixed 4,
      .int32s, .fixed 4, .int32s], .array [.fixed 4, .string, .fixed 4]]
  | stopReplica => [.fixed 4, .fixed 4, .fixed 1, .array [.string, .fixed 4]]
  | updateMetadata => []
  | controlledShutdown => []
  | offsetCommit => [.string] ++ ((if 1 ≤ version then [.fixed 4] else []) ++
      ((if 1 ≤ version then [.string] else []) ++ ((if 2 ≤ version then [.fixed 8] else []) ++
        [.array [.array ([.fixed 4, .fixed 8] ++
          ((if 1 ≤ version then [.fixed 8] else []) ++ [.string]))]])))
  | offsetFetch => [.string, .array [.string, .int32s]]
  | findCoordinator => [.string] ++ if 1 ≤ version then [.fixed 1] else []
  | joinGroup => [.string, .fixed 4] ++ ((if 1 ≤ version then [.fixed 4] else []) ++
      [.string, .string, .array [.string, .bytes]])
  | heartbeat => [.string, .fixed 4, .string]
  | leaveGroup => [.string, .string]
  | syncGroup => [.string, .fixed 4, .string, .array [.string, .bytes]]
  | describeGroups => [.strings]
  | listGroups => []
  | saslHandshake => []
  | apiVersions => []
  | createTopics => [.array [.string, .fixed 4, .fixed 2, .array [.fixed 4, .array [.fixed 4]],
      .array [.string, .string]], .fixed 4] ++ if 1 ≤ version then [.fixed 1] else []
  | deleteTopics => [.strings, .fixed 4]

section Layouts

open Guarded

theorem RequestHeader.guarded : Guarded decode headerLayout :=
  int32.field fun _ => int16.field fun _ => int16.field fun _ => int32.field fun _ => string.map

section

variable (version : Int16)
include version

theorem ProduceRequest.guarded :
    Guarded (decode version) (RequestKind.produce.layout version) := by
  have data : Guarded Data.decode _ := int32.field fun _ => bytes.map
  have topics : Guarded TopicData.decode _ := string.field fun _ => data.array.map
  exact nullableString.when.bind fun _ => int16.field fun _ => int32.field fun _ =>
    topics.array.map

theorem FetchRequest.guarded :
    Guarded (decode version) (RequestKind.fetch.layout version) := by
  have partitions : Guarded FetchPartition.decode _ :=
    int32.field fun _ => int64.field fun _ => int32.map
  have topics : Guarded FetchTopic.decode _ := string.field fun _ => partitions.array.map
  exact int32.field fun _ => int32.field fun _ => int32.field fun _ => int32.when.bind fun _ =>
    int8.when.bind fun _ => topics.array.map

theorem OffsetsRequest.guarded :
    Guarded (decode version) (RequestKind.offsets.layout version) := by
  have partitions : Guarded (OffsetsPartition.decode version) _ :=
    int32.field fun _ => int64.field fun _ => int32.when.map
  have topics : Guarded (OffsetsTopic.decode version) _ :=
    string.field fun _ => partitions.array.map
  exact int32.field fun _ => int8.when.bind fun _ => topics.array.map

theorem MetadataRequest.guarded :
    Guarded (decode version) (RequestKind.metadata.layout version) :=
  stringArray.field fun _ => bool.when.map

theorem LeaderAndISRRequest.guarded :
    Guarded (decode version) (RequestKind.leaderAndISR.layout version) := by
  have states : Guarded PartitionState.decode _ :=
    string.field fun _ => int32.field fun _ => int32.field fun _ => int32.field fun _ =>
      int32.field fun _ => int32Array.field fun _ => int32.field fun _ => int32Array.map
  have leaders : Guarded LiveLeader.decode _ := int32.field fun _ => string.field fun _ => int32.map
  exact int32.field fun _ => int32.field fun _ => states.array.field fun _ => leaders.array.map

theorem StopReplicaRequest.guarded :
    Guarded (decode version) (RequestKind.stopReplica.layout version) := by
  have partitions : Guarded StopReplicaPartition.decode _ := string.field fun _ => int32.map
  exact int32.field fun _ => int32.field fun _ => bool.field fun _ => partitions.array.map

theorem OffsetCommitRequest.guarded :
    Guarded (decode version) (RequestKind.offsetCommit.layout version) := by
  have partitions : Guarded (OffsetCommitPartitionRequest.decode version) _ :=
    int32.field fun _ => int64.field fun _ => int64.when.bind fun _ => nullableString.map
  have topics : Guarded (OffsetCommitTopicRequest.decode version) _ := partitions.lost.map
  exact string.field fun _ => int32.when.bind fun _ => string.when.bind fun _ =>
    int64.when.bind fun _ => topics.lost.map

theorem OffsetFetchRequest.guarded :
    Guarded (decode version) (RequestKind.offsetFetch.layout version) := by
  have topics : Guarded OffsetFetchTopicRequest.decode _ := string.field fun _ => int32Array.map
  exact string.field fun _ => topics.array.map

theorem JoinGroupRequest.guarded :
    Guarded (decode version) (RequestKind.joinGroup.layout version) := by
  have protocols : Guarded GroupProtocol.decode _ := string.field fun _ => bytes.map
  exact string.field fun _ => int32.field fun _ => int32.when.bind fun _ => string.field fun _ =>
    string.field fun _ => protocols.array.map

theorem SyncGroupRequest.guarded :
    Guarded (decode version) (RequestKind.syncGroup.layout version) := by
  have assignments : Guarded GroupAssignment.decode _ := string.field fun _ => bytes.map
  exact string.field fun _ => int32.field fun _ => string.field fun _ => assignments.array.map

theorem CreateTopicRequests.guarded :
    Guarded (decode version) (RequestKind.createTopics.layout version) := by
  have assignment : Guarded CreateTopicRequest.assignment _ := int32.field fun _ => int32.array.map
  have setting : Guarded CreateTopicRequest.setting _ := string.field fun _ => nullableString.map
  have topics : Guarded CreateTopicRequest.decode _ :=
    string.field fun _ => int32.field fun _ => int16.field fun _ =>
      assignment.filled.field fun _ => setting.filled.map
  exact topics.array.field fun _ => int32.field fun _ => attempt_bool.map.when.map

end

/-- Every decoder of the server meets the layout of its request. -/
theorem RequestKind.guarded (kind : RequestKind) (version : Int16) :
    Guarded (kind.decode version) (kind.layout version) := by
  cases kind with
  | produce => exact ProduceRequest.guarded version
  | fetch => exact FetchRequest.guarded version
  | offsets => exact OffsetsRequest.guarded version
  | metadata => exact MetadataRequest.guarded version
  | leaderAndISR => exact LeaderAndISRRequest.guarded version
  | stopReplica => exact StopReplicaRequest.guarded version
  | offsetCommit => exact OffsetCommitRequest.guarded version
  | offsetFetch => exact OffsetFetchRequest.guarded version
  | findCoordinator => exact string.field fun _ => int8.when.map
  | joinGroup => exact JoinGroupRequest.guarded version
  | heartbeat => exact string.field fun _ => int32.field fun _ => string.map
  | leaveGroup => exact string.field fun _ => string.map
  | syncGroup => exact SyncGroupRequest.guarded version
  | describeGroups => exact stringArray.map
  | createTopics => exact CreateTopicRequests.guarded version
  | deleteTopics => exact stringArray.field fun _ => int32.map
  | updateMetadata | controlledShutdown | listGroups | saslHandshake | apiVersions =>
    exact Guarded.pure _

end Layouts

section Inside

variable {α : Type}

/-- A call never leaves the buffer. -/
def StaysInside (dec : Call ByteDecoder α) : Prop :=
  ∀ d : ByteDecoder, d.off ≤ d.b.length → (dec.run d).state.off ≤ (dec.run d).state.b.length

theorem Guarded.staysInside {dec : Call ByteDecoder α} {fs : List Field}
    (guarded : Guarded dec fs) : StaysInside dec := by
  intro d inside
  have ends := guarded d [] inside
  cases ran : dec.run d with
  | ok x d' =>
    rw [ran] at ends
    exact ends.2.1
  | error why d' =>
    rw [ran] at ends
    exact ends.2.1

theorem StaysInside.bind {β : Type} {dec : Call ByteDecoder α} {next : α → Call ByteDecoder β}
    (first : StaysInside dec) (second : ∀ x, StaysInside (next x)) :
    StaysInside (dec >>= next) := by
  intro d inside
  have one := first d inside
  cases ran : dec.run d with
  | ok x d' =>
    rw [ran] at one
    rw [bind_ok ran]
    exact second x d' one
  | error why d' =>
    rw [ran] at one
    rw [bind_error ran]
    exact one

theorem StaysInside.pure (value : α) : StaysInside (Pure.pure value) := fun _ inside => inside

theorem StaysInside.need (n : Int) : StaysInside (need n) := by
  intro d inside
  by_cases short : d.left.length < n
  · rw [need_short inside short]
    exact Nat.le_refl _
  · rw [need_run (rest_left inside) (by omega)]
    exact inside

theorem StaysInside.fixed (width : Nat) : StaysInside (fixed width) := by
  intro d inside
  by_cases enough : width ≤ d.left.length
  · rw [fixed_enough inside enough]
    exact inside_skip inside enough
  · rw [fixed_short inside (by omega)]
    exact inside

theorem StaysInside.times {item : Call ByteDecoder α} (one : StaysInside item) (n : Nat) :
    StaysInside (times item n) := by
  induction n with
  | zero => exact pure []
  | succ n ih => exact one.bind fun x => ih.bind fun xs => pure (x :: xs)

theorem StaysInside.push (f : Frame) : StaysInside (push f) := by
  intro d inside
  unfold ByteDecoder.push
  rw [bind_ok (rfl : _ = Result.ok d.off d)]
  by_cases enough : 4 ≤ d.left.length
  · rw [bind_ok (need_run (rest_left inside) (by omega))]
    exact inside_skip inside enough
  · rw [bind_error (need_short inside (by omega))]
    exact Nat.le_refl _

theorem StaysInside.pop (crc : Bytes → UInt32) : StaysInside (pop crc) := by
  intro d inside
  simp only [ByteDecoder.pop]
  split
  · exact inside
  · split
    · exact inside
    · exact inside

/-- Every operation keeps the offset within the buffer. -/
theorem Get.staysInside (crc : Bytes → UInt32) (get : Get) : StaysInside (get.call crc) := by
  cases get with
  | bool => exact Guarded.bool.map.staysInside
  | int8 => exact Guarded.int8.map.staysInside
  | int16 => exact Guarded.int16.map.staysInside
  | int32 => exact Guarded.int32.map.staysInside
  | int64 => exact Guarded.int64.map.staysInside
  | arrayLength =>
    have number : Guarded (ByteDecoder.arrayLength >>= fun n => Pure.pure (Value.arrayLength n))
        [.array []] := Guarded.counted fun n => by
      rw [flatten_replicate_nil]
      exact Guarded.pure _
    exact number.staysInside
  | bytes => exact Guarded.bytes.map.staysInside
  | string => exact Guarded.string.map.staysInside
  | nullableString => exact Guarded.nullableString.map.staysInside
  | stringArray => exact Guarded.stringArray.map.staysInside
  | int32Array => exact Guarded.int32Array.map.staysInside
  | int64Array =>
    have count : StaysInside count := (StaysInside.need 4).bind fun _ => .fixed 4
    have numbers (n : Nat) : StaysInside
        (ByteDecoder.times (do return ((← fixed 8 : Nat) : Int).bmod (2 ^ 64)) n) :=
      ((StaysInside.fixed 8).bind fun _ => .pure _).times n
    exact (count.bind fun n => (StaysInside.need (8 * n)).bind fun _ => numbers n).bind
      fun _ => .pure _
  | push f => exact (StaysInside.push f).bind fun _ => .pure _
  | pop => exact (StaysInside.pop crc).bind fun _ => .pure _

end Inside

theorem not_cut_nil (b : Bytes) : ¬ Cut [] b := nofun

/-- The header of a request, and the request. -/
def RequestKind.decodeAfterHeader (kind : RequestKind) (version : Int16) :
    Call ByteDecoder (RequestHeader × kind.Body) := do
  let header ← RequestHeader.decode
  let req ← kind.decode version
  return (header, req)

/-- Every operation keeps the offset within the buffer. Decoding any bytes as a request of any kind
returns a value or an error, and does not panic, exactly where the bytes are not cut at a field of
one or two bytes. -/
theorem request_decoding_safe_iff (crc : Bytes → UInt32) (kind : RequestKind) (version : Int16)
    (b : Bytes) :
    (∀ get : Get, StaysInside (get.call crc)) ∧
    ((∃ d', d'.b = b ∧ d'.off ≤ b.length ∧
      ((∃ x, (kind.decodeAfterHeader version).run (newDecoder b) = .ok x d') ∨
        ∃ cause, (kind.decodeAfterHeader version).run (newDecoder b) = .error (.err cause) d')) ↔
      ¬ Cut (headerLayout ++ kind.layout version) b) := by
  refine ⟨Get.staysInside crc, ?_⟩
  have guarded : Guarded (kind.decodeAfterHeader version) (headerLayout ++ kind.layout version) :=
    RequestHeader.guarded.bind fun _ => (kind.guarded version).map
  have ends := guarded (newDecoder b) [] (Nat.zero_le _)
  rw [append_nil, show (newDecoder b).left = b from rfl] at ends
  cases ran : (kind.decodeAfterHeader version).run (newDecoder b) with
  | ok x d' =>
    rw [ran] at ends
    obtain ⟨same, inside, cut⟩ := ends
    rw [same] at inside
    have whole : ¬ Cut (headerLayout ++ kind.layout version) b := by
      rw [cut]
      exact not_cut_nil _
    exact ⟨fun _ => whole, fun _ => ⟨d', same, inside, .inl ⟨x, rfl⟩⟩⟩
  | error why d' =>
    rw [ran] at ends
    obtain ⟨same, inside, ending⟩ := ends
    rw [same] at inside
    rcases ending with ⟨⟨cause, rfl⟩, whole⟩ | ⟨⟨text, rfl⟩, cut⟩
    · exact ⟨fun _ => whole, fun _ => ⟨d', same, inside, .inr ⟨cause, rfl⟩⟩⟩
    · constructor
      · rintro ⟨_, -, -, ⟨_, returned⟩ | ⟨_, failed⟩⟩
        · cases returned
        · cases failed
      · intro whole
        exact absurd cut whole

/-- A frame of one byte: `Int16` looks for the second byte of the key. -/
theorem short_header_panics :
    (((RequestKind.produce).decodeAfterHeader 0).run (newDecoder [0, 0, 0, 1, 0])).stopped =
      some (.panic "index out of range") := by
  decide +kernel

end Jocko.Protocol
