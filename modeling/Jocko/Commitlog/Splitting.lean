import Jocko.Commitlog.LogInvariant
import Mathlib.Algebra.BigOperators.Group.List.Basic

namespace Jocko.Commitlog

open Go List

variable {α β : Type}

/-- What the accessors of a message can end with: a value, or an index that is out of range. -/
def OutOfRange (x : Except Stop α) : Prop := ∀ why, x = .error why → ∃ text, why = .panic text

namespace OutOfRange

theorem ok (value : α) : OutOfRange (.ok value : Except Stop α) := nofun

theorem panic (text : String) : OutOfRange (.error (.panic text) : Except Stop α) := by
  rintro why ⟨⟩
  exact ⟨text, rfl⟩

theorem bind {x : Except Stop α} {next : α → Except Stop β} (first : OutOfRange x)
    (rest : ∀ value, OutOfRange (next value)) : OutOfRange (x >>= next) := by
  cases x with
  | ok value => exact rest value
  | error why =>
    rintro why' ⟨⟩
    exact first why rfl

theorem ite {p : Prop} [Decidable p] {x y : Except Stop α} (yes : OutOfRange x)
    (no : OutOfRange y) : OutOfRange (if p then x else y) := by
  split
  · exact yes
  · exact no

theorem mapM {f : α → Except Stop β} (each : ∀ x, OutOfRange (f x)) (xs : List α) :
    OutOfRange (xs.mapM f) := by
  induction xs with
  | nil => exact ok _
  | cons x xs ih =>
    rw [mapM_cons]
    exact (each x).bind fun _ => ih.bind fun _ => ok _

theorem slice (p : Bytes) (low high : Int) : OutOfRange (slice p low high) :=
  ite (ok _) (panic _)

theorem encodingUint32 (p : Bytes) : OutOfRange (encodingUint32 p) :=
  ite (panic _) (ok _)

theorem magicByte (m : Bytes) : OutOfRange (Message.magicByte m) := by
  unfold Message.magicByte
  split
  · exact ok _
  · exact panic _

theorem keyOffsets (m : Bytes) : OutOfRange (Message.keyOffsets m) :=
  (magicByte m).bind fun _ => (slice _ _ _).bind fun _ => (encodingUint32 _).bind fun _ => ok _

theorem valueOffsets (m : Bytes) : OutOfRange (Message.valueOffsets m) :=
  (keyOffsets m).bind fun _ => (slice _ _ _).bind fun _ => (encodingUint32 _).bind fun _ => ok _

theorem size (m : Bytes) : OutOfRange (Message.size m) :=
  (magicByte m).bind fun _ => (keyOffsets m).bind fun _ => (valueOffsets m).bind fun _ => ok _

end OutOfRange

section Append

variable {m : Bytes}

theorem returned_of_bind {x : Except Stop α} {next : α → Except Stop β} {value : β}
    (ran : x >>= next = .ok value) : ∃ first, x = .ok first ∧ next first = .ok value := by
  cases x with
  | ok first => exact ⟨first, rfl, ran⟩
  | error why => cases ran

theorem Message.magicByte_append {magic : Int} (reads : Message.magicByte m = .ok magic)
    (rest : Bytes) : Message.magicByte (m ++ rest) = .ok magic := by
  unfold Message.magicByte at reads ⊢
  split at reads
  · rename_i byte found
    have inside : 4 < m.length := (List.getElem?_eq_some_iff.mp found).1
    rw [List.getElem?_append_left inside, found]
    exact reads
  · cases reads

/-- A length field inside of `m` is read there, whatever follows. -/
theorem field_append {start : Int} {n : Nat}
    (reads : (slice m start m.length >>= encodingUint32) = .ok n) (rest : Bytes) :
    (slice (m ++ rest) start (m ++ rest).length >>= encodingUint32) = .ok n := by
  obtain ⟨p, sliced, number⟩ := returned_of_bind reads
  unfold slice at sliced
  split at sliced
  · rename_i inside
    have inside' : 0 ≤ start ∧ start ≤ ((m ++ rest).length : Int) ∧
        ((m ++ rest).length : Int) ≤ (m ++ rest).length := by
      rw [length_append]
      omega
    cases sliced
    rw [Int.toNat_natCast, take_length] at number
    have longer : (m ++ rest).drop start.toNat = m.drop start.toNat ++ rest :=
      drop_append_of_le_length (by omega)
    rw [slice, if_pos inside', Int.toNat_natCast, take_length, longer]
    unfold encodingUint32 at number
    split at number
    · cases number
    · rename_i enough
      cases number
      have long : ¬ (m.drop start.toNat ++ rest).length < 4 := by
        rw [length_append]
        omega
      simp only [bind, Except.bind, encodingUint32, if_neg long]
      rw [take_append_of_le_length (by omega)]
  · cases sliced

/-- What is computed from a length field inside of `m` does not depend on what follows. -/
theorem read_append {start : Int} {next : Nat → Except Stop α} {value : α}
    (ran : (slice m start m.length >>= fun p => encodingUint32 p >>= next) = .ok value)
    (rest : Bytes) :
    (slice (m ++ rest) start (m ++ rest).length >>= fun p => encodingUint32 p >>= next) =
      .ok value := by
  rw [← bind_assoc] at ran ⊢
  obtain ⟨n, field, done⟩ := returned_of_bind ran
  rw [field_append field rest]
  exact done

theorem Message.keyOffsets_append {offsets : Int × Int × Int}
    (reads : Message.keyOffsets m = .ok offsets) (rest : Bytes) :
    Message.keyOffsets (m ++ rest) = .ok offsets := by
  obtain ⟨magic, version, behind⟩ := returned_of_bind reads
  unfold Message.keyOffsets
  rw [Message.magicByte_append version rest]
  exact read_append behind rest

theorem Message.valueOffsets_append {offsets : Int × Int × Int}
    (reads : Message.valueOffsets m = .ok offsets) (rest : Bytes) :
    Message.valueOffsets (m ++ rest) = .ok offsets := by
  obtain ⟨key, keyed, behind⟩ := returned_of_bind reads
  unfold Message.valueOffsets
  rw [Message.keyOffsets_append keyed rest]
  exact read_append behind rest

/-- The size of a message is read from the message alone. -/
theorem Message.size_append {n : Int} (reads : Message.size m = .ok n) (rest : Bytes) :
    Message.size (m ++ rest) = .ok n := by
  obtain ⟨magic, version, keyed⟩ := returned_of_bind reads
  obtain ⟨key, atKey, valued⟩ := returned_of_bind keyed
  obtain ⟨value, atValue, total⟩ := returned_of_bind valued
  unfold Message.size
  rw [Message.magicByte_append version rest]
  simp only [bind, Except.bind, Message.keyOffsets_append atKey rest,
    Message.valueOffsets_append atValue rest]
  exact total

theorem Message.five_le_length {n : Int} (reads : Message.size m = .ok n) : 5 ≤ m.length := by
  obtain ⟨magic, version, -⟩ := returned_of_bind reads
  unfold Message.magicByte at version
  split at version
  · rename_i byte found
    exact (List.getElem?_eq_some_iff.mp found).1
  · cases version

end Append

/-- `NewMessageSet`; the sizes are added up in 32 bits. -/
def newMessageSet (offset : UInt64) (msgs : List Bytes) : Bytes :=
  let n := msgs.foldl (fun n m => n + UInt32.ofNat m.length) (0 : UInt32)
  putUint 8 offset.toNat ++ putUint 4 n.toNat ++ msgs.flatten

namespace MessageSet

variable {total offset : Int} {m rest b : Bytes}

theorem messagesFrom_round (more : offset < total)
    (size : Message.size (m ++ rest) = .ok m.length) (fuel : Nat) :
    messagesFrom total (fuel + 1) offset (m ++ rest) = (do
      let msgs ← messagesFrom total fuel (int32 (m.length + m.length)) rest
      return m :: msgs) := by
  have front : slice (m ++ rest) 0 m.length = .ok m := by
    have inside : 0 ≤ (0 : Int) ∧ (0 : Int) ≤ m.length ∧
        (m.length : Int) ≤ (m ++ rest).length := by
      rw [length_append]
      omega
    rw [slice, if_pos inside, Int.toNat_natCast, take_left]
    rfl
  have behind : slice (m ++ rest) m.length (m ++ rest).length = .ok rest := by
    have inside : 0 ≤ (m.length : Int) ∧ (m.length : Int) ≤ (m ++ rest).length ∧
        ((m ++ rest).length : Int) ≤ (m ++ rest).length := by
      rw [length_append]
      omega
    rw [slice, if_pos inside, Int.toNat_natCast, Int.toNat_natCast, take_length,
      drop_left]
  rw [messagesFrom, if_pos more]
  simp only [size, front, behind, bind, Except.bind]

theorem messagesFrom_end (ended : total ≤ offset) (fuel : Nat) :
    messagesFrom total (fuel + 1) offset b = .ok [] := by
  rw [messagesFrom, if_neg (by omega)]
  rfl

theorem messagesFrom_nil (more : offset < total) (fuel : Nat) :
    messagesFrom total (fuel + 1) offset [] = .error (.panic "index out of range") := by
  rw [messagesFrom, if_pos more]
  rfl

/-- The loop returns the messages exactly if it goes on behind every one but the last. -/
theorem messagesFrom_eq_iff {msgs : List Bytes}
    (formed : ∀ m ∈ msgs, Message.size m = .ok m.length) {fuel : Nat}
    (enough : msgs.length < fuel) :
    messagesFrom total fuel offset msgs.flatten = .ok msgs ↔
      match msgs with
      | [] => total ≤ offset
      | _ :: _ => offset < total ∧
          (∀ m ∈ msgs.dropLast, int32 (m.length + m.length) < total) ∧
          ∀ m ∈ msgs.getLast?, total ≤ int32 (m.length + m.length) := by
  induction msgs generalizing offset fuel with
  | nil =>
    obtain ⟨fuel, rfl⟩ : ∃ n, fuel = n + 1 := ⟨fuel - 1, by omega⟩
    by_cases more : offset < total
    · rw [flatten_nil, messagesFrom_nil more]
      exact iff_of_false nofun (by simp only; omega)
    · rw [messagesFrom_end (by omega)]
      exact iff_of_true rfl (by simp only; omega)
  | cons m msgs ih =>
    obtain ⟨fuel, rfl⟩ : ∃ n, fuel = n + 1 := ⟨fuel - 1, by omega⟩
    by_cases more : offset < total
    · have size := Message.size_append (formed m (mem_cons_self ..)) msgs.flatten
      rw [flatten_cons, messagesFrom_round more size]
      have later := @ih (int32 (m.length + m.length))
        (fun m inside => formed m (mem_cons_of_mem _ inside)) fuel (by simpa using enough)
      have same : (do
          let found ← messagesFrom total fuel (int32 (m.length + m.length)) msgs.flatten
          return m :: found : Except Stop (List Bytes)) = .ok (m :: msgs) ↔
          messagesFrom total fuel (int32 (m.length + m.length)) msgs.flatten = .ok msgs := by
        cases messagesFrom total fuel (int32 (m.length + m.length)) msgs.flatten with
        | ok found => simp [bind, Except.bind, pure, Except.pure]
        | error why => exact iff_of_false nofun nofun
      rw [same, later]
      cases msgs with
      | nil => simp [more]
      | cons m' msgs => simp [more, and_assoc]
    · rw [messagesFrom_end (by omega)]
      exact iff_of_false nofun fun ⟨less, _⟩ => more less

theorem toNat_foldl_length (msgs : List Bytes) (n : UInt32) :
    (msgs.foldl (fun n m => n + UInt32.ofNat m.length) n).toNat =
      (n.toNat + msgs.flatten.length) % 2 ^ 32 := by
  induction msgs generalizing n with
  | nil => simp [Nat.mod_eq_of_lt n.toNat_lt]
  | cons m msgs ih =>
    rw [foldl_cons, ih, UInt32.toNat_add, UInt32.toNat_ofNat', flatten_cons,
      length_append]
    omega

section Fields

variable (offset : UInt64) (msgs : List Bytes)

theorem length_newMessageSet : (newMessageSet offset msgs).length = 12 + msgs.flatten.length := by
  simp only [newMessageSet, length_append, length_putUint]

theorem payload_newMessageSet : payload (newMessageSet offset msgs) = .ok msgs.flatten := by
  have inside : 0 ≤ ((msgSetHeaderLen : Nat) : Int) ∧
      ((msgSetHeaderLen : Nat) : Int) ≤ (newMessageSet offset msgs).length ∧
      ((newMessageSet offset msgs).length : Int) ≤ (newMessageSet offset msgs).length := by
    rw [length_newMessageSet, msgSetHeaderLen]
    omega
  rw [payload, slice, if_pos inside, Int.toNat_natCast, Int.toNat_natCast, take_length,
    newMessageSet, drop_left' (by simp [msgSetHeaderLen])]

theorem offset_newMessageSet :
    MessageSet.offset (newMessageSet offset msgs) = .ok ((offset.toNat : Int).bmod (2 ^ 64)) := by
  have inside : 0 ≤ (0 : Int) ∧ (0 : Int) ≤ 8 ∧ (8 : Int) ≤ (newMessageSet offset msgs).length := by
    rw [length_newMessageSet]
    omega
  have front : (newMessageSet offset msgs).take 8 = putUint 8 offset.toNat := by
    rw [newMessageSet, append_assoc, take_left' (by simp)]
  have number : getUint (putUint 8 offset.toNat) = offset.toNat := by
    rw [getUint_putUint]
    exact Nat.mod_eq_of_lt offset.toNat_lt
  simp only [MessageSet.offset, slice, if_pos inside, bind, Except.bind, pure, Except.pure]
  rw [show (8 : Int).toNat = 8 from rfl, front]
  exact congrArg (fun n : Nat => Except.ok ((n : Int).bmod (2 ^ 64))) number

theorem size_newMessageSet :
    size (newMessageSet offset msgs) = .ok (int32 (12 + msgs.flatten.length : Nat)) := by
  have inside : 0 ≤ (8 : Int) ∧ (8 : Int) ≤ 12 ∧
      (12 : Int) ≤ (newMessageSet offset msgs).length := by
    rw [length_newMessageSet]
    omega
  have sum := toNat_foldl_length msgs 0
  generalize total : msgs.foldl (fun n m => n + UInt32.ofNat m.length) (0 : UInt32) = n at sum
  rw [UInt32.toNat_zero, Nat.zero_add] at sum
  have field : ((newMessageSet offset msgs).take 12).drop 8 = putUint 4 n.toNat := by
    rw [newMessageSet, total, take_left' (by simp), drop_left' (by simp)]
  have number : getUint (putUint 4 n.toNat) = n.toNat := by
    rw [getUint_putUint]
    exact Nat.mod_eq_of_lt n.toNat_lt
  have wrapped : int32 ((n.toNat + msgSetHeaderLen : Nat) : Int) =
      int32 (12 + msgs.flatten.length : Nat) := by
    rw [sum, msgSetHeaderLen]
    simp only [int32, Int.bmod]
    omega
  simp only [size, slice, if_pos inside, bind, Except.bind, pure, Except.pure]
  rw [show (12 : Int).toNat = 12 from rfl, show (8 : Int).toNat = 8 from rfl, field, number, wrapped]

end Fields

/-- The set yields back what it was made of. -/
def YieldsBack (offset : UInt64) (msgs : List Bytes) : Prop :=
  messages (newMessageSet offset msgs) = .ok msgs ∧
    MessageSet.offset (newMessageSet offset msgs) = .ok offset.toNat ∧
    size (newMessageSet offset msgs) = .ok (newMessageSet offset msgs).length

/-- When a set yields back its messages: every message but the last is shorter than half of them
all, and the last one is not, with doubled sizes taken in 32 bits. -/
theorem yieldsBack_iff (offset : UInt64) {msgs : List Bytes}
    (formed : ∀ m ∈ msgs, Message.size m = .ok m.length) (small : msgs.flatten.length < 2 ^ 31) :
    YieldsBack offset msgs ↔ offset.toNat < 2 ^ 63 ∧ 12 + msgs.flatten.length < 2 ^ 31 ∧
      (∀ m ∈ msgs.dropLast, int32 (m.length + m.length) < msgs.flatten.length) ∧
      ∀ m ∈ msgs.getLast?, msgs.flatten.length ≤ int32 (m.length + m.length) := by
  have width : int32 msgs.flatten.length = msgs.flatten.length :=
    int32_of_lt (by omega) (by omega)
  have few : msgs.length ≤ msgs.flatten.length := by
    rw [length_flatten]
    have each := length_le_sum_of_one_le (msgs.map length) fun n inside => by
      obtain ⟨m, member, rfl⟩ := mem_map.mp inside
      exact Nat.one_le_of_lt (Message.five_le_length (formed m member))
    rwa [length_map] at each
  have split : messages (newMessageSet offset msgs) =
      messagesFrom msgs.flatten.length (msgs.flatten.length + 2) 0 msgs.flatten := by
    simp only [messages, payload_newMessageSet, bind, Except.bind, width]
  have messages : messages (newMessageSet offset msgs) = .ok msgs ↔
      (∀ m ∈ msgs.dropLast, int32 (m.length + m.length) < msgs.flatten.length) ∧
      ∀ m ∈ msgs.getLast?, msgs.flatten.length ≤ int32 (m.length + m.length) := by
    rw [split, messagesFrom_eq_iff formed (by omega)]
    cases msgs with
    | nil => simp
    | cons m msgs =>
      have positive : (0 : Int) < (m :: msgs).flatten.length := by
        rw [length_cons] at few
        omega
      simp only [positive, true_and]
  have signed : (offset.toNat : Int).bmod (2 ^ 64) = offset.toNat ↔ offset.toNat < 2 ^ 63 := by
    have bound : offset.toNat < 2 ^ 64 := offset.toNat_lt
    simp only [Int.bmod]
    omega
  have sized : int32 (12 + msgs.flatten.length : Nat) = (12 + msgs.flatten.length : Nat) ↔
      12 + msgs.flatten.length < 2 ^ 31 := by
    simp only [int32, Int.bmod]
    omega
  rw [YieldsBack, messages, offset_newMessageSet, size_newMessageSet, length_newMessageSet,
    Except.ok.injEq, Except.ok.injEq, signed, sized]
  constructor
  · rintro ⟨split, bound, size⟩
    exact ⟨bound, size, split⟩
  · rintro ⟨bound, size, split⟩
    exact ⟨split, bound, size⟩

/-- A message of 14 bytes, and behind it one of 15. -/
theorem yieldsBack_growing :
    YieldsBack 7 [List.replicate 14 0, List.replicate 13 0 ++ [1, 118]] :=
  (yieldsBack_iff 7 (by decide) (by decide)).mpr (by decide)

/-- Of two messages of the same size, the second is lost. -/
theorem messages_same_size :
    let m : Bytes := replicate 14 0
    Message.size m = .ok m.length ∧ messages (newMessageSet 7 [m, m]) = .ok [m] := by
  decide

/-- Messages that keep the loop going, and behind them bytes whose size is 0. -/
inductive Stalls (total : Int) : Bytes → Prop where
  | here {b : Bytes} (empty : Message.size b = .ok 0) : Stalls total b
  | behind {m rest : Bytes} (some : 0 < m.length)
      (size : Message.size (m ++ rest) = .ok m.length)
      (more : int32 (m.length + m.length) < total) (stalls : Stalls total rest) :
      Stalls total (m ++ rest)

/-- A round that takes nothing is repeated. -/
theorem messagesFrom_stuck (positive : 0 < total) (more : offset < total)
    (empty : Message.size b = .ok 0) (fuel : Nat) :
    messagesFrom total fuel offset b = .error .diverge := by
  induction fuel generalizing offset with
  | zero => rfl
  | succ fuel ih =>
    have round := @messagesFrom_round total offset [] b more empty fuel
    rw [nil_append] at round
    rw [round]
    change (messagesFrom total fuel 0 b >>= _) = _
    rw [ih positive]
    rfl

theorem Stalls.messagesFrom (positive : 0 < total) (stalls : Stalls total b)
    (more : offset < total) (fuel : Nat) : messagesFrom total fuel offset b = .error .diverge := by
  induction stalls generalizing offset fuel with
  | here empty => exact messagesFrom_stuck positive more empty fuel
  | behind some size again stalls ih =>
    cases fuel with
    | zero => rfl
    | succ fuel =>
      rw [messagesFrom_round more size, ih again]
      rfl

/-- A loop that outlasts the bytes has met a message of size 0. -/
theorem stalls_of_diverge {fuel : Nat} (enough : b.length < fuel)
    (forever : messagesFrom total fuel offset b = .error .diverge) :
    offset < total ∧ Stalls total b := by
  induction fuel generalizing offset b with
  | zero => omega
  | succ fuel ih =>
    have more : offset < total := by
      by_contra ended
      rw [messagesFrom_end (by omega)] at forever
      cases forever
    refine ⟨more, ?_⟩
    rw [MessageSet.messagesFrom, if_pos more] at forever
    cases sized : Message.size b with
    | error why =>
      rw [sized] at forever
      obtain ⟨text, rfl⟩ := OutOfRange.size b why sized
      cases forever
    | ok n =>
      by_cases inside : 0 ≤ n ∧ n ≤ b.length
      · obtain ⟨m, rest, rfl, rfl⟩ : ∃ m rest, b = m ++ rest ∧ n = ((m.length : Nat) : Int) := by
          refine ⟨b.take n.toNat, b.drop n.toNat, (take_append_drop ..).symm, ?_⟩
          rw [length_take]
          omega
        by_cases empty : m.length = 0
        · rw [empty] at sized
          exact .here sized
        · have goes := messagesFrom_round more sized fuel
          rw [MessageSet.messagesFrom, if_pos more, forever] at goes
          have later : MessageSet.messagesFrom total fuel (int32 (m.length + m.length)) rest =
              .error .diverge := by
            cases rounds : MessageSet.messagesFrom total fuel (int32 (m.length + m.length)) rest with
            | ok msgs =>
              rw [rounds] at goes
              cases goes
            | error why =>
              rw [rounds] at goes
              cases goes
              rfl
          rw [length_append] at enough
          obtain ⟨again, stalls⟩ := ih (by omega) later
          exact .behind (by omega) sized again stalls
      · have outside : slice b 0 n = .error (.panic "slice bounds out of range") := by
          rw [slice, if_neg (by omega)]
        rw [sized] at forever
        simp only [bind, Except.bind, outside] at forever
        cases forever

/-- The bytes of a set on which `Messages` does not end. -/
def Endless (ms : Bytes) : Prop :=
  msgSetHeaderLen ≤ ms.length ∧ 0 < int32 (ms.drop msgSetHeaderLen).length ∧
    Stalls (int32 (ms.drop msgSetHeaderLen).length) (ms.drop msgSetHeaderLen)

/-- `Messages` ends unless it comes to a message of size 0. -/
theorem messages_diverges_iff (ms : Bytes) : messages ms = .error .diverge ↔ Endless ms := by
  unfold Endless
  by_cases header : msgSetHeaderLen ≤ ms.length
  · have inside : 0 ≤ ((msgSetHeaderLen : Nat) : Int) ∧
        ((msgSetHeaderLen : Nat) : Int) ≤ ms.length ∧ (ms.length : Int) ≤ ms.length := by omega
    have behind : payload ms = .ok (ms.drop msgSetHeaderLen) := by
      rw [payload, slice, if_pos inside, Int.toNat_natCast, Int.toNat_natCast, take_length]
    simp only [messages, behind, bind, Except.bind, header, true_and]
    constructor
    · exact stalls_of_diverge (by omega)
    · rintro ⟨positive, stalls⟩
      exact stalls.messagesFrom positive positive _
  · have outside : payload ms = .error (.panic "slice bounds out of range") := by
      rw [payload, slice, if_neg (by omega)]
    simp only [messages, outside, bind, Except.bind]
    refine iff_of_false (fun other => by cases other) ?_
    rintro ⟨long, -⟩
    exact header long

end MessageSet

namespace CompactCleaner

variable {hash : Bytes → UInt64} {w w' : World} {sets : List Bytes}

/-- The keys of a set are found unless it cannot be split. -/
theorem hashes_diverges_iff (hash : Bytes → UInt64) (ms : Bytes) :
    hashes hash ms = .error .diverge ↔ MessageSet.Endless ms := by
  rw [← MessageSet.messages_diverges_iff]
  cases split : MessageSet.messages ms with
  | error why =>
    simp only [hashes, split, bind, Except.bind, Except.error.injEq]
  | ok msgs =>
    have keys (m : Bytes) : OutOfRange (Message.key m) :=
      (OutOfRange.keyOffsets m).bind fun _ =>
        .ite (.ok _) ((OutOfRange.slice _ _ _).bind fun _ => .ok _)
    have all : OutOfRange (hashes hash ms) := by
      unfold hashes
      rw [split]
      exact OutOfRange.mapM (fun m => (keys m).bind fun _ => .ok _) msgs
    refine iff_of_false (fun forever => ?_) nofun
    obtain ⟨text, other⟩ := all _ forever
    cases other

/-- The sets of the segments, as the first pass of `Clean` scans them. -/
def scanned : List Nat → Call World (List Bytes)
  | [] => return []
  | r :: segments => do
    let sets ← scanAll r (fun sets ms => return sets ++ [ms]) (← rounds r) newIndexScanner []
    return sets ++ (← scanned segments)

/-- What the first pass does with a set. -/
def note (hash : Bytes → UInt64) (m : KeyMap) (ms : Bytes) : Except Stop KeyMap := do
  let offset ← MessageSet.offset ms
  let keys ← hashes hash ms
  return keys.foldl (fun m h => insert m h offset) m

/-- A set that cannot be split stands before the first one with an index out of range. -/
def Stuck (hash : Bytes → UInt64) : List Bytes → Prop
  | [] => False
  | ms :: sets => MessageSet.Endless ms ∨ (∃ keys, hashes hash ms = .ok keys) ∧ Stuck hash sets

theorem foldlM_note_diverges_iff (m : KeyMap) :
    sets.foldlM (note hash) m = .error .diverge ↔ Stuck hash sets := by
  induction sets generalizing m with
  | nil => exact iff_of_false nofun id
  | cons ms sets ih =>
    have split := hashes_diverges_iff hash ms
    have read : OutOfRange (MessageSet.offset ms) := (OutOfRange.slice _ _ _).bind fun _ => .ok _
    simp only [foldlM_cons, note, Stuck, ← split, bind, Except.bind]
    cases offset : MessageSet.offset ms with
    | error why =>
      obtain ⟨text, rfl⟩ := read why offset
      have short : ¬ msgSetHeaderLen ≤ ms.length := by
        intro header
        have inside : (0 : Int) ≤ 0 ∧ (0 : Int) ≤ 8 ∧ (8 : Int) ≤ ms.length := by
          simp only [msgSetHeaderLen] at header
          omega
        rw [MessageSet.offset, slice, if_pos inside] at offset
        cases offset
      have payload : hashes hash ms = .error (.panic "slice bounds out of range") := by
        simp only [hashes, MessageSet.messages, MessageSet.payload, slice, bind, Except.bind]
        rw [if_neg (by omega)]
      simp [payload]
    | ok offset => cases hashes hash ms <;> simp [pure, Except.pure, ih]

/-- A call ends as code without a state does, at `w'` if it returns. -/
def Ends (r : Result World α) (w' : World) : Except Stop α → Prop
  | .ok value => r = .ok value w'
  | .error why => r.stopped = some why

theorem Ends.bind {call : Call World α} {next : α → Call World β} {code : Except Stop α}
    {rest : α → Except Stop β} {w₁ : World} (first : Ends (call.run w) w₁ code)
    (second : ∀ value, Ends ((next value).run w₁) w' (rest value)) :
    Ends ((call >>= next).run w) w' (code >>= rest) := by
  cases code with
  | ok value =>
    rw [bind_ok first]
    exact second value
  | error why =>
    cases ran : call.run w with
    | ok value w₂ =>
      rw [ran] at first
      cases first
    | error why' w₂ =>
      rw [ran] at first
      rw [bind_error ran]
      exact first

/-- A scan that only collects the sets says what every other one does with them. -/
theorem scanAll_ends {r fuel : Nat} {is : IndexScanner} {before : List Bytes}
    (scans : (scanAll r (fun sets ms => return sets ++ [ms]) fuel is before).run w = .ok sets w') :
    ∃ new, sets = before ++ new ∧ ∀ (f : α → Bytes → Except Stop α) acc,
      Ends ((scanAll r (fun acc ms => lift (f acc ms)) fuel is acc).run w) w' (new.foldlM f acc) := by
  induction fuel generalizing is before w with
  | zero => cases scans
  | succ fuel ih =>
    obtain ⟨found, w₁, scan, rest⟩ := bind_eq_ok scans
    cases found with
    | error cause =>
      cases rest
      exact ⟨[], (append_nil _).symm, fun f acc => bind_ok scan⟩
    | ok found =>
      obtain ⟨new, rfl, ends⟩ := ih rest
      refine ⟨found.1 :: new, append_assoc .., fun f acc => ?_⟩
      have one : Ends ((lift (f acc found.1) : Call World α).run w₁) w₁ (f acc found.1) := by
        cases f acc found.1 <;> rfl
      unfold scanAll
      rw [foldlM_cons, bind_ok scan]
      exact one.bind (ends f)

theorem buildMap_ends {segments : List Nat} (scans : (scanned segments).run w = .ok sets w')
    (m : KeyMap) : Ends ((buildMap hash segments m).run w) w' (sets.foldlM (note hash) m) := by
  induction segments generalizing w sets m with
  | nil =>
    cases scans
    rfl
  | cons r segments ih =>
    obtain ⟨fuel, w₁, counted, rest⟩ := bind_eq_ok scans
    obtain ⟨first, w₂, ran, rest⟩ := bind_eq_ok rest
    obtain ⟨later, w₃, others, rest⟩ := bind_eq_ok rest
    cases rest
    obtain ⟨_, rfl, ends⟩ := scanAll_ends ran
    have body : (fun m ms => do
        let offset ← lift (MessageSet.offset ms)
        let keys ← lift (hashes hash ms)
        return keys.foldl (fun m h => insert m h offset) m : KeyMap → Bytes → Call World KeyMap) =
          fun m ms => lift (note hash m ms) := by
      funext m ms
      unfold note
      cases MessageSet.offset ms with
      | error why => rfl
      | ok offset => cases hashes hash ms <;> rfl
    unfold buildMap
    rw [body, foldlM_append, bind_ok counted]
    exact (ends (note hash) m).bind (ih others)

theorem Ends.diverges_iff {r : Result World α} {code : Except Stop α} (ends : Ends r w' code) :
    r.stopped = some .diverge ↔ code = .error .diverge := by
  cases code with
  | ok value =>
    rw [show r = _ from ends]
    exact iff_of_false nofun nofun
  | error why =>
    rw [show r.stopped = _ from ends, Option.some.injEq, Except.error.injEq]

theorem buildMap_diverges_iff {segments : List Nat}
    (scans : (scanned segments).run w = .ok sets w') (m : KeyMap) :
    ((buildMap hash segments m).run w).stopped = some .diverge ↔ Stuck hash sets :=
  (buildMap_ends scans m).diverges_iff.trans (foldlM_note_diverges_iff m)

theorem clean_diverges {segments : List Nat} (scans : (scanned segments).run w = .ok sets w')
    (m : KeyMap) (stuck : Stuck hash sets) :
    ((clean hash m segments).run w).stopped = some .diverge := by
  have some : segments ≠ [] := by
    rintro rfl
    cases scans
    exact stuck
  have stopped := (buildMap_diverges_iff scans m).mpr stuck
  cases built : (buildMap hash segments m).run w with
  | ok m' w₁ =>
    rw [built] at stopped
    cases stopped
  | error why w₁ =>
    rw [clean, if_neg some, bind_error built]
    rwa [built] at stopped

end CompactCleaner

end Jocko.Commitlog
