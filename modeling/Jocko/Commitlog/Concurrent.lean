import Jocko.Commitlog.AppendSteps
import Jocko.Commitlog.LogInvariant

namespace Jocko.Commitlog

open Go World List

/-- How far a call of `Append` has come. It takes no lock over its steps, and looks up the
active segment anew in each of them. -/
inductive Stage where
  | begun
  | checked (full : Bool)
  | rolled
  | placed (position : Int)
  | reserved (position offset : Int)
  | stamped (position offset : Int) (ms : Bytes)
  | written (position offset : Int)
  | returned (offset : Int)

namespace Stage

section

variable (hash : Bytes → UInt64) (b : Bytes)

/-- The next step of a call. -/
def next : Stage → Call World Stage
  | .begun => do return .checked (← checkSplit)
  | .checked full => do
    if full then
      split hash
      return .rolled
    else return .rolled
  | .rolled => do return .placed (← activeSegment).position
  | .placed position => do return .reserved position (← activeSegment).nextOffset
  | .reserved position offset => do
    return .stamped position offset (← lift (MessageSet.putOffset b offset))
  | .stamped position offset ms => do
    let _ ← Segment.write (← getLog).active ms
    return .written position offset
  | .written position offset => do
    enter position offset
    return .returned offset
  | .returned offset => return .returned offset

/-- What is left of a call. -/
def rest : Stage → Call World Int
  | .begun => append hash b
  | .checked full => if full then do split hash; appendActive b else appendActive b
  | .rolled => appendActive b
  | .placed position => do
    let offset := (← activeSegment).nextOffset
    let ms ← lift (MessageSet.putOffset b offset)
    let _ ← Segment.write (← getLog).active ms
    enter position offset
    return offset
  | .reserved position offset => do
    let ms ← lift (MessageSet.putOffset b offset)
    let _ ← Segment.write (← getLog).active ms
    enter position offset
    return offset
  | .stamped position offset ms => do
    let _ ← Segment.write (← getLog).active ms
    enter position offset
    return offset
  | .written position offset => do
    enter position offset
    return offset
  | .returned offset => return offset

/-- Undisturbed, the steps of a call are those of `Append`. -/
theorem rest_next (stage : Stage) (w : World) :
    (stage.rest hash b).run w = (do (← stage.next hash b).rest hash b : Call World Int).run w := by
  cases stage with
  | checked full => cases full <;> simp [rest, next]
  | rolled =>
    simp only [rest, next, bind_assoc, pure_bind, appendActive_steps, reserve, store]
    -- The segment is looked up once here and twice there.
    cases object : w.segs[w.log.active]? with
    | none =>
      have gone := activeSegment_none object
      rw [bind_error gone, bind_error gone]
    | some s =>
      have found := activeSegment_run object
      rw [bind_ok found, bind_ok found, bind_ok found]
  | begun => simp only [rest, next, bind_assoc, pure_bind, append]
  | placed position => simp only [rest, next, bind_assoc, pure_bind]
  | reserved position offset => simp only [rest, next, bind_assoc, pure_bind]
  | stamped position offset ms => simp only [rest, next, bind_assoc, pure_bind]
  | written position offset => simp only [rest, next, bind_assoc, pure_bind]
  | returned offset => simp only [rest, next, pure_bind]

end

/-- The call is between its write and its index entry. -/
def writing : Stage → Bool
  | .written _ _ => true
  | _ => false

/-- The offset that the caller was given. -/
def given? : Stage → Option Int
  | .returned offset => some offset
  | _ => none

end Stage

/-- A log and the calls of `Append` on it, each with its bytes. -/
structure Appending where
  world : World
  calls : List (Bytes × Stage)

namespace Appending

/-- All the calls are about to begin. -/
def start (w : World) (bs : List Bytes) : Appending := ⟨w, bs.map fun b => (b, .begun)⟩

/-- No call is between its write and its index entry. -/
def quiet (s : Appending) : Bool := s.calls.all fun call => !call.2.writing

/-- The offsets that were returned. -/
def offsets (s : Appending) : List Int := s.calls.filterMap fun call => call.2.given?

section

variable (hash : Bytes → UInt64)

/-- A step of the `i`-th call. There is none if the call has returned, or fails. -/
def step (i : Nat) (s : Appending) : Option Appending := do
  let (b, stage) ← s.calls[i]?
  if stage.given?.isSome then none
  else
    match (stage.next hash b).run s.world with
    | .ok stage world => some ⟨world, s.calls.set i (b, stage)⟩
    | .error _ _ => none

def run (s : Appending) : List Nat → Option Appending
  | [] => some s
  | i :: schedule => do run (← s.step hash i) schedule

/-- A call writes to the segment as it has found it, and a segment is split that is full; both
while no record lacks its index entry. -/
def clear (i : Nat) (s : Appending) : Bool :=
  match s.calls[i]? with
  | some (_, .checked true) => s.quiet && (s.world.segs[s.world.log.active]?).any fun (t : Segment) =>
    t.isFull && decide (0 < t.position) && match s.world.log.cleaner with
      | .delete _ => true
      | .compact _ => false
  | some (_, .stamped position offset _) =>
    s.quiet && (s.world.segs[s.world.log.active]?).any fun t =>
      decide (t.position = position ∧ t.nextOffset = offset ∧ position < 2147483648)
  | _ => true

/-- Every step of a schedule finds the way clear. -/
def clearAll (s : Appending) : List Nat → Bool
  | [] => true
  | i :: schedule => s.clear i && (s.step hash i).all fun s => clearAll s schedule

end

/-- Everything that was returned is stored: the offsets are those from 0 on, and the record
behind each of them, as far as it was not deleted, is the caller's, with its index entry. -/
structure Collected (s : Appending) : Prop where
  stored : ∃ rs segs, LogInvariant rs s.world segs ∧
    s.offsets.Perm ((List.range rs.length).map fun k : Nat => (k : Int)) ∧
    ∀ b offset, (b, Stage.returned offset) ∈ s.calls →
      ∃ k : Nat, offset = k ∧ rs[k]? = some (MessageSet.stamp k b)

end Appending

/-- The log has the records `rs` and no others, as far as they were not deleted. -/
structure Stored (opts : Options) (rs : List Bytes) (w : World) : Prop where
  log : ∃ older active, LogRep opts (newCleaner opts) none older active w ∧
    (ledger none older active).Linked ∧ (ledger none older active).Records rs ∧
    ∀ c ∈ (ledger none older active).chunks, ∀ j, j < c.recs.length → c.start j < 2147483648

variable {b : Bytes} {offset : Int}

namespace Stored

variable {opts : Options} {rs : List Bytes} {w : World}

theorem invariant (stored : Stored opts rs w) : ∃ segs, LogInvariant rs w segs := by
  obtain ⟨older, active, rep, linked, records, low⟩ := stored.log
  exact rep.invariant linked records low

/-- `split` by the delete cleaner: an empty segment follows one that is not. -/
theorem split (stored : Stored opts rs w) (hash : Bytes → UInt64) {t : Segment} {retention : Int}
    (object : w.segs[w.log.active]? = some t) (filled : 0 < t.position)
    (policy : w.log.cleaner = .delete retention) :
    ∃ w' t', (Commitlog.split hash).run w = .ok () w' ∧ w'.segs[w'.log.active]? = some t' ∧
      t'.position = 0 ∧ t'.index.position = 0 ∧ Stored opts rs w' := by
  obtain ⟨older, active, rep, linked, records, low⟩ := stored.log
  have chosen : newCleaner opts = .delete opts.maxLogBytes := by
    have same := rep.cleaner.symm.trans policy
    unfold newCleaner at same ⊢
    split at same
    · rename_i delete
      rw [if_pos delete]
    · cases same
  obtain ⟨c, object'⟩ := rep.object
  obtain rfl := Option.some.inj (object'.symm.trans object)
  have some : (ledger none older active).active.recs ≠ [] := by
    intro empty
    have size : active.chunk.size = 0 := by
      rw [Chunk.size, show active.chunk.recs = [] from empty]
      rfl
    rw [View.position_segment, size] at filled
    exact absurd filled (by decide)
  rw [chosen] at rep
  obtain ⟨w', done, rep'⟩ := rep.split_fresh hash fun v inside =>
    Nat.ne_of_lt (linked.base_lt_next some (chunk_mem_ledger inside))
  have renewed := @ledger_newest older _ (View.fresh w active.chunk.next) rfl opts.maxLogBytes
  obtain ⟨c', object'⟩ := rep'.object
  refine ⟨w', _, done, object', rfl, ?_, ⟨_, _, by rw [chosen]; exact rep', ?_, ?_, ?_⟩⟩
  · simp [View.segment, Segment.opened, View.fresh]
  · rw [renewed]
    exact linked.renew some opts.maxLogBytes false
  · rw [renewed]
    exact records.renew opts.maxLogBytes false
  · rw [renewed]
    exact Ledger.Low.renew low opts.maxLogBytes

theorem appendActive (stored : Stored opts rs w) {t : Segment}
    {w' : World} (object : w.segs[w.log.active]? = some t) (low : t.position < 2147483648)
    (long : 8 ≤ b.length) (appended : (Commitlog.appendActive b).run w = .ok offset w') :
    t.nextOffset = rs.length ∧ offset = rs.length ∧
      Stored opts (rs ++ [MessageSet.stamp rs.length b]) w' := by
  obtain ⟨older, active, rep, linked, records, fits⟩ := stored.log
  obtain ⟨c, object'⟩ := rep.object
  obtain rfl := Option.some.inj (object'.symm.trans object)
  have next : active.chunk.next = rs.length := records.next
  rcases rep.push_refines long with ⟨-, w₁, done, rep'⟩ | ⟨-, why, w₁, failed⟩
  · obtain ⟨rfl, rfl⟩ := Result.ok.inj (done.symm.trans appended)
    have grown : ledger none older (active.push b) =
        { ledger none older active with active := (ledger none older active).active.push b } := rfl
    refine ⟨by rw [View.nextOffset_segment, next], by rw [next], ⟨older, active.push b, rep', ?_, ?_, ?_⟩⟩
    · rw [grown]
      exact linked.push b
    · rw [grown]
      exact records.push b
    · rw [grown]
      exact Ledger.Low.push fits low b
  · rw [failed] at appended
    cases appended

end Stored

theorem new_stored {opts : Options} {w w' : World} (named : opts.path ≠ "")
    (quiet : w.disk.script = []) (empty : w.disk.listing opts.path = [])
    (made : (new opts).run w = .ok () w') : Stored opts.resolved [] w' := by
  obtain ⟨w₁, made', rep⟩ := new_empty named quiet empty
  obtain ⟨-, rfl⟩ := Result.ok.inj (made.symm.trans made')
  refine ⟨_, _, rep, (@Ledger.valid_start opts).linked, Ledger.records_start, ?_⟩
  simp [ledger, Ledger.chunks, View.fresh]

theorem filterMap_set {α β : Type} (f : α → Option β) {l : List α} {i : Nat} {a : α} (a' : α)
    (here : l[i]? = some a) (none : f a = none) :
    ((l.set i a').filterMap f).Perm ((f a').toList ++ l.filterMap f) := by
  induction l generalizing i with
  | nil => cases here
  | cons x l ih =>
    cases i with
    | zero =>
      obtain rfl := Option.some.inj here
      rw [set_cons_zero, filterMap_cons_none none]
      cases given : f a' with
      | none => rw [filterMap_cons_none given]; exact Perm.refl _
      | some v => rw [filterMap_cons_some given]; exact Perm.refl _
    | succ i =>
      have rest := ih (show l[i]? = some a from here)
      rw [set_cons_succ]
      cases first : f x with
      | none =>
        rw [filterMap_cons_none first, filterMap_cons_none first]
        exact rest
      | some v =>
        rw [filterMap_cons_some first, filterMap_cons_some first]
        exact (rest.cons v).trans perm_middle.symm

namespace Appending

variable {hash : Bytes → UInt64} {opts : Options} {rs : List Bytes} {s s' : Appending} {i : Nat}

theorem step_cases (taken : s.step hash i = some s') : ∃ b stage stage' w,
    s.calls[i]? = some (b, stage) ∧ stage.given? = none ∧
    (stage.next hash b).run s.world = .ok stage' w ∧ s' = ⟨w, s.calls.set i (b, stage')⟩ := by
  unfold step at taken
  obtain ⟨⟨b, stage⟩, here, taken⟩ := Option.bind_eq_some_iff.mp taken
  dsimp only at taken
  split at taken
  · cases taken
  · rename_i going
    split at taken
    · rename_i stage' w ran
      refine ⟨b, stage, stage', w, here, ?_, ran, (Option.some.inj taken).symm⟩
      simpa using going
    · cases taken

/-- A call has written its record, and goes on as if it had been alone since. -/
structure Pending (hash : Bytes → UInt64) (opts : Options) (rs : List Bytes) (s : Appending) :
    Prop where
  call : ∃ (i : Nat) (b : Bytes) (position offset : Int) (w : World) (t : Segment),
    s.calls[i]? = some (b, .written position offset) ∧
    (∀ (j : Nat) call, s.calls[j]? = some call → call.2.writing = true → j = i) ∧
    Stored opts rs w ∧ w.segs[w.log.active]? = some t ∧ t.position < 2147483648 ∧
    8 ≤ b.length ∧
    ((Stage.written position offset).rest hash b).run s.world = (appendActive b).run w

/-- What every step keeps that finds the way clear. -/
structure Sound (hash : Bytes → UInt64) (opts : Options) (rs : List Bytes) (s : Appending) :
    Prop where
  offsets : s.offsets.Perm ((List.range rs.length).map fun k : Nat => (k : Int))
  records : ∀ b offset, (b, Stage.returned offset) ∈ s.calls →
    ∃ k : Nat, offset = k ∧ rs[k]? = some (MessageSet.stamp k b)
  stamps : ∀ b position offset ms, (b, Stage.stamped position offset ms) ∈ s.calls →
    MessageSet.putOffset b offset = .ok ms
  log : (s.quiet = true ∧ Stored opts rs s.world) ∨ Pending hash opts rs s

theorem quiet_set {call : Bytes × Stage} (quiet : s.quiet = true) (silent : call.2.writing = false)
    (w : World) : Appending.quiet ⟨w, s.calls.set i call⟩ = true := by
  unfold Appending.quiet at quiet ⊢
  rw [all_eq_true] at quiet ⊢
  intro other inside
  rcases mem_or_eq_of_mem_set inside with old | rfl
  · exact quiet other old
  · simp [silent]

theorem Pending.loud (pending : Pending hash opts rs s) : s.quiet = false := by
  obtain ⟨i, b, position, offset, w, t, here, -⟩ := pending.call
  unfold Appending.quiet
  rw [all_eq_false]
  exact ⟨_, mem_of_getElem? here, by simp [Stage.writing]⟩

theorem Sound.stored (sound : Sound hash opts rs s) (quiet : s.quiet = true) :
    Stored opts rs s.world := by
  rcases sound.log with ⟨-, stored⟩ | pending
  · exact stored
  · rw [pending.loud] at quiet
    cases quiet

theorem Sound.reads {stage stage' : Stage} (sound : Sound hash opts rs s)
    (here : s.calls[i]? = some (b, stage)) (going : stage.given? = none)
    (still : stage.writing = false) (going' : stage'.given? = none)
    (still' : stage'.writing = false)
    (stamps : ∀ position offset ms, stage' = .stamped position offset ms →
      MessageSet.putOffset b offset = .ok ms) :
    Sound hash opts rs ⟨s.world, s.calls.set i (b, stage')⟩ := by
  refine ⟨?_, fun b' offset inside => ?_, fun b' position offset ms inside => ?_, ?_⟩
  · have kept := filterMap_set (fun call : Bytes × Stage => call.2.given?) (b, stage') here going
    rw [going'] at kept
    exact kept.trans sound.offsets
  · rcases mem_or_eq_of_mem_set inside with old | same
    · exact sound.records b' offset old
    · obtain ⟨-, rfl⟩ := Prod.mk.inj same
      cases going'
  · rcases mem_or_eq_of_mem_set inside with old | same
    · exact sound.stamps b' position offset ms old
    · obtain ⟨rfl, is⟩ := Prod.mk.inj same
      exact stamps position offset ms is.symm
  · rcases sound.log with ⟨quiet, stored⟩ | ⟨k, c, position, offset, w, t, there, only, rest⟩
    · exact .inl ⟨quiet_set quiet still' _, stored⟩
    · have apart : i ≠ k := by
        rintro rfl
        rw [here] at there
        cases there
        cases still
      refine .inr ⟨k, c, position, offset, w, t, ?_, fun j call found writing => ?_, rest⟩
      · rw [getElem?_set_ne apart]
        exact there
      · by_cases same : i = j
        · subst same
          rw [List.getElem?_set_self (List.getElem?_eq_some_iff.mp here).1] at found
          cases found
          rw [still'] at writing
          cases writing
        · rw [getElem?_set_ne same] at found
          exact only j call found writing

variable {w : World}

theorem read_active {α : Type} {f : Segment → α} {value : α} {w' : World}
    (ran : (do return f (← activeSegment) : Call World α).run w = .ok value w') : w' = w := by
  cases object : w.segs[w.log.active]? with
  | none =>
    rw [bind_error (activeSegment_none object)] at ran
    cases ran
  | some t =>
    rw [bind_ok (activeSegment_run object)] at ran
    cases ran
    rfl

/-- What a call that has written leaves to do, if it found the segment as it had read it. -/
theorem rest_written {w' : World} {t : Segment} {ms : Bytes} {count : Nat}
    (object : w.segs[w.log.active]? = some t)
    (stamped : MessageSet.putOffset b t.nextOffset = .ok ms)
    (wrote : (Segment.write w.log.active ms).run w = .ok count w') :
    ((Stage.written t.position t.nextOffset).rest hash b).run w' = (appendActive b).run w := by
  have found := activeSegment_run object
  have lifted : (lift (MessageSet.putOffset b t.nextOffset) : Call World Bytes).run w = .ok ms w := by
    rw [stamped]
    rfl
  symm
  calc (appendActive b).run w
      = (Stage.rolled.rest hash b).run w := rfl
    _ = ((Stage.placed t.position).rest hash b).run w := by
        rw [Stage.rest_next, Stage.next, bind_ok (bind_ok found)]
    _ = ((Stage.reserved t.position t.nextOffset).rest hash b).run w := by
        rw [Stage.rest_next, Stage.next, bind_ok (bind_ok found)]
    _ = ((Stage.stamped t.position t.nextOffset ms).rest hash b).run w := by
        rw [Stage.rest_next, Stage.next, bind_ok (bind_ok lifted)]
    _ = ((Stage.written t.position t.nextOffset).rest hash b).run w' := by
        rw [Stage.rest_next, Stage.next, bind_ok]
        rw [bind_ok (getLog_run w), bind_ok wrote]
        rfl

theorem length_of_putOffset {ms : Bytes}
    (stamped : MessageSet.putOffset b offset = .ok ms) : 8 ≤ b.length := by
  unfold MessageSet.putOffset at stamped
  split at stamped
  · cases stamped
  · omega

theorem Sound.writes {ms : Bytes} {position : Int} {count : Nat} (sound : Sound hash opts rs s)
    (here : s.calls[i]? = some (b, Stage.stamped position offset ms)) (clear : s.clear i = true)
    (wrote : (Segment.write s.world.log.active ms).run s.world = .ok count w) :
    Sound hash opts rs ⟨w, s.calls.set i (b, Stage.written position offset)⟩ := by
  simp only [Appending.clear, here, Bool.and_eq_true, Option.any_eq_true, decide_eq_true_eq] at clear
  obtain ⟨quiet, t, object, rfl, rfl, low⟩ := clear
  have stamped := sound.stamps b _ _ ms (mem_of_getElem? here)
  refine ⟨?_, fun b' offset inside => ?_, fun b' position offset ms inside => ?_, .inr ⟨i, b, _, _,
    s.world, t, List.getElem?_set_self (List.getElem?_eq_some_iff.mp here).1,
    fun j call found writing => ?_, sound.stored quiet, object, low, length_of_putOffset stamped,
    rest_written object stamped wrote⟩⟩
  · exact (filterMap_set (fun call : Bytes × Stage => call.2.given?) _ here rfl).trans sound.offsets
  · rcases mem_or_eq_of_mem_set inside with old | same
    · exact sound.records b' offset old
    · cases same
  · rcases mem_or_eq_of_mem_set inside with old | same
    · exact sound.stamps b' position offset ms old
    · cases same
  · by_contra other
    rw [getElem?_set_ne (fun same => other same.symm)] at found
    have silent := all_eq_true.mp quiet call (mem_of_getElem? found)
    rw [writing] at silent
    cases silent

theorem Sound.enters {position : Int} (sound : Sound hash opts rs s)
    (here : s.calls[i]? = some (b, Stage.written position offset))
    (entered : (enter position offset).run s.world = .ok () w) :
    ∃ r, Sound hash opts (rs ++ [r]) ⟨w, s.calls.set i (b, Stage.returned offset)⟩ := by
  have mine := mem_of_getElem? here
  rcases sound.log with ⟨quiet, -⟩ | ⟨k, c, position', offset', w₀, t, there, only, stored, object,
    low, long, rest⟩
  · have silent := all_eq_true.mp quiet _ mine
    cases silent
  obtain rfl := only i _ here rfl
  obtain ⟨rfl, same⟩ := Prod.mk.inj (Option.some.inj (here.symm.trans there))
  obtain ⟨rfl, rfl⟩ := Stage.written.inj same
  have done : (appendActive b).run w₀ = .ok offset w := by
    rw [← rest, Stage.rest, bind_ok entered]
    rfl
  obtain ⟨-, next, stored'⟩ := stored.appendActive object low long done
  refine ⟨MessageSet.stamp rs.length b, ?_, fun b' offset' inside => ?_,
    fun b' position' offset' ms inside => ?_, .inl ⟨?_, stored'⟩⟩
  · have grown := filterMap_set (fun call : Bytes × Stage => call.2.given?)
      (b, Stage.returned offset) here rfl
    rw [length_append, length_singleton, range_succ, map_append]
    refine grown.trans ?_
    simp only [Stage.given?, Option.toList_some, next]
    exact (sound.offsets.cons _).trans (perm_append_singleton _ _).symm
  · rcases mem_or_eq_of_mem_set inside with old | same
    · obtain ⟨k, is, found⟩ := sound.records b' offset' old
      refine ⟨k, is, ?_⟩
      rw [List.getElem?_append_left (List.getElem?_eq_some_iff.mp found).1]
      exact found
    · obtain ⟨rfl, is⟩ := Prod.mk.inj same
      obtain rfl := Stage.returned.inj is
      refine ⟨rs.length, next, ?_⟩
      rw [getElem?_append_right (Nat.le_refl _), Nat.sub_self]
      rfl
  · rcases mem_or_eq_of_mem_set inside with old | same
    · exact sound.stamps b' position' offset' ms old
    · cases same
  · unfold Appending.quiet
    rw [all_eq_true]
    intro call inside
    obtain ⟨j, found⟩ := getElem?_of_mem inside
    by_cases same : i = j
    · subst same
      rw [List.getElem?_set_self (List.getElem?_eq_some_iff.mp here).1] at found
      cases found
      rfl
    · rw [getElem?_set_ne same] at found
      cases writing : call.2.writing with
      | false => rfl
      | true => exact absurd (only j call found writing).symm same

theorem Sound.splits (sound : Sound hash opts rs s)
    (here : s.calls[i]? = some (b, Stage.checked true)) (clear : s.clear i = true)
    (done : (split hash).run s.world = .ok () w) :
    Sound hash opts rs ⟨w, s.calls.set i (b, Stage.rolled)⟩ := by
  simp only [Appending.clear, here, Bool.and_eq_true, Option.any_eq_true, decide_eq_true_eq] at clear
  obtain ⟨quiet, t, object, ⟨-, filled⟩, delete⟩ := clear
  have plain : Sound hash opts rs ⟨s.world, s.calls.set i (b, Stage.rolled)⟩ :=
    sound.reads here rfl rfl rfl rfl nofun
  refine ⟨plain.offsets, plain.records, plain.stamps, .inl ⟨quiet_set quiet rfl w, ?_⟩⟩
  split at delete
  · rename_i retention policy
    obtain ⟨w', -, done', -, -, -, stored'⟩ := (sound.stored quiet).split hash object filled policy
    obtain ⟨-, rfl⟩ := Result.ok.inj (done.symm.trans done')
    exact stored'
  · cases delete

theorem Sound.step (sound : Sound hash opts rs s) (clear : s.clear i = true)
    (taken : s.step hash i = some s') : ∃ rs', Sound hash opts rs' s' := by
  obtain ⟨b, stage, stage', w, here, going, ran, rfl⟩ := step_cases taken
  cases stage with
  | begun =>
    obtain ⟨full, w', checked, returned⟩ := bind_eq_ok ran
    cases returned
    obtain rfl := read_active checked
    exact ⟨rs, sound.reads here rfl rfl rfl rfl nofun⟩
  | checked full =>
    cases full with
    | true =>
      obtain ⟨_, w', done, returned⟩ := bind_eq_ok ran
      cases returned
      exact ⟨rs, sound.splits here clear done⟩
    | false =>
      cases ran
      exact ⟨rs, sound.reads here rfl rfl rfl rfl nofun⟩
  | rolled =>
    obtain rfl := read_active ran
    obtain ⟨t, w', found, returned⟩ := bind_eq_ok ran
    cases returned
    exact ⟨rs, sound.reads here rfl rfl rfl rfl nofun⟩
  | placed position =>
    obtain rfl := read_active ran
    obtain ⟨t, w', found, returned⟩ := bind_eq_ok ran
    cases returned
    exact ⟨rs, sound.reads here rfl rfl rfl rfl nofun⟩
  | reserved position offset =>
    obtain ⟨ms, w', lifted, returned⟩ := bind_eq_ok ran
    cases returned
    cases stamped : MessageSet.putOffset b offset with
    | error why =>
      rw [stamped] at lifted
      cases lifted
    | ok ms' =>
      rw [stamped] at lifted
      cases lifted
      refine ⟨rs, sound.reads here rfl rfl rfl rfl fun position' offset' ms' is => ?_⟩
      obtain ⟨rfl, rfl, rfl⟩ := Stage.stamped.inj is
      exact stamped
  | stamped position offset ms =>
    obtain ⟨log, w₁, loaded, ran⟩ := bind_eq_ok ran
    cases loaded
    obtain ⟨count, w₂, wrote, returned⟩ := bind_eq_ok ran
    cases returned
    exact ⟨rs, sound.writes here clear wrote⟩
  | written position offset =>
    obtain ⟨_, w', entered, returned⟩ := bind_eq_ok ran
    cases returned
    obtain ⟨r, sound'⟩ := sound.enters here entered
    exact ⟨rs ++ [r], sound'⟩
  | returned offset => cases going

theorem Sound.run {schedule : List Nat} (sound : Sound hash opts rs s)
    (clear : s.clearAll hash schedule = true) (ran : s.run hash schedule = some s') :
    ∃ rs', Sound hash opts rs' s' := by
  induction schedule generalizing s rs with
  | nil =>
    obtain rfl := Option.some.inj ran
    exact ⟨rs, sound⟩
  | cons i schedule ih =>
    obtain ⟨s₁, taken, ran⟩ := Option.bind_eq_some_iff.mp ran
    simp only [clearAll, taken, Option.all_some, Bool.and_eq_true] at clear
    obtain ⟨rs₁, sound₁⟩ := sound.step clear.1 taken
    exact ih sound₁ clear.2 ran

theorem sound_start {w w' : World} (bs : List Bytes) (named : opts.path ≠ "")
    (quiet : w.disk.script = []) (empty : w.disk.listing opts.path = [])
    (made : (new opts).run w = .ok () w') : Sound hash opts.resolved [] (start w' bs) := by
  have begun : ∀ call ∈ (start w' bs).calls, call.2 = .begun := by
    intro call inside
    obtain ⟨b, -, rfl⟩ := mem_map.mp inside
    rfl
  refine ⟨?_, fun b offset inside => ?_, fun b position offset ms inside => ?_, .inl ⟨?_, ?_⟩⟩
  · have none : (start w' bs).offsets = [] := by
      refine filterMap_eq_nil_iff.mpr fun call inside => ?_
      rw [begun call inside]
      rfl
    rw [none]
    exact Perm.nil
  · cases begun _ inside
  · cases begun _ inside
  · refine all_eq_true.mpr fun call inside => ?_
    rw [begun call inside]
    rfl
  · exact new_stored named quiet empty made

/-- Calls of `Append` on a new log, in any interleaving in which every write finds the segment
as its call has read it: whenever no index entry is outstanding, everything that was returned
is stored. -/
theorem run_collected {w w' : World} {bs : List Bytes} {schedule : List Nat} (named : opts.path ≠ "")
    (quiet : w.disk.script = []) (empty : w.disk.listing opts.path = [])
    (made : (new opts).run w = .ok () w') (clear : (start w' bs).clearAll hash schedule = true)
    (ran : (start w' bs).run hash schedule = some s) (still : s.quiet = true) : s.Collected := by
  obtain ⟨rs, sound⟩ := (sound_start bs named quiet empty made).run clear ran
  obtain ⟨segs, invariant⟩ := (sound.stored still).invariant
  exact ⟨rs, segs, invariant, sound.offsets, sound.records⟩

/-- A new log with segments of 20 bytes. -/
def fresh : World := ((new ⟨"log", 20, -1, "delete"⟩).run World.idle).state

/-- Three calls. The second reads the segment before the first has its index entry, and the
third splits it. -/
def taking : List Nat := [0, 0, 0, 0, 0, 0, 1, 1, 1, 1, 1, 0, 1, 1, 2, 2, 2, 2, 2, 2, 2]

theorem run_collected_taking : ∃ s,
    (start fresh [plainSet [1], plainSet [2], plainSet [3]]).run (fun _ => 0) taking = some s ∧
      s.offsets = [0, 1, 2] ∧ s.Collected := by
  have given : ((start fresh [plainSet [1], plainSet [2], plainSet [3]]).run (fun _ => 0) taking).map
      (fun s => (s.offsets, s.quiet)) = some ([0, 1, 2], true) := by
    decide +kernel
  obtain ⟨s, ran, shown⟩ := Option.map_eq_some_iff.mp given
  obtain ⟨offsets, still⟩ := Prod.mk.inj shown
  have made : (new ⟨"log", 20, -1, "delete"⟩).run World.idle = .ok () fresh := by decide +kernel
  exact ⟨s, ran, offsets, run_collected (by decide) rfl rfl made (by decide +kernel) ran still⟩

/-- Two calls that both read before either writes: both return offset 0, both records have it,
and the index has no entry for the second. -/
theorem offset_given_twice :
    let s := (start fresh [plainSet [1], plainSet [2]]).run (fun _ => 0)
      [0, 0, 0, 0, 0, 1, 1, 1, 1, 1, 0, 0, 1, 1]
    s.map offsets = some [0, 0] ∧
    s.map (fun s => s.world.disk.inodes.map fun f => f.bytes) =
      some [plainSet [1] ++ plainSet [2],
        (newRelEntry ⟨0, 0⟩ 0).encode ++ (newRelEntry ⟨0, 0⟩ 0).encode] := by
  decide +kernel

end Appending

end Jocko.Commitlog
