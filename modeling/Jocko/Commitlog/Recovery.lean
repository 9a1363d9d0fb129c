import Jocko.Commitlog.Restart

namespace Jocko.Commitlog

open Go World List

variable {c : Chunk}

/-- A run is found as it is when all its records but the last are bare headers. -/
theorem Chunk.found_bare (formed : ∀ r ∈ c.recs, WellFormed r)
    (bare : ∀ r ∈ c.recs.dropLast, r.length = msgSetHeaderLen) :
    c.found = (c.entries, (c.size : Int)) := by
  have walked := @walk_bare c.recs [] (c.size + 1) c.base formed bare
    (Nat.le_succ _)
  rw [Chunk.entries_eq_layout]
  simpa [Chunk.found, Chunk.size] using walked

/-- A run that is found with all its records and its whole length has only bare headers
before its last record. -/
theorem Chunk.bare_of_found (formed : ∀ r ∈ c.recs, WellFormed r)
    (count : c.found.1.length = c.recs.length) (ends : c.found.2 = (c.size : Int)) :
    ∀ r ∈ c.recs.dropLast, r.length = msgSetHeaderLen := by
  refine @bare_of_walk c.recs [] (c.size + 1) c.base formed ?_ ?_
  · simpa [Chunk.found] using count
  · simpa [Chunk.found, Chunk.size] using ends

variable {opts : Options} {w : World}

theorem View.Reopened.open {v : View} (reopened : v.Reopened opts w)
    (whole : v.chunk.found = (v.chunk.entries, (v.chunk.size : Int))) : v.Open opts w := by
  have same (c : Nat) : v.rebuilt opts c = v.segment opts c := by
    simp only [View.rebuilt, View.segment, whole, Chunk.length_entries]
  obtain ⟨c, object⟩ := reopened.object
  refine ⟨⟨c, by rw [object, same]⟩, reopened.stored, reopened.inside, ?_, reopened.blank,
    reopened.apart⟩
  have index := reopened.index
  rw [same, whole] at index
  exact index

/-- A log whose runs are all found as they are runs again after a restart. -/
theorem Restarted.rep {opts : Options} {older : List View} {active : View} {first : Nat} {w : World}
    (restarted : Restarted opts (View.reref first (older ++ [active])) w)
    (whole : ∀ v ∈ older ++ [active], v.chunk.found = (v.chunk.entries, (v.chunk.size : Int))) :
    LogRep opts (newCleaner opts) none (View.reref first older)
      { active with ref := first + older.length } w := by
  rw [View.reref_append_singleton] at restarted
  refine ⟨⟨restarted.quiet, restarted.listing, fun v inside => ?_, restarted.apart⟩,
    by rw [restarted.log], by rw [restarted.log], by rw [restarted.log]; rfl, ?_, by simp⟩
  · refine (restarted.opened v inside).open ?_
    rw [← View.reref_append_singleton] at inside
    obtain ⟨-, u, present, same⟩ := View.le_ref_of_mem_reref inside
    rw [same]
    exact whole u present
  · rw [restarted.log]
    simp

/-- Two segments, each on its machine, with the same counters and index entries. -/
structure Segment.Same (s s' : Segment) (d d' : Disk) : Prop where
  baseOffset : s'.baseOffset = s.baseOffset
  nextOffset : s'.nextOffset = s.nextOffset
  position : s'.position = s.position
  count : s'.index.position = s.index.position
  entry : ∀ j, j * entryWidth < s.index.position →
    ((s'.index.readEntryAtLogOffset j).run d').returned =
      ((s.index.readEntryAtLogOffset j).run d).returned

/-- Two logs with the same segments, the same newest offset and the same offset for
whatever is appended next. -/
structure SameLog (hash : Bytes → UInt64) (w w' : World) : Prop where
  length : w'.log.segments.length = w.log.segments.length
  segment : ∀ i, i < w.log.segments.length → ∃ r r' s s', w.log.segments[i]? = some r ∧
    w'.log.segments[i]? = some r' ∧ w.segs[r]? = some s ∧ w'.segs[r']? = some s' ∧
    s.Same s' w.disk w'.disk
  newest : (newestOffset.run w').returned = (newestOffset.run w).returned
  next : ∀ b : Bytes, msgSetHeaderLen ≤ b.length →
    ((append hash b).run w').returned = ((append hash b).run w).returned

variable {w' : World}

theorem View.Open.same {u v : View} (opened : u.Open opts w)
    (opened' : v.Open opts w') (chunk : v.chunk = u.chunk) (c c' : Nat) :
    (u.segment opts c).Same (v.segment opts c') w.disk w'.disk := by
  obtain ⟨run, ref, logInode, indexInode⟩ := v
  obtain rfl : run = u.chunk := chunk
  refine ⟨rfl, rfl, rfl, rfl, fun j inside => ?_⟩
  have below : j < u.chunk.recs.length := Nat.lt_of_mul_lt_mul_right inside
  have first := opened.index.readEntry j (by simpa using below)
  have second := opened'.index.readEntry j (by simpa using below)
  exact (congrArg Result.returned second).trans (congrArg Result.returned first).symm

/-- Segments with the same runs are the same, one by one. -/
theorem Files.same {vs vs' : List View} (files : Files opts vs w)
    (files' : Files opts vs' w') (chunks : vs'.map View.chunk = vs.map View.chunk) {i : Nat}
    (inside : i < vs.length) :
    ∃ r r' s s', (vs.map View.ref)[i]? = some r ∧ (vs'.map View.ref)[i]? = some r' ∧
      w.segs[r]? = some s ∧ w'.segs[r']? = some s' ∧ s.Same s' w.disk w'.disk := by
  have count := congrArg length chunks
  simp only [length_map] at count
  have inside' : i < vs'.length := by omega
  have opened := files.opened _ (getElem_mem inside)
  have opened' := files'.opened _ (getElem_mem inside')
  obtain ⟨c, object⟩ := opened.object
  obtain ⟨c', object'⟩ := opened'.object
  have chunk : vs'[i].chunk = vs[i].chunk := by
    have placed := congrArg (fun cs => cs[i]?) chunks
    simpa [inside, inside'] using placed
  exact ⟨_, _, _, _, by simp [inside], by simp [inside'], object, object',
    opened.same opened' chunk c c'⟩

variable (hash : Bytes → UInt64)

theorem append_returned {l : Ledger} {b : Bytes}
    (rep : Rep opts (.delete opts.maxLogBytes) l w) (long : 8 ≤ b.length) :
    ((append hash b).run w).returned = (l.append opts b).map fun _ => (l.next : Int) := by
  rcases append_refines hash rep long with ⟨l', w', appended, returned, -⟩ | ⟨none, why, w', failed⟩
  · rw [appended, returned]
    rfl
  · rw [none, failed]
    rfl

variable {older : List View} {active : View}

/-- Two logs that store the same runs are the same log. -/
theorem LogRep.sameLog {older' : List View} {active' : View}
    (rep : LogRep opts (.delete opts.maxLogBytes) none older active w)
    (rep' : LogRep opts (.delete opts.maxLogBytes) none older' active' w')
    (valid : (ledger none older active).Valid opts)
    (same : ledger none older' active' = ledger none older active) : SameLog hash w w' := by
  have chunks : (older' ++ [active']).map View.chunk = (older ++ [active]).map View.chunk := by
    simp only [ledger, Ledger.mk.injEq, true_and] at same
    simp [same.1, same.2]
  refine ⟨?_, fun i inside => ?_, ?_, fun b long => ?_⟩
  · rw [rep.segments, rep'.segments]
    simpa using congrArg length chunks
  · rw [rep.segments] at inside ⊢
    rw [rep'.segments]
    exact rep.files.same rep'.files chunks (by simpa using inside)
  · have next : active'.chunk = active.chunk := congrArg Ledger.active same
    rw [rep.newestOffset, rep'.newestOffset, next]
    rfl
  · have wide : 8 ≤ b.length := Nat.le_trans (by decide) long
    rw [append_returned hash ⟨valid, none, older, active, rep, rfl⟩ wide,
      append_returned hash ⟨same ▸ valid, none, older', active', rep', rfl⟩ wide, same]

/-- A restart that gives the same log has met bare headers only, up to the last record of
each segment. -/
theorem Restarted.bare {cleaner : Cleaner} {first : Nat} {hash : Bytes → UInt64}
    (restarted : Restarted opts (View.reref first (older ++ [active])) w')
    (rep : LogRep opts cleaner none older active w) (same : SameLog hash w w') {v : View}
    (inside : v ∈ older ++ [active]) (formed : ∀ r ∈ v.chunk.recs, WellFormed r) :
    ∀ r ∈ v.chunk.recs.dropLast, r.length = msgSetHeaderLen := by
  obtain ⟨i, here⟩ := mem_iff_getElem?.mp inside
  have segment : w.log.segments[i]? = some v.ref := by
    rw [rep.segments, Option.toList_none, nil_append, getElem?_map, here]
    rfl
  have moved : (View.reref first (older ++ [active]))[i]? = some { v with ref := first + i } := by
    rw [View.getElem?_reref, here]
    rfl
  have segment' : w'.log.segments[i]? = some (first + i) := by
    rw [restarted.log, getElem?_map, moved]
    rfl
  obtain ⟨c, object⟩ := (rep.files.opened v inside).object
  obtain ⟨c', object'⟩ := (restarted.opened _ (mem_of_getElem? moved)).object
  obtain ⟨r, r', s, s', place, place', found, found', equal⟩ := same.segment i
    (List.getElem?_eq_some_iff.mp segment).1
  obtain rfl : v.ref = r := Option.some.inj (segment.symm.trans place)
  obtain rfl : first + i = r' := Option.some.inj (segment'.symm.trans place')
  obtain rfl := Option.some.inj (object.symm.trans found)
  obtain rfl := Option.some.inj (object'.symm.trans found')
  refine Chunk.bare_of_found formed ?_ equal.position
  have next := equal.nextOffset
  simp only [View.rebuilt, View.segment, Segment.opened] at next
  omega

/-- The names that `open` takes for log files. -/
def isLogName (name : List Char) : Bool :=
  !hasSuffix name indexFileSuffix && hasSuffix name logFileSuffix

theorem openFiles_length {files : List (List Char)}
    {refs : List Nat} (opened : (openFiles opts files).run w = .ok refs w') :
    refs.length = files.countP isLogName := by
  induction files generalizing w w' refs with
  | nil =>
    cases opened
    rfl
  | cons name files ih =>
    unfold openFiles at opened
    by_cases index : hasSuffix name indexFileSuffix = true
    · have skipped : isLogName name = false := by simp [isLogName, index]
      rw [if_pos index] at opened
      obtain ⟨found, w₁, -, rest⟩ := bind_eq_ok opened
      rw [countP_cons_of_neg (by simp [skipped])]
      cases found with
      | true => exact ih rest
      | false =>
        obtain ⟨-, w₂, -, rest⟩ := bind_eq_ok rest
        exact ih rest
    · rw [if_neg index] at opened
      by_cases log : hasSuffix name logFileSuffix = true
      · have counted : isLogName name = true := by simp [isLogName, index, log]
        rw [if_pos log] at opened
        rw [countP_cons_of_pos counted]
        cases number : atoi (trimSuffix name logFileSuffix) with
        | none =>
          rw [number] at opened
          cases opened
        | some base =>
          rw [number] at opened
          obtain ⟨s, w₁, -, rest⟩ := bind_eq_ok opened
          obtain ⟨r, w₂, -, rest⟩ := bind_eq_ok rest
          obtain ⟨rs, w₃, later, rest⟩ := bind_eq_ok rest
          cases rest
          rw [length_cons, ih later]
      · have skipped : isLogName name = false := by simp [isLogName, log]
        rw [if_neg log] at opened
        rw [countP_cons_of_neg (by simp [skipped])]
        exact ih opened

theorem countP_sortedNames (vs : List View) :
    (vs.flatMap View.sortedNames).countP isLogName = vs.length := by
  induction vs with
  | nil => rfl
  | cons v vs ih =>
    have index : isLogName (sprintf020d v.chunk.base ++ indexSuffix) = false := by
      simp only [isLogName, Bool.and_eq_false_iff, Bool.not_eq_false']
      exact .inl (hasSuffix_append _ _)
    have log : isLogName (sprintf020d v.chunk.base ++ logSuffix) = true := by
      simp only [isLogName, hasSuffix_index_log, Bool.not_false, Bool.true_and]
      exact hasSuffix_append _ _
    rw [flatMap_cons, countP_append, ih]
    simp only [View.sortedNames, countP_cons, index, log, countP_nil,
      Bool.false_eq_true, ↓reduceIte, length_cons]
    omega

/-- `New` has a segment for every log file of the directory. -/
theorem new_length {vs : List View} (named : opts.path ≠ "")
    (quiet : w.disk.script = []) (some : vs ≠ [])
    (listing : w.disk.listing opts.path = vs.flatMap (View.names opts))
    (opened : (new opts).run w = .ok () w') : w'.log.segments.length = vs.length := by
  rw [new_start named quiet] at opened
  obtain ⟨refs, w₁, listed, rest⟩ := bind_eq_ok opened
  have count : refs.length = vs.length := by
    rw [openFiles_length listed, sortNames, (perm_insertionSort _ _).countP_eq, listing,
      (names_perm_sortedNames opts vs).countP_eq, countP_sortedNames]
  have nonempty : refs ≠ [] := by
    intro none
    rw [none] at count
    exact some (length_eq_zero_iff.mp count.symm)
  simp only [nonempty, ↓reduceIte] at rest
  cases rest
  exact count

/-- A phantom has no files of its own, so a restart loses it. -/
theorem LogRep.restart_phantom {cleaner : Cleaner} {g : Nat}
    (rep : LogRep opts.resolved cleaner (some g) older active w)
    (named : opts.path ≠ "") (ran : (restart opts).run w = .ok () w') :
    w'.log.segments.length ≠ w.log.segments.length := by
  obtain ⟨u, vs, shape, ⟨-, c, object⟩, -⟩ := rep.first_phantom
  obtain ⟨_, w₁, closed, opened⟩ := bind_eq_ok ran
  have first := Segment.close_live object rfl rfl rep.files.quiet
  obtain ⟨w₂, rest, kept⟩ := @closeAll_views opts.resolved (older ++ [active])
    ((Segment.opened opts.resolved.path 0 opts.resolved.maxSegmentBytes []
      u.logInode u.indexInode c 0 0).closedIn g w) rep.files.quiet
    (fun v inside => by
      obtain ⟨c, found⟩ := (rep.files.opened v inside).object
      exact ⟨c, (getElem?_set_ne ((rep.phantom g rfl).2 v inside).symm).trans found⟩)
    (fun v inside => by simpa using (rep.files.opened v inside).indexInside) rep.files.apart
  have done : close.run w = .ok () w₂ := by
    rw [close_run, rep.segments, Option.toList_some, singleton_append, closeAll,
      bind_ok first]
    exact rest
  obtain rfl : w₂ = w₁ := (Result.ok.inj (done.symm.trans closed)).2
  have listing : w₂.disk.listing opts.path = (older ++ [active]).flatMap (View.names opts) := by
    have names : View.names opts.resolved = View.names opts := by
      funext v
      simp only [View.names, Options.path_resolved]
    rw [Disk.listing, kept.names, ← names, ← rep.files.listing, Options.path_resolved]
    rfl
  have count := new_length named kept.quiet (by simp) listing opened
  rw [count, rep.segments]
  simp

/-- All records but the last of each run are bare headers. -/
def Ledger.Bare (l : Ledger) : Prop :=
  ∀ c ∈ l.chunks, ∀ r ∈ c.recs.dropLast, r.length = msgSetHeaderLen

instance (l : Ledger) : Decidable l.Bare :=
  inferInstanceAs (Decidable (∀ c ∈ l.chunks, ∀ r ∈ c.recs.dropLast, r.length = msgSetHeaderLen))

theorem Ledger.Records.mem {l : Ledger} {rs : List Bytes} (records : l.Records rs)
    (inside : c ∈ l.chunks) {r : Bytes} (stored : r ∈ c.recs) : r ∈ rs :=
  mem_of_mem_drop ((records.within c inside).mem stored)

/-- A log without a phantom comes back from a restart as it was exactly if all records but
the last of each segment are bare headers: `BuildIndex` skips the payload of a record a
second time after it has copied it. -/
theorem LogRep.restart_same_iff {rs : List Bytes}
    (rep : LogRep opts.resolved (.delete opts.resolved.maxLogBytes) none older active w)
    (valid : (ledger none older active).Valid opts.resolved)
    (records : (ledger none older active).Records rs) (formed : ∀ r ∈ rs, WellFormed r)
    (named : opts.path ≠ "") (policy : opts.resolved.cleanupPolicy = deleteCleanupPolicy)
    (fits : rs.length < 2 ^ 63) : (∃ w', (restart opts).run w = .ok () w' ∧ SameLog hash w w') ↔
      (ledger none older active).Bare := by
  have chunks := chunks_ledger none older active
  have stored {v : View} (inside : v ∈ older ++ [active]) : ∀ r ∈ v.chunk.recs, WellFormed r :=
    fun r here => formed r (records.mem (chunk_mem_ledger inside) here)
  have bases : (older ++ [active]).Pairwise fun u v => u.chunk.base < v.chunk.base := by
    have ordered := valid.linked.bases
    rwa [chunks, pairwise_map] at ordered
  have small : ∀ v ∈ older ++ [active], v.chunk.base < 2 ^ 63 := by
    intro v inside
    have bound := valid.linked.next_le (chunk_mem_ledger inside)
    rw [records.next] at bound
    exact Nat.lt_of_le_of_lt (Nat.le_trans (Nat.le_add_right _ _) bound) fits
  constructor
  · rintro ⟨w', ran, same⟩
    rcases rep.restart_run named bases small with ⟨first, w₂, again, restarted⟩ | ⟨-, why, w₂, failed⟩
    · rw [again] at ran
      cases ran
      intro c inside
      rw [chunks] at inside
      obtain ⟨v, here, rfl⟩ := mem_map.mp inside
      exact restarted.bare rep same here (stored here)
    · rw [failed] at ran
      cases ran
  · intro bare
    have whole : ∀ v ∈ older ++ [active],
        v.chunk.found = (v.chunk.entries, (v.chunk.size : Int)) := fun v inside =>
      Chunk.found_bare (stored inside) (bare _ (chunk_mem_ledger inside))
    rcases rep.restart_run named bases small with
      ⟨first, w', ran, restarted⟩ | ⟨⟨v, inside, full⟩, -⟩
    · have again := restarted.rep whole
      rw [newCleaner_delete policy] at again
      exact ⟨w', ran, rep.sameLog hash again valid (by simp [ledger])⟩
    · have room := (rep.files.opened v inside).index.room
      rw [whole v inside] at full
      exact absurd full (Nat.not_lt.mpr room)

/-- When a log comes back from a restart as it was: either nothing was appended or the
segment size is positive, and no segment has a payload before its last record. -/
theorem runAppends_restart_same_iff {opts : Options} {w w₁ : World} {bs : List Bytes}
    {offsets : List Int} (hash : Bytes → UInt64) (named : opts.path ≠ "")
    (policy : opts.resolved.cleanupPolicy = deleteCleanupPolicy) (quiet : w.disk.script = [])
    (empty : w.disk.listing opts.path = []) (formed : ∀ b ∈ bs, WellFormed b)
    (fits : bs.length < 2 ^ 63) (ran : (runAppends hash opts bs).run w = .ok offsets w₁) :
    (∃ w₂, (restart opts).run w₁ = .ok () w₂ ∧ SameLog hash w₁ w₂) ↔
      (0 < opts.maxSegmentBytes ∨ bs = []) ∧
        ∀ l ∈ Ledger.start.appendAll opts.resolved bs, l.Bare := by
  obtain ⟨l, all, valid, ghost, older, active, rep, rfl⟩ :=
    runAppends_rep named policy quiet empty ran
  have records := (Ledger.valid_records_of_appendAll all).2
  have next : (ledger ghost older active).next = bs.length :=
    records.next.trans (Ledger.length_stampFrom 0 bs)
  have only : (∀ l ∈ Ledger.start.appendAll opts.resolved bs, l.Bare) ↔
      (ledger ghost older active).Bare := by
    rw [all]
    simp
  rw [only]
  cases ghost with
  | none =>
    rw [rep.restart_same_iff hash valid records (stampFrom_wellFormed formed 0) named policy
      (by simpa using fits)]
    refine ⟨fun bare => ⟨?_, bare⟩, fun both => both.2⟩
    by_cases positive : 0 < opts.maxSegmentBytes
    · exact .inl positive
    · rcases valid.degenerate (by simpa using Int.not_lt.mp positive) with first | haunted
      · rw [first] at next
        exact .inr (length_eq_zero_iff.mp next.symm)
      · cases haunted
  | some g =>
    have size := (valid.phantom rfl).1
    rw [Options.maxSegmentBytes_resolved] at size
    refine ⟨fun ⟨w₂, again, same⟩ => ?_, fun both => ?_⟩
    · exact absurd same.length (rep.restart_phantom named again)
    · rcases both.1 with positive | rfl
      · omega
      · cases all

theorem runAppends_restart_same_bare :
    ∃ w₁ w₂, (runAppends (fun _ => 0) ⟨"log", 20, -1, "delete"⟩
        [plainSet [], plainSet [1, 2], plainSet [], plainSet [3]]).run World.idle =
          .ok [0, 1, 2, 3] w₁ ∧
      (restart ⟨"log", 20, -1, "delete"⟩).run w₁ = .ok () w₂ ∧ SameLog (fun _ => 0) w₁ w₂ := by
  rcases @runAppends_refines ⟨"log", 20, -1, "delete"⟩ World.idle
      [plainSet [], plainSet [1, 2], plainSet [], plainSet [3]] (fun _ => 0)
      (by decide) rfl rfl rfl (by decide) with ⟨l, w₁, -, ran, -⟩ | ⟨none, -⟩
  · obtain ⟨w₂, again, same⟩ := (runAppends_restart_same_iff (fun _ => 0) (by decide) rfl rfl rfl
      (by decide) (by decide) ran).mpr ⟨.inl (by decide), by decide +kernel⟩
    exact ⟨w₁, w₂, ran, again, same⟩
  · exact absurd none (by decide +kernel)

/-- Two records with payloads in one segment: after a restart the log counts only one. -/
theorem restart_forgets_record :
    ((do
      let _ ← runAppends (fun _ => 0) ⟨"log", 100, -1, "delete"⟩ [plainSet [1], plainSet [2]]
      let before ← newestOffset
      restart ⟨"log", 100, -1, "delete"⟩
      return (before, ← newestOffset) : Call World (Int × Int)).run World.idle).returned =
        some (2, 1) := by
  decide +kernel

end Jocko.Commitlog
