import Jocko.Commitlog.CrashedClean
import Jocko.Commitlog.LinkedRefines

namespace Jocko.Commitlog

open Go World List

variable {offset : Int}

namespace Housed

variable {opts : Options} {vs : List View} {v : View} {w w' : World}

theorem appendActive (housed : Housed opts (vs ++ [v]) w) {b : Bytes}
    (files : Files opts (vs ++ [v.push b]) w') (active : w.log.active = v.ref)
    (long : 8 ≤ b.length) (space : (v.chunk.recs.length + 1) * entryWidth ≤ indexBytes)
    (ran : (Commitlog.appendActive b).run w = .ok offset w') : Housed opts (vs ++ [v.push b]) w' := by
  obtain ⟨f, c, ran', -, place⟩ := housed.files.appendActive_run active long space
  obtain ⟨-, rfl⟩ := Result.ok.inj (ran'.symm.trans ran)
  have opened := housed.files.opened v Files.last_mem
  refine ⟨files, fun u inside => ?_, fun u inside => ?_⟩
  · rcases mem_append.mp inside with old | new
    · exact housed.fits u (mem_append_left _ old)
    · obtain rfl := mem_singleton.mp new
      exact housed.fits v Files.last_mem
  · rcases mem_append.mp inside with old | new
    · have apart := housed.files.apart_last u old
      have kept := housed.sane u (mem_append_left _ old)
      rw [← Disk.file_setFile_ne (d := w.disk) _ apart.indexLog.symm,
        ← Disk.file_setFile_ne _ apart.index.symm] at kept
      exact kept
    · obtain rfl := mem_singleton.mp new
      have count : v.chunk.recs.length < 2 ^ 31 := by
        simp only [entryWidth, indexBytes] at space
        omega
      have offset : (newRelEntry ⟨v.chunk.next, v.chunk.size⟩ v.chunk.base).offset =
          v.chunk.recs.length := by
        simp only [newRelEntry, Chunk.next]
        rw [int32_of_lt (by omega) (by omega)]
        omega
      have sane := (housed.sane v Files.last_mem).overwrite opened.index.size
        (Nat.mul_mod_left v.chunk.recs.length entryWidth)
        (RelEntry.length_encode (newRelEntry ⟨v.chunk.next, v.chunk.size⟩ v.chunk.base))
        (by rwa [← Nat.add_one_mul])
        (by rw [RelEntry.decode_encode, offset]; omega)
      have inside' : v.indexInode < (w.disk.setFile v.logInode
          ⟨(v.push b).chunk.recs.flatten, 0⟩).inodes.length := by
        simpa using opened.indexInside
      rw [← place, ← Disk.file_setFile_same f inside'] at sane
      exact sane

theorem create (housed : Housed opts vs w) {base : Nat}
    (unused : ∀ v ∈ vs, v.chunk.base ≠ base) (small : base < 2 ^ 63) :
    ∃ c d', (newSegment opts.path base opts.maxSegmentBytes []).run w.disk =
        .ok ((View.fresh w base).segment opts c) d' ∧
      Housed opts (vs ++ [View.fresh w base])
        { w with disk := d', segs := w.segs ++ [(View.fresh w base).segment opts c] } := by
  obtain ⟨c, d', made, files⟩ := housed.files.create base unused
  obtain ⟨c', made'⟩ := housed.files.newSegment_run base unused
  obtain ⟨-, rfl⟩ := Result.ok.inj (made.symm.trans made')
  refine ⟨c, _, made, files, fun v inside => ?_, fun v inside => ?_⟩
  · rcases mem_append.mp inside with old | new
    · exact housed.fits v old
    · obtain rfl := mem_singleton.mp new
      exact small
  · rcases mem_append.mp inside with old | new
    · have opened := housed.files.opened v old
      have within := opened.indexInside
      have kept := housed.sane v old
      rw [← Disk.file_create_old (logPath opts.path base []) within,
        ← Disk.file_create_old (indexPath opts.path base []) (by simp; omega),
        ← Disk.file_setFile_ne _ (show w.disk.inodes.length + 1 ≠ v.indexInode by omega)] at kept
      exact kept
    · obtain rfl := mem_singleton.mp new
      have blank := (files.opened _ Files.last_mem).blank rfl
      have sane := SaneIndex.blank
      rw [← blank] at sane
      exact sane

theorem frame (housed : Housed opts vs w) (log : CommitLog) : Housed opts vs { w with log } where
  files := housed.files.relog log
  fits := housed.fits
  sane := housed.sane

end Housed

/-- Behind the older runs stands an empty one: as many are dropped as are not retained. -/
theorem dropCount_empty (retention : Int) (older : List Chunk) {last : Chunk}
    (empty : last.recs = []) :
    dropCount retention older last = older.length - retained retention older := by
  have size : last.size = 0 := by simp [Chunk.size, empty]
  unfold dropCount retained
  split
  · omega
  · rw [size]
    rfl

namespace LogRep

variable {opts : Options} {older : List View} {active : View} {w : World} {hash : Bytes → UInt64}
  {b : Bytes}

theorem split_clean (rep : LogRep opts (.delete opts.maxLogBytes) none older active w)
    (housed : Housed opts (older ++ [active]) w)
    (unused : ∀ v ∈ older ++ [active], v.chunk.base ≠ active.chunk.next)
    (small : active.chunk.next < 2 ^ 63) :
    let fresh := View.fresh w active.chunk.next
    ∃ w₁, Housed opts (older ++ [active] ++ [fresh]) w₁ ∧
      (Commitlog.split hash).run w = (do
        let segments ← DeleteCleaner.clean opts.maxLogBytes
          ((older ++ [active] ++ [fresh]).map View.ref)
        setLog { ← getLog with segments }
        setLog { ← getLog with active := fresh.ref } : Call World Unit).run w₁ := by
  intro fresh
  obtain ⟨c, object⟩ := rep.object
  obtain ⟨c', d', made, housed'⟩ := housed.create unused small
  refine ⟨_, housed', ?_⟩
  rw [split_start hash object (by rw [rep.options, View.nextOffset_segment]; exact made),
    show w.log.segments ++ [w.segs.length] = _ from rep.refs_fresh _]
  exact bind_congr_run (clean_delete hash (by exact rep.cleaner) _)

end LogRep

/-- A log of well-formed sets, one behind the other. -/
theorem Standing.of_ledger {opts : Options} {rs : List Bytes} {older : List View} {active : View}
    {w : World} (housed : Housed opts (older ++ [active]) w)
    (linked : (ledger none older active).Linked) (records : (ledger none older active).Records rs)
    (formed : ∀ r ∈ rs, WellFormed r) : Standing opts (older ++ [active]) w where
  housed := housed
  chained := by
    rw [← chunks_ledger none]
    exact linked.chained
  bases := by
    have ordered := linked.bases
    rwa [chunks_ledger, pairwise_map] at ordered
  formed v inside r here := formed r (records.mem (chunk_mem_ledger inside) here)

/-- A log to which records were appended, and nothing else happened to it. -/
structure Running (opts : Options) (rs : List Bytes) (older : List View) (active : View)
    (w : World) : Prop where
  rep : LogRep opts (.delete opts.maxLogBytes) none older active w
  housed : Housed opts (older ++ [active]) w
  linked : (ledger none older active).Linked
  records : (ledger none older active).Records rs

namespace Running

variable {opts : Options} {rs : List Bytes} {older : List View} {active : View} {w w' : World}
  {hash : Bytes → UInt64} {b : Bytes}

section

variable (running : Running opts rs older active w)
include running

theorem next : active.chunk.next = rs.length :=
  running.records.next

theorem unused (filled : active.chunk.recs ≠ []) :
    ∀ v ∈ older ++ [active], v.chunk.base ≠ active.chunk.next := fun _ inside =>
  Nat.ne_of_lt (running.linked.base_lt_next filled (chunk_mem_ledger inside))

theorem push (long : 8 ≤ b.length)
    (ran : (appendActive b).run w = .ok offset w') :
    Running opts (rs ++ [MessageSet.stamp rs.length b]) older (active.push b) w' := by
  rcases running.rep.push_refines long with ⟨pushed, w₁, ran', rep⟩ | ⟨-, why, w₁, failed⟩
  · obtain ⟨-, rfl⟩ := Result.ok.inj (ran'.symm.trans ran)
    obtain ⟨space, -⟩ := Ledger.push_eq_some pushed
    exact ⟨rep, running.housed.appendActive rep.files running.rep.current long space ran,
      running.linked.push b, running.records.push b⟩
  · rw [failed] at ran
    cases ran

theorem split (filled : active.chunk.recs ≠ [])
    (fits : rs.length < 2 ^ 63) :
    ∃ older' active' w', (split hash).run w = .ok () w' ∧ Running opts rs older' active' w' := by
  obtain ⟨w', done, rep⟩ := running.rep.split_fresh hash (running.unused filled)
  obtain ⟨w₁, housed, goes⟩ := @LogRep.split_clean _ _ _ _ hash running.rep running.housed
    (running.unused filled) (by rw [running.next]; exact fits)
  obtain ⟨before, w₂, traced, -, housed₂, -⟩ := housed.clean_traced opts.maxLogBytes
  have cleaned := traced.quiet
  rw [World.put_quiet housed.files.quiet, World.put_quiet housed₂.files.quiet] at cleaned
  have again := done
  rw [goes, bind_ok cleaned] at again
  obtain ⟨-, rfl⟩ := Result.ok.inj again
  rw [dropCount_empty _ _ rfl, length_map] at housed₂
  have kept := @ledger_newest older active (View.fresh w active.chunk.next) rfl opts.maxLogBytes
  refine ⟨_, _, _, done, rep, housed₂.frame _, ?_, ?_⟩
  · rw [kept]
    exact running.linked.renew filled opts.maxLogBytes false
  · rw [kept]
    exact running.records.renew opts.maxLogBytes false

/-- The list that `split` hands to `Clean`. -/
theorem split_standing (filled : active.chunk.recs ≠ []) (fits : rs.length < 2 ^ 63)
    (formed : ∀ r ∈ rs, WellFormed r) :
    let fresh := View.fresh w active.chunk.next
    ∃ w₁, Standing opts (older ++ [active] ++ [fresh]) w₁ ∧ (Commitlog.split hash).run w = (do
      let segments ← DeleteCleaner.clean opts.maxLogBytes
        ((older ++ [active] ++ [fresh]).map View.ref)
      setLog { ← getLog with segments }
      setLog { ← getLog with active := fresh.ref } : Call World Unit).run w₁ := by
  intro fresh
  obtain ⟨w₁, housed, goes⟩ := @LogRep.split_clean _ _ _ _ hash running.rep running.housed
    (running.unused filled) (by rw [running.next]; exact fits)
  have all := @ledger_newest older active fresh rfl (-1)
  rw [show Files.newest (-1) (older ++ [active]) = older ++ [active] by
    simp [Files.newest, retained]] at all
  refine ⟨w₁, .of_ledger housed ?_ ?_ formed, goes⟩
  · rw [all]
    exact running.linked.renew filled (-1) false
  · rw [all]
    exact running.records.renew (-1) false

theorem append (positive : 0 < opts.maxSegmentBytes)
    (fits : rs.length < 2 ^ 63) (long : 8 ≤ b.length)
    (ran : (append hash b).run w = .ok offset w') :
    ∃ older' active', Running opts (rs ++ [MessageSet.stamp rs.length b]) older' active' w' := by
  have checked := running.rep.checkSplit
  unfold Commitlog.append at ran
  rw [bind_ok checked] at ran
  by_cases full : opts.maxSegmentBytes ≤ active.chunk.size
  · have filled : active.chunk.recs ≠ [] :=
      Ledger.recs_ne_nil_of_full (l := ledger none older active) positive full
    obtain ⟨older₁, active₁, w₁, done, running₁⟩ := @split _ _ _ _ _ hash running filled fits
    rw [decide_eq_true full] at ran
    have pushed : (appendActive b).run w₁ = .ok offset w' := (bind_ok done).symm.trans ran
    exact ⟨_, _, running₁.push long pushed⟩
  · rw [decide_eq_false full] at ran
    exact ⟨_, _, running.push long ran⟩

end

theorem appendAll {bs : List Bytes} {offsets : List Int} (running : Running opts rs older active w)
    (positive : 0 < opts.maxSegmentBytes) (fits : rs.length + bs.length < 2 ^ 63)
    (long : ∀ b ∈ bs, 8 ≤ b.length) (ran : (appendAll hash bs).run w = .ok offsets w') :
    ∃ older' active', Running opts (rs ++ Ledger.stampFrom rs.length bs) older' active' w' := by
  induction bs generalizing rs older active w offsets with
  | nil =>
    cases ran
    exact ⟨older, active, by simpa [Ledger.stampFrom] using running⟩
  | cons b bs ih =>
    rw [length_cons] at fits
    obtain ⟨offset, w₁, first, ran⟩ := bind_eq_ok ran
    obtain ⟨offsets', w₂, rest, ran⟩ := bind_eq_ok ran
    cases ran
    obtain ⟨older₁, active₁, running₁⟩ := running.append positive (by omega)
      (long b (mem_cons_self ..)) first
    obtain ⟨older', active', running'⟩ := ih running₁ (by simp; omega)
      (fun b inside => long b (mem_cons_of_mem _ inside)) rest
    refine ⟨older', active', ?_⟩
    simpa [Ledger.stampFrom] using running'

theorem start {opts : Options} {w : World} (named : opts.path ≠ "")
    (policy : opts.resolved.cleanupPolicy = deleteCleanupPolicy) (quiet : w.disk.script = [])
    (empty : w.disk.listing opts.path = []) :
    ∃ active w', (new opts).run w = .ok () w' ∧ Running opts.resolved [] [] active w' := by
  obtain ⟨c, made, files⟩ := new_run named quiet empty
  have housed : Housed opts.resolved [View.fresh w 0] { w with
      disk := createdDisk w.disk opts.path 0
      segs := w.segs ++ [(View.fresh w 0).segment opts.resolved c] } := by
    refine ⟨files, fun v inside => ?_, fun v inside => ?_⟩
    · obtain rfl := mem_singleton.mp inside
      exact Nat.two_pow_pos 63
    · obtain rfl := mem_singleton.mp inside
      rw [(files.opened _ inside).blank rfl]
      exact SaneIndex.blank
  have framed := housed.frame
    ⟨opts.resolved, newCleaner opts.resolved, [w.segs.length], w.segs.length⟩
  refine ⟨View.fresh w 0, _, made, ⟨framed.files, rfl, newCleaner_delete policy, rfl, rfl, by simp⟩,
    framed, (@Ledger.valid_start opts).linked, rfl, ?_⟩
  simp [ledger, Ledger.chunks, View.fresh]

end Running

/-- A run of appends in a directory without files leaves a log that may be cleaned. -/
theorem runAppends_running {opts : Options} {w w' : World} {bs : List Bytes} {offsets : List Int}
    {hash : Bytes → UInt64} (named : opts.path ≠ "")
    (policy : opts.resolved.cleanupPolicy = deleteCleanupPolicy) (quiet : w.disk.script = [])
    (empty : w.disk.listing opts.path = []) (positive : 0 < opts.maxSegmentBytes)
    (long : ∀ b ∈ bs, 8 ≤ b.length) (fits : bs.length < 2 ^ 63)
    (ran : (runAppends hash opts bs).run w = .ok offsets w') :
    ∃ older active, Running opts.resolved (Ledger.stampFrom 0 bs) older active w' := by
  obtain ⟨active, w₁, made, running⟩ := Running.start named policy quiet empty
  unfold runAppends at ran
  rw [bind_ok made] at ran
  exact running.appendAll (by simpa using positive) (by simpa using fits) long ran

/-- When `New` finds the newest segments after a crash in `Clean`: nothing was removed yet or
everything that is to go, and all records but the last of each segment are bare headers. The last
index file that is to go may still be there if the working directory has a file of its name. -/
theorem clean_crash_iff {opts : Options} {vs : List View} {last : View} {w : World}
    (standing : Standing opts.resolved (vs ++ [last]) w) (named : opts.path ≠ "")
    (away : opts.path ≠ ".") (retention : Int) (k : Nat) :
    (∃ w', (new opts).run
        ⟨crashedDisk (DeleteCleaner.clean retention ((vs ++ [last]).map View.ref)) k w, [], w.log⟩ =
          .ok () w' ∧ SuffixOf ((vs ++ [last]).map View.ref) w w') ↔
      (k < 6 ∧ ∀ v ∈ vs ++ [last], v.chunk.Bare) ∨
      ((7 * dropCount retention (vs.map View.chunk) last.chunk ≤ k ∨
          7 * dropCount retention (vs.map View.chunk) last.chunk = k + 1 ∧
            ∀ v ∈ vs.head?, (w.disk.lookup (indexPath "." v.chunk.base [])).isSome) ∧
        ∀ v ∈ vs.drop (dropCount retention (vs.map View.chunk) last.chunk) ++ [last],
          v.chunk.Bare) := by
  obtain ⟨before, w₁, traced, length, housed, outside, states⟩ :=
    standing.housed.clean_traced retention
  have few := dropCount_le retention (vs.map View.chunk) last.chunk
  rw [length_map] at few
  generalize dropCount retention (vs.map View.chunk) last.chunk = dropped at *
  have kept : vs.drop dropped ++ [last] = (vs ++ [last]).drop dropped :=
    (drop_append_of_le_length few).symm
  have front (a : Nat) (below : a ≤ dropped) : vs.take a = (vs ++ [last]).take a :=
    (take_append_of_le_length (by omega)).symm
  have inside : dropped ≤ (vs ++ [last]).length := by
    rw [length_append]
    omega
  have nonempty : (vs ++ [last]).drop dropped ≠ [] := by
    rw [← kept]
    simp
  rcases crashedDisk_cases traced k with ⟨t, here, disk⟩ | ⟨late, disk⟩
  · have early : k < 7 * dropped := by
      rw [← length]
      exact (List.getElem?_eq_some_iff.mp here).1
    obtain ⟨remains, dangling⟩ := states k t here
    rw [disk]
    by_cases removed : k % 7 = 6
    · -- The log file of a segment is gone and its index file is not.
      obtain ⟨v, d, place, remains, cut⟩ := dangling removed
      have turn : dropped - k / 7 = dropped - 1 - k / 7 + 1 := by omega
      have here : (vs ++ [last])[dropped - 1 - k / 7]? = some v := by
        rw [List.getElem?_append_left (List.getElem?_eq_some_iff.mp place).1]
        exact place
      rw [kept, front _ (Nat.sub_le _ _), turn, List.take_add_one, here, Option.toList_some,
        append_assoc] at remains
      rw [cut, remains.dangling_iff standing here (by omega) (by simp; omega) named away, kept]
      have oldest (final : 7 * dropped = k + 1) : vs.head? = some v := by
        rw [head?_eq_getElem?, ← place]
        congr 1
        omega
      constructor
      · rintro ⟨none, found, bare⟩
        have final : 7 * dropped = k + 1 := by omega
        refine .inr ⟨.inr ⟨final, fun u head => ?_⟩, bare⟩
        rw [oldest final] at head
        obtain rfl := Option.some.inj head
        exact found
      · rintro (⟨start, -⟩ | ⟨done | ⟨final, names⟩, bare⟩)
        · omega
        · omega
        · exact ⟨by omega, names v (oldest final), bare⟩
    · rw [kept, front _ (Nat.sub_le _ _)] at remains
      have opens := @Remains.opens _ _ _ _ w.log (remains (by omega)) (by simp [nonempty])
        (standing.housed.files.apart.sublist (gap_sublist _ (Nat.sub_le _ _)))
        (standing.bases.sublist (gap_sublist _ (Nat.sub_le _ _))) named
      rw [opens.gap_iff standing (Nat.sub_le _ _) inside]
      constructor
      · rintro ⟨none | all, bare⟩
        · omega
        · rw [all, take_append_drop] at bare
          exact .inl ⟨by omega, bare⟩
      · rintro (⟨start, bare⟩ | ⟨done, -⟩)
        · have none : k / 7 = 0 := by omega
          rw [none, Nat.sub_zero, take_append_drop]
          exact ⟨.inr rfl, bare⟩
        · omega
  · have remains := housed.remains outside
    rw [kept] at remains
    have opens := @Remains.opens _ _ _ _ w.log remains nonempty
      (standing.housed.files.apart.sublist (drop_sublist _ _))
      (standing.bases.sublist (drop_sublist _ _)) named
    have gap : (vs ++ [last]).drop dropped =
        (vs ++ [last]).take 0 ++ (vs ++ [last]).drop dropped := rfl
    rw [gap] at opens
    rw [disk, Disk.put_quiet remains.quiet, opens.gap_iff standing (Nat.zero_le _) inside, ← gap, kept]
    have done : 7 * dropped ≤ k := by omega
    constructor
    · rintro ⟨-, bare⟩
      exact .inr ⟨.inl done, bare⟩
    · rintro (⟨-, bare⟩ | ⟨-, bare⟩)
      · exact ⟨.inl rfl, fun v inside => bare v (mem_of_mem_drop inside)⟩
      · exact ⟨.inl rfl, bare⟩

theorem clean_crash_bare_sets :
    ∃ vs last w w', Standing ⟨"log", 12, -1, "delete"⟩ (vs ++ [last]) w ∧
      (new ⟨"log", 12, -1, "delete"⟩).run ⟨crashedDisk (DeleteCleaner.clean 12
        ((vs ++ [last]).map View.ref)) (7 * vs.length) w, [], w.log⟩ = .ok () w' ∧
      SuffixOf ((vs ++ [last]).map View.ref) w w' := by
  rcases @runAppends_refines ⟨"log", 12, -1, "delete"⟩ World.idle
      [plainSet [], plainSet [], plainSet []] (fun _ => 0) (by decide) rfl rfl rfl (by decide) with
    ⟨-, w, -, ran, -⟩ | ⟨none, -⟩
  · obtain ⟨vs, last, running⟩ := runAppends_running (by decide) rfl rfl rfl (by decide)
      (by decide) (by decide) ran
    have standing := Standing.of_ledger running.housed running.linked running.records
      (stampFrom_wellFormed (by decide) 0)
    have bare : ∀ v ∈ vs ++ [last], v.chunk.Bare := by
      intro v inside r stored
      have record := running.records.mem (chunk_mem_ledger inside) (dropLast_subset _ stored)
      have lengths : ∀ r ∈ Ledger.stampFrom 0 [plainSet [], plainSet [], plainSet []],
          r.length = msgSetHeaderLen := by decide
      exact lengths r record
    have few := dropCount_le 12 (vs.map View.chunk) last.chunk
    rw [length_map] at few
    obtain ⟨w', made, suffix⟩ := (clean_crash_iff standing (by decide) (by decide) 12
      (7 * vs.length)).mpr (.inr ⟨.inl (by omega), fun v inside => bare v (by
        rcases mem_append.mp inside with old | new
        · exact mem_append_left _ (mem_of_mem_drop old)
        · exact mem_append_right _ new)⟩)
    exact ⟨vs, last, w, w', standing, made, suffix⟩
  · exact absurd none (by decide +kernel)

/-- The fourth `Append` deletes the segments of offsets 1 and 0, in this order. After a crash
between the removals of the two files of the first `New` fails, and after a crash behind both the
log has offset 0 and not offset 1. -/
theorem clean_crash_leaves_hole :
    let w := ((runAppends (fun _ => 0) ⟨"log", 12, 36, "delete"⟩
      [plainSet [], plainSet [], plainSet (replicate 24 7)]).run World.idle).state
    ((new ⟨"log", 12, 36, "delete"⟩).run
        ⟨crashedDisk (append (fun _ => 0) (plainSet [])) 13 w, [], w.log⟩).stopped =
      some (.err .notExist) ∧
    ((do
      new ⟨"log", 12, 36, "delete"⟩
      (← getLog).segments.mapM fun r => do
        let s ← seg r
        return (s.baseOffset, s.nextOffset) : Call World (List (Int × Int))).run
        ⟨crashedDisk (append (fun _ => 0) (plainSet [])) 14 w, [], w.log⟩).returned =
      some [(0, 1), (2, 3), (3, 3)] := by
  decide +kernel

end Jocko.Commitlog
