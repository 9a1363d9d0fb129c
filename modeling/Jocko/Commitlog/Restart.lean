import Jocko.Commitlog.LogInvariant
import Jocko.Commitlog.RecordWalk
import Mathlib.Data.List.Perm.Basic

namespace Jocko.Commitlog

open Go World List

/-- What closing the segments does to the machine: each index file is cut to its entries. -/
structure Closed (vs : List View) (w w' : World) : Prop where
  log : w'.log = w.log
  quiet : w'.disk.script = []
  names : w'.disk.names = w.disk.names
  length : w'.disk.inodes.length = w.disk.inodes.length
  index : ∀ v ∈ vs, w'.disk.file v.indexInode =
    (w.disk.file v.indexInode).truncate (v.chunk.recs.length * entryWidth)
  other : ∀ i, (∀ v ∈ vs, v.indexInode ≠ i) → w'.disk.file i = w.disk.file i

theorem closeAll_views {opts : Options} {vs : List View} {w : World} (quiet : w.disk.script = [])
    (object : ∀ v ∈ vs, ∃ c, w.segs[v.ref]? = some (v.segment opts c))
    (inside : ∀ v ∈ vs, v.indexInode < w.disk.inodes.length) (apart : vs.Pairwise View.Apart) :
    ∃ w', (closeAll (vs.map View.ref)).run w = .ok () w' ∧ Closed vs w w' := by
  induction vs generalizing w with
  | nil => exact ⟨w, rfl, rfl, quiet, rfl, rfl, by simp, fun _ _ => rfl⟩
  | cons v vs ih =>
    obtain ⟨c, first⟩ := object v (mem_cons_self ..)
    have here := inside v (mem_cons_self ..)
    have away := (pairwise_cons.mp apart).1
    have closed := Segment.close_live first rfl rfl quiet
    obtain ⟨w', rest, done⟩ := ih (w := (v.segment opts c).closedIn v.ref w) quiet
      (fun u later => by
        obtain ⟨c, found⟩ := object u (mem_cons_of_mem _ later)
        exact ⟨c, (getElem?_set_ne (away u later).ref).trans found⟩)
      (fun u later => by simpa using inside u (mem_cons_of_mem _ later))
      (pairwise_cons.mp apart).2
    refine ⟨w', ?_, done.log, done.quiet, done.names, by simpa using done.length, ?_, ?_⟩
    · rw [map_cons, closeAll, bind_ok closed]
      exact rest
    · intro u present
      rcases mem_cons.mp present with rfl | later
      · rw [done.other _ fun x later => (away x later).index.symm]
        exact Disk.file_setFile_same _ here
      · rw [done.index u later]
        exact congrArg (fun f => File.truncate f _)
          (Disk.file_setFile_ne _ (away u later).index)
    · intro i other
      rw [done.other i fun u later => other u (mem_cons_of_mem _ later)]
      exact Disk.file_setFile_ne _ (other v (mem_cons_self ..))

/-- The bytes of a whole index file, cut to its entries. -/
theorem Index.Holds.content_truncate {idx : Index} {d : Disk} {es : List Entry}
    (holds : idx.Holds d es) : ((d.file idx.file.inode).truncate (es.length * entryWidth)).content =
      encodeEntries idx.baseOffset es := by
  have none : es.length * entryWidth - (d.file idx.file.inode).size = 0 := by
    rw [holds.size]
    exact Nat.sub_eq_zero_of_le holds.room
  rw [File.content_truncate, holds.stored, none]
  simp

variable {opts : Options} {v : View} {w : World}

theorem View.Open.saneIndex (opened : v.Open opts w) :
    SaneIndex ((w.disk.file v.indexInode).truncate (v.chunk.recs.length * entryWidth)) := by
  have content := opened.index.content_truncate
  have wide := opened.room
  rw [Chunk.length_entries] at content
  unfold SaneIndex
  rw [File.size_truncate]
  rcases Nat.eq_zero_or_pos v.chunk.recs.length with none | some
  · exact .inl (by rw [none, Nat.zero_mul])
  · refine .inr ⟨Nat.mul_mod_left _ _, wide, ?_⟩
    have last : v.chunk.recs.length - 1 < v.chunk.entries.length := by
      rw [Chunk.length_entries]
      omega
    have slot := slot_encodeEntries v.chunk.base v.chunk.entries _ last
    have place : v.chunk.recs.length * entryWidth - entryWidth =
        (v.chunk.recs.length - 1) * entryWidth := by
      rw [Nat.sub_mul, Nat.one_mul]
    have tail : ((encodeEntries v.chunk.base v.chunk.entries).drop
        ((v.chunk.recs.length - 1) * entryWidth)).length = entryWidth := by
      rw [length_drop, length_encodeEntries, Chunk.length_entries, Nat.sub_mul]
      simp only [entryWidth] at *
      omega
    rw [take_of_length_le (Nat.le_of_eq tail)] at slot
    have bytes : ((w.disk.file v.indexInode).truncate (v.chunk.recs.length * entryWidth)).content =
        encodeEntries v.chunk.base v.chunk.entries := content
    rw [bytes, place, slot, RelEntry.decode_encode]
    have offset : (newRelEntry v.chunk.entries[v.chunk.recs.length - 1] v.chunk.base).offset =
        int32 ((v.chunk.recs.length - 1 : Nat) : Int) := by
      simp only [newRelEntry, Chunk.entries, getElem_map, getElem_range, Int.natCast_add]
      congr 1
      omega
    rw [offset, int32_of_lt (by omega) (by simp only [entryWidth, indexBytes] at wide; omega)]
    omega

/-- The names of a segment's files in the order of the directory's listing. -/
def View.sortedNames (v : View) : List (List Char) :=
  [sprintf020d v.chunk.base ++ indexSuffix, sprintf020d v.chunk.base ++ logSuffix]

theorem names_perm_sortedNames (opts : Options) (vs : List View) :
    ((vs.flatMap (View.names opts)).map fun entry => entry.1.base).Perm
      (vs.flatMap View.sortedNames) := by
  rw [map_flatMap]
  refine Perm.flatMap_left vs fun v _ => ?_
  simp only [View.names, View.sortedNames, logPath, indexPath, map_cons, map_nil,
    append_nil]
  exact Perm.swap _ _ []

/-- Both names begin with the digits of the base offset. -/
theorem decimals_of_mem_sortedNames {name : List Char} (small : v.chunk.base < 10 ^ 20)
    (named : name ∈ v.sortedNames) : ∃ rest, name = decimals 20 v.chunk.base ++ rest := by
  unfold View.sortedNames at named
  rw [sprintf020d_of_fits small] at named
  rcases mem_cons.mp named with index | log
  · exact ⟨indexSuffix, index⟩
  · exact ⟨logSuffix, mem_singleton.mp log⟩

variable {vs : List View}

/-- Segments in the order of their offsets have their files in the order of their names. -/
theorem sortedNames_increasing (bases : vs.Pairwise fun u v => u.chunk.base < v.chunk.base)
    (small : ∀ v ∈ vs, v.chunk.base < 10 ^ 20) :
    (vs.flatMap View.sortedNames).Pairwise fun a b => a < b := by
  rw [pairwise_flatMap]
  constructor
  · intro v _
    have suffixes : indexSuffix < logSuffix := by decide
    simpa [View.sortedNames] using append_left_lt suffixes
  · refine bases.imp_of_mem fun {u v} uInside vInside less a aNamed b bNamed => ?_
    obtain ⟨x, first⟩ := decimals_of_mem_sortedNames (small u uInside) aNamed
    obtain ⟨y, second⟩ := decimals_of_mem_sortedNames (small v vInside) bNamed
    rw [first, second]
    exact append_lt_append x y (by simp) (decimals_lt_decimals less (small v vInside))

theorem hasSuffix_index_log (s : List Char) : hasSuffix (s ++ logSuffix) indexFileSuffix = false := by
  rw [Bool.eq_false_iff]
  intro ends
  have last := (isSuffixOf_iff_suffix.mp ends).getLast (by decide)
  rw [getLast_append_of_ne_nil _ (by decide)] at last
  exact absurd last (by decide)

section

variable {opts : Options} {w : World} {base : Nat} (fits : base < 2 ^ 63)

include fits

theorem replaceFirst_index :
    replaceFirst indexFileSuffix logFileSuffix (sprintf020d base ++ indexSuffix) =
      sprintf020d base ++ logSuffix := by
  have digits : sprintf020d base = decimals 20 base := sprintf020d_of_fits (by omega)
  have dotless : '.' ∉ decimals 20 base := by
    intro inside
    have digit := all_eq_true.mp (all_isDigit_decimals 20 base) '.' inside
    exact absurd digit (by decide)
  rw [digits]
  exact replaceFirst_append (c := '.') logFileSuffix dotless

section

variable (quiet : w.disk.script = [])
include quiet

/-- The step of the loop at an index file: is its log file there? -/
theorem openFiles_stat (files : List (List Char)) :
    (openFiles opts ((sprintf020d base ++ indexSuffix) :: files)).run w =
      (if (w.disk.lookup (logPath opts.path base [])).isSome then openFiles opts files
        else do
          onDisk (Disk.remove (indexPath "." base []))
          openFiles opts files : Call World (List Nat)).run w := by
  have stat : (onDisk (wrap "stat file failed"
      (Disk.exists? ⟨opts.path, sprintf020d base ++ logSuffix⟩))).run w =
        .ok (w.disk.lookup (logPath opts.path base [])).isSome w := by
    have found := Disk.exists?_quiet quiet ⟨opts.path, sprintf020d base ++ logSuffix⟩
    have same : (⟨opts.path, sprintf020d base ++ logSuffix⟩ : FileName) =
        logPath opts.path base [] := by
      simp only [logPath, append_nil]
    rw [same] at found ⊢
    exact onDisk_ok (wrap_ok found)
  have ends : hasSuffix (sprintf020d base ++ indexSuffix) indexFileSuffix = true :=
    hasSuffix_append _ _
  simp only [openFiles, ends, ↓reduceIte, replaceFirst_index fits, indexPath, append_nil]
  rw [bind_ok stat]

theorem openFiles_index {inode : Nat}
    (named : w.disk.lookup (logPath opts.path base []) = some inode) (files : List (List Char)) :
    (openFiles opts ((sprintf020d base ++ indexSuffix) :: files)).run w =
      (openFiles opts files).run w := by
  rw [openFiles_stat fits quiet, named]
  rfl

/-- An index file without its log file is not found where `open` tries to remove it. -/
theorem openFiles_dangling (gone : w.disk.lookup (logPath opts.path base []) = none)
    (absent : w.disk.lookup (indexPath "." base []) = none) (files : List (List Char)) :
    ∃ why w', (openFiles opts ((sprintf020d base ++ indexSuffix) :: files)).run w =
      .error why w' := by
  rw [openFiles_stat fits quiet, gone]
  exact ⟨_, _, bind_error (onDisk_error (Disk.remove_missing quiet absent))⟩

/-- It removes another file of this name, where there is one. -/
theorem openFiles_unlisted (gone : w.disk.lookup (logPath opts.path base []) = none) {inode : Nat}
    (found : w.disk.lookup (indexPath "." base []) = some inode) (files : List (List Char)) :
    (openFiles opts ((sprintf020d base ++ indexSuffix) :: files)).run w =
      (openFiles opts files).run { w with disk := w.disk.unlink (indexPath "." base []) } := by
  rw [openFiles_stat fits quiet, gone]
  exact bind_ok (onDisk_ok (Disk.remove_old quiet found))

end

theorem openFiles_log (files : List (List Char)) :
    (openFiles opts ((sprintf020d base ++ logSuffix) :: files)).run w = (do
      let segment ← alloc (← onDisk (newSegment opts.path base opts.maxSegmentBytes []))
      return segment :: (← openFiles opts files) : Call World (List Nat)).run w := by
  have digits : sprintf020d base = decimals 20 base := sprintf020d_of_fits (by omega)
  have other := hasSuffix_index_log (sprintf020d base)
  have ends : hasSuffix (sprintf020d base ++ logSuffix) logFileSuffix = true :=
    hasSuffix_append _ _
  have number : atoi (trimSuffix (sprintf020d base ++ logSuffix) logFileSuffix) =
      some (base : Int) := by
    rw [digits]
    exact (congrArg atoi (trimSuffix_append _ logSuffix)).trans (atoi_decimals fits)
  simp only [openFiles, other, ends, number, Bool.false_eq_true, ↓reduceIte]

end

/-- What `BuildIndex` finds in the log file of a run. -/
def Chunk.found (c : Chunk) : List Entry × Int := walk c.recs.flatten (c.size + 1) 0 c.base 0

namespace View

/-- The segment object that `NewSegment` makes of a view's files. -/
def rebuilt (opts : Options) (v : View) (cursor : Nat) : Segment :=
  Segment.opened opts.path v.chunk.base opts.maxSegmentBytes [] v.logInode v.indexInode cursor
    v.chunk.found.1.length v.chunk.found.2

/-- The files of a segment as its process has left them. The index may be longer than its
entries, which are not looked at. -/
structure Left (opts : Options) (v : View) (d : Disk) : Prop where
  log : d.lookup (logPath opts.path v.chunk.base []) = some v.logInode
  index : d.lookup (indexPath opts.path v.chunk.base []) = some v.indexInode
  stored : d.file v.logInode = ⟨v.chunk.recs.flatten, 0⟩
  inside : v.logInode < d.inodes.length
  indexInside : v.indexInode < d.inodes.length
  sane : SaneIndex (d.file v.indexInode)
  blank : v.chunk.recs = [] → (d.file v.indexInode).bytes = []
  apart : v.indexInode ≠ v.logInode
  fits : v.chunk.base < 2 ^ 63

/-- A segment opened from its files. -/
abbrev Reopened (opts : Options) (v : View) (w : World) : Prop :=
  v.Backed (v.rebuilt opts) v.chunk.found.1 w

/-- The same segments as new objects, numbered from `first` on. -/
def reref : Nat → List View → List View
  | _, [] => []
  | first, v :: vs => { v with ref := first } :: reref (first + 1) vs

end View

/-- What opening the segments leaves as it was. -/
structure Reopening (vs : List View) (w w' : World) : Prop where
  log : w'.log = w.log
  quiet : w'.disk.script = []
  names : w'.disk.names = w.disk.names
  length : w'.disk.inodes.length = w.disk.inodes.length
  segs : w.segs <+: w'.segs
  other : ∀ i, (∀ v ∈ vs, v.indexInode ≠ i) → w'.disk.file i = w.disk.file i

theorem View.Left.frame {opts : Options} {v : View} {d d' : Disk} (left : v.Left opts d)
    (names : d'.names = d.names) (length : d'.inodes.length = d.inodes.length)
    (log : d'.file v.logInode = d.file v.logInode)
    (index : d'.file v.indexInode = d.file v.indexInode) : v.Left opts d' where
  log := by unfold Disk.lookup; rw [names]; exact left.log
  index := by unfold Disk.lookup; rw [names]; exact left.index
  stored := by rw [log]; exact left.stored
  inside := by rw [length]; exact left.inside
  indexInside := by rw [length]; exact left.indexInside
  sane := by rw [index]; exact left.sane
  blank := fun empty => by rw [index]; exact left.blank empty
  apart := left.apart
  fits := left.fits

theorem Reopening.reopened {w' : World} (kept : Reopening vs w w') (opened : v.Reopened opts w)
    (log : ∀ u ∈ vs, u.indexInode ≠ v.logInode) (index : ∀ u ∈ vs, u.indexInode ≠ v.indexInode) :
    v.Reopened opts w' := by
  obtain ⟨c, object⟩ := opened.object
  obtain ⟨more, segs⟩ := kept.segs
  refine opened.frame (Nat.le_of_eq kept.length.symm) ?_ (kept.other _ log) (kept.other _ index)
  rw [← segs]
  exact List.getElem?_append_left (List.getElem?_eq_some_iff.mp object).1

theorem View.Left.newSegment (quiet : w.disk.script = [])
    (left : v.Left opts w.disk) :
    (∃ c f, (newSegment opts.path v.chunk.base opts.maxSegmentBytes []).run w.disk =
        .ok (v.rebuilt opts c) (w.disk.setFile v.indexInode f) ∧
      View.Reopened opts { v with ref := w.segs.length } { w with
        disk := w.disk.setFile v.indexInode f
        segs := w.segs ++ [v.rebuilt opts c] }) ∨
    (indexBytes < v.chunk.found.1.length * entryWidth ∧ ∃ why d',
      (Commitlog.newSegment opts.path v.chunk.base opts.maxSegmentBytes []).run w.disk =
        .error why d') := by
  have made := newSegment_walk opts.maxSegmentBytes (Disk.openFile_old quiet left.log)
    (Disk.openFile_old quiet left.index) quiet left.apart left.indexInside left.sane
  simp only [left.stored, File.content_plain, File.size_plain] at made
  change (v.chunk.found.1.length * entryWidth ≤ indexBytes ∧ _) ∨
    (indexBytes < v.chunk.found.1.length * entryWidth ∧ _) at made
  rcases made with ⟨-, c, f, s, made, shape, holds, idle⟩ | ⟨full, d', failed⟩
  · subst shape
    refine .inl ⟨c, f, made, ⟨c, getElem?_concat_length⟩, ?_, ?_, holds, fun empty => ?_,
      left.apart⟩
    · exact (Disk.file_setFile_ne _ left.apart).trans left.stored
    · simpa using left.inside
    · have none : v.chunk.recs = [] := empty
      have nothing : v.chunk.found.1 = [] := by
        simp only [Chunk.found, none, flatten_nil, walk_nil]
      have blank := left.blank none
      rw [Disk.file_setFile_same _ left.indexInside, idle nothing]
      generalize w.disk.file v.indexInode = before at blank
      obtain ⟨bytes, hole⟩ := before
      obtain rfl : bytes = [] := blank
      rfl
  · exact .inr ⟨full, _, d', failed⟩

/-- `open` makes a new object of every segment, in order, or fails at one whose walk has
more entries than an index takes. -/
theorem openFiles_views {opts : Options} {vs : List View} {w : World} (quiet : w.disk.script = [])
    (left : ∀ v ∈ vs, v.Left opts w.disk) (apart : vs.Pairwise View.Apart) :
    (∃ w', (openFiles opts (vs.flatMap View.sortedNames)).run w =
        .ok ((View.reref w.segs.length vs).map View.ref) w' ∧
      Reopening vs w w' ∧ (∀ v ∈ View.reref w.segs.length vs, v.Reopened opts w') ∧
      w'.segs.length = w.segs.length + vs.length) ∨
    ((∃ v ∈ vs, indexBytes < v.chunk.found.1.length * entryWidth) ∧ ∃ why w',
      (openFiles opts (vs.flatMap View.sortedNames)).run w = .error why w') := by
  induction vs generalizing w with
  | nil =>
    exact .inl ⟨w, rfl, ⟨rfl, quiet, rfl, rfl, prefix_rfl, fun _ _ => rfl⟩,
      by simp [View.reref], rfl⟩
  | cons v vs ih =>
    have first := left v (mem_cons_self ..)
    obtain ⟨away, rest⟩ := pairwise_cons.mp apart
    have start : (openFiles opts ((v :: vs).flatMap View.sortedNames)).run w = (do
        let segment ← alloc (← onDisk (newSegment opts.path v.chunk.base opts.maxSegmentBytes []))
        return segment :: (← openFiles opts (vs.flatMap View.sortedNames)) :
          Call World (List Nat)).run w := by
      rw [flatMap_cons]
      exact (openFiles_index first.fits quiet first.log _).trans (openFiles_log first.fits _)
    rw [start]
    rcases first.newSegment quiet with ⟨c, f, made, reopened⟩ | ⟨full, why, d', failed⟩
    · have allocated : (alloc (v.rebuilt opts c)).run
          { w with disk := w.disk.setFile v.indexInode f } = .ok w.segs.length { w with
            disk := w.disk.setFile v.indexInode f, segs := w.segs ++ [v.rebuilt opts c] } := rfl
      rw [bind_ok (onDisk_ok made), bind_ok allocated]
      have later : ∀ u ∈ vs, u.Left opts (w.disk.setFile v.indexInode f) := by
        intro u inside
        refine (left u (mem_cons_of_mem _ inside)).frame rfl (by simp) ?_ ?_
        · exact Disk.file_setFile_ne _ (away u inside).indexLog
        · exact Disk.file_setFile_ne _ (away u inside).index
      rcases @ih ⟨w.disk.setFile v.indexInode f, w.segs ++ [v.rebuilt opts c], w.log⟩
          quiet later rest with
        ⟨w', opened, kept, views, count⟩ | ⟨⟨u, inside, full⟩, why, w', failed⟩
      · refine .inl ⟨w', ?_, ⟨kept.log, kept.quiet, kept.names, ?_, ?_, ?_⟩, ?_, ?_⟩
        · rw [bind_ok opened]
          simp [View.reref]
        · simpa using kept.length
        · exact (prefix_append _ _).trans kept.segs
        · intro i other
          rw [kept.other i fun u inside => other u (mem_cons_of_mem _ inside)]
          exact Disk.file_setFile_ne _ (other v (mem_cons_self ..))
        · intro u present
          rcases mem_cons.mp present with rfl | behind
          · exact kept.reopened reopened (fun u inside => (away u inside).logIndex.symm)
              fun u inside => (away u inside).index.symm
          · exact views u (by simpa using behind)
        · simp only [length_append, length_singleton] at count
          rw [count, length_cons]
          omega
      · exact .inr ⟨⟨u, mem_cons_of_mem _ inside, full⟩, why, w', bind_error failed⟩
    · exact .inr ⟨⟨v, mem_cons_self .., full⟩, why, _, bind_error (onDisk_error failed)⟩

theorem Closed.left {w' : World} (closed : Closed vs w w')
    (files : Files opts vs w) (fits : ∀ v ∈ vs, v.chunk.base < 2 ^ 63) :
    ∀ v ∈ vs, v.Left opts w'.disk := by
  intro v inside
  have opened := files.opened v inside
  have index := closed.index v inside
  have away : ∀ u ∈ vs, u.indexInode ≠ v.logInode := by
    intro u present
    by_cases same : u = v
    · rw [same]
      exact opened.apart
    · exact (files.apart.forall present inside same).indexLog
  obtain ⟨us, ks, rfl⟩ := append_of_mem inside
  obtain ⟨log, named⟩ := files.named
  refine ⟨?_, ?_, ?_, ?_, ?_, ?_, fun empty => ?_, opened.apart, fits v inside⟩
  · unfold Disk.lookup
    rw [closed.names]
    exact log
  · unfold Disk.lookup
    rw [closed.names]
    exact named
  · rw [closed.other _ away]
    exact opened.stored
  · rw [closed.length]
    exact opened.inside
  · rw [closed.length]
    exact opened.indexInside
  · rw [index]
    exact opened.saneIndex
  · rw [index, opened.blank empty, empty]
    rfl

namespace View

variable (first : Nat)

@[simp] theorem map_chunk_reref (vs : List View) :
    (reref first vs).map View.chunk = vs.map View.chunk := by
  induction vs generalizing first with
  | nil => rfl
  | cons v vs ih => simp only [reref, map_cons, ih]

@[simp] theorem flatMap_names_reref (opts : Options) (first : Nat) (vs : List View) :
    (reref first vs).flatMap (View.names opts) = vs.flatMap (View.names opts) := by
  induction vs generalizing first with
  | nil => rfl
  | cons v vs ih =>
    rw [reref, flatMap_cons, flatMap_cons, ih]
    rfl

theorem le_ref_of_mem_reref {first : Nat} (inside : v ∈ reref first vs) :
    first ≤ v.ref ∧ ∃ u ∈ vs, v = { u with ref := v.ref } := by
  induction vs generalizing first with
  | nil => cases inside
  | cons u vs ih =>
    rcases mem_cons.mp inside with rfl | later
    · exact ⟨Nat.le_refl _, u, mem_cons_self .., rfl⟩
    · obtain ⟨bound, x, present, same⟩ := ih later
      exact ⟨by omega, x, mem_cons_of_mem _ present, same⟩

/-- New objects for segments that share no files share nothing either. -/
theorem apart_reref {first : Nat} (apart : vs.Pairwise View.Apart) :
    (reref first vs).Pairwise View.Apart := by
  induction vs generalizing first with
  | nil => exact Pairwise.nil
  | cons v vs ih =>
    obtain ⟨away, rest⟩ := pairwise_cons.mp apart
    refine pairwise_cons.mpr ⟨fun u inside => ?_, ih rest⟩
    obtain ⟨bound, x, present, same⟩ := le_ref_of_mem_reref inside
    have others := away x present
    have differ : first ≠ u.ref := by omega
    rw [same]
    exact ⟨differ, others.base, others.log, others.index, others.logIndex, others.indexLog⟩

theorem getElem?_reref (vs : List View) (i : Nat) :
    (reref first vs)[i]? = vs[i]?.map fun v => { v with ref := first + i } := by
  induction vs generalizing first i with
  | nil => rfl
  | cons v vs ih =>
    cases i with
    | zero => rfl
    | succ i =>
      rw [reref, getElem?_cons_succ, getElem?_cons_succ, ih, Nat.add_right_comm,
        Nat.add_assoc]

theorem reref_append (us vs : List View) :
    reref first (us ++ vs) = reref first us ++ reref (first + us.length) vs := by
  induction us generalizing first with
  | nil => rfl
  | cons u us ih =>
    rw [cons_append, reref, ih, reref, length_cons, cons_append,
      Nat.add_right_comm, Nat.add_assoc]

theorem reref_append_singleton (vs : List View) (v : View) :
    reref first (vs ++ [v]) = reref first vs ++ [{ v with ref := first + vs.length }] :=
  reref_append first vs [v]

end View

/-- Close the log and call `New` on its directory again. -/
def restart (opts : Options) : Call World Unit := do
  close
  new opts

theorem close_run (w : World) : close.run w = (closeAll w.log.segments).run w := by
  unfold close
  rw [bind_ok (getLog_run w)]

theorem new_ok {w' : World} {refs : List Nat} (named : opts.path ≠ "")
    (quiet : w.disk.script = []) (some : refs ≠ [])
    (opened : (openFiles opts.resolved
      (sortNames ((w.disk.listing opts.path).map fun entry => entry.1.base))).run
        (w.unfilled opts) = .ok refs w') :
    (new opts).run w = .ok () { w' with
      log := ⟨opts.resolved, newCleaner opts.resolved, refs, refs.getLastD 0⟩ } := by
  rw [new_start named quiet, bind_ok opened]
  simp only [some, ↓reduceIte]
  rfl

/-- What a restart makes of the segments of a running log. -/
structure Restarted (opts : Options) (vs : List View) (w : World) : Prop where
  log : w.log = ⟨opts, newCleaner opts, vs.map View.ref, (vs.map View.ref).getLastD 0⟩
  quiet : w.disk.script = []
  listing : w.disk.listing opts.path = vs.flatMap (View.names opts)
  opened : ∀ v ∈ vs, v.Reopened opts w
  apart : vs.Pairwise View.Apart

theorem new_views {opts : Options} {vs : List View} {w : World} (named : opts.path ≠ "")
    (quiet : w.disk.script = []) (some : vs ≠ [])
    (listing : w.disk.listing opts.path = vs.flatMap (View.names opts.resolved))
    (left : ∀ v ∈ vs, v.Left opts.resolved w.disk) (apart : vs.Pairwise View.Apart)
    (bases : vs.Pairwise fun u v => u.chunk.base < v.chunk.base) :
    (∃ w', (new opts).run w = .ok () w' ∧
      Restarted opts.resolved (View.reref w.segs.length vs) w') ∨
    ((∃ v ∈ vs, indexBytes < v.chunk.found.1.length * entryWidth) ∧
      ∃ why w', (new opts).run w = .error why w') := by
  have sorted := sortNames_of_perm (names_perm_sortedNames opts.resolved vs)
    (sortedNames_increasing bases fun v inside => Nat.lt_trans (left v inside).fits (by decide))
  rw [← listing] at sorted
  rcases openFiles_views
      (w := (w.unfilled opts)) quiet left apart with
    ⟨w', opened, kept, views, -⟩ | ⟨full, why, w', failed⟩
  · rw [← sorted] at opened
    refine .inl ⟨_, new_ok named quiet ?_ opened, rfl, kept.quiet, ?_, ?_,
      View.apart_reref apart⟩
    · obtain ⟨v, vs, rfl⟩ := exists_cons_of_ne_nil some
      simp [View.reref]
    · rw [View.flatMap_names_reref, ← listing, Disk.listing, kept.names, Options.path_resolved]
      rfl
    · intro v inside
      exact (views v inside).frame (Nat.le_refl _) rfl rfl rfl
  · refine .inr ⟨full, why, w', ?_⟩
    rw [new_start named quiet, sorted, bind_error failed]

/-- A restart opens the segments of a running log again, in the same order. -/
theorem LogRep.restart_run {cleaner : Cleaner} {older : List View} {active : View}
    (rep : LogRep opts.resolved cleaner none older active w) (named : opts.path ≠ "")
    (bases : (older ++ [active]).Pairwise fun u v => u.chunk.base < v.chunk.base)
    (fits : ∀ v ∈ older ++ [active], v.chunk.base < 2 ^ 63) :
    (∃ first w', (restart opts).run w = .ok () w' ∧
      Restarted opts.resolved (View.reref first (older ++ [active])) w') ∨
    ((∃ v ∈ older ++ [active], indexBytes < v.chunk.found.1.length * entryWidth) ∧
      ∃ why w', (restart opts).run w = .error why w') := by
  obtain ⟨w₁, done, closed⟩ := closeAll_views rep.files.quiet
    (fun v inside => (rep.files.opened v inside).object)
    (fun v inside => (rep.files.opened v inside).indexInside) rep.files.apart
  have shut : close.run w = .ok () w₁ := by
    rw [close_run, rep.segments]
    exact done
  have listing : w₁.disk.listing opts.path = (older ++ [active]).flatMap
      (View.names opts.resolved) := by
    rw [Disk.listing, closed.names, ← rep.files.listing, Options.path_resolved]
    rfl
  unfold restart
  rw [bind_ok shut]
  rcases new_views named closed.quiet (by simp) listing
      (closed.left rep.files fits) rep.files.apart bases with
    ⟨w', made, restarted⟩ | failed
  · exact .inl ⟨_, w', made, restarted⟩
  · exact .inr failed

end Jocko.Commitlog
