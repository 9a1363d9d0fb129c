import Jocko.Commitlog.Representation

namespace Jocko.Commitlog

open Go World List

/-- Segment objects and the sizes that the cleaner reads from them. -/
def Sizes (w : World) : List Nat → List Nat → Prop :=
  List.Forall₂ fun r size => ∃ s, w.segs[r]? = some s ∧ s.position = size

variable {w : World} {retention : Int} {sizes : List Nat} {s : Segment}

namespace DeleteCleaner

/-- The first loop only reads; it stops where `keepCount` does. -/
theorem keep_run {w : World} {rs sizes : List Nat} (sized : Sizes w rs sizes)
    (retention total : Int) (kept : List Nat) : (keep retention total kept rs).run w =
      .ok ((rs.take (keepCount retention total sizes)).reverse ++ kept,
        rs.drop (keepCount retention total sizes)) w := by
  induction sized generalizing total kept with
  | nil => rfl
  | @cons r size rs sizes head _ ih =>
    obtain ⟨s, object, position⟩ := head
    rw [keep, bind_ok (seg_ok object), position]
    by_cases beyond : retention < total + size
    · simp [beyond, keepCount]
    · simp only [beyond, ↓reduceIte, keepCount, ih, take_succ_cons, reverse_cons,
        append_assoc, singleton_append, drop_succ_cons]

/-- The second loop, over segments that all have their files. -/
theorem deleteAll_run {opts : Options} {ds ks : List View}
    (files : Files opts (ds.reverse ++ ks) w) :
    ∃ w', (deleteAll (ds.map View.ref)).run w = .ok () w' ∧ w'.log = w.log ∧
      (∀ r, r ∉ ds.map View.ref → w'.segs[r]? = w.segs[r]?) ∧ Files opts ks w' := by
  induction ds generalizing w with
  | nil => exact ⟨w, rfl, rfl, fun _ _ => rfl, by simpa using files⟩
  | cons d ds ih =>
    rw [reverse_cons, append_assoc, singleton_append] at files
    obtain ⟨w₁, first, log₁, frame₁, files₁⟩ := files.delete
    obtain ⟨w₂, rest, log₂, frame₂, files₂⟩ := ih files₁
    refine ⟨w₂, ?_, log₂.trans log₁, fun r other => ?_, files₂⟩
    · rw [map_cons, deleteAll, bind_ok first]
      exact rest
    · simp only [map_cons, mem_cons, not_or] at other
      rw [frame₂ r other.2, frame₁ r other.1]

section

variable {older : List Nat} {last : Nat} (bounded : retention ≠ -1)
  (object : w.segs[last]? = some s)
include bounded object

/-- What is kept and what is handed to the second loop. -/
theorem clean_eq (sized : Sizes w older.reverse sizes) :
    (clean retention (older ++ [last])).run w = (do
      deleteAll (older.reverse.drop (keepCount retention s.position sizes))
      return (older.reverse.take (keepCount retention s.position sizes)).reverse ++ [last] :
        Call World (List Nat)).run w := by
  have reversed : (older ++ [last]).reverse = last :: older.reverse := by simp
  simp only [clean, reversed, bounded, or_false, append_eq_nil_iff, cons_ne_self,
    and_false, ↓reduceIte]
  rw [bind_ok (seg_ok object), bind_ok (keep_run sized retention s.position [last])]

theorem clean_start (empty : s.position = 0) (sized : Sizes w older.reverse sizes) :
    (clean retention (older ++ [last])).run w = (do
      deleteAll (older.reverse.drop (keepCount retention 0 sizes))
      return (older.reverse.take (keepCount retention 0 sizes)).reverse ++ [last] :
        Call World (List Nat)).run w := by
  rw [clean_eq bounded object sized, empty]

end

end DeleteCleaner

/-- Sizes behind the place where the count stops do not matter. -/
theorem keepCount_append {total : Int} (more : List Nat)
    (stops : keepCount retention total sizes ≠ sizes.length) :
    keepCount retention total (sizes ++ more) = keepCount retention total sizes := by
  induction sizes generalizing total with
  | nil => exact absurd rfl stops
  | cons size sizes ih =>
    by_cases beyond : retention < total + size
    · simp [keepCount, beyond]
    · simp only [keepCount, beyond, ↓reduceIte, length_cons, ne_eq, Nat.add_right_cancel_iff,
        cons_append] at stops ⊢
      exact ih stops

/-- Behind segments that are all kept, one that holds nothing is kept too. -/
theorem keepCount_concat_zero {total : Int} (inside : total ≤ retention ∨ sizes ≠ [])
    (all : keepCount retention total sizes = sizes.length) :
    keepCount retention total (sizes ++ [0]) = sizes.length + 1 := by
  induction sizes generalizing total with
  | nil =>
    have kept : ¬ retention < total + ((0 : Nat) : Int) := by
      rcases inside with le | none
      · omega
      · exact absurd rfl none
    simp only [nil_append, keepCount, kept, ↓reduceIte, length_nil]
  | cons size sizes ih =>
    by_cases beyond : retention < total + size
    · simp [keepCount, beyond] at all
    · simp only [keepCount, beyond, ↓reduceIte, length_cons, Nat.add_right_cancel_iff,
        cons_append] at all ⊢
      exact ih (Or.inl (by omega)) all

namespace Files

variable {opts : Options} {vs : List View} {v : View} {w : World}

theorem sizes_of_open (opened : ∀ v ∈ vs, v.Open opts w) :
    Sizes w (vs.map View.ref).reverse ((vs.map View.chunk).reverse.map Chunk.size) := by
  rw [← map_reverse, ← map_reverse, map_map]
  refine forall₂_map_left_iff.mpr (forall₂_map_right_iff.mpr ?_)
  refine forall₂_same.mpr fun v inside => ?_
  obtain ⟨c, object⟩ := (opened v (mem_reverse.mp inside)).object
  exact ⟨_, object, rfl⟩

/-- The segments that the cleaner leaves in front of a new one. -/
def newest (retention : Int) (vs : List View) : List View :=
  vs.drop (vs.length - retained retention (vs.map View.chunk))

/-- The cleaner on a log that starts with an empty segment: the newest ones stay. -/
theorem clean_run (files : Files opts (vs ++ [v]) w) (empty : v.chunk.recs = []) (retention : Int) :
    ∃ w', (DeleteCleaner.clean retention ((vs ++ [v]).map View.ref)).run w =
        .ok ((newest retention vs ++ [v]).map View.ref) w' ∧
      w'.log = w.log ∧ Files opts (newest retention vs ++ [v]) w' := by
  unfold newest
  by_cases unbounded : retention = -1
  · have all : vs.length - retained retention (vs.map View.chunk) = 0 := by
      simp [retained, unbounded]
    refine ⟨w, ?_, rfl, by rwa [all]⟩
    simp [DeleteCleaner.clean, unbounded, retained]
  · obtain ⟨c, object⟩ := (files.opened v last_mem).object
    have start := DeleteCleaner.clean_start unbounded object (by simp [Chunk.size, empty])
      (sizes_of_open fun u present => files.opened u (mem_append_left _ present))
    have count : retained retention (vs.map View.chunk) =
        keepCount retention 0 ((vs.map View.chunk).reverse.map Chunk.size) := by
      simp only [retained, unbounded, ↓reduceIte]
    rw [← count, drop_reverse, take_reverse, reverse_reverse, length_map,
      ← map_take, ← map_drop, ← map_reverse] at start
    have parted : Files opts ((vs.take (vs.length - retained retention
        (vs.map View.chunk))).reverse.reverse ++ (vs.drop (vs.length - retained retention
          (vs.map View.chunk)) ++ [v])) w := by
      rwa [reverse_reverse, ← append_assoc, take_append_drop]
    obtain ⟨w', deleted, log, -, files'⟩ := DeleteCleaner.deleteAll_run parted
    refine ⟨w', ?_, log, files'⟩
    rw [map_append, map_cons, map_nil, start, bind_ok deleted]
    simp

end Files

namespace DeleteCleaner

theorem deleteAll_append (xs ys : List Nat) (w : World) :
    (deleteAll (xs ++ ys)).run w = (deleteAll xs >>= fun _ => deleteAll ys).run w := by
  induction xs generalizing w with
  | nil => rfl
  | cons x xs ih =>
    rcases first : (Segment.delete x).run w with ⟨⟨⟩, w'⟩ | ⟨why, w'⟩
    · have both : (deleteAll (x :: xs)).run w = (deleteAll xs).run w' := by
        rw [deleteAll, bind_ok first]
      rw [cons_append, deleteAll, bind_ok first, ih]
      simp only [bind, both]
    · have both : (deleteAll (x :: xs)).run w = .error why w' := by
        rw [deleteAll, bind_error first]
      rw [cons_append, deleteAll, bind_error first, bind_error both]

end DeleteCleaner

theorem Segment.delete_missing {r : Nat} (quiet : w.disk.script = [])
    (object : w.segs[r]? = some s) (logLive : s.log.closed = false)
    (indexLive : s.index.file.closed = false) (missing : w.disk.lookup s.log.path = none) :
    ∃ w', (Segment.delete r).run w = .error (.err .notExist) w' := by
  have inside : r < w.segs.length := (List.getElem?_eq_some_iff.mp object).1
  have removed := Disk.remove_missing (d := w.disk.setFile s.index.file.inode
    ((w.disk.file s.index.file.inode).truncate s.index.position)) quiet missing
  unfold Segment.delete
  rw [bind_ok (Segment.close_live object logLive indexLive quiet),
    bind_ok (seg_ok (getElem?_set_self inside)), bind_error (onDisk_error removed)]
  exact ⟨_, rfl⟩

/-- A segment object that holds nothing and has the files of a segment at offset 0. -/
def Phantom (opts : Options) (v : View) (g : Nat) (w : World) : Prop :=
  v.chunk.base = 0 ∧ ∃ c, w.segs[g]? =
    some (Segment.opened opts.path 0 opts.maxSegmentBytes [] v.logInode v.indexInode c 0 0)

namespace Files

variable {opts : Options} {vs : List View} {u v : View} {g : Nat} {w : World}

/-- The sizes that the cleaner meets on its way to a phantom. -/
theorem sizes_phantom (opened : ∀ v ∈ u :: vs, v.Open opts w) (phantom : Phantom opts u g w) :
    Sizes w (g :: (u :: vs).map View.ref).reverse
      (((u :: vs).map View.chunk).reverse.map Chunk.size ++ [0]) := by
  obtain ⟨-, c, object⟩ := phantom
  rw [reverse_cons]
  exact rel_append (sizes_of_open opened)
    (Forall₂.cons ⟨_, object, rfl⟩ Forall₂.nil)

theorem clean_phantom_all (files : Files opts (u :: vs ++ [v]) w) (phantom : Phantom opts u g w)
    (empty : v.chunk.recs = [])
    (all : retained retention ((u :: vs).map View.chunk) = (u :: vs).length) :
    (DeleteCleaner.clean retention (g :: (u :: vs ++ [v]).map View.ref)).run w =
      .ok (g :: (u :: vs ++ [v]).map View.ref) w := by
  by_cases unbounded : retention = -1
  · simp [DeleteCleaner.clean, unbounded]
  · obtain ⟨c, object⟩ := (files.opened v last_mem).object
    have count : keepCount retention 0 (((u :: vs).map View.chunk).reverse.map Chunk.size) =
        (((u :: vs).map View.chunk).reverse.map Chunk.size).length := by
      simpa [retained, unbounded] using all
    have start := DeleteCleaner.clean_start unbounded object (by simp [Chunk.size, empty])
      (sizes_phantom (fun u present => files.opened u (mem_append_left _ present)) phantom)
    rw [keepCount_concat_zero (Or.inr (by simp)) count] at start
    rw [map_append, ← cons_append, map_singleton, start,
      drop_of_length_le (by simp), take_of_length_le (by simp), reverse_reverse]
    rfl

/-- A phantom cannot be deleted behind the segment whose files it has. -/
theorem clean_phantom_some (files : Files opts (u :: vs ++ [v]) w) (phantom : Phantom opts u g w)
    (other : ∀ x ∈ u :: vs ++ [v], x.ref ≠ g) (empty : v.chunk.recs = [])
    (some : retained retention ((u :: vs).map View.chunk) ≠ (u :: vs).length) :
    ∃ w', (DeleteCleaner.clean retention (g :: (u :: vs ++ [v]).map View.ref)).run w =
      .error (.err .notExist) w' := by
  have unbounded : retention ≠ -1 := by
    intro whole
    exact some (by simp [retained, whole])
  obtain ⟨c, object⟩ := (files.opened v last_mem).object
  have count : retained retention ((u :: vs).map View.chunk) =
      keepCount retention 0 (((u :: vs).map View.chunk).reverse.map Chunk.size) := by
    simp only [retained, unbounded, ↓reduceIte]
  have fewer : retained retention ((u :: vs).map View.chunk) < (u :: vs).length := by
    have := retained_le retention ((u :: vs).map View.chunk)
    simp only [length_map] at this
    omega
  have start := DeleteCleaner.clean_start unbounded object (by simp [Chunk.size, empty])
    (sizes_phantom (fun u present => files.opened u (mem_append_left _ present)) phantom)
  rw [keepCount_append _ (by rw [← count]; simpa using some), ← count, reverse_cons,
    drop_append_of_le_length (by rw [length_reverse, length_map]; omega),
    drop_reverse, length_map,
    ← map_take, ← map_reverse] at start
  have parted : Files opts (((u :: vs).take ((u :: vs).length - retained retention
      ((u :: vs).map View.chunk))).reverse.reverse ++ ((u :: vs).drop ((u :: vs).length -
        retained retention ((u :: vs).map View.chunk)) ++ [v])) w := by
    rwa [reverse_reverse, ← append_assoc, take_append_drop]
  obtain ⟨w', deleted, -, frame, files'⟩ := DeleteCleaner.deleteAll_run parted
  obtain ⟨base, cursor, ghost⟩ := phantom
  have still : w'.segs[g]? = w.segs[g]? := by
    refine frame g fun present => ?_
    obtain ⟨x, inside, same⟩ := mem_map.mp present
    exact other x (mem_append_left _ (mem_of_mem_take (mem_reverse.mp inside))) same
  -- What is left has other base offsets, so the name of the phantom's log is gone.
  have missing : w'.disk.lookup (logPath opts.path ((0 : Nat) : Int) []) = none := by
    rw [(files'.lookup _).1, Option.map_eq_none_iff, find?_eq_none]
    intro x inside
    have behind : x ∈ vs ++ [v] := by
      rcases mem_append.mp inside with kept | last
      · obtain ⟨k, more⟩ := Nat.exists_eq_succ_of_ne_zero (Nat.sub_ne_zero_of_lt fewer)
        rw [more, drop_succ_cons] at kept
        exact mem_append_left _ (mem_of_mem_drop kept)
      · exact mem_append_right _ last
    have apart := (pairwise_cons.mp files.apart).1 x behind
    simpa using fun zero => apart.base (base.trans zero.symm)
  obtain ⟨w'', stuck⟩ := Segment.delete_missing files'.quiet (still.trans ghost) rfl rfl missing
  refine ⟨w'', ?_⟩
  have failed : (DeleteCleaner.deleteAll [g]).run w' = .error (.err .notExist) w'' := by
    rw [DeleteCleaner.deleteAll, bind_error stuck]
  rw [map_append, ← cons_append, map_singleton, start]
  refine bind_error ?_
  rw [DeleteCleaner.deleteAll_append, bind_ok deleted]
  exact failed

end Files

end Jocko.Commitlog
