import Jocko.Commitlog.Recovery

namespace Jocko.Commitlog

open Go World Scripted List

/-- The disk of a machine that went down in a call, `k` system calls having gone through. -/
def crashedDisk {α : Type} (call : Call World α) (k : Nat) (w : World) : Disk :=
  put (call.run (put w (List.replicate k .done ++ [.crash]))).state.disk []

variable {α : Type} {w : World}

theorem crashedDisk_cases {call : Call World α} {w' : World} {before : List World}
    {value : α} (traced : call.Traced w before value w') (k : Nat) :
    (∃ t, before[k]? = some t ∧ crashedDisk call k w = put t.disk []) ∨
      (before.length ≤ k ∧ crashedDisk call k w = put w'.disk []) := by
  by_cases early : k < before.length
  · have here := getElem?_eq_getElem early
    refine .inl ⟨_, here, ?_⟩
    rw [crashedDisk, traced.crash k _ here []]
    rfl
  · obtain ⟨j, rfl⟩ := Nat.exists_eq_add_of_le (Nat.not_lt.mp early)
    refine .inr ⟨Nat.le_add_right _ _, ?_⟩
    rw [crashedDisk, replicate_add, append_assoc, traced.done]
    rfl

/-- How many of the segments before the last one `Clean` deletes. -/
def dropCount (retention : Int) (older : List Chunk) (last : Chunk) : Nat :=
  if retention = -1 then 0
  else older.length - keepCount retention last.size (older.reverse.map Chunk.size)

/-- The names in all other directories lead where they led. -/
def Outside (path : String) (d d' : Disk) : Prop :=
  ∀ name : FileName, name.dir ≠ path → d'.lookup name = d.lookup name

variable {d : Disk}

theorem Outside.unlink {path : String} {d' : Disk} (outside : Outside path d d') (name : FileName)
    (here : name.dir = path) : Outside path d (d'.unlink name) := by
  intro other away
  rw [Disk.lookup_unlink_ne fun equal => away (by rw [equal, here])]
  exact outside other away

/-- The files of these segments are all there is in the directory, and on the disk `d₀` there
were the same files in all other directories. -/
structure Remains (opts : Options) (vs : List View) (d₀ d : Disk) : Prop where
  quiet : d.script = []
  outside : Outside opts.path d₀ d
  listing : d.listing opts.path = vs.flatMap (View.names opts)
  left : ∀ v ∈ vs, v.Left opts d

/-- Open segments whose indexes pass the check of the next `New`. -/
structure Housed (opts : Options) (vs : List View) (w : World) : Prop where
  files : Files opts vs w
  fits : ∀ v ∈ vs, v.chunk.base < 2 ^ 63
  sane : ∀ v ∈ vs, SaneIndex (w.disk.file v.indexInode)

variable {d₀ : Disk}

namespace Housed

variable {opts : Options} {vs us ks : List View} {v : View} {w : World}

theorem remains (housed : Housed opts vs w) (outside : Outside opts.path d₀ w.disk) :
    Remains opts vs d₀ w.disk where
  quiet := housed.files.quiet
  outside := outside
  listing := housed.files.listing
  left v inside := by
    have opened := housed.files.opened v inside
    obtain ⟨us, ks, rfl⟩ := append_of_mem inside
    obtain ⟨log, index⟩ := housed.files.named
    refine ⟨log, index, opened.stored, opened.inside, opened.indexInside, housed.sane v inside,
      fun empty => ?_, opened.apart, housed.fits v inside⟩
    rw [opened.blank empty]

/-- The index of one segment has been cut to its entries. -/
theorem remains_closed (housed : Housed opts (us ++ v :: ks) w)
    (outside : Outside opts.path d₀ w.disk) :
    Remains opts (us ++ v :: ks) d₀ (w.disk.setFile v.indexInode
      ((w.disk.file v.indexInode).truncate (v.chunk.recs.length * entryWidth))) where
  quiet := housed.files.quiet
  outside := outside
  listing := housed.files.listing
  left u inside := by
    have left := (housed.remains outside).left u inside
    have opened := housed.files.opened v (by simp)
    by_cases same : u = v
    · subst same
      refine ⟨left.log, left.index, ?_, ?_, ?_, ?_, fun empty => ?_, left.apart, left.fits⟩
      · rw [Disk.file_setFile_ne _ left.apart]
        exact left.stored
      · simpa using left.inside
      · simpa using left.indexInside
      · rw [Disk.file_setFile_same _ left.indexInside]
        exact opened.saneIndex
      · rw [Disk.file_setFile_same _ left.indexInside, opened.blank empty, empty]
        rfl
    · have apart := housed.files.apart.forall (by simp) inside (Ne.symm same)
      exact left.frame rfl (by simp) (Disk.file_setFile_ne _ apart.indexLog)
        (Disk.file_setFile_ne _ apart.index)

/-- The states in which a crash can meet `Delete`: nothing is removed yet, or the log file and
not the index. -/
theorem delete_traced (housed : Housed opts (us ++ v :: ks) w)
    (outside : Outside opts.path d₀ w.disk) :
    ∃ before w', (Segment.delete v.ref).Traced w before () w' ∧ before.length = 7 ∧
      Housed opts (us ++ ks) w' ∧ Outside opts.path d₀ w'.disk ∧
      (∀ k t, k < 6 → before[k]? = some t → Remains opts (us ++ v :: ks) d₀ (put t.disk [])) ∧
      ∀ t, before[6]? = some t → ∃ d, Remains opts (us ++ v :: ks) d₀ d ∧
        put t.disk [] = d.unlink (logPath opts.path v.chunk.base []) := by
  have member : v ∈ us ++ v :: ks := by simp
  have opened := housed.files.opened v member
  obtain ⟨c, object⟩ := opened.object
  obtain ⟨logNamed, indexNamed⟩ := housed.files.named
  have traced := Segment.delete_traced object rfl rfl logNamed indexNamed
    (logPath_ne_indexPath _ _ _).symm
  have deleted := Segment.delete_live object rfl rfl logNamed indexNamed
    (logPath_ne_indexPath _ _ _).symm housed.files.quiet
  obtain ⟨w', deleted', -, -, files⟩ := housed.files.delete
  obtain ⟨-, rfl⟩ := Result.ok.inj (deleted'.symm.trans deleted)
  have start : put w.disk [] = w.disk := Disk.put_quiet housed.files.quiet
  have shut : put ((v.segment opts c).closedIn v.ref w).disk [] =
      ((v.segment opts c).closedIn v.ref w).disk := Disk.put_quiet housed.files.quiet
  have whole : Remains opts (us ++ v :: ks) d₀ (put w.disk []) := by
    rw [start]
    exact housed.remains outside
  have closed : Remains opts (us ++ v :: ks) d₀
      (put ((v.segment opts c).closedIn v.ref w).disk []) := by
    rw [shut]
    exact housed.remains_closed outside
  refine ⟨_, _, traced, rfl, ⟨files, fun u inside => ?_, fun u inside => ?_⟩, ?_,
    fun k t early here => ?_, fun t here => ?_⟩
  · exact housed.fits u (housed.files.apart_middle inside).1
  · obtain ⟨present, apart⟩ := housed.files.apart_middle inside
    have kept := housed.sane u present
    rw [← Disk.file_setFile_ne _ apart.index.symm] at kept
    exact kept
  · exact (outside.unlink (v.segment opts c).log.path rfl).unlink
      (v.segment opts c).index.file.path rfl
  · rcases k with _ | _ | _ | _ | _ | _ | k
    · cases here; exact whole
    · cases here; exact whole
    · cases here; exact whole
    · cases here; exact whole
    · cases here; exact closed
    · cases here; exact closed
    · omega
  · cases here
    exact ⟨_, housed.remains_closed outside, Disk.put_quiet housed.files.quiet⟩

/-- The states in which a crash can meet the deletion of several segments, each of which makes
seven system calls: the segments whose turn is over are gone. -/
theorem deleteAll_traced {ds ks : List View}
    (housed : Housed opts (ds.reverse ++ ks) w) (outside : Outside opts.path d₀ w.disk) :
    ∃ before w', (DeleteCleaner.deleteAll (ds.map View.ref)).Traced w before () w' ∧
      before.length = 7 * ds.length ∧ Housed opts ks w' ∧ Outside opts.path d₀ w'.disk ∧
      ∀ k t, before[k]? = some t →
        (k % 7 < 6 → Remains opts ((ds.drop (k / 7)).reverse ++ ks) d₀ (put t.disk [])) ∧
        (k % 7 = 6 → ∃ v d, ds[k / 7]? = some v ∧
          Remains opts ((ds.drop (k / 7)).reverse ++ ks) d₀ d ∧
          put t.disk [] = d.unlink (logPath opts.path v.chunk.base [])) := by
  induction ds generalizing w with
  | nil => exact ⟨[], w, .pure _ _, rfl, by simpa using housed, outside, by simp⟩
  | cons v ds ih =>
    rw [reverse_cons, append_assoc, singleton_append] at housed
    obtain ⟨before, w₁, first, seven, housed₁, outside₁, early, late⟩ :=
      housed.delete_traced outside
    obtain ⟨before', w', rest, count, housed', outside', states⟩ := ih housed₁ outside₁
    refine ⟨before ++ before', w', first.bind rest, ?_, housed', outside', fun k t here => ?_⟩
    · rw [length_append, seven, count, length_cons]
      omega
    · by_cases now : k < 7
      · have none : k / 7 = 0 := Nat.div_eq_of_lt now
        rw [getElem?_append_left (by omega)] at here
        rw [Nat.mod_eq_of_lt now, none, drop_zero, reverse_cons, append_assoc,
          singleton_append]
        refine ⟨fun unremoved => early k t unremoved here, fun removed => ?_⟩
        subst removed
        obtain ⟨d, remains, cut⟩ := late t here
        exact ⟨v, d, rfl, remains, cut⟩
      · obtain ⟨j, rfl⟩ := Nat.exists_eq_add_of_le (Nat.not_lt.mp now)
        have turn : (7 + j) / 7 = j / 7 + 1 := by omega
        have phase : (7 + j) % 7 = j % 7 := by omega
        rw [getElem?_append_right (by omega), seven, Nat.add_sub_cancel_left] at here
        rw [turn, phase, drop_succ_cons, getElem?_cons_succ]
        exact states j t here

/-- The states in which a crash can meet `Clean`: the newest of the segments to delete are
gone already, the oldest not yet. -/
theorem clean_traced {last : View} (housed : Housed opts (vs ++ [last]) w) (retention : Int) :
    let dropped := dropCount retention (vs.map View.chunk) last.chunk
    ∃ before w', (DeleteCleaner.clean retention ((vs ++ [last]).map View.ref)).Traced w
        before ((vs.drop dropped ++ [last]).map View.ref) w' ∧
      before.length = 7 * dropped ∧ Housed opts (vs.drop dropped ++ [last]) w' ∧
      Outside opts.path w.disk w'.disk ∧
      ∀ k t, before[k]? = some t →
        (k % 7 < 6 → Remains opts (vs.take (dropped - k / 7) ++ (vs.drop dropped ++ [last])) w.disk
          (put t.disk [])) ∧
        (k % 7 = 6 → ∃ v d, vs[dropped - 1 - k / 7]? = some v ∧
          Remains opts (vs.take (dropped - k / 7) ++ (vs.drop dropped ++ [last])) w.disk d ∧
          put t.disk [] = d.unlink (logPath opts.path v.chunk.base [])) := by
  intro dropped
  by_cases unbounded : retention = -1
  · have none : dropped = 0 := by simp [dropped, dropCount, unbounded]
    rw [none]
    refine ⟨[], w, ?_, rfl, housed, fun _ _ => rfl, by simp⟩
    simp only [DeleteCleaner.clean, unbounded, or_true, ↓reduceIte]
    exact .pure _ _
  · obtain ⟨c, object⟩ := (housed.files.opened last (by simp)).object
    have sizes : Sizes w (vs.map View.ref).reverse ((vs.map View.chunk).reverse.map Chunk.size) :=
      Files.sizes_of_open fun u present => housed.files.opened u (mem_append_left _ present)
    have count : vs.length - dropped =
        keepCount retention last.chunk.size ((vs.map View.chunk).reverse.map Chunk.size) := by
      have bound := keepCount_le retention last.chunk.size
        ((vs.map View.chunk).reverse.map Chunk.size)
      simp only [length_map, length_reverse] at bound
      simp only [dropped, dropCount, unbounded, ↓reduceIte, length_map]
      omega
    have few : dropped ≤ vs.length := by
      simp only [dropped, dropCount, unbounded, ↓reduceIte, length_map]
      omega
    have parted : Housed opts ((vs.take dropped).reverse.reverse ++ (vs.drop dropped ++ [last])) w := by
      rw [reverse_reverse, ← append_assoc, take_append_drop]
      exact housed
    have untouched : Outside opts.path w.disk w.disk := fun _ _ => rfl
    obtain ⟨before, w', deleted, length, housed', outside, states⟩ :=
      parted.deleteAll_traced untouched
    have total : before.length = 7 * dropped := by
      rw [length, length_reverse, length_take, Nat.min_eq_left few]
    refine ⟨before, w', ?_, total, housed', outside, fun k t here => ?_⟩
    · have shape : ((vs ++ [last]).map View.ref).reverse = last.ref :: (vs.map View.ref).reverse := by
        simp
      have kept : (DeleteCleaner.keep retention (last.segment opts c).position [last.ref]
          (vs.map View.ref).reverse).Traced w []
          ((vs.drop dropped ++ [last]).map View.ref, (vs.take dropped).reverse.map View.ref) w := by
        refine .silent fun rest => ?_
        have looked := @DeleteCleaner.keep_run (put w rest) _ _ sizes retention
          (last.chunk.size : Int) [last.ref]
        rw [← count, take_reverse, drop_reverse, reverse_reverse, length_map,
          Nat.sub_sub_self few] at looked
        rw [map_append, map_drop, map_reverse, map_take]
        exact looked
      unfold DeleteCleaner.clean
      rw [shape]
      simp only [unbounded, or_false]
      rw [if_neg (by simp)]
      have finished : (do
          DeleteCleaner.deleteAll ((vs.take dropped).reverse.map View.ref)
          return (vs.drop dropped ++ [last]).map View.ref : Call World (List Nat)).Traced w
            (before ++ []) _ w' := deleted.bind (.pure _ _)
      rw [append_nil] at finished
      exact (seg_traced object).bind (kept.bind finished)
    · have rest : ((vs.take dropped).reverse.drop (k / 7)).reverse = vs.take (dropped - k / 7) := by
        rw [drop_reverse, reverse_reverse, length_take, Nat.min_eq_left few,
          take_take, Nat.min_eq_left (Nat.sub_le _ _)]
      obtain ⟨remains, dangling⟩ := states k t here
      rw [rest] at remains dangling
      refine ⟨remains, fun removed => ?_⟩
      obtain ⟨v, d, place, facts⟩ := dangling removed
      have early : k / 7 < dropped := by
        have bound := (List.getElem?_eq_some_iff.mp here).1
        omega
      refine ⟨v, d, ?_, facts⟩
      rw [getElem?_reverse (by rw [length_take, Nat.min_eq_left few]; exact early),
        length_take, Nat.min_eq_left few, getElem?_take_of_lt (by omega)] at place
      exact place

end Housed

/-- The log has the last ones of the old segments, as they were, and they follow each other. -/
structure SuffixOf (refs : List Nat) (w w' : World) : Prop where
  same : ∃ i, List.Forall₂ (fun r r' => ∃ s s', w.segs[r]? = some s ∧ w'.segs[r']? = some s' ∧
    s.Same s' w.disk w'.disk ∧
    (w'.disk.file s'.log.inode).content = (w.disk.file s.log.inode).content)
      (refs.drop i) w'.log.segments
  adjacent : w'.log.segments.IsChain fun r r' => ∃ s s', w'.segs[r]? = some s ∧
    w'.segs[r']? = some s' ∧ s.nextOffset = s'.baseOffset

/-- All records but the last are bare headers. -/
def Chunk.Bare (c : Chunk) : Prop := ∀ r ∈ c.recs.dropLast, r.length = msgSetHeaderLen

instance (c : Chunk) : Decidable c.Bare :=
  inferInstanceAs (Decidable (∀ r ∈ c.recs.dropLast, r.length = msgSetHeaderLen))

/-- A log when `Clean` is called on its segments: they follow each other, and only the last one
may be empty. -/
structure Standing (opts : Options) (vs : List View) (w : World) : Prop where
  housed : Housed opts vs w
  chained : (vs.map View.chunk).IsChain fun c c' => c.next = c'.base
  bases : vs.Pairwise fun u v => u.chunk.base < v.chunk.base
  formed : ∀ v ∈ vs, ∀ r ∈ v.chunk.recs, WellFormed r

variable {vs : List View}

theorem View.forall₂_reref {R : View → View → Prop} {first : Nat}
    (each : ∀ v ∈ vs, ∀ ref, { v with ref } ∈ View.reref first vs → R v { v with ref }) :
    List.Forall₂ R vs (View.reref first vs) := by
  induction vs generalizing first with
  | nil => exact Forall₂.nil
  | cons v vs ih =>
    refine Forall₂.cons (each v (mem_cons_self ..) first (mem_cons_self ..))
      (ih fun u inside ref present => ?_)
    exact each u (mem_cons_of_mem _ inside) ref (mem_cons_of_mem _ present)

/-- A log of segments that were opened from their files. -/
structure Relisted (opts : Options) (vs : List View) (w : World) : Prop where
  segments : w.log.segments = vs.map View.ref
  opened : ∀ v ∈ vs, v.Reopened opts w

variable {opts : Options}

theorem Restarted.relisted (restarted : Restarted opts vs w) : Relisted opts vs w :=
  ⟨by rw [restarted.log], restarted.opened⟩

namespace Relisted

variable {opts : Options} {vs vs' : List View} {w w' : World} {first : Nat}

theorem suffixOf (standing : Standing opts vs w) (i : Nat)
    (relisted : Relisted opts (View.reref first (vs.drop i)) w')
    (bare : ∀ v ∈ vs.drop i, v.chunk.Bare) : SuffixOf (vs.map View.ref) w w' := by
  have whole {v : View} (inside : v ∈ View.reref first (vs.drop i)) : v.Open opts w' := by
    obtain ⟨-, u, present, same⟩ := View.le_ref_of_mem_reref inside
    refine (relisted.opened v inside).open ?_
    rw [same]
    exact Chunk.found_bare (standing.formed u (mem_of_mem_drop present)) (bare u present)
  constructor
  · refine ⟨i, ?_⟩
    rw [relisted.segments, ← map_drop, forall₂_map_left_iff, forall₂_map_right_iff]
    refine View.forall₂_reref fun v inside ref present => ?_
    have old := standing.housed.files.opened v (mem_of_mem_drop inside)
    have new := whole present
    obtain ⟨c, object⟩ := old.object
    obtain ⟨c', object'⟩ := new.object
    refine ⟨_, _, object, object', old.same new rfl c c', ?_⟩
    exact (congrArg File.content new.stored).trans (congrArg File.content old.stored).symm
  · have chained : ((View.reref first (vs.drop i)).map View.chunk).IsChain
        fun c c' => c.next = c'.base := by
      rw [View.map_chunk_reref, map_drop]
      exact standing.chained.drop i
    rw [relisted.segments, isChain_map]
    refine ((isChain_map _).mp chained).imp_of_mem_imp fun u v inside present next => ?_
    obtain ⟨c, object⟩ := (whole inside).object
    obtain ⟨c', object'⟩ := (whole present).object
    refine ⟨_, _, object, object', ?_⟩
    rw [View.nextOffset_segment, next]
    rfl

/-- A log that has the last ones of the old segments as they were: those that were there are
they, and were found as they are. -/
theorem of_suffixOf (standing : Standing opts vs w) (fewer : vs'.Sublist vs)
    (relisted : Relisted opts (View.reref first vs') w')
    (suffix : SuffixOf (vs.map View.ref) w w') :
    (∃ i, vs' = vs.drop i) ∧ ∀ v ∈ vs', v.chunk.Bare := by
  obtain ⟨i, same⟩ := suffix.same
  rw [relisted.segments, ← map_drop, forall₂_map_left_iff,
    forall₂_map_right_iff, forall₂_iff_zip] at same
  obtain ⟨count, same⟩ := same
  have length : (View.reref first vs').length = vs'.length := by
    rw [← length_map View.chunk, View.map_chunk_reref, length_map]
  have each (n : Nat) (v u : View) (here : (vs.drop i)[n]? = some v) (there : vs'[n]? = some u) :
      u = v ∧ u.chunk.Bare := by
    have moved : (View.reref first vs')[n]? = some { u with ref := first + n } := by
      rw [View.getElem?_reref, there]
      rfl
    have old : v ∈ vs := mem_of_mem_drop (mem_of_getElem? here)
    have kept : u ∈ vs := fewer.mem (mem_of_getElem? there)
    obtain ⟨s, s', object, object', equal, -⟩ := same
      (mem_of_getElem? (getElem?_zip_eq_some.mpr ⟨here, moved⟩))
    obtain ⟨c, found⟩ := (standing.housed.files.opened v old).object
    obtain ⟨c', found'⟩ := (relisted.opened _ (mem_of_getElem? moved)).object
    obtain rfl := Option.some.inj (found.symm.trans object)
    obtain rfl := Option.some.inj (found'.symm.trans object')
    have base : u.chunk.base = v.chunk.base := Int.ofNat_inj.mp equal.baseOffset
    obtain rfl : u = v := by
      by_contra differ
      exact (standing.housed.files.apart.forall kept old differ).base base
    refine ⟨rfl, Chunk.bare_of_found (standing.formed u kept) ?_ equal.position⟩
    have next := equal.nextOffset
    simp only [View.rebuilt, View.segment, Segment.opened] at next
    omega
  constructor
  · refine ⟨i, ext_getElem (by omega) fun n inside inside' => ?_⟩
    exact (each n _ _ (getElem?_eq_getElem inside') (getElem?_eq_getElem inside)).1
  · intro u present
    obtain ⟨n, inside, rfl⟩ := getElem_of_mem present
    have inside' : n < (vs.drop i).length := by omega
    exact (each n _ _ (getElem?_eq_getElem inside') (getElem?_eq_getElem inside)).2

end Relisted

/-- What `New` can make of the segments it finds: it opens them all, or fails at one whose walk
has more entries than an index takes. -/
def Opens (opts : Options) (vs : List View) (w : World) : Prop :=
  (∃ w', (new opts).run w = .ok () w' ∧
    Relisted opts.resolved (View.reref w.segs.length vs) w') ∨
  ((∃ v ∈ vs, indexBytes < v.chunk.found.1.length * entryWidth) ∧
    ∃ why w', (new opts).run w = .error why w')

/-- `New` gives the last ones of the old segments exactly if it finds them and no others, and all
records but the last of each are bare headers. -/
theorem Opens.suffixOf_iff {vs' : List View} {w₁ : World}
    (opens : Opens opts vs' w₁) (standing : Standing opts.resolved vs w) (fewer : vs'.Sublist vs) :
    (∃ w', (new opts).run w₁ = .ok () w' ∧ SuffixOf (vs.map View.ref) w w') ↔
      (∃ i, vs' = vs.drop i) ∧ ∀ v ∈ vs', v.chunk.Bare := by
  constructor
  · rintro ⟨w', ran, suffix⟩
    rcases opens with ⟨w₂, made, relisted⟩ | ⟨-, why, w₂, failed⟩
    · obtain ⟨-, rfl⟩ := Result.ok.inj (made.symm.trans ran)
      exact relisted.of_suffixOf standing fewer suffix
    · rw [failed] at ran
      cases ran
  · rintro ⟨⟨i, rfl⟩, bare⟩
    rcases opens with ⟨w₂, made, relisted⟩ | ⟨⟨v, inside, full⟩, -⟩
    · exact ⟨w₂, made, relisted.suffixOf standing i bare⟩
    · have present := fewer.mem inside
      have room := (standing.housed.files.opened v present).index.room
      rw [Chunk.found_bare (standing.formed v present) (bare v inside)] at full
      exact absurd full (Nat.not_lt.mpr room)

theorem Remains.opens {opts : Options} {vs : List View} {d₀ d : Disk} {log : CommitLog}
    (remains : Remains opts.resolved vs d₀ d) (some : vs ≠ []) (apart : vs.Pairwise View.Apart)
    (bases : vs.Pairwise fun u v => u.chunk.base < v.chunk.base) (named : opts.path ≠ "") :
    Opens opts vs ⟨d, [], log⟩ := by
  rcases @new_views opts vs ⟨d, [], log⟩ named remains.quiet some
      (by rw [← remains.listing, Options.path_resolved]) remains.left apart bases with
    ⟨w', made, restarted⟩ | failed
  · exact .inl ⟨w', made, restarted.relisted⟩
  · exact .inr failed

theorem gap_sublist (l : List α) {a b : Nat} (order : a ≤ b) :
    (l.take a ++ l.drop b).Sublist l := by
  have rest := (Sublist.refl (l.take a)).append (drop_sublist_drop_left l order)
  rwa [take_append_drop] at rest

/-- What is left of a list without repetition when a part is taken out is a rest of the list only
if the part was at its front, or empty. -/
theorem gap_at_front {l : List α} (distinct : l.Nodup)
    {a b i : Nat} (order : a ≤ b) (inside : b ≤ l.length) (rest : l.take a ++ l.drop b = l.drop i) :
    a = 0 ∨ a = b := by
  by_cases none : a = 0
  · exact .inl none
  · have length := congrArg length rest
    simp only [length_append, length_take, length_drop] at length
    have head := congrArg (fun l => l[0]?) rest
    have first : l[0]? = l[i]? := by
      simpa [getElem?_append, getElem?_take, getElem?_drop, Nat.pos_of_ne_zero none,
        show 0 < l.length by omega] using head
    have start : i = 0 := by
      have bound : i < l.length := by omega
      rw [getElem?_eq_getElem bound, getElem?_eq_getElem (by omega : 0 < l.length),
        Option.some_inj] at first
      exact ((distinct.getElem_inj_iff).mp first).symm
    omega

theorem Opens.gap_iff {w₁ : World} {a b : Nat}
    (opens : Opens opts (vs.take a ++ vs.drop b) w₁) (standing : Standing opts.resolved vs w)
    (order : a ≤ b) (inside : b ≤ vs.length) :
    (∃ w', (new opts).run w₁ = .ok () w' ∧ SuffixOf (vs.map View.ref) w w') ↔
      (a = 0 ∨ a = b) ∧ ∀ v ∈ vs.take a ++ vs.drop b, v.chunk.Bare := by
  have distinct : vs.Nodup := standing.bases.imp fun less same => by
    rw [same] at less
    exact absurd less (Nat.lt_irrefl _)
  rw [opens.suffixOf_iff standing (gap_sublist vs order)]
  refine and_congr_left fun _ => ⟨fun ⟨i, rest⟩ => gap_at_front distinct order inside rest, ?_⟩
  rintro (rfl | rfl)
  · exact ⟨b, by simp⟩
  · exact ⟨0, by simp⟩

theorem openFiles_append (opts : Options) (names more : List (List Char)) (w : World) :
    (openFiles opts (names ++ more)).run w = (do
      let refs ← openFiles opts names
      return refs ++ (← openFiles opts more) : Call World (List Nat)).run w := by
  induction names generalizing w with
  | nil => simp [openFiles]
  | cons name names ih =>
    have later : openFiles opts (names ++ more) = (do
        let refs ← openFiles opts names
        return refs ++ (← openFiles opts more)) := Call.ext ih
    rw [cons_append, openFiles, openFiles, later]
    congr 1
    split
    · simp only [bind_assoc]
      congr 1
      funext found
      split
      · rfl
      · simp only [bind_assoc]
    · split
      · split
        · rfl
        · simp only [bind_assoc, pure_bind, cons_append]
      · rfl

variable {v : View}

theorem View.Left.unlink (left : v.Left opts d) {name : FileName}
    (log : logPath opts.path v.chunk.base [] ≠ name)
    (index : indexPath opts.path v.chunk.base [] ≠ name) : v.Left opts (d.unlink name) where
  log := by
    rw [Disk.lookup_unlink_ne log]
    exact left.log
  index := by
    rw [Disk.lookup_unlink_ne index]
    exact left.index
  stored := left.stored
  inside := left.inside
  indexInside := left.indexInside
  sane := left.sane
  blank := left.blank
  apart := left.apart
  fits := left.fits

theorem filter_names_other (opts : Options) {us : List View} {base : Nat}
    (other : ∀ u ∈ us, u.chunk.base ≠ base) :
    ((us.flatMap (View.names opts)).filter fun entry => entry.1 ≠ logPath opts.path base []) =
      us.flatMap (View.names opts) := by
  rw [filter_eq_self]
  intro entry inside
  obtain ⟨u, present, named⟩ := mem_flatMap.mp inside
  have log : logPath opts.path u.chunk.base [] ≠ logPath opts.path base [] :=
    fun equal => other u present (logPath_inj equal)
  have index := (logPath_ne_indexPath opts.path base u.chunk.base).symm
  rcases mem_cons.mp named with rfl | last
  · simpa using log
  · obtain rfl := mem_singleton.mp last
    simpa using index

theorem Remains.listing_dangling {us ks : List View}
    (remains : Remains opts (us ++ v :: ks) d₀ d) (apart : (us ++ v :: ks).Pairwise View.Apart) :
    (d.unlink (logPath opts.path v.chunk.base [])).listing opts.path =
      us.flatMap (View.names opts) ++
        ((indexPath opts.path v.chunk.base [], v.indexInode) :: ks.flatMap (View.names opts)) := by
  obtain ⟨-, behind, before⟩ := pairwise_append.mp apart
  have first : ∀ u ∈ us, u.chunk.base ≠ v.chunk.base :=
    fun u inside => (before u inside v (mem_cons_self ..)).base
  have last : ∀ u ∈ ks, u.chunk.base ≠ v.chunk.base :=
    fun u inside => ((pairwise_cons.mp behind).1 u inside).base.symm
  have index := (logPath_ne_indexPath opts.path v.chunk.base v.chunk.base).symm
  rw [Disk.listing_unlink, remains.listing, flatMap_append, flatMap_cons,
    filter_append, filter_append, filter_names_other opts first,
    filter_names_other opts last]
  simp [View.names, index]

/-- The names that `open` goes through when one log file was removed. -/
def danglingNames (us : List View) (v : View) (ks : List View) : List (List Char) :=
  us.flatMap View.sortedNames ++
    (sprintf020d v.chunk.base ++ indexSuffix) :: ks.flatMap View.sortedNames

theorem Remains.sortNames_dangling {us ks : List View}
    (remains : Remains opts (us ++ v :: ks) d₀ d) (apart : (us ++ v :: ks).Pairwise View.Apart)
    (bases : (us ++ v :: ks).Pairwise fun u v => u.chunk.base < v.chunk.base) :
    sortNames (((d.unlink (logPath opts.path v.chunk.base [])).listing opts.path).map
      fun entry => entry.1.base) = danglingNames us v ks := by
  have increasing := sortedNames_increasing bases fun u present =>
    Nat.lt_trans (remains.left u present).fits (by decide)
  have fewer : (danglingNames us v ks).Sublist ((us ++ v :: ks).flatMap View.sortedNames) := by
    rw [flatMap_append, flatMap_cons]
    refine Sublist.append (Sublist.refl _) (Sublist.cons_cons _ ?_)
    exact sublist_cons_self _ _
  refine sortNames_of_perm ?_ (increasing.sublist fewer)
  rw [remains.listing_dangling apart, map_append, map_cons]
  refine (names_perm_sortedNames _ us).append ?_
  simp only [indexPath, append_nil]
  exact (names_perm_sortedNames _ ks).cons _

/-- An index file without its log file: `open` removes a file of its name in the working
directory, and fails if there is none. -/
theorem Remains.openFiles_dangling {opts : Options} {us ks : List View} {v : View} {d₀ d : Disk}
    {log : CommitLog} (remains : Remains opts (us ++ v :: ks) d₀ d)
    (apart : (us ++ v :: ks).Pairwise View.Apart) (away : opts.path ≠ ".") :
    let run := (openFiles opts (danglingNames us v ks)).run
      ⟨d.unlink (logPath opts.path v.chunk.base []), [], log⟩
    (d₀.lookup (indexPath "." v.chunk.base []) = none → ∃ why w', run = .error why w') ∧
    ((d₀.lookup (indexPath "." v.chunk.base [])).isSome →
      (∃ w', run = .ok ((View.reref 0 (us ++ ks)).map View.ref) w' ∧
        ∀ u ∈ View.reref 0 (us ++ ks), u.Reopened opts w') ∨
      ((∃ u ∈ us ++ ks, indexBytes < u.chunk.found.1.length * entryWidth) ∧
        ∃ why w', run = .error why w')) := by
  intro run
  obtain ⟨early, behind, before⟩ := pairwise_append.mp apart
  obtain ⟨beside, late⟩ := pairwise_cons.mp behind
  have unlinked {u : View} (present : u ∈ us ++ v :: ks) (other : u.chunk.base ≠ v.chunk.base) :
      u.Left opts (d.unlink (logPath opts.path v.chunk.base [])) :=
    (remains.left u present).unlink (fun equal => other (logPath_inj equal))
      (logPath_ne_indexPath _ _ _).symm
  have left : ∀ u ∈ us, u.Left opts (d.unlink (logPath opts.path v.chunk.base [])) := fun u inside =>
    unlinked (mem_append_left _ inside) (before u inside v (mem_cons_self ..)).base
  have left' : ∀ u ∈ ks, u.Left opts (d.unlink (logPath opts.path v.chunk.base [])) :=
    fun u inside => unlinked (by simp [inside]) (beside u inside).base.symm
  have parts : run = _ := openFiles_append _ _ _ _
  rcases @openFiles_views opts us ⟨d.unlink (logPath opts.path v.chunk.base []), [], log⟩
      remains.quiet left early with ⟨w₁, opened, kept, views, count⟩ | ⟨full, why, w₁, failed⟩
  · rw [bind_ok opened] at parts
    have fits := (remains.left v (by simp)).fits
    have gone : w₁.disk.lookup (logPath opts.path v.chunk.base []) = none := by
      rw [Disk.lookup, kept.names]
      exact Disk.lookup_unlink_same _
    have working : w₁.disk.lookup (indexPath "." v.chunk.base []) =
        d₀.lookup (indexPath "." v.chunk.base []) := by
      rw [Disk.lookup, kept.names]
      exact (remains.outside.unlink (logPath opts.path v.chunk.base []) rfl) _ away.symm
    constructor
    · intro absent
      obtain ⟨why, w', failed⟩ := Commitlog.openFiles_dangling fits kept.quiet gone
        (working.trans absent) (ks.flatMap View.sortedNames)
      rw [bind_error failed] at parts
      exact ⟨why, w', parts⟩
    · intro present
      obtain ⟨inode, found⟩ := Option.isSome_iff_exists.mp present
      have passed := openFiles_unlisted fits kept.quiet gone (working.trans found)
        (ks.flatMap View.sortedNames)
      have later : ∀ u ∈ ks, u.Left opts (w₁.disk.unlink (indexPath "." v.chunk.base [])) := by
        intro u inside
        have others : ∀ x ∈ us, x.Apart u := fun x here =>
          before x here u (mem_cons_of_mem _ inside)
        refine ((left' u inside).frame kept.names kept.length ?_ ?_).unlink
          (fun equal => away (congrArg FileName.dir equal))
          fun equal => away (congrArg FileName.dir equal)
        · exact kept.other _ fun x here => (others x here).indexLog
        · exact kept.other _ fun x here => (others x here).index
      rcases @openFiles_views opts ks { w₁ with
          disk := w₁.disk.unlink (indexPath "." v.chunk.base []) } kept.quiet later late with
        ⟨w₂, opened', kept', views', -⟩ | ⟨⟨u, inside, full⟩, why, w₂, failed⟩
      · have numbered : View.reref 0 (us ++ ks) =
            View.reref 0 us ++ View.reref w₁.segs.length ks := by
          rw [View.reref_append, count]
          rfl
        rw [bind_ok (passed.trans opened')] at parts
        refine .inl ⟨w₂, ?_, fun u inside => ?_⟩
        · rw [parts, numbered, map_append]
          rfl
        · rw [numbered] at inside
          rcases mem_append.mp inside with first | second
          · obtain ⟨-, x, here, same⟩ := View.le_ref_of_mem_reref first
            have others : ∀ y ∈ ks, x.Apart y := fun y behind =>
              before x here y (mem_cons_of_mem _ behind)
            refine kept'.reopened ((views u first).frame (Nat.le_refl _) rfl rfl rfl) ?_ ?_
            · rw [same]
              exact fun y behind => (others y behind).logIndex.symm
            · rw [same]
              exact fun y behind => (others y behind).index.symm
          · exact views' u second
      · rw [bind_error (passed.trans failed)] at parts
        exact .inr ⟨⟨u, mem_append_right _ inside, full⟩, why, w₂, parts⟩
  · rw [bind_error failed] at parts
    refine ⟨fun _ => ⟨why, w₁, parts⟩, fun _ => .inr ⟨?_, why, w₁, parts⟩⟩
    obtain ⟨u, inside, full⟩ := full
    exact ⟨u, mem_append_left _ inside, full⟩

/-- An index file without its log file: `New` fails, or leaves the segment out if the working
directory has a file of that name, which it removes. -/
theorem Remains.new_dangling {opts : Options} {us ks : List View} {v : View} {d₀ d : Disk}
    {log : CommitLog} (remains : Remains opts.resolved (us ++ v :: ks) d₀ d) (some : ks ≠ [])
    (apart : (us ++ v :: ks).Pairwise View.Apart)
    (bases : (us ++ v :: ks).Pairwise fun u v => u.chunk.base < v.chunk.base)
    (named : opts.path ≠ "") (away : opts.path ≠ ".") :
    (d₀.lookup (indexPath "." v.chunk.base []) = none → ∃ why w', (new opts).run
      ⟨d.unlink (logPath opts.resolved.path v.chunk.base []), [], log⟩ = .error why w') ∧
    ((d₀.lookup (indexPath "." v.chunk.base [])).isSome → Opens opts (us ++ ks)
      ⟨d.unlink (logPath opts.resolved.path v.chunk.base []), [], log⟩) := by
  have quiet : (d.unlink (logPath opts.resolved.path v.chunk.base [])).script = [] := remains.quiet
  have sorted := remains.sortNames_dangling apart bases
  nth_rewrite 2 [Options.path_resolved] at sorted
  have start := new_start (w := ⟨d.unlink (logPath opts.resolved.path v.chunk.base []), [], log⟩)
    named quiet
  rw [sorted] at start
  obtain ⟨absent, present⟩ := @Remains.openFiles_dangling _ _ _ _ _ _
    ⟨opts.resolved, newCleaner opts.resolved, [], 0⟩ remains apart (by simpa using away)
  refine ⟨fun none => ?_, fun found => ?_⟩
  · obtain ⟨why, w', failed⟩ := absent none
    exact ⟨why, w', start.trans (bind_error failed)⟩
  · rcases present found with ⟨w', opened, views⟩ | ⟨full, why, w', failed⟩
    · have nonempty : (View.reref 0 (us ++ ks)).map View.ref ≠ [] := by
        intro empty
        have count := congrArg (map View.chunk) (map_eq_nil_iff.mp empty)
        rw [View.map_chunk_reref] at count
        simp [some] at count
      refine .inl ⟨_, new_ok named quiet nonempty (by rw [sorted]; exact opened), rfl,
        fun u inside => ?_⟩
      exact (views u inside).frame (Nat.le_refl _) rfl rfl rfl
    · exact .inr ⟨full, why, w', start.trans (bind_error failed)⟩

/-- `New` on a log that ends in front of a gap with an index file without a log file. -/
theorem Remains.dangling_iff
    {a b : Nat} (remains : Remains opts.resolved (vs.take a ++ v :: vs.drop b) w.disk d)
    (standing : Standing opts.resolved vs w) (place : vs[a]? = some v) (order : a < b)
    (inside : b < vs.length) (named : opts.path ≠ "") (away : opts.path ≠ ".") :
    (∃ w', (new opts).run
        ⟨d.unlink (logPath opts.resolved.path v.chunk.base []), [], w.log⟩ = .ok () w' ∧
          SuffixOf (vs.map View.ref) w w') ↔
      a = 0 ∧ (w.disk.lookup (indexPath "." v.chunk.base [])).isSome ∧
        ∀ u ∈ vs.drop b, u.chunk.Bare := by
  have fewer : (vs.take a ++ v :: vs.drop b).Sublist vs := by
    have whole := gap_sublist vs (show a + 1 ≤ b from order)
    rwa [take_add_one, place, Option.toList_some, append_assoc] at whole
  have nonempty : vs.drop b ≠ [] := by
    rw [ne_eq, drop_eq_nil_iff]
    omega
  obtain ⟨absent, present⟩ := @Remains.new_dangling _ _ _ _ _ _ w.log remains nonempty
    (standing.housed.files.apart.sublist fewer) (standing.bases.sublist fewer) named away
  cases working : w.disk.lookup (indexPath "." v.chunk.base []) with
  | none =>
    obtain ⟨why, w', failed⟩ := absent working
    rw [failed]
    constructor
    · rintro ⟨w', ran, -⟩
      cases ran
    · rintro ⟨-, found, -⟩
      cases found
  | some inode =>
    have opens := present (by rw [working]; rfl)
    rw [opens.gap_iff standing (Nat.le_of_lt order) (Nat.le_of_lt inside)]
    constructor
    · rintro ⟨rfl | all, bare⟩
      · exact ⟨rfl, rfl, bare⟩
      · omega
    · rintro ⟨rfl, -, bare⟩
      exact ⟨.inl rfl, bare⟩

theorem dropCount_le (retention : Int) (older : List Chunk) (last : Chunk) :
    dropCount retention older last ≤ older.length := by
  unfold dropCount
  split <;> omega

end Jocko.Commitlog
