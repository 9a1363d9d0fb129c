import Jocko.Commitlog.Segment
import Jocko.Commitlog.IndexEntries

namespace Jocko.Commitlog

open Go List

/-- What `BuildIndex` makes of a log file: the entries it writes from a cursor on, and
the position it ends at. The cursor runs ahead of the position: the payload is copied
and then skipped once more. -/
def walk (content : Bytes) : Nat → Nat → Int → Int → List Entry × Int
  | 0, _, _, position => ([], position)
  | fuel + 1, cursor, offset, position =>
    let size := getUint ((content.drop (cursor + 8)).take 4)
    if content.length < cursor + msgSetHeaderLen + size ∨
        content.length < cursor + msgSetHeaderLen then ([], position)
    else
      let rest := walk content fuel (cursor + msgSetHeaderLen + size + size) (offset + 1)
        (position + (size + msgSetHeaderLen : Nat))
      (⟨offset, position⟩ :: rest.1, rest.2)

theorem walk_nil (fuel : Nat) (offset position : Int) :
    walk [] fuel 0 offset position = ([], position) := by
  cases fuel <;> simp [walk, msgSetHeaderLen]

/-- Reading at the cursor gives the bytes between it and the end of the file. -/
private theorem length_read (f : File) (start count : Nat) :
    (f.read start count).length = min count (f.content.length - start) := by
  rw [File.read_eq, length_take, length_drop]

variable {d : Disk} {k : Walk}

/-- A round of the loop meets the end of the file and leaves, or takes a whole record. -/
private theorem loop_round {size : Nat} (fuel : Nat) (quiet : d.script = [])
    (live : k.log.closed = false) (empty : k.b = [])
    (field : getUint (((d.file k.log.inode).content.drop (k.log.cursor + 8)).take 4) = size) :
    if (d.file k.log.inode).content.length < k.log.cursor + msgSetHeaderLen + size ∨
        (d.file k.log.inode).content.length < k.log.cursor + msgSetHeaderLen then
      ∃ c b, (Walk.loop (fuel + 1) k).run d =
        .ok { k with log := { k.log with cursor := c }, b := b } d
    else (Walk.loop (fuel + 1) k).run d = (do
        let index ← k.index.writeEntry ⟨k.nextOffset, k.position⟩
        let log ← { k.log with cursor := k.log.cursor + msgSetHeaderLen + size }.seekCurrent size
        Walk.loop fuel ⟨log, index, [], k.nextOffset + 1,
          k.position + (size + msgSetHeaderLen : Nat)⟩ : Call Disk Walk).run d := by
  simp only [msgSetHeaderLen]
  rw [Walk.loop, bind_ok (OsFile.copyN_live (f := k.log) quiet live 8)]
  by_cases noHead : ((d.file k.log.inode).read k.log.cursor 8).length < 8
  · simp only [noHead, ↓reduceIte, run_pure]
    rw [length_read] at noHead
    rw [if_pos (by omega)]
    exact ⟨_, _, rfl⟩
  have first : ((d.file k.log.inode).read k.log.cursor 8).length = 8 := by
    rw [length_read] at noHead ⊢
    omega
  simp only [first, Nat.lt_irrefl, ↓reduceIte]
  rw [bind_ok (OsFile.copyN_live (f := { k.log with cursor := k.log.cursor + 8 }) quiet live 4)]
  by_cases noField : ((d.file k.log.inode).read (k.log.cursor + 8) 4).length < 4
  · simp only [noField, ↓reduceIte, run_pure]
    rw [length_read] at noField
    rw [if_pos (by omega)]
    exact ⟨_, _, rfl⟩
  have second : ((d.file k.log.inode).read (k.log.cursor + 8) 4).length = 4 := by
    rw [length_read] at noField ⊢
    omega
  have parsed : getUint (((k.b ++ (d.file k.log.inode).read k.log.cursor 8 ++
      (d.file k.log.inode).read (k.log.cursor + 8) 4).drop 8).take 4) = size := by
    rw [empty, nil_append, drop_left' first, take_of_length_le (by omega), File.read_eq, field]
  have third := length_read (d.file k.log.inode) (k.log.cursor + 8 + 4) size
  simp only [second, Nat.lt_irrefl, ↓reduceIte]
  rw [length_read] at noField
  rw [parsed, bind_ok (OsFile.copyN_live
    (f := { k.log with cursor := k.log.cursor + 8 + 4 }) quiet live size)]
  by_cases noBody : (d.file k.log.inode).content.length < k.log.cursor + 12 + size
  · have cut : ((d.file k.log.inode).read (k.log.cursor + 8 + 4) size).length < size := by omega
    simp only [cut, ↓reduceIte, run_pure]
    rw [if_pos (.inl noBody)]
    exact ⟨_, _, rfl⟩
  · have whole : ((d.file k.log.inode).read (k.log.cursor + 8 + 4) size).length = size := by omega
    rw [if_neg (by omega)]
    simp only [whole, Nat.lt_irrefl, ↓reduceIte, Nat.add_assoc, Nat.reduceAdd, msgSetHeaderLen]

/-- The loop writes the entries of `walk` behind those the index has, or panics at the
first one for which there is no slot. -/
theorem Walk.loop_walk {es : List Entry} (fuel : Nat)
    (quiet : d.script = []) (live : k.log.closed = false) (empty : k.b = [])
    (apart : k.index.file.inode ≠ k.log.inode) (holds : k.index.Holds d es)
    (positive : 0 < fuel)
    (enough : (d.file k.log.inode).content.length < fuel + k.log.cursor) :
    let found := walk (d.file k.log.inode).content fuel k.log.cursor k.nextOffset k.position
    ((es.length + found.1.length) * entryWidth ≤ k.index.mapped ∧
      ∃ c b f index,
        (Walk.loop fuel k).run d = .ok ⟨{ k.log with cursor := c }, index, b,
          k.nextOffset + found.1.length, found.2⟩ (d.setFile k.index.file.inode f) ∧
        index = { k.index with position := (es.length + found.1.length) * entryWidth } ∧
        index.Holds (d.setFile k.index.file.inode f) (es ++ found.1) ∧
        (found.1 = [] → f = d.file k.index.file.inode)) ∨
    (k.index.mapped < (es.length + found.1.length) * entryWidth ∧
      ∃ d', (Walk.loop fuel k).run d = .error (.panic "slice bounds out of range") d') := by
  induction fuel generalizing d k es with
  | zero => omega
  | succ fuel ih =>
    have round := loop_round fuel quiet live empty rfl
    by_cases short : (d.file k.log.inode).content.length < k.log.cursor + msgSetHeaderLen +
        getUint (((d.file k.log.inode).content.drop (k.log.cursor + 8)).take 4) ∨
        (d.file k.log.inode).content.length < k.log.cursor + msgSetHeaderLen
    · rw [if_pos short] at round
      obtain ⟨c, b, ended⟩ := round
      simp only [walk, short, ↓reduceIte, length_nil, Nat.add_zero, append_nil]
      refine .inl ⟨holds.room, c, b, d.file k.index.file.inode, k.index, ?_, ?_, ?_,
        fun _ => rfl⟩
      · rw [ended, Disk.setFile_file holds.inside]
        simp
      · simp only [← holds.position]
      · rw [Disk.setFile_file holds.inside]
        exact holds
    · have whole := short
      simp only [not_or, Nat.not_lt] at whole
      rw [if_neg short] at round
      simp only [walk, short, ↓reduceIte, length_cons]
      generalize getUint (((d.file k.log.inode).content.drop (k.log.cursor + 8)).take 4) = size
        at round whole
      by_cases space : (es.length + 1) * entryWidth ≤ k.index.mapped
      · obtain ⟨f, written, held, -⟩ := holds.writeEntry ⟨k.nextOffset, k.position⟩ space
        have unread : (d.setFile k.index.file.inode f).file k.log.inode = d.file k.log.inode :=
          Disk.file_setFile_ne f apart
        have sought := OsFile.seekCurrent_live (d := d.setFile k.index.file.inode f)
          (f := { k.log with cursor := k.log.cursor + msgSetHeaderLen + size }) quiet live size
        rw [bind_ok written, bind_ok sought] at round
        -- The rest of the loop sees the same log file and an index one entry longer.
        have rest := @ih (d.setFile k.index.file.inode f)
          ⟨{ k.log with cursor := k.log.cursor + msgSetHeaderLen + size + size },
            { k.index with position := k.index.position + entryWidth }, [], k.nextOffset + 1,
            k.position + (size + msgSetHeaderLen : Nat)⟩ (es ++ [⟨k.nextOffset, k.position⟩])
          quiet live rfl apart held (by simp only [msgSetHeaderLen] at whole; omega)
          (by simp only [unread, msgSetHeaderLen] at whole ⊢; omega)
        simp only [unread, length_append, length_singleton, append_assoc,
          singleton_append, Disk.setFile_setFile] at rest
        generalize walk (d.file k.log.inode).content fuel
          (k.log.cursor + msgSetHeaderLen + size + size) (k.nextOffset + 1)
          (k.position + (size + msgSetHeaderLen : Nat)) = found at rest
        have count : es.length + (found.1.length + 1) = es.length + 1 + found.1.length := by
          omega
        have offset : k.nextOffset + ((found.1.length + 1 : Nat) : Int) =
            k.nextOffset + 1 + found.1.length := by
          omega
        rw [count, offset, round]
        rcases rest with ⟨room, c, b, g, index, ended, shape, held, _⟩ | failed
        · exact .inl ⟨room, c, b, g, index, ended, shape, held, fun none => nomatch none⟩
        · exact .inr failed
      · refine .inr ⟨?_, d, ?_⟩
        · refine Nat.lt_of_lt_of_le (Nat.not_le.mp space) (Nat.mul_le_mul_right _ ?_)
          omega
        · rw [round, bind_error (holds.writeEntry_full _ (Nat.not_le.mp space))]

/-- An index file that passes `SanityCheck`: its last entry is not below the base. -/
def SaneIndex (f : File) : Prop :=
  f.size = 0 ∨ f.size % entryWidth = 0 ∧ f.size ≤ indexBytes ∧
    0 ≤ (RelEntry.decode (f.content.drop (f.size - entryWidth))).offset

theorem SaneIndex.blank : SaneIndex ⟨[], indexBytes⟩ := by
  have zeros : (File.content ⟨[], indexBytes⟩).drop (indexBytes - entryWidth) =
      replicate entryWidth 0 := by
    simp only [File.content, nil_append, drop_replicate]
    rfl
  refine .inr ⟨by decide, Nat.le_of_eq rfl, ?_⟩
  have size : File.size ⟨[], indexBytes⟩ = indexBytes := Nat.zero_add _
  rw [size, zeros]
  decide

/-- An entry with an offset that is not negative leaves an index one that passes the check. -/
theorem SaneIndex.overwrite {f : File} {position : Nat} {b : Bytes} (sane : SaneIndex f)
    (whole : f.size = indexBytes) (aligned : position % entryWidth = 0)
    (width : b.length = entryWidth) (inside : position + entryWidth ≤ indexBytes)
    (above : 0 ≤ (RelEntry.decode b).offset) : SaneIndex (f.overwrite position b) := by
  have bound : position + b.length ≤ f.size := by omega
  have length := f.length_content
  unfold SaneIndex at *
  rw [File.size_overwrite _ _ _ bound, File.content_overwrite _ _ _ bound]
  rcases sane with empty | ⟨multiple, fits, last⟩
  · exact .inl empty
  · refine .inr ⟨multiple, fits, ?_⟩
    have front : (f.content.take position).length = position := by
      rw [length_take]
      omega
    by_cases final : position + entryWidth = indexBytes
    · -- The entry takes the last slot.
      have slot : f.size - entryWidth = position := by omega
      have rest : f.content.drop (position + b.length) = [] := by
        rw [drop_eq_nil_iff]
        omega
      rw [slot, rest, append_nil, drop_left' front]
      exact above
    · have slots : position + entryWidth ≤ f.size - entryWidth := by
        simp only [entryWidth] at *
        omega
      have written : (f.content.take position ++ b).length = position + b.length := by
        rw [length_append, front]
      rw [drop_append, drop_eq_nil_of_le (by omega), nil_append, drop_drop,
        written]
      have place : position + b.length + (f.size - entryWidth - (position + b.length)) =
          f.size - entryWidth := by omega
      rw [place]
      exact last

/-- A segment object with open files, `count` index entries and `position` log bytes. -/
def Segment.opened (path : String) (baseOffset maxBytes : Int) (suffix : List Char)
    (logInode indexInode cursor count : Nat) (position : Int) : Segment where
  log := ⟨logPath path baseOffset suffix, logInode, cursor, false⟩
  index := ⟨indexBytes, baseOffset, ⟨indexPath path baseOffset suffix, indexInode, 0, false⟩,
    indexBytes, count * entryWidth⟩
  baseOffset := baseOffset
  nextOffset := baseOffset + count
  position := position
  maxBytes := maxBytes
  path := path
  suffix := suffix

theorem roundDown_indexBytes : roundDown indexBytes entryWidth = indexBytes := by decide

theorem newIndex_opened {d' : Disk} {path : FileName} {inode : Nat} (baseOffset : Int)
    (quiet : d'.script = []) (named : path.base ≠ [])
    (opened : (Disk.openFile path).run d = .ok ⟨path, inode, 0, false⟩ d') :
    (newIndex path 0 baseOffset).run d =
      .ok ⟨indexBytes, baseOffset, ⟨path, inode, 0, false⟩, indexBytes, (d'.file inode).size⟩
        (d'.setFile inode ((d'.file inode).truncate indexBytes)) := by
  have nonempty : ¬ (path.dir = "" ∧ path.base = []) := fun empty => named empty.2
  have sized := OsFile.size_live (f := ⟨path, inode, 0, false⟩) quiet rfl
  have cut := OsFile.truncate_live (f := ⟨path, inode, 0, false⟩) quiet rfl indexBytes
  have mapped := Disk.tick_quiet (d := d'.setFile inode ((d'.file inode).truncate indexBytes)) quiet
  simp only [newIndex, nonempty, ↓reduceIte, roundDown_indexBytes]
  rw [bind_ok (wrap_ok opened), bind_ok (wrap_ok sized), bind_ok cut,
    bind_ok (wrap_ok mapped)]
  rfl

theorem indexPath_base_ne_nil (path : String) (baseOffset : Int) (suffix : List Char) :
    (indexPath path baseOffset suffix).base ≠ [] := by
  intro empty
  simp only [indexPath, append_eq_nil_iff] at empty
  exact absurd empty.2.1 (by decide)

/-- The check that `BuildIndex` starts with, on an index that was just mapped. -/
theorem sanityCheck_sane {idx : Index} {f : File} (sane : SaneIndex f)
    (mapped : idx.mapped = indexBytes) (position : idx.position = f.size)
    (grown : d.file idx.file.inode = f.truncate indexBytes) : idx.sanityCheck.run d = .ok () d := by
  unfold Index.sanityCheck
  split
  · rfl
  · rename_i nonempty
    rw [position] at nonempty
    obtain empty | ⟨aligned, fits, above⟩ := sane
    · exact absurd empty nonempty
    · have wide : entryWidth ≤ f.size := by
        simp only [entryWidth] at aligned ⊢
        omega
      have last : f.size - entryWidth + entryWidth = f.size := by omega
      have touched : (idx.touch (f.size - entryWidth)).run d = .ok () d := by
        simp only [Index.touch, grown, File.size_truncate, mapped, last, Nat.not_lt.mpr fits,
          ↓reduceIte]
      have bytes : (d.file idx.file.inode).read (f.size - entryWidth) entryWidth =
          f.content.drop (f.size - entryWidth) := by
        have width : (f.content.drop (f.size - entryWidth)).length = entryWidth := by
          rw [length_drop, File.length_content]
          omega
        have kept : f.content.take indexBytes = f.content :=
          take_of_length_le (by simpa using fits)
        rw [grown, File.read_eq, File.content_truncate, kept,
          drop_append_of_le_length (by simp), take_left' width]
      have read : (idx.readEntryAtFileOffset (f.size - entryWidth)).run d =
          .ok ((RelEntry.decode (f.content.drop (f.size - entryWidth))).fill idx.baseOffset) d := by
        have slot : (idx.readAt (f.size - entryWidth)).run d =
            .ok (f.content.drop (f.size - entryWidth)) d := by
          simp only [Index.readAt, position, last, Nat.lt_irrefl, ↓reduceIte]
          rw [bind_ok touched]
          simp only [bytes]
        unfold Index.readEntryAtFileOffset
        rw [bind_ok slot]
        rfl
      rw [position]
      simp only [aligned, ne_eq, not_true_eq_false, ↓reduceIte]
      rw [bind_ok read]
      have fine : ¬ ((RelEntry.decode (f.content.drop (f.size - entryWidth))).fill
          idx.baseOffset).offset < idx.baseOffset := by
        simp only [RelEntry.fill]
        omega
      simp only [fine, ↓reduceIte, run_pure]

/-- `BuildIndex` on a whole index: the entries of `walk`, or a panic for want of a slot. -/
theorem Segment.buildIndex_walk {s : Segment} (quiet : d.script = [])
    (live : s.log.closed = false) (apart : s.index.file.inode ≠ s.log.inode)
    (inside : s.index.file.inode < d.inodes.length)
    (whole : (d.file s.index.file.inode).size = s.index.mapped)
    (sane : s.index.sanityCheck.run d = .ok () d) :
    let found := walk (d.file s.log.inode).content ((d.file s.log.inode).size + 1) 0 s.baseOffset 0
    (found.1.length * entryWidth ≤ s.index.mapped ∧
      ∃ c f index,
        s.buildIndex.run d = .ok { s with
          log := { s.log with cursor := c }
          index := index
          nextOffset := s.baseOffset + found.1.length
          position := found.2 } (d.setFile s.index.file.inode f) ∧
        index = { s.index with position := found.1.length * entryWidth } ∧
        index.Holds (d.setFile s.index.file.inode f) found.1 ∧
        (found.1 = [] → f = d.file s.index.file.inode)) ∨
    (s.index.mapped < found.1.length * entryWidth ∧
      ∃ d', s.buildIndex.run d = .error (.panic "slice bounds out of range") d') := by
  have cut : (s.index.truncateEntries 0).run d = .ok { s.index with position := 0 } d := by
    simp only [Index.truncateEntries, Nat.zero_mul, Nat.not_lt_zero, ↓reduceIte, run_pure]
  have sought := OsFile.seekStart_live (f := s.log) quiet live 0
  have empty : Index.Holds { s.index with position := 0 } d [] :=
    ⟨inside, by simp, whole, by simp, by simp [encodeEntries]⟩
  have looped := Walk.loop_walk ((d.file s.log.inode).size + 1)
    (k := ⟨{ s.log with cursor := 0 }, { s.index with position := 0 }, [], s.baseOffset, 0⟩)
    quiet live rfl apart empty (by omega)
    (by simp only [File.length_content]; omega)
  simp only [length_nil, Nat.zero_add, nil_append] at looped
  have measured : (⟨fun d => .ok (d.file s.log.inode).size d⟩ : Call Disk Nat).run d =
      .ok (d.file s.log.inode).size d := rfl
  unfold Segment.buildIndex
  rw [bind_ok sane, bind_ok cut, bind_ok sought, bind_ok measured]
  rcases looped with ⟨room, c, b, f, index, ended, shape, holds, idle⟩ | ⟨full, d', ended⟩
  · refine .inl ⟨room, c, f, index, ?_, shape, holds, idle⟩
    rw [bind_ok ended]
    rfl
  · exact .inr ⟨full, d', by rw [bind_error ended]⟩

/-- `NewSegment` on files that exist by the time each of them is opened. -/
theorem newSegment_walk {d' d'' : Disk} {path : String} {baseOffset : Int}
    {suffix : List Char} {logInode indexInode : Nat} (maxBytes : Int)
    (logOpened : (Disk.openFile (logPath path baseOffset suffix)).run d =
      .ok ⟨logPath path baseOffset suffix, logInode, 0, false⟩ d')
    (indexOpened : (Disk.openFile (indexPath path baseOffset suffix)).run d' =
      .ok ⟨indexPath path baseOffset suffix, indexInode, 0, false⟩ d'')
    (quiet : d''.script = []) (apart : indexInode ≠ logInode) (inside : indexInode < d''.inodes.length)
    (sane : SaneIndex (d''.file indexInode)) :
    let found := walk (d''.file logInode).content ((d''.file logInode).size + 1) 0 baseOffset 0
    (found.1.length * entryWidth ≤ indexBytes ∧
      ∃ c f s,
        (newSegment path baseOffset maxBytes suffix).run d = .ok s (d''.setFile indexInode f) ∧
        s = Segment.opened path baseOffset maxBytes suffix logInode indexInode c found.1.length
          found.2 ∧
        s.index.Holds (d''.setFile indexInode f) found.1 ∧
        (found.1 = [] → f = (d''.file indexInode).truncate indexBytes)) ∨
    (indexBytes < found.1.length * entryWidth ∧
      ∃ d', (newSegment path baseOffset maxBytes suffix).run d =
        .error (.panic "slice bounds out of range") d') := by
  have mapped := newIndex_opened baseOffset quiet (indexPath_base_ne_nil path baseOffset suffix)
    indexOpened
  have unread : (d''.setFile indexInode ((d''.file indexInode).truncate indexBytes)).file logInode =
      d''.file logInode :=
    Disk.file_setFile_ne _ apart
  have grown : (d''.setFile indexInode ((d''.file indexInode).truncate indexBytes)).file
      indexInode = (d''.file indexInode).truncate indexBytes :=
    Disk.file_setFile_same _ inside
  have built := Segment.buildIndex_walk
    (d := d''.setFile indexInode ((d''.file indexInode).truncate indexBytes))
    (s := ⟨⟨logPath path baseOffset suffix, logInode, 0, false⟩,
      ⟨indexBytes, baseOffset, ⟨indexPath path baseOffset suffix, indexInode, 0, false⟩,
        indexBytes, (d''.file indexInode).size⟩,
      baseOffset, baseOffset, 0, maxBytes, path, suffix⟩)
    quiet rfl apart (by simpa using inside)
    (by simp only [grown, File.size_truncate])
    (sanityCheck_sane sane rfl rfl grown)
  simp only [unread, Disk.setFile_setFile] at built
  unfold newSegment Segment.setupIndex
  rw [bind_ok (wrap_ok logOpened), bind_ok mapped]
  rw [grown] at built
  rcases built with ⟨room, c, f, index, ended, shape, holds, idle⟩ | failed
  · subst shape
    exact .inl ⟨room, c, f, _, ended, rfl, holds, idle⟩
  · exact .inr failed

end Jocko.Commitlog
