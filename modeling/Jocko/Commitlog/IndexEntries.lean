import Jocko.Commitlog.Index
import Jocko.Go.DiskSteps

namespace Jocko.Commitlog

open Go List

theorem RelEntry.length_encode (rel : RelEntry) : rel.encode.length = entryWidth := by
  simp only [RelEntry.encode, length_append, length_putUint, entryWidth]

theorem int32_int32 (x : Int) : int32 (int32 x) = int32 x :=
  int32_of_lt (int32_lower x) (int32_upper x)

theorem RelEntry.decode_encode (e : Entry) (baseOffset : Int) :
    RelEntry.decode (newRelEntry e baseOffset).encode = newRelEntry e baseOffset := by
  have field (x : Int) : int32 (getUint (putUint 4 (uint32 (int32 x)))) = int32 x := by
    rw [getUint_putUint, Nat.mod_eq_of_lt (uint32_lt _), int32_uint32, int32_int32]
  have front (p q : Bytes) (length : p.length = 4) : (p ++ q).take 4 = p := by
    rw [← length, take_left]
  have back (p q : Bytes) (pl : p.length = 4) (ql : q.length = 4) :
      ((p ++ q).drop 4).take 4 = q := by
    rw [← pl, drop_left, take_of_length_le (by omega)]
  simp only [RelEntry.decode, RelEntry.encode, newRelEntry]
  rw [front _ _ (length_putUint 4 _), back _ _ (length_putUint 4 _) (length_putUint 4 _),
    field, field]

/-- An entry as the index gives it back, its two numbers cut to 32 bits. -/
def Entry.stored (e : Entry) (baseOffset : Int) : Entry := (newRelEntry e baseOffset).fill baseOffset

theorem Entry.stored_eq {e : Entry} {baseOffset : Int} (lower : baseOffset ≤ e.offset)
    (upper : e.offset < baseOffset + 2147483648) (nonneg : 0 ≤ e.position)
    (small : e.position < 2147483648) : e.stored baseOffset = e := by
  simp only [Entry.stored, RelEntry.fill, newRelEntry]
  rw [int32_of_lt (by omega) (by omega), int32_of_lt (by omega) small]
  cases e
  simp only [Entry.mk.injEq, and_true]
  omega

def encodeEntries (baseOffset : Int) (es : List Entry) : Bytes :=
  es.flatMap fun e => (newRelEntry e baseOffset).encode

theorem encodeEntries_append (baseOffset : Int) (es fs : List Entry) :
    encodeEntries baseOffset (es ++ fs) =
      encodeEntries baseOffset es ++ encodeEntries baseOffset fs := by
  simp only [encodeEntries, flatMap_append]

theorem length_encodeEntries (baseOffset : Int) (es : List Entry) :
    (encodeEntries baseOffset es).length = es.length * entryWidth := by
  induction es with
  | nil => simp [encodeEntries]
  | cons e es ih =>
    simp only [encodeEntries] at ih ⊢
    rw [flatMap_cons, length_append, ih, RelEntry.length_encode, length_cons,
      Nat.add_one_mul, Nat.add_comm]

theorem slot_encodeEntries (baseOffset : Int) (es : List Entry) (i : Nat) (inside : i < es.length) :
    ((encodeEntries baseOffset es).drop (i * entryWidth)).take entryWidth =
      (newRelEntry es[i] baseOffset).encode := by
  induction es generalizing i with
  | nil => simp at inside
  | cons e es ih =>
    have width := RelEntry.length_encode (newRelEntry e baseOffset)
    have split : encodeEntries baseOffset (e :: es) =
        (newRelEntry e baseOffset).encode ++ encodeEntries baseOffset es := rfl
    cases i with
    | zero =>
      rw [split, Nat.zero_mul, drop_zero, ← width, take_left]
      rfl
    | succ i =>
      have shift : (i + 1) * entryWidth =
          (newRelEntry e baseOffset).encode.length + i * entryWidth := by
        rw [width, Nat.add_one_mul, Nat.add_comm]
      rw [split, shift, drop_length_add_append]
      simpa using ih i (by simpa using inside)

/-- Bytes that the file lost since it was mapped cannot be written. -/
theorem Index.writeEntry_fault {d : Disk} (idx : Index) (e : Entry)
    (lost : (d.file idx.file.inode).size < idx.position + entryWidth) :
    ∃ why, (idx.writeEntry e).run d = .error why d := by
  have touched : ∃ why, (idx.touch idx.position).run d = .error why d := by
    by_cases beyond : idx.mapped < idx.position + entryWidth
    · exact ⟨.panic "slice bounds out of range", by simp only [Index.touch, beyond, ↓reduceIte]⟩
    · exact ⟨.panic "unexpected fault address",
        by simp only [Index.touch, beyond, lost, ↓reduceIte]⟩
  obtain ⟨why, faulted⟩ := touched
  refine ⟨why, ?_⟩
  unfold Index.writeEntry Index.writeAt
  exact bind_error (bind_error faulted)

/-- The index file carries exactly these entries, and its mapping is whole. -/
structure Index.Holds (idx : Index) (d : Disk) (es : List Entry) : Prop where
  inside : idx.file.inode < d.inodes.length
  position : idx.position = es.length * entryWidth
  size : (d.file idx.file.inode).size = idx.mapped
  room : es.length * entryWidth ≤ idx.mapped
  stored : (d.file idx.file.inode).content.take (es.length * entryWidth) =
    encodeEntries idx.baseOffset es

namespace Index.Holds

variable {idx : Index} {d : Disk} {es : List Entry}

theorem frame {d' : Disk} (holds : idx.Holds d es) (length : d.inodes.length ≤ d'.inodes.length)
    (same : d'.file idx.file.inode = d.file idx.file.inode) : idx.Holds d' es where
  inside := Nat.lt_of_lt_of_le holds.inside length
  position := holds.position
  size := by rw [same]; exact holds.size
  room := holds.room
  stored := by rw [same]; exact holds.stored

section

variable (holds : idx.Holds d es)
include holds

theorem writeAt_position (e : Entry)
    (space : (es.length + 1) * entryWidth ≤ idx.mapped) :
    (idx.writeAt (newRelEntry e idx.baseOffset).encode idx.position).run d =
      .ok () (d.setFile idx.file.inode ((d.file idx.file.inode).overwrite idx.position
        (newRelEntry e idx.baseOffset).encode)) := by
  have bound : idx.position + entryWidth ≤ idx.mapped := by
    rw [holds.position]
    rwa [Nat.add_one_mul] at space
  have touched : (idx.touch idx.position).run d = .ok () d := by
    simp only [Index.touch, holds.size, Nat.not_lt.mpr bound, ↓reduceIte]
  unfold Index.writeAt
  rw [bind_ok touched]
  simp only [take_of_length_le (Nat.le_of_eq (RelEntry.length_encode _))]

theorem writeEntry (e : Entry)
    (space : (es.length + 1) * entryWidth ≤ idx.mapped) :
    ∃ f : File,
      (idx.writeEntry e).run d =
        .ok { idx with position := idx.position + entryWidth } (d.setFile idx.file.inode f) ∧
      Index.Holds { idx with position := idx.position + entryWidth } (d.setFile idx.file.inode f)
        (es ++ [e]) ∧
      f = (d.file idx.file.inode).overwrite idx.position
        (newRelEntry e idx.baseOffset).encode := by
  have width := RelEntry.length_encode (newRelEntry e idx.baseOffset)
  have bound : idx.position + (newRelEntry e idx.baseOffset).encode.length ≤
      (d.file idx.file.inode).size := by
    rw [holds.position, holds.size, width]
    rwa [Nat.add_one_mul] at space
  refine ⟨(d.file idx.file.inode).overwrite idx.position (newRelEntry e idx.baseOffset).encode,
    ?_, ⟨?_, ?_, ?_, ?_, ?_⟩, rfl⟩
  · unfold Index.writeEntry
    rw [bind_ok (holds.writeAt_position e space)]
    rfl
  · simpa using holds.inside
  · simp only [holds.position, length_append, length_singleton, Nat.add_one_mul]
  · rw [Disk.file_setFile_same _ holds.inside, File.size_overwrite _ _ _ bound, holds.size]
  · simpa using space
  · have front : ((d.file idx.file.inode).content.take idx.position).length = idx.position := by
      rw [length_take, File.length_content, Nat.min_eq_left (by omega)]
    rw [Disk.file_setFile_same _ holds.inside, File.content_overwrite _ _ _ bound]
    have total : (es ++ [e]).length * entryWidth =
        ((d.file idx.file.inode).content.take idx.position ++
          (newRelEntry e idx.baseOffset).encode).length := by
      simp only [length_append, length_singleton, width, Nat.add_one_mul]
      rw [front, holds.position]
    rw [total, take_left, encodeEntries_append, holds.position, holds.stored]
    simp only [encodeEntries, flatMap_cons, flatMap_nil, append_nil]

/-- A full index cannot take an entry: the slice of the mapping is out of range. -/
theorem writeEntry_full (e : Entry)
    (full : idx.mapped < (es.length + 1) * entryWidth) :
    (idx.writeEntry e).run d = .error (.panic "slice bounds out of range") d := by
  have beyond : idx.mapped < idx.position + entryWidth := by
    rw [holds.position]
    rwa [Nat.add_one_mul] at full
  have touched : (idx.touch idx.position).run d =
      .error (.panic "slice bounds out of range") d := by
    simp only [Index.touch, beyond, ↓reduceIte]
  have written : (idx.writeAt (newRelEntry e idx.baseOffset).encode idx.position).run d =
      .error (.panic "slice bounds out of range") d := by
    unfold Index.writeAt
    rw [bind_error touched]
  unfold Index.writeEntry
  rw [bind_error written]

theorem readEntry (i : Nat) (inside : i < es.length) :
    (idx.readEntryAtFileOffset (i * entryWidth)).run d = .ok (es[i].stored idx.baseOffset) d := by
  have within : i * entryWidth + entryWidth ≤ es.length * entryWidth := by
    rw [← Nat.add_one_mul]
    exact Nat.mul_le_mul_right _ inside
  have room := holds.room
  have reached : ¬ idx.position < i * entryWidth + entryWidth := by
    rw [holds.position]; omega
  have touched : (idx.touch (i * entryWidth)).run d = .ok () d := by
    simp only [Index.touch, holds.size, Nat.not_lt.mpr (Nat.le_trans within room), ↓reduceIte]
  have bytes : (d.file idx.file.inode).read (i * entryWidth) entryWidth =
      (newRelEntry es[i] idx.baseOffset).encode := by
    rw [File.read_eq, ← slot_encodeEntries idx.baseOffset es i inside, ← holds.stored,
      drop_take, take_take, Nat.min_eq_left (by omega)]
  have read : (idx.readAt (i * entryWidth)).run d =
      .ok (newRelEntry es[i] idx.baseOffset).encode d := by
    simp only [Index.readAt, reached, ↓reduceIte]
    rw [bind_ok touched]
    simp only [bytes]
  unfold Index.readEntryAtFileOffset
  rw [bind_ok read, RelEntry.decode_encode]
  rfl

/-- Slots behind the last entry read as the end of the file. -/
theorem readEntry_eof (i : Nat) (outside : es.length ≤ i) :
    (idx.readEntryAtFileOffset (i * entryWidth)).run d = .error (.err .eof) d := by
  have beyond : idx.position < i * entryWidth + entryWidth := by
    rw [holds.position]
    have := Nat.mul_le_mul_right entryWidth outside
    simp only [entryWidth] at *
    omega
  have read : (idx.readAt (i * entryWidth)).run d = .error (.err .eof) d := by
    simp only [Index.readAt, beyond, ↓reduceIte, run_fail]
  unfold Index.readEntryAtFileOffset
  rw [bind_error read]

end

end Index.Holds

end Jocko.Commitlog
