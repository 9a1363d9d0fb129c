import Jocko.Go.Disk

namespace Jocko.Go

open List

namespace Disk

variable {d : Disk}
variable {inode : Nat}

theorem file_setFile_same (f : File) (inside : inode < d.inodes.length) :
    (d.setFile inode f).file inode = f := by
  simp [file, setFile, getD_eq_getElem?_getD, inside]

theorem file_setFile_ne {other : Nat} (f : File) (apart : inode ≠ other) :
    (d.setFile inode f).file other = d.file other := by
  simp [file, setFile, getD_eq_getElem?_getD, getElem?_set_ne apart]

theorem setFile_file (inside : inode < d.inodes.length) : d.setFile inode (d.file inode) = d := by
  simp [file, setFile, getD_eq_getElem?_getD, inside]

@[simp] theorem setFile_setFile (inode : Nat) (f g : File) :
    (d.setFile inode f).setFile inode g = d.setFile inode g := by
  simp only [setFile, set_set]

@[simp] theorem length_inodes_setFile (inode : Nat) (f : File) :
    (d.setFile inode f).inodes.length = d.inodes.length := by
  simp only [setFile, length_set]

/-- The disk with one more, empty file. -/
def create (d : Disk) (path : FileName) : Disk :=
  { d with inodes := d.inodes ++ [⟨[], 0⟩], names := d.names ++ [(path, d.inodes.length)] }

@[simp] theorem length_inodes_create (path : FileName) :
    (d.create path).inodes.length = d.inodes.length + 1 := by
  simp only [create, length_append, length_singleton]

theorem file_create_old (path : FileName) (inside : inode < d.inodes.length) :
    (d.create path).file inode = d.file inode := by
  simp [file, create, getD_eq_getElem?_getD, getElem?_append_left inside]

theorem file_create_new (path : FileName) : (d.create path).file d.inodes.length = ⟨[], 0⟩ := by
  simp [file, create, getD_eq_getElem?_getD]

variable {path : FileName}

theorem lookup_create_ne {other : FileName} (apart : other ≠ path) :
    (d.create path).lookup other = d.lookup other := by
  have distinct : (other == path) = false := by simpa using apart
  simp only [lookup, create, lookup_append]
  simp [lookup_cons, distinct]

/-- The disk without a name. -/
def unlink (d : Disk) (path : FileName) : Disk :=
  { d with names := d.names.filter fun entry => entry.1 ≠ path }

@[simp] theorem inodes_unlink (path : FileName) : (d.unlink path).inodes = d.inodes := rfl

@[simp] theorem file_unlink (path : FileName) (inode : Nat) :
    (d.unlink path).file inode = d.file inode := rfl

theorem lookup_unlink_ne {other : FileName} (apart : other ≠ path) :
    (d.unlink path).lookup other = d.lookup other := by
  simp only [lookup, unlink]
  induction d.names with
  | nil => rfl
  | cons entry names ih =>
    obtain ⟨name, inode⟩ := entry
    by_cases same : name = path
    · have differ : (other == path) = false := by simpa using apart
      simpa [lookup_cons, same, differ] using ih
    · simp only [filter_cons, ne_eq, same, not_false_eq_true, decide_true, ↓reduceIte,
        lookup_cons]
      split
      · rfl
      · simpa using ih

theorem lookup_unlink_same (path : FileName) : (d.unlink path).lookup path = none := by
  simp only [lookup, unlink, lookup_eq_none_iff, mem_filter]
  rintro ⟨name, inode⟩ ⟨-, kept⟩
  have differ : name ≠ path := by simpa using kept
  simpa using differ.symm

/-- The entries of a directory. -/
def listing (d : Disk) (dir : String) : List (FileName × Nat) :=
  d.names.filter fun entry => entry.1.dir = dir

@[simp] theorem listing_setFile (inode : Nat) (f : File) (dir : String) :
    (d.setFile inode f).listing dir = d.listing dir := rfl

@[simp] theorem listing_create (path : FileName) :
    (d.create path).listing path.dir = d.listing path.dir ++ [(path, d.inodes.length)] := by
  simp [listing, create]

theorem listing_create_ne {dir : String} (apart : path.dir ≠ dir) :
    (d.create path).listing dir = d.listing dir := by
  simp [listing, create, apart]

theorem listing_unlink (path : FileName) (dir : String) :
    (d.unlink path).listing dir = (d.listing dir).filter fun entry => entry.1 ≠ path := by
  simp only [listing, unlink, filter_filter, Bool.and_comm]

theorem lookup_listing (path : FileName) : d.lookup path = (d.listing path.dir).lookup path := by
  simp only [lookup, listing]
  induction d.names with
  | nil => rfl
  | cons entry names ih =>
    obtain ⟨name, inode⟩ := entry
    by_cases same : path = name
    · subst same
      simp
    · have other : (path == name) = false := by simpa using same
      by_cases here : name.dir = path.dir
      · simp [lookup_cons, here, other, ih]
      · simp [lookup_cons, here, other, ih]

variable (quiet : d.script = [])

include quiet

theorem tick_quiet : tick.run d = .ok () d := by
  simp only [tick, quiet]

theorem openFile_old (found : d.lookup path = some inode) :
    (openFile path).run d = .ok ⟨path, inode, 0, false⟩ d := by
  unfold openFile
  rw [bind_ok (tick_quiet quiet)]
  simp only [found]

theorem openFile_new (absent : d.lookup path = none) :
    (openFile path).run d = .ok ⟨path, d.inodes.length, 0, false⟩ (d.create path) := by
  unfold openFile
  rw [bind_ok (tick_quiet quiet)]
  simp only [absent, create]

theorem remove_old (found : d.lookup path = some inode) :
    (remove path).run d = .ok () (d.unlink path) := by
  unfold remove
  rw [bind_ok (tick_quiet quiet)]
  simp only [found, unlink]

theorem remove_missing (absent : d.lookup path = none) :
    (remove path).run d = .error (.err .notExist) d := by
  unfold remove
  rw [bind_ok (tick_quiet quiet)]
  simp only [absent]

theorem exists?_quiet (path : FileName) : (exists? path).run d = .ok (d.lookup path).isSome d := by
  unfold exists?
  rw [bind_ok (tick_quiet quiet)]

theorem readDir_quiet (dir : String) : (readDir dir).run d =
      .ok (sortNames ((d.listing dir).map fun entry => entry.1.base)) d := by
  unfold readDir
  rw [bind_ok (tick_quiet quiet)]
  rfl

end Disk

namespace OsFile

variable {d : Disk} {f : OsFile} (quiet : d.script = []) (live : f.closed = false)

include quiet live

theorem guard_live : f.guard.run d = .ok () d := by
  simp only [guard, live, Bool.false_eq_true, ↓reduceIte, Disk.tick_quiet quiet]

theorem size_live : f.size.run d = .ok (d.file f.inode).size d := by
  unfold size
  rw [bind_ok (guard_live quiet live)]

theorem truncate_live (length : Nat) :
    (f.truncate length).run d = .ok () (d.setFile f.inode ((d.file f.inode).truncate length)) := by
  unfold truncate
  rw [bind_ok (guard_live quiet live)]

theorem close_live : f.close.run d = .ok { f with closed := true } d := by
  unfold close
  rw [bind_ok (guard_live quiet live)]
  rfl

theorem write_live (p : Bytes) (inside : f.inode < d.inodes.length) :
    (f.write p).run d = .ok { f with cursor := ((d.file f.inode).append p).size }
      (d.setFile f.inode ((d.file f.inode).append p)) := by
  have stored : (f.writeCall p).run d =
      .ok () (d.setFile f.inode ((d.file f.inode).append p)) := by
    simp only [writeCall, quiet]
  simp only [write, live, Bool.false_eq_true, ↓reduceIte]
  rw [bind_ok stored]
  simp only [Disk.file_setFile_same _ inside]

theorem copyN_live (count : Nat) :
    (f.copyN count).run d = .ok ((d.file f.inode).read f.cursor count,
      { f with cursor := f.cursor + ((d.file f.inode).read f.cursor count).length }) d := by
  unfold copyN
  split
  · rename_i none
    subst none
    have empty : (d.file f.inode).read f.cursor 0 = [] := by rw [File.read_eq, take_zero]
    rw [empty]
    rfl
  · unfold read
    rw [bind_ok (guard_live quiet live)]

theorem readAt_live (count start : Nat) :
    (f.readAt count start).run d = .ok ((d.file f.inode).read start count,
      if ((d.file f.inode).read start count).length < count then some Err.eof else none) d := by
  have nonneg : ¬ (start : Int) < 0 := by omega
  simp only [readAt, nonneg, ↓reduceIte]
  split
  · rename_i none
    subst none
    have empty : (d.file f.inode).read start 0 = [] := by rw [File.read_eq, take_zero]
    simp only [empty, length_nil, Nat.lt_irrefl, ↓reduceIte, run_pure]
  · rw [bind_ok (guard_live quiet live)]
    simp only [Int.toNat_natCast]

theorem seekStart_live (offset : Nat) :
    (f.seekStart offset).run d = .ok { f with cursor := offset } d := by
  unfold seekStart
  rw [bind_ok (guard_live quiet live)]
  rfl

theorem seekCurrent_live (offset : Nat) :
    (f.seekCurrent offset).run d = .ok { f with cursor := f.cursor + offset } d := by
  unfold seekCurrent
  rw [bind_ok (guard_live quiet live)]
  rfl

end OsFile

end Jocko.Go
