import Jocko.Go.Outcome
import Jocko.Go.Bytes
import Jocko.Go.Names

namespace Jocko.Go

open List

/-- A regular file. The `hole` zero bytes that end it are not written out, as in a
sparse file that was grown by a truncation. -/
structure File where
  bytes : Bytes
  hole : Nat
  deriving DecidableEq

namespace File

def size (f : File) : Nat := f.bytes.length + f.hole

/-- All the bytes of the file. -/
def content (f : File) : Bytes := f.bytes ++ List.replicate f.hole 0

/-- At most `count` bytes from byte `start` on, fewer at the end of the file. -/
def read (f : File) (start count : Nat) : Bytes :=
  let stored := (f.bytes.drop start).take count
  stored ++ List.replicate
    (min (count - stored.length) (f.size - max start f.bytes.length)) 0

/-- Write behind the last byte. -/
def append (f : File) (p : Bytes) : File :=
  if f.hole = 0 then ⟨f.bytes ++ p, 0⟩ else ⟨f.content ++ p, 0⟩

/-- Overwrite inside the file. -/
def overwrite (f : File) (start : Nat) (p : Bytes) : File :=
  let padded := f.bytes ++ List.replicate (start + p.length - f.bytes.length) 0
  ⟨padded.take start ++ p ++ padded.drop (start + p.length), f.size - padded.length⟩

/-- `ftruncate`: cut the file, or extend it by zero bytes. -/
def truncate (f : File) (length : Nat) : File :=
  if length ≤ f.bytes.length then ⟨f.bytes.take length, 0⟩
  else ⟨f.bytes, length - f.bytes.length⟩

variable (f : File)

@[simp] theorem length_content : f.content.length = f.size := by
  simp only [content, size, length_append, length_replicate]

@[simp] theorem content_plain (p : Bytes) : content ⟨p, 0⟩ = p := by
  simp only [content, replicate_zero, append_nil]

@[simp] theorem size_plain (p : Bytes) : size ⟨p, 0⟩ = p.length := rfl

theorem read_eq (start count : Nat) :
    f.read start count = (f.content.drop start).take count := by
  simp only [read, content, size, drop_append, take_append, drop_replicate,
    take_replicate, length_take, length_drop]
  congr 2
  omega

theorem size_truncate (length : Nat) : (f.truncate length).size = length := by
  unfold truncate
  split
  · simp only [size, length_take]
    omega
  · simp only [size]
    omega

theorem content_truncate (length : Nat) :
    (f.truncate length).content = f.content.take length ++ List.replicate (length - f.size) 0 := by
  unfold truncate content size
  split
  · rename_i short
    simp only [replicate_zero, append_nil, take_append,
      take_replicate]
    rw [show length - f.bytes.length = 0 by omega,
      show length - (f.bytes.length + f.hole) = 0 by omega]
    simp
  · rename_i long
    rw [take_append, take_of_length_le (by omega), take_replicate,
      append_assoc, ← replicate_add]
    congr 2
    change length - f.bytes.length = _
    omega

theorem size_overwrite (start : Nat) (p : Bytes) (inside : start + p.length ≤ f.size) :
    (f.overwrite start p).size = f.size := by
  simp only [size] at inside
  simp only [overwrite, size, length_append, length_take, length_drop,
    length_replicate]
  omega

theorem content_overwrite (start : Nat) (p : Bytes)
    (inside : start + p.length ≤ f.size) : (f.overwrite start p).content =
      f.content.take start ++ p ++ f.content.drop (start + p.length) := by
  have padding : f.bytes ++ replicate (start + p.length - f.bytes.length) 0 ++
      replicate (f.size - (f.bytes.length + (start + p.length - f.bytes.length))) 0 =
        f.content := by
    simp only [size] at inside
    rw [append_assoc, ← replicate_add, content]
    congr 2
    simp only [size]
    omega
  have reach : start + p.length ≤
      (f.bytes ++ replicate (start + p.length - f.bytes.length) (0 : UInt8)).length := by
    simp only [length_append, length_replicate]
    omega
  rw [← padding, take_append_of_le_length (by omega), drop_append_of_le_length reach]
  simp only [overwrite, content, length_append, length_replicate, append_assoc]

end File

/-- A file name in its directory. -/
structure FileName where
  dir : String
  base : List Char
  deriving DecidableEq

/-- What the environment makes of one system call. A `short` write stores only a
first part of its bytes and then fails. -/
inductive Outcome where
  | done
  | fail
  | short (count : Nat)
  | crash
  deriving DecidableEq

/-- The files of a machine. Inode numbers are positions in `inodes` and are never
reused, so an open file outlives its name. `script` decides the fate of the next
system calls; once it is used up they all succeed. -/
structure Disk where
  inodes : List File
  names : List (FileName × Nat)
  script : List Outcome
  deriving DecidableEq

/-- An `*os.File`. -/
structure OsFile where
  path : FileName
  inode : Nat
  cursor : Nat
  closed : Bool
  deriving DecidableEq

namespace Disk

/-- The next system call, for those that either happen or do not. -/
def tick : Call Disk Unit := ⟨fun d =>
  match d.script with
  | [] => .ok () d
  | .done :: rest => .ok () { d with script := rest }
  | .crash :: _ => .error .crash d
  | _ :: rest => .error (.err .fault) { d with script := rest }⟩

def lookup (d : Disk) (path : FileName) : Option Nat := d.names.lookup path

def file (d : Disk) (inode : Nat) : File := d.inodes.getD inode ⟨[], 0⟩

def setFile (d : Disk) (inode : Nat) (f : File) : Disk :=
  { d with inodes := d.inodes.set inode f }

/-- `os.OpenFile` with `os.O_CREATE`. -/
def openFile (path : FileName) : Call Disk OsFile := do
  tick
  ⟨fun d =>
    match d.lookup path with
    | some inode => .ok ⟨path, inode, 0, false⟩ d
    | none => .ok ⟨path, d.inodes.length, 0, false⟩
        { d with inodes := d.inodes ++ [⟨[], 0⟩],
                 names := d.names ++ [(path, d.inodes.length)] }⟩

/-- `os.Remove`. The inode stays for those that still have it open. -/
def remove (path : FileName) : Call Disk Unit := do
  tick
  ⟨fun d =>
    match d.lookup path with
    | some _ => .ok () { d with names := d.names.filter (fun entry => entry.1 ≠ path) }
    | none => .error (.err .notExist) d⟩

/-- `os.Rename`. An existing file of the new name loses it. -/
def rename (source target : FileName) : Call Disk Unit := do
  tick
  ⟨fun d =>
    match d.lookup source with
    | some inode => .ok () { d with
        names := d.names.filter (fun entry => entry.1 ≠ source ∧ entry.1 ≠ target) ++
          [(target, inode)] }
    | none => .error (.err .notExist) d⟩

/-- `os.Stat` as far as callers look at it: whether the name exists. -/
def exists? (path : FileName) : Call Disk Bool := do
  tick
  ⟨fun d => .ok (d.lookup path).isSome d⟩

/-- The names of a directory in the order of `ioutil.ReadDir`. -/
def readDir (dir : String) : Call Disk (List (List Char)) := do
  tick
  ⟨fun d => .ok (sortNames ((d.names.filter (fun entry => entry.1.dir = dir)).map
    fun entry => entry.1.base)) d⟩

end Disk

namespace OsFile

/-- Every operation on a closed file fails before it reaches the system. -/
def guard (f : OsFile) : Call Disk Unit :=
  if f.closed then fail .closed else Disk.tick

/-- `f.Stat().Size()`. -/
def size (f : OsFile) : Call Disk Nat := do
  f.guard
  ⟨fun d => .ok (d.file f.inode).size d⟩

def truncate (f : OsFile) (length : Nat) : Call Disk Unit := do
  f.guard
  ⟨fun d => .ok () (d.setFile f.inode ((d.file f.inode).truncate length))⟩

def sync (f : OsFile) : Call Disk Unit := f.guard

def close (f : OsFile) : Call Disk OsFile := do
  f.guard
  return { f with closed := true }

/-- The system call of a write: all of `p`, or a first part of it and an error. -/
def writeCall (f : OsFile) (p : Bytes) : Call Disk Unit := ⟨fun d =>
  match d.script with
  | .short count :: rest => .error (.err .fault)
      ({ d with script := rest }.setFile f.inode ((d.file f.inode).append (p.take count)))
  | .fail :: rest => .error (.err .fault) { d with script := rest }
  | .crash :: _ => .error .crash d
  | .done :: rest => .ok () ({ d with script := rest }.setFile f.inode
      ((d.file f.inode).append p))
  | [] => .ok () (d.setFile f.inode ((d.file f.inode).append p))⟩

/-- `f.Write` on a file opened with `os.O_APPEND`, which leaves the cursor at the end. -/
def write (f : OsFile) (p : Bytes) : Call Disk OsFile :=
  if f.closed then fail .closed
  else do
    f.writeCall p
    ⟨fun d => .ok { f with cursor := (d.file f.inode).size } d⟩

/-- `f.Read` of up to `count` bytes at the cursor; an empty result for a positive
`count` is the end of the file. -/
def read (f : OsFile) (count : Nat) : Call Disk (Bytes × OsFile) := do
  f.guard
  ⟨fun d =>
    let p := (d.file f.inode).read f.cursor count
    .ok (p, { f with cursor := f.cursor + p.length }) d⟩

/-- `io.CopyN(b, f, count)`: the bytes that reach `b`, fewer than `count` exactly when
it returns `io.EOF`. -/
def copyN (f : OsFile) (count : Nat) : Call Disk (Bytes × OsFile) :=
  if count = 0 then return ([], f) else f.read count

/-- `f.ReadAt` into a buffer of `count` bytes: what it read, and `io.EOF` when that
is less than the buffer. An empty buffer reads nothing and meets no end. -/
def readAt (f : OsFile) (count : Nat) (start : Int) : Call Disk (Bytes × Option Err) :=
  if start < 0 then fail .negativeOffset
  else if count = 0 then return ([], none)
  else do
    f.guard
    ⟨fun d =>
      let p := (d.file f.inode).read start.toNat count
      .ok (p, if p.length < count then some Err.eof else none) d⟩

/-- `f.Seek(offset, 0)` and `f.Seek(offset, 1)` for offsets that are not negative. -/
def seekStart (f : OsFile) (offset : Nat) : Call Disk OsFile := do
  f.guard
  return { f with cursor := offset }

def seekCurrent (f : OsFile) (offset : Nat) : Call Disk OsFile := do
  f.guard
  return { f with cursor := f.cursor + offset }

end OsFile

end Jocko.Go
