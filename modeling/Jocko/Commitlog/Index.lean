import Jocko.Go.Disk

namespace Jocko.Commitlog

open Go

def entryWidth : Nat := 8

/-- The file size that `NewIndex` gives an index unless it is told one. -/
def indexBytes : Nat := 10 * 1024 * 1024

structure Entry where
  offset : Int
  position : Int
  deriving DecidableEq

/-- An entry relative to the base offset, in two 32-bit fields. -/
structure RelEntry where
  offset : Int
  position : Int

def newRelEntry (e : Entry) (baseOffset : Int) : RelEntry :=
  ⟨int32 (e.offset - baseOffset), int32 e.position⟩

def RelEntry.fill (rel : RelEntry) (baseOffset : Int) : Entry :=
  ⟨baseOffset + rel.offset, rel.position⟩

/-- `binary.Write(b, Encoding, relEntry)`. -/
def RelEntry.encode (rel : RelEntry) : Bytes :=
  putUint 4 (uint32 rel.offset) ++ putUint 4 (uint32 rel.position)

/-- `binary.Read(b, Encoding, rel)`. -/
def RelEntry.decode (p : Bytes) : RelEntry :=
  ⟨int32 (getUint (p.take 4)), int32 (getUint ((p.drop 4).take 4))⟩

def roundDown (total factor : Nat) : Nat := factor * (total / factor)

def errIndexCorrupt : Err := .new "corrupt index file"

/-- An index file and its shared mapping, `mapped` bytes long. The mapping stays
when the file is closed. -/
structure Index where
  bytes : Nat
  baseOffset : Int
  file : OsFile
  mapped : Nat
  position : Nat
  deriving DecidableEq

def newIndex (path : FileName) (bytes : Nat) (baseOffset : Int) : Call Disk Index := do
  let bytes := if bytes = 0 then indexBytes else bytes
  if path.dir = "" ∧ path.base = [] then
    fail (.new "path is empty")
  else
    let file ← wrap "open file failed" (Disk.openFile path)
    let size ← wrap "stat file failed" file.size
    file.truncate (roundDown bytes entryWidth)
    wrap "mmap file failed" Disk.tick
    return { bytes, baseOffset, file, mapped := roundDown bytes entryWidth, position := size }

namespace Index

/-- Touch `mmap[offset:offset+entryWidth]`. The slice is bounds-checked; bytes that
the file has lost since it was mapped raise a fault. -/
def touch (idx : Index) (offset : Nat) : Call Disk Unit := ⟨fun d =>
  if idx.mapped < offset + entryWidth then .error (.panic "slice bounds out of range") d
  else if (d.file idx.file.inode).size < offset + entryWidth then
    .error (.panic "unexpected fault address") d
  else .ok () d⟩

def writeAt (idx : Index) (p : Bytes) (offset : Nat) : Call Disk Unit := do
  idx.touch offset
  ⟨fun d => .ok () (d.setFile idx.file.inode
    ((d.file idx.file.inode).overwrite offset (p.take entryWidth)))⟩

def readAt (idx : Index) (offset : Nat) : Call Disk Bytes :=
  if idx.position < offset + entryWidth then fail .eof
  else do
    idx.touch offset
    ⟨fun d => .ok ((d.file idx.file.inode).read offset entryWidth) d⟩

def writeEntry (idx : Index) (entry : Entry) : Call Disk Index := do
  idx.writeAt (newRelEntry entry idx.baseOffset).encode idx.position
  return { idx with position := idx.position + entryWidth }

def readEntryAtFileOffset (idx : Index) (fileOffset : Nat) : Call Disk Entry := do
  let p ← idx.readAt fileOffset
  return (RelEntry.decode p).fill idx.baseOffset

def readEntryAtLogOffset (idx : Index) (logOffset : Nat) : Call Disk Entry :=
  idx.readEntryAtFileOffset (logOffset * entryWidth)

def sync (idx : Index) : Call Disk Unit := do
  wrap "file sync failed" idx.file.sync
  wrap "mmap sync failed" Disk.tick

def close (idx : Index) : Call Disk Index := do
  idx.sync
  idx.file.truncate idx.position
  let file ← idx.file.close
  return { idx with file }

def truncateEntries (idx : Index) (number : Nat) : Call Disk Index :=
  if idx.position < number * entryWidth then fail (.new "bad truncate number")
  else return { idx with position := number * entryWidth }

def sanityCheck (idx : Index) : Call Disk Unit :=
  if idx.position = 0 then return ()
  else if idx.position % entryWidth ≠ 0 then fail errIndexCorrupt
  else do
    let entry ← idx.readEntryAtFileOffset (idx.position - entryWidth)
    if entry.offset < idx.baseOffset then fail errIndexCorrupt else return ()

end Index

/-- The state of an `IndexScanner`: the entry it hands out and its place. -/
structure IndexScanner where
  entry : Entry
  offset : Nat

def newIndexScanner : IndexScanner := ⟨⟨0, 0⟩, 0⟩

def IndexScanner.scan (s : IndexScanner) (idx : Index) : Call Disk IndexScanner := do
  let entry ← idx.readEntryAtLogOffset s.offset
  if entry.offset = 0 ∧ s.offset ≠ 0 then fail .eof
  else return ⟨entry, s.offset + 1⟩

end Jocko.Commitlog
