import Jocko.Fsm.Commands

namespace Jocko.Fsm

open Go MemDB

abbrev MessageType := UInt8

/-- The first entry of a snapshot. -/
structure SnapshotHeader where
  lastIndex : UInt64

/-- The msgpack codec on headers. A decoder reads from the front of a stream. -/
structure Codec where
  encode : SnapshotHeader → Bytes
  decode : Bytes → Except Err (SnapshotHeader × Bytes)
  round : ∀ header more, decode (encode header ++ more) = .ok (header, more)

/-- A snapshot holds a read transaction on the store. -/
structure Snapshot where
  store : Store
  lastIndex : UInt64

/-- What helps to write the state to a sink. -/
abbrev Persister := Snapshot → Call Bytes Unit

/-- What reads rows back: how many bytes it used, and the store with the rows. -/
abbrev Restorer := SnapshotHeader → Bytes → Store → Except Err (Nat × Store)

/-- Nothing calls `registerPersister`. -/
def persisters : List Persister := []

/-- Nothing calls `registerRestorer`. -/
def restorers : MessageType → Option Restorer := fun _ => none

section

variable (lower : Str → Str) (codec : Codec)

/-- `Store.Snapshot` -/
def Store.snapshot (s : Store) : Snapshot :=
  ⟨s, s.maxIndexTxn lower [.index, .nodes, .topics, .partitions, .groups]⟩

def write (bs : Bytes) : Call Bytes Unit := ⟨fun sink => .ok () (sink ++ bs)⟩

/-- `snapshot.Persist` -/
def persist (snapshot : Snapshot) : Call Bytes Unit := do
  write (codec.encode ⟨snapshot.lastIndex⟩)
  persisters.forM fun fn => fn snapshot

/-- The loop of `FSM.Restore`: a message type, then what its restorer reads. -/
def restoreRows (header : SnapshotHeader) : Bytes → Store → Except Err Store
  | [], s => .ok s
  | msg :: old, s =>
    match restorers msg with
    | some fn => do
      let (used, s) ← fn header old s
      restoreRows header (old.drop used) s
    | none => .error (.new ("unrecognized msg type " ++ toString msg.toNat))
termination_by old => old.length

/-- `FSM.Restore`, in a machine whose store is `c`. -/
def restore (old : Bytes) (c : Store) : Store × Option Err :=
  match codec.decode old with
  | .error cause => (c, some cause)
  | .ok (header, old) =>
    match restoreRows header old Store.new with
    | .error cause => (c, some cause)
    | .ok s => (s, none)

/-- The queries return the same rows, and the tables have the same indexes. -/
structure Store.SameRows (s s' : Store) : Prop where
  nodes : (s.getNodes lower).2.map Obj.val = (s'.getNodes lower).2.map Obj.val
  topics : (s.getTopics lower).2.map Obj.val = (s'.getTopics lower).2.map Obj.val
  partitions : (s.getPartitions lower).2.map Obj.val = (s'.getPartitions lower).2.map Obj.val
  groups : (s.getGroups lower).2.map Obj.val = (s'.getGroups lower).2.map Obj.val
  byLeader : ∀ leader, (s.partitionsByLeader lower leader).2.map Obj.val =
    (s'.partitionsByLeader lower leader).2.map Obj.val
  byCoordinator : ∀ coordinator, (s.getGroupsByCoordinator lower coordinator).2.map Obj.val =
    (s'.getGroupsByCoordinator lower coordinator).2.map Obj.val
  entry : ∀ table, s.entry lower table = s'.entry lower table

end

/-- A command that registers something under a name. -/
def Command.stores : Command → Bool
  | registerNode _ => true
  | registerTopic topic => topic.topic ≠ []
  | registerPartition partition => partition.topic ≠ []
  | registerGroup group => group.group ≠ []
  | deregisterNode _ | deregisterTopic _ | deregisterPartition _ => false

variable {lower : Str → Str} {s s' : Store}

/-- A snapshot is its header, whatever the store holds. -/
theorem persist_run (codec : Codec) (snapshot : Snapshot) :
    (persist codec snapshot).run [] = .ok () (codec.encode ⟨snapshot.lastIndex⟩) := rfl

theorem restore_header (codec : Codec) (header : SnapshotHeader) (c : Store) :
    restore codec (codec.encode header) c = (Store.new, none) := by
  have read := codec.round header []
  rw [List.append_nil] at read
  have done : restoreRows header [] Store.new = .ok Store.new := by
    rw [restoreRows]
  simp only [restore, read, done]

namespace Kind

variable {ι α : Type} {kind : Kind ι α} {op : Command → Option (Op α)}
variable {key : Bytes}

section

variable (reads : kind.Reads lower op)
include reads

theorem Reads.apply_register (clean : s.Clean lower)
    (idx : UInt64) (command : Command) {row : α} (asked : op command = some (.register row))
    (primary : kind.schema.id row = some key) :
    ∃ s', Store.apply lower idx command s = (s', none) ∧ kind.Wrote lower idx s s' key
      (some (kind.stamp row (kind.created idx (kind.row? s key)) idx)) := by
  obtain ⟨s', done, wrote⟩ := (reads.sound clean).ensureTxn idx primary
  exact ⟨s', by simp only [Store.apply, reads.register asked, done], wrote⟩

theorem Reads.apply_register_of_none (s : Store) (idx : UInt64)
    (command : Command) {row : α} (asked : op command = some (.register row))
    (missing : kind.schema.id row = none) :
    ∃ cause, Store.apply lower idx command s = (s, some cause) := by
  obtain ⟨cause, failed⟩ := ensureTxn_of_none lower s idx missing
  exact ⟨cause, by simp only [Store.apply, reads.register asked, failed]⟩

theorem Reads.apply_deregister (clean : s.Clean lower)
    (idx : UInt64) (command : Command) {row : α} (asked : op command = some (.deregister key))
    (present : kind.row? s key = some row) : ∃ s', Store.apply lower idx command s = (s', none) ∧
      kind.Wrote lower idx s s' key none := by
  obtain ⟨s', done, wrote⟩ := (reads.sound clean).deleteTxn idx present
  exact ⟨s', by simp only [Store.apply, reads.deregister asked, done], wrote⟩

theorem Reads.apply_deregister_of_none (idx : UInt64)
    (command : Command) (asked : op command = some (.deregister key)) (absent : kind.row? s key = none) :
    Store.apply lower idx command s = (s, none) := by
  simp only [Store.apply, reads.deregister asked, deleteTxn_of_none absent]

end

end Kind

namespace Store

theorem Clean.entry_isSome_apply (clean : s.Clean lower) {idx : UInt64} {command : Command}
    {table : TableName} (present : (s.entry lower table).isSome = true) :
    ((Store.apply lower idx command s).1.entry lower table).isSome = true := by
  unfold Store.apply
  split
  · rename_i s' done
    rcases (clean.commit done).entry with unchanged | entries
    · exact unchanged ▸ present
    · rw [entries]
      split
      · rfl
      · exact present
  · exact present

theorem Clean.entry_isSome_applyAll (clean : s.Clean lower)
    (entries : List (UInt64 × Command)) {table : TableName}
    (present : (s.entry lower table).isSome = true) :
    ((Store.applyAll lower entries s).entry lower table).isSome = true := by
  induction entries generalizing s with
  | nil => exact present
  | cons entry entries ih =>
    exact ih (clean.apply entry.1 entry.2) (clean.entry_isSome_apply present)

theorem Clean.entry_of_stores (clean : s.Clean lower) {idx : UInt64} {command : Command}
    (stores : command.stores = true) :
    ((Store.apply lower idx command s).1.entry lower command.table).isSome = true := by
  cases command with
  | registerNode node =>
    obtain ⟨s', applied, wrote⟩ :=
      nodeKind_reads.apply_register clean idx (.registerNode node) rfl rfl
    rw [applied, wrote.entry]
    rfl
  | registerTopic topic =>
    have named : (topicKind lower).schema.id topic.configured =
        some (lowerKey lower topic.configured.topic) := by
      apply if_neg
      unfold Topic.configured
      split <;> simpa [Command.stores] using stores
    obtain ⟨s', applied, wrote⟩ :=
      topicKind_reads.apply_register clean idx (.registerTopic topic) rfl named
    rw [applied, wrote.entry]
    rfl
  | registerPartition partition =>
    have filled : partition.topic ≠ [] := by simpa [Command.stores] using stores
    have named : partitionKind.schema.id partition =
        some (partitionKey partition.topic partition.partition) := by
      simp only [partitionKind, partitionsTableSchema, stringField, if_neg filled]
      rfl
    obtain ⟨s', applied, wrote⟩ :=
      partitionKind_reads.apply_register clean idx (.registerPartition partition) rfl named
    rw [applied, wrote.entry]
    rfl
  | registerGroup group =>
    have filled : group.group ≠ [] := by simpa [Command.stores] using stores
    obtain ⟨s', applied, wrote⟩ := groupKind_reads.apply_register clean idx
      (.registerGroup group) rfl (if_neg filled)
    rw [applied, wrote.entry]
    rfl
  | deregisterNode node => cases stores
  | deregisterTopic topic => cases stores
  | deregisterPartition partition => cases stores

theorem apply_new_of_not_stores (idx : UInt64) {command : Command}
    (silent : command.stores = false) : (apply lower idx command new).1 = new := by
  cases command with
  | registerNode node => cases silent
  | registerTopic topic =>
    have missing : (topicKind lower).schema.id topic.configured = none := by
      apply if_pos
      unfold Topic.configured
      split <;> simpa [Command.stores] using silent
    obtain ⟨cause, applied⟩ := topicKind_reads.apply_register_of_none new idx
      (.registerTopic topic) rfl missing
    rw [applied]
  | registerPartition partition =>
    have missing : partitionKind.schema.id partition = none := by
      have unnamed : partition.topic = [] := by simpa [Command.stores] using silent
      simp [partitionKind, partitionsTableSchema, stringField, unnamed]
    obtain ⟨cause, applied⟩ := (@partitionKind_reads lower).apply_register_of_none
      new idx (.registerPartition partition) rfl missing
    rw [applied]
  | registerGroup group =>
    have unnamed : group.group = [] := by simpa [Command.stores] using silent
    obtain ⟨cause, applied⟩ := (@groupKind_reads lower).apply_register_of_none
      new idx (.registerGroup group) rfl (if_pos unnamed)
    rw [applied]
  | deregisterNode node =>
    rw [nodeKind_reads.apply_deregister_of_none idx (.deregisterNode node) rfl rfl]
  | deregisterTopic topic =>
    rw [topicKind_reads.apply_deregister_of_none idx (.deregisterTopic topic) rfl rfl]
  | deregisterPartition partition =>
    rw [partitionKind_reads.apply_deregister_of_none idx
      (.deregisterPartition partition) rfl rfl]

theorem applyAll_new_of_not_stores {entries : List (UInt64 × Command)}
    (silent : ∀ entry ∈ entries, entry.2.stores = false) : applyAll lower entries new = new := by
  induction entries with
  | nil => rfl
  | cons entry entries ih =>
    have first := @apply_new_of_not_stores lower entry.1 _
      (silent entry (List.mem_cons_self ..))
    have rest := ih fun e inside => silent e (List.mem_cons_of_mem _ inside)
    simp only [applyAll, List.foldl_cons, first] at rest ⊢
    exact rest

theorem Clean.entry_of_mem (clean : s.Clean lower) {entries : List (UInt64 × Command)}
    {entry : UInt64 × Command} (inside : entry ∈ entries) (stores : entry.2.stores = true) :
    ((Store.applyAll lower entries s).entry lower entry.2.table).isSome = true := by
  induction entries generalizing s with
  | nil => cases inside
  | cons first entries ih =>
    have clean' := clean.apply first.1 first.2
    rcases List.mem_cons.mp inside with rfl | later
    · exact clean'.entry_isSome_applyAll entries (clean.entry_of_stores stores)
    · exact ih clean' later

end Store

/-- A snapshot holds no row, so only a store in which nothing was ever registered comes back
from it. -/
theorem restore_persist_iff (lower : Str → Str) (codec : Codec)
    (entries : List (UInt64 × Command)) (c : Store) :
    (∃ sink restored,
      (persist codec ((Store.new.applyAll lower entries).snapshot lower)).run [] =
        .ok () sink ∧
      restore codec sink c = (restored, none) ∧
      (Store.new.applyAll lower entries).SameRows lower restored) ↔
    ∀ entry ∈ entries, entry.2.stores = false := by
  constructor
  · rintro ⟨sink, restored, persisted, loaded, same⟩ entry inside
    rw [persist_run] at persisted
    cases persisted
    rw [restore_header] at loaded
    cases loaded
    cases stores : entry.2.stores with
    | false => rfl
    | true =>
      have present := (@Store.Clean.new lower).entry_of_mem inside stores
      rw [same.entry] at present
      cases present
  · intro silent
    refine ⟨_, _, persist_run .., restore_header .., ?_⟩
    rw [Store.applyAll_new_of_not_stores silent]
    exact ⟨rfl, rfl, rfl, rfl, fun _ => rfl, fun _ => rfl, fun _ => rfl⟩

/-- Small numbers are one byte in msgpack. -/
def packUint (n : Nat) : Bytes := if n < 128 then [UInt8.ofNat n] else 0xcf :: putUint 8 n

def unpackUint : Bytes → Except Err (Nat × Bytes)
  | [] => .error .eof
  | b :: old =>
    if b < 128 then .ok (b.toNat, old)
    else if b = 0xcf then .ok (getUint (old.take 8), old.drop 8)
    else .error (.new "cannot decode unsigned integer")

theorem unpackUint_packUint {n : Nat} (fits : n < 256 ^ 8) (more : Bytes) :
    unpackUint (packUint n ++ more) = .ok (n, more) := by
  unfold packUint
  split
  · rename_i small
    have byte : (UInt8.ofNat n).toNat = n := by
      rw [UInt8.toNat_ofNat']
      omega
    have below : UInt8.ofNat n < 128 := by
      rw [UInt8.lt_iff_toNat_lt, byte]
      exact small
    simp [unpackUint, below, byte]
  · have bytes := getUint_putUint 8 n
    rw [Nat.mod_eq_of_lt fits] at bytes
    simp [unpackUint, bytes]

/-- A header is a map with one field. -/
def headerField : Bytes := [0x81, 0xa9] ++ ascii "LastIndex"

def msgpack : Codec where
  encode header := headerField ++ packUint header.lastIndex.toNat
  decode old :=
    if headerField.isPrefixOf old then
      (unpackUint (old.drop headerField.length)).map fun r => (⟨UInt64.ofNat r.1⟩, r.2)
    else .error (.new "cannot decode into a map")
  round header more := by
    have read := unpackUint_packUint (n := header.lastIndex.toNat) header.lastIndex.toNat_lt more
    simp [List.append_assoc, read, Except.map]

/-- A node is registered, and a machine that restores the snapshot has none. -/
theorem restore_persist_loses_node :
    let s := Store.new.applyAll id
      [(1, .registerNode ⟨1, 1, ascii "127.0.0.1:9092", none, none, 0, 0⟩)]
    ((s.getNodes id).2.map fun node => node.val.node) = [1] ∧
      ∃ sink, (persist msgpack (s.snapshot id)).run [] = .ok () sink ∧
        restore msgpack sink Store.new = (Store.new, none) ∧
        (Store.new.getNodes id).2 = [] :=
  ⟨by decide +kernel, _, persist_run .., restore_header .., rfl⟩

end Jocko.Fsm
