import Jocko.Fsm.StoreSteps

namespace Jocko.Fsm

open Go MemDB Store

/-- What a command asks of the rows of one table. -/
inductive Op (α : Type) where
  | register (row : α)
  | deregister (key : Bytes)

def nodeOp : Command → Option (Op Node)
  | .registerNode node => some (.register node)
  | .deregisterNode node => some (.deregister (intKey node.node))
  | _ => none

def topicOp (lower : Str → Str) : Command → Option (Op Topic)
  | .registerTopic topic => some (.register topic.configured)
  | .deregisterTopic topic => some (.deregister (lowerKey lower topic.topic))
  | _ => none

def partitionOp : Command → Option (Op Partition)
  | .registerPartition partition => some (.register partition)
  | .deregisterPartition partition =>
    some (.deregister (partitionKey partition.topic partition.partition))
  | _ => none

def groupOp : Command → Option (Op Group)
  | .registerGroup group => some (.register group)
  | _ => none

variable {lower : Str → Str} {s s' : Store}

namespace Store

theorem Clean.new : (new : Store).Clean lower where
  index := Table.Exact.empty
  nodes := Shared.Clean.empty
  topics := Shared.Clean.empty
  partitions := Shared.Clean.empty
  groups := Shared.Clean.empty

theorem Clean.nodeSound (clean : s.Clean lower) : nodeKind.Sound lower s :=
  ⟨clean.nodes, clean.index⟩

theorem Clean.topicSound (clean : s.Clean lower) : (topicKind lower).Sound lower s :=
  ⟨clean.topics, clean.index⟩

theorem Clean.partitionSound (clean : s.Clean lower) : partitionKind.Sound lower s :=
  ⟨clean.partitions, clean.index⟩

theorem Clean.groupSound (clean : s.Clean lower) : (groupKind lower).Sound lower s :=
  ⟨clean.groups, clean.index⟩

end Store

/-- The table that a command is for. -/
def Command.table : Command → TableName
  | registerNode _ | deregisterNode _ => .nodes
  | registerTopic _ | deregisterTopic _ => .topics
  | registerPartition _ | deregisterPartition _ => .partitions
  | registerGroup _ => .groups

/-- A transaction has written one row of the table, or nothing. -/
inductive Wrote (lower : Str → Str) (idx : UInt64) (s s' : Store) : TableName → Prop where
  | nothing {table : TableName} (unchanged : s' = s) : Wrote lower idx s s' table
  | node {key : Bytes} {row : Option Node}
      (wrote : nodeKind.Wrote lower idx s s' key row) : Wrote lower idx s s' .nodes
  | topic {key : Bytes} {row : Option Topic}
      (wrote : (topicKind lower).Wrote lower idx s s' key row) : Wrote lower idx s s' .topics
  | partition {key : Bytes} {row : Option Partition}
      (wrote : partitionKind.Wrote lower idx s s' key row) : Wrote lower idx s s' .partitions
  | group {key : Bytes} {row : Option Group}
      (wrote : (groupKind lower).Wrote lower idx s s' key row) : Wrote lower idx s s' .groups

variable {idx : UInt64} {table : TableName}

theorem Wrote.clean (wrote : Wrote lower idx s s' table)
    (clean : s.Clean lower) : s'.Clean lower := by
  cases wrote with
  | nothing unchanged => exact unchanged ▸ clean
  | node wrote =>
    obtain ⟨⟨m, index, rfl⟩, ⟨rows, exact⟩, -, -⟩ := wrote
    exact ⟨exact, rows, clean.topics, clean.partitions, clean.groups⟩
  | topic wrote =>
    obtain ⟨⟨m, index, rfl⟩, ⟨rows, exact⟩, -, -⟩ := wrote
    exact ⟨exact, clean.nodes, rows, clean.partitions, clean.groups⟩
  | partition wrote =>
    obtain ⟨⟨m, index, rfl⟩, ⟨rows, exact⟩, -, -⟩ := wrote
    exact ⟨exact, clean.nodes, clean.topics, rows, clean.groups⟩
  | group wrote =>
    obtain ⟨⟨m, index, rfl⟩, ⟨rows, exact⟩, -, -⟩ := wrote
    exact ⟨exact, clean.nodes, clean.topics, clean.partitions, rows⟩

theorem Wrote.entry (wrote : Wrote lower idx s s' table) :
    s' = s ∨ ∀ t, entry lower s' t = if t = table then some idx else entry lower s t := by
  cases wrote with
  | nothing unchanged => exact .inl unchanged
  | node wrote => exact .inr wrote.entry
  | topic wrote => exact .inr wrote.entry
  | partition wrote => exact .inr wrote.entry
  | group wrote => exact .inr wrote.entry

namespace Store

theorem Clean.commit (clean : s.Clean lower) {command : Command}
    (done : commit lower idx command s = .ok s') : Wrote lower idx s s' command.table := by
  cases command with
  | registerNode node =>
    obtain ⟨key, row, -, wrote⟩ := clean.nodeSound.ensureTxn_shape done
    exact .node wrote
  | deregisterNode node =>
    rcases clean.nodeSound.deleteTxn_shape done with same | wrote
    · exact .nothing same
    · exact .node wrote
  | registerTopic topic =>
    obtain ⟨key, row, -, wrote⟩ := clean.topicSound.ensureTxn_shape done
    exact .topic wrote
  | deregisterTopic topic =>
    rcases clean.topicSound.deleteTxn_shape done with same | wrote
    · exact .nothing same
    · exact .topic wrote
  | registerPartition partition =>
    obtain ⟨key, row, -, wrote⟩ := clean.partitionSound.ensureTxn_shape done
    exact .partition wrote
  | deregisterPartition partition =>
    rcases clean.partitionSound.deleteTxn_shape done with same | wrote
    · exact .nothing same
    · exact .partition wrote
  | registerGroup group =>
    obtain ⟨key, row, -, wrote⟩ := clean.groupSound.ensureTxn_shape done
    exact .group wrote

theorem Clean.apply (clean : s.Clean lower) (idx : UInt64) (command : Command) :
    (apply lower idx command s).1.Clean lower := by
  unfold Store.apply
  split
  · rename_i s' done
    exact (clean.commit done).clean clean
  · exact clean

theorem Clean.applyAll (clean : s.Clean lower) (entries : List (UInt64 × Command)) :
    (applyAll lower entries s).Clean lower := by
  induction entries generalizing s with
  | nil => exact clean
  | cons entry entries ih => exact ih (clean.apply entry.1 entry.2)

end Store

/-- The rows of a table and its index entry do not change by what is done to the others. -/
def Kind.Apart {ι α : Type} (lower : Str → Str) (kind : Kind ι α) (s s' : Store) : Prop :=
  kind.rows s' = kind.rows s ∧ entry lower s' kind.table = entry lower s kind.table

theorem Wrote.apart (wrote : Wrote lower idx s s' table) :
    (table ≠ .nodes → nodeKind.Apart lower s s') ∧
    (table ≠ .topics → (topicKind lower).Apart lower s s') ∧
    (table ≠ .partitions → partitionKind.Apart lower s s') ∧
    (table ≠ .groups → (groupKind lower).Apart lower s s') := by
  cases wrote with
  | nothing unchanged => simp [Kind.Apart, unchanged]
  | node wrote | topic wrote | partition wrote | group wrote =>
    obtain ⟨⟨m, index, rfl⟩, -, -, entries⟩ := wrote
    refine ⟨fun other => ?_, fun other => ?_, fun other => ?_, fun other => ?_⟩
    all_goals first | exact absurd rfl other | exact ⟨rfl, entries _⟩

/-- A command leaves the tables that it is not for alone. -/
theorem Store.Clean.apart_of_wrote {ι α : Type} (clean : s.Clean lower) (kind : Kind ι α)
    (apart : ∀ {idx : UInt64} {table : TableName} {s' : Store},
      Wrote lower idx s s' table → table ≠ kind.table → kind.Apart lower s s')
    (idx : UInt64) (command : Command) (other : command.table ≠ kind.table) :
    kind.Apart lower s (Store.apply lower idx command s).1 := by
  unfold Store.apply
  split
  · rename_i s' done
    exact apart (clean.commit done) other
  · exact ⟨rfl, rfl⟩

/-- A table's own view of the commands. -/
structure Kind.Reads {ι α : Type} (lower : Str → Str) (kind : Kind ι α)
    (op : Command → Option (Op α)) : Prop where
  sound : ∀ {s : Store}, s.Clean lower → kind.Sound lower s
  register : ∀ {command : Command} {row : α}, op command = some (.register row) →
    ∀ idx s, commit lower idx command s = kind.ensureTxn lower idx row s := by
    intro command row asked idx s
    cases command <;> cases asked <;> rfl
  deregister : ∀ {command : Command} {key : Bytes}, op command = some (.deregister key) →
    ∀ idx s, commit lower idx command s = kind.deleteTxn lower idx key s := by
    intro command key asked idx s
    cases command <;> cases asked <;> rfl
  other : ∀ {command : Command}, op command = none → ∀ {idx s s'}, s.Clean lower →
    commit lower idx command s = .ok s' → kind.Apart lower s s'

theorem nodeKind_reads : nodeKind.Reads lower nodeOp where
  sound clean := clean.nodeSound
  other {command} silent idx s s' clean done := by
    apply (clean.commit done).apart.1
    cases command <;> simp_all [nodeOp, Command.table]

theorem topicKind_reads : (topicKind lower).Reads lower (topicOp lower) where
  sound clean := clean.topicSound
  other {command} silent idx s s' clean done := by
    apply (clean.commit done).apart.2.1
    cases command <;> simp_all [topicOp, Command.table]

theorem partitionKind_reads : partitionKind.Reads lower partitionOp where
  sound clean := clean.partitionSound
  other {command} silent idx s s' clean done := by
    apply (clean.commit done).apart.2.2.1
    cases command <;> simp_all [partitionOp, Command.table]

theorem groupKind_reads : (groupKind lower).Reads lower groupOp where
  sound clean := clean.groupSound
  other {command} silent idx s s' clean done := by
    apply (clean.commit done).apart.2.2.2
    cases command <;> simp_all [groupOp, Command.table]

end Jocko.Fsm
