import Jocko.Fsm.Schema

namespace Jocko.Fsm

open Go MemDB
open Radix (get? values scan)

/-- `fmt.Errorf(text + ": %s", err)`; nothing looks for the cause of an error of the store. -/
def errorf (text : String) (cause : Err) : Err := .wrap cause text

/-- The in-memory database. -/
structure Store where
  index : Table MemDB.Tree Empty IndexEntry
  nodes : Shared MemDB.Tree NodeIndex Node
  topics : Shared MemDB.Tree Empty Topic
  partitions : Shared MemDB.Tree PartitionIndex Partition
  groups : Shared MemDB.Tree GroupIndex Group

namespace Store

/-- `NewStore` -/
def new : Store := ⟨Table.empty, Shared.empty, Shared.empty, Shared.empty, Shared.empty⟩

end Store

/-- A table of rows: its schema, the key that a lookup of a row uses, and the indexes that
the store keeps in each row. -/
structure Kind (ι α : Type) where
  table : TableName
  noun : String
  schema : TableSchema ι α
  key : α → Bytes
  rows : Store → Shared MemDB.Tree ι α
  put : Store → Shared MemDB.Tree ι α → Store
  createIndex : α → UInt64
  modifyIndex : α → UInt64
  stamp : α → UInt64 → UInt64 → α
  separated : schema.Separated
  complete : ∀ row k, schema.id row = some k →
    key row = k ∧ schema.names.find? (fun i => (schema.index i).missing row) = none
  id_stamp : ∀ row create modify, schema.id (stamp row create modify) = schema.id row := by
    intros; rfl
  createIndex_stamp : ∀ row create modify, createIndex (stamp row create modify) = create := by
    intros; rfl
  modifyIndex_stamp : ∀ row create modify, modifyIndex (stamp row create modify) = modify := by
    intros; rfl
  rows_new : rows Store.new = Shared.empty := by intros; rfl
  rows_put : ∀ s m, rows (put s m) = m := by intros; rfl
  index_put : ∀ s m, (put s m).index = s.index := by intros; rfl
  rows_index : ∀ s i, rows { s with index := i } = rows s := by intros; rfl

section

variable (lower : Str → Str)

/-- `tx.Insert("index", &IndexEntry{table, idx})` -/
def Store.insertIndex (table : TableName) (idx : UInt64) (s : Store) : Except Err Store :=
  (s.index.insert (indexTableSchema lower) (fun entry => entry) ⟨table.str, idx⟩).map
    fun index => { s with index }

namespace Kind

variable {ι α : Type} (kind : Kind ι α)

/-- `tx.First(table, "id", ...)` -/
def first (s : Store) (key : Bytes) : Option (Obj α) := get? (kind.rows s).rows.id key

/-- The index at which a row has been created: that of the existing row, or now. -/
def created (idx : UInt64) (existing : Option α) : UInt64 := existing.elim idx kind.createIndex

/-- The row under a key. -/
def row? (s : Store) (key : Bytes) : Option α := (kind.first s key).map Obj.val

/-- The `ensure...Txn` functions. -/
def ensureTxn (idx : UInt64) (row : α) (s : Store) : Except Err Store := do
  let create := kind.created idx (kind.row? s (kind.key row))
  let rows ← ((kind.rows s).insert kind.schema (kind.stamp row create idx)).mapError
    (errorf ("failed inserting " ++ kind.noun))
  (Store.insertIndex lower kind.table idx (kind.put s rows)).mapError
    (errorf "failed updating index")

/-- The `delete...Txn` functions. -/
def deleteTxn (idx : UInt64) (key : Bytes) (s : Store) : Except Err Store :=
  match kind.first s key with
  | none => .ok s
  | some row => do
    let rows ← (kind.rows s).delete kind.schema row.val
    Store.insertIndex lower kind.table idx (kind.put s rows)

end Kind

def nodeKind : Kind NodeIndex Node where
  table := .nodes
  noun := "node"
  schema := nodesTableSchema
  key node := intKey node.node
  rows := Store.nodes
  put s nodes := { s with nodes }
  createIndex := Node.createIndex
  modifyIndex := Node.modifyIndex
  stamp node create modify := { node with createIndex := create, modifyIndex := modify }
  separated := nodesTable_separated
  complete row k found := ⟨Option.some.inj found, by simp [nodesTableSchema, IndexSchema.missing]⟩

def topicKind : Kind Empty Topic where
  table := .topics
  noun := "topic"
  schema := topicsTableSchema lower
  key topic := lowerKey lower topic.topic
  rows := Store.topics
  put s topics := { s with topics }
  createIndex := Topic.createIndex
  modifyIndex := Topic.modifyIndex
  stamp topic create modify := { topic with createIndex := create, modifyIndex := modify }
  separated := topicsTable_separated lower
  complete row k found := ⟨(stringField_eq_some found).2.symm, rfl⟩

/-- The id of a partition, `(topic, partition)`. -/
def partitionKey (topic : Str) (partition : Int32) : Bytes := stringKey topic ++ intKey partition

def partitionKind : Kind PartitionIndex Partition where
  table := .partitions
  noun := "partition"
  schema := partitionsTableSchema
  key partition := partitionKey partition.topic partition.partition
  rows := Store.partitions
  put s partitions := { s with partitions }
  createIndex := Partition.createIndex
  modifyIndex := Partition.modifyIndex
  stamp partition create modify := { partition with createIndex := create, modifyIndex := modify }
  separated := partitionsTable_separated
  complete row k found := by
    obtain ⟨topicKey, named, rfl⟩ := Option.map_eq_some_iff.mp found
    obtain ⟨-, rfl⟩ := stringField_eq_some named
    refine ⟨rfl, ?_⟩
    simp [partitionsTableSchema, IndexSchema.missing, named]

def groupKind : Kind GroupIndex Group where
  table := .groups
  noun := "group"
  schema := groupTableSchema lower
  key group := lowerKey lower group.group
  rows := Store.groups
  put s groups := { s with groups }
  createIndex := Group.createIndex
  modifyIndex := Group.modifyIndex
  stamp group create modify := { group with createIndex := create, modifyIndex := modify }
  separated := groupTable_separated lower
  complete row k found := ⟨(stringField_eq_some found).2.symm, by
    simp [groupTableSchema, IndexSchema.missing]⟩

/-- A topic without a configuration gets the default one. -/
def Topic.configured (topic : Topic) : Topic :=
  match topic.config with
  | none => { topic with config := newTopicConfig }
  | some _ => topic

namespace Store

def ensureNode (idx : UInt64) (node : Node) (s : Store) : Except Err Store :=
  nodeKind.ensureTxn lower idx node s

def deleteNode (idx : UInt64) (id : Int32) (s : Store) : Except Err Store :=
  nodeKind.deleteTxn lower idx (intKey id) s

def ensureTopic (idx : UInt64) (topic : Topic) (s : Store) : Except Err Store :=
  (topicKind lower).ensureTxn lower idx topic.configured s

def deleteTopic (idx : UInt64) (id : Str) (s : Store) : Except Err Store :=
  (topicKind lower).deleteTxn lower idx (lowerKey lower id) s

def ensurePartition (idx : UInt64) (partition : Partition) (s : Store) : Except Err Store :=
  partitionKind.ensureTxn lower idx partition s

def deletePartition (idx : UInt64) (topic : Str) (partition : Int32) (s : Store) :
    Except Err Store :=
  partitionKind.deleteTxn lower idx (partitionKey topic partition) s

def ensureGroup (idx : UInt64) (group : Group) (s : Store) : Except Err Store :=
  (groupKind lower).ensureTxn lower idx group s

/-- The transaction of a command. -/
def commit (idx : UInt64) : Command → Store → Except Err Store
  | .registerNode node => ensureNode lower idx node
  | .deregisterNode node => deleteNode lower idx node.node
  | .registerTopic topic => ensureTopic lower idx topic
  | .deregisterTopic topic => deleteTopic lower idx topic.topic
  | .registerPartition partition => ensurePartition lower idx partition
  | .deregisterPartition partition => deletePartition lower idx partition.topic partition.partition
  | .registerGroup group => ensureGroup lower idx group

/-- `FSM.Apply`: a transaction that fails is aborted, and its error is what raft answers. -/
def apply (idx : UInt64) (command : Command) (s : Store) : Store × Option Err :=
  match commit lower idx command s with
  | .ok s' => (s', none)
  | .error cause => (s, some cause)

/-- Apply the entries of a raft log. -/
def applyAll (entries : List (UInt64 × Command)) (s : Store) : Store :=
  entries.foldl (fun s entry => (apply lower entry.1 entry.2 s).1) s

/-- The last index of a table, if it has one. -/
def entry (s : Store) (table : TableName) : Option UInt64 :=
  (get? s.index.id (lowerKey lower table.str)).map IndexEntry.value

/-- One round of the loop in `maxIndexTxn`. -/
def raiseIndex (s : Store) (lindex : UInt64) (table : TableName) : UInt64 :=
  match entry lower s table with
  | some value => if value > lindex then value else lindex
  | none => lindex

def maxIndexTxn (s : Store) (tables : List TableName) : UInt64 :=
  tables.foldl (raiseIndex lower s) 0

def getNode (s : Store) (id : Int32) : UInt64 × Option (Obj Node) :=
  (maxIndexTxn lower s [.nodes], nodeKind.first s (intKey id))

def getNodes (s : Store) : UInt64 × List (Obj Node) :=
  (maxIndexTxn lower s [.nodes], values s.nodes.rows.id)

def getTopic (s : Store) (id : Str) : UInt64 × Option (Obj Topic) :=
  (maxIndexTxn lower s [.topics], (topicKind lower).first s (lowerKey lower id))

def getTopics (s : Store) : UInt64 × List (Obj Topic) :=
  (maxIndexTxn lower s [.topics], values s.topics.rows.id)

def getPartition (s : Store) (topic : Str) (id : Int32) : UInt64 × Option (Obj Partition) :=
  (maxIndexTxn lower s [.partitions], partitionKind.first s (partitionKey topic id))

def getPartitions (s : Store) : UInt64 × List (Obj Partition) :=
  (maxIndexTxn lower s [.partitions], values s.partitions.rows.id)

def partitionsByLeader (s : Store) (leader : Int32) : UInt64 × List (Obj Partition) :=
  (maxIndexTxn lower s [.partitions], scan (s.partitions.rows.index .leader) (intKey leader))

def getGroup (s : Store) (id : Str) : UInt64 × Option (Obj Group) :=
  (maxIndexTxn lower s [.groups], (groupKind lower).first s (lowerKey lower id))

def getGroups (s : Store) : UInt64 × List (Obj Group) :=
  (maxIndexTxn lower s [.groups], values s.groups.rows.id)

def getGroupsByCoordinator (s : Store) (coordinator : Int32) : UInt64 × List (Obj Group) :=
  (maxIndexTxn lower s [.groups],
    scan (s.groups.rows.index .coordinator) (intKey coordinator))

/-- The indexes are exact, and no two rows are one object. -/
structure Clean (s : Store) : Prop where
  index : s.index.Exact (indexTableSchema lower) fun entry => entry
  nodes : s.nodes.Clean nodesTableSchema
  topics : s.topics.Clean (topicsTableSchema lower)
  partitions : s.partitions.Clean partitionsTableSchema
  groups : s.groups.Clean (groupTableSchema lower)

end Store

end

end Jocko.Fsm
