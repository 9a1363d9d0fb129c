import Jocko.Fsm.Commands

namespace Jocko.Fsm

open Go MemDB Store List
open Radix (get?)

variable {lower : Str → Str} {s s' : Store}

/-- The indexes are exact in every table but that of the groups, whose rows the handlers of the
broker edit in place. -/
structure Store.Tidy (lower : Str → Str) (s : Store) : Prop where
  index : s.index.Exact (indexTableSchema lower) fun entry => entry
  nodes : s.nodes.Clean nodesTableSchema
  topics : s.topics.Clean (topicsTableSchema lower)
  partitions : s.partitions.Clean partitionsTableSchema

theorem partitionKey_inj {t t' : Str} {i i' : Int32}
    (same : partitionKey t i = partitionKey t' i') : t = t' ∧ i = i' := by
  obtain ⟨topics, numbers⟩ := append_inj' same (by simp)
  exact ⟨stringKey_inj topics, intKey_inj numbers⟩

theorem Topic.topic_configured (t : Topic) : t.configured.topic = t.topic := by
  unfold Topic.configured
  split <;> rfl

namespace Store

theorem Clean.tidy (clean : s.Clean lower) : s.Tidy lower :=
  ⟨clean.index, clean.nodes, clean.topics, clean.partitions⟩

theorem apply_ok {idx : UInt64} (command : Command)
    (done : commit lower idx command s = .ok s') : apply lower idx command s = (s', none) := by
  rw [apply, done]

theorem apply_error {idx : UInt64} (command : Command) {cause : Err}
    (failed : commit lower idx command s = .error cause) :
    apply lower idx command s = (s, some cause) := by
  rw [apply, failed]

namespace Tidy

variable {p : Partition}

theorem registerPartition_unnamed (s : Store) (idx : UInt64) (unnamed : p.topic = []) :
    (Store.apply lower idx (.registerPartition p) s).1 = s := by
  have missing : partitionKind.schema.id p = none := by
    simp [partitionKind, partitionsTableSchema, stringField, unnamed]
  obtain ⟨cause, failed⟩ := Kind.ensureTxn_of_none lower s idx missing
  rw [apply_error (.registerPartition p) failed]

theorem registerTopic_unnamed (s : Store) (idx : UInt64) {t : Topic} (unnamed : t.topic = []) :
    (Store.apply lower idx (.registerTopic t) s).1 = s := by
  have missing : (topicKind lower).schema.id t.configured = none := by
    simp [topicKind, topicsTableSchema, stringField, t.topic_configured, unnamed]
  obtain ⟨cause, failed⟩ := Kind.ensureTxn_of_none lower s idx missing
  rw [apply_error (.registerTopic t) failed]

variable (tidy : s.Tidy lower) (idx : UInt64)
include tidy

/-- Whatever happens to the groups, the other tables are as they were. -/
theorem registerGroup (group : Group) :
    ∃ groups index, (Store.apply lower idx (.registerGroup group) s).1 = { s with groups, index } ∧
      Tidy lower { s with groups, index } := by
  rcases (groupKind lower).ensureTxn_frame tidy.index idx group with
    ⟨cause, failed⟩ | ⟨groups, index, done, exact⟩
  · rw [apply_error (.registerGroup group) failed]
    exact ⟨s.groups, s.index, rfl, tidy⟩
  · rw [apply_ok (.registerGroup group) done]
    exact ⟨groups, index, rfl, exact, tidy.nodes, tidy.topics, tidy.partitions⟩

theorem registerNode (node : Node) :
    ∃ nodes index create, (Store.apply lower idx (.registerNode node) s).1 =
        { s with nodes, index } ∧
      Tidy lower { s with nodes, index } ∧
      ∀ k, (get? nodes.rows.id k).map Obj.val = if k = intKey node.node
        then some { node with createIndex := create, modifyIndex := idx }
        else (get? s.nodes.rows.id k).map Obj.val := by
  have sound : nodeKind.Sound lower s := ⟨tidy.nodes, tidy.index⟩
  have primary : nodeKind.schema.id node = some (intKey node.node) := rfl
  obtain ⟨s', done, ⟨m, index, rfl⟩, ⟨rows, exact⟩, byKey, -⟩ := sound.ensureTxn idx primary
  rw [apply_ok (.registerNode node) done]
  exact ⟨m, index, _, rfl, ⟨exact, rows, tidy.topics, tidy.partitions⟩, byKey⟩

theorem registerPartition (named : p.topic ≠ []) :
    ∃ partitions index create, (Store.apply lower idx (.registerPartition p) s).1 =
        { s with partitions, index } ∧
      Tidy lower { s with partitions, index } ∧
      ∀ k, partitionKind.row? { s with partitions, index } k =
        if k = partitionKey p.topic p.partition
        then some { p with createIndex := create, modifyIndex := idx }
        else partitionKind.row? s k := by
  have sound : partitionKind.Sound lower s := ⟨tidy.partitions, tidy.index⟩
  have primary : partitionKind.schema.id p = some (partitionKey p.topic p.partition) := by
    simp [partitionKind, partitionsTableSchema, stringField, named, partitionKey]
  obtain ⟨s', done, ⟨m, index, rfl⟩, ⟨rows, exact⟩, byKey, -⟩ := sound.ensureTxn idx primary
  rw [apply_ok (.registerPartition p) done]
  exact ⟨m, index, _, rfl, ⟨exact, tidy.nodes, tidy.topics, rows⟩, byKey⟩

theorem registerTopic {t : Topic} (named : t.topic ≠ []) :
    ∃ topics index create, (Store.apply lower idx (.registerTopic t) s).1 =
        { s with topics, index } ∧
      Tidy lower { s with topics, index } ∧
      ∀ k, (topicKind lower).row? { s with topics, index } k =
        if k = lowerKey lower t.topic
        then some { t.configured with createIndex := create, modifyIndex := idx }
        else (topicKind lower).row? s k := by
  have sound : (topicKind lower).Sound lower s := ⟨tidy.topics, tidy.index⟩
  have primary : (topicKind lower).schema.id t.configured = some (lowerKey lower t.topic) := by
    simp [topicKind, topicsTableSchema, stringField, t.topic_configured, named, lowerKey]
  obtain ⟨s', done, ⟨m, index, rfl⟩, ⟨rows, exact⟩, byKey, -⟩ := sound.ensureTxn idx primary
  rw [apply_ok (.registerTopic t) done]
  exact ⟨m, index, _, rfl, ⟨exact, tidy.nodes, rows, tidy.partitions⟩, byKey⟩

theorem deregisterTopic (t : Topic) :
    ∃ topics index, (Store.apply lower idx (.deregisterTopic t) s).1 = { s with topics, index } ∧
      Tidy lower { s with topics, index } ∧
      ∀ k, (topicKind lower).row? { s with topics, index } k =
        if k = lowerKey lower t.topic then none else (topicKind lower).row? s k := by
  have sound : (topicKind lower).Sound lower s := ⟨tidy.topics, tidy.index⟩
  cases present : (topicKind lower).row? s (lowerKey lower t.topic) with
  | none =>
    rw [apply_ok (.deregisterTopic t) (Kind.deleteTxn_of_none present)]
    refine ⟨s.topics, s.index, rfl, tidy, fun k => ?_⟩
    split
    · rename_i here
      rw [here]
      exact present
    · rfl
  | some row =>
    obtain ⟨s', done, ⟨m, index, rfl⟩, ⟨rows, exact⟩, byKey, -⟩ := sound.deleteTxn idx present
    rw [apply_ok (.deregisterTopic t) done]
    exact ⟨m, index, rfl, ⟨exact, tidy.nodes, rows, tidy.partitions⟩, byKey⟩

theorem deregisterNode {node row : Node}
    (present : nodeKind.row? s (intKey node.node) = some row) :
    ∃ nodes index, (Store.apply lower idx (.deregisterNode node) s).1 = { s with nodes, index } ∧
      Tidy lower { s with nodes, index } ∧
      ∀ k, nodeKind.row? { s with nodes, index } k =
        if k = intKey node.node then none else nodeKind.row? s k := by
  have sound : nodeKind.Sound lower s := ⟨tidy.nodes, tidy.index⟩
  obtain ⟨s', done, ⟨m, index, rfl⟩, ⟨rows, exact⟩, byKey, -⟩ := sound.deleteTxn idx present
  rw [apply_ok (.deregisterNode node) done]
  exact ⟨m, index, rfl, ⟨exact, rows, tidy.topics, tidy.partitions⟩, byKey⟩

theorem stored_key {k : Bytes} {o : Obj Partition} (stored : get? s.partitions.rows.id k = some o) :
    o.val.topic ≠ [] ∧ k = partitionKey o.val.topic o.val.partition := by
  have primary := tidy.partitions.exact.id k o stored
  obtain ⟨key, named, rfl⟩ := Option.map_eq_some_iff.mp primary
  obtain ⟨filled, rfl⟩ := stringField_eq_some named
  exact ⟨filled, rfl⟩

theorem partition_key {k : Bytes} (found : partitionKind.row? s k = some p) :
    p.topic ≠ [] ∧ k = partitionKey p.topic p.partition := by
  obtain ⟨o, stored, rfl⟩ := Option.map_eq_some_iff.mp found
  exact tidy.stored_key stored

/-- The leader index finds the partitions of a leader, each once. -/
theorem mem_partitionsByLeader {leader : Int32} :
    p ∈ (s.partitionsByLeader lower leader).2.map Obj.val ↔
      partitionKind.row? s (partitionKey p.topic p.partition) = some p ∧ p.leader = leader := by
  simp only [partitionsByLeader, mem_map, Radix.mem_scan, tidy.partitions.exact.index,
    IndexSchema.fullKeys, partitionsTableSchema, map_cons, map_nil, mem_singleton,
    Bool.false_eq_true, ↓reduceIte]
  constructor
  · rintro ⟨o, ⟨f, begins, k, stored, rfl⟩, rfl⟩
    rw [← (tidy.stored_key stored).2]
    exact ⟨congrArg (Option.map Obj.val) stored, prefix_intKey.mp begins⟩
  · rintro ⟨found, rfl⟩
    obtain ⟨o, stored, rfl⟩ := Option.map_eq_some_iff.mp found
    exact ⟨o, ⟨_, prefix_append _ _, _, stored, rfl⟩, rfl⟩

theorem nodup_partitionsByLeader (leader : Int32) :
    ((s.partitionsByLeader lower leader).2.map fun o =>
      partitionKey o.val.topic o.val.partition).Nodup := by
  simp only [partitionsByLeader, Radix.scan, map_map, Function.comp_def]
  refine pairwise_map.mpr
    (((Radix.sorted (s.partitions.rows.index .leader)).filter _).imp_of_mem ?_)
  intro e e' inside inside' less same
  have key {e : Bytes × Obj Partition} (inside : e ∈
      (Radix.entries (s.partitions.rows.index .leader)).filter fun e => (intKey leader).isPrefixOf e.1) :
      e.1 = intKey leader ++ partitionKey e.2.val.topic e.2.val.partition := by
    obtain ⟨inside, begins⟩ := mem_filter.mp inside
    obtain ⟨k, stored, here⟩ := (tidy.partitions.exact.index .leader e.1 e.2).mp
      (Radix.get?_eq_some.mpr inside)
    have whole : e.1 = intKey e.2.val.leader ++ k := by
      simpa [IndexSchema.fullKeys, partitionsTableSchema] using here
    rw [whole, List.isPrefixOf_iff_prefix] at begins
    rw [whole, prefix_intKey.mp begins, (tidy.stored_key stored).2]
  rw [key inside, key inside', same, before_irrefl] at less
  cases less

end Tidy

end Store

end Jocko.Fsm
