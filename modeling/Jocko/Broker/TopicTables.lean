import Jocko.Broker.Announcements

namespace Jocko.Broker

open Go MemDB Fsm Protocol Cluster List Option

section

variable (lower : Str → Str)

/-- The replicas of a partition, as the row of its topic lists them. -/
def listedReplicas (s : Store) (topic : Str) (partition : Int32) : Option (List Int32) :=
  (((topicKind lower).row? s (lowerKey lower topic)).filter fun t => t.topic = topic).bind
    fun t => t.partitions.get? partition

/-- The replicas of a partition, as its own row lists them. -/
def storedReplicas (s : Store) (topic : Str) (partition : Int32) : Option (List Int32) :=
  (partitionKind.row? s (partitionKey topic partition)).map Fsm.Partition.ar

/-- The rows of the partitions are those that the rows of the topics list. -/
def Consistent (s : Store) : Prop :=
  ∀ topic partition, storedReplicas s topic partition = listedReplicas lower s topic partition

end

variable {lower : Str → Str}

/-- The replicas that a registered partition leaves under a topic and a number. -/
def withPartition (t : Str) (i : Int32) (stored : Option (List Int32)) (p : Fsm.Partition) :
    Option (List Int32) :=
  if p.topic ≠ [] ∧ t = p.topic ∧ i = p.partition then some p.ar else stored

variable {s : Store}

theorem registerPartition_replicas (tidy : s.Tidy lower) (idx : UInt64)
    (p : Fsm.Partition) :
    ∃ partitions index, (s.apply lower idx (.registerPartition p)).1 = { s with partitions, index } ∧
      Store.Tidy lower { s with partitions, index } ∧
      ∀ t i, storedReplicas { s with partitions, index } t i =
        withPartition t i (storedReplicas s t i) p := by
  by_cases named : p.topic = []
  · refine ⟨s.partitions, s.index, Store.Tidy.registerPartition_unnamed s idx named, tidy, ?_⟩
    simp [withPartition, named]
  · obtain ⟨partitions, index, create, written, tidy', byKey⟩ := tidy.registerPartition idx named
    refine ⟨partitions, index, written, tidy', fun t i => ?_⟩
    rw [storedReplicas, byKey, withPartition]
    by_cases here : t = p.topic ∧ i = p.partition
    · rw [if_pos (by rw [here.1, here.2]), if_pos ⟨named, here⟩]
      rfl
    · rw [if_neg fun same => here (partitionKey_inj same), if_neg fun all => here all.2]
      rfl

/-- The partitions of a new topic change no other table, once they are all registered. -/
theorem applyAll_partitions {ps : List Fsm.Partition} {entries : List (UInt64 × Command)}
    (tidy : s.Tidy lower) (commands : entries.map Prod.snd = ps.map .registerPartition) :
    ∃ partitions index, s.applyAll lower entries = { s with partitions, index } ∧
      Store.Tidy lower { s with partitions, index } := by
  induction ps generalizing s entries with
  | nil =>
    obtain rfl := map_eq_nil_iff.mp commands
    exact ⟨s.partitions, s.index, rfl, tidy⟩
  | cons p ps ih =>
    obtain ⟨⟨idx, command⟩, entries, rfl, rfl, rest⟩ := map_eq_cons_iff.mp commands
    obtain ⟨partitions, index, written, tidy', -⟩ := registerPartition_replicas tidy idx p
    obtain ⟨partitions', index', done, tidy''⟩ := ih tidy' rest
    refine ⟨partitions', index', ?_, tidy''⟩
    rw [← done, ← written]
    rfl

variable {topic : Str}

/-- No topic under the key of the name lists a partition. -/
def Unlisted (lower : Str → Str) (topic : Str) (replicas : Str → Int32 → Option (List Int32)) : Prop :=
  ∀ t i, lowerKey lower t = lowerKey lower topic → replicas t i = none

theorem Unlisted.of_absent (absent : (topicKind lower).row? s (lowerKey lower topic) = none) :
    Unlisted lower topic (listedReplicas lower s) := by
  intro t i key
  rw [listedReplicas, key, absent]
  rfl

theorem registerTopic_listed (tidy : s.Tidy lower) (idx : UInt64) (topic : Str)
    (ps : List Fsm.Partition) (free : Unlisted lower topic (listedReplicas lower s)) :
    ∃ topics index, (s.apply lower idx (.registerTopic (newTopic topic ps))).1 =
        { s with topics, index } ∧
      Store.Tidy lower { s with topics, index } ∧
      ∀ t i, listedReplicas lower { s with topics, index } t i =
        if topic ≠ [] ∧ t = topic then (assignment ps).lookup i else listedReplicas lower s t i := by
  by_cases named : topic = []
  · refine ⟨s.topics, s.index, Store.Tidy.registerTopic_unnamed s idx named, tidy, fun t i => ?_⟩
    rw [if_neg fun all => all.1 named]
  · obtain ⟨topics, index, create, written, tidy', byKey⟩ :=
      tidy.registerTopic idx (t := newTopic topic ps) named
    have row (k : Bytes) : (topicKind lower).row? { s with topics, index } k =
        if k = lowerKey lower topic then some { newTopic topic ps with
          config := newTopicConfig
          createIndex := create
          modifyIndex := idx }
        else (topicKind lower).row? s k := byKey k
    refine ⟨topics, index, written, tidy', fun t i => ?_⟩
    by_cases here : t = topic
    · subst here
      rw [listedReplicas, row, if_pos rfl, if_pos ⟨named, rfl⟩]
      simp only [newTopic, filter_some, decide_true, ↓reduceIte, bind_some]
      rfl
    · have other : ¬ topic = t := fun same => here same.symm
      rw [if_neg fun all => here all.2]
      by_cases key : lowerKey lower t = lowerKey lower topic
      · rw [free t i key, listedReplicas, row, if_pos key]
        simp [newTopic, other]
      · rw [listedReplicas, listedReplicas, row, if_neg key]

theorem topic_key (tidy : s.Tidy lower) {k : Bytes} {t : Fsm.Topic}
    (found : (topicKind lower).row? s k = some t) : k = lowerKey lower t.topic := by
  obtain ⟨o, stored, rfl⟩ := map_eq_some_iff.mp found
  exact (stringField_eq_some (tidy.topics.exact.id k o stored)).2

/-- Deleting a topic keeps the agreement if and only if there was no partition to delete. -/
theorem consistent_delete_iff {s' : Store} (tidy : s.Tidy lower)
    (consistent : Consistent lower s) (partitions : s'.partitions = s.partitions)
    (byKey : ∀ k, (topicKind lower).row? s' k =
      if k = lowerKey lower topic then none else (topicKind lower).row? s k) :
    Consistent lower s' ↔ ∀ row, (s.getTopic lower topic).2 = some row →
      row.val.partitions.entries = [] := by
  have stored (t : Str) (i : Int32) : storedReplicas s' t i = storedReplicas s t i := by
    simp only [storedReplicas, Kind.row?, Kind.first, partitionKind, partitions]
  constructor
  · intro consistent' row found
    have here : (topicKind lower).row? s (lowerKey lower topic) = some row.val :=
      congrArg (Option.map Obj.val) found
    have key := topic_key tidy here
    cases entries : row.val.partitions.entries with
    | nil => rfl
    | cons e rest =>
      have before : listedReplicas lower s row.val.topic e.1 = some e.2 := by
        have first : row.val.partitions.get? e.1 = some e.2 := by
          have all : row.val.partitions.getD [] = e :: rest := entries
          obtain ⟨i, ar⟩ := e
          simp only [GoMap.get?, all, lookup_cons, BEq.rfl]
        simp only [listedReplicas, ← key, here, filter_some, decide_true, ↓reduceIte,
          bind_some, first]
      have after := consistent' row.val.topic e.1
      rw [stored, consistent, before, listedReplicas, ← key, byKey, if_pos rfl] at after
      cases after
  · intro empty t i
    rw [stored, consistent, listedReplicas, listedReplicas, byKey]
    by_cases key : lowerKey lower t = lowerKey lower topic
    · rw [if_pos key]
      cases found : (topicKind lower).row? s (lowerKey lower t) with
      | none => rfl
      | some row =>
        obtain ⟨o, stored', rfl⟩ := map_eq_some_iff.mp found
        rw [key] at stored'
        have none : o.val.partitions.get? i = .none := by
          rw [GoMap.get?, show o.val.partitions.getD [] = [] from empty o stored']
          rfl
        rw [filter_some]
        split
        · exact none
        · rfl
    · rw [if_neg key]

end Jocko.Broker
