import Jocko.Fsm.Structs
import Jocko.Go.Varint
import Jocko.MemDB.Shared

namespace Jocko.Fsm

open Go MemDB List

/-- The tables, as the schemas name them. -/
inductive TableName where
  | index
  | nodes
  | topics
  | partitions
  | groups
  deriving DecidableEq

def TableName.str : TableName → Str
  | index => ascii "index"
  | nodes => ascii "nodes"
  | topics => ascii "topics"
  | partitions => ascii "partitions"
  | groups => ascii "groups"

/-- The last index of a table. -/
structure IndexEntry where
  key : Str
  value : UInt64

inductive NodeIndex where
  | nodeMeta

inductive PartitionIndex where
  | partition
  | topic
  | leader

inductive GroupIndex where
  | coordinator

/-- `StringFieldIndex.FromArgs`: the string and a terminator. -/
def stringKey (s : Str) : Bytes := s ++ [0]

/-- `StringFieldIndex.FromObject`: an empty field has no key. -/
def stringField (s key : Str) : Option Bytes := if s = [] then none else some (stringKey key)

/-- `IntFieldIndex` on an `int32` field. -/
def intKey (n : Int32) : Bytes :=
  putVarint n.toInt ++ List.replicate (maxVarintLen32 - (putVarint n.toInt).length) 0

/-- `StringMapFieldIndex.FromObject` -/
def stringMapKeys (m : GoMap Str Str) : List Bytes :=
  (m.entries.filter fun e => e.1 ≠ []).map fun e => stringKey e.1 ++ stringKey e.2

section

variable (lower : Str → Str)

/-- A `StringFieldIndex` with `Lowercase`. -/
def lowerKey (s : Str) : Bytes := stringKey (toLower lower s)

def indexTableSchema : TableSchema Empty IndexEntry where
  id entry := stringField entry.key (toLower lower entry.key)
  names := []
  index := nofun

def nodesTableSchema : TableSchema NodeIndex Node where
  id node := some (intKey node.node)
  names := [.nodeMeta]
  index
    | .nodeMeta => ⟨"meta", true, false, fun node => stringMapKeys node.nodeMeta⟩

def topicsTableSchema : TableSchema Empty Topic where
  id topic := stringField topic.topic (toLower lower topic.topic)
  names := []
  index := nofun

def partitionsTableSchema : TableSchema PartitionIndex Partition where
  id partition := (stringField partition.topic partition.topic).map
    fun key => key ++ intKey partition.partition
  names := [.partition, .topic, .leader]
  index
    | .partition => ⟨"partition", false, false, fun partition => [intKey partition.partition]⟩
    | .topic => ⟨"topic", false, false, fun partition =>
      (stringField partition.topic partition.topic).toList⟩
    | .leader => ⟨"leader", false, false, fun partition => [intKey partition.leader]⟩

def groupTableSchema : TableSchema GroupIndex Group where
  id group := stringField group.group (toLower lower group.group)
  names := [.coordinator]
  index
    | .coordinator => ⟨"coordinator", false, false, fun group => [intKey group.coordinator]⟩

end

theorem stringKey_inj {s s' : Str} (same : stringKey s = stringKey s') : s = s' :=
  append_cancel_right same

theorem stringField_eq_some {s key : Str} {k : Bytes} (found : stringField s key = some k) :
    s ≠ [] ∧ k = stringKey key := by
  unfold stringField at found
  split at found
  · cases found
  · rename_i filled
    exact ⟨filled, (Option.some.inj found).symm⟩

theorem zigzag_int32 (n : Int32) : zigzag n.toInt < 2 * 2 ^ 31 := zigzag_lt n.le_toInt n.toInt_lt

@[simp] theorem length_intKey (n : Int32) : (intKey n).length = maxVarintLen32 := by
  have short : (putVarint n.toInt).length ≤ maxVarintLen32 :=
    length_putUvarint_le (Nat.lt_of_lt_of_le (zigzag_int32 n) (by decide))
  rw [intKey, length_append, length_replicate]
  omega

theorem intKey_inj {n n' : Int32} (same : intKey n = intKey n') : n = n' := by
  have small (m : Int32) : zigzag m.toInt < 128 ^ maxVarintLen64 :=
    Nat.lt_of_lt_of_le (zigzag_int32 m) (by decide)
  exact Int32.toInt_inj.mp (putVarint_append_inj (small n) (small n') same)

theorem prefix_intKey {n m : Int32} {id : Bytes} : intKey n <+: intKey m ++ id ↔ m = n := by
  constructor
  · intro begins
    have same := prefix_iff_eq_take.mp begins
    rw [take_append_of_le_length (by simp), take_of_length_le (by simp)] at same
    exact (intKey_inj same).symm
  · rintro rfl
    exact prefix_append _ _

theorem mem_fullKeys_int {α : Type} {name : String} {field : α → Int32} {a : α} {x f : Bytes} :
    f ∈ (⟨name, false, false, fun a => [intKey (field a)]⟩ : IndexSchema α).fullKeys a x ↔
      f = intKey (field a) ++ x := by
  simp [IndexSchema.fullKeys]

/-- A key before a primary key of fixed width tells nothing about it. -/
theorem cancel_of_intKey {x y a b : Bytes} {n n' : Int32} (left : a = x ++ intKey n)
    (right : b = y ++ intKey n') {p q : Bytes} (same : p ++ a = q ++ b) : n = n' := by
  subst left
  subst right
  rw [← append_assoc, ← append_assoc] at same
  exact intKey_inj (append_inj' same (by simp)).2

theorem indexTable_separated (lower : Str → Str) : (indexTableSchema lower).Separated := nofun

theorem topicsTable_separated (lower : Str → Str) : (topicsTableSchema lower).Separated :=
  nofun

theorem nodesTable_separated : nodesTableSchema.Separated := by
  intro i a b x y f primary primary' key key'
  cases i with
  | nodeMeta =>
    obtain rfl := Option.some.inj primary
    obtain rfl := Option.some.inj primary'
    simp only [IndexSchema.fullKeys, nodesTableSchema, Bool.false_eq_true, ↓reduceIte,
      mem_map] at key key'
    obtain ⟨k, -, rfl⟩ := key
    obtain ⟨k', -, same⟩ := key'
    have here : b.node = a.node := cancel_of_intKey (x := []) (y := []) rfl rfl same
    rw [here]

theorem partitionsTable_separated : partitionsTableSchema.Separated := by
  intro i a b x y f primary primary' key key'
  obtain ⟨p, named, rfl⟩ := Option.map_eq_some_iff.mp primary
  obtain ⟨q, named', rfl⟩ := Option.map_eq_some_iff.mp primary'
  obtain ⟨-, rfl⟩ := stringField_eq_some named
  obtain ⟨-, rfl⟩ := stringField_eq_some named'
  cases i with
  | topic =>
    -- The topic stands twice in such a key, so the lengths agree.
    simp only [IndexSchema.fullKeys, partitionsTableSchema, named, named', Option.toList_some,
      map_cons, map_nil, mem_singleton, Bool.false_eq_true, ↓reduceIte] at key key'
    rw [key] at key'
    have lengths := congrArg length key'
    simp only [stringKey, length_append, length_singleton, length_intKey] at lengths
    exact (append_inj key' (by
      simp only [stringKey, length_append, length_singleton]
      omega)).2
  | partition | leader =>
    rw [mem_fullKeys_int.mp key] at key'
    exact (append_inj (mem_fullKeys_int.mp key') (by simp)).2

theorem groupTable_separated (lower : Str → Str) : (groupTableSchema lower).Separated := by
  intro i a b x y f primary primary' key key'
  cases i with
  | coordinator =>
    rw [mem_fullKeys_int.mp key] at key'
    exact (append_inj (mem_fullKeys_int.mp key') (by simp)).2

end Jocko.Fsm
