import Jocko.Fsm.Placement

namespace Jocko.Fsm

open Go MemDB Store

/-- The store keeps two names apart: what is written for `b` leaves the rows of `a`, a lookup of
`a` does not find `b`, and the partitions are one name's just where the topic is. -/
structure KeepsApart (lower : Str → Str) (a b : Str) : Prop where
  ensureTopic {s s' : Store} {idx : UInt64} {t : Topic} (clean : s.Clean lower)
    (named : t.topic = b) (done : Store.ensureTopic lower idx t s = .ok s') :
    (s'.getTopic lower a).2.map Obj.val = (s.getTopic lower a).2.map Obj.val
  deleteTopic {s s' : Store} {idx : UInt64} (clean : s.Clean lower)
    (done : Store.deleteTopic lower idx b s = .ok s') :
    (s'.getTopic lower a).2.map Obj.val = (s.getTopic lower a).2.map Obj.val
  getTopic {s : Store} {t : Topic} (clean : s.Clean lower)
    (found : (s.getTopic lower a).2.map Obj.val = some t) : t.topic ≠ b
  ensureGroup {s s' : Store} {idx : UInt64} {g : Group} (clean : s.Clean lower)
    (named : g.group = b) (done : Store.ensureGroup lower idx g s = .ok s') :
    (s'.getGroup lower a).2.map Obj.val = (s.getGroup lower a).2.map Obj.val
  getGroup {s : Store} {g : Group} (clean : s.Clean lower)
    (found : (s.getGroup lower a).2.map Obj.val = some g) : g.group ≠ b
  getPartition (i : Int32) :
    partitionKey a i = partitionKey b i ↔ lowerKey lower a = lowerKey lower b

variable {lower : Str → Str} {s s' : Store} {idx : UInt64} {a b : Str}

section Tables

variable {ι α : Type} {kind : Kind ι α} {name : α → Str} {row : α}
  (keyed : ∀ {row : α} {key : Bytes}, kind.schema.id row = some key →
    key = lowerKey lower (name row))
  (sound : kind.Sound lower s) (other : lowerKey lower a ≠ lowerKey lower b)
include keyed sound other

theorem Kind.Sound.ensureTxn_other (named : name row = b)
    (done : kind.ensureTxn lower idx row s = .ok s') :
    kind.row? s' (lowerKey lower a) = kind.row? s (lowerKey lower a) := by
  obtain ⟨key, new, primary, wrote⟩ := sound.ensureTxn_shape done
  obtain rfl := keyed primary
  rw [wrote.row?, named, if_neg other]

theorem Kind.Sound.row?_other (found : kind.row? s (lowerKey lower a) = some row) :
    name row ≠ b := by
  rintro rfl
  obtain ⟨o, stored, rfl⟩ := Option.map_eq_some_iff.mp found
  exact other (keyed (sound.rows.exact.id _ o stored))

end Tables

/-- Two names are kept apart if and only if they differ when they are written in lower case: so
the topics and the groups are found, but the partitions by the name as it is. -/
theorem keepsApart_iff (differ : a ≠ b) :
    KeepsApart lower a b ↔ toLower lower a ≠ toLower lower b := by
  constructor
  · intro apart same
    have key := (apart.getPartition 0).mpr (congrArg stringKey same)
    exact differ (partitionKey_inj key).1
  · intro unlike
    have other : lowerKey lower a ≠ lowerKey lower b := fun same => unlike (stringKey_inj same)
    have topics {t : Topic} {key : Bytes} (primary : (topicKind lower).schema.id t = some key) :
        key = lowerKey lower t.topic := (stringField_eq_some primary).2
    have groups {g : Group} {key : Bytes} (primary : (groupKind lower).schema.id g = some key) :
        key = lowerKey lower g.group := (stringField_eq_some primary).2
    constructor
    case ensureTopic =>
      intro s s' idx t clean named done
      exact clean.topicSound.ensureTxn_other topics other (t.topic_configured.trans named) done
    case deleteTopic =>
      intro s s' idx clean done
      rcases clean.topicSound.deleteTxn_shape done with rfl | wrote
      · rfl
      · exact (wrote.row? _).trans (if_neg other)
    case getTopic =>
      intro s t clean found
      exact clean.topicSound.row?_other topics other found
    case ensureGroup =>
      intro s s' idx g clean named done
      exact clean.groupSound.ensureTxn_other groups other named done
    case getGroup =>
      intro s g clean found
      exact clean.groupSound.row?_other groups other found
    case getPartition =>
      exact fun i => iff_of_false (fun same => differ (partitionKey_inj same).1) other

theorem keepsApart_letters : KeepsApart id (ascii "a") (ascii "b") :=
  (keepsApart_iff (by decide)).mpr (by decide)

/-- The topic "A" takes the place of the topic "a", whose partition stays. -/
theorem topic_of_other_case :
    let s := Store.new.applyAll id
      [(1, .registerTopic ⟨[], ascii "a", some [(0, [1])], none, false, 0, 0⟩),
        (2, .registerPartition ⟨0, 0, ascii "a", [1], [1], 1, 0, 0, 0, 0⟩),
        (3, .registerTopic ⟨[], ascii "A", some [], none, false, 0, 0⟩)]
    (s.getTopic id (ascii "a")).2.map (·.val.topic) = some (ascii "A") ∧
      (s.getPartition id (ascii "a") 0).2.isSome ∧
      (s.getPartition id (ascii "A") 0).2 = none := by
  decide +kernel

end Jocko.Fsm
