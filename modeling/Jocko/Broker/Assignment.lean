import Jocko.Broker.Announcements
import Mathlib.Data.Nat.ModEq

namespace Jocko.Broker

open Go Fsm Protocol Cluster List

section

variable {bs : List MetaBroker}

theorem ringID_eq (nonempty : bs ≠ []) (place : Nat) : ∃ inside : place % bs.length < bs.length,
      ringID bs place = (bs.get ⟨place % bs.length, inside⟩).id := by
  have inside : place % bs.length < bs.length := Nat.mod_lt _ (length_pos_iff.mpr nonempty)
  refine ⟨inside, ?_⟩
  simp only [ringID, getElem?_eq_getElem inside, Option.map_some, Option.getD_some,
    get_eq_getElem]

theorem ringID_mem (nonempty : bs ≠ []) (place : Nat) : ringID bs place ∈ bs.map MetaBroker.id := by
  obtain ⟨inside, same⟩ := ringID_eq nonempty place
  rw [same]
  exact mem_map_of_mem (get_mem ..)

/-- Fewer steps than the ring has places lead to different brokers. -/
theorem ringID_ne (nonempty : bs ≠ []) (distinct : (bs.map MetaBroker.id).Nodup)
    {place i j : Nat} (first : i < bs.length) (second : j < bs.length)
    (same : ringID bs (place + i) = ringID bs (place + j)) : i = j := by
  obtain ⟨inside, left⟩ := ringID_eq nonempty (place + i)
  obtain ⟨inside', right⟩ := ringID_eq nonempty (place + j)
  rw [left, right] at same
  have index : (place + i) % bs.length = (place + j) % bs.length := by
    have injective := inj_on_of_nodup_map distinct (get_mem ..) (get_mem ..) same
    exact congrArg Fin.val ((nodup_iff_injective_get.mp distinct.of_map) injective)
  have steps : i ≡ j [MOD bs.length] := Nat.ModEq.add_left_cancel' place index
  exact steps.eq_of_lt_of_lt first second

/-- The replicas of one partition: the leader comes first, and no broker comes twice. -/
theorem ringReplicas_assigned (nonempty : bs ≠ []) (distinct : (bs.map MetaBroker.id).Nodup)
    {followers : Nat} (few : followers < bs.length) (place : Nat) :
    (ringReplicas bs place followers).length = followers + 1 ∧
      (ringReplicas bs place followers).Nodup ∧
      (∀ id ∈ ringReplicas bs place followers, id ∈ bs.map MetaBroker.id) ∧
      (ringReplicas bs place followers).head? = some (ringID bs place) := by
  refine ⟨by simp [ringReplicas], ?_, fun id inside => ?_, ?_⟩
  · refine Nodup.map_on (fun i inside j inside' same => ?_) nodup_range
    rw [mem_range] at inside inside'
    exact ringID_ne nonempty distinct (by omega) (by omega) same
  · obtain ⟨k, -, rfl⟩ := mem_map.mp inside
    exact ringID_mem nonempty _
  · simp [ringReplicas, range_succ_eq_map]

end

/-- A partition as `buildPartitions` should make it. -/
structure Assigned (topic : Str) (brokers : List MetaBroker) (factor : Nat) (p : Fsm.Partition) :
    Prop where
  topic : p.topic = topic
  number : p.partition = p.id
  count : p.ar.length = factor
  distinct : p.ar.Nodup
  known : ∀ id ∈ p.ar, id ∈ brokers.map MetaBroker.id
  leader : p.ar.head? = some p.leader
  isr : p.isr = p.ar

/-- With a broker in the ring the loop returns, wherever the random moves lead. -/
theorem buildLoop_returns {bs : List MetaBroker} (nonempty : bs ≠ []) (topic : Str)
    (followers left i place : Nat) (c : Cluster) :
    ∃ ps c', (buildLoop topic bs followers left i place).run c = .ok ps c' := by
  induction left generalizing i place c with
  | zero => exact ⟨[], c, rfl⟩
  | succ left ih =>
    have drawn : (intn bs.length).run c = .ok (c.random c.drawn % bs.length)
        { c with drawn := c.drawn + 1 } := by
      simp only [intn, length_eq_zero_iff, nonempty, ↓reduceIte]
    generalize c.random c.drawn % bs.length = n at drawn
    obtain ⟨ps, c', made⟩ := ih (i + 1) (place + n + followers) { c with drawn := c.drawn + 1 }
    rw [buildLoop, bind_ok drawn]
    exact ⟨_, c', (bind_ok made).trans rfl⟩

/-- `buildPartitions` makes as many partitions as asked for, each with its replicas on different
brokers, whatever the random source returns; with too few brokers it makes none. -/
theorem buildPartitions_assigned {c c₀ : Cluster} {bs : List MetaBroker}
    (listed : brokers.run c = .ok bs c₀) (nonempty : bs ≠ [])
    (distinct : (bs.map MetaBroker.id).Nodup) (topic : Str) {count : Int32} {factor : Int16}
    (_ : 0 ≤ count.toInt) (positive : 1 ≤ factor.toInt) :
    (factor.toInt ≤ bs.length → ∃ ps c',
      (buildPartitions topic count factor).run c = .ok (.ok ps) c' ∧
      ps.map Fsm.Partition.id = (List.range count.toInt.toNat).map Int32.ofNat ∧
      ∀ p ∈ ps, Assigned topic bs factor.toInt.toNat p) ∧
    ((bs.length : Int) < factor.toInt → ∃ c',
      (buildPartitions topic count factor).run c = .ok (.error .invalidReplicationFactor) c') := by
  unfold buildPartitions
  rw [bind_ok listed]
  constructor
  · intro enough
    have below := factor.toInt_lt
    have less : (factor - 1).toInt = factor.toInt - 1 := by
      rw [Int16.toInt_sub]
      have one : (1 : Int16).toInt = 1 := by decide
      rw [one, Int.bmod_eq_of_le] <;> omega
    have back : (factor - 1).toInt.toNat + 1 = factor.toInt.toNat := by omega
    obtain ⟨ps, c', made⟩ := buildLoop_returns nonempty topic (factor - 1).toInt.toNat
      count.toInt.toNat 0 0 c₀
    obtain ⟨each, numbers⟩ := buildLoop_built made
    rw [if_neg (by omega)]
    refine ⟨ps, c', (bind_ok made).trans rfl, ?_, fun p inside => ?_⟩
    · rw [range_eq_range', ← numbers]
      exact map_congr_left fun p inside => (each p inside).2.1
    · obtain ⟨own, number, isr, -, place, ar, leader⟩ := each p inside
      obtain ⟨length, once, known, first⟩ := ringReplicas_assigned nonempty distinct
        (show (factor - 1).toInt.toNat < bs.length by omega) place
      rw [back] at length
      rw [← ar] at length once known first
      exact ⟨own, number.symm, length, once, known, leader ▸ first, isr⟩
  · intro few
    rw [if_pos few]
    exact ⟨c₀, rfl⟩

/-- Two brokers, two replicas for each of three partitions, and a request for three replicas. -/
theorem buildPartitions_assigned_pair :
    let c := connected Store.new
    (∃ ps c', (buildPartitions (ascii "t") 3 2).run c = .ok (.ok ps) c' ∧
      ps.map Fsm.Partition.id = [0, 1, 2] ∧
      ∀ p ∈ ps, Assigned (ascii "t") (c.lookup.addressToBroker.map Prod.snd) 2 p) ∧
    ∃ c', (buildPartitions (ascii "t") 3 3).run c = .ok (.error .invalidReplicationFactor) c' := by
  intro c
  have nonempty : c.lookup.addressToBroker.map Prod.snd ≠ [] := by decide
  have distinct : ((c.lookup.addressToBroker.map Prod.snd).map MetaBroker.id).Nodup := by decide
  exact ⟨(buildPartitions_assigned rfl nonempty distinct (ascii "t")
      (by decide) (by decide)).1 (by decide),
    (buildPartitions_assigned rfl nonempty distinct (ascii "t")
      (by decide) (by decide)).2 (by decide)⟩

end Jocko.Broker
