import Jocko.Broker.Cluster

namespace Jocko.Broker.BrokerLookup

open Go List

/-- `RemoveBroker` -/
def removeBroker (l : BrokerLookup) (x : MetaBroker) : BrokerLookup :=
  ⟨l.addressToBroker.filter fun e => e.1 ≠ x.raftAddr, l.idToBroker.filter fun e => e.1 ≠ x.id⟩

/-- `AddBroker` -/
def addBroker (l : BrokerLookup) (x : MetaBroker) : BrokerLookup :=
  ⟨(x.raftAddr, x) :: l.addressToBroker.filter fun e => e.1 ≠ x.raftAddr,
    (x.id, x) :: l.idToBroker.filter fun e => e.1 ≠ x.id⟩

/-- `Brokers`, in some order. -/
def brokers (l : BrokerLookup) : List MetaBroker := l.addressToBroker.map Prod.snd

/-- What the gossip ring does to the lookup. -/
inductive Change where
  | add (x : MetaBroker)
  | remove (x : MetaBroker)

def Change.broker : Change → MetaBroker
  | .add x => x
  | .remove x => x

def apply (l : BrokerLookup) : Change → BrokerLookup
  | .add x => l.addBroker x
  | .remove x => l.removeBroker x

/-- The address is in use by no other id, and the id is known with no other address. -/
def agrees (l : BrokerLookup) (x : MetaBroker) : Bool :=
  (l.addressToBroker.lookup x.raftAddr).all (fun y => y.id = x.id) &&
    (l.idToBroker.lookup x.id).all fun y => y.raftAddr = x.raftAddr

def agreesAll : List Change → BrokerLookup → Bool
  | [], _ => true
  | change :: changes, l => l.agrees change.broker && agreesAll changes (l.apply change)

/-- The two maps describe the same brokers. -/
structure Consistent (l : BrokerLookup) : Prop where
  byAddress : ∀ addr x, l.addressToBroker.lookup addr = some x → l.idToBroker.lookup x.id = some x
  byID : ∀ id x, l.idToBroker.lookup id = some x → l.addressToBroker.lookup x.raftAddr = some x
  ids : (l.brokers.map MetaBroker.id).Nodup
  addresses : (l.brokers.map MetaBroker.raftAddr).Nodup
  known : ∀ x, x ∈ l.brokers ↔ l.idToBroker.lookup x.id = some x

/-- Neither map has an entry with the id. -/
def Forgotten (id : Int32) (l : BrokerLookup) : Prop :=
  l.idToBroker.lookup id = none ∧ ∀ y ∈ l.brokers, y.id ≠ id

/-- The entries of both maps are filed under their own keys, and are the same. -/
structure Matched (l : BrokerLookup) : Prop where
  addresses : (l.addressToBroker.map Prod.fst).Nodup
  ids : (l.idToBroker.map Prod.fst).Nodup
  address : ∀ e ∈ l.addressToBroker, e.1 = e.2.raftAddr
  id : ∀ e ∈ l.idToBroker, e.1 = e.2.id
  same : ∀ x, (x.raftAddr, x) ∈ l.addressToBroker ↔ (x.id, x) ∈ l.idToBroker

namespace Matched

variable {l : BrokerLookup} {x y : MetaBroker}

theorem empty : Matched ⟨[], []⟩ := by
  constructor <;> simp

section

variable (matched : l.Matched) (agrees : l.agrees x = true)
include matched agrees

/-- A broker that is known has either both or neither of the keys. -/
theorem agrees_iff
    (known : (y.raftAddr, y) ∈ l.addressToBroker) : y.raftAddr = x.raftAddr ↔ y.id = x.id := by
  obtain ⟨address, id⟩ := Bool.and_eq_true_iff.mp agrees
  constructor
  · intro here
    rw [here, ← lookup_eq_some_iff_mem matched.addresses] at known
    rw [known] at address
    simpa using address
  · intro here
    rw [matched.same, here, ← lookup_eq_some_iff_mem matched.ids] at known
    rw [known] at id
    simpa using id

theorem remove : (l.removeBroker x).Matched where
  addresses := matched.addresses.sublist (filter_sublist.map _)
  ids := matched.ids.sublist (filter_sublist.map _)
  address e inside := matched.address e (mem_filter.mp inside).1
  id e inside := matched.id e (mem_filter.mp inside).1
  same y := by
    simp only [removeBroker, mem_filter, decide_eq_true_eq, ← matched.same y]
    exact and_congr_right fun known => not_congr (matched.agrees_iff agrees known)

theorem add : (l.addBroker x).Matched where
  addresses := by
    refine nodup_cons.mpr ⟨?_, (matched.remove agrees).addresses⟩
    simp
  ids := by
    refine nodup_cons.mpr ⟨?_, (matched.remove agrees).ids⟩
    simp
  address := forall_mem_cons.mpr ⟨rfl, (matched.remove agrees).address⟩
  id := forall_mem_cons.mpr ⟨rfl, (matched.remove agrees).id⟩
  same y := by
    have rest := (matched.remove agrees).same y
    by_cases new : y = x
    · simp [addBroker, new]
    · simpa [addBroker, removeBroker, new] using rest

end

theorem change (matched : l.Matched) (change : Change) (agrees : l.agrees change.broker = true) :
    (l.apply change).Matched := by
  cases change with
  | add x => exact matched.add agrees
  | remove x => exact matched.remove agrees

theorem run {changes : List Change} (matched : l.Matched) (agrees : agreesAll changes l = true) :
    (changes.foldl apply l).Matched := by
  induction changes generalizing l with
  | nil => exact matched
  | cons change changes ih =>
    obtain ⟨first, rest⟩ := Bool.and_eq_true_iff.mp agrees
    exact ih (matched.change change first) rest

theorem mem_brokers (matched : l.Matched) : x ∈ l.brokers ↔ (x.raftAddr, x) ∈ l.addressToBroker := by
  constructor
  · intro inside
    obtain ⟨e, here, rfl⟩ := mem_map.mp inside
    rw [← matched.address e here]
    exact here
  · exact fun here => mem_map_of_mem here

theorem known (matched : l.Matched) : x ∈ l.brokers ↔ l.idToBroker.lookup x.id = some x := by
  rw [matched.mem_brokers, matched.same, lookup_eq_some_iff_mem matched.ids]

theorem nodup_addresses (matched : l.Matched) : (l.brokers.map MetaBroker.raftAddr).Nodup := by
  have keys : l.brokers.map MetaBroker.raftAddr = l.addressToBroker.map Prod.fst := by
    rw [brokers, map_map]
    exact map_congr_left fun e inside => (matched.address e inside).symm
  rw [keys]
  exact matched.addresses

theorem consistent (matched : l.Matched) : l.Consistent where
  byAddress addr x here :=
    matched.known.mp (mem_map_of_mem ((lookup_eq_some_iff_mem matched.addresses).mp here))
  byID id x here := by
    have inside := (lookup_eq_some_iff_mem matched.ids).mp here
    obtain rfl : id = x.id := matched.id _ inside
    rwa [lookup_eq_some_iff_mem matched.addresses, matched.same]
  ids := by
    refine Nodup.map_on (fun x inside y present same => ?_)
      (Nodup.of_map _ matched.nodup_addresses)
    have first := matched.known.mp inside
    rw [same, matched.known.mp present] at first
    exact (Option.some.inj first).symm
  addresses := matched.nodup_addresses
  known _ := matched.known

/-- A broker that was removed is gone from both maps if they still match. -/
theorem forgotten (matched : (l.removeBroker x).Matched) : Forgotten x.id (l.removeBroker x) := by
  have gone {y : MetaBroker} (inside : (x.id, y) ∈ (l.removeBroker x).idToBroker) : False := by
    simp [removeBroker] at inside
  refine ⟨Option.eq_none_iff_forall_ne_some.mpr fun y found =>
    gone ((lookup_eq_some_iff_mem matched.ids).mp found), fun y inside same => ?_⟩
  rw [matched.mem_brokers, matched.same, same] at inside
  exact gone inside

end Matched

/-- The lookup after calls that each find the broker's id and address known together or not at
all. -/
theorem changes_consistent (changes : List Change) (agrees : agreesAll changes ⟨[], []⟩ = true) :
    (changes.foldl apply ⟨[], []⟩).Consistent ∧
      ∀ x, changes.getLast? = some (.remove x) → Forgotten x.id (changes.foldl apply ⟨[], []⟩) := by
  have matched := Matched.empty.run agrees
  refine ⟨matched.consistent, fun x last => ?_⟩
  obtain ⟨before, rfl⟩ := getLast?_eq_some_iff.mp last
  rw [foldl_append] at matched ⊢
  exact Matched.forgotten matched

/-- A broker that leaves and comes back with another address. -/
theorem changes_consistent_rejoin :
    let changes : List Change := [.add ⟨1, ascii "a", []⟩, .remove ⟨1, ascii "a", []⟩,
      .add ⟨1, ascii "b", []⟩, .add ⟨2, ascii "a", []⟩, .remove ⟨1, ascii "b", []⟩]
    agreesAll changes ⟨[], []⟩ = true ∧ Consistent (changes.foldl apply ⟨[], []⟩) ∧
      Forgotten 1 (changes.foldl apply ⟨[], []⟩) := by
  intro changes
  have agrees : agreesAll changes ⟨[], []⟩ = true := by decide
  obtain ⟨consistent, forgotten⟩ := changes_consistent changes agrees
  exact ⟨agrees, consistent, forgotten ⟨1, ascii "b", []⟩ rfl⟩

/-- A broker that comes back with another address before it was removed is listed twice, and the
late removal of its old address takes its id out of the other map. -/
theorem restarted_broker_listed_twice :
    let l := [Change.add ⟨1, ascii "a", []⟩, .add ⟨1, ascii "b", []⟩].foldl apply ⟨[], []⟩
    l.brokers.map MetaBroker.id = [1, 1] ∧
      (l.removeBroker ⟨1, ascii "a", []⟩).brokers = [⟨1, ascii "b", []⟩] ∧
      (l.removeBroker ⟨1, ascii "a", []⟩).idToBroker = [] := by
  decide

end Jocko.Broker.BrokerLookup
