import Jocko.Fsm.Store
import Jocko.Go.Names
import Jocko.Protocol.Messages

namespace Jocko.Broker

open Go MemDB Fsm Protocol

/-- `metadata.Broker`: a broker as its tags in the gossip ring describe it. -/
structure MetaBroker where
  id : Int32
  raftAddr : Str
  brokerAddr : Str
  deriving DecidableEq

/-- `serf.Member`, which the handlers know by its tags. -/
structure SerfMember where
  tags : GoMap Str Str

/-- `m.Tags[name]`, with Go's zero value for a tag that is not there. -/
def SerfMember.tag (m : SerfMember) (name : String) : Str := (m.tags.get? (ascii name)).getD []

def atoiStr (s : Str) : Option Int := atoi (s.map fun b => Char.ofNat b.toNat)

/-- `metadata.IsBroker` -/
def isBroker (m : SerfMember) : Option MetaBroker :=
  if m.tag "role" ≠ ascii "jocko" then none
  else
    let expect := match m.tags.get? (ascii "expect") with
      | some text => atoiStr text
      | none => some 0
    match expect, atoiStr (m.tag "id") with
    | some _, some id => some ⟨Int32.ofInt id, m.tag "raft_addr", m.tag "broker_addr"⟩
    | _, _ => none

/-- The brokers of the ring, by raft address and by id. -/
structure BrokerLookup where
  addressToBroker : List (Str × MetaBroker)
  idToBroker : List (Int32 × MetaBroker)

/-- An order in which a `range` over a map meets its entries. -/
structure Order (α : Type) where
  pick : List α → List α
  perm : ∀ l, (pick l).Perm l

/-- What a broker shares with the others: its copy of the replicated state, raft, and the
connections. The outcomes that the code does not decide are given in advance: the index at
which each write to raft is committed or its error, the random numbers, the orders of the map
iterations, and the errors of the network. -/
structure Cluster where
  id : Int32
  fsm : Store
  lookup : BrokerLookup
  raft : Nat → Except Err UInt64
  applied : Nat
  committed : List (UInt64 × Command)
  random : Nat → Nat
  drawn : Nat
  order : Nat → Order MetaBroker
  listed : Nat
  network : Nat → Option Err
  dialled : Nat
  sent : List (Str × LeaderAndISRRequest)

namespace Cluster

/-- `b.fsm.State()` -/
def state : Call Cluster Store := ⟨fun c => .ok c.fsm c⟩

/-- `b.config.ID` -/
def configID : Call Cluster Int32 := ⟨fun c => .ok c.id c⟩

/-- `brokerLookup.BrokerByID` -/
def brokerByID (id : Int32) : Call Cluster (Option MetaBroker) := ⟨fun c =>
  .ok (c.lookup.idToBroker.lookup id) c⟩

/-- `raftApply`: a committed command is applied before the call returns, and its response may
itself be an error. -/
def raftApply (lower : Str → Str) (command : Command) : Call Cluster (Option Err) := ⟨fun c =>
  let c' := { c with applied := c.applied + 1 }
  match c.raft c.applied with
  | .error cause => .error (.err cause) c'
  | .ok idx =>
    let (fsm, response) := c.fsm.apply lower idx command
    .ok response { c' with fsm, committed := c.committed ++ [(idx, command)] }⟩

/-- `rand.Intn` -/
def intn (n : Nat) : Call Cluster Nat := ⟨fun c =>
  if n = 0 then .error (.panic "invalid argument to Intn") c
  else .ok (c.random c.drawn % n) { c with drawn := c.drawn + 1 }⟩

/-- `brokerLookup.Brokers` -/
def brokers : Call Cluster (List MetaBroker) := ⟨fun c =>
  .ok ((c.order c.listed).pick (c.lookup.addressToBroker.map Prod.snd))
    { c with listed := c.listed + 1 }⟩

/-- Something that the network may refuse. -/
def reach : Call Cluster Unit := ⟨fun c =>
  let c' := { c with dialled := c.dialled + 1 }
  match c.network c.dialled with
  | some cause => .error (.err cause) c'
  | none => .ok () c'⟩

def post (addr : Str) (req : LeaderAndISRRequest) : Call Cluster Unit := ⟨fun c =>
  .ok () { c with sent := c.sent ++ [(addr, req)] }⟩

/-- `conn.LeaderAndISR`: the request is on its way whether or not a response comes back. -/
def sendLeaderAndISR (addr : Str) (req : LeaderAndISRRequest) : Call Cluster Unit := do
  post addr req
  reach

end Cluster

section

open Cluster

variable {lower : Str → Str} {c : Cluster}

theorem raftApply_ok {command : Command} {idx : UInt64} (commits : c.raft c.applied = .ok idx) :
    (raftApply lower command).run c = .ok (c.fsm.apply lower idx command).2
      { c with
        applied := c.applied + 1
        fsm := (c.fsm.apply lower idx command).1
        committed := c.committed ++ [(idx, command)] } := by
  simp only [raftApply, commits]

theorem raftApply_error {command : Command} {cause : Err}
    (refused : c.raft c.applied = .error cause) :
    (raftApply lower command).run c = .error (.err cause) { c with applied := c.applied + 1 } := by
  simp only [raftApply, refused]

end

/-- A broker without peers. -/
def lone (fsm : Store) (raft : Nat → Except Err UInt64) : Cluster where
  id := 1
  fsm
  lookup := ⟨[], []⟩
  raft
  applied := 0
  committed := []
  random := fun _ => 0
  drawn := 0
  order := fun _ => ⟨fun l => l, fun l => List.Perm.refl l⟩
  listed := 0
  network := fun _ => none
  dialled := 0
  sent := []

end Jocko.Broker
