import Jocko.Broker.Topics
import Jocko.Commitlog.Stream

namespace Jocko.Broker

open Go MemDB Fsm Protocol Cluster

section

variable (lower : Str → Str) (hash : Bytes → UInt64)

/-- The log of the partition's replica on this broker. -/
def findLog (topic : Str) (partition : Int32) : Call Broker (Except ErrorCode Nat) := do
  match ← findReplica topic partition with
  | none => return .error .replicaNotAvailable
  | some r =>
    match (← getReplica r).log with
    | none => return .error .replicaNotAvailable
    | some log => return .ok log

/-- What `handleProduce` finds out before it appends: the log, or the error to answer. -/
def openLog (topic : Str) (partition : Int32) : Call Broker (Except ErrorCode Nat) := do
  let s ← onCluster state
  match (s.getTopic lower topic).2 with
  | none => return .error .unknownTopicOrPartition
  | some _ => findLog topic partition

/-- The function that `handleProduce` runs for a partition: its error, and the offset of the
record set if it was appended. -/
def produce (topic : Str) (data : Data) : Call Broker (ErrorCode × Option Int) := do
  match ← openLog lower topic data.partition with
  | .error code => return (code, none)
  | .ok log =>
    match ← attempt (onLog log (Commitlog.append hash (data.recordSet.getD []))) with
    | .error _ => return (.unknown, none)
    | .ok offset => return (.none, some offset)

end

/-- The response for a partition before anything is known. -/
def blankProduced (data : Data) : ProducePartitionResponse := ⟨data.partition, 0, 0, zeroTime, 0⟩

/-- What the function leaves in the response. Without a replica it writes the partition again. -/
def recordProduced (now : Int) (partition : Int32) (ends : ErrorCode × Option Int)
    (res : ProducePartitionResponse) : ProducePartitionResponse :=
  match ends with
  | (_, some baseOffset) => { res with baseOffset, logAppendTime := now }
  | (.replicaNotAvailable, none) => { res with partition }
  | (_, none) => res

/-- `io.Copy(buf, rdr)`: what the reader delivers up to its end, in pieces of `bytes.MinRead`
bytes at least, and the error that ends it. -/
def copyLoop : Nat → Commitlog.Reader → Call Commitlog.World (Commitlog.Reader × Bytes × Option Err)
  | 0, _ => stop .diverge
  | fuel + 1, rdr => do
    let (rdr, p, err) ← rdr.read 512
    match err with
    | none => do
      let (rdr, q, err) ← copyLoop fuel rdr
      return (rdr, p ++ q, err)
    | some .eof => return (rdr, p, none)
    | some cause => return (rdr, p, some cause)

/-- A reader is at its end after all the pieces of the log. -/
def copyRounds : Call Commitlog.World Nat := ⟨fun w => .ok (w.contents.flatten.length / 512 + 2) w⟩

/-- The loop of `handleFetch`. `io.Copy` does not return `io.EOF`, so that the loop ends only
with enough bytes; the log does not grow meanwhile, and a second round finds nothing new. -/
def fetchLoop (minBytes : Int32) : Nat → Commitlog.Reader → Int32 → Option Bytes →
    Call Commitlog.World (Except Err (Option Bytes))
  | 0, _, _, _ => stop .diverge
  | fuel + 1, rdr, n, buf => do
    if n < minBytes then
      let (rdr, p, err) ← copyLoop (← copyRounds) rdr
      match err with
      | some cause => return .error cause
      | none => fetchLoop minBytes fuel rdr (n + Int32.ofNat p.length) (some (buf.getD [] ++ p))
    else return .ok buf

/-- The function that `handleFetch` runs for a partition: its error, and the high watermark and
the records if it has read them. -/
def fetch (minBytes : Int32) (topic : Str) (p : FetchPartition) :
    Call Broker (ErrorCode × Option (Int × Option Bytes)) := do
  match ← findReplica topic p.partition with
  | none => return (.replicaNotAvailable, none)
  | some r =>
    let replica ← getReplica r
    if replica.partition.leader ≠ (← onCluster configID) then
      return (.notLeaderForPartition, none)
    else
      match replica.log with
      | none => return (.replicaNotAvailable, none)
      | some log =>
        match ← attempt (onLog log (Commitlog.newReader p.fetchOffset)) with
        | .error _ => return (.unknown, none)
        | .ok rdr =>
          match ← onLog log (fetchLoop minBytes 2 rdr 0 none) with
          | .error _ => return (.unknown, none)
          | .ok buf =>
            let newest ← onLog log Commitlog.newestOffset
            return (.none, some (newest - 1, buf))

end Jocko.Broker
