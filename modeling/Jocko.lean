import Jocko.Commitlog.KeptSuffix
import Jocko.Commitlog.TornTail
import Jocko.Commitlog.CleanStates
import Jocko.Commitlog.Compaction
import Jocko.Fsm.IntIndex
import Jocko.Fsm.Naming
import Jocko.Fsm.History
import Jocko.Broker.Framing
import Jocko.Broker.Timeout
import Jocko.Broker.Producing
import Jocko.Broker.Handover
import Jocko.Broker.Versions
import Jocko.Broker.Pipelining
import Jocko.Broker.LeaderLoop
import Jocko.Protocol.Lengths
import Jocko.Protocol.PartialSets
import Jocko.Commitlog.Splitting
import Jocko.Commitlog.Capacity
import Jocko.Commitlog.Truncating
import Jocko.Broker.Lookup
import Jocko.Broker.TopicJobs
import Jocko.Broker.Coordinating
import Jocko.Broker.Reconciling
