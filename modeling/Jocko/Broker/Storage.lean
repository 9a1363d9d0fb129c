import Jocko.Broker.Leadership
import Jocko.Commitlog.Neighbours

namespace Jocko.Broker

open Go MemDB Fsm Protocol Cluster List Option
open Function (update update_of_ne update_self)
open Commitlog (View Kept Beside Descends MessageSet.stamp)

/-- The open logs of a broker store their records, each in a directory and in files of its own. -/
structure Housed (b : Broker) (rs : Nat → List Bytes) (older : Nat → List View)
    (active : Nat → View) : Prop where
  quiet : b.disk.script = []
  kept : ∀ n log, b.logs[n]? = some log → log.opts.Lasting ∧
    Kept log.opts (rs n) (older n) (active n) (b.world log)
  apart : ∀ m n log log', b.logs[m]? = some log → b.logs[n]? = some log' → m ≠ n →
    log.opts.path ≠ log'.opts.path ∧
      ∀ u ∈ older m ++ [active m], ∀ v ∈ older n ++ [active n], u.Away v

/-- No byte and no counter of a log changes. -/
def Untouched (n : Nat) (b b' : Broker) : Prop :=
  ∀ log, b.logs[n]? = some log → b'.logs[n]? = some log ∧
    ∀ r ∈ log.segments, b'.segs[r]? = b.segs[r]? ∧
      ∀ s, b.segs[r]? = some s → b'.disk.file s.log.inode = b.disk.file s.log.inode ∧
        b'.disk.file s.index.file.inode = b.disk.file s.index.file.inode

variable {n : Nat} {b' : Broker} {log : Commitlog.CommitLog}

namespace Housed

variable {b : Broker} {rs : Nat → List Bytes} {older : Nat → List View} {active : Nat → View}

section

variable (housed : Housed b rs older active)
include housed

theorem untouched {dir : String} {vs : List View}
    {old : Commitlog.CommitLog} {w : Commitlog.World}
    (beside : Beside dir vs (b.world old) w) (disk : b'.disk = w.disk) (segs : b'.segs = w.segs)
    (same : b'.logs[n]? = b.logs[n]?)
    (away : ∀ u ∈ older n ++ [active n], ∀ v ∈ vs, u.Away v) : Untouched n b b' := by
  intro log here
  obtain ⟨-, kept⟩ := housed.kept n log here
  refine ⟨same.trans here, fun r listed => ?_⟩
  have segments : log.segments = (older n ++ [active n]).map View.ref := kept.rep.segments
  rw [segments] at listed
  obtain ⟨u, inside, rfl⟩ := mem_map.mp listed
  have opened := kept.rep.files.opened u inside
  have apart := away u inside
  obtain ⟨c, object⟩ := opened.object
  rw [segs, disk]
  refine ⟨beside.object _ opened.refInside fun v here => (apart v here).ref.symm, fun s found => ?_⟩
  obtain rfl := some.inj (object.symm.trans found)
  exact ⟨beside.file _ opened.inside fun v here =>
      ⟨(apart v here).log.symm, (apart v here).logIndex.symm⟩,
    beside.file _ opened.indexInside fun v here =>
      ⟨(apart v here).indexLog.symm, (apart v here).index.symm⟩⟩

theorem install {dir : String} {vs older' : List View}
    {active' : View} {rs' : List Bytes} {old : Commitlog.CommitLog} {w : Commitlog.World}
    (beside : Beside dir vs (b.world old) w) (disk : b'.disk = w.disk) (segs : b'.segs = w.segs)
    (self : b'.logs[n]? = some w.log) (others : ∀ m, m ≠ n → b'.logs[m]? = b.logs[m]?)
    (lasting : w.log.opts.Lasting) (kept : Kept w.log.opts rs' older' active' w)
    (here : w.log.opts.path = dir)
    (descends : ∀ u ∈ older' ++ [active'], Descends vs (b.world old) u)
    (away : ∀ m log, m ≠ n → b.logs[m]? = some log → log.opts.path ≠ dir ∧
      ∀ v ∈ older m ++ [active m], ∀ u ∈ vs, v.Away u) :
    Housed b' (update rs n rs') (update older n older')
      (update active n active') := by
  have world (log : Commitlog.CommitLog) : b'.world log = { w with log } := by
    simp only [Broker.world, disk, segs]
  have apart {m : Nat} {log : Commitlog.CommitLog} (other : m ≠ n) (there : b.logs[m]? = some log) :
      log.opts.path ≠ w.log.opts.path ∧ ∀ v ∈ older m ++ [active m],
        ∀ u ∈ older' ++ [active'], v.Away u := by
    obtain ⟨-, kept'⟩ := housed.kept m log there
    obtain ⟨paths, views⟩ := away m log other there
    refine ⟨by rw [here]; exact paths, fun v present u new => ?_⟩
    have opened : v.Open log.opts (b.world old) :=
      (kept'.rep.files.opened v present).frame (Nat.le_refl _) rfl rfl rfl
    exact (descends u new).away opened (views v present)
  refine ⟨by rw [disk]; exact beside.script.trans housed.quiet, fun m log there => ?_,
    fun l m log₁ log₂ first second other => ?_⟩
  · by_cases own : m = n
    · subst own
      obtain rfl := some.inj (self.symm.trans there)
      simp only [update_self, world]
      exact ⟨lasting, kept⟩
    · have there' := (others m own).symm.trans there
      obtain ⟨lasting', kept'⟩ := housed.kept m log there'
      obtain ⟨paths, views⟩ := away m log own there'
      simp only [update_of_ne own, world]
      exact ⟨lasting', kept'.rep.beside beside paths views, kept'.valid, kept'.sized, kept'.records,
        kept'.whole⟩
  · by_cases first' : l = n
    · subst first'
      obtain rfl := some.inj (self.symm.trans first)
      obtain ⟨paths, views⟩ := apart other.symm ((others m other.symm).symm.trans second)
      rw [update_self, update_self, update_of_ne other.symm,
        update_of_ne other.symm]
      exact ⟨paths.symm, fun u new v present => (views v present u new).symm⟩
    · have there := (others l first').symm.trans first
      rw [update_of_ne first', update_of_ne first']
      by_cases second' : m = n
      · subst second'
        obtain rfl := some.inj (self.symm.trans second)
        rw [update_self, update_self]
        exact apart first' there
      · rw [update_of_ne second', update_of_ne second']
        exact housed.apart l m log₁ log₂ there ((others m second').symm.trans second) other

/-- An append to one log: it stores one record more, and the others notice nothing. -/
theorem append (hash : Bytes → UInt64)
    (here : b.logs[n]? = some log) {p : Bytes}
    (wide : Commitlog.msgSetHeaderLen ≤ p.length) :
    ∃ disk segs log' older' active',
      (onLog n (Commitlog.append hash p)).run b = .ok ((rs n).length : Int)
        { b with disk, segs, logs := b.logs.set n log' } ∧ log'.opts = log.opts ∧
      Housed { b with disk, segs, logs := b.logs.set n log' }
        (update rs n (rs n ++ [MessageSet.stamp (rs n).length p])) older' active' ∧
      (∀ m, m ≠ n → Untouched m b { b with disk, segs, logs := b.logs.set n log' }) ∧
      ∀ dir, dir ≠ log.opts.path → disk.listing dir = b.disk.listing dir := by
  obtain ⟨lasting, kept⟩ := housed.kept n log here
  obtain ⟨older', active', w, appended, kept', beside, descends⟩ := kept.append lasting hash wide
  have inside := (List.getElem?_eq_some_iff.mp here).1
  have opts : w.log.opts = log.opts := kept'.rep.options
  have ran : (onLog n (Commitlog.append hash p)).run b = .ok ((rs n).length : Int)
      (b.setWorld n w) := by
    simp only [onLog, here, appended]
  have others (m : Nat) (other : m ≠ n) : (b.logs.set n w.log)[m]? = b.logs[m]? :=
    getElem?_set_ne other.symm
  have away (m : Nat) (log' : Commitlog.CommitLog) (other : m ≠ n) (there : b.logs[m]? = some log') :=
    housed.apart m n log' log there here other
  refine ⟨w.disk, w.segs, w.log, update older n older', update active n active', ran,
    opts, housed.install beside rfl rfl (getElem?_set_self inside) others (by rw [opts]; exact lasting)
      (by rw [opts]; exact kept') (by rw [opts]) descends away, fun m other => ?_, beside.listing⟩
  intro log' there
  exact housed.untouched beside rfl rfl (others m other) (away m log' other there).2 log' there

theorem newLog {opts : Commitlog.Options} (named : opts.path ≠ "")
    (policy : opts.cleanupPolicy = Commitlog.deleteCleanupPolicy) (lasting : opts.Lasting)
    (empty : b.disk.listing opts.path = [])
    (other : ∀ (n : Nat) log, b.logs[n]? = some log → log.opts.path ≠ opts.path) :
    ∃ disk segs log older' active',
      (Broker.newLog opts).run b = .ok b.logs.length { b with disk, segs, logs := b.logs ++ [log] } ∧
      log.opts = opts ∧
      Housed { b with disk, segs, logs := b.logs ++ [log] }
        (update rs b.logs.length []) older' active' ∧
      ∀ dir, dir ≠ opts.path → disk.listing dir = b.disk.listing dir := by
  obtain ⟨w, made, kept, beside⟩ := Commitlog.new_kept (w := b.world blankLog) named policy housed.quiet
    empty
  have opened : w.log.opts = opts := kept.rep.options
  have ran : (Broker.newLog opts).run b =
      .ok b.logs.length { b with disk := w.disk, segs := w.segs, logs := b.logs ++ [w.log] } := by
    simp only [Broker.newLog, made]
  have others (m : Nat) (other : m ≠ b.logs.length) : (b.logs ++ [w.log])[m]? = b.logs[m]? := by
    rcases Nat.lt_or_gt_of_ne other with inside | outside
    · exact getElem?_append_left inside
    · rw [getElem?_eq_none (by simpa using Nat.succ_le_of_lt outside),
        getElem?_eq_none (Nat.le_of_lt outside)]
  have descends (u : View) (new : u ∈ [] ++ [View.fresh (b.world blankLog) 0]) :
      Descends [] (b.world blankLog) u := by
    rw [mem_singleton.mp new]
    exact .inr ⟨Nat.le_refl _, Nat.le_refl _, Nat.le_succ _⟩
  exact ⟨w.disk, w.segs, w.log, _, _, ran, opened, housed.install beside rfl rfl
    getElem?_concat_length others (by rw [opened]; exact lasting) (by rw [opened]; exact kept)
    (by rw [opened]) descends fun m log _ there => ⟨other m log there, by simp⟩, beside.listing⟩

end

end Housed

/-- The settings of the log that `startReplica` opens for a partition of a topic without a policy of
its own. -/
def replicaOptions (dataDir : String) (id : Int32) : Commitlog.Options :=
  ⟨logDir dataDir id, 1024, -1, Commitlog.deleteCleanupPolicy⟩

theorem replicaOptions_lasting (dataDir : String) (id : Int32) :
    (replicaOptions dataDir id).Lasting :=
  ⟨(by decide : (0 : Int) < 1024), (by decide : (1024 : Int) ≤ 15728640), rfl⟩

theorem logDir_inj {dataDir : String} {i j : Int32} (same : logDir dataDir i = logDir dataDir j) :
    i = j := by
  have chars := congrArg String.toList same
  simp only [logDir, String.toList_append, String.toList_ofList, append_cancel_left_eq] at chars
  exact Int32.toInt_inj.mp (sprintfd_inj chars)

theorem logDir_ne_empty (dataDir : String) (i : Int32) : logDir dataDir i ≠ "" := by
  intro same
  have chars := congrArg String.toList same
  simp [logDir] at chars

/-- The topic, if it is known, is cleaned up by deleting. -/
def DefaultPolicy (lower : Str → Str) (s : Store) (topic : Str) : Prop :=
  ∀ row, (s.getTopic lower topic).2 = some row →
    getValue row.val.config (ascii "cleanup.policy") = some (.string (ascii "delete"))

/-- A replica without a log is left alone, or gets one in the directory of its number. -/
inductive Lodged (rs : Nat → List Bytes) (id : Int32) (b b' : Broker) : Option Nat → Prop where
  | idle (disk : b'.disk = b.disk) (segs : b'.segs = b.segs) (logs : b'.logs = b.logs) :
      Lodged rs id b b' none
  | opened (log : Commitlog.CommitLog) (older : Nat → List View) (active : Nat → View)
      (logs : b'.logs = b.logs ++ [log]) (opts : log.opts = replicaOptions b.dataDir id)
      (housed : Housed b' (update rs b.logs.length []) older active)
      (listing : ∀ dir, dir ≠ logDir b.dataDir id → b'.disk.listing dir = b.disk.listing dir) :
      Lodged rs id b b' (some b.logs.length)

/-- The logs and their files stay, and so does the log of a replica. -/
structure Retains (r : Nat) (b b' : Broker) : Prop where
  disk : b'.disk = b.disk
  segs : b'.segs = b.segs
  logs : b'.logs = b.logs
  dataDir : b'.dataDir = b.dataDir
  log : b'.replicas[r]?.map Replica.log = b.replicas[r]?.map Replica.log

section

variable {lower : Str → Str} {α : Type} {b : Broker} {rs : Nat → List Bytes}
  {older : Nat → List View} {active : Nat → View} {r : Nat} {replica : Replica}

theorem onLog_unchanged {call : Call Commitlog.World α} {value : α}
    (here : b.logs[n]? = some log) (reads : call.run (b.world log) = .ok value (b.world log)) :
    (onLog n call).run b = .ok value b := by
  obtain ⟨inside, rfl⟩ := List.getElem?_eq_some_iff.mp here
  simp only [onLog, here, reads]
  simp only [setWorld, Broker.world, List.set_getElem_self]

theorem Housed.of_same (housed : Housed b rs older active) (disk : b'.disk = b.disk)
    (segs : b'.segs = b.segs) (logs : b'.logs = b.logs) : Housed b' rs older active := by
  have world (log : Commitlog.CommitLog) : b'.world log = b.world log := by
    simp only [Broker.world, disk, segs]
  refine ⟨by rw [disk]; exact housed.quiet, fun n log here => ?_, fun m n log log' first second => ?_⟩
  · rw [world]
    exact housed.kept n log (by rw [← logs]; exact here)
  · rw [logs] at first second
    exact housed.apart m n log log' first second

/-- The broker once a replica has got a log of its own. -/
def lodgedAt (r : Nat) (replica : Replica) (disk : Disk) (segs : List Commitlog.Segment)
    (log : Commitlog.CommitLog) (b : Broker) : Broker :=
  { b with
    disk
    segs
    logs := b.logs ++ [log]
    replicas := b.replicas.set r { replica with log := some b.logs.length } }

/-- The function that `handleProduce` runs for a partition refuses the record set, or appends it
to the log of the partition's replica. -/
theorem Housed.produce (housed : Housed b rs older active) (linked : Linked b)
    (lodged : ∀ held ∈ b.replicas, ∀ n, held.log = some n → n < b.logs.length)
    (hash : Bytes → UInt64) (topic : Str) (data : Data)
    (wide : Commitlog.msgSetHeaderLen ≤ (data.recordSet.getD []).length) :
    (∃ code, code ≠ .none ∧ (produce lower hash topic data).run b = .ok (code, none) b) ∨
    ∃ held n log disk segs log' older' active', found b topic data.partition = some held ∧
      held.log = some n ∧ b.logs[n]? = some log ∧
      (produce lower hash topic data).run b = .ok (.none, some ((rs n).length : Int))
        { b with disk, segs, logs := b.logs.set n log' } ∧ log'.opts = log.opts ∧
      Housed { b with disk, segs, logs := b.logs.set n log' }
        (update rs n (rs n ++ [MessageSet.stamp (rs n).length (data.recordSet.getD [])]))
        older' active' ∧
      (∀ m, m ≠ n → Untouched m b { b with disk, segs, logs := b.logs.set n log' }) ∧
      ∀ dir, dir ≠ log.opts.path → disk.listing dir = b.disk.listing dir := by
  by_cases appends : ∃ n, Appends lower b topic data.partition n
  · right
    obtain ⟨n, admitted⟩ := appends
    obtain ⟨-, held, here, taken⟩ := (appends_iff linked).mp admitted
    obtain ⟨r, -, present⟩ := bind_eq_some_iff.mp here
    have there := getElem?_eq_getElem (lodged held (mem_of_getElem? present) n taken)
    obtain ⟨disk, segs, log', older', active', appended, same, housed', untouched, listing⟩ :=
      housed.append hash there wide
    refine ⟨held, n, _, disk, segs, log', older', active', here, taken, there, ?_, same, housed',
      untouched, listing⟩
    unfold Broker.produce
    rw [bind_ok admitted, bind_ok (attempt_ok appended)]
    rfl
  · exact .inl (produce_refused linked fun n admitted => appends ⟨n, admitted⟩)

theorem startReplica_lodges (housed : Housed b rs older active) (here : b.replicas[r]? = some replica)
    (new : replica.log = none)
    (policy : DefaultPolicy lower b.cluster.fsm replica.partition.topic)
    (empty : b.disk.listing (logDir b.dataDir replica.partition.id) = [])
    (other : ∀ (n : Nat) log, b.logs[n]? = some log →
      log.opts.path ≠ logDir b.dataDir replica.partition.id) :
    (startReplica lower r).run b = .ok .unknownTopicOrPartition b ∨
    ∃ disk segs log older' active',
      (startReplica lower r).run b = .ok .none (lodgedAt r replica disk segs log b) ∧
      log.opts = replicaOptions b.dataDir replica.partition.id ∧
      Housed (lodgedAt r replica disk segs log b) (update rs b.logs.length []) older'
        active' ∧
      ∀ dir, dir ≠ logDir b.dataDir replica.partition.id →
        disk.listing dir = b.disk.listing dir := by
  have read : (onCluster state).run b = .ok b.cluster.fsm b := rfl
  unfold startReplica
  rw [bind_ok (getReplica_run here), bind_ok read]
  cases known : (b.cluster.fsm.getTopic lower replica.partition.topic).2 with
  | none => exact .inl rfl
  | some row =>
    right
    obtain ⟨disk, segs, log, older', active', made, opts, housed', listing⟩ :=
      housed.newLog (logDir_ne_empty _ _) rfl
        (replicaOptions_lasting b.dataDir replica.partition.id) empty other
    refine ⟨disk, segs, log, older', active', ?_, opts, housed'.of_same rfl rfl rfl, listing⟩
    have text : toText (ascii "delete") = Commitlog.deleteCleanupPolicy := by decide
    simp only [new, isSome_none, Bool.false_eq_true, ↓reduceIte, policy row known, text]
    rw [bind_ok (show (⟨fun b => .ok b.dataDir b⟩ : Call Broker String).run b = _ from rfl),
      ← replicaOptions, bind_ok (attempt_ok made)]
    rfl

theorem becomeLeader_retains (p : PartitionState) (here : b.replicas[r]? = some replica)
    (idle : replica.replicator = none) : Retains r b ((becomeLeader r p).run b).state := by
  have inside := (List.getElem?_eq_some_iff.mp here).1
  rw [becomeLeader_state p here idle]
  exact ⟨rfl, rfl, rfl, rfl, by rw [List.getElem?_set_self inside, here]; rfl⟩

section

variable (housed : Housed b rs older active) (p : PartitionState)
  (here : b.replicas[r]? = some replica)
include housed p here

/-- A follower that starts from an empty log has nothing to truncate. -/
theorem becomeFollower_retains (idle : replica.replicator = none)
    (held : replica.log = some n) (there : b.logs[n]? = some log)
    (blank : rs n = []) : Retains r b ((becomeFollower r p).run b).state := by
  obtain ⟨brokerID, partition, isLocal, _, _⟩ := replica
  obtain rfl := held
  obtain rfl := idle
  obtain ⟨-, kept⟩ := housed.kept n log there
  have newest : (onLog n Commitlog.newestOffset).run b = .ok 0 b := by
    refine onLog_unchanged there ?_
    rw [kept.rep.newestOffset, kept.next, blank]
    rfl
  have cut := onLog_unchanged there kept.truncate_zero
  have stopped : (stopReplicator ⟨brokerID, partition, isLocal, some n, none⟩).run b = .ok () b := rfl
  have inside := (List.getElem?_eq_some_iff.mp here).1
  obtain ⟨dialled, replicator, replicators, ends, -⟩ := becomeFollower_end p here rfl
  unfold becomeFollower
  rw [bind_ok (getReplica_run here), bind_ok stopped]
  dsimp only
  rw [bind_ok newest, bind_ok (attempt_ok cut)]
  refine (congrArg (Retains r b) ends).mpr ⟨rfl, rfl, rfl, rfl, ?_⟩
  rw [getElem?_set_self inside, here]
  rfl

theorem takeRole_lodges (new : replica.log = none) (idle : replica.replicator = none)
    (policy : DefaultPolicy lower b.cluster.fsm replica.partition.topic)
    (empty : b.disk.listing (logDir b.dataDir replica.partition.id) = [])
    (other : ∀ (n : Nat) log, b.logs[n]? = some log →
      log.opts.path ≠ logDir b.dataDir replica.partition.id) :
    ∃ replica', ((takeRole lower b.cluster.id r p).run b).state.replicas[r]? = some replica' ∧
      ((takeRole lower b.cluster.id r p).run b).state.dataDir = b.dataDir ∧
      Lodged rs replica.partition.id b ((takeRole lower b.cluster.id r p).run b).state
        replica'.log := by
  have inside := (List.getElem?_eq_some_iff.mp here).1
  have stays : ∃ replica', b.replicas[r]? = some replica' ∧ b.dataDir = b.dataDir ∧
      Lodged rs replica.partition.id b b replica'.log :=
    ⟨replica, here, rfl, by rw [new]; exact .idle rfl rfl rfl⟩
  have assumes {become : Call Broker ErrorCode}
      (retains : ∀ disk segs log older' active',
        Housed (lodgedAt r replica disk segs log b) (update rs b.logs.length []) older'
          active' →
        Retains r (lodgedAt r replica disk segs log b)
          (become.run (lodgedAt r replica disk segs log b)).state) :
      ∃ replica', ((assume lower r become).run b).state.replicas[r]? = some replica' ∧
        ((assume lower r become).run b).state.dataDir = b.dataDir ∧
        Lodged rs replica.partition.id b ((assume lower r become).run b).state replica'.log := by
    unfold assume
    rcases startReplica_lodges housed here new policy empty other with
      unknown | ⟨disk, segs, log, older', active', started, opts, housed', listing⟩
    · rw [bind_ok unknown]
      exact stays
    · rw [bind_ok started]
      have kept := retains disk segs log older' active' housed'
      have same := kept.log.trans (congrArg (Option.map Replica.log) (getElem?_set_self inside))
      obtain ⟨replica', there, held⟩ := map_eq_some_iff.mp same
      refine ⟨replica', there, kept.dataDir, ?_⟩
      rw [held]
      exact .opened log older' active' kept.logs opts
        (housed'.of_same kept.disk kept.segs kept.logs)
        fun dir apart => by rw [kept.disk]; exact listing dir apart
  unfold takeRole
  split
  · refine assumes fun disk segs log older' active' housed' => ?_
    exact becomeLeader_retains p (getElem?_set_self inside) idle
  · split
    · refine assumes fun disk segs log older' active' housed' => ?_
      refine becomeFollower_retains housed' p (getElem?_set_self inside)
        (show Replica.replicator { replica with log := some b.logs.length } = none from idle) rfl
        getElem?_concat_length ?_
      exact update_self ..
    · exact stays

end

end

end Jocko.Broker
