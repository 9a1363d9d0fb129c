import Jocko.Broker.FailoverRun

namespace Jocko.Broker

open Go MemDB Fsm Protocol Cluster

/-- What a broker is asked to do, or learns from raft. -/
inductive Event where
  | join (clientID uuid : Str) (r : JoinGroupRequest)
  | leave (r : LeaveGroupRequest)
  | sync (r : SyncGroupRequest)
  | failed (m : SerfMember)
  | commit (idx : UInt64) (command : Command)

section

variable (lower : Str → Str)

/-- A command that another broker has written to raft. -/
def applyCommitted (idx : UInt64) (command : Command) : Call Cluster Unit := ⟨fun c =>
  .ok () { c with
    fsm := (c.fsm.apply lower idx command).1
    committed := c.committed ++ [(idx, command)] }⟩

def handle : Event → Call Cluster Unit
  | .join clientID uuid r => do
    let _ ← handleJoinGroup lower clientID uuid r
  | .leave r => do
    let _ ← handleLeaveGroup lower r
  | .sync r => do
    let _ ← handleSyncGroup lower r
  | .failed m => handleFailedMember lower m
  | .commit idx command => applyCommitted lower idx command

/-- An error of a handler is logged, a panic ends the broker. -/
def serve : List Event → Call Cluster Unit
  | [] => return ()
  | e :: events => do
    let _ ← attempt (handle lower e)
    serve events

/-- The next write to raft is committed. -/
def Commits (c : Cluster) : Prop := ∃ idx, c.raft c.applied = .ok idx

/-- No row of the store is left edited: the write to raft that follows the edit is committed, or
there is nothing to edit. -/
def Safe (c : Cluster) : Event → Prop
  | .join _ _ r => Commits c ∨ ∀ row, (c.fsm.getGroup lower r.groupID).2 = some row →
      r.memberID ≠ [] ∧ row.val.leaderID ≠ []
  | .leave r => Commits c ∨ ∀ row, (c.fsm.getGroup lower r.groupID).2 = some row →
      row.val.members.get? r.memberID = none
  | .sync _ => True
  | .failed m => ∀ broker, isBroker m = some broker →
      (c.fsm.getGroupsByCoordinator lower broker.id).2 = [] ∨ ¬ Commits c
  | .commit _ _ => True

/-- Every event finds the broker in a state where it is safe. -/
def SafeRun : List Event → Cluster → Prop
  | [], _ => True
  | e :: events, c => Safe lower c e ∧
      ∀ outcome c', (attempt (handle lower e)).run c = .ok outcome c' → SafeRun events c'

/-- The store has changed by the commands that raft committed meanwhile, and by nothing else. -/
def Follows (c c' : Cluster) : Prop :=
  ∃ entries, c'.committed = c.committed ++ entries ∧ c'.fsm = c.fsm.applyAll lower entries

end

variable {lower : Str → Str} {c c' : Cluster} {key : Bytes}

theorem Follows.of_eq (committed : c'.committed = c.committed) (fsm : c'.fsm = c.fsm) :
    Follows lower c c' :=
  ⟨[], by simp [committed], by rw [fsm]; rfl⟩

instance : IsPreorder Cluster (Follows lower) where
  refl _ := Follows.of_eq rfl rfl
  trans a b c := by
    rintro ⟨first, committed, fsm⟩ ⟨second, committed', fsm'⟩
    refine ⟨first ++ second, by rw [committed', committed, List.append_assoc], ?_⟩
    rw [fsm', fsm, Store.applyAll, Store.applyAll, Store.applyAll, List.foldl_append]

theorem raftApply_follows (command : Command) :
    (raftApply lower command).Moves (Follows lower) := by
  intro c
  cases next : c.raft c.applied with
  | ok idx =>
    rw [raftApply_ok next]
    exact ⟨[(idx, command)], rfl, rfl⟩
  | error cause =>
    rw [raftApply_error next]
    exact Follows.of_eq rfl rfl

theorem intn_follows (n : Nat) : (intn n).Moves (Follows lower) := by
  intro c
  unfold intn
  dsimp only
  split <;> exact Follows.of_eq rfl rfl

theorem tellBrokers_follows (req : LeaderAndISRRequest) (nodes : List Fsm.Node) :
    (tellBrokers req nodes).Moves (Follows lower) := by
  intro c
  obtain ⟨dialled, told, same, -⟩ := tellBrokers_tells req nodes c
  rw [same]
  exact Follows.of_eq rfl rfl

theorem applyCommitted_follows (idx : UInt64) (command : Command) :
    (applyCommitted lower idx command).Moves (Follows lower) :=
  fun _ => ⟨[(idx, command)], rfl, rfl⟩

theorem syncAssignments_follows (r : SyncGroupRequest) (res : SyncGroupResponse) (group : GroupRef) :
    (syncAssignments lower r res group).Moves (Follows lower) := by
  unfold syncAssignments
  split
  · split
    · exact .stop _
    · refine .bind (raftApply_follows _).attempt fun outcome => ?_
      cases outcome <;> exact .pure _
  · split
    · exact .pure _
    · exact .stop _

theorem getGroup_follows (id : Str) : (getGroup lower id).Moves (Follows lower) :=
  Call.Moves.of_unchanged fun _ => rfl

theorem handleSyncGroup_follows (r : SyncGroupRequest) :
    (handleSyncGroup lower r).Moves (Follows lower) := by
  refine .bind (getGroup_follows _) fun found => ?_
  cases found with
  | none => exact .pure _
  | some group =>
    dsimp only
    split
    · exact .pure _
    · split
      · exact .pure _
      · split
        · exact .pure _
        · exact .pure _
        · exact .pure _
        all_goals exact syncAssignments_follows r _ group

/-- A write that changes neither a key of the group nor when it was created. -/
structure Keeps (f : Fsm.Group → Fsm.Group) : Prop where
  group : ∀ g, (f g).group = g.group
  coordinator : ∀ g, (f g).coordinator = g.coordinator
  createIndex : ∀ g, (f g).createIndex = g.createIndex

/-- Only rows of the group table differ, and registering the group `key` hides that. -/
structure Hidden (lower : Str → Str) (key : Bytes) (c c' : Cluster) : Prop where
  rest : c' = { c with fsm := c'.fsm }
  clean : c'.fsm.Clean lower
  hides : ∀ idx group, (groupTableSchema lower).id group = some key →
    c'.fsm.apply lower idx (.registerGroup group) = c.fsm.apply lower idx (.registerGroup group)

/-- The group is the row `key` of the store, if it is a row at all. -/
def Held (lower : Str → Str) (key : Bytes) (group : GroupRef) (c : Cluster) : Prop :=
  ∀ addr, group.addr = some addr → (groupKind lower).first c.fsm key = some ⟨addr, group.val⟩

theorem Hidden.refl (clean : c.fsm.Clean lower) : Hidden lower key c c :=
  ⟨rfl, clean, fun _ _ _ => rfl⟩

variable {c'' : Cluster}

theorem Hidden.trans (first : Hidden lower key c c')
    (second : Hidden lower key c' c'') : Hidden lower key c c'' where
  rest := by
    have step := second.rest
    rw [first.rest] at step
    exact step
  clean := second.clean
  hides idx group named := (second.hides idx group named).trans (first.hides idx group named)

variable {f : Fsm.Group → Fsm.Group}

theorem Keeps.id (keeps : Keeps f) (g : Fsm.Group) :
    (groupTableSchema lower).id (f g) = (groupTableSchema lower).id g := by
  simp only [groupTableSchema, keeps.group]

theorem Keeps.keys (keeps : Keeps f) (i : GroupIndex) (g : Fsm.Group) :
    ((groupTableSchema lower).index i).keys (f g) = ((groupTableSchema lower).index i).keys g := by
  cases i
  simp only [groupTableSchema, keeps.coordinator]

/-- A write to a row is hidden by the next registration of the group. -/
theorem editGroup_hidden (keeps : Keeps f) (clean : c.fsm.Clean lower)
    {row : Obj Fsm.Group} (stored : (groupKind lower).first c.fsm key = some row) :
    Hidden lower key c (c.editGroup row.addr f) ∧
      (groupKind lower).first (c.editGroup row.addr f).fsm key = some ⟨row.addr, f row.val⟩ := by
  have edited : (groupKind lower).first (c.editGroup row.addr f).fsm key =
      some ⟨row.addr, f row.val⟩ := by
    change Radix.get? (Radix.map (Obj.edit row.addr f) c.fsm.groups.rows.id) key = _
    have here : Radix.get? c.fsm.groups.rows.id key = some row := stored
    rw [Radix.get?_map, here, Option.map_some, Obj.edit, if_pos rfl]
  refine ⟨⟨rfl, ?_, fun idx group named => ?_⟩, edited⟩
  · exact ⟨clean.index, clean.nodes, clean.topics, clean.partitions,
      clean.groups.edit row.addr keeps.id keeps.keys⟩
  · obtain ⟨lookup, -⟩ := (groupKind lower).complete group key named
    have stamped := ((groupKind lower).id_stamp group
      ((groupKind lower).created idx ((groupKind lower).row? c.fsm key)) idx).trans named
    have create : (groupKind lower).created idx
        ((groupKind lower).row? (c.editGroup row.addr f).fsm key) =
        (groupKind lower).created idx ((groupKind lower).row? c.fsm key) := by
      rw [Kind.row?, Kind.row?, edited, stored]
      exact keeps.createIndex row.val
    have inserted := clean.groups.insert_edit stored keeps.id keeps.keys stamped
    have committed : (groupKind lower).ensureTxn lower idx group (c.editGroup row.addr f).fsm =
        (groupKind lower).ensureTxn lower idx group c.fsm := by
      simp only [Kind.ensureTxn, lookup, create]
      change (((c.fsm.groups.edit row.addr f).insert (groupTableSchema lower) _).mapError _ >>= _) =
        ((c.fsm.groups.insert (groupTableSchema lower) _).mapError _ >>= _)
      rw [inserted]
      rfl
    obtain ⟨s, done, -⟩ := clean.groupSound.ensureTxn idx named
    simp only [Store.apply, Store.commit, Store.ensureGroup, committed, done]

theorem GroupRef.edit_run (group : GroupRef) (f : Fsm.Group → Fsm.Group) (c : Cluster) :
    ∃ group' c', (group.edit f).run c = .ok group' c' := by
  unfold GroupRef.edit
  dsimp only
  split
  · exact ⟨_, _, rfl⟩
  · exact ⟨_, _, rfl⟩

variable {group group' : GroupRef}

theorem edit_hidden (keeps : Keeps f) (clean : c.fsm.Clean lower)
    (held : Held lower key group c) (edited : (group.edit f).run c = .ok group' c') :
    Hidden lower key c c' ∧ Held lower key group' c' ∧ (group.addr = none → c' = c) ∧
      group'.addr = group.addr := by
  cases here : group.addr with
  | none =>
    simp only [GroupRef.edit, here] at edited
    cases edited
    exact ⟨Hidden.refl clean, nofun, fun _ => rfl, rfl⟩
  | some addr =>
    simp only [GroupRef.edit, here] at edited
    cases edited
    obtain ⟨hidden, stored⟩ := editGroup_hidden keeps clean (held addr here)
    refine ⟨hidden, fun addr' is => ?_, nofun, rfl⟩
    obtain rfl := Option.some.inj is
    exact stored

/-- What has been done to a group before it is registered. -/
structure Prepared (lower : Str → Str) (key : Bytes) (group : GroupRef) (c c' : Cluster) : Prop where
  hidden : Hidden lower key c c'
  held : Held lower key group c'
  unstored : group.addr = none → c' = c

theorem Prepared.edit
    (ready : Prepared lower key group c c') (edited : (group.edit f).run c' = .ok group' c'')
    (keeps : Keeps f) : Prepared lower key group' c c'' ∧ group'.addr = group.addr := by
  obtain ⟨hidden, held, unstored, same⟩ := edit_hidden keeps ready.hidden.clean ready.held edited
  refine ⟨⟨ready.hidden.trans hidden, held, fun fresh => ?_⟩, same⟩
  rw [same] at fresh
  rw [unstored fresh, ready.unstored fresh]

/-- The registration of a group, which has not been edited in place unless raft commits it. -/
theorem Prepared.register (ready : Prepared lower key group c c') (safe : Commits c ∨ c' = c) :
    Follows lower c ((raftApply lower (.registerGroup group.val)).run c').state := by
  rcases safe with ⟨idx, next⟩ | rfl
  case inr => exact raftApply_follows _ _
  have next' : c'.raft c'.applied = .ok idx := by
    rw [ready.hidden.rest]
    exact next
  rw [raftApply_ok next']
  refine ⟨[(idx, .registerGroup group.val)], ?_, ?_⟩
  · rw [ready.hidden.rest]
    rfl
  · change (c'.fsm.apply lower idx (.registerGroup group.val)).1 =
      (c.fsm.apply lower idx (.registerGroup group.val)).1
    cases here : group.addr with
    | none => rw [ready.unstored here]
    | some addr =>
      have named := ready.hidden.clean.groups.exact.id key _ (ready.held addr here)
      rw [ready.hidden.hides idx group.val named]

theorem getGroup_run (id : Str) : (getGroup lower id).run c =
    .ok ((c.fsm.getGroup lower id).2.map fun row => ⟨some row.addr, row.val⟩) c := rfl

theorem prepared_of_found (clean : c.fsm.Clean lower) {id : Str} {row : Obj Fsm.Group}
    (found : (c.fsm.getGroup lower id).2 = some row) :
    Prepared lower (lowerKey lower id) ⟨some row.addr, row.val⟩ c c where
  hidden := Hidden.refl clean
  held addr is := by
    obtain rfl := Option.some.inj is
    exact found
  unstored is := by cases is

theorem prepared_of_new (clean : c.fsm.Clean lower) (id : Str) (coordinator : Int32) :
    Prepared lower key (newGroup id coordinator) c c :=
  ⟨Hidden.refl clean, nofun, fun _ => rfl⟩

variable {clientID memberID uuid : Str}

theorem joinMember_prepared {memberID' : Str} (ready : Prepared lower key group c c')
    (joined : (joinMember clientID uuid memberID group).run c' = .ok (memberID', group') c'') :
    Prepared lower key group' c c'' ∧ group'.addr = group.addr ∧
      (memberID ≠ [] → group' = group ∧ c'' = c') := by
  unfold joinMember at joined
  split at joined
  · rename_i blank
    dsimp only at joined
    split at joined
    · cases joined
    · obtain ⟨edited, c₁, written, returned⟩ := bind_eq_ok joined
      cases returned
      obtain ⟨ready', same⟩ := ready.edit written ⟨fun _ => rfl, fun _ => rfl, fun _ => rfl⟩
      exact ⟨ready', same, fun filled => absurd blank filled⟩
  · cases joined
    exact ⟨ready, rfl, fun _ => ⟨rfl, rfl⟩⟩

theorem joinMember_stopped {why : Stop}
    (stopped : (joinMember clientID uuid memberID group).run c = .error why c') : c' = c := by
  unfold joinMember at stopped
  split at stopped
  · dsimp only at stopped
    split at stopped
    · cases stopped
      rfl
    · obtain ⟨edited, c₁, written⟩ := group.edit_run _ c
      rw [bind_ok written] at stopped
      cases stopped
  · cases stopped

theorem joinLeader_prepared (ready : Prepared lower key group c c')
    (led : (joinLeader memberID group).run c' = .ok group' c'') :
    Prepared lower key group' c c'' ∧ group'.addr = group.addr ∧
      (group.val.leaderID ≠ [] → c'' = c') := by
  unfold joinLeader at led
  split at led
  · rename_i blank
    obtain ⟨ready', same⟩ := ready.edit led ⟨fun _ => rfl, fun _ => rfl, fun _ => rfl⟩
    exact ⟨ready', same, fun filled => absurd blank filled⟩
  · cases led
    exact ⟨ready, rfl, fun _ => rfl⟩

theorem joinLeader_run (memberID : Str) (group : GroupRef) (c : Cluster) :
    ∃ group' c', (joinLeader memberID group).run c = .ok group' c' := by
  unfold joinLeader
  split
  · exact group.edit_run _ c
  · exact ⟨_, _, rfl⟩

theorem registerJoined_state (r : JoinGroupRequest) (memberID : Str) (group : GroupRef)
    (c : Cluster) : ((registerJoined lower r memberID group).run c).state =
      ((raftApply lower (.registerGroup group.val)).run c).state := by
  unfold registerJoined
  rw [bind_state, attempt_state]
  intro outcome c
  cases outcome <;> rfl

theorem joinGroup_follows {r : JoinGroupRequest} (ready : Prepared lower key group c c)
    (safe : Commits c ∨ (group.addr ≠ none → r.memberID ≠ [] ∧ group.val.leaderID ≠ [])) :
    Follows lower c ((joinGroup lower clientID uuid r group).run c).state := by
  unfold joinGroup
  cases joined : (joinMember clientID uuid r.memberID group).run c with
  | error why c₁ =>
    rw [bind_error joined, joinMember_stopped joined]
    exact Follows.of_eq rfl rfl
  | ok member c₁ =>
    obtain ⟨memberID, group₁⟩ := member
    obtain ⟨group₂, c₂, led⟩ := joinLeader_run memberID group₁ c₁
    rw [bind_ok joined]
    dsimp only
    rw [bind_ok led, registerJoined_state]
    obtain ⟨ready₁, addr₁, same₁⟩ := joinMember_prepared ready joined
    obtain ⟨ready₂, addr₂, same₂⟩ := joinLeader_prepared ready₁ led
    apply ready₂.register
    rcases safe with commits | unedited
    · exact .inl commits
    · right
      by_cases fresh : group.addr = none
      · exact ready₂.unstored (by rw [addr₂, addr₁, fresh])
      · obtain ⟨named, headed⟩ := unedited fresh
        obtain ⟨rfl, rfl⟩ := same₁ named
        exact same₂ headed

theorem handleJoinGroup_follows {r : JoinGroupRequest}
    (clean : c.fsm.Clean lower) (safe : Safe lower c (.join clientID uuid r)) :
    Follows lower c ((handleJoinGroup lower clientID uuid r).run c).state := by
  unfold handleJoinGroup
  rw [bind_ok (getGroup_run r.groupID), bind_ok (show configID.run c = .ok c.id c from rfl)]
  cases found : (c.fsm.getGroup lower r.groupID).2 with
  | none =>
    apply joinGroup_follows (@prepared_of_new lower c [] clean r.groupID c.id)
    exact .inr fun stored => absurd rfl stored
  | some row =>
    apply joinGroup_follows (prepared_of_found clean found)
    exact safe.imp id fun unedited _ => unedited row found

theorem handleLeaveGroup_follows {r : LeaveGroupRequest} (clean : c.fsm.Clean lower)
    (safe : Safe lower c (.leave r)) :
    Follows lower c ((handleLeaveGroup lower r).run c).state := by
  unfold handleLeaveGroup
  rw [bind_ok (getGroup_run r.groupID)]
  cases found : (c.fsm.getGroup lower r.groupID).2 with
  | none => exact Follows.of_eq rfl rfl
  | some row =>
    dsimp only [Option.map_some]
    split
    · exact Follows.of_eq rfl rfl
    · rename_i member
      obtain ⟨group, c₁, edited⟩ := GroupRef.edit_run ⟨some row.addr, row.val⟩
        (fun g => { g with members := g.members.delete r.memberID }) c
      obtain ⟨ready, -⟩ := (prepared_of_found clean found).edit edited
        ⟨fun _ => rfl, fun _ => rfl, fun _ => rfl⟩
      rw [bind_ok edited, bind_state, attempt_state]
      · apply ready.register
        exact safe.imp id fun absent => absurd (absent row found) member
      · intro outcome c
        cases outcome <;> rfl

theorem reassign_follows {failed : Int32}
    (none : (c.fsm.getGroupsByCoordinator lower failed).2 = []) :
    Follows lower c ((reassign lower failed).run c).state := by
  unfold reassign
  rw [bind_ok (show state.run c = .ok c.fsm c from rfl)]
  dsimp only
  rw [none]
  refine Call.Moves.bind (.lift _) (fun passing => ?_) c
  refine .bind (.pure _) fun _ => ?_
  refine .bind (reassignPartitions_moves intn_follows (fun _ => raftApply_follows _) _ _ _)
    fun states => ?_
  refine .bind (.of_unchanged fun _ => rfl) fun id => ?_
  exact tellBrokers_follows _ _

theorem handleFailedMember_follows {m : SerfMember} (clean : c.fsm.Clean lower)
    (safe : Safe lower c (.failed m)) :
    Follows lower c ((handleFailedMember lower m).run c).state := by
  unfold handleFailedMember
  cases named : isBroker m with
  | none => exact Follows.of_eq rfl rfl
  | some broker =>
    dsimp only
    cases next : c.raft c.applied with
    | error cause =>
      rw [bind_error (raftApply_error next)]
      exact Follows.of_eq rfl rfl
    | ok idx =>
      have uncoordinated := (safe broker named).resolve_right fun refused => refused ⟨idx, next⟩
      have first := @raftApply_follows lower (.registerNode (criticalNode m broker)) c
      rw [raftApply_ok next] at first
      rw [bind_ok (raftApply_ok next)]
      refine trans_of (Follows lower) first (reassign_follows ?_)
      -- Registering a node leaves the groups as they are.
      obtain ⟨same, -⟩ := clean.apart_of_wrote (groupKind lower) (·.apart.2.2.2) idx
        (.registerNode (criticalNode m broker)) (by simp [Command.table, groupKind])
      have groups : (c.fsm.apply lower idx (.registerNode (criticalNode m broker))).1.groups =
        c.fsm.groups := same
      dsimp only [Store.getGroupsByCoordinator, Result.state]
      rw [groups]
      exact uncoordinated

theorem Follows.clean (follows : Follows lower c c') (clean : c.fsm.Clean lower) :
    c'.fsm.Clean lower := by
  obtain ⟨entries, -, fsm⟩ := follows
  rw [fsm]
  exact clean.applyAll entries

/-- A safe event changes the store only by what raft commits. -/
theorem handle_follows {e : Event} (clean : c.fsm.Clean lower) (safe : Safe lower c e) :
    Follows lower c ((handle lower e).run c).state := by
  cases e with
  | join clientID uuid r =>
    rw [handle, bind_state fun _ _ => rfl]
    exact handleJoinGroup_follows clean safe
  | leave r =>
    rw [handle, bind_state fun _ _ => rfl]
    exact handleLeaveGroup_follows clean safe
  | sync r =>
    rw [handle, bind_state fun _ _ => rfl]
    exact handleSyncGroup_follows r c
  | failed m => exact handleFailedMember_follows clean safe
  | commit idx command => exact applyCommitted_follows idx command c

/-- In a safe run the store is what the commands make of it that raft committed, after every
event. -/
theorem serve_follows (events : List Event) (clean : c.fsm.Clean lower)
    (safe : SafeRun lower events c) : Follows lower c ((serve lower events).run c).state := by
  induction events generalizing c with
  | nil => exact Follows.of_eq rfl rfl
  | cons e events ih =>
    obtain ⟨here, later⟩ := safe
    have first := handle_follows clean here
    rw [← attempt_state] at first
    unfold serve
    cases ends : (attempt (handle lower e)).run c with
    | ok outcome c₁ =>
      rw [ends] at first
      rw [bind_ok ends]
      exact trans_of (Follows lower) first (ih (first.clean clean) (later outcome c₁ ends))
    | error why c₁ =>
      rw [ends] at first
      rw [bind_error ends]
      exact first

/-- In a safe run the store follows raft after every event, so that two brokers with the same
commands hold the same store whatever they were asked. -/
theorem serve_follows_raft (lower : Str → Str) (c d : Cluster) (events events' : List Event)
    (clean : c.fsm.Clean lower) (start : d.fsm = c.fsm) (safe : SafeRun lower events c)
    (safe' : SafeRun lower events' d) :
    Follows lower c ((serve lower events).run c).state ∧
    ∀ entries, ((serve lower events).run c).state.committed = c.committed ++ entries →
      ((serve lower events').run d).state.committed = d.committed ++ entries →
      ((serve lower events').run d).state.fsm = ((serve lower events).run c).state.fsm := by
  have follows := serve_follows events clean safe
  have follows' := serve_follows events' (start ▸ clean) safe'
  refine ⟨follows, fun entries here there => ?_⟩
  obtain ⟨made, committed, fsm⟩ := follows
  obtain ⟨made', committed', fsm'⟩ := follows'
  obtain rfl := List.append_cancel_left (committed.symm.trans here)
  obtain rfl := List.append_cancel_left (committed'.symm.trans there)
  rw [fsm, fsm', start]

/-- A member with an id of its own joins a group. -/
def joining : Event := .join [] [] ⟨0, ascii "g", 0, 0, ascii "m", [], []⟩

/-- The group that is registered if there was none. -/
def joined : Command :=
  .registerGroup ⟨[], ascii "g", 1, ascii "m", GoMap.make, .preparingRebalance, 0, 0, 0⟩

/-- One broker handles a client that joins, the other learns of it through raft. -/
theorem serve_follows_raft_joining :
    ((serve id [.commit 1 joined]).run
        (lone Store.new fun _ => .error .closed)).state.fsm =
      ((serve id [joining]).run (lone Store.new fun _ => .ok 1)).state.fsm :=
  (serve_follows_raft id (lone Store.new fun _ => .ok 1)
    (lone Store.new fun _ => .error .closed) [joining] [.commit 1 joined] Store.Clean.new rfl
    ⟨.inl ⟨1, rfl⟩, fun _ _ _ => trivial⟩ ⟨trivial, fun _ _ _ => trivial⟩).2
    [(1, joined)] (by decide +kernel) (by decide +kernel)

/-- A group with one member, as raft has committed it. -/
def storedGroup : Store := Store.new.applyAll id
  [(1, .registerGroup ⟨[], ascii "g", 1, ascii "m", some [(ascii "m", ⟨ascii "m", none, none⟩)],
    .preparingRebalance, 0, 0, 0⟩)]

/-- Raft refuses the write, and the member that wanted to join is in the store nevertheless. -/
theorem join_without_commit :
    let c := lone storedGroup fun _ => .error (.new "node is not the leader")
    let c' := ((handle id
      (.join (ascii "c") (ascii "u") ⟨0, ascii "g", 0, 0, [], [], []⟩)).run c).state
    c'.committed = c.committed ∧
    (c.fsm.getGroup id (ascii "g")).2.map
      (fun row => row.val.members.entries.map Prod.fst) = some [ascii "m"] ∧
    (c'.fsm.getGroup id (ascii "g")).2.map
      (fun row => row.val.members.entries.map Prod.fst) = some [ascii "c-u", ascii "m"] := by
  decide +kernel

end Jocko.Broker
