import Jocko.Broker.RaftOnly

namespace Jocko.Broker

open Go MemDB Fsm Protocol Cluster List Option

/-- The requests of the members of groups. A join has the id of its client and what
`uuid.NewV1` returns for it. -/
inductive GroupRequest where
  | join (clientID uuid : Str) (r : JoinGroupRequest)
  | leave (r : LeaveGroupRequest)
  | sync (r : SyncGroupRequest)

/-- A broker, and the group and member ids that it has handed out to members which have not
left since. -/
structure Sessions where
  cluster : Cluster
  handed : List (Str × Str)

/-- The stored group with a key. -/
def Cluster.groupAt (lower : Str → Str) (c : Cluster) (key : Bytes) : Option Fsm.Group :=
  (groupKind lower).row? c.fsm key

section

variable (lower : Str → Str)

/-- One request is handled. -/
def Sessions.step (s : Sessions) : GroupRequest → Sessions
  | .join clientID uuid r =>
    match (handleJoinGroup lower clientID uuid r).run s.cluster with
    | .ok res c =>
      ⟨c, if res.errorCode = 0 then (r.groupID, res.memberID) :: s.handed else s.handed⟩
    | .error _ c => { s with cluster := c }
  | .leave r =>
    match (handleLeaveGroup lower r).run s.cluster with
    | .ok res c =>
      ⟨c, if res.errorCode = 0 then
          s.handed.filter fun h =>
            ¬ (lowerKey lower h.1 = lowerKey lower r.groupID ∧ h.2 = r.memberID)
        else s.handed⟩
    | .error _ c => { s with cluster := c }
  | .sync r => { s with cluster := ((handleSyncGroup lower r).run s.cluster).state }

def Sessions.run (s : Sessions) (requests : List GroupRequest) : Sessions :=
  requests.foldl (Sessions.step lower) s

/-- The leader of a group with members is one of them, and one without has none. -/
def Headed (g : Fsm.Group) : Prop :=
  (g.members.entries ≠ [] → ∃ e ∈ g.members.entries, e.2.id = g.leaderID) ∧
    (g.members.entries = [] → g.leaderID = [])

/-- Every group has a leader of its own, and every id that was handed out is stored. -/
structure Sessions.Led (s : Sessions) : Prop where
  headed : ∀ key g, s.cluster.groupAt lower key = some g → Headed g
  stored : ∀ h ∈ s.handed, ∃ g, s.cluster.groupAt lower (lowerKey lower h.1) = some g ∧
    g.members.get? h.2 ≠ none

/-- A client joins a group under a name, as a new member or as one that the group has; and
the leader does not leave. -/
def GroupRequest.Suits (s : Sessions) : GroupRequest → Prop
  | .join _ _ r =>
    if r.memberID = [] then
      s.cluster.groupAt lower (lowerKey lower r.groupID) ≠ none ∨ r.groupID ≠ []
    else
      ∃ g, s.cluster.groupAt lower (lowerKey lower r.groupID) = some g ∧
        g.members.get? r.memberID ≠ none
  | .leave r => ∀ g, s.cluster.groupAt lower (lowerKey lower r.groupID) = some g →
      g.members.get? r.memberID ≠ none → r.memberID ≠ g.leaderID
  | .sync _ => True

/-- Every request of a sequence meets a state with a property, and leaves one. -/
def Sessions.Throughout (P : Sessions → GroupRequest → Sessions → Prop) :
    List GroupRequest → Sessions → Prop
  | [], _ => True
  | q :: qs, s => P s q (s.step lower q) ∧ Throughout P qs (s.step lower q)

end

/-- The id under which a client joins. -/
def memberName (clientID uuid memberID : Str) : Str :=
  if memberID = [] then clientID ++ ascii "-" ++ uuid else memberID

/-- The group with the new member, if the request names none. -/
def withMember (memberID id : Str) (g : Fsm.Group) : Fsm.Group :=
  if memberID = [] then
    { g with members := some ((id, ⟨id, none, none⟩) :: g.members.entries.filter fun e => e.1 ≠ id) }
  else g

/-- The group with a leader. -/
def withLeader (id : Str) (g : Fsm.Group) : Fsm.Group :=
  if g.leaderID = [] then { g with leaderID := id } else g

/-- What is true of the groups that the handlers make, whoever joins or leaves. -/
structure Made (g : Fsm.Group) : Prop where
  members : g.members ≠ none
  preparing : g.state = .preparingRebalance
  own : ∀ e ∈ g.members.entries, e.2.id = e.1 ∧ e.1 ≠ []

variable {g : Fsm.Group}

theorem Made.headed_iff (made : Made g) :
    Headed g ↔ g.members.get? g.leaderID ≠ none ∨ (g.members.entries = [] ∧ g.leaderID = []) := by
  rw [GoMap.get?_ne_none]
  constructor
  · rintro ⟨some, none⟩
    by_cases empty : g.members.entries = []
    · exact .inr ⟨empty, none empty⟩
    · obtain ⟨e, inside, here⟩ := some empty
      exact .inl ⟨e, inside, (made.own e inside).1 ▸ here⟩
  · rintro (⟨e, inside, here⟩ | ⟨empty, blank⟩)
    · refine ⟨fun _ => ⟨e, inside, (made.own e inside).1.trans here⟩, fun empty => ?_⟩
      rw [empty] at inside
      cases inside
    · exact ⟨fun filled => absurd empty filled, fun _ => blank⟩

variable {id : Str}

theorem Made.named (made : Made g) (present : g.members.get? id ≠ none) : id ≠ [] := by
  obtain ⟨e, inside, rfl⟩ := GoMap.get?_ne_none.mp present
  exact (made.own e inside).2

theorem newGroup_made (id : Str) (coordinator : Int32) : Made (newGroup id coordinator).val :=
  ⟨nofun, rfl, nofun⟩

theorem memberName_ne_nil (clientID uuid memberID : Str) : memberName clientID uuid memberID ≠ [] := by
  unfold memberName
  split
  · simp [ascii]
  · assumption

section

variable {memberID id : Str} {g : Fsm.Group}

theorem get?_withMember {k : Str} : (withMember memberID id g).members.get? k ≠ none ↔
    (memberID = [] ∧ k = id) ∨ g.members.get? k ≠ none := by
  rw [GoMap.get?_ne_none, GoMap.get?_ne_none, withMember]
  split
  · rename_i blank
    simp only [GoMap.entries, getD_some, mem_cons, mem_filter, decide_eq_true_eq]
    constructor
    · rintro ⟨e, rfl | ⟨inside, -⟩, here⟩
      · exact .inl ⟨blank, here.symm⟩
      · exact .inr ⟨e, inside, here⟩
    · rintro (⟨-, rfl⟩ | ⟨e, inside, here⟩)
      · exact ⟨_, .inl rfl, rfl⟩
      · by_cases same : e.1 = id
        · exact ⟨_, .inl rfl, same.symm.trans here⟩
        · exact ⟨e, .inr ⟨inside, same⟩, here⟩
  · rename_i filled
    simp only [filled, false_and, false_or]

theorem Made.withMember (made : Made g) (filled : id ≠ []) : Made (withMember memberID id g) := by
  unfold Broker.withMember
  split
  · refine ⟨nofun, made.preparing, fun e inside => ?_⟩
    rcases mem_cons.mp inside with rfl | inside
    · exact ⟨rfl, filled⟩
    · exact made.own e (mem_of_mem_filter inside)
  · exact made

theorem Made.withLeader (made : Made g) : Made (withLeader id g) := by
  unfold Broker.withLeader
  split
  · exact ⟨made.members, made.preparing, made.own⟩
  · exact made

theorem members_withLeader : (withLeader id g).members = g.members := by
  unfold withLeader
  split <;> rfl

/-- A group stays headed if the one who joins is a member then. -/
theorem headed_joined (made : Made g) (filled : id ≠ []) (headed : Headed g)
    (member : (withMember memberID id g).members.get? id ≠ none) :
    Headed (withLeader id (withMember memberID id g)) := by
  have leader : (withMember memberID id g).leaderID = g.leaderID := by
    unfold withMember
    split <;> rfl
  rw [((made.withMember filled).withLeader).headed_iff, members_withLeader]
  left
  unfold withLeader
  split
  · exact member
  · rename_i led
    rw [leader] at led ⊢
    rcases made.headed_iff.mp headed with present | ⟨-, blank⟩
    · exact get?_withMember.mpr (.inr present)
    · exact absurd blank led

end

variable {lower : Str → Str} {c c' : Cluster} {key : Bytes}

/-- Raft has committed the registration of a group, and nothing else. -/
structure Committed (lower : Str → Str) (key : Bytes) (g : Fsm.Group) (c c' : Cluster) : Prop where
  clean : c'.fsm.Clean lower
  reliable : Reliable c'
  groups : ∃ create modify, ∀ j, c'.groupAt lower j =
    if j = key then some { g with createIndex := create, modifyIndex := modify }
    else c.groupAt lower j

variable {group : GroupRef}

theorem Prepared.registered (ready : Prepared lower key group c c')
    (clean : c.fsm.Clean lower) (reliable : Reliable c)
    (named : (groupTableSchema lower).id group.val = some key) :
    ∃ answer c'', (raftApply lower (.registerGroup group.val)).run c' = .ok answer c'' ∧
      Committed lower key group.val c c'' := by
  have reliable' : Reliable c' := by
    rw [ready.hidden.rest]
    exact reliable
  obtain ⟨idx, applied⟩ := raftApply_reliable lower reliable' (.registerGroup group.val)
  rw [ready.hidden.hides idx group.val named] at applied
  obtain ⟨s, done, wrote⟩ := clean.groupSound.ensureTxn idx named
  refine ⟨_, _, applied, clean.apply idx _, reliable',
    (groupKind lower).created idx (c.groupAt lower key), idx, fun j => ?_⟩
  unfold Cluster.groupAt
  rw [Store.apply_ok (.registerGroup group.val) done]
  exact wrote.row? j

theorem registerGroup_unnamed (clean : c.fsm.Clean lower) (reliable : Reliable c)
    (unnamed : g.group = []) :
    ∃ answer c', (raftApply lower (.registerGroup g)).run c = .ok answer c' ∧
      c'.fsm.Clean lower ∧ Reliable c' ∧ c'.groupAt lower = c.groupAt lower := by
  obtain ⟨idx, applied⟩ := raftApply_reliable lower reliable (.registerGroup g)
  have missing : (groupKind lower).schema.id g = none := by
    simp [groupKind, groupTableSchema, stringField, unnamed]
  obtain ⟨cause, failed⟩ := Kind.ensureTxn_of_none lower c.fsm idx missing
  refine ⟨_, _, applied, clean.apply idx _, reliable, ?_⟩
  rw [Store.apply_error (.registerGroup g) failed]
  rfl

theorem GroupRef.edit_val {group' : GroupRef} {f : Fsm.Group → Fsm.Group}
    (edited : (group.edit f).run c = .ok group' c') : group'.val = f group.val := by
  unfold GroupRef.edit at edited
  dsimp only at edited
  split at edited <;> cases edited <;> rfl

theorem joinMember_run (clientID uuid memberID : Str)
    (made : group.val.members ≠ none) (c : Cluster) :
    ∃ group' c', (joinMember clientID uuid memberID group).run c =
        .ok (memberName clientID uuid memberID, group') c' ∧
      group'.val = withMember memberID (memberName clientID uuid memberID) group.val := by
  obtain ⟨entries, here⟩ := ne_none_iff_exists'.mp made
  unfold joinMember memberName withMember
  split
  · dsimp only
    rw [here]
    obtain ⟨group', c', edited⟩ := group.edit_run (fun g => { g with
      members := some ((clientID ++ ascii "-" ++ uuid, ⟨clientID ++ ascii "-" ++ uuid, none, none⟩) ::
        entries.filter fun e => e.1 ≠ clientID ++ ascii "-" ++ uuid) }) c
    exact ⟨group', c', bind_ok edited, GroupRef.edit_val edited⟩
  · exact ⟨group, c, rfl, rfl⟩

theorem joinLeader_val {memberID : Str} {group' : GroupRef}
    (led : (joinLeader memberID group).run c = .ok group' c') :
    group'.val = withLeader memberID group.val := by
  unfold joinLeader at led
  unfold withLeader
  split at led
  · rename_i blank
    rw [if_pos blank]
    exact GroupRef.edit_val led
  · rename_i filled
    rw [if_neg filled]
    cases led
    rfl

theorem joinGroup_prepared (clientID uuid : Str) (r : JoinGroupRequest)
    (ready : Prepared lower key group c c) (made : group.val.members ≠ none) :
    ∃ group' c', Prepared lower key group' c c' ∧
      group'.val = withLeader (memberName clientID uuid r.memberID)
        (withMember r.memberID (memberName clientID uuid r.memberID) group.val) ∧
      group'.addr = group.addr ∧ (joinGroup lower clientID uuid r group).run c =
        (registerJoined lower r (memberName clientID uuid r.memberID) group').run c' := by
  obtain ⟨group₁, c₁, joined, val₁⟩ := joinMember_run clientID uuid r.memberID made c
  obtain ⟨group₂, c₂, led⟩ := joinLeader_run (memberName clientID uuid r.memberID) group₁ c₁
  obtain ⟨ready₁, addr₁, -⟩ := joinMember_prepared ready joined
  obtain ⟨ready₂, addr₂, -⟩ := joinLeader_prepared ready₁ led
  refine ⟨group₂, c₂, ready₂, ?_, addr₂.trans addr₁, ?_⟩
  · rw [joinLeader_val led, val₁]
  · unfold joinGroup
    rw [bind_ok joined]
    dsimp only
    rw [bind_ok led]

theorem registerJoined_run {r : JoinGroupRequest} {memberID : Str} {group : GroupRef}
    {answer : Option Err}
    (applied : (raftApply lower (.registerGroup group.val)).run c = .ok answer c') :
    ∃ res, (registerJoined lower r memberID group).run c = .ok res c' ∧ res.errorCode = 0 ∧
      res.memberID = memberID := by
  unfold registerJoined
  rw [bind_ok (attempt_ok applied)]
  exact ⟨_, rfl, rfl, rfl⟩

theorem group_withLeader : (withLeader id g).group = g.group := by
  unfold withLeader
  split <;> rfl

theorem group_withMember {memberID : Str} : (withMember memberID id g).group = g.group := by
  unfold withMember
  split <;> rfl

/-- A join into a group with a name is stored. -/
theorem joinGroup_committed (clientID uuid : Str) (r : JoinGroupRequest)
    (ready : Prepared lower key group c c) (made : group.val.members ≠ none)
    (clean : c.fsm.Clean lower) (reliable : Reliable c)
    (named : (groupTableSchema lower).id group.val = some key) :
    ∃ res c', (joinGroup lower clientID uuid r group).run c = .ok res c' ∧ res.errorCode = 0 ∧
      res.memberID = memberName clientID uuid r.memberID ∧
      Committed lower key (withLeader (memberName clientID uuid r.memberID)
        (withMember r.memberID (memberName clientID uuid r.memberID) group.val)) c c' := by
  obtain ⟨group', c₁, ready', val, -, same⟩ := joinGroup_prepared clientID uuid r ready made
  have named' : (groupTableSchema lower).id group'.val = some key := by
    rw [val]
    simpa only [groupTableSchema, group_withLeader, group_withMember] using named
  obtain ⟨answer, c', applied, registered⟩ := ready'.registered clean reliable named'
  obtain ⟨res, ran, ok, name⟩ := registerJoined_run applied
  exact ⟨res, c', same.trans ran, ok, name, val ▸ registered⟩

/-- The group that a join finds or makes. -/
def groupFor (lower : Str → Str) (c : Cluster) (groupID : Str) : Fsm.Group :=
  (c.groupAt lower (lowerKey lower groupID)).getD (newGroup groupID c.id).val

/-- `handleJoinGroup` stores the group with its new member and leader, unless the group is new
and without a name. -/
theorem handleJoinGroup_run (clientID uuid : Str) (r : JoinGroupRequest)
    (clean : c.fsm.Clean lower) (reliable : Reliable c)
    (made : (groupFor lower c r.groupID).members ≠ none) :
    ∃ res c', (handleJoinGroup lower clientID uuid r).run c = .ok res c' ∧ res.errorCode = 0 ∧
      res.memberID = memberName clientID uuid r.memberID ∧
      if c.groupAt lower (lowerKey lower r.groupID) ≠ none ∨ r.groupID ≠ [] then
        Committed lower (lowerKey lower r.groupID)
          (withLeader (memberName clientID uuid r.memberID)
            (withMember r.memberID (memberName clientID uuid r.memberID)
              (groupFor lower c r.groupID))) c c'
      else c'.fsm.Clean lower ∧ Reliable c' ∧ c'.groupAt lower = c.groupAt lower := by
  unfold handleJoinGroup
  rw [bind_ok (getGroup_run r.groupID), bind_ok (show configID.run c = .ok c.id c from rfl)]
  cases found : (c.fsm.getGroup lower r.groupID).2 with
  | some row =>
    have here : c.groupAt lower (lowerKey lower r.groupID) = some row.val :=
      congrArg (Option.map Obj.val) found
    have base : groupFor lower c r.groupID = row.val := by
      rw [groupFor, here]
      rfl
    rw [base] at made ⊢
    have stored : c.groupAt lower (lowerKey lower r.groupID) ≠ none := by
      rw [here]
      exact nofun
    simp only [if_pos (Or.inl stored)]
    exact joinGroup_committed clientID uuid r (prepared_of_found clean found) made clean reliable
      (clean.groups.exact.id _ row found)
  | none =>
    have here : c.groupAt lower (lowerKey lower r.groupID) = none :=
      congrArg (Option.map Obj.val) found
    have base : groupFor lower c r.groupID = (newGroup r.groupID c.id).val := by
      rw [groupFor, here]
      rfl
    rw [base] at made ⊢
    have new := @prepared_of_new lower c (lowerKey lower r.groupID) clean r.groupID c.id
    by_cases blank : r.groupID = []
    · have neither : ¬ (c.groupAt lower (lowerKey lower r.groupID) ≠ none ∨ r.groupID ≠ []) :=
        not_or.mpr ⟨not_not.mpr here, not_not.mpr blank⟩
      obtain ⟨group, c₁, ready, val, addr, same⟩ := joinGroup_prepared clientID uuid r new made
      have name : group.val.group = r.groupID := by
        rw [val, group_withLeader, group_withMember]
        rfl
      obtain rfl := ready.unstored addr
      obtain ⟨answer, c', applied, unchanged⟩ :=
        registerGroup_unnamed clean reliable (name.trans blank)
      obtain ⟨res, ran, ok, member⟩ := registerJoined_run applied
      refine ⟨res, c', same.trans ran, ok, member, ?_⟩
      rw [if_neg neither]
      exact unchanged
    · simp only [if_pos (Or.inr blank)]
      refine joinGroup_committed clientID uuid r new made clean reliable ?_
      simp [groupTableSchema, stringField, newGroup, blank, lowerKey]

/-- A member leaves: the group keeps everything else, its leader too. -/
theorem handleLeaveGroup_run {r : LeaveGroupRequest} (clean : c.fsm.Clean lower)
    (reliable : Reliable c) (here : c.groupAt lower (lowerKey lower r.groupID) = some g)
    (member : g.members.get? r.memberID ≠ none) :
    ∃ res c', (handleLeaveGroup lower r).run c = .ok res c' ∧ res.errorCode = 0 ∧
      Committed lower (lowerKey lower r.groupID)
        { g with members := g.members.delete r.memberID } c c' := by
  obtain ⟨row, found, rfl⟩ := map_eq_some_iff.mp here
  have looked : (c.fsm.getGroup lower r.groupID).2 = some row := found
  obtain ⟨group, c₁, edited⟩ := GroupRef.edit_run ⟨some row.addr, row.val⟩
    (fun g => { g with members := g.members.delete r.memberID }) c
  obtain ⟨ready, -⟩ := (prepared_of_found clean looked).edit edited
    ⟨fun _ => rfl, fun _ => rfl, fun _ => rfl⟩
  have val := GroupRef.edit_val edited
  have named : (groupTableSchema lower).id group.val = some (lowerKey lower r.groupID) := by
    rw [val]
    exact clean.groups.exact.id _ row looked
  obtain ⟨answer, c', applied, registered⟩ := ready.registered clean reliable named
  rw [val] at registered
  unfold handleLeaveGroup
  rw [bind_ok (getGroup_run r.groupID), looked]
  dsimp only [map_some]
  rw [if_neg member, bind_ok edited, bind_ok (attempt_ok applied)]
  exact ⟨_, c', rfl, rfl, registered⟩

theorem handleLeaveGroup_refused {r : LeaveGroupRequest}
    (absent : ∀ g, c.groupAt lower (lowerKey lower r.groupID) = some g →
      g.members.get? r.memberID = none) :
    ∃ res, (handleLeaveGroup lower r).run c = .ok res c ∧ res.errorCode ≠ 0 := by
  unfold handleLeaveGroup
  rw [bind_ok (getGroup_run r.groupID)]
  cases found : (c.fsm.getGroup lower r.groupID).2 with
  | none => exact ⟨_, rfl, show ErrorCode.invalidGroupId.code ≠ 0 by decide⟩
  | some row =>
    dsimp only [Option.map_some]
    rw [if_pos (absent row.val (congrArg (Option.map Obj.val) found))]
    exact ⟨_, rfl, show ErrorCode.unknownMemberId.code ≠ 0 by decide⟩

/-- A group whose state is not changed is never ready for `SyncGroup`. -/
theorem handleSyncGroup_refused (r : SyncGroupRequest)
    (made : ∀ g, c.groupAt lower (lowerKey lower r.groupID) = some g → Made g) :
    ∃ res, (handleSyncGroup lower r).run c = .ok res c ∧ res.errorCode ≠ 0 := by
  unfold handleSyncGroup
  rw [bind_ok (getGroup_run r.groupID)]
  cases found : (c.fsm.getGroup lower r.groupID).2 with
  | none => exact ⟨_, rfl, show ErrorCode.invalidGroupId.code ≠ 0 by decide⟩
  | some row =>
    have preparing := (made row.val (congrArg (Option.map Obj.val) found)).preparing
    dsimp only [Option.map_some]
    rw [preparing]
    split
    · exact ⟨_, rfl, show ErrorCode.unknownMemberId.code ≠ 0 by decide⟩
    · split
      · exact ⟨_, rfl, show ErrorCode.illegalGeneration.code ≠ 0 by decide⟩
      · exact ⟨_, rfl, show ErrorCode.rebalanceInProgress.code ≠ 0 by decide⟩

namespace Sessions

/-- What no request changes: raft commits, and the groups are the handlers' own. -/
structure Ready (lower : Str → Str) (s : Sessions) : Prop where
  clean : s.cluster.fsm.Clean lower
  reliable : Reliable s.cluster
  made : ∀ key g, s.cluster.groupAt lower key = some g → Made g

/-- One request: it leaves the broker ready, and every group led if and only if it suits. -/
def StepsLed (lower : Str → Str) (s : Sessions) (q : GroupRequest) : Prop :=
  (s.step lower q).Ready lower ∧
    (s.Led lower → ((s.step lower q).Led lower ↔ q.Suits lower s))

variable {s : Sessions}

/-- What a registration leaves of the other groups, and of its own. -/
theorem Ready.registered {handed : List (Str × Str)} (ready : s.Ready lower)
    (done : Committed lower key g s.cluster c') (made : Made g) : Ready lower ⟨c', handed⟩ := by
  obtain ⟨create, modify, groups⟩ := done.groups
  refine ⟨done.clean, done.reliable, fun j g' here => ?_⟩
  rw [groups j] at here
  split at here
  · cases here
    exact ⟨made.members, made.preparing, made.own⟩
  · exact ready.made j g' here

theorem Led.registered {handed : List (Str × Str)} (led : s.Led lower)
    (done : Committed lower key g s.cluster c') :
    Led lower ⟨c', handed⟩ ↔ Headed g ∧ ∀ h ∈ handed,
      if lowerKey lower h.1 = key then g.members.get? h.2 ≠ none
      else ∃ g', s.cluster.groupAt lower (lowerKey lower h.1) = some g' ∧
        g'.members.get? h.2 ≠ none := by
  obtain ⟨create, modify, groups⟩ := done.groups
  constructor
  · rintro ⟨headed, stored⟩
    have own := headed key _ ((groups key).trans (if_pos rfl))
    refine ⟨own, fun h inside => ?_⟩
    obtain ⟨g', here, present⟩ := stored h inside
    have here := (groups (lowerKey lower h.1)).symm.trans here
    split at here
    · rename_i same
      cases here
      rw [if_pos same]
      exact present
    · rename_i other
      rw [if_neg other]
      exact ⟨g', here, present⟩
  · rintro ⟨headed, stored⟩
    refine ⟨fun j g' here => ?_, fun h inside => ?_⟩
    · have here := (groups j).symm.trans here
      split at here
      · cases here
        exact headed
      · exact led.headed j g' here
    · have present := stored h inside
      have here := groups (lowerKey lower h.1)
      split at present
      · rename_i same
        rw [if_pos same] at here
        exact ⟨_, here, present⟩
      · rename_i other
        rw [if_neg other] at here
        obtain ⟨g', is, present⟩ := present
        exact ⟨g', here.trans is, present⟩

theorem groupFor_of {P : Fsm.Group → Prop} {groupID : Str} (new : P (newGroup groupID c.id).val)
    (stored : ∀ key g, c.groupAt lower key = some g → P g) : P (groupFor lower c groupID) := by
  unfold groupFor
  cases here : c.groupAt lower (lowerKey lower groupID) with
  | none => exact new
  | some g => exact stored _ g here

theorem groupFor_stored (groupID id : Str) : (groupFor lower c groupID).members.get? id ≠ none ↔
      ∃ g, c.groupAt lower (lowerKey lower groupID) = some g ∧ g.members.get? id ≠ none := by
  unfold groupFor
  cases here : c.groupAt lower (lowerKey lower groupID) with
  | none =>
    simp only [reduceCtorEq, false_and, exists_false, iff_false, not_not]
    rfl
  | some g => simp

theorem step_join (clientID uuid : Str) (r : JoinGroupRequest) (ready : s.Ready lower) :
    s.StepsLed lower (.join clientID uuid r) := by
  have made := groupFor_of (newGroup_made r.groupID s.cluster.id) ready.made
  have filled := memberName_ne_nil clientID uuid r.memberID
  obtain ⟨res, c', ran, ok, name, left⟩ :=
    handleJoinGroup_run clientID uuid r ready.clean ready.reliable made.members
  have after : s.step lower (.join clientID uuid r) =
      ⟨c', (r.groupID, memberName clientID uuid r.memberID) :: s.handed⟩ := by
    simp only [step, ran, ok, name, ↓reduceIte]
  rw [StepsLed, after]
  split at left
  · rename_i named
    refine ⟨ready.registered left (made.withMember filled).withLeader, fun led => ?_⟩
    rw [led.registered left, forall_mem_cons, if_pos rfl, members_withLeader]
    have others : ∀ h ∈ s.handed, if lowerKey lower h.1 = lowerKey lower r.groupID then
        (withMember r.memberID (memberName clientID uuid r.memberID)
          (groupFor lower s.cluster r.groupID)).members.get? h.2 ≠ none
        else ∃ g', s.cluster.groupAt lower (lowerKey lower h.1) = some g' ∧
          g'.members.get? h.2 ≠ none := by
      intro h inside
      obtain ⟨g, here, present⟩ := led.stored h inside
      split
      · rename_i same
        refine get?_withMember.mpr (.inr ((groupFor_stored r.groupID h.2).mpr ⟨g, ?_, present⟩))
        rw [← same]
        exact here
      · exact ⟨g, here, present⟩
    have suits : (withMember r.memberID (memberName clientID uuid r.memberID)
        (groupFor lower s.cluster r.groupID)).members.get?
          (memberName clientID uuid r.memberID) ≠ none ↔
        (GroupRequest.join clientID uuid r).Suits lower s := by
      rw [get?_withMember, groupFor_stored]
      simp only [GroupRequest.Suits, memberName]
      split
      · rename_i blank
        exact iff_of_true (.inl ⟨blank, trivial⟩) named
      · rename_i other
        simp only [other, false_and, false_or]
    constructor
    · rintro ⟨-, here, -⟩
      exact suits.mp here
    · intro here
      have member := suits.mpr here
      have headed : Headed (groupFor lower s.cluster r.groupID) :=
        groupFor_of ⟨fun filled => absurd rfl filled, fun _ => rfl⟩ led.headed
      exact ⟨headed_joined made filled headed member, member, others⟩
  · rename_i unnamed
    obtain ⟨absent, blank⟩ := not_or.mp unnamed
    rw [not_not] at absent
    obtain ⟨clean, reliable, groups⟩ := left
    refine ⟨⟨clean, reliable, fun key g here => ?_⟩,
      fun _ => iff_of_false (fun led' => ?_) (fun suits => ?_)⟩
    · rw [groups] at here
      exact ready.made key g here
    · obtain ⟨g, here, -⟩ := led'.stored _ (mem_cons_self ..)
      rw [groups, absent] at here
      cases here
    · simp only [GroupRequest.Suits] at suits
      split at suits
      · exact unnamed suits
      · obtain ⟨g, here, -⟩ := suits
        rw [absent] at here
        cases here

theorem made_delete (made : Made g) (id : Str) :
    Made { g with members := g.members.delete id } := by
  refine ⟨fun gone => made.members (map_eq_none_iff.mp gone), made.preparing, fun e inside => ?_⟩
  exact made.own e (GoMap.mem_delete.mp inside).1

/-- A group is still headed when a member leaves if that is not the leader. -/
theorem headed_delete_iff (made : Made g) (headed : Headed g)
    (member : g.members.get? id ≠ none) :
    Headed { g with members := g.members.delete id } ↔ id ≠ g.leaderID := by
  rw [(made_delete made id).headed_iff, GoMap.get?_ne_none]
  constructor
  · rintro (⟨e, inside, here⟩ | ⟨-, blank⟩) rfl
    · exact (GoMap.mem_delete.mp inside).2 here
    · exact made.named member blank
  · intro other
    rcases made.headed_iff.mp headed with present | ⟨empty, -⟩
    · obtain ⟨e, inside, here⟩ := GoMap.get?_ne_none.mp present
      exact .inl ⟨e, GoMap.mem_delete.mpr ⟨inside, fun same => other (same.symm.trans here)⟩, here⟩
    · obtain ⟨e, inside, -⟩ := GoMap.get?_ne_none.mp member
      rw [empty] at inside
      cases inside

theorem step_leave (r : LeaveGroupRequest) (ready : s.Ready lower) :
    s.StepsLed lower (.leave r) := by
  unfold StepsLed
  by_cases absent : ∀ g, s.cluster.groupAt lower (lowerKey lower r.groupID) = some g →
      g.members.get? r.memberID = none
  · obtain ⟨res, ran, refused⟩ := handleLeaveGroup_refused absent
    have after : s.step lower (.leave r) = s := by
      simp only [step, ran, refused, ↓reduceIte]
    rw [after]
    refine ⟨ready, fun led => iff_of_true led fun g here member => ?_⟩
    exact absurd (absent g here) member
  · simp only [not_forall] at absent
    obtain ⟨g, here, member⟩ := absent
    obtain ⟨res, c', ran, ok, left⟩ :=
      handleLeaveGroup_run ready.clean ready.reliable here member
    have made := ready.made _ g here
    have after : s.step lower (.leave r) = ⟨c', s.handed.filter fun h =>
        ¬ (lowerKey lower h.1 = lowerKey lower r.groupID ∧ h.2 = r.memberID)⟩ := by
      simp only [step, ran, ok, ↓reduceIte]
    rw [after]
    refine ⟨ready.registered left (made_delete made _), fun led => ?_⟩
    rw [led.registered left, headed_delete_iff made (led.headed _ g here) member]
    constructor
    · rintro ⟨other, -⟩ g' here' -
      obtain rfl := some.inj (here.symm.trans here')
      exact other
    · intro suits
      refine ⟨suits g here member, fun h inside => ?_⟩
      obtain ⟨inside, stays⟩ := mem_filter.mp inside
      obtain ⟨g', here', present⟩ := led.stored h inside
      split
      · rename_i same
        rw [same] at here'
        obtain rfl := some.inj (here.symm.trans here')
        obtain ⟨e, inside, is⟩ := GoMap.get?_ne_none.mp present
        refine GoMap.get?_ne_none.mpr ⟨e, GoMap.mem_delete.mpr ⟨inside, fun gone => ?_⟩, is⟩
        exact of_decide_eq_true stays ⟨same, is.symm.trans gone⟩
      · exact ⟨g', here', present⟩

theorem step_sync (r : SyncGroupRequest) (ready : s.Ready lower) :
    s.step lower (.sync r) = s := by
  obtain ⟨res, ran, -⟩ := handleSyncGroup_refused r fun g here => ready.made _ g here
  rw [step, ran]
  rfl

theorem step_led (q : GroupRequest) (ready : s.Ready lower) : s.StepsLed lower q := by
  cases q with
  | join clientID uuid r => exact step_join clientID uuid r ready
  | leave r => exact step_leave r ready
  | sync r =>
    rw [StepsLed, step_sync r ready]
    exact ⟨ready, fun led => iff_of_true led trivial⟩

theorem throughout_led_iff (qs : List GroupRequest) (ready : s.Ready lower) (led : s.Led lower) :
    Throughout lower (fun _ _ s' => s'.Led lower) qs s ↔
      Throughout lower (fun s q _ => q.Suits lower s) qs s := by
  induction qs generalizing s with
  | nil => exact Iff.rfl
  | cons q qs ih =>
    obtain ⟨ready', step⟩ := step_led q ready
    have led_iff := step led
    constructor
    · rintro ⟨led', rest⟩
      exact ⟨led_iff.mp led', (ih ready' led').mp rest⟩
    · rintro ⟨suits, rest⟩
      exact ⟨led_iff.mpr suits, (ih ready' (led_iff.mpr suits)).mpr rest⟩

theorem Ready.run (qs : List GroupRequest) (ready : s.Ready lower) :
    (s.run lower qs).Ready lower := by
  induction qs generalizing s with
  | nil => exact ready
  | cons q qs ih => exact ih (step_led q ready).1

theorem ready_of_none (clean : c.fsm.Clean lower) (reliable : Reliable c)
    (none : ∀ key, c.groupAt lower key = none) : Ready lower ⟨c, []⟩ := by
  refine ⟨clean, reliable, fun key g here => ?_⟩
  rw [none key] at here
  cases here

/-- On a broker without groups whose writes raft commits, all groups have their leaders among
their members, and all members that joined are stored, as long as the requests suit. -/
theorem requests_led_iff (lower : Str → Str) (c : Cluster) (qs : List GroupRequest)
    (clean : c.fsm.Clean lower) (reliable : Reliable c)
    (none : ∀ key, c.groupAt lower key = none) :
    Throughout lower (fun _ _ s' => s'.Led lower) qs ⟨c, []⟩ ↔
      Throughout lower (fun s q _ => q.Suits lower s) qs ⟨c, []⟩ := by
  refine throughout_led_iff qs (ready_of_none clean reliable none) ⟨fun key g here => ?_, nofun⟩
  rw [none key] at here
  cases here

/-- A broker that leads, without groups. -/
def blank : Sessions := ⟨lone Store.new fun _ => .ok 1, []⟩

/-- A client joins the group as a new member. -/
def enters (uuid : String) : GroupRequest :=
  .join (ascii "c") (ascii uuid) ⟨0, ascii "g", 0, 0, [], [], []⟩

def leaves (memberID : String) : GroupRequest := .leave ⟨0, ascii "g", ascii memberID⟩

/-- Two clients join, and the one that is not the leader leaves. -/
theorem requests_led_two :
    Throughout (fun name => name) (fun _ _ s' => s'.Led fun name => name)
      [enters "1", enters "2", leaves "c-2"] blank := by
  refine (requests_led_iff (fun name => name) (lone Store.new fun _ => .ok 1) _ Store.Clean.new
    (fun _ => ⟨1, rfl⟩) (fun _ => rfl)).mpr ⟨.inr nofun, .inr nofun, fun g here _ => ?_, trivial⟩
  have leader : (((blank.step (fun name => name) (enters "1")).step (fun name => name)
      (enters "2")).cluster.groupAt (fun name => name)
        (lowerKey (fun name => name) (ascii "g"))).map Group.leaderID = some (ascii "c-1") := by
    decide +kernel
  have led : g.leaderID = ascii "c-1" := some.inj ((congrArg _ here).symm.trans leader)
  rw [led]
  decide

/-- The only member leaves and stays the leader; and a client that comes with an id of its own
becomes the leader of a group without members. -/
theorem leader_without_membership :
    let key := lowerKey (fun name => name) (ascii "g")
    let shown (g : Fsm.Group) := (g.leaderID, g.members.entries)
    ((blank.run (fun name => name) [enters "1", leaves "c-1"]).cluster.groupAt
      (fun name => name) key).map shown = some (ascii "c-1", []) ∧
    ((blank.run (fun name => name) [.join [] [] ⟨0, ascii "g", 0, 0, ascii "m", [], []⟩]).cluster.groupAt
      (fun name => name) key).map shown = some (ascii "m", []) ∧
    (blank.run (fun name => name)
      [.join [] [] ⟨0, ascii "g", 0, 0, ascii "m", [], []⟩]).handed = [(ascii "g", ascii "m")] := by
  decide +kernel

/-- Nothing takes a group out of the state in which it prepares to rebalance, so no request of
a member to synchronise is ever answered without an error. -/
theorem sync_refused (lower : Str → Str) (c : Cluster) (qs : List GroupRequest)
    (r : SyncGroupRequest) (clean : c.fsm.Clean lower) (reliable : Reliable c)
    (none : ∀ key, c.groupAt lower key = none) :
    ∃ res, (handleSyncGroup lower r).run (run lower ⟨c, []⟩ qs).cluster =
        .ok res (run lower ⟨c, []⟩ qs).cluster ∧ res.errorCode ≠ 0 := by
  have ready := (ready_of_none clean reliable none).run qs
  exact handleSyncGroup_refused r fun g here => ready.made _ g here

/-- The assignments of the leader of a group of two. -/
theorem sync_refused_two :
    ∃ res, (handleSyncGroup (fun name => name) ⟨0, ascii "g", 0, ascii "c-1",
        [⟨ascii "c-1", some [1]⟩, ⟨ascii "c-2", some [2]⟩]⟩).run
          (blank.run (fun name => name) [enters "1", enters "2"]).cluster =
        .ok res (blank.run (fun name => name) [enters "1", enters "2"]).cluster ∧
      res.errorCode ≠ 0 :=
  sync_refused (fun name => name) (lone Store.new fun _ => .ok 1) [enters "1", enters "2"] _
    Store.Clean.new (fun _ => ⟨1, rfl⟩) (fun _ => rfl)

/-- The only member of a group leads it, and is told that the group rebalances. -/
theorem leader_told_rebalance :
    let s := blank.run (fun name => name) [enters "1"]
    (s.cluster.groupAt (fun name => name) (lowerKey (fun name => name) (ascii "g"))).map
      (fun g => (g.leaderID, g.generationID, g.members.entries.map Prod.fst)) =
        some (ascii "c-1", 0, [ascii "c-1"]) ∧
    ((handleSyncGroup (fun name => name)
      ⟨0, ascii "g", 0, ascii "c-1", [⟨ascii "c-1", some [1]⟩]⟩).run s.cluster).returned.map
        SyncGroupResponse.errorCode = some ErrorCode.rebalanceInProgress.code := by
  decide +kernel

end Sessions

end Jocko.Broker
