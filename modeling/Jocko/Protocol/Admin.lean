import Jocko.Protocol.DataPlane

namespace Jocko.Protocol

open Go ByteDecoder List

section APIVersions

structure APIVersion where
  apiKey : Int16
  minVersion : Int16
  maxVersion : Int16
  deriving DecidableEq

structure APIVersionsResponse where
  apiVersion : Int16
  errorCode : Int16
  apiVersions : List APIVersion
  throttleTime : Int
  deriving DecidableEq

def APIVersion.puts (av : APIVersion) : List Put :=
  [.int16 av.apiKey, .int16 av.minVersion, .int16 av.maxVersion]

/-- `APIVersionsResponse.Encode` -/
def APIVersionsResponse.puts (c : APIVersionsResponse) : List Put :=
  [.int16 c.errorCode, .arrayLength c.apiVersions.length] ++
    c.apiVersions.flatMap APIVersion.puts ++
    (if 1 ≤ c.apiVersion then [.int32 (millis c.throttleTime)] else [])

def APIVersion.decode : Call ByteDecoder APIVersion := do
  let apiKey ← int16
  let minVersion ← int16
  let maxVersion ← int16
  return { apiKey, minVersion, maxVersion }

/-- `APIVersionsResponse.Decode`, which looks for the versions where the error code is. -/
def APIVersionsResponse.decode (version : Int16) : Call ByteDecoder APIVersionsResponse := do
  let apiVersions ← array APIVersion.decode
  let throttleTime ← when (1 ≤ version) (do return ofMillis (← int32)) 0
  return { apiVersion := version, errorCode := 0, apiVersions, throttleTime }

def APIVersion.codec : Codec APIVersion :=
  (Codec.int16.pair (Codec.int16.pair .int16)).iso (fun p => ⟨p.1, p.2.1, p.2.2⟩)
    (fun av => (av.apiKey, av.minVersion, av.maxVersion))

def APIVersionsResponse.codec (version : Int16) : Codec APIVersionsResponse :=
  (APIVersion.codec.array.pair (Codec.when (1 ≤ version) .millis 0)).iso
    (fun p => ⟨version, 0, p.1, p.2⟩) (fun c => (c.apiVersions, c.throttleTime))

theorem APIVersion.coded : puts = codec.lay ∧ decode = codec.dec := by
  simp [funext_iff, puts, decode, codec]

theorem APIVersionsResponse.decode_eq (version : Int16) : decode version = (codec version).dec := by
  simp [decode, codec, APIVersion.coded]

theorem APIVersionsResponse.puts_eq (c : APIVersionsResponse) :
    c.puts = .int16 c.errorCode :: (codec c.apiVersion).lay c := by
  simp [puts, codec, APIVersion.coded]

theorem APIVersionsResponse.not_survives (c : APIVersionsResponse) :
    ¬ RoundTrips c.puts (decode c.apiVersion) c := by
  rw [decode_eq]
  apply Codec.not_roundTrips
  · rw [puts_eq]
    simp only [mem_cons, forall_eq_or_imp]
    exact ⟨trivial, (codec c.apiVersion).plain c⟩
  · rw [puts_eq, sizeOf_cons]
    have width : (Put.int16 c.errorCode).raw.length = 2 := length_putUint ..
    omega

end APIVersions

section Maps

variable {κ ν : Type} [DecidableEq κ]

/-- `for i := 0; i < n; i++ { k, v := …; m[k] = v }` -/
def fill (entry : Call ByteDecoder (κ × ν)) : Nat → GoMap κ ν → Call ByteDecoder (GoMap κ ν)
  | 0, m => return m
  | n + 1, m => do
    let (k, v) ← entry
    match m.set k v with
    | some m => fill entry n m
    | none => stop (.panic "assignment to entry in nil map")

/-- A map behind the number of its entries. -/
def filled (entry : Call ByteDecoder (κ × ν)) : Call ByteDecoder (GoMap κ ν) := do
  let n ← arrayLength
  fill entry n GoMap.make

theorem fill_eq (entry : Call ByteDecoder (κ × ν)) (n : Nat) (m : List (κ × ν)) :
    fill entry n (some m) = times entry n >>= fun es => pure (some (GoMap.assign m es)) := by
  induction n generalizing m with
  | zero => rfl
  | succ n ih =>
    simp only [fill, times, GoMap.set, Option.map_some, ih, bind_assoc, pure_bind]
    rfl

theorem filled_eq (entry : Call ByteDecoder (κ × ν)) :
    filled entry = array entry >>= fun es => pure (GoMap.assigned es) := by
  simp only [filled, array, GoMap.make, fill_eq, bind_assoc]
  rfl

end Maps

theorem times_map {α β : Type} (item : Call ByteDecoder α) (f : α → β) (n : Nat) :
    times (item >>= fun x => pure (f x)) n = times item n >>= fun xs => pure (xs.map f) := by
  induction n with
  | zero => rfl
  | succ n ih => simp only [times, ih, bind_assoc, pure_bind, map_cons]

theorem array_map {α β : Type} (item : Call ByteDecoder α) (f : α → β) :
    array (item >>= fun x => pure (f x)) = array item >>= fun xs => pure (xs.map f) := by
  simp only [array, times_map, bind_assoc]

section CreateTopics

def CreateTopicRequest.puts (r : CreateTopicRequest) : List Put :=
  [.string r.topic, .int32 r.numPartitions, .int16 r.replicationFactor,
    .arrayLength r.replicaAssignment.entries.length] ++
    r.replicaAssignment.entries.flatMap (fun e => [.int32 e.1, .int32Array e.2]) ++
    [.arrayLength r.configs.entries.length] ++
    r.configs.entries.flatMap (fun e => [.string e.1, .nullableString e.2])

/-- `CreateTopicRequests.Encode`, where each `range` over a map meets the entries in their order. -/
def CreateTopicRequests.puts (r : CreateTopicRequests) : List Put :=
  [.arrayLength r.requests.length] ++ r.requests.flatMap CreateTopicRequest.puts ++
    [.int32 (millis r.timeout)] ++ (if 1 ≤ r.apiVersion then [.bool r.validateOnly] else [])

def CreateTopicRequest.assignment : Call ByteDecoder (Int32 × List Int32) := do
  let pid ← int32
  let reps ← array int32
  return (pid, reps)

def CreateTopicRequest.setting : Call ByteDecoder (Str × Option Str) := do
  let k ← string
  let v ← nullableString
  return (k, v)

def CreateTopicRequest.decode : Call ByteDecoder CreateTopicRequest := do
  let topic ← string
  let numPartitions ← int32
  let replicationFactor ← int16
  let replicaAssignment ← filled assignment
  let configs ← filled setting
  return { topic, numPartitions, replicationFactor, replicaAssignment, configs }

/-- `CreateTopicRequests.Decode`, which leaves `APIVersion` as it is and does not return the error
of the last read. -/
def CreateTopicRequests.decode (version : Int16) : Call ByteDecoder CreateTopicRequests := do
  let requests ← array CreateTopicRequest.decode
  let timeout ← int32
  let validateOnly ← when (1 ≤ version) (do return (← attempt bool).toOption.getD false) false
  return { apiVersion := 0, requests, timeout := ofMillis timeout, validateOnly }

/-- Replicas are written by `PutInt32Array` and read one by one. -/
@[simps! dec lay Ok]
def Codec.replicas : Codec (List Int32) :=
  int32.array.relay (fun is => [.int32Array is]) (fun _ => by simp [Put.Plain]) <| by
    intro is
    have one (i : Int32) : rawOf (int32.lay i) = Put.rawInt32 i := List.append_nil _
    simp only [array_lay]
    rw [rawOf_cons, rawOf_cons, rawOf_flatMap]
    simp only [one]
    change (Put.rawInt32 (Int32.ofNat is.length) ++ is.flatMap Put.rawInt32) ++ [] =
      Put.rawInt32 (Int32.ofInt is.length) ++ is.flatMap Put.rawInt32
    rw [List.append_nil, Int32.ofInt_eq_ofNat]

/-- A map as its entries are on the wire. -/
@[simps! dec lay Ok]
def Codec.entries {κ ν : Type} (c : Codec (κ × ν)) (pos : c.Pos := by exact sizeOf_pos fun _ => rfl) :
    Codec (GoMap κ ν) :=
  (c.array pos).iso some GoMap.entries GoMap.entries_some

theorem Codec.fit_replicas {is : List Int32} : replicas.Fit is ↔ is.length ≤ maxArrayLength := by
  have limit : maxArrayLength ≤ maxInt32 := by decide
  simp only [Fit, replicas_lay, mem_singleton, forall_eq, Put.Fits, replicas_Ok]
  simp
  omega

theorem Codec.fit_entries {κ ν : Type} {c : Codec (κ × ν)} {pos : c.Pos} {m : GoMap κ ν} :
    (c.entries pos).Fit m ↔
      m.entries.length ≤ maxArrayLength ∧ (∀ e ∈ m.entries, c.Fit e) ∧ some m.entries = m := by
  rw [entries, fit_iso, fit_array, and_assoc]

namespace CreateTopicRequest

def assignments : Codec (GoMap Int32 (List Int32)) :=
  (Codec.int32.pair .replicas).entries

def settings : Codec (GoMap Str (Option Str)) :=
  (Codec.string.pair .nullableString).entries

/-- A request as it is on the wire, before the entries of its maps are assigned. -/
def codec : Codec CreateTopicRequest :=
  (Codec.string.pair (Codec.int32.pair (Codec.int16.pair (assignments.pair settings)))).iso
    (fun p => ⟨p.1, p.2.1, p.2.2.1, p.2.2.2.1, p.2.2.2.2⟩)
    (fun r => (r.topic, r.numPartitions, r.replicationFactor, r.replicaAssignment, r.configs))

/-- The request with maps that are made from the entries. -/
def assigned (r : CreateTopicRequest) : CreateTopicRequest :=
  { r with
    replicaAssignment := GoMap.assigned r.replicaAssignment.entries
    configs := GoMap.assigned r.configs.entries }

theorem puts_eq : puts = codec.lay := by
  funext r
  have pairs : (fun e : Int32 × List Int32 => [Put.int32 e.1, Put.int32Array e.2]) =
      (Codec.int32.pair .replicas).lay := rfl
  have named : (fun e : Str × Option Str => [Put.string e.1, Put.nullableString e.2]) =
      (Codec.string.pair .nullableString).lay := rfl
  simp [puts, codec, assignments, settings, pairs, named]

theorem decode_eq : decode = codec.dec >>= fun r => pure r.assigned := by
  simp [decode, codec, filled_eq, assigned, assignments, settings, assignment, setting,
    GoMap.entries]

end CreateTopicRequest

namespace CreateTopicRequests

/-- The requests of version 0. -/
def codec : Codec CreateTopicRequests :=
  (CreateTopicRequest.codec.array.pair .millis).iso
    (fun p => ⟨0, p.1, p.2, false⟩) (fun r => (r.requests, r.timeout))

def assigned (r : CreateTopicRequests) : CreateTopicRequests :=
  { r with requests := r.requests.map CreateTopicRequest.assigned }

theorem puts_eq {r : CreateTopicRequests} (old : r.apiVersion = 0) : r.puts = codec.lay r := by
  simp [puts, old, codec, CreateTopicRequest.puts_eq]

theorem decode_eq : decode 0 = codec.dec >>= fun r => pure r.assigned := by
  rw [decode, CreateTopicRequest.decode_eq, array_map]
  simp [codec, assigned, when]

end CreateTopicRequests

namespace CreateTopicRequest

/-- Equal up to the order in which a `range` meets the entries of the maps. -/
structure Same (r r' : CreateTopicRequest) : Prop where
  topic : r.topic = r'.topic
  numPartitions : r.numPartitions = r'.numPartitions
  replicationFactor : r.replicationFactor = r'.replicationFactor
  replicaAssignment : r.replicaAssignment.entries.Perm r'.replicaAssignment.entries
  configs : r.configs.entries.Perm r'.configs.entries

theorem Same.refl (r : CreateTopicRequest) : r.Same r :=
  ⟨rfl, rfl, rfl, .refl _, .refl _⟩

variable {r r' : CreateTopicRequest}

theorem Same.symm (same : r.Same r') : r'.Same r :=
  ⟨same.topic.symm, same.numPartitions.symm, same.replicationFactor.symm,
    same.replicaAssignment.symm, same.configs.symm⟩

theorem Same.trans {r'' : CreateTopicRequest} (same : r.Same r') (same' : r'.Same r'') :
    r.Same r'' :=
  ⟨same.topic.trans same'.topic, same.numPartitions.trans same'.numPartitions,
    same.replicationFactor.trans same'.replicationFactor,
    same.replicaAssignment.trans same'.replicaAssignment, same.configs.trans same'.configs⟩

/-- The keys of a map are distinct. -/
def Distinct (r : CreateTopicRequest) : Prop :=
  (r.replicaAssignment.entries.map Prod.fst).Nodup ∧ (r.configs.entries.map Prod.fst).Nodup

theorem Distinct.of_same (distinct : r'.Distinct) (same : r.Same r') : r.Distinct :=
  ⟨(same.replicaAssignment.map _).nodup_iff.mpr distinct.1,
    (same.configs.map _).nodup_iff.mpr distinct.2⟩

structure Limits (r : CreateTopicRequest) : Prop where
  topic : r.topic.length ≤ maxInt16
  replicaAssignment : r.replicaAssignment.entries.length ≤ maxArrayLength
  replicas : ∀ e ∈ r.replicaAssignment.entries, e.2.length ≤ maxArrayLength
  configs : r.configs.entries.length ≤ maxArrayLength
  settings : ∀ e ∈ r.configs.entries, e.1.length ≤ maxInt16 ∧ (e.2.getD []).length ≤ maxInt16

theorem Limits.of_same (limits : r'.Limits) (same : r.Same r') : r.Limits where
  topic := by
    rw [same.topic]
    exact limits.topic
  replicaAssignment := by
    rw [same.replicaAssignment.length_eq]
    exact limits.replicaAssignment
  replicas e inside := limits.replicas e (same.replicaAssignment.mem_iff.mp inside)
  configs := by
    rw [same.configs.length_eq]
    exact limits.configs
  settings e inside := limits.settings e (same.configs.mem_iff.mp inside)

/-- What the reader accepts is within the limits once its maps are made. -/
theorem limits_assigned (ok : codec.Ok r) : r.assigned.Limits := by
  simp only [codec, assignments, settings, Codec.iso_Ok, Codec.pair_Ok, Codec.entries_Ok,
    Codec.replicas_Ok, Codec.string_Ok, Codec.nullableString_Ok] at ok
  obtain ⟨⟨topic, -, -, ⟨⟨assigned, replicas⟩, -⟩, ⟨configured, named⟩, -⟩, -⟩ := ok
  have fewer {κ ν : Type} [DecidableEq κ] (es : List (κ × ν)) :
      (GoMap.assign [] es).length ≤ es.length := by
    simpa using GoMap.length_assign_le [] es
  have among {κ ν : Type} [DecidableEq κ] {es : List (κ × ν)} {e : κ × ν}
      (inside : e ∈ GoMap.assign [] es) : e ∈ es := by
    simpa using GoMap.mem_assign inside
  exact
    { topic := topic
      replicaAssignment := (fewer _).trans assigned
      replicas := fun e inside => (replicas e.1 e.2 (among inside)).2
      configs := (fewer _).trans configured
      settings := fun e inside => named e.1 e.2 (among inside) }

/-- A request whose maps are not nil. -/
def made (r : CreateTopicRequest) : CreateTopicRequest :=
  { r with
    replicaAssignment := some r.replicaAssignment.entries
    configs := some r.configs.entries }

theorem fit_made (limits : r.Limits) : codec.Fit r.made := by
  have pairs : assignments.Fit r.made.replicaAssignment := by
    rw [assignments, Codec.fit_entries]
    refine ⟨limits.replicaAssignment, fun e inside => ?_, rfl⟩
    rw [Codec.fit_pair, Codec.fit_replicas]
    exact ⟨Codec.fit_int32 _, limits.replicas e inside⟩
  have named : settings.Fit r.made.configs := by
    rw [settings, Codec.fit_entries]
    refine ⟨limits.configs, fun e inside => ?_, rfl⟩
    rw [Codec.fit_pair, Codec.fit_string, Codec.fit_nullableString]
    exact limits.settings e inside
  simp only [codec, Codec.fit_iso, Codec.fit_pair, Codec.fit_string, Codec.fit_int32,
    Codec.fit_int16, true_and]
  exact ⟨⟨limits.topic, pairs, named⟩, trivial⟩

theorem assigned_same (distinct : r.Distinct) : r.assigned.Same r := by
  have kept {κ ν : Type} [DecidableEq κ] {es : List (κ × ν)} (nodup : (es.map Prod.fst).Nodup) :
      (GoMap.assigned es).entries.Perm es := by
    change (GoMap.assign [] es).Perm es
    rw [GoMap.assign_of_nodup (by rwa [append_nil]), append_nil]
    exact reverse_perm es
  exact ⟨rfl, rfl, rfl, kept distinct.1, kept distinct.2⟩

end CreateTopicRequest

namespace CreateTopicRequests

structure Same (r r' : CreateTopicRequests) : Prop where
  apiVersion : r.apiVersion = r'.apiVersion
  requests : List.Forall₂ CreateTopicRequest.Same r.requests r'.requests
  timeout : r.timeout = r'.timeout
  validateOnly : r.validateOnly = r'.validateOnly

theorem Same.refl (r : CreateTopicRequests) : r.Same r :=
  ⟨rfl, forall₂_same.mpr fun q _ => .refl q, rfl, rfl⟩

theorem Same.symm {r r' : CreateTopicRequests} (same : r.Same r') : r'.Same r :=
  ⟨same.apiVersion.symm, same.requests.flip.imp fun _ _ => CreateTopicRequest.Same.symm,
    same.timeout.symm, same.validateOnly.symm⟩

theorem Same.trans {r r' r'' : CreateTopicRequests} (same : r.Same r') (same' : r'.Same r'') :
    r.Same r'' :=
  ⟨same.apiVersion.trans same'.apiVersion, related_trans .trans same.requests same'.requests,
    same.timeout.trans same'.timeout, same.validateOnly.trans same'.validateOnly⟩

def Distinct (r : CreateTopicRequests) : Prop := ∀ q ∈ r.requests, q.Distinct

theorem Distinct.of_same {r r' : CreateTopicRequests} (distinct : r'.Distinct)
    (same : r.Same r') : r.Distinct := by
  intro q inside
  obtain ⟨q', inside', equal⟩ := related_of_mem same.requests.flip inside
  exact (distinct q' inside').of_same equal

structure Limits (r : CreateTopicRequests) : Prop where
  requests : r.requests.length ≤ maxArrayLength
  each : ∀ q ∈ r.requests, q.Limits
  timeout : WholeMillis r.timeout
  validateOnly : r.validateOnly = false

theorem Limits.of_same {r r' : CreateTopicRequests} (limits : r'.Limits) (same : r.Same r') :
    r.Limits where
  requests := by
    rw [same.requests.length_eq]
    exact limits.requests
  each q inside := by
    obtain ⟨q', inside', equal⟩ := related_of_mem same.requests.flip inside
    exact (limits.each q' inside').of_same equal
  timeout := by
    rw [same.timeout]
    exact limits.timeout
  validateOnly := by
    rw [same.validateOnly]
    exact limits.validateOnly

/-- What comes back is of version 0, whatever the version was. -/
theorem apiVersion_of_decode {version : Int16} {d d' : ByteDecoder} {back : CreateTopicRequests}
    (ran : (decode version).run d = .ok back d') : back.apiVersion = 0 := by
  obtain ⟨_, _, _, rest⟩ := bind_eq_ok ran
  obtain ⟨_, _, _, rest⟩ := bind_eq_ok rest
  obtain ⟨_, _, _, done⟩ := bind_eq_ok rest
  obtain ⟨rfl, -⟩ := Result.ok.inj done
  rfl

/-- Whatever the reader makes of a request of version 0 is within the limits. -/
theorem limits_of_decode {d d' : ByteDecoder} {back : CreateTopicRequests}
    (inside : d.off ≤ d.b.length) (ran : (decode 0).run d = .ok back d') : back.Limits := by
  rw [decode_eq] at ran
  obtain ⟨wire, _, read, done⟩ := bind_eq_ok ran
  obtain ⟨rfl, -⟩ := Result.ok.inj done
  obtain ⟨⟨⟨⟨few, each⟩, timeout⟩, whole⟩, -⟩ := codec.uses _ _ _ inside read
  exact
    { requests := by
        rw [assigned, length_map]
        exact few
      each := by
        intro q inside
        obtain ⟨r, among, rfl⟩ := mem_map.mp inside
        exact CreateTopicRequest.limits_assigned (each r among)
      timeout := ofMillis_millis.mp timeout.2
      validateOnly := (congrArg validateOnly whole).symm }

/-- Requests of version 0 within the limits come back, maps included. -/
theorem persists {r : CreateTopicRequests} (distinct : r.Distinct) (old : r.apiVersion = 0)
    (limits : r.Limits) : ∃ back, RoundTrips r.puts (decode 0) back ∧ back.Same r := by
  let made : CreateTopicRequests := { r with requests := r.requests.map CreateTopicRequest.made }
  have fit : codec.Fit made := by
    simp only [codec, Codec.fit_iso, Codec.fit_pair, Codec.fit_array]
    refine ⟨⟨⟨?_, ?_⟩, ?_⟩, ?_⟩
    · rw [length_map]
      exact limits.requests
    · intro q inside
      obtain ⟨q, among, rfl⟩ := mem_map.mp inside
      exact CreateTopicRequest.fit_made (limits.each q among)
    · exact Codec.fit_millis.mpr limits.timeout
    · rw [← old, ← limits.validateOnly]
  have lay : r.puts = codec.lay made := by
    have same : r.requests.flatMap CreateTopicRequest.codec.lay =
        made.requests.flatMap CreateTopicRequest.codec.lay := by
      rw [flatMap_map]
      rfl
    rw [puts_eq old]
    simp only [codec, Codec.iso_lay, Codec.pair_lay, Codec.array_lay, same]
    rw [length_map]
  obtain ⟨b, encoded, decoded⟩ := (codec.roundTrips_iff lay rfl).mpr fit
  refine ⟨made.assigned, ⟨b, encoded, ?_⟩, ⟨rfl, ?_, rfl, rfl⟩⟩
  · rw [decode_eq, bind_ok decoded]
    rfl
  · change Forall₂ _ ((r.requests.map _).map _) _
    rw [map_map, forall₂_map_left_iff, forall₂_same]
    intro q inside
    exact CreateTopicRequest.assigned_same (distinct q inside)

theorem survives_iff {r : CreateTopicRequests} (distinct : r.Distinct) :
    (∀ order : CreateTopicRequests, order.Same r →
      ∃ back, RoundTrips order.puts (decode r.apiVersion) back ∧ back.Same r) ↔
      r.apiVersion = 0 ∧ r.Limits := by
  constructor
  · intro survive
    obtain ⟨back, ⟨b, -, decoded⟩, same⟩ := survive r (Same.refl r)
    have old : r.apiVersion = 0 := same.apiVersion.symm.trans (apiVersion_of_decode decoded)
    rw [old] at decoded
    exact ⟨old, (limits_of_decode (Nat.zero_le _) decoded).of_same same.symm⟩
  · rintro ⟨old, limits⟩ order same
    obtain ⟨back, survives', same'⟩ := persists (distinct.of_same same)
      (same.apiVersion.trans old) (limits.of_same same)
    rw [old]
    exact ⟨back, survives', same'.trans same⟩

end CreateTopicRequests

end CreateTopics

/-- No list of versions survives, and topics to create do at version 0 only. -/
theorem admin_messages_survive_iff (c : APIVersionsResponse) (r : CreateTopicRequests)
    (distinct : r.Distinct) :
    ¬ RoundTrips c.puts (APIVersionsResponse.decode c.apiVersion) c ∧
    ((∀ order : CreateTopicRequests, order.Same r →
      ∃ back, RoundTrips order.puts (CreateTopicRequests.decode r.apiVersion) back ∧
        back.Same r) ↔ r.apiVersion = 0 ∧ r.Limits) :=
  ⟨c.not_survives, CreateTopicRequests.survives_iff distinct⟩

/-- One topic with two assignments, a setting and a null setting. -/
theorem create_topics_survives_at_zero :
    let r : CreateTopicRequests := ⟨0, [⟨[116], 2, 1, some [(0, [1, 2]), (1, [2])],
      some [([97], some [98]), ([99], none)]⟩], 1000000, false⟩
    ∃ back, RoundTrips r.puts (CreateTopicRequests.decode 0) back ∧ back.Same r := by
  intro r
  have distinct : r.Distinct := by
    intro q inside
    obtain rfl := mem_singleton.mp inside
    exact ⟨by decide, by decide⟩
  have limits : r.Limits := by
    refine ⟨by decide, ?_, ⟨1, by decide⟩, rfl⟩
    intro q inside
    obtain rfl := mem_singleton.mp inside
    exact ⟨by decide, by decide, by decide, by decide, by decide⟩
  exact (admin_messages_survive_iff ⟨0, 0, [], 0⟩ r distinct).2.mpr ⟨rfl, limits⟩ r (.refl r)

/-- The error code and half of the count are taken for an empty list, and a request of version 1
comes back as one of version 0. -/
theorem admin_messages_lost :
    ((encode (APIVersionsResponse.puts ⟨0, 0, [⟨18, 0, 1⟩], 0⟩)).toOption.map fun b =>
      ((APIVersionsResponse.decode 0).run (newDecoder b)).returned) = some (some ⟨0, 0, [], 0⟩) ∧
    ((encode (CreateTopicRequests.puts ⟨1, [], 0, true⟩)).toOption.map fun b =>
      ((CreateTopicRequests.decode 1).run (newDecoder b)).returned) =
      some (some ⟨0, [], 0, true⟩) := by
  decide +kernel

end Jocko.Protocol
