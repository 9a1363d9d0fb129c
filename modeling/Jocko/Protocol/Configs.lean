import Jocko.Protocol.Responses

namespace Jocko.Protocol

open Go ByteDecoder Codec

section AlterConfigs

structure AlterConfigsEntry where
  name : Str
  value : Option Str

structure AlterConfigsResource where
  type : Int8
  name : Str
  entries : List AlterConfigsEntry

structure AlterConfigsRequest where
  apiVersion : Int16
  resources : List AlterConfigsResource
  validateOnly : Bool

structure AlterConfigResourceResponse where
  errorCode : Int16
  errorMessage : Option Str
  type : Int8
  name : Str

structure AlterConfigsResponse where
  apiVersion : Int16
  throttleTime : Int
  resources : List AlterConfigResourceResponse

def AlterConfigsEntry.puts (e : AlterConfigsEntry) : List Put :=
  [.string e.name, .nullableString e.value]

def AlterConfigsResource.puts (r : AlterConfigsResource) : List Put :=
  [.int8 r.type, .string r.name, .arrayLength r.entries.length] ++
    r.entries.flatMap AlterConfigsEntry.puts

/-- `AlterConfigsRequest.Encode` -/
def AlterConfigsRequest.puts (r : AlterConfigsRequest) : List Put :=
  [.arrayLength r.resources.length] ++ r.resources.flatMap AlterConfigsResource.puts ++
    [.bool r.validateOnly]

def AlterConfigsEntry.decode : Call ByteDecoder AlterConfigsEntry := do
  let name ← string
  let value ← nullableString
  return { name, value }

def AlterConfigsResource.decode : Call ByteDecoder AlterConfigsResource := do
  let type ← int8
  let name ← string
  let entries ← array AlterConfigsEntry.decode
  return { type, name, entries }

/-- `AlterConfigsRequest.Decode` -/
def AlterConfigsRequest.decode (version : Int16) : Call ByteDecoder AlterConfigsRequest := do
  let resources ← array AlterConfigsResource.decode
  let validateOnly ← bool
  return { apiVersion := version, resources, validateOnly }

def AlterConfigResourceResponse.puts (r : AlterConfigResourceResponse) : List Put :=
  [.int16 r.errorCode, .nullableString r.errorMessage, .int8 r.type, .string r.name]

/-- `AlterConfigsResponse.Encode`, for a number of resources that `PutArrayLength` takes: its error
is not looked at. -/
def AlterConfigsResponse.puts (r : AlterConfigsResponse) : List Put :=
  [.int32 (millis r.throttleTime), .arrayLength r.resources.length] ++
    r.resources.flatMap AlterConfigResourceResponse.puts

def AlterConfigResourceResponse.decode : Call ByteDecoder AlterConfigResourceResponse := do
  let errorCode ← int16
  let errorMessage ← nullableString
  let type ← int8
  let name ← string
  return { errorCode, errorMessage, type, name }

/-- `AlterConfigsResponse.Decode` -/
def AlterConfigsResponse.decode (version : Int16) : Call ByteDecoder AlterConfigsResponse := do
  let throttle ← int32
  let resources ← array AlterConfigResourceResponse.decode
  return { apiVersion := version, throttleTime := ofMillis throttle, resources }

def AlterConfigsEntry.codec : Codec AlterConfigsEntry :=
  (Codec.string.pair .nullableString).iso (fun p => ⟨p.1, p.2⟩) (fun e => (e.name, e.value))

def AlterConfigsResource.codec : Codec AlterConfigsResource :=
  (Codec.int8.pair (Codec.string.pair
    AlterConfigsEntry.codec.array)).iso
    (fun p => ⟨p.1, p.2.1, p.2.2⟩) (fun r => (r.type, r.name, r.entries))

def AlterConfigsRequest.codec (version : Int16) : Codec AlterConfigsRequest :=
  (AlterConfigsResource.codec.array.pair .bool).iso
    (fun p => ⟨version, p.1, p.2⟩) (fun r => (r.resources, r.validateOnly))

def AlterConfigResourceResponse.codec : Codec AlterConfigResourceResponse :=
  (Codec.int16.pair (Codec.nullableString.pair (Codec.int8.pair .string))).iso
    (fun p => ⟨p.1, p.2.1, p.2.2.1, p.2.2.2⟩)
    (fun r => (r.errorCode, r.errorMessage, r.type, r.name))

def AlterConfigsResponse.codec (version : Int16) : Codec AlterConfigsResponse :=
  (Codec.millis.pair
    AlterConfigResourceResponse.codec.array).iso
    (fun p => ⟨version, p.1, p.2⟩) (fun r => (r.throttleTime, r.resources))

theorem AlterConfigsEntry.coded : puts = codec.lay ∧ decode = codec.dec := by
  simp [funext_iff, puts, decode, codec]

theorem AlterConfigsResource.coded : puts = codec.lay ∧ decode = codec.dec := by
  simp [funext_iff, puts, decode, codec, AlterConfigsEntry.coded]

theorem AlterConfigResourceResponse.coded : puts = codec.lay ∧ decode = codec.dec := by
  simp [funext_iff, puts, decode, codec]

def AlterConfigsRequest.Limits (r : AlterConfigsRequest) : Prop :=
  r.resources.length ≤ maxArrayLength ∧ ∀ s ∈ r.resources, s.name.length ≤ maxInt16 ∧
    s.entries.length ≤ maxArrayLength ∧
    ∀ e ∈ s.entries, e.name.length ≤ maxInt16 ∧ (e.value.getD []).length ≤ maxInt16

def AlterConfigsResponse.Limits (r : AlterConfigsResponse) : Prop :=
  WholeMillis r.throttleTime ∧ r.resources.length ≤ maxArrayLength ∧
    ∀ s ∈ r.resources, (s.errorMessage.getD []).length ≤ maxInt16 ∧ s.name.length ≤ maxInt16

theorem AlterConfigsRequest.survives_iff (r : AlterConfigsRequest) :
    RoundTrips r.puts (decode r.apiVersion) r ↔ r.Limits := by
  refine (codec r.apiVersion).carries
    (by simp [puts, decode, codec, AlterConfigsResource.coded]) ?_
  simp [codec, AlterConfigsResource.codec, AlterConfigsEntry.codec, Limits]

theorem AlterConfigsResponse.survives_iff (r : AlterConfigsResponse) :
    RoundTrips r.puts (decode r.apiVersion) r ↔ r.Limits := by
  refine (codec r.apiVersion).carries
    (by simp [puts, decode, codec, AlterConfigResourceResponse.coded]) ?_
  simp [codec, AlterConfigResourceResponse.codec, Limits]

end AlterConfigs

section DescribeConfigs

structure DescribeConfigsResource where
  type : Int8
  name : Str
  configNames : List Str

structure DescribeConfigsRequest where
  apiVersion : Int16
  resources : List DescribeConfigsResource
  includeSynonyms : Bool

structure DescribeConfigsSynonym where
  name : Str
  value : Option Str
  source : Int8

structure DescribeConfigsEntry where
  name : Str
  value : Option Str
  readOnly : Bool
  isDefault : Bool
  isSensitive : Bool
  synonyms : List DescribeConfigsSynonym

structure DescribeConfigsResourceResponse where
  errorCode : Int16
  errorMessage : Option Str
  type : Int8
  name : Str
  configEntries : List DescribeConfigsEntry

structure DescribeConfigsResponse where
  apiVersion : Int16
  throttleTime : Int
  resources : List DescribeConfigsResourceResponse

def DescribeConfigsResource.puts (r : DescribeConfigsResource) : List Put :=
  [.int8 r.type, .string r.name, .stringArray r.configNames]

/-- `DescribeConfigsRequest.Encode` -/
def DescribeConfigsRequest.puts (r : DescribeConfigsRequest) : List Put :=
  [.arrayLength r.resources.length] ++ r.resources.flatMap DescribeConfigsResource.puts ++
    (if 1 ≤ r.apiVersion then [.bool r.includeSynonyms] else [])

def DescribeConfigsResource.decode : Call ByteDecoder DescribeConfigsResource := do
  let type ← int8
  let name ← string
  let configNames ← stringArray
  return { type, name, configNames }

/-- `DescribeConfigsRequest.Decode` -/
def DescribeConfigsRequest.decode (version : Int16) : Call ByteDecoder DescribeConfigsRequest := do
  let resources ← array DescribeConfigsResource.decode
  let includeSynonyms ← when (1 ≤ version) bool false
  return { apiVersion := version, resources, includeSynonyms }

def DescribeConfigsSynonym.puts (s : DescribeConfigsSynonym) : List Put :=
  [.string s.name, .nullableString s.value, .int8 s.source]

def DescribeConfigsEntry.puts (version : Int16) (e : DescribeConfigsEntry) : List Put :=
  [.string e.name, .nullableString e.value, .bool e.readOnly, .bool e.isDefault,
    .bool e.isSensitive] ++
    (if 1 ≤ version then
      .arrayLength e.synonyms.length :: e.synonyms.flatMap DescribeConfigsSynonym.puts else [])

def DescribeConfigsResourceResponse.puts (version : Int16) (r : DescribeConfigsResourceResponse) :
    List Put :=
  [.int16 r.errorCode, .nullableString r.errorMessage, .int8 r.type, .string r.name,
    .arrayLength r.configEntries.length] ++
    r.configEntries.flatMap (DescribeConfigsEntry.puts version)

/-- `DescribeConfigsResponse.Encode` -/
def DescribeConfigsResponse.puts (r : DescribeConfigsResponse) : List Put :=
  [.int32 (millis r.throttleTime), .arrayLength r.resources.length] ++
    r.resources.flatMap (DescribeConfigsResourceResponse.puts r.apiVersion)

def DescribeConfigsSynonym.decode : Call ByteDecoder DescribeConfigsSynonym := do
  let name ← string
  let value ← nullableString
  let source ← int8
  return { name, value, source }

def DescribeConfigsEntry.decode (version : Int16) : Call ByteDecoder DescribeConfigsEntry := do
  let name ← string
  let value ← nullableString
  let readOnly ← bool
  let isDefault ← bool
  let isSensitive ← bool
  let synonyms ← when (1 ≤ version) (array DescribeConfigsSynonym.decode) []
  return { name, value, readOnly, isDefault, isSensitive, synonyms }

def DescribeConfigsResourceResponse.decode (version : Int16) :
    Call ByteDecoder DescribeConfigsResourceResponse := do
  let errorCode ← int16
  let errorMessage ← nullableString
  let type ← int8
  let name ← string
  let configEntries ← array (DescribeConfigsEntry.decode version)
  return { errorCode, errorMessage, type, name, configEntries }

/-- `DescribeConfigsResponse.Decode` -/
def DescribeConfigsResponse.decode (version : Int16) :
    Call ByteDecoder DescribeConfigsResponse := do
  let throttle ← int32
  let resources ← array (DescribeConfigsResourceResponse.decode version)
  return { apiVersion := version, throttleTime := ofMillis throttle, resources }

def DescribeConfigsResource.codec : Codec DescribeConfigsResource :=
  (Codec.int8.pair (Codec.string.pair .stringArray)).iso
    (fun p => ⟨p.1, p.2.1, p.2.2⟩) (fun r => (r.type, r.name, r.configNames))

def DescribeConfigsRequest.codec (version : Int16) : Codec DescribeConfigsRequest :=
  (DescribeConfigsResource.codec.array.pair
    (Codec.when (1 ≤ version) .bool false)).iso
    (fun p => ⟨version, p.1, p.2⟩) (fun r => (r.resources, r.includeSynonyms))

def DescribeConfigsSynonym.codec : Codec DescribeConfigsSynonym :=
  (Codec.string.pair (Codec.nullableString.pair .int8)).iso
    (fun p => ⟨p.1, p.2.1, p.2.2⟩) (fun s => (s.name, s.value, s.source))

def DescribeConfigsEntry.codec (version : Int16) : Codec DescribeConfigsEntry :=
  (Codec.string.pair (Codec.nullableString.pair (Codec.bool.pair (Codec.bool.pair
    (Codec.bool.pair (Codec.when (1 ≤ version)
      DescribeConfigsSynonym.codec.array [])))))).iso
    (fun p => ⟨p.1, p.2.1, p.2.2.1, p.2.2.2.1, p.2.2.2.2.1, p.2.2.2.2.2⟩)
    (fun e => (e.name, e.value, e.readOnly, e.isDefault, e.isSensitive, e.synonyms))

def DescribeConfigsResourceResponse.codec (version : Int16) :
    Codec DescribeConfigsResourceResponse :=
  (Codec.int16.pair (Codec.nullableString.pair (Codec.int8.pair (Codec.string.pair
    (DescribeConfigsEntry.codec version).array)))).iso
    (fun p => ⟨p.1, p.2.1, p.2.2.1, p.2.2.2.1, p.2.2.2.2⟩)
    (fun r => (r.errorCode, r.errorMessage, r.type, r.name, r.configEntries))

def DescribeConfigsResponse.codec (version : Int16) : Codec DescribeConfigsResponse :=
  (Codec.millis.pair (DescribeConfigsResourceResponse.codec version).array).iso
    (fun p => ⟨version, p.1, p.2⟩) (fun r => (r.throttleTime, r.resources))

theorem DescribeConfigsResource.coded : puts = codec.lay ∧ decode = codec.dec := by
  simp [funext_iff, puts, decode, codec]

theorem DescribeConfigsSynonym.coded : puts = codec.lay ∧ decode = codec.dec := by
  simp [funext_iff, puts, decode, codec]

theorem DescribeConfigsEntry.coded (version : Int16) :
    puts version = (codec version).lay ∧ decode version = (codec version).dec := by
  simp [funext_iff, puts, decode, codec, DescribeConfigsSynonym.coded]

theorem DescribeConfigsResourceResponse.coded (version : Int16) :
    puts version = (codec version).lay ∧ decode version = (codec version).dec := by
  simp [funext_iff, puts, decode, codec, DescribeConfigsEntry.coded]

def DescribeConfigsRequest.Limits (r : DescribeConfigsRequest) : Prop :=
  r.resources.length ≤ maxArrayLength ∧
    (∀ s ∈ r.resources, s.name.length ≤ maxInt16 ∧ s.configNames.length ≤ maxInt32 ∧
      ∀ name ∈ s.configNames, name.length ≤ maxInt16) ∧
    (¬ 1 ≤ r.apiVersion → r.includeSynonyms = false)

/-- Before version 1, an entry has no synonyms. -/
def DescribeConfigsEntry.Limits (version : Int16) (e : DescribeConfigsEntry) : Prop :=
  e.name.length ≤ maxInt16 ∧ (e.value.getD []).length ≤ maxInt16 ∧
    if 1 ≤ version then e.synonyms.length ≤ maxArrayLength ∧
      ∀ s ∈ e.synonyms, s.name.length ≤ maxInt16 ∧ (s.value.getD []).length ≤ maxInt16
    else e.synonyms = []

def DescribeConfigsResponse.Limits (r : DescribeConfigsResponse) : Prop :=
  WholeMillis r.throttleTime ∧ r.resources.length ≤ maxArrayLength ∧
    ∀ s ∈ r.resources, (s.errorMessage.getD []).length ≤ maxInt16 ∧ s.name.length ≤ maxInt16 ∧
      s.configEntries.length ≤ maxArrayLength ∧ ∀ e ∈ s.configEntries, e.Limits r.apiVersion

theorem DescribeConfigsRequest.survives_iff (r : DescribeConfigsRequest) :
    RoundTrips r.puts (decode r.apiVersion) r ↔ r.Limits := by
  refine (codec r.apiVersion).carries
    (by simp [puts, decode, codec, DescribeConfigsResource.coded]) ?_
  simp [codec, DescribeConfigsResource.codec, Limits, and_assoc]

theorem DescribeConfigsEntry.fit_iff {version : Int16} {e : DescribeConfigsEntry} :
    (codec version).Fit e ↔ e.Limits version := by
  simp [codec, DescribeConfigsSynonym.codec, Limits]

theorem DescribeConfigsResponse.survives_iff (r : DescribeConfigsResponse) :
    RoundTrips r.puts (decode r.apiVersion) r ↔ r.Limits := by
  refine (codec r.apiVersion).carries
    (by simp [puts, decode, codec, DescribeConfigsResourceResponse.coded]) ?_
  simp [codec, DescribeConfigsResourceResponse.codec, DescribeConfigsEntry.fit_iff, Limits]

end DescribeConfigs

end Jocko.Protocol
