import OnPremGateway.RuntimeTypes
import OnPremGateway.InstanceModel
import OnPremGateway.InstanceScaler

/-!
# The resolver's vocabulary

What the gateway stores about its servers, applications and model mappings,
what it reads of them while a request is routed, and the request itself. An
optional collaborator of the resolver is an option: without it the reading is
missing and the functions that ask for it pass every candidate.
-/

set_option autoImplicit false

namespace OnPremGateway.RoutingTypes
open RuntimeTypes InstanceModel

inductive Status where
  | active
  | maintenance
  | disabled
  | other (text : String)
  deriving DecidableEq, Repr

inductive Health where
  | unknown
  | healthy
  | degraded
  | unhealthy
  | other (text : String)
  deriving DecidableEq, Repr

inductive Provider where
  | serverAgent
  | other (name : String)
  deriving DecidableEq, Repr

inductive EndpointMode where
  | disabled
  | translate
  | passthrough
  | other (text : String)
  deriving DecidableEq, Repr

structure AIServer where
  id : String
  status : Status := .active
  healthStatus : Health := .unknown
  deriving DecidableEq, Repr

structure Application where
  id : String
  serverID : String
  type : Provider := .other ""
  apiFlavors : List String := []
  priority : ℤ := 0
  weight : ℤ := 0
  affinityTTLSeconds : ℤ := 0
  admissionQueueTimeoutSeconds : ℤ := 0
  status : Status := .active
  responsesMode : EndpointMode := .translate
  messagesMode : EndpointMode := .translate
  deriving DecidableEq, Repr

/-- A metric of 0 is unknown. -/
structure ModelMapping where
  id : String
  applicationID : String
  gatewayModelName : String
  appModelName : String := ""
  status : Status := .active
  genTokensPerSecond : ℚ := 0
  promptTokensPerSecond : ℚ := 0
  contextSize : ℤ := 0
  maxConcurrency : ℤ := 0
  recommendedConcurrency : ℤ := 0
  genTokensPerSecondAtCapacity : ℚ := 0
  audioRateX : ℚ := 0
  deriving DecidableEq, Repr

structure MappingCandidate where
  server : AIServer
  application : Application
  mapping : ModelMapping
  instanceIdx : ℤ := 0
  instanceCapable : Bool := false
  instanceParallelism : ℤ := 0
  instancePool : Bool := false
  deriving DecidableEq, Repr

inductive Verdict where
  | yes
  | no
  deriving DecidableEq, Repr

structure CapabilityRow where
  capability : String
  verdict : Verdict
  deriving DecidableEq, Repr

/-- A row of a mapping's voices cache: its payload is blank, lists names (a
JSON null lists none), or does not decode. -/
inductive VoicesPayload where
  | blank
  | names (list : List String)
  | corrupt
  deriving DecidableEq, Repr

structure VoicesRow where
  scopeKey : String := ""
  payload : VoicesPayload
  deriving DecidableEq, Repr

/-- An error rate that is not a finite number is `none`. -/
structure ServerTelemetry where
  reportedAt : ℤ := 0
  activeRequests : ℤ := 0
  queueDepth : ℤ := 0
  latencyMS : ℤ := 0
  errorRate : Option ℚ := some 0
  deriving DecidableEq, Repr

structure AffinityKey where
  apiTokenID : String
  model : String
  apiFlavor : String
  sessionID : String
  deriving DecidableEq, Repr

structure RouteAffinity where
  userID : String
  resolvedModel : String := ""
  applicationID : String
  serverID : String
  instanceIdx : ℤ := 0
  expiresAt : ℤ
  lastUsedAt : ℤ
  createdAt : ℤ
  updatedAt : ℤ
  deriving DecidableEq, Repr

structure Token where
  id : String
  userID : String := ""
  deriving DecidableEq, Repr

structure GroupMember where
  memberGatewayName : String
  deriving DecidableEq, Repr

inductive FailoverMode where
  | climbUp
  | other (text : String)
  deriving DecidableEq, Repr

inductive MemberOrder where
  | speed
  | other (text : String)
  deriving DecidableEq, Repr

inductive MinSpeedFallback where
  | ignore
  | other (text : String)
  deriving DecidableEq, Repr

structure GroupPolicy where
  failoverMode : FailoverMode := .other "sticky"
  memberOrder : MemberOrder := .other "priority"
  loadedOnly : Bool := false
  climbSpeedMarginPercent : ℤ := 0
  minTokensPerSecond : ℚ := 0
  minSpeedFallback : MinSpeedFallback := .other "error"
  suppressWarm : Bool := false
  deriving DecidableEq, Repr

/-- A request as routing reads it; a message is its text. -/
structure Request where
  model : String
  apiFlavor : String
  requiredCapabilities : List String := []
  requiredVoice : String := ""
  sessionID : String := ""
  clientSessionID : String := ""
  messages : List String := []
  maxTokens : ℤ := 0
  liveSession : Bool := false
  excludeInstanceKeys : List String := []
  admissionStart : ℤ := 0
  noPark : Bool := false
  checkOnly : Bool := false
  realtimeRequired : Bool := false
  preferredInstanceKey : String := ""
  serverOverrideID : String := ""
  serverOverrideForceUnreachable : Bool := false
  deriving DecidableEq, Repr

/-- A demand as the resolver sends it: what the scaler keys its passes by, and
whether it is for a live slot. -/
structure Demand extends InstanceScaler.DemandSignal where
  live : Bool := false
  deriving DecidableEq, Repr

/-- What a request finds when every candidate that passed the gates is at its
cap. -/
structure AtCapacity where
  demand : Option Demand
  pool : List MappingCandidate
  instancePool : Bool
  deriving DecidableEq, Repr

/-- How a call fails. A failed read of the store or of a gate carries the text
it is wrapped in; `parked` is no answer: the call waits in the admission queue
and nothing has woken it. -/
inductive RoutingError where
  | noModelRoute
  | noHealthyHost
  | voiceUnavailable
  | modelNotCapable
  | noRealtimeCandidate
  | queueTimeout
  | queueFull
  | contextEnded
  | allAtCapacity (ac : AtCapacity)
  | pinnedInstancesGone
  | pinServerUnusable
  | serverOverrideModelUnavailable
  | serverOverrideServerUnavailable
  | failed (what : String)
  | parked
  deriving DecidableEq, Repr

structure Target where
  routeID : String
  serverID : String
  model : String
  providerModel : String
  instanceKey : String
  instanceCapable : Bool
  instancePool : Bool
  apiFlavor : String
  deriving DecidableEq, Repr

structure InstanceView where
  parallelism : ℤ := 0
  running : List ℤ := []
  deriving DecidableEq, Repr

structure RuntimeModelState where
  state : String := ""
  active : ℤ := 0
  queue : ℤ := 0
  known : Bool := false
  metricsKnown : Bool := false
  deriving DecidableEq, Repr

structure ServerActivity where
  inFlight : ℤ := 0
  lastCompletedAt : ℤ := 0
  deriving DecidableEq, Repr

inductive StoreRead where
  | activeMappings (model flavor : String)
  | telemetry (serverID : String)
  | affinity (key : AffinityKey)
  | upsertAffinity (key : AffinityKey)
  | deleteAffinity (key : AffinityKey)
  | application (id : String)
  | server (id : String)
  | mappingsOf (applicationID : String)
  | capabilities (mappingID : String)
  | capabilitiesFor (mappingIDs : List String)
  | voicesFor (mappingIDs : List String)
  | runtimeSpec (mappingID : String)
  deriving DecidableEq, Repr

/-- Distinct sessions recently served on a server, each with when it was last
seen there. -/
abbrev Reservations := AList (fun _ : String => AList (fun _ : String => ℤ))

/-- What one turn of a request finds: the readings of the resolver's
collaborators, and the sessions and pins other requests share with it. -/
structure Moment where
  reachable : Option (String → Bool) := none
  busy : Option (String → Bool) := none
  loaded : Option (String → String → List String) := none
  activity : Option (String → ServerActivity) := none
  instanceActivity : Option (String → ℤ) := none
  liveSlots : Option (String → Bool) := none
  runtimeState : Option (String → String → RuntimeModelState) := none
  instances : Option (String → ModelMapping → Option InstanceView) := none
  telemetry : String → Option ServerTelemetry := fun _ => none
  fault : StoreRead → Bool := fun _ => false
  hasRoom : Bool := true
  reservations : Reservations := ∅
  affinities : AList (fun _ : AffinityKey => RouteAffinity) := ∅

structure GroupTable where
  group : String → Option (List GroupMember × GroupPolicy)
  directAllowed : String → Bool

/-- The resolver's configuration. A provisioning gate decides server by server
which of them a principal may use; a session is remembered under a digest of
its affinity key. -/
structure Resolver where
  admission : Bool := false
  demand : Bool := false
  warmer : Bool := false
  provisioning : Option (Token → Except String (String → Bool)) := none
  groups : Option GroupTable := none
  swapProtectWindow : ℤ := 0
  realtimeMinFactor : ℚ := 0
  legacyAffinity : Bool := false
  reservationWindow : ℤ := 0
  affinityID : AffinityKey → String := fun key =>
    "aff_" ++ key.apiTokenID ++ "\x00" ++ key.model ++ "\x00" ++ key.apiFlavor ++ "\x00" ++ key.sessionID

/-- The stored servers, applications and mappings, each under its own id, and
what is known of each mapping. Lists stand in the order of their ids. -/
structure Store where
  servers : List AIServer := []
  applications : List Application := []
  mappings : List ModelMapping := []
  capabilities : String → List CapabilityRow := fun _ => []
  voices : String → List VoicesRow := fun _ => []
  servers_nodup : (servers.map AIServer.id).Nodup := by decide
  applications_nodup : (applications.map Application.id).Nodup := by decide
  mappings_nodup : (mappings.map ModelMapping.id).Nodup := by decide

def instanceKey (mappingID : String) (k : ℤ) : String := mappingID ++ "#" ++ toString k

def MappingCandidate.key (c : MappingCandidate) : String := instanceKey c.mapping.id c.instanceIdx

def MappingCandidate.address (c : MappingCandidate) : String :=
  instanceAddress c.mapping.appModelName c.instanceIdx

def capabilityTranscription : String := "transcription"
def capabilitySpeech : String := "speech"
def capabilitySpeechClone : String := "speech_clone"
def capabilityImage : String := "image"
def capabilityImageEdit : String := "image_edit"

def apiFlavorOpenAI : String := "openai"
def apiFlavorAnthropic : String := "anthropic"
def apiFlavorOpenAIImages : String := "openai_images"
def apiFlavorOpenAIAudio : String := "openai_audio"
def apiFlavorOpenAIResponses : String := "openai_responses"
def apiFlavorAnthropicMessages : String := "anthropic_messages"

def hasPrefix (s head : String) : Bool := head.toList.isPrefixOf s.toList

def toLower (s : String) : String :=
  String.ofList (s.toList.map fun c => if c = 'İ' then 'i' else if c = 'K' then 'k' else c.toLower)

def normalizeAPIFlavor (apiFlavor : String) : String :=
  let normalized := toLower (trimSpace apiFlavor)
  if hasPrefix normalized apiFlavorOpenAIImages then apiFlavorOpenAIImages
  else if hasPrefix normalized apiFlavorOpenAIAudio then apiFlavorOpenAIAudio
  else if hasPrefix normalized "openai" then apiFlavorOpenAI
  else if hasPrefix normalized "anthropic" then apiFlavorAnthropic
  else normalized

def readStore {α : Type} (fault : StoreRead → Bool) (q : StoreRead) (what : String) (a : α) :
    Except RoutingError α :=
  if fault q then .error (.failed what) else .ok a

theorem readStore_ok_iff {α : Type} (fault : StoreRead → Bool) (q : StoreRead) (what : String)
    (a b : α) : readStore fault q what a = .ok b ↔ fault q = false ∧ a = b := by
  rw [readStore]
  cases fault q <;> simp

theorem readStore_error_iff {α : Type} (fault : StoreRead → Bool) (q : StoreRead) (what : String)
    (a : α) (e : RoutingError) :
    readStore fault q what a = .error e ↔ fault q = true ∧ .failed what = e := by
  rw [readStore]
  cases fault q <;> simp

def applicationHasAPIFlavor (app : Application) (apiFlavor : String) : Bool :=
  app.apiFlavors.contains apiFlavor

def Store.serverByID (st : Store) (id : String) : Option AIServer :=
  st.servers.find? (fun s => s.id = id)

def Store.applicationByID (st : Store) (id : String) : Option Application :=
  st.applications.find? (fun a => a.id = id)

def Store.candidateOf (st : Store) (gatewayModel apiFlavor : String) (mapping : ModelMapping) :
    Option MappingCandidate :=
  if mapping.status ≠ .active ∨ mapping.gatewayModelName ≠ gatewayModel then none
  else
    match st.applicationByID mapping.applicationID with
    | none => none
    | some app =>
      if app.status ≠ .active ∨ applicationHasAPIFlavor app apiFlavor = false then none
      else (st.serverByID app.serverID).map fun server => ⟨server, app, mapping, 0, false, 0, false⟩

def Store.activeMappingsForModel (st : Store) (gatewayModel apiFlavor : String) :
    List MappingCandidate :=
  st.mappings.filterMap (st.candidateOf gatewayModel apiFlavor)

def Store.mappingsByApplication (st : Store) (applicationID : String) : List ModelMapping :=
  st.mappings.filter fun m => m.applicationID = applicationID

/-- A store candidate is the mapping with its own application and server. -/
theorem Store.candidateOf_eq_some (st : Store) (gatewayModel apiFlavor : String)
    (mapping : ModelMapping) (c : MappingCandidate) :
    st.candidateOf gatewayModel apiFlavor mapping = some c ↔
      mapping.status = .active ∧ mapping.gatewayModelName = gatewayModel ∧
      ∃ app server, st.applicationByID mapping.applicationID = some app ∧ app.status = .active ∧
        applicationHasAPIFlavor app apiFlavor = true ∧ st.serverByID app.serverID = some server ∧
        c = ⟨server, app, mapping, 0, false, 0, false⟩ := by
  rw [Store.candidateOf]
  by_cases hm : mapping.status ≠ .active ∨ mapping.gatewayModelName ≠ gatewayModel
  · rw [if_pos hm]
    constructor
    · intro h
      cases h
    · rintro ⟨ha,hn,-⟩
      exact (hm.elim (fun h => h ha) (fun h => h hn)).elim
  rw [if_neg hm, not_or, not_not, not_not] at *
  cases happ : st.applicationByID mapping.applicationID with
  | none => simp
  | some app =>
    by_cases ha : app.status ≠ .active ∨ applicationHasAPIFlavor app apiFlavor = false
    · simp only [ha, if_true]
      constructor
      · intro h
        cases h
      · rintro ⟨-,-,app',server,h,hs,hf,-⟩
        cases h
        exact (ha.elim (fun h => h hs) (fun h => by rw [hf] at h; cases h)).elim
    simp only [ha, if_false, Option.map_eq_some_iff]
    rw [not_or, not_not, Bool.not_eq_false] at ha
    constructor
    · rintro ⟨server,hs,rfl⟩
      exact ⟨hm.1,hm.2,app,server,rfl,ha.1,ha.2,hs,rfl⟩
    · rintro ⟨-,-,app',server,h,-,-,hs,hc⟩
      cases h
      exact ⟨server,hs,hc.symm⟩

end OnPremGateway.RoutingTypes
